import BusScript.Proofs.Engine.Sound

/-!
# Sessions

A **session** is the life of one engine: the target it is attached to, and the word that is
presented to it in each cycle, over as many runs as these words make. Cycles are counted from
zero. Every word may be presented in every cycle, and the target may answer as it likes, so
whatever holds of all sessions holds whoever feeds the engine.

The engines that occur in sessions of new engines are the **reachable** ones.

## Main results

* `Session.sound` — the engine is sound before every cycle.
* `Session.reachable` — a session that begins with a reachable engine meets no other.
-/

namespace BusScript

/-- The engines that some words and some answers lead to from a new one. -/
inductive Engine.Reachable (options : Options) : Engine → Prop
  | new : Reachable options (.new options)
  | step {e : Engine} (h : Reachable options e) (word : Command.Word) (answer : Bus.Response) :
      Reachable options (e.step word answer).1

/-- Every reachable engine is sound. -/
theorem Engine.Reachable.sound {options : Options} {e : Engine} (h : e.Reachable options) :
    e.Sound := by
  induction h with
  | new => exact sound_new options
  | step _ word answer ih => exact ih.step word answer

/-- An engine attached to a target, with the word that is presented in each cycle. -/
structure Session (τ : Type) where
  engine : Engine
  target : τ
  words : Nat → Command.Word

namespace Session

variable {τ : Type}

/-- A session of a new engine. -/
def new (options : Options) (target : τ) (words : Nat → Command.Word) : Session τ :=
  ⟨.new options, target, words⟩

variable [Bus.Target τ]

/-- The engine and the target before a cycle. -/
def state (s : Session τ) : Nat → Engine × τ
  | 0 => (s.engine, s.target)
  | t + 1 =>
    let (engine, target) := s.state t
    let (engine, target, _) := engine.cycle target (s.words t)
    (engine, target)

/-- The engine before a cycle. -/
def engineAt (s : Session τ) (t : Nat) : Engine := (s.state t).1

/-- The target before a cycle. -/
def targetAt (s : Session τ) (t : Nat) : τ := (s.state t).2

/-- The wires that the engine drives in a cycle. -/
def request (s : Session τ) (t : Nat) : Bus.Request := (s.engineAt t).request

/-- The wires that the target drives back in a cycle. -/
def answer (s : Session τ) (t : Nat) : Bus.Response :=
  (Bus.Target.respond (s.targetAt t) (s.request t)).1

/-- What the engine reports in a cycle. -/
def report (s : Session τ) (t : Nat) : Report :=
  ((s.engineAt t).cycle (s.targetAt t) (s.words t)).2.2

/-- The status before a cycle: the one that the cycle before has reported. -/
def status (s : Session τ) : Nat → Status
  | 0 => s.engine.status
  | t + 1 => (s.report t).status

variable (s : Session τ)

/-- Only the answer of the target matters to the engine. -/
theorem engineAt_succ (t : Nat) :
    s.engineAt (t + 1) = ((s.engineAt t).step (s.words t) (s.answer t)).1 := rfl

theorem report_eq (t : Nat) :
    s.report t = ((s.engineAt t).step (s.words t) (s.answer t)).2 := rfl

/-- Only the wires matter to the target. -/
theorem targetAt_succ (t : Nat) :
    s.targetAt (t + 1) = (Bus.Target.respond (s.targetAt t) (s.request t)).2 := rfl

/-- The engine still knows what it has reported. -/
theorem status_eq (t : Nat) : s.status t = (s.engineAt t).status := by
  cases t <;> rfl

/-- **A sound engine stays sound through every session.** -/
theorem sound (h : s.engine.Sound) (t : Nat) : (s.engineAt t).Sound := by
  induction t with
  | zero => exact h
  | succ t ih =>
      rw [engineAt_succ]
      exact ih.step _ _

/-- Whatever the target answers, a session goes from one reachable engine to the next. -/
theorem reachable {options : Options} (h : s.engine.Reachable options) (t : Nat) :
    (s.engineAt t).Reachable options := by
  induction t with
  | zero => exact h
  | succ t ih =>
      rw [engineAt_succ]
      exact ih.step _ _

end Session

end BusScript
