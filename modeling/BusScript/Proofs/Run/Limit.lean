import BusScript.Proofs.Engine.Parts
import BusScript.Proofs.Run.Ending
import BusScript.Proofs.Run.Stored

/-!
# The Limit on Cycles

An engine carries the limit on cycles among its options, but looks at none of its options beyond
the stride and the register defaults. So engines whose options are alike are **twins**: in every
cycle they report the same and drive the same wires, whatever their limits, and stay twins. What a
run would do without a limit is therefore a property of the system alone.

## Main results

* `Engine.Twin.step` — a cycle of twins reports the same and leaves twins.
* `Run.StreamSystem.Twin.cycle`, `Run.StoredSystem.Twin.cycle` — so do the systems around them.
* `Run.StoredSystem.endsIn_of_alike` — runs with different limits end in the same cycle.
-/

namespace BusScript

namespace Engine

/-- Engines that differ in their limit on cycles at most. -/
def Twin (e e' : Engine) : Prop :=
  ∃ options, e.options.Alike options ∧ e' = { e with options }

variable {e e' : Engine}

theorem Twin.request_eq (h : e.Twin e') : e.request = e'.request := by
  obtain ⟨options, -, rfl⟩ := h
  rfl

/-- Whatever their limits, new engines are twins. -/
theorem twin_new {options options' : Options} (h : options.Alike options') :
    (new options).Twin (new options') := by
  refine ⟨options', h, ?_⟩
  rw [new, new, h.registers_eq]

theorem Twin.stage_eq (h : e.Twin e') : e.stage = e'.stage := by
  obtain ⟨options, -, rfl⟩ := h
  rfl

/-! ### The parts of a cycle -/

theorem Twin.rest (h : e.Twin e') : e.rest.Twin e'.rest := by
  obtain ⟨options, halike, rfl⟩ := h
  exact ⟨options, halike, rfl⟩

theorem Twin.finish (h : e.Twin e') (verdict : Verdict) (error : Option RunError) :
    (e.finish verdict error).Twin (e'.finish verdict error) := by
  obtain ⟨options, halike, rfl⟩ := h
  exact ⟨options, halike, rfl⟩

/-- Retired transactions have the same effect. -/
theorem Twin.retire (h : e.Twin e') (t : Bus.Transaction) (outcome : Bus.Outcome) :
    (e.retire t outcome).1.Twin (e'.retire t outcome).1 ∧
      (e.retire t outcome).2 = (e'.retire t outcome).2 := by
  obtain ⟨options, halike, rfl⟩ := h
  unfold Engine.retire
  dsimp only
  repeat' split
  all_goals exact ⟨⟨options, halike, rfl⟩, rfl⟩

/-- The bus moves on in the same way. -/
theorem Twin.settle (h : e.Twin e') (answer : Bus.Response) :
    (e.settle answer).1.Twin (e'.settle answer).1 ∧
      (e.settle answer).2 = (e'.settle answer).2 := by
  obtain ⟨options, halike, rfl⟩ := h
  unfold Engine.settle
  rcases hadvance : e.bus.advance answer with ⟨bus, _ | ⟨t, outcome⟩⟩
  · exact ⟨⟨options, halike, rfl⟩, rfl⟩
  · exact Twin.retire (e := { e with bus := bus }) ⟨options, halike, rfl⟩ t outcome

/-- The presented word is taken in the same way: a clearing start sets the same registers. -/
theorem Twin.accept (h : e.Twin e') (word : Command.Word) :
    (e.accept word).1.Twin (e'.accept word).1 ∧ (e.accept word).2 = (e'.accept word).2 := by
  obtain ⟨options, halike, rfl⟩ := h
  unfold Engine.accept Engine.obey
  simp only [halike.registers_eq]
  repeat' split
  all_goals exact ⟨⟨options, halike, rfl⟩, rfl⟩

/-- Headers are read in the same way. -/
theorem Twin.readHeader (h : e.Twin e') : e.readHeader.Twin e'.readHeader := by
  obtain ⟨options, halike, rfl⟩ := h
  unfold Engine.readHeader
  dsimp only
  repeat' split
  all_goals exact ⟨options, halike, rfl⟩

/-- Operations move on in the same way, by the same stride. -/
theorem Twin.execute (h : e.Twin e') (a : Activity) : (e.execute a).Twin (e'.execute a) := by
  obtain ⟨options, halike, rfl⟩ := h
  unfold Engine.execute
  dsimp only
  rw [halike.stride]
  cases a with
  | read t | write t | poll p =>
      repeat' split
      all_goals exact ⟨options, halike, rfl⟩

theorem Twin.act (h : e.Twin e') : e.act.Twin e'.act := by
  have hstage := h.stage_eq
  rw [Engine.act, Engine.act, ← hstage]
  cases e.stage with
  | header => exact h.readHeader
  | executing a => exact h.execute a
  | completing => exact h.finish .completed none
  | idle | draining verdict | ended verdict => exact h

/-- **A cycle of twins** reports the same and leaves twins. -/
theorem Twin.step (h : e.Twin e') (word : Command.Word) (answer : Bus.Response) :
    (e.step word answer).1.Twin (e'.step word answer).1 ∧
      (e.step word answer).2 = (e'.step word answer).2 := by
  obtain ⟨hsettle, hresult⟩ := h.rest.settle answer
  obtain ⟨haccept, hconsumed⟩ := hsettle.accept word
  have hact := haccept.act
  refine ⟨hact, ?_⟩
  have hstatus := congrArg Stage.status hact.stage_eq
  simp only [Engine.step, Engine.status, hresult, hconsumed, hstatus]

end Engine

/-! ### Feeders -/

namespace Feeder

variable {e e' : Engine}

/-- Twins that are presented the same word leave the same of it. -/
theorem present_twin (h : e.Twin e') (held : Option Command.Word) (answer : Bus.Response) :
    (present e held answer).engine.Twin (present e' held answer).engine ∧
      present e held answer =
        { present e' held answer with engine := (present e held answer).engine } := by
  obtain ⟨htwin, hreport⟩ := h.step (held.getD .idle) answer
  refine ⟨?_, ?_⟩
  · rw [present_eq, present_eq]
    exact htwin
  · simp only [present_eq, hreport]

namespace Stream

/-- Feeders that differ in the limit of their engines at most. -/
def Twin (s s' : Stream) : Prop :=
  ∃ e', s.engine.Twin e' ∧ s' = { s with engine := e' }

variable {s s' : Stream}

theorem Twin.engine (h : s.Twin s') : s.engine.Twin s'.engine := by
  obtain ⟨e', htwin, rfl⟩ := h
  exact htwin

/-- A cycle of twins takes the same offer, reports the same and leaves twins. -/
theorem Twin.step (h : s.Twin s') (offer : Option Command.Word)
    (answer : Bus.Response) :
    (s.step offer answer).1.Twin (s'.step offer answer).1 ∧
      (s.step offer answer).2 = (s'.step offer answer).2 := by
  obtain ⟨e', htwin, rfl⟩ := h
  have hopen : ({ s with engine := e' } : Stream).isOpen = s.isOpen := by
    obtain ⟨options, -, rfl⟩ := htwin
    rfl
  obtain ⟨hengine, hsame⟩ :=
    present_twin htwin (if offer.isSome && s.isOpen then offer else s.held) answer
  unfold Stream.step
  dsimp only
  rw [hopen]
  refine ⟨⟨_, hengine, ?_⟩, ?_⟩
  · rw [hsame]
  · rw [hsame]

end Stream

namespace Stored

/-- Feeders that differ in the limit of their engines at most. -/
def Twin (s s' : Stored) : Prop :=
  ∃ e', s.engine.Twin e' ∧ s' = { s with engine := e' }

variable {s s' : Stored}

theorem Twin.engine (h : s.Twin s') : s.engine.Twin s'.engine := by
  obtain ⟨e', htwin, rfl⟩ := h
  exact htwin

theorem Twin.held_eq (h : s.Twin s') : s.held = s'.held := by
  obtain ⟨e', -, rfl⟩ := h
  rfl

theorem Twin.isOpen_eq (h : s.Twin s') : s.isOpen = s'.isOpen := by
  obtain ⟨e', ⟨options, -, rfl⟩, rfl⟩ := h
  rfl

theorem Twin.begin (h : s.Twin s') (store : Store) (address : BitVec 16) :
    (s.begin store address).Twin (s'.begin store address) := by
  obtain ⟨e', htwin, rfl⟩ := h
  exact ⟨e', htwin, rfl⟩

theorem Twin.awaitWord (h : s.Twin s') (store : Store) :
    (s.awaitWord store).Twin (s'.awaitWord store) := by
  obtain ⟨e', htwin, rfl⟩ := h
  unfold Stored.awaitWord
  dsimp only
  split
  all_goals exact ⟨e', htwin, rfl⟩

theorem Twin.resume {p p' : Presentation} (h : s.Twin s') (hp : p.engine.Twin p'.engine)
    (hsame : p = { p' with engine := p.engine }) (store : Store) :
    (s.resume store p).Twin (s'.resume store p') := by
  obtain ⟨e', -, rfl⟩ := h
  obtain ⟨e, report, held, spent⟩ := p
  cases hsame
  unfold Stored.resume
  dsimp only
  split
  all_goals exact ⟨p'.engine, hp, rfl⟩

/-- Twins that await the same word present it alike. -/
theorem Twin.present (h : s.Twin s') (store : Store) (answer : Bus.Response) :
    (s.resume store (Feeder.present s.engine s.held answer)).Twin
        (s'.resume store (Feeder.present s'.engine s'.held answer)) ∧
      (Feeder.present s.engine s.held answer).report =
        (Feeder.present s'.engine s'.held answer).report := by
  obtain ⟨hengine, hsame⟩ := present_twin h.engine s.held answer
  rw [← h.held_eq]
  refine ⟨h.resume hengine hsame store, ?_⟩
  rw [hsame]

/-- A cycle of twins takes the same request, reports the same and leaves twins. -/
theorem Twin.step (h : s.Twin s') (store : Store) (request : Option (BitVec 16))
    (answer : Bus.Response) :
    (s.step store request answer).1.Twin (s'.step store request answer).1 ∧
      (s.step store request answer).2 = (s'.step store request answer).2 := by
  cases request with
  | none =>
      obtain ⟨htwin, hreport⟩ := (h.awaitWord store).present store answer
      exact ⟨htwin, congrArg (Prod.mk false) hreport⟩
  | some address =>
      unfold Stored.step
      dsimp only
      rw [← h.isOpen_eq]
      cases s.isOpen with
      | false =>
          obtain ⟨htwin, hreport⟩ := (h.awaitWord store).present store answer
          exact ⟨htwin, congrArg (Prod.mk false) hreport⟩
      | true =>
          obtain ⟨htwin, hreport⟩ := ((h.begin store address).awaitWord store).present store answer
          exact ⟨htwin, congrArg (Prod.mk true) hreport⟩

end Stored

end Feeder

/-! ### Systems -/

namespace Run

variable {τ : Type} [Bus.Target τ]

namespace StreamSystem

/-- Systems that differ in the limit of their engines at most. -/
def Twin (s s' : StreamSystem τ) : Prop :=
  ∃ feeder, s.feeder.Twin feeder ∧ s' = { s with feeder }

/-- A cycle is one of the feeder, with the answer of the target. -/
theorem cycle_of_step {s : StreamSystem τ} {feeder : Feeder.Stream} {acknowledged : Bool}
    {report : Report}
    (h : s.feeder.step s.offer (Bus.Target.respond s.target s.engine.request).1 =
      (feeder, acknowledged, report)) :
    s.cycle = (⟨feeder, (Bus.Target.respond s.target s.engine.request).2,
      if acknowledged then s.pending.tail else s.pending,
      if acknowledged then s.idleGap else s.gap - 1, s.idleGap⟩, report) := by
  obtain ⟨before, target, pending, gap, idleGap⟩ := s
  unfold cycle Feeder.Stream.cycle
  dsimp only [engine] at h ⊢
  rw [h]
  cases acknowledged <;> rfl

/-- A cycle of twins reports the same and leaves twins. -/
theorem Twin.cycle {s s' : StreamSystem τ} (h : s.Twin s') :
    s.cycle.2 = s'.cycle.2 ∧ s.cycle.1.Twin s'.cycle.1 := by
  obtain ⟨feeder', htwin, rfl⟩ := h
  have hrequest : s.engine.request = feeder'.engine.request := htwin.engine.request_eq
  obtain ⟨hnext, hsame⟩ := htwin.step s.offer (Bus.Target.respond s.target s.engine.request).1
  rcases hx : s.feeder.step s.offer (Bus.Target.respond s.target s.engine.request).1 with
    ⟨next, acknowledged, report⟩
  rcases hx' : feeder'.step s.offer (Bus.Target.respond s.target s.engine.request).1 with
    ⟨next', acknowledged', report'⟩
  rw [hx, hx'] at hnext hsame
  cases hsame
  rw [hrequest] at hx'
  rw [cycle_of_step hx, cycle_of_step (s := { s with feeder := feeder' }) hx', hrequest]
  exact ⟨rfl, _, hnext, rfl⟩

end StreamSystem

namespace StoredSystem

/-- Systems that differ in the limit of their engines at most. -/
def Twin (s s' : StoredSystem τ) : Prop :=
  ∃ feeder, s.feeder.Twin feeder ∧ s' = { s with feeder }

/-- A cycle is one of the feeder, with the answer of the target. -/
theorem cycle_of_step {s : StoredSystem τ} {feeder : Feeder.Stored} {acknowledged : Bool}
    {report : Report}
    (h : s.feeder.step s.store s.request (Bus.Target.respond s.target s.engine.request).1 =
      (feeder, acknowledged, report)) :
    s.cycle = (⟨feeder, s.store, (Bus.Target.respond s.target s.engine.request).2,
      if acknowledged then none else s.request⟩, report) := by
  obtain ⟨before, store, target, request⟩ := s
  unfold cycle Feeder.Stored.cycle
  dsimp only [engine] at h ⊢
  rw [h]

/-- A cycle of twins reports the same and leaves twins. -/
theorem Twin.cycle {s s' : StoredSystem τ} (h : s.Twin s') :
    s.cycle.2 = s'.cycle.2 ∧ s.cycle.1.Twin s'.cycle.1 := by
  obtain ⟨feeder', htwin, rfl⟩ := h
  have hrequest : s.engine.request = feeder'.engine.request := htwin.engine.request_eq
  obtain ⟨hnext, hsame⟩ := htwin.step s.store s.request
    (Bus.Target.respond s.target s.engine.request).1
  rcases hx : s.feeder.step s.store s.request (Bus.Target.respond s.target s.engine.request).1 with
    ⟨next, acknowledged, report⟩
  rcases hx' : feeder'.step s.store s.request (Bus.Target.respond s.target s.engine.request).1 with
    ⟨next', acknowledged', report'⟩
  rw [hx, hx'] at hnext hsame
  cases hsame
  rw [hrequest] at hx'
  rw [cycle_of_step hx, cycle_of_step (s := { s with feeder := feeder' }) hx', hrequest]
  exact ⟨rfl, _, hnext, rfl⟩

/-- **The limit on cycles has no part in when a run would end.** -/
theorem endsIn_of_alike {options options' : Options} {store : Store} {target : τ}
    {address : BitVec 16} {n : Nat}
    (h : EndsIn StoredSystem.cycle n (new options store target address))
    (halike : options.Alike options') :
    EndsIn StoredSystem.cycle n (new options' store target address) :=
  h.of_simulation (fun _ _ => Twin.cycle) ⟨_, ⟨_, Engine.twin_new halike, rfl⟩, rfl⟩

end StoredSystem

end Run

end BusScript
