import BusScript.Proofs.Engine.Lifecycle

/-!
# A Clearing Start Isolates Runs

An engine lives through many runs, and each leaves something behind: registers, an error, bytes in
the queue, a rest of the intake that is due, a count of transactions. A start that clears makes an
engine as good as new. It resets all of these but two, and those two have no part in what is to
come: the count of transactions is never looked at, and a rest is over before the next word can
bring bytes.

So what comes after such a start is what would have come from a new engine, and the runs of two
engines with different pasts cannot be told apart.

## Main results

* `Engine.step_aged` — the transactions that an engine has behind it make no difference to a cycle.
* `Engine.Sound.step_clear` — a clearing start leaves an engine that has just started, but for its
  count of transactions and a rest.
* `Session.clear_isolates` — sessions that begin with a clearing start cannot be told apart.
-/

namespace BusScript

namespace Engine

variable {e : Engine}

/-! ### Transactions that are behind an engine -/

/-- The engine with `n` more transactions behind it. -/
def aged (e : Engine) (n : Nat) : Engine :=
  { e with bus := { e.bus with issued := e.bus.issued + n } }

theorem finish_aged (e : Engine) (n : Nat) (verdict : Verdict) (error : Option RunError) :
    (e.aged n).finish verdict error = (e.finish verdict error).aged n := rfl

theorem rest_aged (e : Engine) (n : Nat) : (e.aged n).rest = e.rest.aged n := rfl

/-- A retired transaction has the same effect. -/
theorem retire_aged (e : Engine) (n : Nat) (t : Bus.Transaction) (outcome : Bus.Outcome) :
    (e.aged n).retire t outcome = ((e.retire t outcome).1.aged n, (e.retire t outcome).2) := by
  have hstage : (e.aged n).stage = e.stage := rfl
  unfold retire
  rw [hstage]
  split
  case h_5 =>
    split
    · rfl
    · split <;> rfl
  all_goals rfl

/-- The bus moves on in the same way. -/
theorem settle_aged (e : Engine) (n : Nat) (answer : Bus.Response) :
    (e.aged n).settle answer = ((e.settle answer).1.aged n, (e.settle answer).2) := by
  have hphase : (e.aged n).bus.phase = e.bus.phase := rfl
  unfold settle Bus.Master.advance
  rw [hphase]
  cases hp : e.bus.phase with
  | idle => rfl
  | setup t => rfl
  | access t =>
      dsimp only
      cases t.retire? answer with
      | none => rfl
      | some outcome => exact retire_aged e.released n t outcome

/-- The presented word is taken in the same way. -/
theorem accept_aged (e : Engine) (n : Nat) (word : Command.Word) :
    (e.aged n).accept word = ((e.accept word).1.aged n, (e.accept word).2) := by
  unfold accept obey aged
  dsimp only
  repeat' split
  all_goals rfl

theorem readHeader_aged (e : Engine) (n : Nat) : (e.aged n).readHeader = e.readHeader.aged n := by
  unfold readHeader aged
  dsimp only
  repeat' split
  all_goals rfl

/-- One more transaction comes on top. -/
theorem begin_aged (e : Engine) (n : Nat) (t : Bus.Transaction) (a : Activity) :
    (e.aged n).begin t a = (e.begin t a).aged n := by
  simp only [begin, aged, Bus.Master.start, Nat.add_right_comm]

theorem execute_aged (e : Engine) (n : Nat) (a : Activity) :
    (e.aged n).execute a = (e.execute a).aged n := by
  have hidle : (e.aged n).bus.isIdle = e.bus.isIdle := rfl
  have hintake : (e.aged n).intake = e.intake := rfl
  unfold execute
  rw [hidle, hintake]
  split
  · rfl
  · split
    · rfl
    · cases a with
      | read t =>
          dsimp only
          split
          · rfl
          · exact begin_aged e n _ _
      | write t =>
          dsimp only
          split
          · rfl
          · split
            · rfl
            · next intake _ => exact begin_aged { e with intake } n _ _
      | poll p =>
          dsimp only
          split
          · rfl
          · exact begin_aged e n _ _

theorem act_aged (e : Engine) (n : Nat) : (e.aged n).act = e.act.aged n := by
  have hstage : (e.aged n).stage = e.stage := rfl
  rw [act, act, hstage]
  cases e.stage with
  | header => exact readHeader_aged e n
  | executing a => exact execute_aged e n a
  | completing => exact finish_aged e n _ _
  | idle | draining verdict | ended verdict => rfl

/-- **The transactions behind an engine make no difference** to a cycle, and stay behind it. -/
theorem step_aged (e : Engine) (n : Nat) (word : Command.Word) (answer : Bus.Response) :
    (e.aged n).step word answer = ((e.step word answer).1.aged n, (e.step word answer).2) := by
  simp only [step, rest_aged, settle_aged, accept_aged, act_aged]
  rfl

/-! ### A rest that is over -/

/-- The engine with another note of whether its intake rests. -/
def rested (e : Engine) (resting : Bool) : Engine :=
  { e with intake := { e.intake with resting } }

/-- A rest is over when the next cycle begins. -/
theorem step_rested (e : Engine) (resting : Bool) (word : Command.Word) (answer : Bus.Response) :
    (e.rested resting).step word answer = e.step word answer := rfl

/-! ### After a clearing start -/

/-- An engine in its first cycle after a clearing start. -/
def started (options : Options) : Engine := { new options with stage := .header }

/-- **A clearing start leaves an engine that has just started**, whatever it did before. Only the
transactions stay behind it, and a rest that was due. -/
theorem Sound.step_clear (h : e.Sound) (hrest : e.status ≠ .running) {word : Command.Word}
    (hw : word.decode = .ok (.start true)) (answer : Bus.Response) :
    e.step word answer =
      (((started e.options).rested e.intake.pulsed).aged e.bus.issued, ⟨.running, 0, none⟩) := by
  have hs := stage_rest hrest
  have hout : e.rest.bus.outstanding? = none := h.rest.fits_of hs
  have hbus : e.bus = ⟨.idle, e.bus.issued⟩ := by
    rcases hb : e.bus with ⟨_ | t | t, issued⟩
    · rfl
    all_goals simp [Bus.Master.outstanding?, Engine.rest, hb] at hout
  have haccept : e.rest.accept word =
      ({ e.rest with
          registers := .initial e.options
          lastError := none
          intake := e.rest.intake.reset
          stage := .header }, 0) := by
    rw [Engine.accept, hs, hw]
    simp only [obey, hs]
    rfl
  rw [Engine.step, settle_of_outstanding_eq_none hout answer]
  simp only [haccept]
  -- the queue has just been emptied, so that there is no header to be read yet
  simp [Engine.act, Engine.readHeader, Intake.reset, Intake.pop?, Intake.tick, Engine.rest, status,
    Stage.status, aged, rested, started, new, ← hbus]

/-! ### Options -/

theorem options_settle (e : Engine) (answer : Bus.Response) :
    (e.settle answer).1.options = e.options := by
  have hretire : ∀ t outcome, (e.released.retire t outcome).1.options = e.options := by
    intro t outcome
    unfold retire
    split
    case h_5 =>
      split
      · rfl
      · split <;> rfl
    all_goals rfl
  rcases e.settle_cases answer with ⟨bus, hx, -⟩ | ⟨t, outcome, -, -, hx⟩
  · rw [hx]
  · rw [hx]
    exact hretire t outcome

theorem options_accept (e : Engine) (word : Command.Word) :
    (e.accept word).1.options = e.options := by
  rcases e.accept_cases word with ⟨hx, -⟩ | ⟨error, hx⟩ | ⟨clear, -, -, hx⟩ |
    ⟨p, last, -, -, hx⟩
  · rw [hx]
  · rw [hx]
    rfl
  · rw [hx]
  · rw [hx]

theorem options_readHeader (e : Engine) : e.readHeader.options = e.options := by
  rcases e.readHeader_cases with ⟨-, -, hx⟩ | ⟨opcode, operand, rest, -, hx⟩ | ⟨b, -, -, hx⟩ |
    ⟨-, -, hx⟩
  · rw [hx]
  · rcases hx with ⟨error, -, hx⟩ | ⟨target, value, -, hx⟩ | ⟨header, a, -, -, hx⟩
    · rw [hx]
      rfl
    · rw [hx]
    · rw [hx]
  · rw [hx]
    rfl
  · rw [hx]

theorem options_execute (e : Engine) (a : Activity) : (e.execute a).options = e.options := by
  rcases e.execute_cases a with ⟨-, -, hx⟩ | ⟨hx, -⟩ | ⟨-, hx⟩
  · rw [hx]
    rfl
  · rw [hx]
  · rcases hx with ⟨t, -, -, hx⟩ | ⟨t, -, -, -, hx⟩ | ⟨p, -, -, hx⟩ | ⟨p, -, -, hx⟩ <;>
      rw [hx] <;> rfl

theorem options_act (e : Engine) : e.act.options = e.options := by
  rw [act]
  cases e.stage with
  | header => exact options_readHeader e
  | executing a => exact options_execute e a
  | completing => rfl
  | idle | draining verdict | ended verdict => rfl

/-- An engine keeps the options that it was made with. -/
theorem Reachable.options_eq {options : Options} (h : e.Reachable options) :
    e.options = options := by
  induction h with
  | new => rfl
  | @step e _ word answer ih =>
      calc ((e.rest.settle answer).1.accept word).1.act.options
          = ((e.rest.settle answer).1.accept word).1.options := options_act _
        _ = (e.rest.settle answer).1.options := options_accept _ word
        _ = e.rest.options := options_settle _ answer
        _ = options := ih

/-! ### Two engines -/

/-- Engines that have the same before them: one state, with `n` and `n'` transactions behind it and
a rest of the intake that is over. -/
def Peers (n n' : Nat) (e e' : Engine) : Prop :=
  ∃ common resting resting', e = (rested common resting).aged n ∧
    e' = (rested common resting').aged n'

variable {e' : Engine} {n n' : Nat}

theorem Peers.request_eq (h : Peers n n' e e') : e.request = e'.request := by
  obtain ⟨common, resting, resting', rfl, rfl⟩ := h
  rfl

theorem Peers.lastError_eq (h : Peers n n' e e') : e.lastError = e'.lastError := by
  obtain ⟨common, resting, resting', rfl, rfl⟩ := h
  rfl

theorem Peers.canAccept_eq (h : Peers n n' e e') : e.canAccept = e'.canAccept := by
  obtain ⟨common, resting, resting', rfl, rfl⟩ := h
  rfl

/-- The counts of transactions keep their difference. -/
theorem Peers.issued_add (h : Peers n n' e e') : e.bus.issued + n' = e'.bus.issued + n := by
  obtain ⟨common, resting, resting', rfl, rfl⟩ := h
  exact Nat.add_right_comm common.bus.issued n n'

/-- A cycle of peers reports the same and leaves peers. -/
theorem Peers.step (h : Peers n n' e e') (word : Command.Word) (answer : Bus.Response) :
    (e.step word answer).2 = (e'.step word answer).2 ∧
      Peers n n' (e.step word answer).1 (e'.step word answer).1 := by
  obtain ⟨common, resting, resting', rfl, rfl⟩ := h
  rw [step_aged, step_aged, step_rested, step_rested]
  exact ⟨rfl, _, _, _, rfl, rfl⟩

/-- A clearing start makes peers of any two engines with the same options. -/
theorem peers_of_clear {options : Options} {word word' : Command.Word} (h : e.Reachable options)
    (h' : e'.Reachable options) (hrest : e.status ≠ .running) (hrest' : e'.status ≠ .running)
    (hw : word.decode = .ok (.start true)) (hw' : word'.decode = .ok (.start true))
    (answer : Bus.Response) :
    (e.step word answer).2 = (e'.step word' answer).2 ∧
      Peers e.bus.issued e'.bus.issued (e.step word answer).1 (e'.step word' answer).1 := by
  rw [h.sound.step_clear hrest hw, h'.sound.step_clear hrest' hw', h.options_eq, h'.options_eq]
  exact ⟨rfl, started options, e.intake.pulsed, e'.intake.pulsed, rfl, rfl⟩

/-- While no script is running, the wires are idle. -/
theorem Sound.request_idle (h : e.Sound) (hrest : e.status ≠ .running) :
    e.request = .idle := by
  have hout : e.rest.bus.outstanding? = none := h.rest.fits_of (stage_rest hrest)
  rcases hb : e.bus with ⟨_ | t | t, issued⟩
  · rw [Engine.request, hb]
    rfl
  all_goals simp [Bus.Master.outstanding?, Engine.rest, hb] at hout

end Engine

namespace Session

variable {τ : Type} [Bus.Target τ]

/-! ### Whole sessions -/

/-- Sessions that show the same in every cycle: to the client in their reports, to the target on
the wires, and to whoever looks at the error that is kept or asks whether a word can be put up. -/
structure Indistinguishable (s s' : Session τ) : Prop where
  report : ∀ t, s.report t = s'.report t
  request : ∀ t, s.request t = s'.request t
  lastError : ∀ t, (s.engineAt (t + 1)).lastError = (s'.engineAt (t + 1)).lastError
  canAccept : ∀ t, (s.engineAt (t + 1)).canAccept = (s'.engineAt (t + 1)).canAccept

variable {s s' : Session τ}

/-- Sessions whose wires and targets agree in a cycle agree in the answer and in the target after
it. -/
theorem answer_congr {t : Nat} (hrequest : s.request t = s'.request t)
    (htarget : s.targetAt t = s'.targetAt t) :
    s.answer t = s'.answer t ∧ s.targetAt (t + 1) = s'.targetAt (t + 1) := by
  rw [targetAt_succ, targetAt_succ, answer, answer, hrequest, htarget]
  exact ⟨rfl, rfl⟩

/-- A cycle of peers with the same word and the same target. -/
theorem peers_succ {n n' t : Nat} (h : Engine.Peers n n' (s.engineAt t) (s'.engineAt t))
    (htarget : s.targetAt t = s'.targetAt t) (hword : s.words t = s'.words t) :
    s.report t = s'.report t ∧ Engine.Peers n n' (s.engineAt (t + 1)) (s'.engineAt (t + 1)) ∧
      s.targetAt (t + 1) = s'.targetAt (t + 1) := by
  obtain ⟨hanswer, hnext⟩ := answer_congr h.request_eq htarget
  obtain ⟨hreport, hpeers⟩ := h.step (s.words t) (s.answer t)
  rw [s.engineAt_succ, s'.engineAt_succ, report_eq, report_eq, ← hword, ← hanswer]
  exact ⟨hreport, hpeers, hnext⟩

section

variable {options : Options} (h : s.engine.Reachable options) (h' : s'.engine.Reachable options)
  (hrest : s.engine.status ≠ .running) (hrest' : s'.engine.status ≠ .running)
  (hstart : (s.words 0).decode = .ok (.start true))
  (hstart' : (s'.words 0).decode = .ok (.start true)) (htarget : s.target = s'.target)

include h h' hrest hrest' hstart hstart' htarget

/-- The cycle of a clearing start, which begins with idle wires. -/
theorem peers_one :
    s.request 0 = s'.request 0 ∧ s.report 0 = s'.report 0 ∧
      Engine.Peers s.engine.bus.issued s'.engine.bus.issued (s.engineAt 1) (s'.engineAt 1) ∧
      s.targetAt 1 = s'.targetAt 1 := by
  have hrequest : s.request 0 = s'.request 0 :=
    (h.sound.request_idle hrest).trans (h'.sound.request_idle hrest').symm
  obtain ⟨hanswer, hnext⟩ := answer_congr hrequest htarget
  obtain ⟨hreport, hpeers⟩ :=
    Engine.peers_of_clear h h' hrest hrest' hstart hstart' (s.answer 0)
  rw [s.engineAt_succ, s'.engineAt_succ, report_eq, report_eq, ← hanswer]
  exact ⟨hrequest, hreport, hpeers, hnext⟩

/-- From a clearing start on the engines are peers with the same target: induction on the cycles
since then. -/
theorem peers_after_clear (hwords : ∀ t, s.words (t + 1) = s'.words (t + 1)) (t : Nat) :
    Engine.Peers s.engine.bus.issued s'.engine.bus.issued (s.engineAt (t + 1))
        (s'.engineAt (t + 1)) ∧
      s.targetAt (t + 1) = s'.targetAt (t + 1) := by
  induction t with
  | zero =>
      obtain ⟨-, -, hpeers⟩ := peers_one h h' hrest hrest' hstart hstart' htarget
      exact hpeers
  | succ t ih =>
      obtain ⟨hpeers, hnow⟩ := ih
      obtain ⟨-, hnext⟩ := peers_succ hpeers hnow (hwords t)
      exact hnext

end

/-- **A clearing start isolates runs.** Take two engines with the same options, each with any past,
while neither is running a script. If both are presented a clearing start and then the same words,
whatever these are, against targets in equal states, then they cannot be told apart, and their
counts of transactions keep the difference that they had. -/
theorem clear_isolates {options : Options} (h : s.engine.Reachable options)
    (h' : s'.engine.Reachable options) (hrest : s.engine.status ≠ .running)
    (hrest' : s'.engine.status ≠ .running) (hstart : (s.words 0).decode = .ok (.start true))
    (hstart' : (s'.words 0).decode = .ok (.start true))
    (hwords : ∀ t, s.words (t + 1) = s'.words (t + 1)) (htarget : s.target = s'.target) :
    s.Indistinguishable s' ∧
    ∀ t, (s.engineAt t).bus.issued + s'.engine.bus.issued =
      (s'.engineAt t).bus.issued + s.engine.bus.issued := by
  obtain ⟨hrequest, hreport, -⟩ := peers_one h h' hrest hrest' hstart hstart' htarget
  have hpeers := peers_after_clear h h' hrest hrest' hstart hstart' htarget hwords
  refine ⟨⟨?_, ?_, fun t => (hpeers t).1.lastError_eq, fun t => (hpeers t).1.canAccept_eq⟩, ?_⟩
  · intro t
    cases t with
    | zero => exact hreport
    | succ t =>
        obtain ⟨hnow, htarget'⟩ := hpeers t
        exact (peers_succ hnow htarget' (hwords t)).1
  · intro t
    cases t with
    | zero => exact hrequest
    | succ t => exact (hpeers t).1.request_eq
  · intro t
    cases t with
    | zero => exact Nat.add_comm _ _
    | succ t => exact (hpeers t).1.issued_add

/-- A run that sets the poll delay, reads a value and fails at a header, in a cycle in which bytes
are taken. -/
def spoiling : Session Bus.Memory :=
  .new default {} fun t =>
    [⟨0x0010000000000000⟩, ⟨0x001b000000800508⟩, .idle, ⟨0x0019000000000010⟩, .idle, .idle,
      ⟨0x001a00000000ffff⟩].getD t .idle

/-- The engine that is left has another register, a transaction behind it and a rest that is due.
When the same words are presented to it again, it cannot be told from a new one. -/
theorem clear_isolates_spoiling :
    (spoiling.engineAt 7).status = .ended .errored ∧
      (spoiling.engineAt 7).registers.pollDelay = 5 ∧
      (spoiling.engineAt 7).bus.issued = 1 ∧ (spoiling.engineAt 7).intake.pulsed = true ∧
      { spoiling with engine := spoiling.engineAt 7 }.Indistinguishable spoiling ∧
      ∀ t, (Session.engineAt { spoiling with engine := spoiling.engineAt 7 } t).bus.issued + 0 =
        (spoiling.engineAt t).bus.issued + 1 := by
  refine ⟨rfl, rfl, rfl, rfl, ?_⟩
  have hreachable : (spoiling.engineAt 7).Reachable default := spoiling.reachable .new 7
  exact clear_isolates hreachable .new (by decide) (by decide) rfl rfl (fun _ => rfl) rfl

end Session

end BusScript
