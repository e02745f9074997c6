import BusScript.Proofs.Engine.Lifecycle

/-!
# What Goes Wrong in a Cycle

A good deal can go wrong in one cycle: a transaction is refused or a poll gives up, the presented
word cannot be read or comes at the wrong time, the script bytes make no operation or break off.
`Engine.failures` lists all that, in the order of the parts of a cycle, whether or not the engine
still cares: a run that has failed once has failed, and heeds nothing more that goes wrong with it.

## Main results

* `Engine.Sound.suffers_settle`, `Engine.Going.heeds_accept`, `Engine.Sound.decides_act` — what a
  failure in one of the parts of a cycle does to an engine.
* `Engine.Sound.bears_step` — a cycle of an engine that has not failed bears what goes wrong in it.
* `Engine.Failed.step` — a failed run keeps its error until it has been reported.
-/

namespace BusScript

/-- How a run ends that has failed with an error. -/
def RunError.verdict : RunError → Verdict
  | .pollExhausted _ _ => .pollFailed
  | _ => .errored

/-- An error never completes a run. -/
theorem RunError.verdict_ne_completed (error : RunError) : error.verdict ≠ .completed := by
  cases error <;> rintro ⟨⟩

/-- Only a poll that has given up makes a poll fail. -/
theorem RunError.verdict_eq_pollFailed_iff {error : RunError} :
    error.verdict = .pollFailed ↔
      ∃ address attempts, error = .pollExhausted address attempts := by
  constructor
  · intro h
    cases error <;> cases h
    exact ⟨_, _, rfl⟩
  · rintro ⟨address, attempts, rfl⟩
    rfl

namespace Engine

/-! ### What goes wrong in a cycle -/

/-- What is wrong with a value that has been read: it was the last attempt of a poll, and not what
the poll waits for. -/
def pollFailures (stage : Stage) (value : Value) : List RunError :=
  match stage with
  | .executing (.poll p) =>
    if p.isSatisfied value then []
    else if p.budget ≤ p.attempts then [.pollExhausted p.address p.attempts]
    else []
  | _ => []

/-- What goes wrong on the bus: a transaction is refused, or the last attempt of a poll fails. -/
def busFailures (e : Engine) (answer : Bus.Response) : List RunError :=
  match e.bus.phase with
  | .access t =>
    if !answer.ready then []
    else if answer.error then [.busFault t.address t.isWrite]
    else pollFailures e.stage answer.data
  | _ => []

/-- What is wrong with the presented word: it cannot be read, or it comes at the wrong time. -/
def wordFailures (e : Engine) (word : Command.Word) : List RunError :=
  match word.decode with
  | .error error => [.undecodable error]
  | .ok .idle => []
  | .ok (.start _) => if e.status = .running then [.unexpectedStart] else []
  | .ok (.data _ _) => if e.status = .running then [] else [.notStarted]

/-- What is wrong with the script bytes when the decision of a cycle is made: they make no header,
or the last of them leave an operation incomplete. -/
def scriptFailures (e : Engine) : List RunError :=
  match e.stage with
  | .header =>
    match e.intake.queue with
    | [] => []
    | [_] => if e.intake.closed then [.incompleteOperation] else []
    | opcode :: operand :: _ =>
      match Header.decode opcode operand with
      | .error error => [.undecodable error]
      | .ok _ => []
  | .executing a =>
    if e.intake.closed && e.intake.queue.length < a.bytesNeeded then [.incompleteOperation] else []
  | _ => []

/-- Everything that goes wrong in a cycle, in the order in which it does. -/
def failures (e : Engine) (word : Command.Word) (answer : Bus.Response) : List RunError :=
  e.busFailures answer ++ e.wordFailures word ++ (e.deciding word answer).scriptFailures

/-- Nothing is known to have gone wrong with the run, if there is one. -/
structure Healthy (e : Engine) : Prop where
  flows : e.isDraining = false
  completed : ∀ verdict, e.stage = .ended verdict → verdict = .completed

/-- The run has failed with an error. That is reported in this cycle, or when its last transaction
has been carried to its end. -/
structure Failed (e : Engine) (error : RunError) : Prop where
  lastError : e.lastError = some error
  stage : e.stage = .draining error.verdict ∨ e.stage = .ended error.verdict

/-- The engine knows what has gone wrong: the run has failed with the first of the failures, and has
not failed without any. -/
def Bears (e : Engine) : List RunError → Prop
  | [] => e.Healthy
  | error :: _ => e.Failed error

/-- The run, if there is one, is not ending. -/
def Going (e : Engine) : Prop :=
  ∀ verdict, ¬ (e.stage = .draining verdict ∨ e.stage = .ended verdict)

variable {e : Engine} {word : Command.Word} {answer : Bus.Response} {error : RunError}

theorem Going.healthy (h : e.Going) : e.Healthy := by
  refine ⟨?_, fun verdict hs => absurd (.inr hs) (h verdict)⟩
  rw [isDraining]
  split
  · next verdict hs => exact absurd (.inl hs) (h verdict)
  · rfl

/-- An engine whose run is not ending has one in progress, or is at rest. -/
theorem Going.running_iff (h : e.Going) : e.status = .running ↔ e.stage ≠ .idle := by
  rw [status]
  cases hs : e.stage with
  | ended verdict => exact absurd (.inr hs) (h verdict)
  | draining verdict => exact absurd (.inl hs) (h verdict)
  | idle | header | executing a | completing => simp [Stage.status]

/-- After the first part of a cycle only a run that drains is ending. -/
theorem going_rest (h : e.isDraining = false) : e.rest.Going := by
  intro verdict
  rw [rest]
  rw [isDraining] at h
  cases hs : e.stage <;> simp [hs] at h ⊢

/-- A script that is running is so throughout the first part of a cycle, and none begins in it. -/
theorem status_rest (e : Engine) : e.rest.status = .running ↔ e.status = .running := by
  rw [status, status, rest]
  cases e.stage <;> simp [Stage.status]

theorem failed_finish (e : Engine) (error : RunError) :
    (e.finish error.verdict (some error)).Failed error :=
  ⟨rfl, (e.stage_finish _ _).symm⟩

/-- A run that has failed heeds no word. -/
theorem Failed.accept_eq (h : e.Failed error) (word : Command.Word) : e.accept word = (e, 0) :=
  accept_ending h.stage

/-- Nor is anything decided for it. -/
theorem Failed.act_eq (h : e.Failed error) : e.act = e := by
  rw [act]
  rcases h.stage with hs | hs <;> rw [hs]

/-! ### The bus -/

theorem busFailures_rest (e : Engine) (answer : Bus.Response) :
    e.rest.busFailures answer = e.busFailures answer := by
  have hphase : e.rest.bus.phase = e.bus.phase := rfl
  have hpoll : pollFailures e.rest.stage answer.data = pollFailures e.stage answer.data := by
    cases hs : e.stage <;> simp only [rest, hs, pollFailures]
  rw [busFailures, busFailures, hphase, hpoll]

/-- What a part of a cycle in which `failures` come to light makes of an engine whose run is not
ending. -/
def Suffers (e e' : Engine) : List RunError → Prop
  | [] => e'.Going ∧ e'.lastError = e.lastError ∧ (e'.status = .running ↔ e.status = .running)
  | error :: _ => e'.Failed error

/-- An operation goes on without harm, or to the next header. -/
theorem suffers_of_executing {e' : Engine} {a : Activity} (hs : e.stage = .executing a)
    (hs' : e'.stage = .header ∨ ∃ a', e'.stage = .executing a')
    (hlast : e'.lastError = e.lastError) : e.Suffers e' [] := by
  obtain hs' | ⟨a', hs'⟩ := hs'
  all_goals
    refine ⟨?_, hlast, ?_⟩
    · intro verdict
      rw [hs']
      rintro (⟨⟨⟩⟩ | ⟨⟨⟩⟩)
    · rw [status, status, hs, hs']
      exact Iff.rfl

/-- What a transfer goes on to when one of its transactions has retired. -/
theorem afterTransfer_cases (a : Activity) (t : Transfer) :
    afterTransfer a t = .header ∨ ∃ a', afterTransfer a t = .executing a' := by
  rw [afterTransfer]
  split
  · exact .inl rfl
  · exact .inr ⟨a, rfl⟩

/-- An answer that ends a transaction of an operation. -/
theorem Sound.suffers_answer (h : e.Sound) {a : Activity} {t : Bus.Transaction}
    (hs : e.stage = .executing a) (hp : e.bus.phase = .access t) (hready : answer.ready = true) :
    e.Suffers (e.settle answer).1 (e.busFailures answer) := by
  have hout : e.bus.outstanding? = some t := by rw [Bus.Master.outstanding?, hp]
  have hfits : a.Fits (some t) := hout ▸ h.fits_of hs
  have hstage : e.released.stage = .executing a := hs
  have hfailures : e.busFailures answer =
      if answer.error then [.busFault t.address t.isWrite]
      else pollFailures (.executing a) answer.data := by
    simp only [busFailures, hp, hready, hs]
    rfl
  rw [hfailures]
  cases herror : answer.error with
  | true =>
      rw [settle_ready hp hready, Bus.Transaction.outcome, herror, if_pos rfl, if_pos rfl,
        retire_fault hstage]
      exact failed_finish e.released (.busFault t.address t.isWrite)
  | false =>
      rw [if_neg Bool.false_ne_true]
      obtain ⟨address, access⟩ := t
      cases a with
      | read x =>
          obtain rfl : access = .read := by
            cases access with
            | read => rfl
            | write v => cases hfits.2
          rw [settle_ready hp hready, Bus.Transaction.outcome, herror, if_neg Bool.false_ne_true,
            retire_read hstage]
          exact suffers_of_executing hs (afterTransfer_cases _ _) rfl
      | write x =>
          obtain ⟨v, rfl⟩ : ∃ v, access = .write v := by
            cases access with
            | read => cases hfits.2
            | write v => exact ⟨v, rfl⟩
          rw [settle_ready hp hready, Bus.Transaction.outcome, herror, if_neg Bool.false_ne_true,
            retire_written hstage]
          exact suffers_of_executing hs (afterTransfer_cases _ _) rfl
      | poll p =>
          rw [h.settle_poll hs hp hready, herror, if_neg Bool.false_ne_true, pollFailures]
          split
          · exact suffers_of_executing hs (.inl rfl) rfl
          · split
            · exact failed_finish e.released (.pollExhausted p.address p.attempts)
            · exact suffers_of_executing hs (.inr ⟨_, rfl⟩) rfl

/-- **The bus moves on** for an engine whose run is not ending. -/
theorem Sound.suffers_settle (h : e.Sound) (hgoing : e.Going) (answer : Bus.Response) :
    e.Suffers (e.settle answer).1 (e.busFailures answer) := by
  cases hp : e.bus.phase with
  | idle =>
      have hout : e.bus.outstanding? = none := by rw [Bus.Master.outstanding?, hp]
      rw [settle_of_outstanding_eq_none hout, busFailures, hp]
      exact ⟨hgoing, rfl, Iff.rfl⟩
  | setup t =>
      rw [settle_setup hp, busFailures, hp]
      exact ⟨hgoing, rfl, Iff.rfl⟩
  | access t =>
      cases hready : answer.ready with
      | false =>
          rw [settle_waiting hp hready, busFailures, hp, hready]
          exact ⟨hgoing, rfl, Iff.rfl⟩
      | true =>
          have hout : e.bus.outstanding? = some t := by rw [Bus.Master.outstanding?, hp]
          rcases h.stage_of_outstanding hout with ⟨a, hs, -⟩ | hs
          · exact h.suffers_answer hs hp hready
          · exact absurd (.inl hs) (hgoing _)

/-! ### The word -/

/-- A clearing start is presented while no script is running. -/
def Forgets (e : Engine) (word : Command.Word) : Prop :=
  e.status ≠ .running ∧ word.decode = .ok (.start true)

/-- What the presented word makes of an engine whose run is not ending, when `failures` come to
light. What is kept of an earlier failure is forgotten with a clearing start, and stays
otherwise. -/
def Heeds (e e' : Engine) (word : Command.Word) : List RunError → Prop
  | [] => e'.Going ∧ (e.Forgets word → e'.lastError = none) ∧
    (¬ e.Forgets word → e'.lastError = e.lastError)
  | error :: _ => e'.Failed error

/-- An engine whose run is not ending reads the word. -/
theorem Going.accept_eq (h : e.Going) (word : Command.Word) :
    e.accept word =
      match word.decode with
      | .error error => (e.fail (.undecodable error), 0)
      | .ok command => e.obey command := by
  rw [accept]
  split
  · next verdict hs => exact absurd (.inl hs) (h verdict)
  · next verdict hs => exact absurd (.inr hs) (h verdict)
  · rfl

/-- A start is not expected while a script is running. -/
theorem obey_start (hs : e.stage ≠ .idle) (clear : Bool) :
    e.obey (.start clear) = (e.fail .unexpectedStart, 0) := by
  cases hstage : e.stage with
  | idle => exact absurd hstage hs
  | header | executing a | completing | draining verdict | ended verdict =>
      simp only [obey, hstage]

/-- Script bytes go to the input of the script that is running. -/
theorem obey_data (hs : e.stage ≠ .idle) (p : Command.Payload) (last : Bool) :
    e.obey (.data p last) =
      ({ e with intake := (e.intake.take p last).1 }, (e.intake.take p last).2) := by
  cases hstage : e.stage with
  | idle => exact absurd hstage hs
  | header | executing a | completing | draining verdict | ended verdict =>
      simp only [obey, hstage]

/-- **The presented word** is heeded as long as the run is not ending. -/
theorem Going.heeds_accept (h : e.Going) (word : Command.Word) :
    e.Heeds (e.accept word).1 word (e.wordFailures word) := by
  have hnone : ∀ {c}, word.decode = .ok c → c ≠ .start true → ¬ e.Forgets word := by
    rintro c hc hne ⟨-, hclear⟩
    rw [hc] at hclear
    exact hne (Except.ok.inj hclear)
  rw [h.accept_eq, wordFailures]
  cases hw : word.decode with
  | error error => exact failed_finish e (.undecodable error)
  | ok command =>
      cases command with
      | idle =>
          refine ⟨h, fun hforgets => ?_, fun _ => rfl⟩
          exact absurd hforgets (hnone hw (by rintro ⟨⟩))
      | start clear =>
          dsimp only
          by_cases hs : e.stage = .idle
          · have hrest : ¬ e.status = .running := fun hrun => h.running_iff.mp hrun hs
            rw [if_neg hrest]
            simp only [obey, hs]
            refine ⟨?_, ?_, ?_⟩
            · intro verdict
              rintro (⟨⟨⟩⟩ | ⟨⟨⟩⟩)
            · rintro ⟨-, hclear⟩
              rw [hw] at hclear
              cases hclear
              rfl
            · intro hkeeps
              cases clear with
              | false => rfl
              | true => exact absurd ⟨hrest, hw⟩ hkeeps
          · rw [if_pos (h.running_iff.mpr hs)]
            rw [obey_start hs]
            exact failed_finish e .unexpectedStart
      | data p last =>
          dsimp only
          by_cases hs : e.stage = .idle
          · have hrest : ¬ e.status = .running := fun hrun => h.running_iff.mp hrun hs
            rw [if_neg hrest]
            simp only [obey, hs]
            exact failed_finish e .notStarted
          · rw [if_pos (h.running_iff.mpr hs)]
            rw [obey_data hs]
            refine ⟨h, fun hforgets => ?_, fun _ => rfl⟩
            exact absurd hforgets (hnone hw (by rintro ⟨⟩))

/-! ### The decision -/

/-- What the decision makes of an engine, when `failures` come to light. -/
def Decides (e e' : Engine) : List RunError → Prop
  | [] => e'.Healthy ∧ e'.lastError = e.lastError
  | error :: _ => e'.Failed error

/-- A run goes on without harm. -/
theorem decides_of_running {e' : Engine}
    (hs : e'.stage = .header ∨ e'.stage = .completing ∨ ∃ a, e'.stage = .executing a)
    (hlast : e'.lastError = e.lastError) : e.Decides e' [] := by
  refine ⟨Going.healthy ?_, hlast⟩
  intro verdict
  rcases hs with hs | hs | ⟨a, hs⟩
  all_goals
    rw [hs]
    rintro (⟨⟨⟩⟩ | ⟨⟨⟩⟩)

theorem decides_readHeader (hs : e.stage = .header) : e.Decides e.readHeader e.scriptFailures := by
  rw [scriptFailures, hs]
  dsimp only
  rcases e.readHeader_cases with ⟨-, hq, hx⟩ | ⟨opcode, operand, rest, hq, hx⟩ |
    ⟨b, hq, hclosed, hx⟩ | ⟨hopen, hshort, hx⟩
  · rw [hx, hq]
    exact decides_of_running (.inr (.inl rfl)) rfl
  · rw [hq]
    rcases hx with ⟨error, hd, hx⟩ | ⟨target, value, hd, hx⟩ | ⟨header, a, hd, -, hx⟩
    · simp only [hx, hd]
      exact failed_finish _ (.undecodable error)
    · simp only [hx, hd]
      exact decides_of_running (.inl hs) rfl
    · simp only [hx, hd]
      exact decides_of_running (.inr (.inr ⟨a, rfl⟩)) rfl
  · rw [hx, hq, hclosed]
    exact failed_finish e .incompleteOperation
  · rw [hx, hopen]
    have hnone : e.Decides e [] := decides_of_running (.inl hs) rfl
    rcases hq : e.intake.queue with _ | ⟨b, _ | ⟨b', rest⟩⟩
    · exact hnone
    · exact hnone
    · rw [hq, List.length_cons, List.length_cons] at hshort
      omega

theorem decides_execute {a : Activity} (hs : e.stage = .executing a) :
    e.Decides (e.execute a) e.scriptFailures := by
  rw [scriptFailures, hs]
  dsimp only
  split
  · next hcut =>
    unfold execute
    rw [if_pos hcut]
    exact failed_finish e .incompleteOperation
  · next hcut =>
    rcases e.execute_cases a with ⟨hclosed, hshort, -⟩ | ⟨hx, -⟩ | ⟨-, hx⟩
    · rw [hclosed, decide_eq_true hshort] at hcut
      exact absurd rfl hcut
    · rw [hx]
      exact decides_of_running (.inr (.inr ⟨a, hs⟩)) rfl
    · rcases hx with ⟨t, -, -, hx⟩ | ⟨t, -, -, -, hx⟩ | ⟨p, -, -, hx⟩ | ⟨p, -, -, hx⟩ <;>
        rw [hx] <;> exact decides_of_running (.inr (.inr ⟨_, rfl⟩)) rfl

/-- **The decision** finds what is wrong with the script bytes. -/
theorem Sound.decides_act (h : e.Sound) (hgoing : e.Going) :
    e.Decides e.act e.scriptFailures := by
  cases hs : e.stage with
  | header =>
      have hact : e.act = e.readHeader := by rw [Engine.act, hs]
      rw [hact]
      exact decides_readHeader hs
  | executing a =>
      have hact : e.act = e.execute a := by rw [Engine.act, hs]
      rw [hact]
      exact decides_execute hs
  | completing =>
      have hout : e.bus.outstanding? = none := h.fits_of hs
      have hidle := Bus.Master.isIdle_eq_true_iff.mpr hout
      rw [Engine.act, scriptFailures, hs]
      simp only [finish, hidle, if_true]
      refine ⟨⟨rfl, ?_⟩, rfl⟩
      rintro verdict ⟨⟩
      rfl
  | idle =>
      rw [Engine.act, scriptFailures, hs]
      exact ⟨hgoing.healthy, rfl⟩
  | draining verdict => exact absurd (.inl hs) (hgoing verdict)
  | ended verdict => exact absurd (.inr hs) (hgoing verdict)

/-! ### Whole cycles -/

/-- What is wrong with a word depends on whether a script is running. -/
theorem wordFailures_congr {e' : Engine} (h : e'.status = .running ↔ e.status = .running)
    (word : Command.Word) : e'.wordFailures word = e.wordFailures word := by
  rw [wordFailures, wordFailures]
  simp only [h]

/-- What the word and the decision make of an engine whose run is not ending. -/
theorem Sound.bears_accept_act (h : e.Sound) (hgoing : e.Going) (word : Command.Word) :
    (e.accept word).1.act.Bears (e.wordFailures word ++ (e.accept word).1.scriptFailures) ∧
      (e.wordFailures word ++ (e.accept word).1.scriptFailures = [] →
        (e.Forgets word → (e.accept word).1.act.lastError = none) ∧
        (¬ e.Forgets word → (e.accept word).1.act.lastError = e.lastError)) := by
  have hheeds := hgoing.heeds_accept word
  rcases hword : e.wordFailures word with _ | ⟨error, more⟩
  · rw [hword] at hheeds
    obtain ⟨hgoing', hforgets, hkeeps⟩ := hheeds
    have hdecides := (h.accept word).decides_act hgoing'
    rw [List.nil_append]
    rcases hscript : (e.accept word).1.scriptFailures with _ | ⟨error, more⟩
    · rw [hscript] at hdecides
      obtain ⟨hhealthy, hlast⟩ := hdecides
      rw [hlast]
      exact ⟨hhealthy, fun _ => ⟨hforgets, hkeeps⟩⟩
    · rw [hscript] at hdecides
      refine ⟨hdecides, ?_⟩
      rintro ⟨⟩
  · rw [hword] at hheeds
    have hfailed : (e.accept word).1.Failed error := hheeds
    rw [hfailed.act_eq]
    refine ⟨hfailed, ?_⟩
    rintro ⟨⟩

/-- **A cycle bears what goes wrong in it**, if nothing had gone wrong with the run before. If
nothing does, the error of an earlier run is kept, unless a clearing start is accepted. -/
theorem Sound.bears_step (h : e.Sound) (hflows : e.isDraining = false) (word : Command.Word)
    (answer : Bus.Response) :
    (e.step word answer).1.Bears (e.failures word answer) ∧
      (e.failures word answer = [] →
        (e.Forgets word → (e.step word answer).1.lastError = none) ∧
        (¬ e.Forgets word → (e.step word answer).1.lastError = e.lastError)) := by
  have hsettle := h.rest.suffers_settle (going_rest hflows) answer
  have hstep : (e.step word answer).1 = ((e.settled answer).accept word).1.act := rfl
  have hdeciding : e.deciding word answer = ((e.settled answer).accept word).1 := rfl
  rw [busFailures_rest] at hsettle
  rw [failures, hstep, hdeciding]
  rcases hbus : e.busFailures answer with _ | ⟨error, more⟩
  · rw [hbus] at hsettle
    obtain ⟨hgoing, hlast, hrunning⟩ := hsettle
    have hstatus : (e.settled answer).status = .running ↔ e.status = .running :=
      hrunning.trans (status_rest e)
    have hforgets : (e.settled answer).Forgets word ↔ e.Forgets word :=
      and_congr_left' (not_congr hstatus)
    have hrest := (h.rest.settle answer).bears_accept_act hgoing word
    have hkept : (e.settled answer).lastError = e.lastError := hlast
    rw [List.nil_append, ← wordFailures_congr hstatus, ← hforgets, ← hkept]
    exact hrest
  · -- the transaction has ended the run, and neither the word nor the script bytes matter
    rw [hbus] at hsettle
    have hfailed : (e.settled answer).Failed error := hsettle
    rw [hfailed.accept_eq, hfailed.act_eq]
    refine ⟨hfailed, ?_⟩
    rintro ⟨⟩

/-- A run that drains goes on to do so or ends, and the error that is kept stays. -/
theorem step_of_draining {verdict : Verdict} (hs : e.stage = .draining verdict)
    (word : Command.Word) (answer : Bus.Response) :
    (e.step word answer).1.lastError = e.lastError ∧
      ((e.step word answer).1.stage = .draining verdict ∨
        (e.step word answer).1.stage = .ended verdict) := by
  have hrest : e.rest.stage = .draining verdict := by rw [rest, hs]
  have hsettled : (e.settled answer).lastError = e.lastError ∧
      ((e.settled answer).stage = .draining verdict ∨
        (e.settled answer).stage = .ended verdict) := by
    rw [settled]
    rcases e.rest.settle_cases answer with ⟨bus, hx, -⟩ | ⟨t, outcome, -, -, hx⟩
    · rw [hx]
      exact ⟨rfl, .inl hrest⟩
    · have hstage : e.rest.released.stage = .draining verdict := hrest
      rw [hx, retire_draining hstage]
      exact ⟨rfl, .inr rfl⟩
  have hact : (e.settled answer).act = e.settled answer := by
    rw [act]
    rcases hsettled.2 with hs' | hs' <;> rw [hs']
  have hstep : (e.step word answer).1 = ((e.settled answer).accept word).1.act := rfl
  rw [hstep, accept_ending hsettled.2, hact]
  exact hsettled

/-- **A failed run keeps its error** until it has been reported, whatever goes wrong with it
still. -/
theorem Failed.step (h : e.Failed error) (hdrains : e.isDraining = true) (word : Command.Word)
    (answer : Bus.Response) : (e.step word answer).1.Failed error := by
  have hs : e.stage = .draining error.verdict := by
    rcases h.stage with hs | hs
    · exact hs
    · rw [isDraining, hs] at hdrains
      exact absurd hdrains Bool.false_ne_true
  obtain ⟨hlast, hstage⟩ := step_of_draining hs word answer
  exact ⟨hlast.trans h.lastError, hstage⟩

/-! ### While no script is running -/

/-- Nothing goes wrong on the bus while no script is running. -/
theorem Sound.busFailures_eq_nil (h : e.Sound) (hrest : e.status ≠ .running)
    (answer : Bus.Response) : e.busFailures answer = [] := by
  have hout : e.bus.outstanding? = none := h.rest.fits_of (stage_rest hrest)
  rw [busFailures]
  cases hp : e.bus.phase with
  | idle | setup t => rfl
  | access t =>
      rw [Bus.Master.outstanding?, hp] at hout
      cases hout

/-- Nothing goes wrong with a start that is accepted. -/
theorem Sound.failures_start (h : e.Sound) (hrest : e.status ≠ .running) {clear : Bool}
    (hw : word.decode = .ok (.start clear)) (answer : Bus.Response) :
    e.failures word answer = [] := by
  have hscript : (e.deciding word answer).scriptFailures = [] := by
    rw [h.deciding_start hrest hw answer]
    rfl
  rw [failures, h.busFailures_eq_nil hrest, hscript, wordFailures, hw]
  simp [hrest]

end Engine

end BusScript
