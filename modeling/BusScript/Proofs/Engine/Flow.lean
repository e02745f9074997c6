import BusScript.Proofs.Command.Decoding
import BusScript.Proofs.Engine.Lifecycle

/-!
# The Flow of Script Bytes Through an Engine

Script bytes come to an engine in the payloads of data words, wait in its queue, and are taken out
of it when a header or a value is due. A word may be taken in several cycles, and what is not taken
of it is presented again.

To say that nothing is lost on the way, compare the engine with an input that takes everything at
once (`Command.Input`): what has come out of the queue, what is in it, and what is left of the
presented word are together what that input has received (`Engine.Sound.step_flow`).

## Main results

* `Command.Input.feedAll_open` — an open input receives the payloads up to the first last one.
* `Intake.feed_take` — taking a part of a word and being fed the rest is being fed the word.
* `Engine.Sound.step_flow` — a cycle takes nothing from the bytes of a run, and adds nothing.
-/

namespace BusScript

namespace Command

variable {w : Word} {p : Payload} {last : Bool}

/-! ### Words for a script -/

/-- The script bytes that a word carries: the payload of a data word, and none of any other. -/
def Word.bytes (w : Word) : List Byte :=
  match w.decode with
  | .ok (.data p _) => p.bytes
  | _ => []

theorem Word.bytes_of_decode (h : w.decode = .ok (.data p last)) : w.bytes = p.bytes := by
  rw [bytes, h]

theorem Word.isDataLast_of_data (h : w.decode = .ok (.data p last)) : w.isDataLast = last := by
  rw [isDataLast_of_decode h]
  cases last <;> rfl

/-- The script bytes of a list of words: the payloads of its data words, up to and including the
first one that is marked as the last. -/
def sent : List Word → List Byte
  | [] => []
  | w :: words => w.bytes ++ if w.isDataLast then [] else sent words

/-- An input that takes every word whole, and closes with the last one. -/
structure Input where
  /-- The bytes received. -/
  bytes : List Byte
  closed : Bool

namespace Input

/-- The input after one more word. A closed input receives nothing. -/
def feed (i : Input) (w : Word) : Input :=
  if i.closed then i else ⟨i.bytes ++ w.bytes, w.isDataLast⟩

/-- The input after some more words. -/
def feedAll (i : Input) (words : List Word) : Input := words.foldl feed i

theorem feedAll_append (i : Input) (words words' : List Word) :
    i.feedAll (words ++ words') = (i.feedAll words).feedAll words' :=
  List.foldl_append

/-- A word without script bytes is not noticed. -/
theorem feed_of_decode {c : Command} (hw : w.decode = .ok c) (hc : c.payload? = none) (i : Input) :
    i.feed w = i := by
  obtain ⟨bytes, closed⟩ := i
  cases closed with
  | true => rfl
  | false =>
      have hlast := Word.isDataLast_of_decode hw
      cases c with
      | data p last => cases hc
      | idle => simp [feed, Word.bytes, hw, hlast, Command.opcode]
      | start clear => cases clear <;> simp [feed, Word.bytes, hw, hlast, Command.opcode]

/-- To present nothing is to present an idle word. -/
theorem feedAll_toList (i : Input) (held : Option Word) :
    i.feedAll held.toList = i.feed (held.getD .idle) := by
  cases held with
  | none => exact (feed_of_decode Word.decode_idle rfl i).symm
  | some w => rfl

theorem feedAll_closed (bytes : List Byte) (words : List Word) :
    (⟨bytes, true⟩ : Input).feedAll words = ⟨bytes, true⟩ := by
  induction words with
  | nil => rfl
  | cons w words ih => exact ih

/-- **An open input receives the payloads up to the first last one.** -/
theorem feedAll_open (bytes : List Byte) (words : List Word) :
    (⟨bytes, false⟩ : Input).feedAll words =
      ⟨bytes ++ sent words, words.any Word.isDataLast⟩ := by
  induction words generalizing bytes with
  | nil => simp [feedAll, sent]
  | cons w words ih =>
      have hfirst : (⟨bytes, false⟩ : Input).feedAll (w :: words) =
          (⟨bytes ++ w.bytes, w.isDataLast⟩ : Input).feedAll words := rfl
      rw [hfirst, sent, List.any_cons]
      cases hlast : w.isDataLast with
      | true => rw [feedAll_closed, if_pos rfl, List.append_nil, Bool.true_or]
      | false =>
          rw [ih, List.append_assoc, if_neg Bool.false_ne_true, Bool.false_or]

end Input

end Command

open Command (Word Input)

namespace Intake

/-- What a queue has received, when `before` has been taken out of it. -/
def input (i : Intake) (before : List Byte) : Input :=
  ⟨before ++ i.queue, i.closed⟩

variable {i : Intake} {w : Word} {p : Command.Payload} {last : Bool}

/-- **Taking a part of a word and being fed the rest is being fed the word.** -/
theorem feed_take (hw : w.decode = .ok (.data p last)) (before : List Byte) :
    ((i.take p last).1.input before).feedAll (w.leftover? (i.take p last).2).toList =
      (i.input before).feed w := by
  cases hclosed : i.closed with
  | true =>
      rw [take, if_pos hclosed, input, hclosed, Input.feedAll_closed]
      rfl
  | false =>
      obtain ⟨i', n, htake, hn, hqueue, hclosed'⟩ := take_cases hclosed p last
      have hfed : (i.input before).feed w = ⟨before ++ i.queue ++ p.bytes, last⟩ := by
        rw [Input.feed, input, hclosed, if_neg Bool.false_ne_true,
          Word.bytes_of_decode hw, Word.isDataLast_of_data hw]
      rw [htake, hfed, Command.Word.leftover?_data hw, input, hqueue, hclosed']
      by_cases hall : p.length ≤ n
      · have hwhole : p.bytes.take n = p.bytes := List.take_of_length_le hall
        have hcount : n = p.length := Nat.le_antisymm hn hall
        rw [if_pos hall, hwhole, hcount, beq_self_eq_true, Bool.and_true, List.append_assoc]
        rfl
      · have hpart : (n == p.length) = false := by
          rw [beq_eq_false_iff_ne]
          omega
        have hrest := Command.Word.decode_consume hw n
        rw [if_neg hall, hpart, Bool.and_false]
        change (⟨_, false⟩ : Input).feed (w.consume n) = _
        rw [Input.feed, if_neg Bool.false_ne_true, Word.bytes_of_decode hrest,
          Word.isDataLast_of_data hrest, Command.Payload.bytes_drop, ← List.append_assoc,
          List.append_assoc _ (p.bytes.take n), List.take_append_drop]

/-- Of a word that is left, some bytes are left, and it has not closed the input. -/
theorem leftover_take (hw : w.decode = .ok (.data p last)) {w' : Word}
    (h : w.leftover? (i.take p last).2 = some w') :
    w'.bytes ≠ [] ∧ (i.take p last).1.closed = i.closed := by
  rw [Command.Word.leftover?_data hw] at h
  split at h
  · cases h
  · next hlt =>
    cases h
    refine ⟨?_, ?_⟩
    · rw [Word.bytes_of_decode (Command.Word.decode_consume hw _), Command.Payload.bytes_drop]
      intro hnil
      exact hlt (List.drop_eq_nil_iff.mp hnil)
    · cases hclosed : i.closed with
      | true =>
          rw [take, if_pos hclosed]
          exact hclosed
      | false =>
          obtain ⟨i', n, htake, -, -, hclosed'⟩ := take_cases hclosed p last
          rw [htake] at hlt ⊢
          have hne : (n == p.length) = false := by
            rw [beq_eq_false_iff_ne]
            dsimp only at hlt
            omega
          rw [hclosed', hne, Bool.and_false]

end Intake

namespace Engine

variable {e : Engine} {word : Word} {answer : Bus.Response}

/-! ### Bytes that are taken out -/

/-- The bytes that a decision takes out of the queue: those of a header, or of the value of a write
whose turn it is. -/
def popped (e : Engine) : List Byte :=
  match e.stage with
  | .header => ((e.intake.pop? 2).map Prod.fst).getD []
  | .executing (.write t) =>
    if e.intake.closed && e.intake.queue.length < (Activity.write t).bytesNeeded then []
    else if !e.bus.isIdle || t.remaining = 0 then []
    else ((e.intake.pop? t.width.bytes).map Prod.fst).getD []
  | _ => []

/-- An engine in the middle of a run that has not failed. -/
def Working (e : Engine) : Prop := e.status = .running ∧ e.isDraining = false

/-- A run that has been ended is not worked at. -/
theorem not_working_finish (verdict : Verdict) (error : Option RunError) :
    ¬ (e.finish verdict error).Working := by
  rintro ⟨hrun, hflows⟩
  rcases e.stage_finish verdict error with hs | hs
  · rw [status, hs] at hrun
    cases hrun
  · rw [isDraining, hs] at hflows
    cases hflows

/-! ### The parts of a cycle -/

/-- What reading a header takes out of the queue was in it. -/
theorem input_readHeader (hs : e.stage = .header) (h : e.readHeader.Working)
    (before : List Byte) :
    e.readHeader.intake.input (before ++ e.popped) = e.intake.input before := by
  rw [popped, hs]
  dsimp only
  rcases e.readHeader_cases with ⟨-, hq, hx⟩ | ⟨opcode, operand, rest, hq, hx⟩ | ⟨b, -, -, hx⟩ |
    ⟨-, hshort, hx⟩
  · simp [hx, Intake.input, Intake.pop?, hq]
  · rcases hx with ⟨error, -, hx⟩ | ⟨target, value, -, hx⟩ | ⟨header, a, -, -, hx⟩
    · rw [hx] at h
      exact absurd h (not_working_finish _ _)
    · simp [hx, Intake.input, Intake.pop?, hq]
    · simp [hx, Intake.input, Intake.pop?, hq]
  · rw [hx] at h
    exact absurd h (not_working_finish _ _)
  · have hnone : e.intake.pop? 2 = none := if_neg (by omega)
    rw [hx, hnone, Option.map_none, Option.getD_none, List.append_nil]

/-- A write that goes on takes a value out when the bus is idle. -/
theorem popped_write {t : Transfer} (hs : e.stage = .executing (.write t))
    (h : (e.execute (.write t)).Working) :
    e.popped =
      if e.bus.outstanding? ≠ none ∨ t.remaining = 0 then []
      else ((e.intake.pop? t.width.bytes).map Prod.fst).getD [] := by
  have hidle : (!e.bus.isIdle) = true ↔ e.bus.outstanding? ≠ none := by
    rw [Bool.not_eq_true', Bool.eq_false_iff, Ne, Bus.Master.isIdle_eq_true_iff]
  rw [popped, hs]
  dsimp only
  split
  · next hcut =>
    rw [execute, if_pos hcut] at h
    exact absurd h (not_working_finish _ _)
  · simp only [Bool.or_eq_true, hidle, decide_eq_true_eq]

/-- What a write takes out of the queue was in it. -/
theorem input_write {t : Transfer} (hs : e.stage = .executing (.write t))
    (h : (e.execute (.write t)).Working) (before : List Byte) :
    (e.execute (.write t)).intake.input (before ++ e.popped) = e.intake.input before := by
  rw [popped_write hs h]
  rcases e.execute_cases (.write t) with ⟨-, -, hx⟩ | ⟨hx, hwhy⟩ | ⟨hout, hx⟩
  · rw [hx] at h
    exact absurd h (not_working_finish _ _)
  · -- nothing is begun: the bus is busy, the transfer is over, or the value has not come yet
    rw [hx]
    rcases hwhy with hbusy | hdone | ⟨t', heq, -, hshort⟩
    · rw [if_pos (.inl hbusy), List.append_nil]
    · rw [if_pos (.inr hdone), List.append_nil]
    · cases heq
      have hnone : e.intake.pop? t.width.bytes = none := if_neg (Nat.not_le_of_lt hshort)
      rw [hnone, Option.map_none, Option.getD_none, ite_self, List.append_nil]
  · rcases hx with ⟨t', heq, -⟩ | ⟨t', heq, hne, hlen, hx⟩ | ⟨p, heq, -⟩ | ⟨p, heq, -⟩
    · cases heq
    · cases heq
      have hpop : ((e.intake.pop? t.width.bytes).map Prod.fst).getD [] =
          e.intake.queue.take t.width.bytes := by
        rw [Intake.pop?, if_pos hlen]
        rfl
      rw [if_neg (by simp [hout, hne]), hpop, hx]
      simp [Intake.input, begin, List.take_append_drop]
    · cases heq
    · cases heq

/-- Operations other than writes take nothing. -/
theorem intake_execute {a : Activity} (ha : ∀ t, a ≠ .write t) (h : (e.execute a).Working) :
    (e.execute a).intake = e.intake := by
  rcases e.execute_cases a with ⟨-, -, hx⟩ | ⟨hx, -⟩ | ⟨-, hx⟩
  · rw [hx] at h
    exact absurd h (not_working_finish _ _)
  · rw [hx]
  · rcases hx with ⟨t, -, -, hx⟩ | ⟨t, heq, -⟩ | ⟨p, -, -, hx⟩ | ⟨p, -, -, hx⟩
    · rw [hx]
      rfl
    · exact absurd heq (ha t)
    · rw [hx]
    · rw [hx]
      rfl

/-- What moving an operation on takes out of the queue was in it. -/
theorem input_execute {a : Activity} (hs : e.stage = .executing a) (h : (e.execute a).Working)
    (before : List Byte) :
    (e.execute a).intake.input (before ++ e.popped) = e.intake.input before := by
  cases a with
  | write t => exact input_write hs h before
  | read t | poll p =>
      have hnil : e.popped = [] := by rw [popped, hs]
      rw [intake_execute (by rintro t ⟨⟩) h, hnil, List.append_nil]

/-- The decision. -/
theorem input_act (h : e.act.Working) :
    e.Working ∧ ∀ before, e.act.intake.input (before ++ e.popped) = e.intake.input before := by
  rw [Working, status, isDraining]
  cases hs : e.stage with
  | header =>
      have hact : e.act = e.readHeader := by rw [act, hs]
      rw [hact] at h ⊢
      exact ⟨⟨rfl, rfl⟩, input_readHeader hs h⟩
  | executing a =>
      have hact : e.act = e.execute a := by rw [act, hs]
      rw [hact] at h ⊢
      exact ⟨⟨rfl, rfl⟩, input_execute hs h⟩
  | completing =>
      rw [act, hs] at h
      exact absurd h (not_working_finish _ _)
  | idle =>
      rw [act, hs, Working, status, hs] at h
      cases h.1
  | draining verdict =>
      rw [act, hs, Working, isDraining, hs] at h
      cases h.2
  | ended verdict =>
      rw [act, hs, Working, status, hs] at h
      cases h.1

/-- The word. Taken whole or in part, it comes to the end of what has been received; and what is
left of it is presented again. -/
theorem input_accept (hbusy : e.stage ≠ .idle) (h : (e.accept word).1.Working) :
    e.Working ∧
      (∀ before,
        ((e.accept word).1.intake.input before).feedAll (word.leftover? (e.accept word).2).toList =
          (e.intake.input before).feed word) ∧
      ∀ w, word.leftover? (e.accept word).2 = some w →
        w.bytes ≠ [] ∧ (e.accept word).1.intake.closed = e.intake.closed := by
  rcases e.accept_cases word with ⟨hx, hwhy⟩ | ⟨error, hx⟩ | ⟨clear, hs, -⟩ |
    ⟨p, last, -, hw, hx⟩
  · rw [hx] at h ⊢
    rcases hwhy with hw | ⟨verdict, hs | hs⟩
    · have hnone := Command.Word.leftover?_of_not_isData hw rfl 0
      rw [hnone]
      refine ⟨h, fun before => ?_, by simp⟩
      rw [Input.feed_of_decode hw rfl]
      rfl
    · rw [Working, isDraining, hs] at h
      cases h.2
    · rw [Working, status, hs] at h
      cases h.1
  · rw [hx] at h
    exact absurd h (not_working_finish _ _)
  · exact absurd hs hbusy
  · rw [hx] at h ⊢
    exact ⟨h, Intake.feed_take hw, fun w hleft => Intake.leftover_take hw hleft⟩

/-- A transaction that retires does not reach the queue, unless it ends the run. -/
theorem intake_retire (e : Engine) (t : Bus.Transaction) (outcome : Bus.Outcome) :
    (e.retire t outcome).1.Working → (e.retire t outcome).1.intake = e.intake := by
  unfold retire
  split
  case h_2 => exact fun h => absurd h (not_working_finish _ _)
  case h_5 =>
    split
    · exact fun _ => rfl
    · split
      · exact fun h => absurd h (not_working_finish _ _)
      · exact fun _ => rfl
  all_goals exact fun _ => rfl

/-- The bus. -/
theorem Sound.intake_settle (hsound : e.Sound) (h : (e.settle answer).1.Working) :
    e.Working ∧ (e.settle answer).1.intake = e.intake := by
  rcases e.settle_cases answer with ⟨bus, hx, -⟩ | ⟨t, outcome, ht, hr, hx⟩
  · rw [hx] at h ⊢
    exact ⟨h, rfl⟩
  · rw [hx] at h ⊢
    rcases hsound.stage_of_outstanding ht with ⟨a, hs, -⟩ | hs
    · have hworking : e.Working := by
        rw [Working, status, isDraining, hs]
        exact ⟨rfl, rfl⟩
      exact ⟨hworking, intake_retire _ t outcome h⟩
    · have hstage : e.released.stage = .draining .errored := hs
      rw [retire_draining hstage] at h
      cases h.1

/-! ### Whole cycles -/

/-- **A cycle takes nothing from the bytes of a run, and adds nothing**: what has left the queue,
what is in it and what is left of the presented word are what had been received before, and the
word. As long as something is left of the word, it has not closed the input. -/
theorem Sound.step_flow {e' : Engine} {report : Report} (hsound : e.Sound)
    (hrun : e.status = .running) (hx : e.step word answer = (e', report)) (h : e'.Working) :
    e.Working ∧
      (∀ before,
        (e'.intake.input (before ++ (e.deciding word answer).popped)).feedAll
            (word.leftover? report.consumed).toList =
          (e.intake.input before).feed word) ∧
      ∀ w, word.leftover? report.consumed = some w →
        w.bytes ≠ [] ∧ e'.intake.closed = e.intake.closed := by
  have hrest : e.rest = { e with intake := e.intake.tick } := by
    refine rest_eq fun verdict hs => ?_
    rw [status, hs] at hrun
    cases hrun
  have hbusy : (e.settled answer).stage ≠ .idle := by
    refine stage_settle_ne_idle ?_ answer
    rw [hrest]
    intro hs
    have hidle : e.status = .idle := status_eq_idle_iff.mpr hs
    rw [hrun] at hidle
    cases hidle
  rw [Engine.step] at hx
  cases hx
  -- from the last part of the cycle to the first
  obtain ⟨hdeciding, hact⟩ := input_act h
  obtain ⟨hsettled, haccept, hleft⟩ := input_accept hbusy hdeciding
  obtain ⟨hworking, hintake⟩ := hsound.rest.intake_settle hsettled
  have hsettle : (e.settled answer).intake = e.intake.tick := by
    rw [settled, hintake, hrest]
  rw [hrest] at hworking
  rw [hsettle] at haccept hleft
  refine ⟨hworking, fun before => ?_, fun w hw => ?_⟩
  · exact (congrArg (Input.feedAll · _) (hact before)).trans (haccept before)
  · obtain ⟨hbytes, hclosed⟩ := hleft w hw
    exact ⟨hbytes, (congrArg Input.closed (hact [])).trans hclosed⟩

/-- A start opens an empty input, and there is nothing to take out of it yet. -/
theorem Sound.step_start (h : e.Sound) (hrest : e.status ≠ .running) {clear : Bool}
    (hw : word.decode = .ok (.start clear)) (answer : Bus.Response) :
    (e.deciding word answer).popped = [] ∧
      (e.step word answer).1.intake.input [] = ⟨[], false⟩ := by
  have hstarted := h.deciding_start hrest hw answer
  have hstage : (e.deciding word answer).stage = .header := by rw [hstarted]
  have hintake : (e.deciding word answer).intake = e.rest.intake.reset := by rw [hstarted]
  have hread : (e.deciding word answer).act = e.deciding word answer := by
    simp [Engine.act, hstage, Engine.readHeader, hintake, Intake.reset, Intake.pop?]
  refine ⟨?_, ?_⟩
  · simp [popped, hstage, hintake, Intake.reset, Intake.pop?]
  · have hstep : (e.step word answer).1 = (e.deciding word answer).act := rfl
    rw [hstep, hread, hintake]
    rfl

end Engine

end BusScript
