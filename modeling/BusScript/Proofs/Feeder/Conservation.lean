import BusScript.Proofs.Engine.Flow
import BusScript.Proofs.Run.Stored

/-!
# No Script Byte Is Lost

Between a client and the operations of a script stand three keepers of bytes: the feeder, which
presents a word until all of it has been taken, the queue, which takes up to three bytes in a
cycle, and the engine, which takes out headers and values. In a run they hold the bytes of the
script in order and once each.

Both feeders are followed as a `Feeding`: what matters of a feeder is which word it takes up in a
cycle, if it holds none.

## Main results

* `Feeding.Flows.succ` — one cycle of a run, for any feeder.
* `Feeding.Flows.conserved` — in the middle of a run, what has been taken out of the queue, what is
  in it and what is left of the held word are the bytes of the script so far.
* `Feeder.conserves_bytes` — that holds of a stream and of a store.
-/

namespace BusScript.Feeder

open Command (Word Input)

/-- The cycles of a feeder. -/
structure Feeding where
  /-- The engine before a cycle. -/
  engine : Nat → Engine
  /-- What is held before a cycle. -/
  held : Nat → Option Word
  /-- The word that is taken up in a cycle. -/
  taken : Nat → Option Word
  /-- What the target answers in a cycle. -/
  answer : Nat → Bus.Response
  sound : (engine 0).Sound
  held_zero : held 0 = none
  /-- A word is taken up only while none is held. -/
  free : ∀ t, (taken t).isSome = true → held t = none
  /-- It is presented at once. -/
  engine_succ : ∀ t,
    engine (t + 1) = (present (engine t) ((taken t).or (held t)) (answer t)).engine
  held_succ : ∀ t,
    held (t + 1) = (present (engine t) ((taken t).or (held t)) (answer t)).held

namespace Feeding

variable (f : Feeding)

/-- The word that is presented in a cycle. -/
def presented (t : Nat) : Option Word := (f.taken t).or (f.held t)

/-- A script is started in a cycle: none is running, and the word that is presented is a start. -/
def Starts (t : Nat) : Prop :=
  (f.engine t).status ≠ .running ∧
    ∃ w clear, f.presented t = some w ∧ w.decode = .ok (.start clear)

/-- The words taken up in `n` cycles, oldest first. -/
def words (start n : Nat) : List Word :=
  (List.range n).flatMap fun k => (f.taken (start + k)).toList

/-- The bytes taken out of the queue in a cycle. -/
def popped (t : Nat) : List Byte :=
  ((f.engine t).deciding ((f.presented t).getD .idle) (f.answer t)).popped

/-- The bytes taken out of the queue in `n` cycles, oldest first. -/
def used (start n : Nat) : List Byte :=
  (List.range n).flatMap fun k => f.popped (start + k)

/-- What is left to take of the held word after `n` cycles. A word behind the last one of the
script is not taken any more. -/
def unread (start n : Nat) : List Byte :=
  if (f.words start n).dropLast.any Word.isDataLast then []
  else ((f.held (start + n)).map Word.bytes).getD []

/-- The bytes of the script so far, `n` cycles after its start. -/
structure Conserved (start n : Nat) : Prop where
  /-- They have been taken out of the queue, are in it, or are still to be taken from the held
  word. -/
  bytes : f.used start n ++ (f.engine (start + n)).intake.queue ++ f.unread start n =
    Command.sent (f.words start n)
  /-- The input is closed when the last data word has come and has been taken whole. -/
  closed : (f.engine (start + n)).intake.closed = true ↔
    (f.words start n).any Word.isDataLast = true ∧
      f.used start n ++ (f.engine (start + n)).intake.queue = Command.sent (f.words start n)

/-- No byte is lost, duplicated or moved in any run, as long as it lasts and does not fail. -/
def Conserves : Prop :=
  ∀ start n, f.Starts start → (∀ k ≤ n, (f.engine (start + k + 1)).status = .running) →
    (f.engine (start + n + 1)).isDraining = false → f.Conserved start (n + 1)

variable {f} {start n : Nat}

theorem words_succ (f : Feeding) (start n : Nat) :
    f.words start (n + 1) = f.words start n ++ (f.taken (start + n)).toList := by
  simp [words, List.range_succ]

theorem used_succ (f : Feeding) (start n : Nat) :
    f.used start (n + 1) = f.used start n ++ f.popped (start + n) := by
  simp [used, List.range_succ]

/-- The engine makes a cycle with what is presented. -/
theorem engine_step (f : Feeding) (t : Nat) :
    (f.engine (t + 1),
        (present (f.engine t) (f.presented t) (f.answer t)).report) =
      (f.engine t).step ((f.presented t).getD .idle) (f.answer t) := by
  rw [f.engine_succ]
  exact present_step _ _ _

/-- The engine of a feeder is sound throughout. -/
theorem sound_engine (f : Feeding) (t : Nat) : (f.engine t).Sound := by
  induction t with
  | zero => exact f.sound
  | succ t ih =>
      have hstep := ih.step ((f.presented t).getD .idle) (f.answer t)
      rwa [← f.engine_step] at hstep

/-- What is still held is what was not taken of the presented word. -/
theorem held_leftover {t : Nat} (hrun : (f.engine (t + 1)).status = .running) :
    f.held (t + 1) = ((f.presented t).getD .idle).leftover?
      (present (f.engine t) (f.presented t) (f.answer t)).report.consumed := by
  have hopen : (present (f.engine t) (f.presented t) (f.answer t)).report.status.isTerminal =
      false := by
    rw [status_present, presented, ← f.engine_succ, hrun]
    rfl
  have hheld := f.held_succ t
  rw [← presented, held_present hopen] at hheld
  rw [hheld]
  cases f.presented t with
  | none => exact (Word.leftover?_of_not_isData Word.decode_idle rfl _).symm
  | some w => rfl

/-- The held word is presented before the next one is taken up. -/
theorem toList_presented (f : Feeding) (t : Nat) :
    (f.presented t).toList = (f.held t).toList ++ (f.taken t).toList := by
  rw [presented]
  cases htaken : f.taken t with
  | none => simp
  | some w =>
      rw [f.free t (by rw [htaken]; rfl)]
      rfl

/-- Only words that carry bytes are held. -/
theorem isData_held {t : Nat} {w : Word} (h : f.held t = some w) : w.isData = true := by
  cases t with
  | zero =>
      rw [f.held_zero] at h
      cases h
  | succ t =>
      rw [f.held_succ, present_eq] at h
      obtain ⟨v, -, hleft⟩ := Option.bind_eq_some_iff.mp h
      rw [remainder?] at hleft
      split at hleft
      · cases hleft
      · next hgoes =>
        have hdata : v.isData = true := by
          cases hv : v.isData with
          | true => rfl
          | false => exact absurd (by rw [hv, Bool.not_false, Bool.or_true]) hgoes
        dsimp only at hleft
        split at hleft
        · cases hleft
        · cases hleft
          rw [Word.isData, Word.consume, Word.opcode_ofFields]
          exact hdata

/-- A start is presented in the cycle in which it is taken up. -/
theorem taken_of_start {t : Nat} {w : Word} {clear : Bool} (h : f.presented t = some w)
    (hw : w.decode = .ok (.start clear)) : f.taken t = some w := by
  cases htaken : f.taken t with
  | some v =>
      rw [presented, htaken, Option.some_or] at h
      exact h
  | none =>
      rw [presented, htaken, Option.none_or] at h
      have hdata := isData_held h
      rw [Word.isData_of_decode hw] at hdata
      cases clear <;> cases hdata

/-! ### Through a run -/

/-- The flow of bytes `n` cycles after a start: with the rest of the held word, the queue has
received what the words taken up would have brought to an input that takes everything at once. -/
structure Flows (f : Feeding) (start n : Nat) : Prop where
  received : ((f.engine (start + n)).intake.input (f.used start n)).feedAll
      (f.held (start + n)).toList =
    (⟨[], false⟩ : Input).feedAll (f.words start n)
  /-- A word is held only with bytes, and the input is as the words before have left it. -/
  holding : ∀ w, f.held (start + n) = some w → w.bytes ≠ [] ∧
    (f.engine (start + n)).intake.closed = (f.words start n).dropLast.any Word.isDataLast

/-- The cycle of the start. -/
theorem Starts.flows (h : f.Starts start) (hrun : (f.engine (start + 1)).status = .running) :
    f.Flows start 1 := by
  obtain ⟨hrest, w, clear, hpresented, hw⟩ := h
  obtain ⟨hpopped, hinput⟩ := (f.sound_engine start).step_start hrest hw (f.answer start)
  have hused : f.used start 1 = [] := by
    rw [used_succ, popped, Nat.add_zero, hpresented]
    exact hpopped
  have hwords : f.words start 1 = [w] := by
    rw [words_succ, Nat.add_zero, taken_of_start hpresented hw]
    rfl
  have hheld : f.held (start + 1) = none := by
    rw [held_leftover hrun, hpresented]
    exact Word.leftover?_of_not_isData hw (by cases clear <;> rfl) _
  have hengine : f.engine (start + 1) = ((f.engine start).step w (f.answer start)).1 := by
    have hstep := f.engine_step start
    rw [hpresented] at hstep
    exact congrArg Prod.fst hstep
  refine ⟨?_, ?_⟩
  · rw [hheld, hused, hwords, hengine, hinput]
    exact (Input.feed_of_decode hw rfl _).symm
  · rw [hheld]
    rintro w ⟨⟩

/-- **One cycle of a run**, after which it is still worked at. -/
theorem Flows.succ (h : f.Flows start n) (hrun : (f.engine (start + n)).status = .running)
    (hworking : (f.engine (start + n + 1)).Working) : f.Flows start (n + 1) := by
  obtain ⟨-, hflow, hleft⟩ := (f.sound_engine (start + n)).step_flow hrun
    (f.engine_step (start + n)).symm hworking
  rw [← held_leftover hworking.1] at hflow hleft
  refine ⟨?_, ?_⟩
  · rw [← Nat.add_assoc, used_succ, words_succ]
    calc ((f.engine (start + n + 1)).intake.input
            (f.used start n ++ f.popped (start + n))).feedAll (f.held (start + n + 1)).toList
        = ((f.engine (start + n)).intake.input (f.used start n)).feedAll
            (f.presented (start + n)).toList := by
          rw [Input.feedAll_toList _ (f.presented (start + n))]
          exact hflow (f.used start n)
      _ = (⟨[], false⟩ : Input).feedAll
            (f.words start n ++ (f.taken (start + n)).toList) := by
          rw [toList_presented, Input.feedAll_append, h.received, Input.feedAll_append]
  · rw [← Nat.add_assoc]
    intro w hw
    obtain ⟨hbytes, hclosed⟩ := hleft w hw
    refine ⟨hbytes, ?_⟩
    rw [hclosed, words_succ]
    cases htaken : f.taken (start + n) with
    | none =>
        -- nothing has been taken up, so it is the word that was held before
        cases hheld : f.held (start + n) with
        | none =>
            rw [held_leftover hworking.1, presented, htaken, hheld] at hw
            cases hw
        | some v =>
            rw [Option.toList_none, List.append_nil]
            exact (h.holding v hheld).2
    | some w' =>
        -- the word has been taken up in this cycle, so those before it are spent
        have hreceived := h.received
        rw [f.free _ (by rw [htaken]; rfl), Input.feedAll_open] at hreceived
        rw [Option.toList_some, List.dropLast_concat]
        exact congrArg Input.closed hreceived

/-- When nothing is left to take, the queue has received the words as they are. -/
theorem conserved_of_received (hunread : f.unread start n = [])
    (h : (f.engine (start + n)).intake.input (f.used start n) =
      ⟨Command.sent (f.words start n), (f.words start n).any Word.isDataLast⟩) :
    f.Conserved start n := by
  have hbytes := congrArg Input.bytes h
  have hclosed := congrArg Input.closed h
  refine ⟨?_, ?_⟩
  · rw [hunread, List.append_nil]
    exact hbytes
  · constructor
    · exact fun hc => ⟨hclosed.symm.trans hc, hbytes⟩
    · exact fun hlast => hclosed.trans hlast.1

/-- **In the middle of a run the bytes of the script are all there**: taken out of the queue, in it,
or left of the held word. -/
theorem Flows.conserved (h : f.Flows start n) : f.Conserved start n := by
  have hreceived := h.received
  rw [Input.feedAll_open, List.nil_append] at hreceived
  cases hheld : f.held (start + n) with
  | none =>
      rw [hheld] at hreceived
      refine conserved_of_received ?_ hreceived
      rw [unread, hheld]
      exact ite_self _
  | some w =>
      obtain ⟨hne, hbefore⟩ := h.holding w hheld
      rw [hheld, Option.toList_some] at hreceived
      cases hc : (f.engine (start + n)).intake.closed with
      | true =>
          -- the script had ended before the word, which waits in vain
          rw [hc] at hbefore
          rw [Intake.input, hc, Input.feedAll_closed, ← hc] at hreceived
          refine conserved_of_received ?_ hreceived
          rw [unread, ← hbefore, if_pos rfl]
      | false =>
          rw [hc] at hbefore
          rw [Intake.input, hc, Input.feedAll_open] at hreceived
          have hword : Command.sent [w] = w.bytes := by simp [Command.sent]
          have hbytes := congrArg Input.bytes hreceived
          dsimp only at hbytes
          rw [hword] at hbytes
          refine ⟨?_, ?_⟩
          · rw [← hbytes, unread, ← hbefore, hheld]
            rfl
          · rw [hc, ← hbytes, List.self_eq_append_right]
            simp [hne]

/-- A run that has not failed after a cycle had not failed before it. -/
theorem working_of_succ {t : Nat} (hrun : (f.engine t).status = .running)
    (h : (f.engine (t + 1)).Working) : (f.engine t).Working :=
  ((f.sound_engine t).step_flow hrun (f.engine_step t).symm h).1

/-- **Every feeder conserves the bytes of a script**: induction on the cycles since its start. -/
theorem conserves (f : Feeding) : f.Conserves := by
  intro start n hstart hrun hflows
  suffices hall : ∀ m ≤ n, (f.engine (start + m + 1)).Working → f.Flows start (m + 1) from
    (hall n (Nat.le_refl n) ⟨hrun n (Nat.le_refl n), hflows⟩).conserved
  intro m
  induction m with
  | zero => exact fun hm _ => hstart.flows (hrun 0 hm)
  | succ m ih =>
      intro hm hworking
      have hbefore := hrun m (Nat.le_of_succ_le hm)
      exact (ih (Nat.le_of_succ_le hm) (working_of_succ hbefore hworking)).succ hbefore hworking

end Feeding

/-! ### Streams -/

namespace Stream

/-- One cycle presents the word that is held or, after an acknowledgement, the one on offer. -/
theorem step_eq (s : Stream) (offer : Option Word) (answer : Bus.Response) :
    (s.step offer answer).1 =
      ⟨(present s.engine ((if (s.step offer answer).2.1 then offer else none).or s.held)
          answer).engine,
        (present s.engine ((if (s.step offer answer).2.1 then offer else none).or s.held)
          answer).held⟩ := by
  rw [step]
  cases offer with
  | none => rfl
  | some w => cases s.isOpen <;> rfl

/-- Only a feeder that holds no word acknowledges one. -/
theorem held_of_acknowledged {s : Stream} {offer : Option Word} {answer : Bus.Response}
    (h : (s.step offer answer).2.1 = true) : s.held = none := by
  obtain ⟨-, hopen⟩ := Bool.and_eq_true_iff.mp h
  exact Option.isNone_iff_eq_none.mp (Bool.and_eq_true_iff.mp hopen).1

variable {τ : Type} [Bus.Target τ]

/-- A new feeder and its target before each cycle, with the offers of a client. -/
def state (options : Options) (target : τ) (offers : Nat → Option Word) : Nat → Stream × τ
  | 0 => (.new options, target)
  | t + 1 =>
    let (s, target) := state options target offers t
    let (s, target, _) := s.cycle target (offers t)
    (s, target)

/-- The cycles of a stream: a word is taken up when its offer is acknowledged. -/
def feeding (options : Options) (target : τ) (offers : Nat → Option Word) : Feeding where
  engine t := (state options target offers t).1.engine
  held t := (state options target offers t).1.held
  taken t :=
    let (s, target) := state options target offers t
    if (s.cycle target (offers t)).2.2.1 then offers t else none
  answer t :=
    let (s, target) := state options target offers t
    (Bus.Target.respond target s.engine.request).1
  sound := Engine.sound_new options
  held_zero := rfl
  free t h := by
    by_cases hack : ((state options target offers t).1.cycle (state options target offers t).2
        (offers t)).2.2.1 = true
    · exact held_of_acknowledged hack
    · dsimp only at h
      rw [if_neg hack] at h
      cases h
  engine_succ t := congrArg Stream.engine (step_eq _ (offers t) _)
  held_succ t := congrArg Stream.held (step_eq _ (offers t) _)

end Stream

/-! ### Stores -/

namespace Stored

variable {s : Stored} {store : Store}

/-- A word is held only while it is presented. -/
def Tidy (s : Stored) : Prop := s.fetch ≠ .presenting → s.held = none

/-- The feeder after the processor has asked for a script, or has not. -/
def asked (s : Stored) (store : Store) (request : Option (BitVec 16)) : Stored :=
  match request with
  | some address => if s.isOpen then s.begin store address else s
  | none => s

/-- The word that arrives in this cycle. -/
def arriving (s : Stored) (store : Store) : Option Word :=
  match s.fetch with
  | .fetching 0 => some ((store.fetch s.pointer).getD Store.sentinel)
  | _ => none

/-- One cycle: the processor is heard, a word is awaited and presented, and the next one is asked
for. -/
theorem step_eq (s : Stored) (store : Store) (request : Option (BitVec 16))
    (answer : Bus.Response) :
    (s.step store request answer).1 =
      ((s.asked store request).awaitWord store).resume store
        (present ((s.asked store request).awaitWord store).engine
          ((s.asked store request).awaitWord store).held answer) := by
  unfold step asked
  cases request with
  | none => rfl
  | some address => cases s.isOpen <;> rfl

/-- A word that arrives is held. -/
theorem held_awaitWord (s : Stored) (store : Store) :
    (s.awaitWord store).held = (s.arriving store).or s.held := by
  rw [awaitWord, arriving]
  rcases s.fetch with _ | (_ | remaining) | _ <;> rfl

/-- To ask for a script does not touch the engine, nor what is held. -/
theorem engine_asked (s : Stored) (store : Store) (request : Option (BitVec 16)) :
    (s.asked store request).engine = s.engine ∧ (s.asked store request).held = s.held := by
  unfold asked
  cases request with
  | none => exact ⟨rfl, rfl⟩
  | some address => cases s.isOpen <;> exact ⟨rfl, rfl⟩

/-- What is held after a presentation is what the presentation has left. -/
theorem held_resume (s : Stored) (store : Store) (e : Engine) (held : Option Word)
    (answer : Bus.Response) :
    (s.resume store (present e held answer)).held = (present e held answer).held := by
  rw [resume]
  split
  · next hend =>
    rw [present_eq] at hend ⊢
    cases held with
    | none => rfl
    | some w =>
        rw [Option.bind_some, remainder?, hend, Bool.true_or, if_pos rfl]
  · rfl

/-- A feeder that is not presenting holds no word when the processor is heard. -/
theorem Tidy.asked (h : s.Tidy) (request : Option (BitVec 16)) :
    (s.asked store request).Tidy := by
  unfold Stored.asked
  cases request with
  | none => exact h
  | some address =>
      cases hopen : s.isOpen with
      | false => exact h
      | true =>
          intro _
          have hstopped : s.fetch = .stopped := eq_of_beq (Bool.and_eq_true_iff.mp hopen).1
          exact h (by rw [hstopped]; rintro ⟨⟩)

theorem Tidy.awaitWord (h : s.Tidy) : (s.awaitWord store).Tidy := by
  rw [Stored.awaitWord]
  rcases hf : s.fetch with _ | (_ | remaining) | _
  · exact h
  · exact fun hne => absurd rfl hne
  · exact fun _ => h (by rw [hf]; rintro ⟨⟩)
  · exact h

/-- A word that has not been spent is still presented. -/
theorem Tidy.resume (h : s.Tidy) (e : Engine) (answer : Bus.Response) :
    (s.resume store (present e s.held answer)).Tidy := by
  intro hfetch
  cases hopen : (present e s.held answer).report.status.isTerminal with
  | true =>
      rw [Stored.resume, if_pos hopen]
  | false =>
      rw [held_resume]
      cases hleft : (present e s.held answer).held with
      | none => rfl
      | some w =>
          have hspent := spent_present e s.held answer
          rw [hleft, Option.elim_some] at hspent
          rw [resume_of_spent_eq_none hopen hspent] at hfetch
          have hnone : s.held = none := h hfetch
          rw [present_eq, hnone] at hleft
          cases hleft

/-- **A word arrives only at a feeder that holds none.** -/
theorem Tidy.held_of_arriving (h : s.Tidy) (harriving : (s.arriving store).isSome = true) :
    s.held = none := by
  refine h fun hf => ?_
  rw [arriving, hf] at harriving
  cases harriving

/-- One cycle presents the word that is held, or the one that arrives in it. -/
theorem present_step_eq (s : Stored) (store : Store) (request : Option (BitVec 16))
    (answer : Bus.Response) :
    (s.step store request answer).1.engine =
        (present s.engine (((s.asked store request).arriving store).or s.held) answer).engine ∧
      (s.step store request answer).1.held =
        (present s.engine (((s.asked store request).arriving store).or s.held) answer).held := by
  obtain ⟨hengine, hheld⟩ := s.engine_asked store request
  rw [step_eq, engine_resume, held_resume, engine_awaitWord, held_awaitWord, hengine, hheld]
  exact ⟨rfl, rfl⟩

/-- What is reported is what that presentation reports. -/
theorem report_step_eq (s : Stored) (store : Store) (request : Option (BitVec 16))
    (answer : Bus.Response) :
    (s.step store request answer).2.2 =
      (present s.engine (((s.asked store request).arriving store).or s.held) answer).report := by
  obtain ⟨hengine, hheld⟩ := s.engine_asked store request
  have hreport : (s.step store request answer).2.2 =
      (present ((s.asked store request).awaitWord store).engine
        ((s.asked store request).awaitWord store).held answer).report := by
    unfold step asked
    cases request with
    | none => rfl
    | some address => cases s.isOpen <;> rfl
  rw [hreport, engine_awaitWord, held_awaitWord, hengine, hheld]

theorem Tidy.step (h : s.Tidy) (request : Option (BitVec 16)) (answer : Bus.Response) :
    (s.step store request answer).1.Tidy := by
  rw [step_eq]
  exact (h.asked request).awaitWord.resume _ answer

variable {τ : Type} [Bus.Target τ]

/-- A new feeder and its target before each cycle, with the requests of a processor. -/
def state (options : Options) (store : Store) (target : τ) (requests : Nat → Option (BitVec 16)) :
    Nat → Stored × τ
  | 0 => (.new options, target)
  | t + 1 =>
    let (s, target) := state options store target requests t
    let (s, target, _) := s.cycle store target (requests t)
    (s, target)

theorem tidy_state (options : Options) (store : Store) (target : τ)
    (requests : Nat → Option (BitVec 16)) (t : Nat) :
    (state options store target requests t).1.Tidy := by
  induction t with
  | zero => exact fun _ => rfl
  | succ t ih => exact ih.step (requests t) _

/-- The cycles of a stored feeder: a word is taken up when it arrives. -/
def feeding (options : Options) (store : Store) (target : τ)
    (requests : Nat → Option (BitVec 16)) : Feeding where
  engine t := (state options store target requests t).1.engine
  held t := (state options store target requests t).1.held
  taken t := ((state options store target requests t).1.asked store (requests t)).arriving store
  answer t :=
    let (s, target) := state options store target requests t
    (Bus.Target.respond target s.engine.request).1
  sound := Engine.sound_new options
  held_zero := rfl
  free t h := by
    rw [← (engine_asked _ store (requests t)).2]
    exact ((tidy_state options store target requests t).asked (requests t)).held_of_arriving h
  engine_succ t := (present_step_eq _ store (requests t) _).1
  held_succ t := (present_step_eq _ store (requests t) _).2

end Stored

/-- **No script byte is lost, duplicated or moved**, whatever a client offers to a stream and
whatever a store holds, and however the target answers. -/
theorem conserves_bytes {τ : Type} [Bus.Target τ] (options : Options) (target : τ) :
    (∀ offers, (Stream.feeding options target offers).Conserves) ∧
      (∀ store requests, (Stored.feeding options store target requests).Conserves) :=
  ⟨fun _ => Feeding.conserves _, fun _ _ => Feeding.conserves _⟩

/-- The words of a script that writes a value and reads it back. -/
def writeRead : Array Word :=
  #[⟨0x0010000000000000⟩, ⟨0x001e1234567804c2⟩, ⟨0x0022000000000482⟩]

/-- A client that does not notice when the script has been sent, and offers its last word again. -/
def Stream.stubborn : Feeding :=
  feeding default ({} : Bus.Memory) fun t => writeRead[min t 2]?

/-- A processor that has the same script run from a store. -/
def Stored.patient : Feeding :=
  feeding default (.ofWords writeRead 0) ({} : Bus.Memory) fun _ => some 0

/-- Nine cycles after its start the stubborn client has a word held that the script does not need
any more; five cycles after its start the stored script has its last word held. -/
theorem conserves_bytes_holding :
    (Stream.stubborn.Starts 0 ∧
      (∀ k ≤ 8, (Stream.stubborn.engine (0 + k + 1)).status = .running) ∧
      (Stream.stubborn.engine (0 + 8 + 1)).isDraining = false ∧
      Stream.stubborn.held 9 = some ⟨0x0022000000000482⟩ ∧ Stream.stubborn.Conserved 0 9) ∧
    (Stored.patient.Starts 0 ∧
      (∀ k ≤ 4, (Stored.patient.engine (0 + k + 1)).status = .running) ∧
      (Stored.patient.engine (0 + 4 + 1)).isDraining = false ∧
      Stored.patient.held 5 = some ⟨0x0022000000000482⟩ ∧ Stored.patient.Conserved 0 5) := by
  obtain ⟨hstream, hstored⟩ := conserves_bytes default ({} : Bus.Memory)
  have hsent : Stream.stubborn.Starts 0 := ⟨by decide, ⟨0x0010000000000000⟩, true, rfl, rfl⟩
  have hsends : ∀ k ≤ 8, (Stream.stubborn.engine (0 + k + 1)).status = .running := by decide
  have hasked : Stored.patient.Starts 0 := ⟨by decide, ⟨0x0010000000000000⟩, true, rfl, rfl⟩
  have hruns : ∀ k ≤ 4, (Stored.patient.engine (0 + k + 1)).status = .running := by decide
  exact ⟨⟨hsent, hsends, rfl, rfl, hstream _ 0 8 hsent hsends rfl⟩,
    ⟨hasked, hruns, rfl, rfl, hstored _ _ 0 4 hasked hruns rfl⟩⟩

end BusScript.Feeder
