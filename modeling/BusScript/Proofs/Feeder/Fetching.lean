import BusScript.Proofs.Feeder.Handshake

/-!
# The Cycles of a Stored Feeder

In every cycle a stored feeder hears the processor, waits for a word or puts one up that has
arrived, presents what it holds, and decides what to fetch next. `Fetching` follows it through its
cycles, against any answers of a target.

## Main results

* `Fetching.tidy`, `Fetching.laden` — a word is held exactly while it is presented.
* `Fetching.putUp_of_fetching` — a word that is being fetched is put up when its time has come.
* `Fetching.putUp_of_stopped` — a feeder that has stopped puts up nothing.
-/

namespace BusScript

open Command (Word)

namespace Feeder

/-- What a presentation has left of a word is what was not taken of it. -/
theorem leftover?_of_remainder? {w w' : Word} {report : Report}
    (h : remainder? w report = some w') : w.leftover? report.consumed = some w' := by
  cases hend : report.status.isTerminal with
  | true =>
      rw [remainder?, hend, Bool.true_or, if_pos rfl] at h
      cases h
  | false => rwa [remainder?_eq_leftover? hend] at h

namespace Stored

variable {s : Stored} {store : Store}

/-! ### What is presented is held -/

/-- A feeder that presents a word holds it. -/
def Laden (s : Stored) : Prop := s.fetch = .presenting → s.held.isSome = true

theorem Laden.asked (h : s.Laden) (request : Option (BitVec 16)) :
    (s.asked store request).Laden := by
  unfold Stored.asked
  cases request with
  | none => exact h
  | some address =>
      cases s.isOpen with
      | false => exact h
      | true => rintro ⟨⟩

theorem Laden.awaitWord (h : s.Laden) : (s.awaitWord store).Laden := by
  rw [Stored.awaitWord]
  rcases hf : s.fetch with _ | (_ | remaining) | _
  · exact h
  · exact fun _ => rfl
  · rintro ⟨⟩
  · exact h

/-- A word that is not held any more has been spent, and then it is not presented either. -/
theorem Laden.resume (h : s.Laden) (e : Engine) (answer : Bus.Response) :
    (s.resume store (present e s.held answer)).Laden := by
  intro hfetch
  have hspent := spent_present e s.held answer
  cases hopen : (present e s.held answer).report.status.isTerminal with
  | true =>
      rw [Stored.resume, if_pos hopen] at hfetch
      cases hfetch
  | false =>
      rw [held_resume]
      cases hleft : (present e s.held answer).held with
      | some w => rfl
      | none =>
          rw [hleft, Option.elim_none] at hspent
          cases hheld : s.held with
          | none =>
              rw [resume_of_spent_eq_none hopen (hspent.trans hheld)] at hfetch
              have hsome := h hfetch
              rw [hheld] at hsome
              cases hsome
          | some w =>
              rw [resume_of_spent_eq_some hopen (hspent.trans hheld)] at hfetch
              dsimp only at hfetch
              split at hfetch <;> cases hfetch

theorem Laden.step (h : s.Laden) (request : Option (BitVec 16)) (answer : Bus.Response) :
    (s.step store request answer).1.Laden := by
  rw [step_eq]
  exact (h.asked request).awaitWord.resume _ answer

/-! ### Waiting for a word -/

/-- A word arrives at the end of the time that it takes. -/
theorem arriving_eq_some_iff {w : Word} :
    s.arriving store = some w ↔
      s.fetch = .fetching 0 ∧ (store.fetch s.pointer).getD Store.sentinel = w := by
  rw [arriving]
  rcases s.fetch with _ | (_ | remaining) | _ <;> simp

/-- The pointer moves on with every word that arrives. -/
theorem pointer_awaitWord (s : Stored) (store : Store) :
    (s.awaitWord store).pointer =
      s.pointer + BitVec.ofNat 16 (s.arriving store).toList.length := by
  rw [awaitWord, arriving]
  rcases s.fetch with _ | (_ | remaining) | _ <;> simp

/-- A word for which the feeder has still to wait was further off before. -/
theorem fetch_of_awaitWord {r : Nat} (h : (s.awaitWord store).fetch = .fetching r) :
    s.fetch = .fetching (r + 1) := by
  rw [awaitWord] at h
  rcases hf : s.fetch with _ | (_ | remaining) | _ <;> rw [hf] at h <;> simp_all

theorem pointer_resume (s : Stored) (store : Store) (p : Presentation) :
    (s.resume store p).pointer = s.pointer := by
  rw [resume]
  split <;> rfl

/-- What becomes of fetching with a presentation. -/
theorem fetch_resume (s : Stored) (store : Store) (p : Presentation) :
    (s.resume store p).fetch =
      if p.report.status.isTerminal then .stopped
      else
        match p.spent with
        | none => s.fetch
        | some w => if w.isDataLast then .stopped else .fetching store.latency := by
  rw [resume]
  split <;> rfl

/-- Only a request that is acknowledged is heard. -/
theorem asked_of_not_acknowledged {request : Option (BitVec 16)} {answer : Bus.Response}
    (h : (s.step store request answer).2.1 = false) : s.asked store request = s := by
  unfold asked
  cases request with
  | none => rfl
  | some address =>
      cases hopen : s.isOpen with
      | false => rfl
      | true => simp [step, hopen] at h

/-- A request is acknowledged by a feeder that is open to it. -/
theorem acknowledged_iff {request : Option (BitVec 16)} {answer : Bus.Response} :
    (s.step store request answer).2.1 = true ↔
      request.isSome = true ∧ s.fetch = .stopped ∧ s.engine.isIdle = true := by
  cases request with
  | none => simp [step]
  | some address =>
      have hopen : (s.step store (some address) answer).2.1 = s.isOpen := by
        unfold step
        cases s.isOpen <;> rfl
      rw [hopen, isOpen, Bool.and_eq_true, beq_iff_eq]
      simp

end Stored

/-! ### The cycles of a feeder -/

/-- The cycles of a feeder that fetches from a store. -/
structure Fetching where
  store : Store
  /-- The feeder before a cycle. -/
  feeder : Nat → Stored
  /-- What the processor asks for in a cycle. -/
  request : Nat → Option (BitVec 16)
  /-- What the target answers in a cycle. -/
  answer : Nat → Bus.Response
  feeder_zero : ∃ options, feeder 0 = .new options
  feeder_succ : ∀ t, feeder (t + 1) = ((feeder t).step store (request t) (answer t)).1

namespace Fetching

/-- A word is held only while it is presented. -/
theorem tidy (f : Fetching) (t : Nat) : (f.feeder t).Tidy := by
  induction t with
  | zero =>
      obtain ⟨options, hnew⟩ := f.feeder_zero
      rw [hnew]
      exact fun _ => rfl
  | succ t ih =>
      rw [f.feeder_succ]
      exact ih.step _ _

/-- A word that is presented is held. -/
theorem laden (f : Fetching) (t : Nat) : (f.feeder t).Laden := by
  induction t with
  | zero =>
      obtain ⟨options, hnew⟩ := f.feeder_zero
      rw [hnew]
      rintro ⟨⟩
  | succ t ih =>
      rw [f.feeder_succ]
      exact ih.step _ _

/-- The feeder of a cycle when the processor has been heard. -/
def heard (f : Fetching) (t : Nat) : Stored := (f.feeder t).asked f.store (f.request t)

/-- The words that the feeder takes up, as those of any feeder. -/
def feeding (f : Fetching) : Feeding where
  engine t := (f.feeder t).engine
  held t := (f.feeder t).held
  taken t := (f.heard t).arriving f.store
  answer := f.answer
  sound := by
    obtain ⟨options, hnew⟩ := f.feeder_zero
    rw [hnew]
    exact Engine.sound_new options
  held_zero := by
    obtain ⟨options, hnew⟩ := f.feeder_zero
    rw [hnew]
    rfl
  free t h := by
    rw [← (Stored.engine_asked _ f.store (f.request t)).2]
    exact ((f.tidy t).asked (f.request t)).held_of_arriving h
  engine_succ t := by
    rw [f.feeder_succ]
    exact (Stored.present_step_eq _ f.store (f.request t) _).1
  held_succ t := by
    rw [f.feeder_succ]
    exact (Stored.present_step_eq _ f.store (f.request t) _).2

/-- Whether the request of a cycle is acknowledged. -/
def acknowledged (f : Fetching) (t : Nat) : Bool :=
  ((f.feeder t).step f.store (f.request t) (f.answer t)).2.1

/-- The word that is put up in a cycle. -/
def putUp (f : Fetching) (t : Nat) : Option Word := f.feeding.taken t

/-- The words that are put up in `n` cycles, oldest first. -/
def words (f : Fetching) (start n : Nat) : List Word := f.feeding.words start n

/-- The presentation of a cycle. -/
def presentation (f : Fetching) (t : Nat) : Presentation :=
  present ((f.heard t).awaitWord f.store).engine ((f.heard t).awaitWord f.store).held (f.answer t)

/-- The end of a run is reported in a cycle. -/
def Ends (f : Fetching) (t : Nat) : Prop :=
  ((f.feeder t).step f.store (f.request t) (f.answer t)).2.2.status.isTerminal = true

variable {f : Fetching} {start n t r : Nat}

/-! ### One cycle -/

/-- The parts of a cycle. -/
theorem feeder_succ_eq (f : Fetching) (t : Nat) :
    f.feeder (t + 1) =
      ((f.heard t).awaitWord f.store).resume f.store (f.presentation t) := by
  rw [f.feeder_succ, Stored.step_eq]
  rfl

/-- The word that is presented is the one that is put up in the cycle or held before it. -/
theorem presentation_eq (f : Fetching) (t : Nat) :
    f.presentation t = present (f.feeder t).engine (f.feeding.presented t) (f.answer t) := by
  obtain ⟨hengine, hheld⟩ := (f.feeder t).engine_asked f.store (f.request t)
  rw [presentation, Stored.engine_awaitWord, Stored.held_awaitWord, heard, hengine, hheld]
  rfl

/-- What a cycle reports is what its presentation does. -/
theorem ends_iff : f.Ends t ↔ (f.presentation t).report.status.isTerminal = true := by
  rw [Ends, Stored.report_step_eq, presentation_eq]
  exact Iff.rfl

theorem pointer_succ (f : Fetching) (t : Nat) :
    (f.feeder (t + 1)).pointer =
      (f.heard t).pointer + BitVec.ofNat 16 (f.putUp t).toList.length := by
  rw [feeder_succ_eq, Stored.pointer_resume]
  exact Stored.pointer_awaitWord _ _

theorem words_succ (f : Fetching) (start n : Nat) :
    f.words start (n + 1) = f.words start n ++ (f.putUp (start + n)).toList :=
  f.feeding.words_succ start n

/-- Nothing is put up in a cycle in which no word arrives. -/
theorem putUp_eq_none (h : (f.heard t).fetch ≠ .fetching 0) : f.putUp t = none := by
  cases hw : f.putUp t with
  | none => rfl
  | some w => exact absurd (Stored.arriving_eq_some_iff.mp hw).1 h

/-- The words put up so far are not added to while none is put up. -/
theorem words_add (h : ∀ k < r, f.putUp (start + n + k) = none) :
    f.words start (n + r) = f.words start n := by
  induction r with
  | zero => rfl
  | succ r ih =>
      rw [← Nat.add_assoc, words_succ, ← Nat.add_assoc, h r (Nat.lt_succ_self r),
        Option.toList_none, List.append_nil]
      exact ih fun k hk => h k (by omega)

/-- Only a request that is acknowledged is heard. -/
theorem heard_of_not_acknowledged (h : f.acknowledged t = false) : f.heard t = f.feeder t :=
  Stored.asked_of_not_acknowledged h

/-- Nothing is acknowledged while a word is fetched or presented. -/
theorem not_acknowledged_of_fetch (h : (f.feeder t).fetch ≠ .stopped) :
    f.acknowledged t = false := by
  refine Bool.eq_false_iff.mpr fun hack => h ?_
  exact (Stored.acknowledged_iff.mp hack).2.1

/-- When a run has ended nothing is fetched. -/
theorem fetch_of_ends (h : f.Ends t) : (f.feeder (t + 1)).fetch = .stopped := by
  rw [feeder_succ_eq, Stored.fetch_resume]
  exact if_pos (ends_iff.mp h)

/-- As long as no word is spent, the feeder keeps on presenting or waiting. -/
theorem fetch_of_not_spent (h : ¬ f.Ends t) (hspent : (f.presentation t).spent = none) :
    (f.feeder (t + 1)).fetch = ((f.heard t).awaitWord f.store).fetch := by
  rw [feeder_succ_eq, Stored.fetch_resume, hspent]
  exact if_neg (mt ends_iff.mpr h)

/-- Behind a spent word the next one is fetched, unless the word was the last. -/
theorem fetch_of_spent {w : Word} (h : ¬ f.Ends t) (hspent : (f.presentation t).spent = some w) :
    (f.feeder (t + 1)).fetch =
      if w.isDataLast then .stopped else .fetching f.store.latency := by
  rw [feeder_succ_eq, Stored.fetch_resume, hspent]
  exact if_neg (mt ends_iff.mpr h)

/-- Nothing is presented while a word is awaited that does not arrive in the cycle, nor is anything
spent. -/
theorem presented_of_idle (hfetch : (f.heard t).fetch ≠ .presenting)
    (hputUp : f.putUp t = none) :
    f.feeding.presented t = none ∧ (f.presentation t).spent = none := by
  have hheld : (f.feeder t).held = none := by
    rw [← ((f.feeder t).engine_asked f.store (f.request t)).2]
    exact (f.tidy t).asked (f.request t) hfetch
  have hnone : f.feeding.presented t = none := by
    have htaken : f.feeding.taken t = none := hputUp
    have hfree : f.feeding.held t = none := hheld
    rw [Feeding.presented, htaken, hfree]
    rfl
  refine ⟨hnone, ?_⟩
  rw [presentation_eq, hnone]
  rfl

/-- A spent word is the one that was presented. -/
theorem presented_of_spent {w : Word} (h : (f.presentation t).spent = some w) :
    f.feeding.presented t = some w := by
  rw [presentation_eq, spent_present] at h
  cases hheld : (present (f.feeder t).engine (f.feeding.presented t) (f.answer t)).held with
  | none =>
      rw [hheld] at h
      exact h
  | some v =>
      rw [hheld] at h
      cases h

/-- What is held after a cycle is left of the word that was presented in it. -/
theorem exists_presented_of_held {w : Word} (h : (f.feeder (t + 1)).held = some w) :
    ∃ v n, f.feeding.presented t = some v ∧ v.leftover? n = some w := by
  have hheld := f.feeding.held_succ t
  rw [← Feeding.presented, present_eq] at hheld
  obtain ⟨v, hv, hleft⟩ := Option.bind_eq_some_iff.mp (hheld.symm.trans h)
  exact ⟨v, _, hv, leftover?_of_remainder? hleft⟩

/-! ### The time that fetching takes -/

/-- A cycle in which a word is awaited that does not arrive in it. -/
theorem putUp_of_awaiting (h : (f.heard t).fetch = .fetching (r + 1)) :
    f.putUp t = none ∧ f.feeding.presented t = none ∧
      (¬ f.Ends t → (f.heard (t + 1)).fetch = .fetching r ∧ f.acknowledged (t + 1) = false) := by
  have hputUp : f.putUp t = none := putUp_eq_none (by rw [h]; rintro ⟨⟩)
  obtain ⟨hpresented, hspent⟩ := presented_of_idle (by rw [h]; rintro ⟨⟩) hputUp
  refine ⟨hputUp, hpresented, fun hopen => ?_⟩
  have hfetch : (f.feeder (t + 1)).fetch = .fetching r := by
    rw [fetch_of_not_spent hopen hspent, Stored.awaitWord, h]
  have hquiet : f.acknowledged (t + 1) = false :=
    not_acknowledged_of_fetch (by rw [hfetch]; rintro ⟨⟩)
  rw [heard_of_not_acknowledged hquiet]
  exact ⟨hfetch, hquiet⟩

/-- **A word that is being fetched is put up when its time has come**, unless a run ends before, and
no request is acknowledged until then. -/
theorem putUp_of_fetching (h : (f.heard t).fetch = .fetching r)
    (hopen : ∀ k < r, ¬ f.Ends (t + k)) :
    (∀ k < r, f.putUp (t + k) = none) ∧ (∃ w, f.putUp (t + r) = some w) ∧
      ∀ k, 0 < k → k ≤ r → f.acknowledged (t + k) = false := by
  induction r generalizing t with
  | zero =>
      refine ⟨fun k hk => absurd hk (Nat.not_lt_zero k), ?_, fun k hk hkr => absurd hk (by omega)⟩
      exact ⟨_, Stored.arriving_eq_some_iff.mpr ⟨h, rfl⟩⟩
  | succ r ih =>
      obtain ⟨hnone, -, hnext⟩ := putUp_of_awaiting h
      obtain ⟨hfetch, hquiet⟩ := hnext (hopen 0 (Nat.succ_pos r))
      have hshift : ∀ k, t + 1 + k = t + (k + 1) := by omega
      obtain ⟨hwait, hdone, hclosed⟩ := ih hfetch fun k hk => by
        rw [hshift]
        exact hopen (k + 1) (by omega)
      refine ⟨?_, ?_, ?_⟩
      · intro k hk
        rcases k with _ | k
        · exact hnone
        · rw [← hshift]
          exact hwait k (by omega)
      · rw [← hshift]
        exact hdone
      · intro k hk hkr
        obtain ⟨j, rfl⟩ : ∃ j, k = j + 1 := ⟨k - 1, by omega⟩
        rcases j with _ | j
        · exact hquiet
        · rw [← hshift]
          exact hclosed (j + 1) (by omega) (by omega)

/-- No run ends while an idle engine waits for its first word. -/
theorem not_ends_of_idle (h : (f.heard t).fetch = .fetching r)
    (hidle : (f.feeder t).engine.status = .idle) : ∀ k < r, ¬ f.Ends (t + k) := by
  induction r generalizing t with
  | zero => exact fun k hk => absurd hk (Nat.not_lt_zero k)
  | succ r ih =>
      obtain ⟨-, hpresented, hnext⟩ := putUp_of_awaiting h
      have hstatus : (f.feeder (t + 1)).engine.status = .idle := by
        have hstep := congrArg Prod.fst (f.feeding.engine_step t)
        rw [hpresented] at hstep
        have hrest : (f.feeding.engine t).status ≠ .running := by
          have hnow : (f.feeding.engine t).status = .idle := hidle
          rw [hnow]
          rintro ⟨⟩
        exact (congrArg Engine.status hstep).trans
          ((f.feeding.sound_engine t).status_step hrest .idle _)
      have hopen : ¬ f.Ends t := by
        have hreport : (f.presentation t).report.status = .idle := by
          rw [presentation_eq]
          exact (f.feeding.status_report t).trans hstatus
        rw [ends_iff, hreport]
        rintro ⟨⟩
      have hlater := ih (hnext hopen).1 hstatus
      intro k hk
      rcases k with _ | k
      · exact hopen
      · have hshift : t + (k + 1) = t + 1 + k := by omega
        rw [hshift]
        exact hlater k (by omega)

/-- A feeder that has stopped puts up nothing until a request is acknowledged. -/
theorem putUp_of_stopped (h : (f.feeder t).fetch = .stopped)
    (hquiet : ∀ k ≤ n, f.acknowledged (t + k) = false) : f.putUp (t + n) = none := by
  suffices hall : ∀ k ≤ n, (f.heard (t + k)).fetch = .stopped from
    putUp_eq_none (by rw [hall n (Nat.le_refl n)]; rintro ⟨⟩)
  intro k
  induction k with
  | zero =>
      intro hk
      rw [heard_of_not_acknowledged (hquiet 0 hk)]
      exact h
  | succ k ih =>
      intro hk
      have hbefore := ih (by omega)
      have hputUp : f.putUp (t + k) = none := putUp_eq_none (by rw [hbefore]; rintro ⟨⟩)
      obtain ⟨-, hspent⟩ := presented_of_idle (by rw [hbefore]; rintro ⟨⟩) hputUp
      rw [heard_of_not_acknowledged (hquiet (k + 1) hk)]
      by_cases hend : f.Ends (t + k)
      · exact fetch_of_ends hend
      · rw [← Nat.add_assoc, fetch_of_not_spent hend hspent, Stored.awaitWord, hbefore]
        exact hbefore

end Fetching

/-- The cycles of a new feeder against a target. -/
def Stored.fetching {τ : Type} [Bus.Target τ] (options : Options) (store : Store) (target : τ)
    (requests : Nat → Option (BitVec 16)) : Fetching where
  store := store
  feeder t := (Stored.state options store target requests t).1
  request := requests
  answer t :=
    let (s, target) := Stored.state options store target requests t
    (Bus.Target.respond target s.engine.request).1
  feeder_zero := ⟨options, rfl⟩
  feeder_succ _ := rfl

end Feeder

end BusScript
