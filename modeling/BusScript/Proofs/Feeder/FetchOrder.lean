import BusScript.Proofs.Feeder.Fetching

/-!
# The Order of Fetching

A stored feeder on an errand puts up the words of a script from the address that the processor has
asked for on, each when it has arrived from the store and not before the word in front of it has
been spent. Which word it is follows from how many have been put up, and when it is put up follows
from the cycle in which the one in front of it was spent.

An errand is followed from the acknowledgement of its request, cycle by cycle, with what is known of
the feeder when the processor has been heard (`Fetching.Stands`).

## Main results

* `Fetching.Stands.cycle` — one cycle of an errand.
* `Fetching.errand_of_accepts` — an errand from its request to the next one.
* `Feeder.fetches_in_order` — the errands of a feeder, for every store and all requests.
-/

namespace BusScript

open Command (Word)

/-- The word that is found `i` addresses after `a`, around the end of the address space. -/
def Store.wordAt (store : Store) (a : BitVec 16) (i : Nat) : Word :=
  (store.fetch (a + BitVec.ofNat 16 i)).getD Store.sentinel

/-- What may be left of a word: the whole of it, or what has not been taken of what was left of it
before. -/
inductive Command.Word.Leaves (w : Word) : Word → Prop
  | whole : Leaves w w
  | part {v v' : Word} {n : Nat} : Leaves w v → v.leftover? n = some v' → Leaves w v'

/-- What is left of a word is the last one if the word is. -/
theorem Command.Word.Leaves.isDataLast_eq {w v : Word} (h : w.Leaves v) :
    v.isDataLast = w.isDataLast := by
  induction h with
  | whole => rfl
  | part _ hleft ih => exact (isDataLast_of_leftover? hleft).trans ih

namespace Feeder

namespace Fetching

/-- The request for the script at `a` is acknowledged in cycle `start`. -/
def Accepts (f : Fetching) (start : Nat) (a : BitVec 16) : Prop :=
  f.acknowledged start = true ∧ f.request start = some a

/-- No other request is acknowledged in the `n` cycles from `start` on. -/
def Alone (f : Fetching) (start n : Nat) : Prop :=
  ∀ k, 0 < k → k < n → f.acknowledged (start + k) = false

/-- Word number `i` of an errand is spent in its cycle `n`: it is the last that has been put up. -/
def Spends (f : Fetching) (start i n : Nat) : Prop :=
  (f.words start (n + 1)).length = i + 1 ∧ (f.presentation (start + n)).spent.isSome = true

/-- The next word of an errand arrives `r` cycles after its cycle `n`: it is the first one, or the
one behind a word that has been spent and was not the last, and the run has not ended since. -/
def Due (f : Fetching) (start : Nat) (a : BitVec 16) (n r : Nat) : Prop :=
  (f.words start n = [] ∧ n + r = f.store.latency) ∨
    ∃ i m, m < n ∧ n + r = m + f.store.latency + 1 ∧ f.Spends start i m ∧
      (f.store.wordAt a i).isDataLast = false ∧ ∀ k, m ≤ k → k < n → ¬ f.Ends (start + k)

/-- What a feeder does between the acknowledgement of a request for the script at `a`, in cycle
`start`, and that of the next request. -/
structure Errand (f : Fetching) (start : Nat) (a : BitVec 16) : Prop where
  /-- The words from `a` on are put up, in order and once each. -/
  order : ∀ n, f.Alone start n →
    f.words start n = (List.range (f.words start n).length).map (f.store.wordAt a)
  /-- The pointer is behind the last of them. -/
  pointer : ∀ n, 0 < n → f.Alone start n →
    (f.feeder (start + n)).pointer = a + BitVec.ofNat 16 (f.words start n).length
  /-- What is presented is left of the last of them. -/
  presented : ∀ n w, f.Alone start (n + 1) → f.feeding.presented (start + n) = some w →
    ∃ i, (f.words start (n + 1)).length = i + 1 ∧ (f.store.wordAt a i).Leaves w
  /-- The first one is put up when the latency of the store has passed. -/
  first : (∀ k < f.store.latency, f.putUp (start + k) = none) ∧
    f.putUp (start + f.store.latency) = some (f.store.wordAt a 0)
  /-- So is any other one after the cycle in which the one in front of it is spent, if that is not
  the last and no run ends before. -/
  next : ∀ n i, f.Alone start (n + 1) → f.Spends start i n →
    (f.store.wordAt a i).isDataLast = false →
    (∀ k ≤ f.store.latency, ¬ f.Ends (start + n + k)) →
    (∀ k < f.store.latency, f.putUp (start + n + 1 + k) = none) ∧
      f.putUp (start + n + 1 + f.store.latency) = some (f.store.wordAt a (i + 1))
  /-- No word is put up at another time. -/
  only : ∀ n w, f.Alone start (n + 1) → f.putUp (start + n) = some w → f.Due start a n 0
  /-- None is put up when the last one has been spent or a run has ended. -/
  stops : ∀ n m, n < m → f.Alone start (m + 1) →
    (f.Ends (start + n) ∨ ∃ i, f.Spends start i n ∧ (f.store.wordAt a i).isDataLast = true) →
    f.putUp (start + m) = none

/-- The feeder runs its errands one after the other. -/
structure Orderly (f : Fetching) : Prop where
  /-- A word is held exactly while it is presented. -/
  held_iff : ∀ t, (f.feeder t).held.isSome = true ↔ (f.feeder t).fetch = .presenting
  /-- A request is acknowledged exactly if nothing is being fetched and the engine is idle. -/
  acknowledged_iff : ∀ t, f.acknowledged t = true ↔
    (f.request t).isSome = true ∧ (f.feeder t).fetch = .stopped ∧
      (f.feeder t).engine.isIdle = true
  /-- Any other request changes nothing. -/
  unheard : ∀ t, f.acknowledged t = false →
    f.feeder (t + 1) = ((f.feeder t).step f.store none (f.answer t)).1
  /-- What comes of a request that is acknowledged. -/
  errand : ∀ start a, f.Accepts start a → f.Errand start a

variable {f : Fetching} {start n t r : Nat} {a : BitVec 16}

/-! ### On an errand -/

/-- How a feeder stands before cycle `n` of an errand, when the processor has been heard. -/
structure Stands (f : Fetching) (start : Nat) (a : BitVec 16) (n : Nat) (s : Stored) : Prop where
  order : f.words start n = (List.range (f.words start n).length).map (f.store.wordAt a)
  pointer : s.pointer = a + BitVec.ofNat 16 (f.words start n).length
  waiting : ∀ r, s.fetch = .fetching r → f.Due start a n r
  /-- What is held is left of the word that was put up last. -/
  holding : ∀ w, s.held = some w →
    ∃ i, (f.words start n).length = i + 1 ∧ (f.store.wordAt a i).Leaves w

/-- The word that is put up is the next one, and it is due. -/
theorem Stands.putUp_eq {w : Word} (h : f.Stands start a n (f.heard (start + n)))
    (hw : f.putUp (start + n) = some w) :
    w = f.store.wordAt a (f.words start n).length ∧ f.Due start a n 0 := by
  obtain ⟨hfetch, hfound⟩ := Stored.arriving_eq_some_iff.mp hw
  refine ⟨?_, h.waiting 0 hfetch⟩
  rw [← hfound, h.pointer]
  rfl

/-- The word that is presented is left of the one that was put up last. -/
theorem Stands.presented {w : Word} (h : f.Stands start a n (f.heard (start + n)))
    (hw : f.feeding.presented (start + n) = some w) :
    ∃ i, (f.words start (n + 1)).length = i + 1 ∧ (f.store.wordAt a i).Leaves w := by
  rw [words_succ]
  cases hputUp : f.putUp (start + n) with
  | some v =>
      have htaken : f.feeding.taken (start + n) = some v := hputUp
      rw [Feeding.presented, htaken, Option.some_or] at hw
      obtain rfl : v = w := Option.some.inj hw
      refine ⟨(f.words start n).length, by simp, ?_⟩
      rw [← (h.putUp_eq hputUp).1]
      exact .whole
  | none =>
      have htaken : f.feeding.taken (start + n) = none := hputUp
      rw [Feeding.presented, htaken, Option.none_or] at hw
      have hheld : (f.heard (start + n)).held = some w :=
        ((f.feeder (start + n)).engine_asked f.store (f.request (start + n))).2.trans hw
      rw [Option.toList_none, List.append_nil]
      exact h.holding w hheld

/-- What is awaited after a cycle was awaited before it, or has been asked for in it. -/
theorem Stands.due_succ (h : f.Stands start a n (f.heard (start + n)))
    (hfetch : (f.feeder (start + n + 1)).fetch = .fetching r) : f.Due start a (n + 1) r := by
  have hopen : ¬ f.Ends (start + n) := by
    intro hend
    rw [fetch_of_ends hend] at hfetch
    cases hfetch
  cases hspent : (f.presentation (start + n)).spent with
  | none =>
      rw [fetch_of_not_spent hopen hspent] at hfetch
      have hbefore := Stored.fetch_of_awaitWord hfetch
      rcases h.waiting _ hbefore with ⟨hnone, hdue⟩ | ⟨i, m, hm, hdue, hspends, hlast, hgoes⟩
      · have hputUp : f.putUp (start + n) = none := putUp_eq_none (by rw [hbefore]; rintro ⟨⟩)
        refine .inl ⟨?_, by omega⟩
        rw [words_succ, hnone, hputUp]
        rfl
      · refine .inr ⟨i, m, by omega, by omega, hspends, hlast, ?_⟩
        intro k hk hkn
        rcases Nat.lt_or_eq_of_le (Nat.le_of_lt_succ hkn) with hlt | rfl
        · exact hgoes k hk hlt
        · exact hopen
  | some w =>
      rw [fetch_of_spent hopen hspent] at hfetch
      obtain ⟨i, hlength, hleaves⟩ := h.presented (presented_of_spent hspent)
      split at hfetch
      · cases hfetch
      · next hlast =>
        obtain rfl : f.store.latency = r := by
          cases hfetch
          rfl
        refine .inr ⟨i, n, by omega, by omega, ⟨hlength, by rw [hspent]; rfl⟩, ?_, ?_⟩
        · rw [← hleaves.isDataLast_eq]
          exact Bool.eq_false_iff.mpr hlast
        · intro k hk hkn
          obtain rfl : k = n := by omega
          exact hopen

/-- **One cycle of an errand.** -/
theorem Stands.cycle (h : f.Stands start a n (f.heard (start + n))) :
    f.Stands start a (n + 1) (f.feeder (start + n + 1)) := by
  refine ⟨?_, ?_, fun r => h.due_succ, ?_⟩
  · cases hputUp : f.putUp (start + n) with
    | none =>
        rw [words_succ, hputUp, Option.toList_none, List.append_nil]
        exact h.order
    | some w =>
        obtain ⟨rfl, -⟩ := h.putUp_eq hputUp
        rw [words_succ, hputUp, Option.toList_some, List.length_append, List.length_singleton,
          List.range_succ, List.map_append, ← h.order]
        rfl
  · rw [pointer_succ, h.pointer, words_succ, List.length_append, BitVec.ofNat_add,
      BitVec.add_assoc]
  · intro w hw
    obtain ⟨v, m, hpresented, hleft⟩ := exists_presented_of_held hw
    obtain ⟨i, hlength, hleaves⟩ := h.presented hpresented
    exact ⟨i, hlength, hleaves.part hleft⟩

/-- What becomes of fetching when a word of an errand is spent. -/
theorem Stands.fetch_of_spends {i : Nat} (h : f.Stands start a n (f.heard (start + n)))
    (hspends : f.Spends start i n) (hopen : ¬ f.Ends (start + n)) :
    (f.feeder (start + n + 1)).fetch =
      if (f.store.wordAt a i).isDataLast then .stopped else .fetching f.store.latency := by
  obtain ⟨hlength, hspent⟩ := hspends
  obtain ⟨w, hw⟩ := Option.isSome_iff_exists.mp hspent
  obtain ⟨j, hj, hleaves⟩ := h.presented (presented_of_spent hw)
  obtain rfl : j = i := by omega
  rw [fetch_of_spent hopen hw, hleaves.isDataLast_eq]

/-- A request that is acknowledged sets the feeder going. -/
theorem heard_of_accepts (h : f.Accepts start a) :
    f.heard start = (f.feeder start).begin f.store a := by
  obtain ⟨hack, hrequest⟩ := h
  obtain ⟨-, hstopped, hidle⟩ := Stored.acknowledged_iff.mp hack
  have hopen : (f.feeder start).isOpen = true := by
    rw [Stored.isOpen, hstopped, hidle]
    rfl
  rw [heard, hrequest]
  exact if_pos hopen

/-- **An errand from its request on**: induction on its cycles. -/
theorem stands_of_accepts (h : f.Accepts start a) (halone : f.Alone start (n + 1)) :
    f.Stands start a n (f.heard (start + n)) := by
  induction n with
  | zero =>
      have hheld : (f.heard start).held = none := by
        rw [heard, ((f.feeder start).engine_asked f.store (f.request start)).2]
        refine f.tidy start ?_
        rw [(Stored.acknowledged_iff.mp h.1).2.1]
        rintro ⟨⟩
      rw [Nat.add_zero]
      refine ⟨rfl, ?_, ?_, ?_⟩
      · rw [heard_of_accepts h]
        exact (BitVec.add_zero a).symm
      · intro r hr
        rw [heard_of_accepts h] at hr
        cases hr
        exact .inl ⟨rfl, Nat.zero_add _⟩
      · intro w hw
        rw [hheld] at hw
        cases hw
  | succ n ih =>
      have hbefore := ih fun k hk hkn => halone k hk (by omega)
      have hquiet := halone (n + 1) (by omega) (by omega)
      rw [heard_of_not_acknowledged hquiet]
      exact hbefore.cycle

/-! ### Whole errands -/

/-- The word that is put up when it has been awaited for the latency of the store, from cycle `n` of
an errand on. -/
theorem putUp_of_latency (h : f.Accepts start a) (halone : f.Alone start (n + 1))
    (hfetch : (f.heard (start + n)).fetch = .fetching f.store.latency)
    (hopen : ∀ k < f.store.latency, ¬ f.Ends (start + n + k)) :
    (∀ k < f.store.latency, f.putUp (start + n + k) = none) ∧
      f.putUp (start + n + f.store.latency) =
        some (f.store.wordAt a (f.words start n).length) := by
  obtain ⟨hwait, ⟨w, hw⟩, hclosed⟩ := putUp_of_fetching hfetch hopen
  have hstill : f.Alone start (n + f.store.latency + 1) := by
    intro k hk hkn
    by_cases hle : k < n + 1
    · exact halone k hk hle
    · have hlater := hclosed (k - n) (by omega) (by omega)
      rwa [show start + n + (k - n) = start + k by omega] at hlater
  rw [Nat.add_assoc] at hw
  obtain ⟨hword, -⟩ := (stands_of_accepts h hstill).putUp_eq hw
  refine ⟨hwait, ?_⟩
  rw [Nat.add_assoc, hw, hword, words_add hwait]

/-- The word behind one that has been spent and was not the last. -/
theorem putUp_of_spends {i : Nat} (h : f.Accepts start a) (halone : f.Alone start (n + 1))
    (hspends : f.Spends start i n) (hlast : (f.store.wordAt a i).isDataLast = false)
    (hopen : ∀ k ≤ f.store.latency, ¬ f.Ends (start + n + k)) :
    (∀ k < f.store.latency, f.putUp (start + n + 1 + k) = none) ∧
      f.putUp (start + n + 1 + f.store.latency) = some (f.store.wordAt a (i + 1)) := by
  have hfetch : (f.feeder (start + n + 1)).fetch = .fetching f.store.latency := by
    rw [(stands_of_accepts h halone).fetch_of_spends hspends (hopen 0 (Nat.zero_le _)), hlast]
    rfl
  have hquiet : f.acknowledged (start + n + 1) = false :=
    not_acknowledged_of_fetch (by rw [hfetch]; rintro ⟨⟩)
  have hstill : f.Alone start (n + 1 + 1) := by
    intro k hk hkn
    rcases Nat.lt_or_eq_of_le (Nat.le_of_lt_succ hkn) with hlt | rfl
    · exact halone k hk hlt
    · exact hquiet
  rw [← heard_of_not_acknowledged hquiet] at hfetch
  have hput := putUp_of_latency h hstill hfetch fun k hk => by
    rw [show start + (n + 1) + k = start + n + (k + 1) by omega]
    exact hopen (k + 1) (by omega)
  rw [hspends.1] at hput
  exact hput

/-- The end of an errand: its last word has been spent, or a run has ended. -/
theorem putUp_of_done {m : Nat} (h : f.Accepts start a) (hnm : n < m)
    (halone : f.Alone start (m + 1))
    (hdone : f.Ends (start + n) ∨
      ∃ i, f.Spends start i n ∧ (f.store.wordAt a i).isDataLast = true) :
    f.putUp (start + m) = none := by
  have hstopped : (f.feeder (start + n + 1)).fetch = .stopped := by
    by_cases hend : f.Ends (start + n)
    · exact fetch_of_ends hend
    · obtain hend' | ⟨i, hspends, hlast⟩ := hdone
      · exact absurd hend' hend
      · have hbefore : f.Alone start (n + 1) := fun k hk hkn => halone k hk (by omega)
        rw [(stands_of_accepts h hbefore).fetch_of_spends hspends hend, hlast]
        rfl
  obtain ⟨d, rfl⟩ : ∃ d, m = n + 1 + d := ⟨m - (n + 1), by omega⟩
  rw [← Nat.add_assoc, ← Nat.add_assoc]
  refine putUp_of_stopped hstopped fun k hk => ?_
  rw [show start + n + 1 + k = start + (n + 1 + k) by omega]
  exact halone (n + 1 + k) (by omega) (by omega)

/-- **An errand**, from the acknowledgement of its request to that of the next one. -/
theorem errand_of_accepts (h : f.Accepts start a) : f.Errand start a where
  order n halone := by
    rcases n with _ | n
    · rfl
    · exact (stands_of_accepts h halone).cycle.order
  pointer n hn halone := by
    obtain ⟨n, rfl⟩ : ∃ k, n = k + 1 := ⟨n - 1, by omega⟩
    exact (stands_of_accepts h halone).cycle.pointer
  presented n w halone hw := (stands_of_accepts h halone).presented hw
  first := by
    have hfetch : (f.heard (start + 0)).fetch = .fetching f.store.latency := by
      rw [Nat.add_zero, heard_of_accepts h]
      rfl
    have hidle : (f.feeder start).engine.status = .idle := by
      obtain ⟨-, -, hidle⟩ := Stored.acknowledged_iff.mp h.1
      exact Engine.status_eq_idle_iff.mpr (eq_of_beq hidle)
    exact putUp_of_latency h (fun k hk hkn => absurd hk (by omega)) hfetch
      (not_ends_of_idle hfetch hidle)
  next n i halone hspends hlast hopen := putUp_of_spends h halone hspends hlast hopen
  only n w halone hw := ((stands_of_accepts h halone).putUp_eq hw).2
  stops n m hnm halone hdone := putUp_of_done h hnm halone hdone

end Fetching

/-- **Stored words are fetched in order**, for every store and every target, and whatever the
processor asks for. -/
theorem fetches_in_order {τ : Type} [Bus.Target τ] (options : Options) (store : Store) (target : τ)
    (requests : Nat → Option (BitVec 16)) :
    (Stored.fetching options store target requests).Orderly := by
  refine ⟨?_, fun t => Stored.acknowledged_iff, ?_, fun start a => Fetching.errand_of_accepts⟩
  · intro t
    constructor
    · intro hheld
      refine Decidable.byContradiction fun hfetch => ?_
      rw [Fetching.tidy _ t hfetch] at hheld
      cases hheld
    · exact Fetching.laden _ t
  · intro t hquiet
    rw [Fetching.feeder_succ, Stored.step_eq, Stored.asked_of_not_acknowledged hquiet,
      Stored.step_eq]
    rfl

/-- A slow store with a script that goes around the end of the address space and has no last
word. -/
def Stored.wrapping : Store :=
  ⟨2, fun address =>
    if address = 0xffff then some ⟨0x0010000000000000⟩
    else if address = 0 then some ⟨0x001a000000000482⟩
    else none⟩

/-- A processor that asks for that script in every cycle. -/
def Stored.insistent : Fetching :=
  fetching default wrapping ({} : Bus.Memory) fun _ => some 0xffff

/-- The script is put up with the word that ends it, and run again when the engine is idle. -/
theorem fetches_in_order_insistent :
    Stored.insistent.Accepts 0 0xffff ∧ Stored.insistent.Alone 0 11 ∧
      Stored.insistent.Accepts 11 0xffff ∧
      Stored.insistent.putUp 2 = some (Stored.wrapping.wordAt 0xffff 0) ∧
      Stored.insistent.Spends 0 0 2 ∧
      Stored.insistent.putUp 5 = some (Stored.wrapping.wordAt 0xffff 1) ∧
      Stored.insistent.words 0 11 = (List.range 3).map (Stored.wrapping.wordAt 0xffff) ∧
      (Stored.insistent.feeder 11).pointer = 0xffff + BitVec.ofNat 16 3 := by
  have horderly := fetches_in_order default Stored.wrapping ({} : Bus.Memory)
    fun _ => some 0xffff
  have hasked : Stored.insistent.Accepts 0 0xffff := ⟨rfl, rfl⟩
  have halone : ∀ n ≤ 11, Stored.insistent.Alone 0 n := by
    have hquiet : ∀ k < 11, 0 < k → Stored.insistent.acknowledged (0 + k) = false := by decide
    intro n hn k hk hkn
    exact hquiet k (by omega) hk
  have hopen : ∀ k ≤ 2, ¬ Stored.insistent.Ends (0 + 2 + k) := by
    unfold Fetching.Ends
    decide
  have herrand := horderly.errand 0 0xffff hasked
  have hspends : Stored.insistent.Spends 0 0 2 := ⟨rfl, rfl⟩
  exact ⟨hasked, halone 11 (by decide), ⟨rfl, rfl⟩, herrand.first.2, hspends,
    (herrand.next 2 0 (halone 3 (by decide)) hspends rfl hopen).2,
    herrand.order 11 (halone 11 (by decide)),
    herrand.pointer 11 (by decide) (halone 11 (by decide))⟩

end Feeder

end BusScript
