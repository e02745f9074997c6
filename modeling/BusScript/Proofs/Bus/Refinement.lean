import BusScript.Proofs.Bus.Waiting
import Mathlib.Data.Nat.Count

/-!
# A Master and a Memory Refine an Atomic Memory

A master is called in two ways: it is asked to begin a transaction (`Master.issue?`), or to go
through a cycle (`Master.drive`). `Exchange` is any sequence of such calls on a new master that is
attached to a memory. However issues and cycles alternate, one transaction is outstanding at a time,
it retires after a number of cycles that is known from the beginning, and nothing reaches the memory
but the transactions that have retired, one atomic step each.

## Main results

* `Link.call_drive` — what a cycle does, with `Link.call_issue_of_free` and
  `Link.call_issue_of_outstanding` for an issue.
* `Exchange.due_of_accepted` — every cycle after the issue brings a transaction closer to its end.
* `Exchange.refines_atomic` — **the calls make up a sequence of atomic steps**, each at its time.
-/

namespace BusScript.Bus

/-! ### Memories and sequences of steps -/

/-- A transaction does not change the number of wait states. -/
theorem Memory.waitStates_perform (m : Memory) (t : Transaction) :
    (m.perform t).2.waitStates = m.waitStates := by
  unfold perform
  dsimp only
  split
  · rfl
  · split
    · split <;> rfl
    · rfl

/-- Nor does any cycle. -/
theorem Memory.waitStates_respond (m : Memory) (r : Request) :
    (m.respond r).2.waitStates = m.waitStates := by
  unfold respond
  split
  · rfl
  · split
    · rfl
    · split
      · rfl
      · exact waitStates_perform _ _

/-- One more transaction at the end of a sequence. -/
theorem Atomic.performAll_concat (a : Atomic) (ts : List Transaction) (t : Transaction) :
    a.performAll (ts ++ [t]) =
      ((a.performAll ts).1 ++ [((a.performAll ts).2.perform t).1],
        ((a.performAll ts).2.perform t).2) := by
  induction ts generalizing a with
  | nil => rfl
  | cons t' ts ih => simp only [List.cons_append, performAll, ih]

/-! ### One call -/

/-- What a master is called for. -/
inductive Call where
  /-- To begin a transaction, which it refuses while one is outstanding. -/
  | issue (t : Transaction)
  /-- To go through one cycle. -/
  | drive
  deriving DecidableEq, Repr

/-- A master that is attached to a memory. -/
structure Link where
  bus : Master
  memory : Memory

namespace Link

/-- Master and memory after a call. A master that refuses a transaction stays as it is. -/
def call (l : Link) : Call → Link
  | .issue t => { l with bus := (l.bus.issue? t).getD l.bus }
  | .drive =>
    let (_, bus, memory) := l.bus.drive l.memory
    ⟨bus, memory⟩

/-- The transaction that a call begins. -/
def accepted? (l : Link) : Call → Option Transaction
  | .issue t => (l.bus.issue? t).map fun _ => t
  | .drive => none

/-- The transaction that retires in a call, and how it ended. -/
def retired? (l : Link) : Call → Option (Transaction × Outcome)
  | .issue _ => none
  | .drive => (l.bus.drive l.memory).1

/-- The cycles until the outstanding transaction retires. -/
def due (l : Link) : Nat := l.bus.due l.memory

/-- What is outstanding. -/
def outstanding? (l : Link) : Option Transaction := l.bus.outstanding?

variable {l : Link} {t : Transaction}

/-- Something is due as long as a transaction is outstanding. -/
theorem due_pos (h : l.outstanding? = some t) : 0 < l.due := Master.due_pos h l.memory

theorem due_eq_zero (h : l.outstanding? = none) : l.due = 0 := Master.due_eq_zero h l.memory

@[simp] theorem waitStates_call (l : Link) (c : Call) :
    (l.call c).memory.waitStates = l.memory.waitStates := by
  cases c with
  | issue t => rfl
  | drive => exact l.memory.waitStates_respond _

/-- While a transaction is outstanding, no other is begun, and nothing changes. -/
theorem call_issue_of_outstanding (h : l.outstanding? = some t) (t' : Transaction) :
    l.bus.issue? t' = none ∧ l.call (.issue t') = l := by
  have hbusy : ¬ l.bus.isIdle = true := by
    rw [Master.isIdle_eq_true_iff]
    exact fun hnone => Option.some_ne_none t (h.symm.trans hnone)
  have hrefused : l.bus.issue? t' = none := if_neg hbusy
  refine ⟨hrefused, ?_⟩
  rw [call, hrefused]
  rfl

/-- Otherwise it is, and all its cycles are due. -/
theorem call_issue_of_free (h : l.outstanding? = none) (t : Transaction) :
    l.bus.issue? t = some (l.bus.start t) ∧ l.call (.issue t) = ⟨l.bus.start t, l.memory⟩ := by
  have haccepted : l.bus.issue? t = some (l.bus.start t) :=
    if_pos (Master.isIdle_eq_true_iff.mpr h)
  refine ⟨haccepted, ?_⟩
  rw [call, haccepted]
  rfl

/-- A cycle counts down what is due. Until that is one, nothing retires and the view of the memory
is unchanged. Then the outstanding transaction retires as one atomic step. -/
theorem call_drive (l : Link) :
    (l.call .drive).due = l.due - 1 ∧
      ((l.due ≠ 1 ∧ l.retired? .drive = none ∧ (l.call .drive).outstanding? = l.outstanding? ∧
          (l.call .drive).memory.atomic = l.memory.atomic) ∨
        ∃ t, l.due = 1 ∧ l.outstanding? = some t ∧
          l.retired? .drive = some (t, (l.memory.atomic.perform t).1) ∧
          (l.call .drive).outstanding? = none ∧
          (l.call .drive).memory.atomic = (l.memory.atomic.perform t).2) := by
  have hdue : (l.call .drive).due = l.due - 1 := l.bus.due_advance l.memory
  refine ⟨hdue, ?_⟩
  rcases l.bus.advance_memory l.memory with ⟨bus, hx, hout, -, hview⟩ | ⟨t, hout, hx, hview⟩
  · have hsame : (l.call .drive).outstanding? = l.outstanding? := by
      have hafter : (l.call .drive).bus = bus := congrArg Prod.fst hx
      rw [outstanding?, hafter, hout, outstanding?]
    refine .inl ⟨?_, congrArg Prod.snd hx, hsame, hview⟩
    -- a transaction of which the last cycle was due would still be outstanding
    intro hone
    cases ht : l.outstanding? with
    | none =>
        rw [due_eq_zero ht] at hone
        cases hone
    | some t =>
        have hpos := due_pos (hsame.trans ht)
        omega
  · have hfree : (l.call .drive).outstanding? = none :=
      congrArg (fun after => after.1.outstanding?) hx
    have hpos := due_pos (l := l) hout
    have hzero := due_eq_zero hfree
    exact .inr ⟨t, by omega, hout, congrArg Prod.snd hx, hfree, hview⟩

end Link

/-! ### Sequences of calls -/

/-- Calls on a new master that is attached to a memory. -/
structure Exchange where
  memory : Memory
  calls : Nat → Call

namespace Exchange

/-- Master and memory before a call. -/
def link (x : Exchange) : Nat → Link
  | 0 => ⟨{}, x.memory⟩
  | k + 1 => (x.link k).call (x.calls k)

/-- The transaction that is accepted in a call. -/
def accepted (x : Exchange) (k : Nat) : Option Transaction := (x.link k).accepted? (x.calls k)

/-- What retires in a call. -/
def retired (x : Exchange) (k : Nat) : Option (Transaction × Outcome) :=
  (x.link k).retired? (x.calls k)

/-- The transactions that have been accepted before a call, in order. -/
def acceptedBefore (x : Exchange) : Nat → List Transaction
  | 0 => []
  | k + 1 => x.acceptedBefore k ++ (x.accepted k).toList

/-- What has retired before a call, in order. -/
def retiredBefore (x : Exchange) : Nat → List (Transaction × Outcome)
  | 0 => []
  | k + 1 => x.retiredBefore k ++ (x.retired k).toList

/-- How many cycles have been made before a call. -/
def cycles (x : Exchange) (k : Nat) : Nat := Nat.count (fun i => x.calls i = .drive) k

/-- A transaction has been accepted before a call, and nothing has retired since. -/
def Outstanding (x : Exchange) (k : Nat) (t : Transaction) : Prop :=
  ∃ j < k, x.accepted j = some t ∧ ∀ i, j < i → i < k → x.retired i = none

variable {x : Exchange} {j k : Nat} {t : Transaction}

theorem waitStates_link (x : Exchange) (k : Nat) :
    (x.link k).memory.waitStates = x.memory.waitStates := by
  induction k with
  | zero => rfl
  | succ k ih => rw [link, Link.waitStates_call, ih]

/-- An issue is no cycle. -/
theorem cycles_issue (h : x.calls k = .issue t) : x.cycles (k + 1) = x.cycles k := by
  rw [cycles, Nat.count_succ, if_neg (by rw [h]; rintro ⟨⟩)]
  rfl

theorem cycles_drive (h : x.calls k = .drive) : x.cycles (k + 1) = x.cycles k + 1 := by
  rw [cycles, Nat.count_succ, if_pos h]
  rfl

/-- What is outstanding stays so until something retires. -/
theorem outstanding?_succ (h : (x.link k).outstanding? = some t) (hretired : x.retired k = none) :
    (x.link (k + 1)).outstanding? = some t := by
  rw [link]
  cases hc : x.calls k with
  | issue t' =>
      rw [(Link.call_issue_of_outstanding h t').2]
      exact h
  | drive =>
      obtain ⟨-, ⟨-, -, hsame, -⟩ | ⟨t', -, -, hretires, -⟩⟩ := (x.link k).call_drive
      · rw [hsame]
        exact h
      · rw [retired, hc, hretires] at hretired
        cases hretired

/-- A transaction is accepted only if nothing is outstanding. Then it is outstanding, and all its
cycles are due. -/
theorem link_succ_of_accepted (h : x.accepted k = some t) :
    x.calls k = .issue t ∧ (x.link k).outstanding? = none ∧
      x.link (k + 1) = ⟨(x.link k).bus.start t, (x.link k).memory⟩ := by
  rw [accepted] at h
  cases hc : x.calls k with
  | drive =>
      rw [hc] at h
      cases h
  | issue t' =>
      rw [hc, Link.accepted?, Option.map_eq_some_iff] at h
      obtain ⟨bus, hissue, rfl⟩ := h
      cases hout : (x.link k).outstanding? with
      | some t =>
          rw [(Link.call_issue_of_outstanding hout t').1] at hissue
          cases hissue
      | none =>
          refine ⟨rfl, rfl, ?_⟩
          rw [link, hc, (Link.call_issue_of_free hout t').2]

/-- **Every cycle after the issue brings a transaction closer to its end.** Induction on the calls
after the issue: refused issues change nothing, and a cycle in which more than one was due does not
retire the transaction. -/
theorem due_of_accepted (h : x.accepted j = some t) (hlt : j < k)
    (hfew : x.cycles k < x.cycles j + (x.memory.waitStates + 2)) :
    (x.link k).outstanding? = some t ∧
      (x.link k).due + x.cycles k = x.cycles j + (x.memory.waitStates + 2) := by
  induction k with
  | zero => omega
  | succ k ih =>
      rcases Nat.lt_or_eq_of_le (Nat.le_of_lt_succ hlt) with hlt | rfl
      · cases hc : x.calls k with
        | issue t' =>
            rw [cycles_issue hc] at hfew ⊢
            obtain ⟨hout, hdue⟩ := ih hlt hfew
            rw [link, hc, (Link.call_issue_of_outstanding hout t').2]
            exact ⟨hout, hdue⟩
        | drive =>
            rw [cycles_drive hc] at hfew ⊢
            obtain ⟨hout, hdue⟩ := ih hlt (by omega)
            rw [link, hc]
            obtain ⟨hless, ⟨-, -, hsame, -⟩ | ⟨t', hone, -⟩⟩ := (x.link k).call_drive
            · have hpos := Link.due_pos hout
              exact ⟨hsame.trans hout, by omega⟩
            · omega
      · -- the call after the issue
        obtain ⟨hc, -, hlink⟩ := link_succ_of_accepted h
        have hdue : (x.link (j + 1)).due = x.memory.waitStates + 2 := by
          rw [hlink, ← x.waitStates_link j]
          rfl
        rw [cycles_issue hc, hdue, hlink]
        exact ⟨rfl, Nat.add_comm _ _⟩

/-- What is outstanding was accepted so few cycles ago that it cannot have retired. -/
theorem exists_accepted (h : (x.link k).outstanding? = some t) :
    ∃ j < k, x.accepted j = some t ∧
      x.cycles k < x.cycles j + (x.memory.waitStates + 2) ∧
      ∀ i, j < i → i < k → x.retired i = none := by
  induction k with
  | zero => cases h
  | succ k ih =>
      -- what was outstanding before a call that retires nothing still is
      have hkept : ∀ j, x.retired k = none → (∀ i, j < i → i < k → x.retired i = none) →
          ∀ i, j < i → i < k + 1 → x.retired i = none := by
        intro j hquiet hnone i hlo hhi
        rcases Nat.lt_or_eq_of_le (Nat.le_of_lt_succ hhi) with hlt | rfl
        · exact hnone i hlo hlt
        · exact hquiet
      rw [link] at h
      cases hc : x.calls k with
      | issue t' =>
          have hquiet : x.retired k = none := by rw [retired, hc, Link.retired?]
          rw [hc] at h
          rw [cycles_issue hc]
          cases hout : (x.link k).outstanding? with
          | none =>
              obtain ⟨hissue, hcall⟩ := Link.call_issue_of_free hout t'
              rw [hcall] at h
              obtain rfl : t' = t := Option.some.inj h
              refine ⟨k, Nat.lt_succ_self k, ?_, by omega, fun i hlo hhi => by omega⟩
              rw [accepted, hc, Link.accepted?, hissue, Option.map_some]
          | some t₀ =>
              rw [(Link.call_issue_of_outstanding hout t').2] at h
              obtain ⟨j, hlt, hj, hfew, hnone⟩ := ih h
              exact ⟨j, Nat.lt_succ_of_lt hlt, hj, hfew, hkept j hquiet hnone⟩
      | drive =>
          rw [hc] at h
          rw [cycles_drive hc]
          obtain ⟨hless, ⟨hmore, hquiet, hsame, -⟩ | ⟨t', -, -, -, hfree, -⟩⟩ :=
            (x.link k).call_drive
          · have hbefore := hsame.symm.trans h
            obtain ⟨j, hlt, hj, hfew, hnone⟩ := ih hbefore
            have hdue := (due_of_accepted hj hlt hfew).2
            have hpos := Link.due_pos hbefore
            refine ⟨j, Nat.lt_succ_of_lt hlt, hj, by omega, hkept j ?_ hnone⟩
            rw [retired, hc]
            exact hquiet
          · rw [hfree] at h
            cases h

/-- **The master knows what is outstanding.** -/
theorem outstanding?_eq_some_iff : (x.link k).outstanding? = some t ↔ x.Outstanding k t := by
  constructor
  · intro h
    obtain ⟨j, hlt, hj, -, hnone⟩ := exists_accepted h
    exact ⟨j, hlt, hj, hnone⟩
  · rintro ⟨j, hlt, hj, hnone⟩
    obtain ⟨-, -, hlink⟩ := link_succ_of_accepted hj
    -- from the call after the issue on, nothing retires
    induction k with
    | zero => omega
    | succ k ih =>
        rcases Nat.lt_or_eq_of_le (Nat.le_of_lt_succ hlt) with hlt | rfl
        · have hbefore := ih hlt fun i hlo hhi => hnone i hlo (Nat.lt_succ_of_lt hhi)
          exact outstanding?_succ hbefore (hnone k hlt (Nat.lt_succ_self k))
        · rw [hlink]
          rfl

/-- **A transaction retires when its cycles are over**, and nothing else does. -/
theorem retired_iff :
    (∃ outcome, x.retired k = some (t, outcome)) ↔
      x.calls k = .drive ∧ ∃ j < k, x.accepted j = some t ∧
        x.cycles (k + 1) = x.cycles j + (x.memory.waitStates + 2) := by
  constructor
  · rintro ⟨outcome, h⟩
    rw [retired] at h
    cases hc : x.calls k with
    | issue t' =>
        rw [hc] at h
        cases h
    | drive =>
        rw [hc] at h
        obtain ⟨-, ⟨-, hnone, -⟩ | ⟨t', hone, hout, hretired, -⟩⟩ := (x.link k).call_drive
        · rw [hnone] at h
          cases h
        · rw [hretired] at h
          obtain ⟨rfl, -⟩ := Prod.mk.inj (Option.some.inj h)
          obtain ⟨j, hlt, hj, hfew, -⟩ := exists_accepted hout
          have hdue := (due_of_accepted hj hlt hfew).2
          refine ⟨rfl, j, hlt, hj, ?_⟩
          rw [cycles_drive hc]
          omega
  · rintro ⟨hc, j, hlt, hj, hcycles⟩
    rw [cycles_drive hc] at hcycles
    obtain ⟨hout, hdue⟩ := due_of_accepted hj hlt (by omega)
    obtain ⟨-, ⟨hmore, -⟩ | ⟨t', -, hout', hretired, -⟩⟩ := (x.link k).call_drive
    · omega
    · obtain rfl : t' = t := Option.some.inj (hout'.symm.trans hout)
      rw [retired, hc]
      exact ⟨_, hretired⟩

/-- What has been accepted has retired, in order, or is outstanding. -/
theorem acceptedBefore_eq (x : Exchange) (k : Nat) :
    x.acceptedBefore k =
      (x.retiredBefore k).map Prod.fst ++ (x.link k).outstanding?.toList := by
  induction k with
  | zero => rfl
  | succ k ih =>
      rw [acceptedBefore, retiredBefore, ih, accepted, retired, link]
      cases hc : x.calls k with
      | issue t =>
          cases hout : (x.link k).outstanding? with
          | none =>
              obtain ⟨hissue, hcall⟩ := Link.call_issue_of_free hout t
              rw [hcall, Link.accepted?, hissue, Link.retired?]
              simp [Link.outstanding?, Master.start, Master.outstanding?]
          | some t' =>
              obtain ⟨hissue, hcall⟩ := Link.call_issue_of_outstanding hout t
              rw [hcall, hout, Link.accepted?, hissue, Link.retired?]
              simp
      | drive =>
          rw [Link.accepted?]
          obtain ⟨-, ⟨-, hnone, hsame, -⟩ | ⟨t, -, hout, hretired, hfree, -⟩⟩ :=
            (x.link k).call_drive
          · rw [hnone, hsame]
            simp
          · rw [hout, hretired, hfree]
            simp

/-- **The memory has made one atomic step for each transaction that has retired.** -/
theorem performAll_retiredBefore (x : Exchange) (k : Nat) :
    x.memory.atomic.performAll ((x.retiredBefore k).map Prod.fst) =
      ((x.retiredBefore k).map Prod.snd, (x.link k).memory.atomic) := by
  induction k with
  | zero => rfl
  | succ k ih =>
      rw [retiredBefore, retired, link]
      cases hc : x.calls k with
      | issue t =>
          rw [Link.retired?, Option.toList_none, List.append_nil]
          exact ih
      | drive =>
          obtain ⟨-, ⟨-, hnone, -, hview⟩ | ⟨t, -, -, hretired, -, hview⟩⟩ :=
            (x.link k).call_drive
          · rw [hnone, hview, Option.toList_none, List.append_nil]
            exact ih
          · rw [hretired, hview, Option.toList_some, List.map_append, List.map_append,
              List.map_singleton, List.map_singleton, Atomic.performAll_concat, ih]

/-- What becomes of a sequence of calls. -/
structure Refines (x : Exchange) : Prop where
  /-- While a transaction is outstanding, an issue is refused and changes nothing. -/
  refuses : ∀ k t t', x.calls k = .issue t → x.Outstanding k t' →
    (x.link k).bus.issue? t = none ∧ x.link (k + 1) = x.link k
  /-- Any other issue is accepted. -/
  accepts : ∀ k t, x.calls k = .issue t → (∀ t', ¬ x.Outstanding k t') → x.accepted k = some t
  /-- An accepted transaction retires in the cycle that makes two more than its wait states since
  the issue, and nothing else retires. -/
  retires : ∀ k t, (∃ outcome, x.retired k = some (t, outcome)) ↔
    x.calls k = .drive ∧ ∃ j < k, x.accepted j = some t ∧
      x.cycles (k + 1) = x.cycles j + (x.memory.waitStates + 2)
  /-- Transactions retire in the order of their issues. -/
  ordered : ∀ k, (x.retiredBefore k).map Prod.fst <+: x.acceptedBefore k
  /-- Their outcomes, the contents of the memory and its log are those of as many atomic steps. -/
  atomic : ∀ k, x.memory.atomic.performAll ((x.retiredBefore k).map Prod.fst) =
    ((x.retiredBefore k).map Prod.snd, (x.link k).memory.atomic)

/-- **A master and a memory refine an atomic memory**, whatever the memory holds and however long it
waits, and however issues and cycles alternate. -/
theorem refines_atomic (memory : Memory) (calls : Nat → Call) :
    Refines ⟨memory, calls⟩ := by
  refine ⟨?_, ?_, fun k t => retired_iff, ?_, performAll_retiredBefore _⟩
  · intro k t t' hc hout
    obtain ⟨hrefused, hsame⟩ :=
      Link.call_issue_of_outstanding (outstanding?_eq_some_iff.mpr hout) t
    refine ⟨hrefused, ?_⟩
    rw [link, hc]
    exact hsame
  · intro k t hc hfree
    have hnone : (link ⟨memory, calls⟩ k).outstanding? = none :=
      Option.eq_none_iff_forall_ne_some.mpr fun t' ht' =>
        hfree t' (outstanding?_eq_some_iff.mp ht')
    rw [accepted, hc, Link.accepted?, (Link.call_issue_of_free hnone t).1, Option.map_some]
  · intro k
    rw [acceptedBefore_eq]
    exact List.prefix_append _ _

end Exchange

end BusScript.Bus
