import BusScript.Proofs.Engine.Session

/-!
# Engines Keep the Rules of the Bus

A transaction on the bus is one setup cycle and then access cycles, with the same address,
direction and data throughout, until the target answers ready. The rules say how the wires of one
cycle follow from those of the cycle before (`Bus.Compliant`), so they are rules for whole traces.

Of an engine they hold in every session. The reason is that a cycle does two things to the bus
only: it moves it on as the answer of the target says, and it may begin a transaction when that
has left it idle (`Engine.bus_step`). No failure reaches the bus.

## Main results

* `Bus.Compliant.enabled_of_waiting` — a transaction stays on the wires until it is answered.
* `Session.wires_compliant` — every session keeps the rules, and every transaction that was begun
  has been answered or is outstanding.
-/

namespace BusScript

namespace Bus

/-! ### The rules -/

/-- Whether a request is a setup cycle. -/
def Request.isSetup (r : Request) : Bool := r.select && !r.enable

/-- The rules of the bus, for the requests of all cycles and the answers to them. -/
structure Compliant (request : Nat → Request) (answer : Nat → Response) : Prop where
  /-- Only a selected target is enabled. -/
  select_of_enable : ∀ t, (request t).enable = true → (request t).select = true
  /-- A cycle that selects no target drives nothing else either. -/
  eq_idle : ∀ t, (request t).select = false → request t = .idle
  /-- A setup cycle is followed by an access cycle of the same transaction. -/
  enabled_of_setup : ∀ t, (request t).isSetup = true →
    request (t + 1) = { request t with enable := true }
  /-- An access cycle is repeated while the target is not ready. -/
  repeated : ∀ t, (request t).isAccess = true → (answer t).ready = false →
    request (t + 1) = request t
  /-- After a transaction, and while there is none, the bus is idle or the next one is set up. -/
  idle_or_setup : ∀ t,
    request t = .idle ∨ (request t).isAccess = true ∧ (answer t).ready = true →
    request (t + 1) = .idle ∨ (request (t + 1)).isSetup = true

/-- **A transaction stays on the wires until it is answered**: induction on the access cycles in
which the target was not ready. -/
theorem Compliant.enabled_of_waiting {request : Nat → Request} {answer : Nat → Response}
    (h : Compliant request answer) {t : Nat} (hsetup : (request t).isSetup = true) (n : Nat)
    (hwait : ∀ k < n, (answer (t + 1 + k)).ready = false) :
    request (t + 1 + n) = { request t with enable := true } := by
  induction n with
  | zero => exact h.enabled_of_setup t hsetup
  | succ n ih =>
      have hnow := ih fun k hk => hwait k (Nat.lt_succ_of_lt hk)
      have hselect : (request t).select = true := (Bool.and_eq_true_iff.mp hsetup).1
      have haccess : (request (t + 1 + n)).isAccess = true := by
        rw [hnow, Request.isAccess, hselect]
        rfl
      rw [← Nat.add_assoc, h.repeated _ haccess (hwait n (Nat.lt_succ_self n)), hnow]

/-! ### Masters from one cycle to the next -/

namespace Master

/-- A master one cycle later: it has moved on as the answer says, and may have begun a transaction
when that left it idle. -/
def Follows (bus' bus : Master) (r : Response) : Prop :=
  bus' = (bus.advance r).1 ∨
    (bus.advance r).1.outstanding? = none ∧ ∃ t, bus' = (bus.advance r).1.start t

variable {bus bus' : Master} {r : Response} {t : Transaction}

/-- After a setup cycle comes an access cycle, whatever the answer. -/
theorem Follows.of_setup (h : bus'.Follows bus r) (hp : bus.phase = .setup t) :
    bus' = ⟨.access t, bus.issued⟩ := by
  have hadv : (bus.advance r).1 = ⟨.access t, bus.issued⟩ := by
    rw [advance, hp]
  rcases h with h | ⟨hout, -⟩
  · exact h.trans hadv
  · rw [hadv] at hout
    cases hout

/-- A master whose target is not ready stays as it is. -/
theorem Follows.of_waiting (h : bus'.Follows bus r) (hp : bus.phase = .access t)
    (hr : r.ready = false) : bus' = bus := by
  have hretire : t.retire? r = none := by simp [Transaction.retire?, hr]
  have hadv : (bus.advance r).1 = bus := by simp [advance, hp, hretire]
  rcases h with h | ⟨hout, -⟩
  · exact h.trans hadv
  · rw [hadv, outstanding?, hp] at hout
    cases hout

/-- Moving on from a cycle without a transaction, or from one that ends a transaction, leaves a
master idle. -/
theorem advance_of_free (hp : bus.phase = .idle ∨ ∃ t, bus.phase = .access t ∧ r.ready = true) :
    (bus.advance r).1 = ⟨.idle, bus.issued⟩ := by
  obtain ⟨phase, issued⟩ := bus
  rcases hp with rfl | ⟨t, rfl, hr⟩
  · rfl
  · obtain ⟨outcome, hretire⟩ : ∃ outcome, t.retire? r = some outcome := by
      rw [Transaction.retire?, hr]
      cases r.error <;> cases t.access <;> exact ⟨_, rfl⟩
    simp [advance, hretire]

/-- After it, the master is idle or has begun one transaction. -/
theorem Follows.of_free (h : bus'.Follows bus r)
    (hp : bus.phase = .idle ∨ ∃ t, bus.phase = .access t ∧ r.ready = true) :
    bus' = ⟨.idle, bus.issued⟩ ∨ ∃ t, bus' = ⟨.setup t, bus.issued + 1⟩ := by
  have hadv := advance_of_free hp
  rcases h with h | ⟨-, t, h⟩
  · exact .inl (h.trans hadv)
  · rw [hadv] at h
    exact .inr ⟨t, h⟩

/-- The wires show the phase. -/
theorem phase_of_isSetup (h : bus.request.isSetup = true) : ∃ t, bus.phase = .setup t := by
  obtain ⟨_ | t | ⟨address, access⟩, issued⟩ := bus
  · cases h
  · exact ⟨t, rfl⟩
  · cases access <;> cases h

theorem phase_of_isAccess (h : bus.request.isAccess = true) : ∃ t, bus.phase = .access t := by
  obtain ⟨_ | ⟨address, access⟩ | t, issued⟩ := bus
  · cases h
  · cases access <;> cases h
  · exact ⟨t, rfl⟩

theorem phase_of_not_select (h : bus.request.select = false) : bus.phase = .idle := by
  obtain ⟨_ | ⟨address, access⟩ | ⟨address, access⟩, issued⟩ := bus
  · rfl
  · cases access <;> cases h
  · cases access <;> cases h

theorem request_setup (hp : bus.phase = .setup t) : bus.request = t.setup := by
  rw [request, hp]

theorem request_access (hp : bus.phase = .access t) : bus.request = t.enabled := by
  rw [request, hp]

theorem request_idle (hp : bus.phase = .idle) : bus.request = .idle := by
  rw [request, hp]

end Master

end Bus

namespace Engine

/-! ### The bus of an engine -/

/-- A retired transaction has its effect on everything but the bus. -/
theorem bus_retire (e : Engine) (t : Bus.Transaction) (outcome : Bus.Outcome) :
    (e.retire t outcome).1.bus = e.bus := by
  unfold retire
  split
  case h_5 =>
    split
    · rfl
    · split <;> rfl
  all_goals rfl

/-- Settling moves the bus on as the answer says. -/
theorem bus_settle (e : Engine) (answer : Bus.Response) :
    (e.settle answer).1.bus = (e.bus.advance answer).1 := by
  rw [settle]
  rcases e.bus.advance answer with ⟨bus, _ | ⟨t, outcome⟩⟩
  · rfl
  · exact bus_retire _ t outcome

/-- No command reaches the bus. -/
theorem bus_accept (e : Engine) (word : Command.Word) : (e.accept word).1.bus = e.bus := by
  rcases e.accept_cases word with ⟨hx, -⟩ | ⟨error, hx⟩ | ⟨clear, -, -, hx⟩ |
    ⟨p, last, -, -, hx⟩
  · rw [hx]
  · rw [hx]
    rfl
  · rw [hx]
  · rw [hx]

/-- Reading a header begins no transaction. -/
theorem bus_readHeader (e : Engine) : e.readHeader.bus = e.bus := by
  rcases e.readHeader_cases with ⟨-, -, hx⟩ | ⟨opcode, operand, rest, -, hx⟩ | ⟨b, -, -, hx⟩ |
    ⟨-, -, hx⟩
  · rw [hx]
  · rcases hx with ⟨error, -, hx⟩ | ⟨target, value, -, hx⟩ | ⟨header, a, -, -, hx⟩
    · rw [hx]
      rfl
    · rw [hx]
    · rw [hx]
  · rw [hx]
    rfl
  · rw [hx]

/-- Moving an operation on leaves the bus as it is, or begins a transaction on an idle bus. -/
theorem bus_execute (e : Engine) (a : Activity) :
    (e.execute a).bus = e.bus ∨
      e.bus.outstanding? = none ∧ ∃ t, (e.execute a).bus = e.bus.start t := by
  rcases e.execute_cases a with ⟨-, -, hx⟩ | ⟨hx, -⟩ | ⟨hout, hx⟩
  · exact .inl (by rw [hx]; rfl)
  · exact .inl (by rw [hx])
  · rcases hx with ⟨t, -, -, hx⟩ | ⟨t, -, -, -, hx⟩ | ⟨p, -, -, hx⟩ | ⟨p, -, -, hx⟩
    · exact .inr ⟨hout, _, by rw [hx]; rfl⟩
    · exact .inr ⟨hout, _, by rw [hx]; rfl⟩
    · exact .inl (by rw [hx])
    · exact .inr ⟨hout, _, by rw [hx]; rfl⟩

/-- So does every decision. -/
theorem bus_act (e : Engine) :
    e.act.bus = e.bus ∨ e.bus.outstanding? = none ∧ ∃ t, e.act.bus = e.bus.start t := by
  rw [act]
  cases e.stage with
  | header => exact .inl e.bus_readHeader
  | executing a => exact e.bus_execute a
  | completing => exact .inl rfl
  | idle | draining verdict | ended verdict => exact .inl rfl

/-- **What a cycle does to the bus**: it moves on as the answer says, and a transaction may begin
when that has left it idle. -/
theorem bus_step (e : Engine) (word : Command.Word) (answer : Bus.Response) :
    (e.step word answer).1.bus.Follows e.bus answer := by
  have hbefore : ((e.rest.settle answer).1.accept word).1.bus = (e.bus.advance answer).1 := by
    rw [bus_accept, bus_settle]
    rfl
  have hact := ((e.rest.settle answer).1.accept word).1.bus_act
  rw [hbefore] at hact
  exact hact

end Engine

namespace Session

variable {τ : Type} [Bus.Target τ]

/-! ### Whole sessions -/

/-- Whether a cycle ends a transaction: an access cycle that the target answers ready. -/
def completes (s : Session τ) (t : Nat) : Bool :=
  (s.request t).isAccess && (s.answer t).ready

/-- The bus from one cycle of a session to the next. -/
theorem bus_follows (s : Session τ) (t : Nat) :
    (s.engineAt (t + 1)).bus.Follows (s.engineAt t).bus (s.answer t) :=
  Engine.bus_step _ _ _

/-- Every session keeps the rules of the bus. -/
theorem compliant (s : Session τ) : Bus.Compliant s.request s.answer where
  select_of_enable t h := by
    cases hselect : (s.request t).select with
    | true => rfl
    | false =>
        have hidle : s.request t = .idle :=
          Bus.Master.request_idle (Bus.Master.phase_of_not_select hselect)
        rw [hidle] at h
        cases h
  eq_idle t h := Bus.Master.request_idle (Bus.Master.phase_of_not_select h)
  enabled_of_setup t h := by
    obtain ⟨x, hp⟩ := Bus.Master.phase_of_isSetup h
    have hnow : s.request t = x.setup := Bus.Master.request_setup hp
    have hnext := (s.bus_follows t).of_setup hp
    rw [hnow, request, Engine.request, hnext]
    rfl
  repeated t h hr := by
    obtain ⟨x, hp⟩ := Bus.Master.phase_of_isAccess h
    have hnext := (s.bus_follows t).of_waiting hp hr
    rw [request, Engine.request, hnext]
    rfl
  idle_or_setup t h := by
    have hfree : (s.engineAt t).bus.phase = .idle ∨
        ∃ x, (s.engineAt t).bus.phase = .access x ∧ (s.answer t).ready = true := by
      rcases h with h | ⟨h, hr⟩
      · refine .inl (Bus.Master.phase_of_not_select ?_)
        exact congrArg Bus.Request.select h
      · obtain ⟨x, hp⟩ := Bus.Master.phase_of_isAccess h
        exact .inr ⟨x, hp, hr⟩
    rcases (s.bus_follows t).of_free hfree with hnext | ⟨x, hnext⟩
    · left
      rw [request, Engine.request, hnext]
      rfl
    · right
      rw [request, Engine.request, hnext]
      obtain ⟨address, access⟩ := x
      cases access <;> rfl

/-- The transactions that were begun have ended, but for the outstanding one: induction on the
cycles, by the phase that the bus is in. -/
theorem issued_eq (options : Options) (target : τ) (words : Nat → Command.Word) (t : Nat) :
    ((new options target words).engineAt t).bus.issued =
      (List.range t).countP (new options target words).completes +
        if ((new options target words).engineAt t).bus.isIdle then 0 else 1 := by
  generalize hs : new options target words = s
  induction t with
  | zero =>
      rw [← hs]
      rfl
  | succ t ih =>
      have hfollows := s.bus_follows t
      rw [List.range_succ, List.countP_append, List.countP_singleton]
      cases hp : (s.engineAt t).bus.phase with
      | idle =>
          have hopen : s.completes t = false := by
            rw [completes, request, Engine.request, Bus.Master.request_idle hp]
            rfl
          rw [Bus.Master.isIdle, hp] at ih
          rw [hopen]
          rcases hfollows.of_free (.inl hp) with hnext | ⟨x, hnext⟩
          · simpa [hnext, Bus.Master.isIdle] using ih
          · simpa [hnext, Bus.Master.isIdle] using ih
      | setup x =>
          have hopen : s.completes t = false := by
            rw [completes, request, Engine.request, Bus.Master.request_setup hp,
              Bus.Transaction.isAccess_setup]
            rfl
          rw [Bus.Master.isIdle, hp] at ih
          have hnext := hfollows.of_setup hp
          simpa [hopen, hnext, Bus.Master.isIdle] using ih
      | access x =>
          have hready : s.completes t = (s.answer t).ready := by
            rw [completes, request, Engine.request, Bus.Master.request_access hp,
              Bus.Transaction.isAccess_enabled]
            rfl
          rw [Bus.Master.isIdle, hp] at ih
          cases hr : (s.answer t).ready with
          | false =>
              have hnext := hfollows.of_waiting hp hr
              simpa [hready, hr, hnext, Bus.Master.isIdle, hp] using ih
          | true =>
              rcases hfollows.of_free (.inr ⟨x, hp, hr⟩) with hnext | ⟨y, hnext⟩
              · simpa [hready, hr, hnext, Bus.Master.isIdle] using ih
              · simpa [hready, hr, hnext, Bus.Master.isIdle] using ih

/-- **Every session keeps the rules of the bus**, whatever words are presented and however the
target answers: the wires of each cycle follow from those before as the rules say, every
transaction that was begun has been answered or is outstanding, and none is withdrawn or altered
before it is answered. -/
theorem wires_compliant (options : Options) (target : τ) (words : Nat → Command.Word) :
    Bus.Compliant (new options target words).request (new options target words).answer ∧
    (∀ t, ((new options target words).engineAt t).bus.issued =
      (List.range t).countP (new options target words).completes +
        if ((new options target words).engineAt t).bus.isIdle then 0 else 1) ∧
    (∀ t n, ((new options target words).request t).isSetup = true →
      (∀ k < n, ((new options target words).answer (t + 1 + k)).ready = false) →
      (new options target words).request (t + 1 + n) =
        { (new options target words).request t with enable := true }) := by
  refine ⟨compliant _, issued_eq options target words, ?_⟩
  intro t n hsetup hwait
  exact (compliant _).enabled_of_waiting hsetup n hwait

end Session

end BusScript
