import BusScript.Proofs.Engine.Compliance
import BusScript.Proofs.Engine.Isolation
import BusScript.Proofs.Engine.RegisterFile

/-!
# The History of the Registers

The registers of an engine outlive its runs. Two things change them: a start that clears, accepted
while no script is running, and a header that sets a byte, in the cycle in which it is read. Nothing
else that happens to a run reaches them, so what a run finds in the registers is what all the runs
since the last clearing start have set, whether these completed or failed.

## Main results

* `Engine.registers_act`, `Engine.Sound.registers_clear` — what a cycle does to the registers.
* `Session.registers_of_not_clears` — the registers after any number of cycles.
* `Session.registers_history` — the history of the registers in every session of a new engine, and
  what it means for the operations that use them.
-/

namespace BusScript

/-- The operation that a header stands for if it sets a byte of a register. -/
def Header.set? : Header → Option Op
  | .set target value => some (.set target value)
  | _ => none

/-- The low byte that an operation on the bus supplies to its address. -/
def Header.low? : Header → Option Byte
  | .set _ _ => none
  | .poll address _ _ | .read address _ _ _ | .write address _ _ _ => some address

/-- The address of the next transaction of an operation. -/
def Activity.address : Activity → Address
  | .read t | .write t => t.address
  | .poll p => p.address

/-- A header that can be read names a byte that a register has. -/
theorem Header.index_lt_of_decode {opcode operand value : Byte} {target : RegisterByte}
    (h : decode opcode operand = .ok (.set target value)) : target.index < 4 := by
  obtain ⟨register, index⟩ := target
  have hvalid := Op.valid_ofHeader h []
  cases register with
  | address =>
      have hindex : 1 ≤ index ∧ index < 4 := by
        simpa [Op.ofHeader, Op.Valid, Op.flaw?] using hvalid
      exact hindex.2
  | pollDelay | pollCount => simpa [Op.ofHeader, Op.Valid, Op.flaw?] using hvalid

/-- An operation on the bus begins at the address that its low byte and the page form. -/
theorem Activity.ofHeader?_of_low? {header : Header} {low : Byte} (h : header.low? = some low)
    (registers : Registers) :
    ∃ a, ofHeader? registers header = some a ∧ a.address = registers.address low := by
  cases header with
  | set target value => cases h
  | poll address bit untilSet | read address width count increment
  | write address width count increment =>
      cases h
      exact ⟨_, rfl, rfl⟩

namespace Engine

variable {e : Engine} {word : Command.Word} {answer : Bus.Response}

/-! ### Headers that are read -/

/-- The header that the decision of a cycle reads: one is awaited, its two bytes are there, and they
can be read. -/
def nextHeader? (e : Engine) : Option Header :=
  match e.stage, e.intake.queue with
  | .header, opcode :: operand :: _ => (Header.decode opcode operand).toOption
  | _, _ => none

/-- The header that is read in a cycle. -/
def header? (e : Engine) (word : Command.Word) (answer : Bus.Response) : Option Header :=
  (e.deciding word answer).nextHeader?

/-- What a header that is read consists of. -/
theorem nextHeader?_eq_some_iff {header : Header} :
    e.nextHeader? = some header ↔
      e.stage = .header ∧ ∃ opcode operand rest, e.intake.queue = opcode :: operand :: rest ∧
        Header.decode opcode operand = .ok header := by
  rw [nextHeader?]
  constructor
  · intro h
    split at h
    · next opcode operand rest hs hq =>
      refine ⟨hs, opcode, operand, rest, hq, ?_⟩
      cases hd : Header.decode opcode operand with
      | error error =>
          rw [hd] at h
          cases h
      | ok header' =>
          rw [hd] at h
          cases h
          rfl
    · cases h
  · rintro ⟨hs, opcode, operand, rest, hq, hd⟩
    simp only [hs, hq, hd]
    rfl

/-- Without two bytes no header is read. -/
theorem nextHeader?_of_short (h : e.intake.queue.length ≤ 1) : e.nextHeader? = none := by
  rw [Option.eq_none_iff_forall_ne_some]
  intro header hheader
  obtain ⟨-, opcode, operand, rest, hq, -⟩ := nextHeader?_eq_some_iff.mp hheader
  rw [hq, List.length_cons, List.length_cons] at h
  omega

/-- The operation of a header that is read is in progress after the decision. -/
theorem stage_act_of_nextHeader? {header : Header} (h : e.nextHeader? = some header) {a : Activity}
    (ha : Activity.ofHeader? e.registers header = some a) : e.act.stage = .executing a := by
  obtain ⟨hs, opcode, operand, rest, hq, hd⟩ := nextHeader?_eq_some_iff.mp h
  have hact : e.act = e.readHeader := by rw [act, hs]
  rw [hact]
  rcases e.readHeader_cases with ⟨-, hnil, -⟩ | ⟨opcode', operand', rest', hq', hx⟩ | ⟨b, hone, -⟩ |
    ⟨-, hshort, -⟩
  · rw [hq] at hnil
    cases hnil
  · rw [hq] at hq'
    cases hq'
    rw [hd] at hx
    rcases hx with ⟨error, herror, -⟩ | ⟨target, value, hset, -⟩ | ⟨header', a', hd', ha', hx⟩
    · cases herror
    · cases hset
      cases ha
    · cases hd'
      rw [ha] at ha'
      cases ha'
      rw [hx]
  · rw [hq] at hone
    cases hone
  · rw [hq, List.length_cons, List.length_cons] at hshort
    omega

/-! ### The registers in one cycle -/

/-- No retired transaction reaches the registers. -/
theorem registers_retire (e : Engine) (t : Bus.Transaction) (outcome : Bus.Outcome) :
    (e.retire t outcome).1.registers = e.registers := by
  unfold retire
  split
  case h_5 =>
    split
    · rfl
    · split <;> rfl
  all_goals rfl

theorem registers_settle (e : Engine) (answer : Bus.Response) :
    (e.settle answer).1.registers = e.registers := by
  rcases e.settle_cases answer with ⟨bus, hx, -⟩ | ⟨t, outcome, -, -, hx⟩
  · rw [hx]
  · rw [hx]
    exact registers_retire e.released t outcome

/-- Of all words only a clearing start does, and only while no script is running. -/
theorem registers_accept (h : e.stage = .idle → word.decode ≠ .ok (.start true)) :
    (e.accept word).1.registers = e.registers := by
  rcases e.accept_cases word with ⟨hx, -⟩ | ⟨error, hx⟩ | ⟨clear, hs, hw, hx⟩ |
    ⟨p, last, -, -, hx⟩
  · rw [hx]
  · rw [hx]
    rfl
  · cases clear with
    | false => rw [hx]; rfl
    | true => exact absurd hw (h hs)
  · rw [hx]

/-- Moving an operation on does not. -/
theorem registers_execute (e : Engine) (a : Activity) : (e.execute a).registers = e.registers := by
  rcases e.execute_cases a with ⟨-, -, hx⟩ | ⟨hx, -⟩ | ⟨-, hx⟩
  · rw [hx]
    rfl
  · rw [hx]
  · rcases hx with ⟨t, -, -, hx⟩ | ⟨t, -, -, -, hx⟩ | ⟨p, -, -, hx⟩ | ⟨p, -, -, hx⟩ <;>
      rw [hx] <;> rfl

/-- Reading a header does if it sets a byte. -/
theorem registers_readHeader (hs : e.stage = .header) :
    e.readHeader.registers = e.registers.after (e.nextHeader?.bind Header.set?).toList := by
  rcases e.readHeader_cases with ⟨-, hq, hx⟩ | ⟨opcode, operand, rest, hq, hx⟩ | ⟨b, hq, -, hx⟩ |
    ⟨-, hshort, hx⟩
  · rw [hx, nextHeader?_of_short (by simp [hq])]
    rfl
  · rcases hx with ⟨error, hd, hx⟩ | ⟨target, value, hd, hx⟩ | ⟨header, a, hd, ha, hx⟩
    · have hnone : e.nextHeader? = none := by
        simp only [nextHeader?, hs, hq, hd]
        rfl
      rw [hx, hnone]
      rfl
    · have hread : e.nextHeader? = some (.set target value) :=
        nextHeader?_eq_some_iff.mpr ⟨hs, opcode, operand, rest, hq, hd⟩
      rw [hx, hread]
      rfl
    · have hread : e.nextHeader? = some header :=
        nextHeader?_eq_some_iff.mpr ⟨hs, opcode, operand, rest, hq, hd⟩
      have hother : header.set? = none := by
        cases header with
        | set target value => cases ha
        | poll address bit untilSet | read address width count increment
        | write address width count increment => rfl
      rw [hx, hread, Option.bind_some, hother]
      rfl
  · rw [hx, nextHeader?_of_short (by simp [hq])]
    rfl
  · rw [hx, nextHeader?_of_short hshort]
    rfl

/-- So the decision of a cycle does what the header that it reads says. -/
theorem registers_act (e : Engine) :
    e.act.registers = e.registers.after (e.nextHeader?.bind Header.set?).toList := by
  cases hs : e.stage with
  | header =>
      have hact : e.act = e.readHeader := by rw [act, hs]
      rw [hact, registers_readHeader hs]
  | executing a =>
      have hact : e.act = e.execute a := by rw [act, hs]
      have hnone : e.nextHeader? = none := by rw [nextHeader?, hs]
      rw [hact, hnone, registers_execute]
      rfl
  | idle | completing | draining verdict | ended verdict =>
      have hnone : e.nextHeader? = none := by rw [nextHeader?, hs]
      rw [act, hs, hnone]
      rfl

/-- Unless a clearing start is accepted, the decision of a cycle finds the registers as they
were. -/
theorem registers_deciding (h : e.status ≠ .running → word.decode ≠ .ok (.start true))
    (answer : Bus.Response) : (e.deciding word answer).registers = e.registers := by
  have hword : (e.settled answer).stage = .idle → word.decode ≠ .ok (.start true) := by
    intro hidle
    refine h fun hrun => ?_
    have hrest : e.rest.stage ≠ .idle := by
      rw [rest]
      rw [status] at hrun
      cases hs : e.stage <;> simp [hs, Stage.status] at hrun ⊢
    exact stage_settle_ne_idle hrest answer hidle
  rw [deciding, registers_accept hword, settled, registers_settle]
  rfl

/-- A clearing start that is accepted sets the registers to their defaults, and reads no header. -/
theorem Sound.registers_clear (h : e.Sound) (hrest : e.status ≠ .running)
    (hw : word.decode = .ok (.start true)) (answer : Bus.Response) :
    (e.step word answer).1.registers = .initial e.options ∧ e.header? word answer = none := by
  have hstart := h.deciding_start hrest hw answer
  have hnone : e.header? word answer = none := by
    rw [header?, hstart]
    exact nextHeader?_of_short (Nat.zero_le _)
  have hstep : (e.step word answer).1.registers = (e.deciding word answer).act.registers := rfl
  refine ⟨?_, hnone⟩
  rw [hstep, registers_act, ← header?, hnone, hstart]
  rfl

end Engine

namespace Session

variable {τ : Type} [Bus.Target τ]

/-! ### Whole sessions -/

/-- The header that is read in a cycle. -/
def header? (s : Session τ) (t : Nat) : Option Header :=
  (s.engineAt t).header? (s.words t) (s.answer t)

/-- A clearing start is accepted in a cycle. -/
def Clears (s : Session τ) (t : Nat) : Prop :=
  s.status t ≠ .running ∧ (s.words t).decode = .ok (.start true)

/-- The bytes of registers that are set from one cycle up to another, oldest first. -/
def sets (s : Session τ) (t₁ t₂ : Nat) : List Op :=
  (List.range' t₁ (t₂ - t₁)).filterMap fun t => (s.header? t).bind Header.set?

/-- What the operations of a cycle take from a register. An operation on the bus that begins forms
its address from the page; a poll that begins has as many attempts as the poll count says, and one
at least; and a poll whose attempt has failed, and that has more, pauses for the poll delay. -/
def Applies (s : Session τ) (t : Nat) : Register → Value → Prop
  | .address, value => ∀ header low, s.header? t = some header → header.low? = some low →
    ∃ a, (s.engineAt (t + 1)).stage = .executing a ∧ a.address = value.extractLsb' 8 24 ++ low
  | .pollCount, value => ∀ low bit untilSet, s.header? t = some (.poll low bit untilSet) →
    ∃ p, (s.engineAt (t + 1)).stage = .executing (.poll p) ∧ p.budget = max value.toNat 1
  | .pollDelay, value => ∀ p, (s.engineAt t).stage = .executing (.poll p) →
    s.completes t = true → (s.answer t).error = false → p.isSatisfied (s.answer t).data = false →
    p.attempts < p.budget →
    ((s.engineAt t).settled (s.answer t)).stage =
      .executing (.poll { p with delay := value.toNat })

/-- The history of the registers. -/
structure RegisterHistory (s : Session τ) (options : Options) : Prop where
  /-- A clearing start that is accepted sets all registers to their defaults. -/
  cleared : ∀ t, s.Clears t →
    (s.engineAt (t + 1)).registers = ⟨0, options.pollDelay, options.pollCount⟩
  /-- A header that sets a byte of a register replaces that byte and no other. -/
  replaced : ∀ t target value, s.header? t = some (.set target value) →
    target.index < 4 ∧ ∀ b : RegisterByte, b.index < 4 →
      (s.engineAt (t + 1)).registers.byte b =
        if b = target then value else (s.engineAt t).registers.byte b
  /-- Nothing else changes the registers. -/
  kept : ∀ t, ¬ s.Clears t → (∀ target value, s.header? t ≠ some (.set target value)) →
    (s.engineAt (t + 1)).registers = (s.engineAt t).registers
  /-- The registers are what has been set since the last clearing start. -/
  since_clear : ∀ t₀ t, t₀ < t → s.Clears t₀ → (∀ k, t₀ < k → k < t → ¬ s.Clears k) →
    (s.engineAt t).registers = (Registers.initial options).after (s.sets (t₀ + 1) t)
  /-- Before the first clearing start, they are what has been set since the beginning. -/
  since_new : ∀ t, (∀ k < t, ¬ s.Clears k) →
    (s.engineAt t).registers = (Registers.initial options).after (s.sets 0 t)
  /-- What has been loaded into a register is what operations take from it, until it is set again
  or cleared. -/
  loaded : ∀ register value t₁ t₂ t, t₁ ≤ t₂ → t₂ ≤ t →
    s.sets t₁ t₂ = (register.load value).ops →
    (∀ k, t₁ ≤ k → k < t → ¬ s.Clears k) →
    (∀ target b, .set target b ∈ s.sets t₂ t → target.register ≠ register) →
    s.Applies t register value

variable {s : Session τ}

/-- One more cycle adds what is set in it. -/
theorem sets_succ (s : Session τ) {t₁ t₂ : Nat} (h : t₁ ≤ t₂) :
    s.sets t₁ (t₂ + 1) = s.sets t₁ t₂ ++ ((s.header? t₂).bind Header.set?).toList := by
  have hlength : t₂ + 1 - t₁ = t₂ - t₁ + 1 := by omega
  have hlast : t₁ + (t₂ - t₁) = t₂ := by omega
  rw [sets, sets, hlength, List.range'_1_concat, hlast, List.filterMap_append]
  cases h : (s.header? t₂).bind Header.set? <;> simp [h]

/-- One cycle without a clearing start. -/
theorem registers_succ {t : Nat} (h : ¬ s.Clears t) :
    (s.engineAt (t + 1)).registers =
      (s.engineAt t).registers.after ((s.header? t).bind Header.set?).toList := by
  have hword : (s.engineAt t).status ≠ .running → (s.words t).decode ≠ .ok (.start true) := by
    rw [← status_eq]
    exact fun hrest hw => h ⟨hrest, hw⟩
  have hstep : (s.engineAt (t + 1)).registers =
      ((s.engineAt t).deciding (s.words t) (s.answer t)).act.registers := rfl
  rw [hstep, Engine.registers_act, Engine.registers_deciding hword]
  rfl

/-- **The registers after any number of cycles without a clearing start** are what is set in these:
induction on the cycles. -/
theorem registers_of_not_clears {t₁ t₂ : Nat} (hle : t₁ ≤ t₂)
    (h : ∀ k, t₁ ≤ k → k < t₂ → ¬ s.Clears k) :
    (s.engineAt t₂).registers = (s.engineAt t₁).registers.after (s.sets t₁ t₂) := by
  induction t₂ with
  | zero =>
      obtain rfl : t₁ = 0 := by omega
      rfl
  | succ t ih =>
      by_cases hlast : t₁ = t + 1
      · subst hlast
        rw [sets, Nat.sub_self]
        rfl
      · have hbefore : t₁ ≤ t := by omega
        have hnow := ih hbefore fun k hk hlt => h k hk (Nat.lt_succ_of_lt hlt)
        rw [registers_succ (h t hbefore (Nat.lt_succ_self t)), hnow, sets_succ s hbefore,
          Registers.after_append]

/-- A cycle that reads a header accepts no clearing start. -/
theorem not_clears_of_header? {t : Nat} {header : Header} (hsound : (s.engineAt t).Sound)
    (h : s.header? t = some header) : ¬ s.Clears t := by
  rintro ⟨hrest, hw⟩
  rw [status_eq] at hrest
  rw [header?, (hsound.registers_clear hrest hw _).2] at h
  cases h

/-- A header that sets a byte of a register does that and nothing else. -/
theorem registers_of_set {t : Nat} {target : RegisterByte} {value : Byte}
    (hsound : (s.engineAt t).Sound) (h : s.header? t = some (.set target value)) :
    (s.engineAt (t + 1)).registers = (s.engineAt t).registers.set target value := by
  rw [registers_succ (not_clears_of_header? hsound h), h]
  rfl

/-- Without one, and without a clearing start, the registers are kept. -/
theorem registers_of_not_set {t : Nat} (h : ¬ s.Clears t)
    (hnone : ∀ target value, s.header? t ≠ some (.set target value)) :
    (s.engineAt (t + 1)).registers = (s.engineAt t).registers := by
  have hset : (s.header? t).bind Header.set? = none := by
    cases hheader : s.header? t with
    | none => rfl
    | some header =>
        cases header with
        | set target value => exact absurd hheader (hnone target value)
        | poll address bit untilSet | read address width count increment
        | write address width count increment => rfl
  rw [registers_succ h, hset]
  rfl

/-- A header that is read finds the registers as they were before the cycle. -/
theorem registers_of_header? {t : Nat} {header : Header} (hsound : (s.engineAt t).Sound)
    (h : s.header? t = some header) :
    ((s.engineAt t).deciding (s.words t) (s.answer t)).registers = (s.engineAt t).registers := by
  refine Engine.registers_deciding (fun hrest hw => ?_) _
  rw [← status_eq] at hrest
  exact not_clears_of_header? hsound h ⟨hrest, hw⟩

/-- The operation of a header that is read is in progress in the next cycle. -/
theorem stage_of_header? {t : Nat} {header : Header} (hsound : (s.engineAt t).Sound)
    (h : s.header? t = some header) {a : Activity}
    (ha : Activity.ofHeader? (s.engineAt t).registers header = some a) :
    (s.engineAt (t + 1)).stage = .executing a := by
  rw [← registers_of_header? hsound h] at ha
  exact Engine.stage_act_of_nextHeader? h ha

/-- Operations take from a register what it holds. -/
theorem applies_of_holds {t : Nat} (hsound : (s.engineAt t).Sound) {register : Register}
    {value : Value} (h : (s.engineAt t).registers.Holds register value) :
    s.Applies t register value := by
  cases register with
  | address =>
      intro header low hheader hlow
      obtain ⟨a, ha, haddress⟩ := Activity.ofHeader?_of_low? hlow (s.engineAt t).registers
      have hpage : (s.engineAt t).registers.page.extractLsb' 8 24 = value.extractLsb' 8 24 := h
      rw [Registers.address, hpage] at haddress
      exact ⟨a, stage_of_header? hsound hheader ha, haddress⟩
  | pollCount =>
      intro low bit untilSet hheader
      have hcount : (s.engineAt t).registers.pollCount = value := h
      refine ⟨_, stage_of_header? hsound hheader rfl, ?_⟩
      rw [Registers.pollBudget, hcount]
  | pollDelay =>
      intro p hs hcompletes herror hmissed hmore
      have hdelay : (s.engineAt t).registers.pollDelay = value := h
      obtain ⟨haccess, hready⟩ := Bool.and_eq_true_iff.mp hcompletes
      obtain ⟨x, hp⟩ := Bus.Master.phase_of_isAccess haccess
      have hrest : (s.engineAt t).rest.stage = .executing (.poll p) := by
        rw [Engine.rest, hs]
      have hbudget : ¬ p.budget ≤ p.attempts := Nat.not_le_of_lt hmore
      rw [Engine.settled, hsound.rest.settle_poll hrest hp hready, herror, hmissed,
        if_neg Bool.false_ne_true, if_neg Bool.false_ne_true, if_neg hbudget]
      dsimp only
      rw [← hdelay]
      rfl

/-- **The history of the registers**, over any number of runs of a new engine, whatever words are
presented and however the target answers. -/
theorem registers_history (options : Options) (target : τ) (words : Nat → Command.Word) :
    (new options target words).RegisterHistory options := by
  generalize hs : new options target words = s
  have hreachable : ∀ t, (s.engineAt t).Reachable options := by
    subst hs
    exact reachable _ .new
  have hclear : ∀ t, s.Clears t → (s.engineAt (t + 1)).registers = .initial options := by
    rintro t ⟨hrest, hw⟩
    rw [status_eq] at hrest
    have hdone := ((hreachable t).sound.registers_clear hrest hw (s.answer t)).1
    rwa [(hreachable t).options_eq] at hdone
  refine ⟨hclear, ?_, fun t => registers_of_not_set, ?_, ?_, ?_⟩
  · intro t target' value hset
    obtain ⟨-, opcode, operand, rest, -, hd⟩ := Engine.nextHeader?_eq_some_iff.mp hset
    have hindex := Header.index_lt_of_decode hd
    refine ⟨hindex, fun b hb => ?_⟩
    rw [registers_of_set (hreachable t).sound hset]
    exact Registers.byte_set _ hindex hb value
  · intro t₀ t hlt hcleared hopen
    rw [registers_of_not_clears hlt fun k hk hkt => hopen k hk hkt, hclear t₀ hcleared]
  · intro t hopen
    rw [registers_of_not_clears (Nat.zero_le t) fun k _ hk => hopen k hk]
    subst hs
    rfl
  · intro register value t₁ t₂ t h₁₂ h₂ hload hopen hother
    apply applies_of_holds (hreachable t).sound
    rw [registers_of_not_clears h₂ fun k hk hkt => hopen k (Nat.le_trans h₁₂ hk) hkt,
      registers_of_not_clears h₁₂ fun k hk hkt => hopen k hk (Nat.lt_of_lt_of_le hkt h₂), hload]
    exact (Registers.holds_after_load _ register value).after hother

end Session

end BusScript
