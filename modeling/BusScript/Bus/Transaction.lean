import BusScript.Bytes
import BusScript.Text.Hex

/-!
# Bus Transactions

The peripheral bus moves one word at a time. A `Transaction` says what is moved; a `Request`
is the set of wires that a master drives in one cycle and a `Response` the set that the
addressed target drives back in the same cycle. A transaction takes a **setup** cycle
(`Transaction.setup`), in which the target is only selected, and then one or more **access**
cycles (`Transaction.enabled`), which go on until the target answers ready. `Transaction.retire?`
reads the target's answer: `none` while it is not ready, and otherwise the `Outcome`.
-/

namespace BusScript.Bus

/-- The wires that a master drives in one cycle. -/
structure Request where
  /-- The address of the transaction. -/
  address : Address
  /-- High in the access cycles of a transaction. -/
  enable : Bool
  /-- High throughout a transaction: a target is addressed. -/
  select : Bool
  /-- The direction: high for a write. -/
  write : Bool
  /-- The value to write. -/
  data : Value
  deriving DecidableEq, Repr

/-- The wires that a target drives in one cycle. -/
structure Response where
  /-- The value read. -/
  data : Value
  /-- High in the cycle that ends a transaction. -/
  ready : Bool
  /-- High, together with `ready`, when the transaction failed. -/
  error : Bool
  deriving DecidableEq, Repr

/-- What a transaction does at its address. -/
inductive Access where
  | read
  | write (value : Value)
  deriving DecidableEq, Repr

/-- One word moved over the bus. -/
structure Transaction where
  address : Address
  access : Access
  deriving DecidableEq, Repr

/-- How a transaction ended. -/
inductive Outcome where
  | read (value : Value)
  | written
  | fault
  deriving DecidableEq, Repr

/-! ### Transactions on the wires -/

/-- The wires of a cycle without a transaction. -/
def Request.idle : Request := ⟨0, false, false, false, 0⟩

/-- A target that is not ready yet. -/
def Response.wait : Response := ⟨0, false, false⟩

/-- Whether a request is an access cycle, the only kind whose answer counts. -/
def Request.isAccess (r : Request) : Bool := r.select && r.enable

/-- The transaction that a request belongs to, if it selects a target at all. -/
def Request.transaction? (r : Request) : Option Transaction :=
  if r.select then some ⟨r.address, if r.write then .write r.data else .read⟩ else none

namespace Transaction

/-- Whether a transaction writes. -/
def isWrite (t : Transaction) : Bool :=
  match t.access with
  | .read => false
  | .write _ => true

/-- The setup cycle: the target is selected and not yet enabled. A read drives zero data. -/
def setup (t : Transaction) : Request :=
  match t.access with
  | .read => ⟨t.address, false, true, false, 0⟩
  | .write value => ⟨t.address, false, true, true, value⟩

/-- An access cycle: the wires of the setup cycle with enable raised. -/
def enabled (t : Transaction) : Request :=
  { t.setup with enable := true }

/-- What a target's answer in an access cycle says of the transaction: nothing while the
target is not ready, a fault if it also raises its error wire, and success otherwise. -/
def retire? (t : Transaction) (r : Response) : Option Outcome :=
  if !r.ready then none
  else if r.error then some .fault
  else match t.access with
    | .read => some (.read r.data)
    | .write _ => some .written

/-- The text of a transaction, as logs and reports show it. -/
def text (t : Transaction) : String :=
  match t.access with
  | .read => "read 0x" ++ Hex.text 8 t.address.toNat
  | .write value =>
    "write 0x" ++ Hex.text 8 t.address.toNat ++ " <- 0x" ++ Hex.text 8 value.toNat

/-- Both kinds of cycle name the transaction they belong to. -/
@[simp] theorem transaction?_setup (t : Transaction) : t.setup.transaction? = some t := by
  obtain ⟨address, access⟩ := t
  cases access <;> rfl

@[simp] theorem transaction?_enabled (t : Transaction) : t.enabled.transaction? = some t := by
  obtain ⟨address, access⟩ := t
  cases access <;> rfl

@[simp] theorem isAccess_setup (t : Transaction) : t.setup.isAccess = false := by
  obtain ⟨address, access⟩ := t
  cases access <;> rfl

@[simp] theorem isAccess_enabled (t : Transaction) : t.enabled.isAccess = true := by
  obtain ⟨address, access⟩ := t
  cases access <;> rfl

end Transaction

/-- The wires on which a target reports an outcome. -/
def Outcome.response : Outcome → Response
  | .read value => ⟨value, true, false⟩
  | .written => ⟨0, true, false⟩
  | .fault => ⟨0, true, true⟩

end BusScript.Bus
