import BusScript.Bus.Memory
import BusScript.Json.Tree
import BusScript.Script.Basic

/-!
# Script Files

A script file is a JSON document that holds a script and the memory to run it against: stored
words, faulty addresses, values that reads will find, and the instructions of the script. A
record is written as an object or, with its fields in a fixed order, as an array; an
instruction names its kind in the field `op`, or as the first item of the array.
-/

namespace BusScript

/-- An instruction as it stands in a script file. -/
inductive Instruction where
  | select (address : Address)
  | pollDelay (cycles : Value)
  | pollCount (attempts : Value)
  | poll (address : Byte) (bit : Nat) (untilSet : Bool)
  | read (address : Byte) (width : Nat) (count : Nat) (increment : Bool)
  | write (address : Byte) (width : Nat) (data : List Value) (increment : Bool)
  deriving DecidableEq, Repr

/-- The contents of a script file. -/
structure ScriptFile where
  memory : List (Address × Value)
  faults : List Address
  reads : List (Address × List Value)
  instructions : List Instruction
  deriving DecidableEq, Repr

open Json (Tree)

namespace Instruction

/-- The field names of an instruction, in the order in which an array gives them. -/
def fieldNames : String → Option (List String)
  | "select" => some ["address"]
  | "poll_delay" => some ["cycles"]
  | "poll_count" => some ["attempts"]
  | "poll" => some ["address", "bit", "until_set"]
  | "read" => some ["address", "width", "count", "increment"]
  | "write" => some ["address", "width", "data", "increment"]
  | _ => none

/-- A field that may be absent. -/
def orDefault {α : Type} (default : α) (read? : Tree → Option α) : Option Tree → Option α
  | none => some default
  | some t => read? t

/-- An instruction of a given kind with given fields. -/
def ofFields? (kind : String) (fields : List (Option Tree)) : Option Instruction :=
  match kind, fields with
  | "select", [address] => do return select (← (← address).bits? 32)
  | "poll_delay", [cycles] => do return pollDelay (← (← cycles).bits? 32)
  | "poll_count", [attempts] => do return pollCount (← (← attempts).bits? 32)
  | "poll", [address, bit, untilSet] => do
    return poll (← (← address).bits? 8) (← (← bit).bits? 8).toNat
      (← orDefault true Tree.bool? untilSet)
  | "read", [address, width, count, increment] => do
    return read (← (← address).bits? 8) (← (← width).bits? 32).toNat
      (← orDefault 1 (fun t => (t.bits? 64).map BitVec.toNat) count)
      (← orDefault false Tree.bool? increment)
  | "write", [address, width, data, increment] => do
    return write (← (← address).bits? 8) (← (← width).bits? 32).toNat
      (← (← data).list? (Tree.bits? 32)) (← orDefault false Tree.bool? increment)
  | _, _ => none

/-- Reads an instruction. Members of an object that its kind does not have are passed over. -/
def read? : Tree → Option Instruction
  | .object members => do
    let kind ← (← (← Tree.member? members "op")).string?
    ofFields? kind (← Tree.named? (← fieldNames kind) members)
  | .array (kind :: items) => do
    let kind ← kind.string?
    ofFields? kind (← Tree.positional? (← fieldNames kind) items)
  | _ => none

/-- The builder call that an instruction stands for, unless its width is none. -/
def call : Instruction → Except Nat Script.Call
  | select address => .ok (.select address)
  | pollDelay cycles => .ok (.setPollDelay cycles)
  | pollCount attempts => .ok (.setPollCount attempts)
  | poll address bit untilSet => .ok (.push (.poll address bit untilSet))
  | read address width count increment =>
    match Width.ofBits? width with
    | none => .error width
    | some w => .ok (.push (.read address w count increment))
  | write address width data increment =>
    match Width.ofBits? width with
    | none => .error width
    | some w => .ok (.push (.write address w data increment))

end Instruction

namespace ScriptFile

/-- An address with a value. -/
def pair? : Tree → Option (Address × Value)
  | .array [address, value] => do return (← address.bits? 32, ← value.bits? 32)
  | _ => none

/-- An address with the values that reads will find there. -/
def reads? (t : Tree) : Option (Address × List Value) := do
  match ← t.fields? ["address", "values"] with
  | [some address, some values] => return (← address.bits? 32, ← values.list? (Tree.bits? 32))
  | _ => none

/-- A list that may be absent. -/
def listOrEmpty {α : Type} (item? : Tree → Option α) : Option Tree → Option (List α) :=
  Instruction.orDefault [] (Tree.list? item?)

/-- The contents of a document. -/
def ofTree? (t : Tree) : Option ScriptFile := do
  match ← t.fields? ["memory", "faults", "reads", "ops"] with
  | [memory, faults, reads, some instructions] =>
    return ⟨← listOrEmpty pair? memory, ← listOrEmpty (Tree.bits? 32) faults,
      ← listOrEmpty reads? reads, ← instructions.list? Instruction.read?⟩
  | _ => none

/-- Reads a script file. -/
def read? (text : String) : Option ScriptFile := do
  ofTree? (← Tree.read? text.toList)

/-- The memory that a script file describes. -/
def target (f : ScriptFile) (waitStates : Nat) : Bus.Memory :=
  let m : Bus.Memory := { waitStates }
  let m := f.memory.foldl (fun m (address, value) => m.store address value) m
  let m := f.faults.foldl Bus.Memory.addFault m
  f.reads.foldl (fun m (address, values) => m.addReads address values) m

/-- Why an instruction cannot be part of a script. -/
inductive Flaw where
  | width (bits : Nat)
  | refused (error : BuildError)
  deriving DecidableEq, Repr

/-- Appends instructions to a script; the number counts those before them. -/
def extend (s : Script) (index : Nat) : List Instruction → Except (Nat × Flaw) Script
  | [] => .ok s
  | i :: rest =>
    match i.call with
    | .error bits => .error (index, .width bits)
    | .ok call =>
      match s.extend [call] with
      | (s, none) => extend s (index + 1) rest
      | (_, some e) => .error (index, .refused e)

/-- The script of a script file, or its first instruction that cannot be part of one. -/
def script (f : ScriptFile) : Except (Nat × Flaw) Script :=
  extend .empty 0 f.instructions

end ScriptFile

end BusScript
