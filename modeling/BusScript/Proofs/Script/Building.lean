import BusScript.Proofs.Script.Codec
import Mathlib.Data.List.Induction
import Mathlib.Data.Set.Function

/-!
# Building Scripts

A script is built by calls, some of which may be refused (`Script.build`). Whatever the calls, the
bytes of the script can be read back, and as scripts hold no operation without a written form, the
byte strings that can be read at all are exactly those that scripts are written as.

## Main results

* `Script.exists_build` — every script can be built.
* `Script.build_of_readAll?` — bytes that are complete operations are those of the script of these
  operations.
* `Script.written_one_to_one` — **scripts and complete byte strings are one to one**, as long as
  written values fit their width.
-/

namespace BusScript

namespace Script

/-! ### Calls -/

@[ext] theorem ext {s t : Script} (h : s.ops.toList = t.ops.toList) : s = t := by
  obtain ⟨ops, valid⟩ := s
  obtain ⟨ops', valid'⟩ := t
  obtain rfl : ops = ops' := Array.toList_inj.mp h
  rfl

/-- A call that is refused leaves the script as it was. -/
theorem extend_of_flaw {c : Call} {error : BuildError} (h : c.flaw? = some error) (s : Script) :
    s.extend [c] = (s, some error) := by
  rw [extend]
  split
  · next hflaw =>
    rw [h] at hflaw
    rw [hflaw]
  · next hflaw =>
    rw [h] at hflaw
    cases hflaw

/-- A call that is not refused appends the operations that it stands for. -/
theorem extend_of_flaw_eq_none {c : Call} (h : c.flaw? = none) (s : Script) :
    s.extend [c] = (s.append c.ops (Call.valid_of_flaw? h), none) := by
  rw [extend]
  split
  · next hflaw =>
    rw [h] at hflaw
    cases hflaw
  · rfl

/-- The script that calls make of the empty one. Calls that are refused are passed over. -/
def build (calls : List Call) : Script :=
  calls.foldl (fun s c => (s.extend [c]).1) empty

/-- One more call. -/
theorem build_concat (calls : List Call) (c : Call) :
    build (calls ++ [c]) = ((build calls).extend [c]).1 := by
  rw [build, List.foldl_append]
  rfl

/-- Pushing valid operations one after the other makes the script of these operations. -/
theorem toList_ops_build {ops : List Op} (h : ∀ op ∈ ops, op.Valid) :
    (build (ops.map .push)).ops.toList = ops := by
  induction ops using List.reverseRecOn with
  | nil => rfl
  | append_singleton ops op ih =>
      obtain ⟨hops, hop⟩ := List.forall_mem_append.mp h
      have hflaw : (Call.push op).flaw? = none := hop op (List.mem_singleton_self op)
      rw [List.map_append, List.map_singleton, build_concat, extend_of_flaw_eq_none hflaw,
        toList_ops_append, ih hops]
      rfl

/-- **Every script can be built**: what holds of the scripts that calls make holds of all. -/
theorem exists_build (s : Script) : ∃ calls, build calls = s :=
  ⟨_, Script.ext (toList_ops_build s.valid_toList)⟩

/-! ### One to one -/

/-- A script that writes only values which fit their width. -/
def Fitting (s : Script) : Prop := s.ops.toList.map Op.masked = s.ops.toList

/-- The bytes of a script are read as its operations, if its values fit their width. -/
theorem Fitting.readAll? {s : Script} (h : s.Fitting) :
    Op.readAll? s.bytes = some s.ops.toList := by
  rw [s.readAll?_bytes, h]

/-- Bytes that are complete operations are those of the script of these operations. -/
theorem build_of_readAll? {bytes : List Byte} {ops : List Op} (h : Op.readAll? bytes = some ops) :
    (build (ops.map .push)).ops.toList = ops ∧ (build (ops.map .push)).bytes = bytes ∧
      (build (ops.map .push)).Fitting := by
  obtain ⟨hbytes, hops⟩ := Op.bytes_of_readAll? h
  have hbuilt := toList_ops_build fun op hop => (hops op hop).1
  refine ⟨hbuilt, ?_, ?_⟩
  · rw [Script.bytes, hbuilt, hbytes]
  · rw [Fitting, hbuilt]
    exact (List.map_congr_left fun op hop => (hops op hop).2).trans (List.map_id' ops)

/-- **Scripts and complete byte strings are one to one.** A call that is refused leaves a script
as it was. The bytes of a script are read as its operations, with written values cut to their
width. Bytes that are complete operations are those of the script that pushing these operations
builds. So the scripts whose values fit their width and the byte strings that are complete
operations correspond to each other. -/
theorem written_one_to_one :
    (∀ calls c error, ((build calls).extend [c]).2 = some error →
        (build (calls ++ [c])).ops = (build calls).ops) ∧
      (∀ calls, Op.readAll? (build calls).bytes =
        some ((build calls).ops.toList.map Op.masked)) ∧
      (∀ bytes ops, Op.readAll? bytes = some ops →
        (build (ops.map .push)).ops.toList = ops ∧ (build (ops.map .push)).bytes = bytes) ∧
      Set.BijOn Script.bytes {s | (∃ calls, build calls = s) ∧ s.Fitting}
        {bytes | ∃ ops, Op.readAll? bytes = some ops} := by
  refine ⟨?_, fun calls => (build calls).readAll?_bytes, ?_, ?_, ?_, ?_⟩
  · intro calls c error herror
    cases hflaw : c.flaw? with
    | none =>
        rw [extend_of_flaw_eq_none hflaw] at herror
        cases herror
    | some flaw => rw [build_concat, extend_of_flaw hflaw]
  · intro bytes ops hread
    obtain ⟨hops, hbytes, -⟩ := build_of_readAll? hread
    exact ⟨hops, hbytes⟩
  · -- the bytes of a script are complete
    rintro s -
    exact ⟨_, s.readAll?_bytes⟩
  · -- and no other script whose values fit has them
    rintro s ⟨-, hs⟩ t ⟨-, ht⟩ hbytes
    have hread := hs.readAll?
    rw [hbytes, ht.readAll?] at hread
    exact Script.ext (Option.some.inj hread).symm
  · -- complete bytes are those of a script
    rintro bytes ⟨ops, hread⟩
    obtain ⟨-, hbytes, hfitting⟩ := build_of_readAll? hread
    exact ⟨_, ⟨⟨_, rfl⟩, hfitting⟩, hbytes⟩

/-- Calls that select a page, write a value which is too wide, and poll. -/
def mixedCalls : List Call :=
  [.select 0x20100000, .push (.write 4 .half [0x12340100] false), .push (.poll 0x10 3 true)]

/-- A call for nine values, after those calls: it is refused. The bytes of the others are read with
the written value cut to sixteen bits, and written again from what was read. -/
theorem written_one_to_one_mixed :
    ((build mixedCalls).extend [.push (.read 0 .byte 9 false)]).2 =
        some (.invalidTransferCount 9) ∧
      (build (mixedCalls ++ [.push (.read 0 .byte 9 false)])).ops = (build mixedCalls).ops ∧
      (build mixedCalls).bytes = [1, 0, 2, 0x10, 3, 0x20, 0xc1, 4, 0, 1, 0x63, 0x10] ∧
      Op.readAll? (build mixedCalls).bytes =
        some [.set ⟨.address, 1⟩ 0, .set ⟨.address, 2⟩ 0x10, .set ⟨.address, 3⟩ 0x20,
          .write 4 .half [0x100] false, .poll 0x10 3 true] ∧
      (build ([.set ⟨.address, 1⟩ 0, .set ⟨.address, 2⟩ 0x10, .set ⟨.address, 3⟩ 0x20,
          .write 4 .half [0x100] false, .poll 0x10 3 true].map .push)).bytes =
        (build mixedCalls).bytes := by
  obtain ⟨hrefused, hread, hwritten, -⟩ := written_one_to_one
  have hops := hread mixedCalls
  exact ⟨rfl, hrefused _ _ _ rfl, by decide, hops, (hwritten _ _ hops).2⟩

end Script

end BusScript
