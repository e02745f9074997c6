import BusScript.Image.Basic
import BusScript.Proofs.Command.Framed
import BusScript.Store

/-!
# Scripts in a Store

An image is filled by pushing scripts into it, and a push says at which address the script now
stands. It stands there for good: whatever is pushed later, a store with the words of the image
holds the script's words from that address on.

## Main results

* `Store.exists_finds` — wherever fetching begins, it comes to a last data word.
* `Image.push_eq` — a push that succeeds gives the number of words before the script, uncut.
* `Image.Grows.holds` — the words of a pushed script are found at the address of the push.
-/

namespace BusScript

open Command (Word)

/-! ### Words in a store -/

/-- The words that a store holds from an address on. -/
def Store.Holds (store : Store) : BitVec 16 → List Word → Prop
  | _, [] => True
  | address, w :: words => store.fetch address = some w ∧ store.Holds (address + 1) words

/-- The sentinel is a last data word. -/
theorem Store.isDataLast_sentinel : sentinel.isDataLast = true :=
  Word.isDataLast_of_decode (Command.decode_pack _)

/-- A store of no more words than it has addresses holds every part of them. -/
theorem Store.holds_ofWords {words : Array Word} {before part after : List Word} (latency : Nat)
    (hwords : words.toList = before ++ (part ++ after)) (hsize : words.size ≤ Image.capacity) :
    (ofWords words latency).Holds (BitVec.ofNat 16 before.length) part := by
  induction part generalizing before with
  | nil => trivial
  | cons w part ih =>
      have hlength : words.size = before.length + (part.length + 1 + after.length) := by
        rw [← Array.length_toList, hwords]
        simp only [List.length_append, List.length_cons]
      have hlt : before.length < 2 ^ 16 := by
        simp only [Image.capacity] at hsize
        omega
      refine ⟨?_, ?_⟩
      · have hfound : words.toList[before.length]? = some w := by
          rw [hwords, List.getElem?_append_right (Nat.le_refl _), Nat.sub_self]
          rfl
        simp only [ofWords, BitVec.toNat_ofNat, Nat.mod_eq_of_lt hlt]
        rw [← Array.getElem?_toList]
        exact hfound
      · have hnext := @ih (before ++ [w]) (by rw [hwords]; simp)
        rw [List.length_append, List.length_singleton, BitVec.ofNat_add] at hnext
        exact hnext

/-! ### Words found outside a store as well -/

/-- The words that are found from an address on: those that the store holds, and the sentinel
where it holds none. -/
def Store.Finds (store : Store) : BitVec 16 → List Word → Prop
  | _, [] => True
  | address, w :: words =>
      (store.fetch address).getD sentinel = w ∧ store.Finds (address + 1) words

/-- What a store holds is found there. -/
theorem Store.Holds.finds {store : Store} {address : BitVec 16} {words : List Word}
    (h : store.Holds address words) : store.Finds address words := by
  induction words generalizing address with
  | nil => trivial
  | cons w words ih =>
      obtain ⟨hw, hwords⟩ := h
      refine ⟨?_, ih hwords⟩
      rw [hw]
      rfl

/-- **Wherever fetching begins, it comes to a last data word**: one that the store holds, or the
sentinel behind its end. As the store does not fill the address space, no address comes again
before that. -/
theorem Store.exists_finds {words : Array Word} (hsize : words.size ≤ 65535) (latency : Nat)
    (address : BitVec 16) :
    ∃ found, (ofWords words latency).Finds address found ∧ found ≠ [] ∧
      Command.Closing found := by
  -- induction on the words between the address and the end of the store
  induction hn : words.size - address.toNat using Nat.strongRecOn generalizing address with
  | ind n ih =>
      by_cases hlast :
          (((ofWords words latency).fetch address).getD sentinel).isDataLast = true
      · refine ⟨[_], ⟨rfl, trivial⟩, List.cons_ne_nil _ _, ?_, trivial⟩
        exact ⟨fun _ => rfl, fun _ => hlast⟩
      · have hlt : address.toNat < words.size := by
          refine Nat.lt_of_not_le fun hle => hlast ?_
          have hnone : (ofWords words latency).fetch address = none := Array.getElem?_eq_none hle
          rw [hnone]
          exact isDataLast_sentinel
        have hnext : (address + 1).toNat = address.toNat + 1 := by
          rw [BitVec.toNat_add]
          exact Nat.mod_eq_of_lt (by simp; omega)
        obtain ⟨found, hfound, hne, hclosing⟩ := ih _ (by omega) (address + 1) rfl
        refine ⟨_ :: found, ⟨rfl, hfound⟩, List.cons_ne_nil _ _, ?_, hclosing⟩
        exact ⟨fun h => absurd h hlast, fun h => absurd h hne⟩

/-! ### Words in an image -/

namespace Image

/-- The words of an image, as a list. -/
theorem toList_words (image : Image) :
    image.words.toList = image.sections.toList.flatMap fun s => s.words.toList := by
  rw [words, Array.toList_flatMap]

/-- The size of an image is the number of its words. -/
theorem size_words (image : Image) : image.words.size = image.size := by
  have hcount : ∀ (sections : List Section) (total : Nat),
      sections.foldl (fun total s => total + s.words.size) total =
        total + (sections.flatMap fun s => s.words.toList).length := by
    intro sections
    induction sections with
    | nil => intro total; rfl
    | cons s sections ih =>
        intro total
        simp only [List.foldl_cons, ih, List.flatMap_cons, List.length_append,
          Array.length_toList, Nat.add_assoc]
  rw [← Array.length_toList, toList_words, size, ← Array.foldl_toList, hcount, Nat.zero_add]

/-- **No address is cut off**: a script that fits leaves room for its own words behind its
address, and there is at least one. -/
theorem push_eq (image : Image) (label : String) (script : Script) :
    image.push label script =
      if image.size + script.words.length ≤ capacity then
        .ok (image.size, ⟨image.sections.push ⟨label, script.words.toArray⟩⟩)
      else .error ⟨image.size + script.words.length⟩ := by
  rw [push, List.size_toArray]
  split
  · next hfits =>
    have hpos := script.length_words_pos
    have hlt : image.size < capacity := by omega
    rw [truncate, Nat.mod_eq_of_lt hlt]
  · rfl

/-- What a successful push does: it fits, its address is the number of words before it, and its
words come behind them. -/
theorem push_eq_ok {image image' : Image} {label : String} {script : Script} {address : Nat}
    (h : image.push label script = .ok (address, image')) :
    address = image.words.size ∧ image'.words.size ≤ capacity ∧
      image'.words.toList = image.words.toList ++ script.words := by
  rw [push_eq] at h
  split at h
  · next hfits =>
    cases h
    have hwords : (Image.mk (image.sections.push ⟨label, script.words.toArray⟩)).words.toList =
        image.words.toList ++ script.words := by
      rw [toList_words, toList_words]
      simp
    refine ⟨image.size_words.symm, ?_, hwords⟩
    rw [← Array.length_toList, hwords, List.length_append, Array.length_toList, size_words]
    exact hfits
  · cases h

/-- One image has become another by further pushes. -/
inductive Grows : Image → Image → Prop
  | refl (image : Image) : Grows image image
  | push {image image' image'' : Image} {label : String} {script : Script} {address : Nat} :
      Grows image image' → image'.push label script = .ok (address, image'') → Grows image image''

/-- Further pushes keep the words that are there, and the capacity. -/
theorem Grows.words_prefix {image image' : Image} (h : image.Grows image')
    (hsize : image.words.size ≤ capacity) :
    image.words.toList <+: image'.words.toList ∧ image'.words.size ≤ capacity := by
  induction h with
  | refl => exact ⟨List.prefix_rfl, hsize⟩
  | push _ hpush ih =>
      obtain ⟨-, hfits, hwords⟩ := push_eq_ok hpush
      rw [hwords]
      exact ⟨ih.1.trans (List.prefix_append _ _), hfits⟩

/-- **A pushed script stays where it was put.** -/
theorem Grows.holds {before placed image : Image} {label : String} {script : Script}
    {address : Nat} (hpush : before.push label script = .ok (address, placed))
    (h : placed.Grows image) (latency : Nat) :
    (Store.ofWords image.words latency).Holds (BitVec.ofNat 16 address) script.words := by
  obtain ⟨haddress, hfits, hwords⟩ := push_eq_ok hpush
  obtain ⟨⟨after, hafter⟩, hsize⟩ := h.words_prefix hfits
  rw [hwords, List.append_assoc] at hafter
  rw [haddress, ← Array.length_toList]
  exact Store.holds_ofWords latency hafter.symm hsize

end Image

end BusScript
