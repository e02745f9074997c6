import BusScript.Proofs.Command.Chunks
import BusScript.Proofs.Image.Placement
import Mathlib.Data.List.Induction
import Mathlib.Logic.ExistsUnique
import Mathlib.Tactic.SplitIfs

/-!
# The Layout of an Image

Scripts are pushed into an image one after the other, under labels that need not differ, and some
of them may not fit any more. `Image.fill` goes through such a sequence and keeps account of the
scripts that found room. They stand one behind the other from address 0 on: each begins where the
words of those before it end (`Image.start`).

## Main results

* `Image.Holds.placement_eq` — the sections of an image stand behind the words of those before
  them, at addresses that are not cut off.
* `Image.holds_fill` — whatever is pushed, the image holds the scripts that found room.
* `Image.fills_back_to_back` — **the layout of an image** after any pushes, and what one more push
  does.
-/

namespace BusScript.Image

/-! ### Requests -/

/-- A script that is to be pushed, and its label. -/
structure Request where
  label : String
  script : Script

/-- The section that a request is met with. -/
def Request.toSection (r : Request) : Section := ⟨r.label, r.script.words.toArray⟩

/-- The number of words that scripts take. -/
def span : List Request → Nat
  | [] => 0
  | r :: held => r.script.words.length + span held

/-- Where a script begins among others: behind the words of those before it. -/
def start (held : List Request) (i : Nat) : Nat := span (held.take i)

@[simp] theorem span_append (held later : List Request) :
    span (held ++ later) = span held + span later := by
  induction held with
  | nil => simp [span]
  | cons r held ih => simp only [List.cons_append, span, ih, Nat.add_assoc]

/-- The words that scripts take, counted. -/
theorem length_flatMap_words (held : List Request) :
    (held.flatMap fun r => r.script.words).length = span held := by
  induction held with
  | nil => rfl
  | cons r held ih => rw [List.flatMap_cons, List.length_append, ih, span]

/-- **The next script begins where this one ends.** -/
theorem start_succ {held : List Request} (i : Fin held.length) :
    start held (i + 1) = start held i + held[i].script.words.length := by
  rw [start, List.take_succ_eq_append_getElem i.isLt, span_append]
  rfl

theorem start_le_start (held : List Request) {i j : Nat} (h : i ≤ j) :
    start held i ≤ start held j := by
  obtain ⟨k, rfl⟩ := Nat.exists_eq_add_of_le h
  rw [start, start, List.take_add, span_append]
  exact Nat.le_add_right _ _

/-- **Of two scripts, the earlier one ends before the other begins.** -/
theorem start_add_le_start {held : List Request} {i j : Fin held.length} (h : i < j) :
    start held i + held[i].script.words.length ≤ start held j := by
  rw [← start_succ]
  exact start_le_start held h

/-- No two scripts begin at the same address, as each has a word at least. -/
theorem start_lt_start {held : List Request} {i j : Fin held.length} (h : i < j) :
    start held i < start held j := by
  have hpos := held[i].script.length_words_pos
  have hle := start_add_le_start h
  omega

/-- A word before the script at an index belongs to one of the scripts before it. -/
theorem exists_range {held : List Request} {k n : Nat} (hn : n ≤ held.length)
    (h : k < start held n) :
    ∃ i : Fin held.length, start held i ≤ k ∧ k < start held i + held[i].script.words.length := by
  induction n with
  | zero => cases h
  | succ n ih =>
      by_cases hbefore : k < start held n
      · exact ih (Nat.le_of_succ_le hn) hbefore
      · rw [start_succ ⟨n, hn⟩] at h
        exact ⟨⟨n, hn⟩, Nat.le_of_not_lt hbefore, h⟩

/-- **Every word belongs to exactly one script.** -/
theorem existsUnique_range {held : List Request} {k : Nat} (h : k < span held) :
    ∃! i : Fin held.length,
      start held i ≤ k ∧ k < start held i + held[i].script.words.length := by
  have hall : k < start held held.length := by rwa [start, List.take_length]
  obtain ⟨i, hi⟩ := exists_range (Nat.le_refl _) hall
  have hlt : ∀ {i j : Fin held.length}, k < start held i + held[i].script.words.length →
      start held j ≤ k → ¬ i < j := by
    intro i j hend hbegin hij
    have hle := start_add_le_start hij
    omega
  refine ⟨i, hi, fun j hj => ?_⟩
  exact Fin.le_antisymm (Fin.not_lt.mp (hlt hi.2 hj.1)) (Fin.not_lt.mp (hlt hj.2 hi.1))

/-- The words of a script stand in its range. -/
theorem range_flatMap_words {held : List Request} (i : Fin held.length) :
    ((held.flatMap fun r => r.script.words).drop (start held i)).take
      held[i].script.words.length = held[i].script.words := by
  have hsplit : held = held.take i ++ held[i] :: held.drop (i + 1) := by
    rw [Fin.getElem_fin, ← List.drop_eq_getElem_cons, List.take_append_drop]
  have hwords : (held.flatMap fun r => r.script.words) =
      ((held.take i).flatMap fun r => r.script.words) ++
        (held[i].script.words ++ (held.drop (i + 1)).flatMap fun r => r.script.words) := by
    conv => lhs; rw [hsplit]
    rw [List.flatMap_append, List.flatMap_cons]
  rw [hwords, start, List.drop_left' (length_flatMap_words _), List.take_left' rfl]

/-! ### Images that hold scripts -/

/-- An image whose sections are those of the scripts `held`, in order. -/
structure Holds (image : Image) (held : List Request) : Prop where
  sections_eq : image.sections.toList = held.map Request.toSection
  span_le : span held ≤ capacity

namespace Holds

variable {image : Image} {held : List Request}

theorem toList_words (h : image.Holds held) :
    image.words.toList = held.flatMap fun r => r.script.words := by
  rw [Image.toList_words, h.sections_eq, List.flatMap_map]
  rfl

theorem size_eq (h : image.Holds held) : image.size = span held := by
  rw [← image.size_words, ← Array.length_toList, h.toList_words, length_flatMap_words]

/-- What a push does to such an image. -/
theorem push_eq (h : image.Holds held) (r : Request) :
    image.push r.label r.script =
      if span held + r.script.words.length ≤ capacity then
        .ok (span held, ⟨image.sections.push r.toSection⟩)
      else .error ⟨span held + r.script.words.length⟩ := by
  rw [Image.push_eq, h.size_eq]
  rfl

/-- After a push that fits, the image holds one more script. -/
theorem push (h : image.Holds held) {r : Request}
    (hfits : span held + r.script.words.length ≤ capacity) :
    Holds ⟨image.sections.push r.toSection⟩ (held ++ [r]) := by
  constructor
  · rw [Array.toList_push, h.sections_eq, List.map_append, List.map_singleton]
  · rw [span_append]
    exact hfits

end Holds

/-- Scripts that fit behind a number of words have addresses that are not cut off. -/
theorem placed_eq {held : List Request} {before : Nat} (h : before + span held ≤ capacity) :
    placed before (held.map Request.toSection) =
      held.mapIdx fun i r => (before + start held i, r.toSection) := by
  induction held generalizing before with
  | nil => rfl
  | cons r held ih =>
      have hpos := r.script.length_words_pos
      rw [span] at h
      have hsize : r.toSection.words.size = r.script.words.length := List.size_toArray
      have huncut : truncate before = before := Nat.mod_eq_of_lt (by omega)
      rw [List.map_cons, placed, hsize, huncut, ih (by omega), List.mapIdx_cons]
      simp only [start, List.take_zero, List.take_succ_cons, span, Nat.add_zero, Nat.add_assoc]

/-- **The sections stand behind the words of those before them.** -/
theorem Holds.placement_eq {image : Image} {held : List Request} (h : image.Holds held) :
    image.placement = held.mapIdx fun i r => (start held i, r.toSection) := by
  have hfits : 0 + span held ≤ capacity := by
    rw [Nat.zero_add]
    exact h.span_le
  rw [placement, h.sections_eq, placed_eq hfits]
  simp only [Nat.zero_add]

/-! ### Looking up sections -/

namespace Holds

variable {image : Image} {held : List Request}

/-- A section that is found is the first of its kind. -/
theorem find?_placement (h : image.Holds held) {p : Nat × Section → Bool} {e : Nat × Section} :
    image.placement.find? p = some e ↔
      ∃ i : Fin held.length, (p e = true ∧ ∀ j < i, p (start held j, held[j].toSection) = false) ∧
        (start held i, held[i].toSection) = e := by
  rw [h.placement_eq, List.find?_eq_some_iff_getElem]
  constructor
  · rintro ⟨hp, i, hi, he, hfirst⟩
    rw [List.length_mapIdx] at hi
    rw [List.getElem_mapIdx] at he
    refine ⟨⟨i, hi⟩, ⟨hp, fun j hj => ?_⟩, he⟩
    have hj' := hfirst j hj
    rw [List.getElem_mapIdx] at hj'
    simpa using hj'
  · rintro ⟨i, ⟨hp, hfirst⟩, he⟩
    refine ⟨hp, i, by simp, ?_, fun j hj => ?_⟩
    · rw [List.getElem_mapIdx]
      exact he
    · rw [List.getElem_mapIdx]
      simpa using hfirst ⟨j, by omega⟩ hj

/-- The label at an address is that of the script which begins there. -/
theorem labelAt?_eq_some_iff (h : image.Holds held) {a : Nat} {l : String} :
    image.labelAt? a = some l ↔ ∃ i : Fin held.length, start held i = a ∧ held[i].label = l := by
  rw [labelAt?, Option.map_eq_some_iff]
  constructor
  · rintro ⟨e, he, rfl⟩
    obtain ⟨i, ⟨hp, -⟩, rfl⟩ := h.find?_placement.mp he
    exact ⟨i, of_decide_eq_true hp, rfl⟩
  · rintro ⟨i, rfl, rfl⟩
    refine ⟨_, h.find?_placement.mpr ⟨i, ⟨decide_eq_true rfl, fun j hj => ?_⟩, rfl⟩, rfl⟩
    exact decide_eq_false (Nat.ne_of_lt (start_lt_start hj))

/-- The address of a label is that of the first script with the label. -/
theorem addressOf?_eq_some_iff (h : image.Holds held) {l : String} {a : Nat} :
    image.addressOf? l = some a ↔
      ∃ i : Fin held.length, (held[i].label = l ∧ ∀ j < i, held[j].label ≠ l) ∧
        start held i = a := by
  rw [addressOf?, Option.map_eq_some_iff]
  constructor
  · rintro ⟨e, he, rfl⟩
    obtain ⟨i, ⟨hp, hfirst⟩, rfl⟩ := h.find?_placement.mp he
    exact ⟨i, ⟨of_decide_eq_true hp, fun j hj => of_decide_eq_false (hfirst j hj)⟩, rfl⟩
  · rintro ⟨i, ⟨hp, hfirst⟩, rfl⟩
    refine ⟨_, h.find?_placement.mpr ⟨i, ⟨decide_eq_true hp, fun j hj => ?_⟩, rfl⟩, rfl⟩
    exact decide_eq_false (hfirst j hj)

end Holds

/-! ### Filling an image -/

/-- One push, beside which account is kept of the requests that were met. A script that does not
fit changes nothing. -/
def place (state : Image × List Request) (r : Request) : Image × List Request :=
  match state.1.push r.label r.script with
  | .ok (_, image) => (image, state.2 ++ [r])
  | .error _ => state

/-- What a sequence of pushes makes of the empty image, and the requests that were met. -/
def fill (requests : List Request) : Image × List Request :=
  requests.foldl place ({}, [])

/-- One more push. -/
theorem fill_concat (requests : List Request) (r : Request) :
    fill (requests ++ [r]) = place (fill requests) r := by
  rw [fill, List.foldl_append]
  rfl

/-- A push keeps account. -/
theorem Holds.place {state : Image × List Request} (h : state.1.Holds state.2) (r : Request) :
    (Image.place state r).1.Holds (Image.place state r).2 := by
  rw [Image.place, h.push_eq]
  split_ifs with hfits
  · exact h.push hfits
  · exact h

/-- **Whatever is pushed, the image holds the scripts that found room.** -/
theorem holds_fill (requests : List Request) : (fill requests).1.Holds (fill requests).2 := by
  induction requests using List.reverseRecOn with
  | nil => exact ⟨rfl, Nat.zero_le _⟩
  | append_singleton requests r ih =>
      rw [fill_concat]
      exact ih.place r

/-- How an image is laid out that a sequence of pushes has filled, `held` being the requests that
were met. -/
structure LaidOut (requests : List Request) (image : Image) (held : List Request) : Prop where
  /-- A script that fits is put behind the others. Its address is the number of their words, which
  16 bits can hold. -/
  accepts : ∀ r, span held + r.script.words.length ≤ 65536 →
    span held < 65536 ∧ ∃ image', image.push r.label r.script = .ok (span held, image') ∧
      fill (requests ++ [r]) = (image', held ++ [r])
  /-- Any other script is refused with the number of words that it needs, and changes nothing. -/
  refuses : ∀ r, 65536 < span held + r.script.words.length →
    image.push r.label r.script = .error ⟨span held + r.script.words.length⟩ ∧
      fill (requests ++ [r]) = (image, held)
  /-- The words are those of the scripts that found room, in the order of the pushes. -/
  words_eq : image.words.toList = held.flatMap fun r => r.script.words
  /-- Each script has its words from its start on. -/
  range_eq : ∀ i : Fin held.length,
    (image.words.toList.drop (start held i)).take held[i].script.words.length =
      held[i].script.words
  /-- No word belongs to two scripts, and none to no script. -/
  covered : ∀ k < image.words.size, ∃! i : Fin held.length,
    start held i ≤ k ∧ k < start held i + held[i].script.words.length
  /-- The addresses at which scripts begin have their labels, and no others have any. -/
  label_iff : ∀ a l, image.labelAt? a = some l ↔
    ∃ i : Fin held.length, start held i = a ∧ held[i].label = l
  /-- A label has the address of the earliest script with that label, if there is one. -/
  address_iff : ∀ l a, image.addressOf? l = some a ↔
    ∃ i : Fin held.length, (held[i].label = l ∧ ∀ j < i, held[j].label ≠ l) ∧ start held i = a

/-- **Scripts stand in an image back to back**, whatever has been pushed and whether it fitted. -/
theorem fills_back_to_back (requests : List Request) :
    LaidOut requests (fill requests).1 (fill requests).2 := by
  have h := holds_fill requests
  refine ⟨?_, ?_, h.toList_words, ?_, ?_, fun a l => h.labelAt?_eq_some_iff,
    fun l a => h.addressOf?_eq_some_iff⟩
  · intro r hfits
    have hpos := r.script.length_words_pos
    have hpush := h.push_eq r
    rw [capacity, if_pos hfits] at hpush
    refine ⟨by omega, _, hpush, ?_⟩
    rw [fill_concat, place, hpush]
  · intro r hlarge
    have hpush := h.push_eq r
    rw [capacity, if_neg (Nat.not_le_of_lt hlarge)] at hpush
    refine ⟨hpush, ?_⟩
    rw [fill_concat, place, hpush]
  · intro i
    rw [h.toList_words]
    exact range_flatMap_words i
  · intro k hk
    rw [size_words, h.size_eq] at hk
    exact existsUnique_range hk

/-- A script that polls `n` times. -/
def polls (n : Nat) : Script :=
  ⟨(List.replicate n (.poll 0 0 true)).toArray, by simp [Op.Valid, Op.flaw?]⟩

/-- Every poll takes two bytes. -/
theorem length_words_polls (n : Nat) : (polls n).words.length = 1 + max 1 ((2 * n + 5) / 6) := by
  have hbytes : (polls n).bytes.length = 2 * n := by
    rw [Script.bytes, polls, List.length_flatMap]
    simp [Op.bytes, Op.payload, Nat.mul_comm]
  rw [Script.length_words, hbytes]
  rfl

/-- Between two pushes of a small script under the same label, one is pushed that does not fit. -/
theorem fills_back_to_back_crowded :
    ∃ (small large : Script) (first last : Image),
      small.words.length = 2 ∧ large.words.length = 66668 ∧
      fill [⟨"a", small⟩] = (first, [⟨"a", small⟩]) ∧
      first.push "b" large = .error ⟨66670⟩ ∧
      fill [⟨"a", small⟩, ⟨"b", large⟩] = (first, [⟨"a", small⟩]) ∧
      first.push "a" small = .ok (2, last) ∧ last.words.toList = small.words ++ small.words ∧
      last.labelAt? 2 = some "a" ∧ last.labelAt? 1 = none ∧
      last.addressOf? "a" = some 0 ∧ last.addressOf? "b" = none := by
  obtain ⟨small, hsmall⟩ : ∃ s : Script, s.words.length = 2 := ⟨polls 0, length_words_polls 0⟩
  obtain ⟨large, hlarge⟩ : ∃ s : Script, s.words.length = 66668 := by
    refine ⟨polls 200000, ?_⟩
    rw [length_words_polls]
    omega
  have hspan : span [⟨"a", small⟩] = 2 := hsmall
  -- the first push
  have hempty : LaidOut [] {} [] := fills_back_to_back []
  have hroom : span [] + small.words.length ≤ 65536 := by
    rw [hsmall]
    decide
  obtain ⟨-, first, -, hfirst⟩ := hempty.accepts ⟨"a", small⟩ hroom
  -- the push that is refused
  have hlaid : LaidOut [⟨"a", small⟩] first [⟨"a", small⟩] := by
    have h := fills_back_to_back [⟨"a", small⟩]
    rwa [show fill [⟨"a", small⟩] = _ from hfirst] at h
  have hexcess : 65536 < span [⟨"a", small⟩] + large.words.length := by
    rw [hspan, hlarge]
    decide
  obtain ⟨hrefused, hsame⟩ := hlaid.refuses ⟨"b", large⟩ hexcess
  rw [hspan, hlarge] at hrefused
  -- the push after it
  have hkept : LaidOut [⟨"a", small⟩, ⟨"b", large⟩] first [⟨"a", small⟩] := by
    have h := fills_back_to_back [⟨"a", small⟩, ⟨"b", large⟩]
    rwa [show fill [⟨"a", small⟩, ⟨"b", large⟩] = _ from hsame] at h
  have hroom' : span [⟨"a", small⟩] + small.words.length ≤ 65536 := by
    rw [hspan, hsmall]
    decide
  obtain ⟨-, last, hpushed, hlast⟩ := hkept.accepts ⟨"a", small⟩ hroom'
  rw [hspan] at hpushed
  have hfull : LaidOut [⟨"a", small⟩, ⟨"b", large⟩, ⟨"a", small⟩] last
      [⟨"a", small⟩, ⟨"a", small⟩] := by
    have h := fills_back_to_back [⟨"a", small⟩, ⟨"b", large⟩, ⟨"a", small⟩]
    rwa [show fill [⟨"a", small⟩, ⟨"b", large⟩, ⟨"a", small⟩] = _ from hlast] at h
  refine ⟨small, large, first, last, hsmall, hlarge, hfirst, hrefused, hsame, hpushed, ?_, ?_, ?_,
    ?_, ?_⟩
  · exact hfull.words_eq.trans (by simp)
  · exact (hfull.label_iff 2 "a").mpr ⟨1, hspan, rfl⟩
  · refine Option.eq_none_iff_forall_ne_some.mpr fun l hl => ?_
    obtain ⟨i, hi, -⟩ := (hfull.label_iff 1 l).mp hl
    rcases Nat.eq_zero_or_pos i.val with hzero | hpos
    · rw [hzero] at hi
      cases hi
    · have hnext := start_le_start [⟨"a", small⟩, ⟨"a", small⟩] hpos
      rw [hi, show start [⟨"a", small⟩, ⟨"a", small⟩] 1 = 2 from hspan] at hnext
      omega
  · exact (hfull.address_iff "a" 0).mpr ⟨0, ⟨rfl, fun j hj => absurd hj (Nat.not_lt_zero j)⟩, rfl⟩
  · refine Option.eq_none_iff_forall_ne_some.mpr fun a ha => ?_
    obtain ⟨i, ⟨hi, -⟩, -⟩ := (hfull.address_iff "b" a).mp ha
    have hlabels : ∀ r ∈ [Request.mk "a" small, ⟨"a", small⟩], r.label = "a" := by simp
    have hlabel := hlabels _ (List.getElem_mem i.isLt)
    rw [Fin.getElem_fin, hlabel] at hi
    exact absurd hi (by decide)

end BusScript.Image
