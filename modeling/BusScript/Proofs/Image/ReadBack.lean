import BusScript.Image.MemoryText
import BusScript.Proofs.Command.Canonical
import BusScript.Proofs.Image.Layout

/-!
# Memory Text Reads Back

The text of an image is written for a memory that reads it line by line. Each line is read as the
item that it was written for: a label has no line break, an address needs no more than four
digits, and a word no more than fourteen, as its reserved bits are clear. The addresses are those at
which the memory stands anyway, so that every word is assigned once, at its place in the image.

## Main results

* `MemoryText.splitLines_render` — a text is split into the lines it was made of.
* `MemoryText.Line.read?_render` — a line that fits is read as it was meant.
* `Image.assignments_placed` — sections back to back assign their words to successive addresses.
* `Image.text_eq_entries` — the text is written from all words, cut into pieces by the sections.
* `Image.text_reads_back` — **the text of an image reads back as its words**.
-/

namespace BusScript

/-! ### Digits -/

namespace Hex

/-- Text that consists of `width` hexadecimal digits. -/
def IsNumber (width : Nat) (text : List Char) : Prop :=
  text.length = width ∧ ∀ c ∈ text, (digitValue? c).isSome = true

/-- Numbers are written in digits. -/
theorem isNumber_digits (width n : Nat) : IsNumber width (digits width n) := by
  refine ⟨length_digits width n, ?_⟩
  induction width generalizing n with
  | zero =>
      intro c hc
      cases hc
  | succ width ih =>
      intro c hc
      rcases List.mem_append.mp hc with hc | hc
      · exact ih _ c hc
      · have hlt : n % 16 < 16 := Nat.mod_lt _ (by decide)
        rw [List.mem_singleton.mp hc, digitValue?_digit _ hlt]
        rfl

/-- A number that fits is written in exactly the digits that it is to have at least. -/
theorem isNumber_digitsAtLeast {width n : Nat} (hw : 0 < width) (h : n < Nat.pow 16 width) :
    IsNumber width (digitsAtLeast width n) := by
  rw [digitsAtLeast_eq hw h]
  exact isNumber_digits width n

/-- A number that fits is read back. -/
theorem read?_digitsAtLeast {width n : Nat} (hw : 0 < width) (h : n < Nat.pow 16 width) :
    read? (digitsAtLeast width n) = some n := by
  rw [digitsAtLeast_eq hw h]
  exact read?_digits width n hw h

/-- What is no digit does not occur in a number. -/
theorem IsNumber.not_mem {width : Nat} {text : List Char} (h : IsNumber width text) {c : Char}
    (hc : digitValue? c = none) : c ∉ text := by
  intro hmem
  have hsome := h.2 c hmem
  rw [hc] at hsome
  cases hsome

end Hex

/-! ### Lines -/

namespace MemoryText

namespace Line

/-- A line on which everything finds room: a comment without a line break, an address of four digits
or a word of fourteen. -/
def Fits : Line → Prop
  | comment text => '\n' ∉ text
  | address n => n < Nat.pow 16 4
  | word w => w.raw.toNat < Nat.pow 16 14

/-- The form of a line of text, by how it begins: a comment is free, an address has exactly four
digits, and any other line exactly fourteen. -/
def WellFormed : List Char → Prop
  | '/' :: '/' :: _ => True
  | '@' :: digits => Hex.IsNumber 4 digits
  | digits => Hex.IsNumber 14 digits

/-- A number alone on its line is a word. -/
theorem read?_of_isNumber {width : Nat} {text : List Char} (h : Hex.IsNumber width text) :
    read? text = (Hex.read? text).map fun n => word ⟨BitVec.ofNat 64 n⟩ := by
  unfold read?
  split
  · exact absurd List.mem_cons_self (h.not_mem (c := '/') (by decide))
  · exact absurd List.mem_cons_self (h.not_mem (c := '@') (by decide))
  · rfl

/-- **A line that fits is read as it was meant.** -/
theorem read?_render {line : Line} (h : line.Fits) : read? line.render = some line := by
  cases line with
  | comment text => rfl
  | address n =>
      rw [render, read?, Hex.read?_digitsAtLeast (by decide) h]
      rfl
  | word w =>
      rw [render, read?_of_isNumber (Hex.isNumber_digitsAtLeast (by decide) h),
        Hex.read?_digitsAtLeast (by decide) h, Option.map_some, BitVec.ofNat_toNat,
        BitVec.setWidth_eq]

/-- Lines that fit are written in their form. -/
theorem wellFormed_render {line : Line} (h : line.Fits) : WellFormed line.render := by
  cases line with
  | comment text => trivial
  | address n => exact Hex.isNumber_digitsAtLeast (by decide) h
  | word w =>
      have hnumber : Hex.IsNumber 14 (word w).render := Hex.isNumber_digitsAtLeast (by decide) h
      unfold WellFormed
      split
      · trivial
      · next heq =>
        rw [heq] at hnumber
        exact absurd List.mem_cons_self (hnumber.not_mem (c := '@') (by decide))
      · exact hnumber

/-- No line that fits has a line break of its own. -/
theorem newline_not_mem_render {line : Line} (h : line.Fits) : '\n' ∉ line.render := by
  have hdigit : Hex.digitValue? '\n' = none := by decide
  cases line with
  | comment text =>
      rw [render, List.mem_cons, List.mem_cons, not_or, not_or]
      exact ⟨by decide, by decide, h⟩
  | address n =>
      rw [render, List.mem_cons, not_or]
      exact ⟨by decide, (Hex.isNumber_digitsAtLeast (by decide) h).not_mem hdigit⟩
  | word w => exact (Hex.isNumber_digitsAtLeast (by decide) h).not_mem hdigit

end Line

/-- The first line of a text ends at its first line break. -/
theorem splitLines_append {line : List Char} (h : '\n' ∉ line) (rest : List Char) :
    splitLines (line ++ '\n' :: rest) = line :: splitLines rest := by
  induction line with
  | nil => rw [List.nil_append, splitLines, if_pos rfl]
  | cons c line ih =>
      obtain ⟨hc, hline⟩ := not_or.mp (mt List.mem_cons.mpr h)
      rw [List.cons_append, splitLines, if_neg (Ne.symm hc), ih hline]

/-- **A text is split into the lines it was made of.** -/
theorem splitLines_render {lines : List Line} (h : ∀ line ∈ lines, line.Fits) :
    splitLines (render lines) = lines.map Line.render := by
  induction lines with
  | nil => rfl
  | cons line lines ih =>
      obtain ⟨hline, hlines⟩ := List.forall_mem_cons.mp h
      have hrest : render (line :: lines) = line.render ++ '\n' :: render lines := by
        rw [render, List.flatMap_cons, List.append_assoc]
        rfl
      rw [hrest, splitLines_append (Line.newline_not_mem_render hline), ih hlines, List.map_cons]

/-- Lines that fit are all read as they were meant. -/
theorem mapM_read?_render {lines : List Line} (h : ∀ line ∈ lines, line.Fits) :
    (lines.map Line.render).mapM Line.read? = some lines := by
  induction lines with
  | nil => rfl
  | cons line lines ih =>
      obtain ⟨hline, hlines⟩ := List.forall_mem_cons.mp h
      rw [List.map_cons, List.mapM_cons, Line.read?_render hline, ih hlines]
      rfl

/-- What is read of a text are the assignments that its lines make. -/
theorem read?_render {lines : List Line} (h : ∀ line ∈ lines, line.Fits) :
    read? (render lines) = some (assignments 0 lines) := by
  rw [read?, splitLines_render h, mapM_read?_render h, Option.map_some]

/-- Words go to the current address and those after it. -/
theorem assignments_words (current : Nat) (words : List Command.Word) (rest : List Line) :
    assignments current (words.map .word ++ rest) =
      (words.mapIdx fun i w => (current + i, w)) ++
        assignments (current + words.length) rest := by
  induction words generalizing current with
  | nil => rfl
  | cons w words ih =>
      rw [List.map_cons, List.cons_append, assignments, ih, List.mapIdx_cons, List.cons_append,
        List.length_cons]
      simp only [Nat.add_zero, Nat.add_assoc, Nat.add_comm 1]

end MemoryText

/-! ### Words -/

/-- Words made of fields alone have nothing in their reserved bits. -/
theorem Command.Word.toNat_ofFields_lt (opcode count : BitVec 3) (data : BitVec 48) :
    (ofFields opcode count data).raw.toNat < 18014398509481984 := by
  refine Nat.lt_pow_two_of_testBit (n := 54) _ fun i hi => ?_
  have hopcode : opcode.getLsbD (i - 51) = false := BitVec.getLsbD_of_ge _ _ (by omega)
  have hbit := getLsbD_ofFields opcode count data i
  rw [if_neg (by omega), if_neg (by omega), hopcode] at hbit
  exact hbit

namespace Image

open MemoryText (Line assignments)

/-- The words of a script take fourteen digits at most. -/
theorem fits_word {script : Script} {w : Command.Word} (h : w ∈ script.words) :
    (Line.word w).Fits := by
  obtain ⟨c, -, rfl⟩ := List.mem_map.mp h
  have hlt : c.pack.raw.toNat < 18014398509481984 := Command.Word.toNat_ofFields_lt _ _ _
  exact Nat.lt_of_lt_of_le hlt (by decide)

/-! ### Sections -/

theorem lines_eq (image : Image) :
    image.lines = image.placement.flatMap fun entry => sectionLines entry.1 entry.2 := rfl

/-- The words of a section go to its address and those after it. -/
theorem assignments_sectionLines (current address : Nat) (s : Section) (rest : List Line) :
    assignments current (sectionLines address s ++ rest) =
      (s.words.toList.mapIdx fun i w => (address + i, w)) ++
        assignments (address + s.words.size) rest := by
  rw [← Array.length_toList, ← MemoryText.assignments_words]
  rfl

/-- **Sections back to back assign their words to successive addresses**, if all of them fit. -/
theorem assignments_placed {held : List Request} {before : Nat} (current : Nat)
    (h : before + span held ≤ capacity) :
    assignments current ((placed before (held.map Request.toSection)).flatMap
        fun entry => sectionLines entry.1 entry.2) =
      (held.flatMap fun r => r.script.words).mapIdx fun i w => (before + i, w) := by
  induction held generalizing before current with
  | nil => rfl
  | cons r held ih =>
      have hpos := r.script.length_words_pos
      rw [span] at h
      have huncut : truncate before = before := Nat.mod_eq_of_lt (by omega)
      have hsize : r.toSection.words.size = r.script.words.length := List.size_toArray
      rw [List.map_cons, placed, List.flatMap_cons, huncut, assignments_sectionLines, hsize,
        ih _ (by omega), List.flatMap_cons, List.mapIdx_append]
      simp only [Request.toSection, Nat.add_assoc, Nat.add_comm r.script.words.length]

/-- A script has a word at least, so it begins before the end of the image. -/
theorem start_lt_span {held : List Request} (i : Fin held.length) :
    start held i < span held := by
  have hpos := held[i].script.length_words_pos
  have hend := start_succ i
  have hle : start held (i + 1) ≤ start held held.length := start_le_start held i.isLt
  rw [start, start, List.take_length] at hle
  rw [start] at hend
  omega

variable {image : Image} {held : List Request}

/-- The lines of an image assign every word to its place. -/
theorem Holds.assignments_lines (h : image.Holds held) :
    assignments 0 image.lines = image.words.toList.mapIdx Prod.mk := by
  have hfits : 0 + span held ≤ capacity := by
    rw [Nat.zero_add]
    exact h.span_le
  rw [lines_eq, placement, h.sections_eq, assignments_placed 0 hfits, h.toList_words]
  simp only [Nat.zero_add]

/-- The lines of an image fit, unless a label has a line break. -/
theorem Holds.fits_lines (h : image.Holds held)
    (hlabels : ∀ s ∈ image.sections, '\n' ∉ s.label.toList) :
    ∀ line ∈ image.lines, line.Fits := by
  intro line hline
  rw [lines_eq, h.placement_eq] at hline
  obtain ⟨entry, hentry, hline⟩ := List.mem_flatMap.mp hline
  obtain ⟨i, hi, rfl⟩ := List.mem_mapIdx.mp hentry
  rw [sectionLines, List.mem_cons, List.mem_cons] at hline
  rcases hline with rfl | rfl | hword
  · have hmem : held[i].toSection ∈ image.sections := by
      rw [← Array.mem_toList_iff, h.sections_eq]
      exact List.mem_map_of_mem (List.getElem_mem hi)
    rw [Line.Fits, List.mem_cons, not_or]
    exact ⟨by decide, hlabels _ hmem⟩
  · exact Nat.lt_of_lt_of_le (start_lt_span ⟨i, hi⟩) h.span_le
  · obtain ⟨w, hw, rfl⟩ := List.mem_map.mp hword
    rw [Request.toSection, List.toList_toArray] at hw
    exact fits_word hw

/-! ### Pieces of the words -/

/-- What there is to know of a section beside the words of the image: its label, its address and
how many of the words are its own. -/
structure Entry where
  label : String
  address : Nat
  size : Nat
  deriving DecidableEq, Repr

/-- The entry of a section at an address. -/
def Entry.ofSection (address : Nat) (s : Section) : Entry := ⟨s.label, address, s.words.size⟩

/-- The entries of an image, in order. -/
def entries (image : Image) : List Entry :=
  image.placement.map fun placed => .ofSection placed.1 placed.2

/-- The lines of an entry, with its piece of all words. -/
def Entry.lines (words : Array Command.Word) (e : Entry) : List Line :=
  .comment (' ' :: e.label.toList) :: .address e.address ::
    (words.extract e.address (e.address + e.size)).toList.map .word

/-- **The lines of an image are its words, piece by piece**: each section is what stands among all
words at its address. -/
theorem Holds.lines_eq_entries (h : image.Holds held) :
    image.lines = image.entries.flatMap (Entry.lines image.words) := by
  rw [lines_eq, entries, List.flatMap_map]
  refine List.flatMap_congr fun placed hplaced => ?_
  rw [h.placement_eq] at hplaced
  obtain ⟨i, hi, rfl⟩ := List.mem_mapIdx.mp hplaced
  have hextract : (image.words.extract (start held i)
      (start held i + held[i].toSection.words.size)).toList = held[i].toSection.words.toList := by
    rw [Array.toList_extract, List.extract_eq_take_drop, h.toList_words, Nat.add_sub_cancel_left]
    exact range_flatMap_words ⟨i, hi⟩
  rw [sectionLines, Entry.lines, Entry.ofSection, hextract]

/-- Whatever has been pushed, the text of an image can be written from its words and entries. -/
theorem text_eq_entries (requests : List Request) :
    (fill requests).1.text =
      String.ofList (MemoryText.render
        ((fill requests).1.entries.flatMap (Entry.lines (fill requests).1.words))) := by
  rw [text, (holds_fill requests).lines_eq_entries]

/-! ### Reading an image back -/

/-- **The text of an image reads back as its words.** Whatever has been pushed, as long as no label
in the image has a line break, the text assigns every word once, to its place in the image, and
nothing else; its addresses have four digits each and its words fourteen. -/
theorem text_reads_back (requests : List Request)
    (hlabels : ∀ s ∈ (fill requests).1.sections, '\n' ∉ s.label.toList) :
    MemoryText.read? (fill requests).1.text.toList =
        some ((fill requests).1.words.toList.mapIdx Prod.mk) ∧
      ∀ line ∈ MemoryText.splitLines (fill requests).1.text.toList, Line.WellFormed line := by
  have h := holds_fill requests
  have hfits := h.fits_lines hlabels
  rw [text, String.toList_ofList]
  refine ⟨?_, ?_⟩
  · rw [MemoryText.read?_render hfits, h.assignments_lines]
  · intro line hline
    rw [MemoryText.splitLines_render hfits] at hline
    obtain ⟨item, hitem, rfl⟩ := List.mem_map.mp hline
    exact Line.wellFormed_render (hfits item hitem)

/-- A script that reads one byte. -/
def probe : Script := ⟨#[.read 0x10 .byte 1 false], by decide⟩

/-- The two words of the probe: a clearing start, and its header. -/
theorem words_probe : probe.words = [⟨0x10000000000000⟩, ⟨0x22000000001080⟩] := by
  rw [Script.words, Script.commands, Command.frame_of_length_le (by decide)]
  rfl

/-- Two probes under labels that look like an address and like a word. -/
def twoProbes : Image := (fill [⟨"@ffff", probe⟩, ⟨"0", probe⟩]).1

theorem twoProbes_eq : twoProbes =
    ⟨#[⟨"@ffff", #[⟨0x10000000000000⟩, ⟨0x22000000001080⟩]⟩,
      ⟨"0", #[⟨0x10000000000000⟩, ⟨0x22000000001080⟩]⟩]⟩ := by
  simp [twoProbes, fill, place, push, words_probe, size, capacity]

/-- The text of the two probes, and what is read from it. -/
theorem text_reads_back_twoProbes :
    twoProbes.text =
        "// @ffff\n@0000\n10000000000000\n22000000001080\n" ++
          "// 0\n@0002\n10000000000000\n22000000001080\n" ∧
      (∀ s ∈ twoProbes.sections, '\n' ∉ s.label.toList) ∧
      MemoryText.read? twoProbes.text.toList =
        some [(0, ⟨0x10000000000000⟩), (1, ⟨0x22000000001080⟩), (2, ⟨0x10000000000000⟩),
          (3, ⟨0x22000000001080⟩)] ∧
      ∀ line ∈ MemoryText.splitLines twoProbes.text.toList, Line.WellFormed line := by
  have hlabels : ∀ s ∈ twoProbes.sections, '\n' ∉ s.label.toList := by
    rw [twoProbes_eq]
    decide
  obtain ⟨hread, hlines⟩ := text_reads_back [⟨"@ffff", probe⟩, ⟨"0", probe⟩] hlabels
  refine ⟨?_, hlabels, hread.trans ?_, hlines⟩
  · rw [twoProbes_eq]
    decide +kernel
  · change some (twoProbes.words.toList.mapIdx Prod.mk) = _
    rw [twoProbes_eq]
    rfl

end Image

end BusScript
