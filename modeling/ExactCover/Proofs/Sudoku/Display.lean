import ExactCover.Proofs.Sudoku.Format
import ExactCover.Sudoku.Samples
/-!
A puzzle that is written and read again is the same one. Cells are padded on the left, so a line may
begin with blanks and have several between its cells; no padding is taken for a cell, and no line for a
blank one or a comment.
-/

namespace ExactCover

open Text

theorem mem_intercalate {α : Type} {a : α} {between : List α} {parts : List (List α)}
    (h : a ∈ between.intercalate parts) : a ∈ between ∨ ∃ part ∈ parts, a ∈ part := by
  induction parts with
  | nil => cases h
  | cons part parts ih =>
    cases parts with
    | nil => exact .inr ⟨part, List.mem_cons_self, by simpa using h⟩
    | cons next parts =>
      rw [List.intercalate_cons_cons, List.mem_append, List.mem_append] at h
      rcases h with (h | h) | h
      · exact .inr ⟨part, List.mem_cons_self, h⟩
      · exact .inl h
      · exact (ih h).imp_right fun ⟨other, hother, ha⟩ => ⟨other, List.mem_cons_of_mem part hother, ha⟩

namespace Sudoku

section Line

variable {width digit : Nat} {cells : List Nat} {texts : List (List Char)} {c : Char}

theorem cellText_ne_nil (digit : Nat) : Board.cellText digit ≠ [] := by
  unfold Board.cellText
  split
  · exact List.cons_ne_nil _ _
  · exact Nat.toDigits_ne_nil

theorem mem_cellText (h : c ∈ Board.cellText digit) : c = '.' ∨ c.isDigit = true := by
  unfold Board.cellText at h
  split at h
  · exact .inl (List.mem_singleton.1 h)
  · exact .inr (Nat.isDigit_of_mem_toDigits (by decide) (by decide) h)

theorem isBlank_of_mem_cellText (h : c ∈ Board.cellText digit) : isBlank c = false := by
  rcases mem_cellText h with rfl | hdigit
  · rfl
  · exact isBlank_of_isDigit hdigit

theorem denotes_cellText (hdigit : digit ≤ wordMax) : Denotes (Board.cellText digit) digit := by
  unfold Board.cellText
  split
  case isTrue hzero =>
    rw [hzero]
    exact .dot
  case isFalse =>
    have hvalue : Nat.ofDigitChars 10 (Nat.toDigits 10 digit) 0 = digit := Nat.ofDigitChars_ten_toDigits
    have hnumber := Denotes.number (isNumeral_toDigits digit) (hvalue.symm ▸ hdigit)
    rwa [hvalue] at hnumber

theorem words_padLeft (width : Nat) (text : List Char) :
    words (Board.padLeft width text) = words text :=
  words_blanks_append (fun c hc => by rw [List.eq_of_mem_replicate hc]; rfl) text

/-- Words that are padded and joined by a blank are found again. -/
theorem words_intercalate_padLeft (hne : ∀ text ∈ texts, text ≠ [])
    (hblank : ∀ text ∈ texts, ∀ c ∈ text, isBlank c = false) :
    words ([' '].intercalate (texts.map (Board.padLeft width))) = texts := by
  induction texts with
  | nil => rfl
  | cons text texts ih =>
    obtain ⟨htext, hne⟩ := List.forall_mem_cons.1 hne
    obtain ⟨hchars, hblank⟩ := List.forall_mem_cons.1 hblank
    have hfirst : words (Board.padLeft width text) = [text] := by
      rw [words_padLeft, words_of_forall htext hchars]
    cases texts with
    | nil => simpa using hfirst
    | cons next texts =>
      rw [List.map_cons, List.map_cons, List.intercalate_cons_cons, List.append_assoc,
        List.singleton_append, words_append_blank rfl, hfirst, ← List.map_cons, ih hne hblank]
      rfl

def rowText (width : Nat) (cells : List Nat) : List Char :=
  [' '].intercalate (cells.map fun digit => Board.padLeft width (Board.cellText digit))

theorem words_rowText (width : Nat) (cells : List Nat) :
    words (rowText width cells) = cells.map Board.cellText := by
  have hmap : rowText width cells =
      [' '].intercalate ((cells.map Board.cellText).map (Board.padLeft width)) := by
    rw [List.map_map]
    rfl
  rw [hmap, words_intercalate_padLeft]
  · intro text htext
    obtain ⟨digit, -, rfl⟩ := List.mem_map.1 htext
    exact cellText_ne_nil digit
  · intro text htext c hc
    obtain ⟨digit, -, rfl⟩ := List.mem_map.1 htext
    exact isBlank_of_mem_cellText hc

theorem mem_rowText (h : c ∈ rowText width cells) : c = ' ' ∨ c = '.' ∨ c.isDigit = true := by
  rcases mem_intercalate h with hblank | ⟨part, hpart, hc⟩
  · exact .inl (List.mem_singleton.1 hblank)
  · obtain ⟨digit, -, rfl⟩ := List.mem_map.1 hpart
    rcases List.mem_append.1 hc with hpad | hc
    · exact .inl (List.eq_of_mem_replicate hpad)
    · exact .inr (mem_cellText hc)

theorem not_mem_rowText (hblank : c ≠ ' ') (hdot : c ≠ '.') (hdigit : c.isDigit = false) :
    c ∉ rowText width cells := by
  intro h
  rcases mem_rowText h with rfl | rfl | h
  · exact hblank rfl
  · exact hdot rfl
  · rw [hdigit] at h
    cases h

theorem denotesRow_rowText (hcells : ∀ digit ∈ cells, digit ≤ wordMax) :
    DenotesRow (rowText width cells) cells := by
  rw [DenotesRow, words_rowText, List.forall₂_map_left_iff, List.forall₂_same]
  exact fun digit hdigit => denotes_cellText (hcells digit hdigit)

theorem isNote_rowText (hcells : cells ≠ []) : isNote (rowText width cells) = false := by
  unfold isNote
  split
  case h_1 hnone =>
    have hblanks : ∀ c ∈ rowText width cells, isBlank c = true := by
      simpa using hnone
    have hwords := words_blanks_append hblanks []
    rw [List.append_nil, words_rowText, words_nil] at hwords
    exact absurd (List.map_eq_nil_iff.1 hwords) hcells
  case h_2 c hc =>
    refine beq_eq_false_iff_ne.2 ?_
    rintro rfl
    exact not_mem_rowText (by decide) (by decide) (by decide) (List.mem_of_find?_eq_some hc)

end Line

theorem textLines_toText (b : Board) : textLines b.toText =
    b.rows.map (rowText (Nat.toDigits 10 b.length).length) :=
  lines_flatMap_of_forall (fun _ _ => not_mem_rowText (by decide) (by decide) (by decide))
    fun _ _ => not_mem_rowText (by decide) (by decide) (by decide)

/-- A grid that is written is read as that grid, whatever its shape, if no row of it is empty. -/
theorem parse_toText {b : Board} (hrows : ∀ cells ∈ b.rows, cells ≠ [])
    (hwords : ∀ cells ∈ b.rows, ∀ digit ∈ cells, digit ≤ wordMax) : parse b.toText = ofBoard b := by
  refine parse_eq_iff.2 (.board ?_ (ofBoard_eq_iff.1 rfl))
  have hall : ∀ line ∈ b.rows.map (rowText (Nat.toDigits 10 b.length).length),
      (!isNote line) = true := by
    intro line hline
    obtain ⟨cells, hcells, rfl⟩ := List.mem_map.1 hline
    rw [isNote_rowText (hrows cells hcells), Bool.not_false]
  rw [textLines_toText, List.filter_eq_self.2 hall, List.forall₂_map_left_iff, List.forall₂_same]
  exact fun cells hcells => denotesRow_rowText (hwords cells hcells)

/-- What is displayed of a puzzle is read as that puzzle. -/
theorem parse_display_of_ofBoard (board : Board) (s : Sudoku) (h : ofBoard board = .ok s) :
    parse s.display.toList = .ok s := by
  obtain ⟨rfl, hchecked⟩ := checked_of_ofBoard h
  rw [display, Board.display, String.toList_ofList, parse_toText, h]
  · intro cells hcells
    refine List.ne_nil_of_length_pos ?_
    rw [hchecked.length_row cells hcells]
    exact s.size.toNat_pos
  · intro cells hcells digit hdigit
    have hsize : s.size.toNat ≤ wordMax := by cases s.size <;> decide
    exact (hchecked.value_le cells hcells digit hdigit).trans hsize

/-- Empty cells and numbers of one and of two digits. -/
theorem parse_display_sampleSixteen :
    ofBoard sampleSixteen = .ok { board := sampleSixteen, size := .sixteen } ∧
      parse (display { board := sampleSixteen, size := .sixteen }).toList =
        .ok { board := sampleSixteen, size := .sixteen } := by
  have haccepted : ofBoard sampleSixteen = .ok { board := sampleSixteen, size := .sixteen } := rfl
  exact ⟨haccepted, parse_display_of_ofBoard sampleSixteen _ haccepted⟩

end Sudoku

end ExactCover
