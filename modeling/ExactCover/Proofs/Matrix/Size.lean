import Mathlib.Algebra.Group.Action.Defs
import Mathlib.Algebra.Order.BigOperators.Group.List
import Mathlib.Algebra.Order.Group.Nat
import Mathlib.Data.String.Basic
import ExactCover.Proofs.Matrix.Format
import ExactCover.Proofs.Matrix.Listing
/-!
How large a matrix can be. It has no more set entries than entries, and one that was read has no more
entries than its text has characters, or bytes.
-/

namespace ExactCover

open Text

theorem Text.length_le_utf8Len (text : List Char) : text.length ≤ String.utf8Len text := by
  induction text with
  | nil => exact Nat.le_refl _
  | cons c text ih =>
    rw [String.utf8Len_cons, List.length_cons]
    exact Nat.add_le_add ih c.utf8Size_pos

theorem Text.length_toList_le (text : String) : text.toList.length ≤ text.utf8ByteSize := by
  have h := length_le_utf8Len text.toList
  rwa [← String.utf8ByteSize_ofList, String.ofList_toList] at h

theorem Text.length_decode_le {bytes : List UInt8} {text : List Char} (h : decode bytes = some text) :
    text.length ≤ bytes.length := by
  obtain ⟨decoded, hdecoded, rfl⟩ := Option.map_eq_some_iff.1 h
  unfold String.fromUTF8? at hdecoded
  split at hdecoded
  case isTrue =>
    cases hdecoded
    exact length_toList_le _
  case isFalse => cases hdecoded

theorem length_flatten_le {α : Type} {lists : List (List α)} {bound : Nat}
    (h : ∀ list ∈ lists, list.length ≤ bound) : lists.flatten.length ≤ lists.length * bound := by
  have hsum := List.sum_le_card_nsmul (lists.map List.length) bound fun size hsize => by
    obtain ⟨list, hlist, rfl⟩ := List.mem_map.1 hsize
    exact h list hlist
  rwa [List.length_map, smul_eq_mul, ← List.length_flatten] at hsum

theorem length_flatten_eq {α : Type} {lists : List (List α)} {width : Nat}
    (h : ∀ list ∈ lists, list.length = width) : lists.flatten.length = lists.length * width := by
  have hsum := List.sum_eq_card_nsmul (lists.map List.length) width fun size hsize => by
    obtain ⟨list, hlist, rfl⟩ := List.mem_map.1 hsize
    exact h list hlist
  rwa [List.length_map, smul_eq_mul, ← List.length_flatten] at hsum

namespace Matrix

variable {m : Matrix}

theorem length_le_of_mem_rows {row : List Nat} (hrow : row ∈ m.rows) : row.length ≤ m.numColumns := by
  obtain ⟨index, hindex⟩ := List.mem_iff_getElem?.1 hrow
  have hones := m.ones_eq_filter index
  rw [ones?, hindex, Option.getD_some] at hones
  rw [hones]
  exact (List.length_filter_le _ _).trans_eq List.length_range

theorem numOnes_le (m : Matrix) : m.numOnes ≤ m.numRows * m.numColumns :=
  length_flatten_le fun _ => length_le_of_mem_rows

theorem entries_eq_of_ofDense {rows : List (List Bool)} (h : ofDense rows = .ok m) :
    m.numRows * m.numColumns = rows.flatten.length := by
  cases ofDense_eq_iff.1 h with
  | @matrix first _ hhead hne hlength _ =>
    obtain ⟨rest, rfl⟩ := List.head?_eq_some_iff.1 hhead
    obtain ⟨m', hm', hcolumns, hrows⟩ :=
      ofDense_eq_ok (List.cons_ne_nil first rest) (List.length_pos_iff.2 hne) hlength
    obtain rfl : m' = m := Except.ok.inj (hm'.symm.trans h)
    rw [numRows, hrows, List.length_map, hcolumns, length_flatten_eq hlength]

section Read

variable {α : Type} {read : List α → Option (List Char)} {raws : List (List α)}
  (hread : ∀ raw text, read raw = some text → text.length ≤ raw.length)
include hread

theorem length_lineEntries_le (raw : List α) : (lineEntries (read raw)).length ≤ raw.length := by
  cases htext : read raw with
  | none => exact Nat.zero_le _
  | some text =>
    rw [lineEntries]
    split
    case isTrue => exact Nat.zero_le _
    case isFalse => exact (List.length_filterMap_le _ _).trans (hread raw text htext)

theorem length_flatten_lineRows_le :
    (lineRows (dataLines (raws.map read))).flatten.length ≤ raws.flatten.length := by
  induction raws with
  | nil => exact Nat.le_refl _
  | cons raw raws ih =>
    have hline := length_lineEntries_le hread raw
    rw [List.map_cons, dataLines_cons, List.flatten_cons, List.length_append]
    split
    case isTrue => exact Nat.zero_le _
    case isFalse =>
      rw [lineRows_cons]
      split
      case isTrue => exact ih.trans (Nat.le_add_left _ _)
      case isFalse =>
        rw [List.flatten_cons, List.length_append]
        exact Nat.add_le_add hline ih

/-- Each entry of a matrix that is read stands on a line of its text. -/
theorem entries_le_of_ofLines (h : ofLines (raws.map read) = .ok m) :
    m.numRows * m.numColumns ≤ raws.flatten.length := by
  rw [ofLines, readRows_eq] at h
  cases hfirst : firstError? 1 (dataLines (raws.map read)) with
  | some error =>
    rw [hfirst] at h
    cases h
  | none =>
    rw [hfirst] at h
    cases hdense : ofDense (lineRows (dataLines (raws.map read))) with
    | error cause =>
      simp only [hdense] at h
      cases h
    | ok m' =>
      simp only [hdense] at h
      cases h
      rw [entries_eq_of_ofDense hdense]
      exact length_flatten_lineRows_le hread

end Read

theorem entries_le_of_parse {text : List Char} (h : parse text = .ok m) :
    m.numRows * m.numColumns ≤ text.length := by
  have hread : ∀ raw text : List Char, some raw = some text → text.length ≤ raw.length :=
    fun raw text heq => Option.some.inj heq ▸ Nat.le_refl _
  exact (entries_le_of_ofLines hread h).trans (length_flatten_lines_le text)

theorem entries_le_of_parseBytes {bytes : List UInt8} (h : parseBytes bytes = .ok m) :
    m.numRows * m.numColumns ≤ bytes.length :=
  (entries_le_of_ofLines (fun _ _ => length_decode_le) h).trans (length_flatten_lines_le bytes)

end Matrix

end ExactCover
