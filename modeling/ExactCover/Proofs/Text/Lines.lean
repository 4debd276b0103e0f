import Mathlib.Data.List.DropRight
import ExactCover.Proofs.Text.Pieces
/-!
The lines of a text and what trimming leaves of a line. A line feed separates what stands before it
from what follows; a search for what is not blank finds the same in a line as in the trimmed line.
-/

namespace ExactCover.Text

section Lines

variable {α : Type} [DecidableEq α] {lineFeed carriageReturn : α}

@[simp] theorem lines_nil : lines lineFeed carriageReturn [] = [] := rfl

theorem lines_append_lineFeed (text rest : List α) :
    lines lineFeed carriageReturn (text ++ lineFeed :: rest) =
      (pieces (· == lineFeed) text).map (dropEnd carriageReturn) ++
        lines lineFeed carriageReturn rest := by
  have hne : pieces (· == lineFeed) rest ≠ [] := pieces_ne_nil rest
  have hcut : pieces (· == lineFeed) (text ++ lineFeed :: rest) =
      pieces (· == lineFeed) text ++ pieces (· == lineFeed) rest :=
    pieces_append_mark (by simp) text rest
  rw [lines, hcut, List.dropLast_append_of_ne_nil hne, List.getLast?_append_of_ne_nil _ hne,
    List.map_append, List.append_assoc]
  rfl

theorem dropEnd_of_not_mem {mark : α} {line : List α} (h : mark ∉ line) : dropEnd mark line = line :=
  if_neg fun hlast => h (List.mem_of_getLast? hlast)

theorem pieces_of_not_mem {raw : List α} (hraw : lineFeed ∉ raw) :
    pieces (· == lineFeed) raw = [raw] :=
  pieces_of_forall fun _ ha => beq_eq_false_iff_ne.2 fun heq => hraw (heq ▸ ha)

theorem lines_of_not_mem {raw : List α} (hraw : lineFeed ∉ raw) :
    lines lineFeed carriageReturn raw = if raw = [] then [] else [raw] := by
  rw [lines, pieces_of_not_mem hraw]
  cases raw <;> rfl

theorem lines_cons {raw : List α} (hraw : lineFeed ∉ raw) (rest : List α) :
    lines lineFeed carriageReturn (raw ++ lineFeed :: rest) =
      dropEnd carriageReturn raw :: lines lineFeed carriageReturn rest := by
  rw [lines_append_lineFeed, pieces_of_not_mem hraw]
  rfl

/-- A text with whole lines in front is cut into these and what is left behind the last one. -/
theorem lines_flatMap {raws : List (List α)} {last : List α} (hraws : ∀ raw ∈ raws, lineFeed ∉ raw)
    (hlast : lineFeed ∉ last) :
    lines lineFeed carriageReturn (raws.flatMap (· ++ [lineFeed]) ++ last) =
      raws.map (dropEnd carriageReturn) ++ if last = [] then [] else [last] := by
  induction raws with
  | nil => exact lines_of_not_mem hlast
  | cons raw raws ih =>
    obtain ⟨hraw, hraws⟩ := List.forall_mem_cons.1 hraws
    rw [List.flatMap_cons, List.append_assoc, List.append_assoc, List.singleton_append,
      lines_cons hraw, ih hraws, List.map_cons, List.cons_append]

theorem lines_flatMap_of_forall {β : Type} {f : β → List α} {items : List β}
    (hfeed : ∀ item ∈ items, lineFeed ∉ f item) (hreturn : ∀ item ∈ items, carriageReturn ∉ f item) :
    lines lineFeed carriageReturn (items.flatMap fun item => f item ++ [lineFeed]) = items.map f := by
  have hraws : ∀ raw ∈ items.map f, lineFeed ∉ raw := by
    intro raw hraw
    obtain ⟨item, hitem, rfl⟩ := List.mem_map.1 hraw
    exact hfeed item hitem
  have htext : (items.flatMap fun item => f item ++ [lineFeed]) =
      (items.map f).flatMap (· ++ [lineFeed]) ++ [] := by
    rw [List.append_nil, List.flatMap_map]
  rw [htext, lines_flatMap hraws List.not_mem_nil, if_pos rfl, List.append_nil, List.map_map]
  exact List.map_congr_left fun item hitem => dropEnd_of_not_mem (hreturn item hitem)

theorem lines_append {before : List α} (hbefore : before = [] ∨ before.getLast? = some lineFeed)
    (rest : List α) : lines lineFeed carriageReturn (before ++ rest) =
      lines lineFeed carriageReturn before ++ lines lineFeed carriageReturn rest := by
  rcases hbefore with rfl | hlast
  · rfl
  · obtain ⟨text, rfl⟩ := List.getLast?_eq_some_iff.1 hlast
    rw [List.append_assoc, List.singleton_append, lines_append_lineFeed, lines_append_lineFeed,
      lines_nil, List.append_nil]

/-- A text and its lines: a line goes up to a line feed, less one carriage return before it; what
follows the last line feed is a line too, unless nothing does. -/
inductive HasLines (lineFeed carriageReturn : α) : List α → List (List α) → Prop
  | nil : HasLines lineFeed carriageReturn [] []
  | last {raw : List α} : raw ≠ [] → lineFeed ∉ raw → HasLines lineFeed carriageReturn raw [raw]
  | line {raw rest : List α} {found : List (List α)} : lineFeed ∉ raw →
      HasLines lineFeed carriageReturn rest found →
      HasLines lineFeed carriageReturn (raw ++ lineFeed :: rest) (dropEnd carriageReturn raw :: found)

theorem HasLines.lines_eq {text : List α} {found : List (List α)}
    (h : HasLines lineFeed carriageReturn text found) :
    lines lineFeed carriageReturn text = found := by
  induction h with
  | nil => rfl
  | last hne hraw => rw [lines_of_not_mem hraw, if_neg hne]
  | line hraw _ ih => rw [lines_cons hraw, ih]

theorem exists_hasLines (text : List α) : ∃ found, HasLines lineFeed carriageReturn text found := by
  induction text with
  | nil => exact ⟨[], .nil⟩
  | cons a text ih =>
    obtain ⟨found, h⟩ := ih
    by_cases ha : a = lineFeed
    · subst ha
      exact ⟨_, .line List.not_mem_nil h⟩
    · have hfirst : ∀ raw : List α, lineFeed ∉ raw → lineFeed ∉ a :: raw :=
        fun raw hraw hmem => (List.mem_cons.1 hmem).elim (fun heq => ha heq.symm) hraw
      -- The first character goes in front of the line that the rest begins with.
      cases h with
      | nil => exact ⟨_, .last (List.cons_ne_nil a []) (hfirst [] List.not_mem_nil)⟩
      | last hne hraw => exact ⟨_, .last (List.cons_ne_nil a _) (hfirst _ hraw)⟩
      | line hraw h => exact ⟨_, .line (hfirst _ hraw) h⟩

theorem lines_eq_iff {text : List α} {found : List (List α)} :
    lines lineFeed carriageReturn text = found ↔ HasLines lineFeed carriageReturn text found := by
  constructor
  · rintro rfl
    obtain ⟨found, h⟩ := @exists_hasLines α _ lineFeed carriageReturn text
    rw [h.lines_eq]
    exact h
  · exact HasLines.lines_eq

theorem length_dropEnd_le (mark : α) (line : List α) : (dropEnd mark line).length ≤ line.length := by
  unfold dropEnd
  split
  case isTrue => exact line.dropLast_sublist.length_le
  case isFalse => exact Nat.le_refl _

theorem length_flatten_lines_le (text : List α) :
    (lines lineFeed carriageReturn text).flatten.length ≤ text.length := by
  obtain ⟨found, h⟩ := @exists_hasLines α _ lineFeed carriageReturn text
  rw [h.lines_eq]
  induction h with
  | nil => exact Nat.le_refl _
  | last => simp
  | @line raw rest found hraw h ih =>
    have hend := length_dropEnd_le carriageReturn raw
    rw [List.flatten_cons, List.length_append, List.length_append, List.length_cons]
    omega

end Lines

section Trim

theorem exists_trim (text : List Char) : ∃ before after,
    text = before ++ (trim text ++ after) ∧ (∀ c ∈ before, isBlank c = true) ∧
      (∀ c ∈ after, isBlank c = true) ∧ ∀ c ∈ (trim text).head?, isBlank c = false := by
  have hend : trim text ++ (text.dropWhile isBlank).rtakeWhile isBlank = text.dropWhile isBlank :=
    List.rdropWhile_append_rtakeWhile
  refine ⟨text.takeWhile isBlank, (text.dropWhile isBlank).rtakeWhile isBlank, ?_, ?_, ?_, ?_⟩
  · rw [hend, List.takeWhile_append_dropWhile]
  · exact fun c hc => List.mem_takeWhile_imp hc
  · exact fun c hc => List.mem_rtakeWhile_imp hc
  · intro c hc
    have hfirst : (text.dropWhile isBlank).head? = some c := by
      rw [← hend, List.head?_append, hc]
      rfl
    have hfind := text.find?_eq_head?_dropWhile_not fun c => !isBlank c
    simp only [Bool.not_not] at hfind
    simpa using List.find?_some (hfind.trans hfirst)

theorem find?_trim {p : Char → Bool} (hp : ∀ c, isBlank c = true → p c = false) (text : List Char) :
    (trim text).find? p = text.find? p := by
  obtain ⟨before, after, htext, hbefore, hafter, -⟩ := exists_trim text
  have hnone : ∀ blanks : List Char, (∀ c ∈ blanks, isBlank c = true) → blanks.find? p = none :=
    fun blanks hblanks => List.find?_eq_none.2 fun c hc => Bool.eq_false_iff.1 (hp c (hblanks c hc))
  conv_rhs => rw [htext]
  rw [List.find?_append, List.find?_append, hnone before hbefore, hnone after hafter, Option.none_or,
    Option.or_none]

theorem filterMap_trim {α : Type} {f : Char → Option α} (hf : ∀ c, isBlank c = true → f c = none)
    (text : List Char) : (trim text).filterMap f = text.filterMap f := by
  obtain ⟨before, after, htext, hbefore, hafter, -⟩ := exists_trim text
  have hnil : ∀ blanks : List Char, (∀ c ∈ blanks, isBlank c = true) → blanks.filterMap f = [] :=
    fun blanks hblanks => List.filterMap_eq_nil_iff.2 fun c hc => hf c (hblanks c hc)
  conv_rhs => rw [htext]
  rw [List.filterMap_append, List.filterMap_append, hnil before hbefore, hnil after hafter,
    List.nil_append, List.append_nil]

theorem head?_trim (text : List Char) : (trim text).head? = text.find? fun c => !isBlank c := by
  obtain ⟨-, -, -, -, -, hfirst⟩ := exists_trim text
  rw [← find?_trim (by simp) text]
  cases htrim : trim text with
  | nil => rfl
  | cons c rest =>
    have hc : isBlank c = false := hfirst c (by rw [htrim]; rfl)
    rw [List.find?_cons_of_pos (by simp [hc])]
    rfl

end Trim

end ExactCover.Text
