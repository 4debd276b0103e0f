import ExactCover.Text.Blank
/-!
Cutting a text at its marks. A mark between two texts is a cut, so the pieces of what stands before it
and of what follows it are found apart.
-/

namespace ExactCover.Text

variable {α : Type} {isMark : α → Bool}

theorem pieces_cons (a : α) (text : List α) : pieces isMark (a :: text) =
    if isMark a then [] :: pieces isMark text
    else match pieces isMark text with
      | [] => [[a]]
      | piece :: rest => (a :: piece) :: rest := rfl

theorem pieces_ne_nil (text : List α) : pieces isMark text ≠ [] := by
  cases text with
  | nil => exact List.cons_ne_nil _ _
  | cons a text =>
    rw [pieces_cons]
    split
    case isTrue => exact List.cons_ne_nil _ _
    case isFalse => split <;> exact List.cons_ne_nil _ _

theorem pieces_of_forall {text : List α} (h : ∀ a ∈ text, isMark a = false) :
    pieces isMark text = [text] := by
  induction text with
  | nil => rfl
  | cons a text ih =>
    obtain ⟨ha, htext⟩ := List.forall_mem_cons.1 h
    rw [pieces_cons, ih htext, ha]
    rfl

theorem pieces_append_mark {mark : α} (hmark : isMark mark = true) (text rest : List α) :
    pieces isMark (text ++ mark :: rest) = pieces isMark text ++ pieces isMark rest := by
  induction text with
  | nil =>
    rw [List.nil_append, pieces_cons, hmark]
    rfl
  | cons a text ih =>
    rw [List.cons_append, pieces_cons, pieces_cons, ih]
    cases hpieces : pieces isMark text with
    | nil => exact absurd hpieces (pieces_ne_nil text)
    | cons piece others => cases isMark a <;> rfl

end ExactCover.Text
