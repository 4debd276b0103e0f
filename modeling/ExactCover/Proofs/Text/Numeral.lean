import Mathlib.Tactic.Basic
import ExactCover.Text.Blank
import ExactCover.Text.Numeral
/-!
Decimal words: which texts are read as one, and that the digits of a number are such a text. No digit is
a blank, so a number is one word among others.
-/

namespace ExactCover.Text

/-- Digits, at least one, with at most one plus sign before them. -/
def IsNumeral (text digits : List Char) : Prop :=
  (text = digits ∨ text = '+' :: digits) ∧ digits ≠ [] ∧ ∀ c ∈ digits, c.isDigit = true

section Numeral

variable {text digits : List Char} {value n : Nat}

theorem digitsValue_eq (digits : List Char) : digitsValue digits = Nat.ofDigitChars 10 digits 0 := rfl

theorem dropPlus_of_isNumeral (h : IsNumeral text digits) : dropPlus text = digits := by
  obtain ⟨rfl | rfl, -, hdigits⟩ := h
  -- Without a plus sign there is none to drop, since a digit is none.
  · unfold dropPlus
    split
    · exact absurd (hdigits '+' List.mem_cons_self) (by decide)
    · rfl
  · rfl

theorem eq_dropPlus (text : List Char) : text = dropPlus text ∨ text = '+' :: dropPlus text := by
  unfold dropPlus
  split
  · exact .inr rfl
  · exact .inl rfl

theorem word?_eq_some_iff : word? text = some value ↔
    ∃ digits, IsNumeral text digits ∧ value = Nat.ofDigitChars 10 digits 0 ∧ value ≤ wordMax := by
  have hread : word? text = some value ↔
      dropPlus text ≠ [] ∧ (∀ c ∈ dropPlus text, c.isDigit = true) ∧
        digitsValue (dropPlus text) ≤ wordMax ∧ digitsValue (dropPlus text) = value := by
    simp [word?, and_assoc]
  rw [hread]
  constructor
  · rintro ⟨hne, hdigits, hle, rfl⟩
    exact ⟨dropPlus text, ⟨eq_dropPlus text, hne, hdigits⟩, digitsValue_eq _, hle⟩
  · rintro ⟨digits, hnumeral, rfl, hle⟩
    rw [dropPlus_of_isNumeral hnumeral, digitsValue_eq]
    exact ⟨hnumeral.2.1, hnumeral.2.2, hle, rfl⟩

-- The plus sign and zeros in front change nothing.
example : word? ['+', '0', '7'] = some 7 := by decide

theorem isNumeral_toDigits (n : Nat) : IsNumeral (Nat.toDigits 10 n) (Nat.toDigits 10 n) :=
  ⟨.inl rfl, Nat.toDigits_ne_nil, fun _ hc => Nat.isDigit_of_mem_toDigits (by decide) (by decide) hc⟩

theorem isBlank_of_isDigit {c : Char} (h : c.isDigit = true) : isBlank c = false := by
  have hnone : ∀ n < 58, 48 ≤ n →
      (blankRanges.any fun range => range.1 ≤ n && n ≤ range.2) = false := by decide
  obtain ⟨hfirst, hlast⟩ := Char.isDigit_iff_toNat.1 h
  exact hnone c.toNat (Nat.lt_succ_of_le hlast) hfirst

end Numeral

end ExactCover.Text
