import ExactCover.Proofs.Text.Lines
/-!
The words of a text: what its blanks leave of it. A blank between two texts belongs to no word, so the
words before it and after it are found apart, and trimming a text keeps its words.
-/

namespace ExactCover.Text

/-- A text and its words: a word goes up to a blank or to the end, and blanks before it do not count. -/
inductive HasWords : List Char → List (List Char) → Prop
  | nil : HasWords [] []
  | blank {c : Char} {rest : List Char} {found : List (List Char)} : isBlank c = true →
      HasWords rest found → HasWords (c :: rest) found
  | last {word : List Char} : word ≠ [] → (∀ c ∈ word, isBlank c = false) → HasWords word [word]
  | word {word rest : List Char} {c : Char} {found : List (List Char)} : word ≠ [] →
      (∀ c ∈ word, isBlank c = false) → isBlank c = true → HasWords rest found →
      HasWords (word ++ c :: rest) (word :: found)

section Words

variable {c : Char} {text word : List Char}

@[simp] theorem words_nil : words [] = [] := rfl

theorem words_append_blank (hc : isBlank c = true) (text rest : List Char) :
    words (text ++ c :: rest) = words text ++ words rest := by
  rw [words, pieces_append_mark hc, List.filter_append]
  rfl

theorem words_cons_blank (hc : isBlank c = true) (rest : List Char) :
    words (c :: rest) = words rest := words_append_blank hc [] rest

theorem words_of_forall (hne : word ≠ []) (hword : ∀ c ∈ word, isBlank c = false) :
    words word = [word] := by
  rw [words, pieces_of_forall hword]
  simp [hne]

theorem words_blanks_append {blanks : List Char} (hblanks : ∀ c ∈ blanks, isBlank c = true)
    (text : List Char) : words (blanks ++ text) = words text := by
  induction blanks with
  | nil => rfl
  | cons c blanks ih =>
    obtain ⟨hc, hblanks⟩ := List.forall_mem_cons.1 hblanks
    rw [List.cons_append, words_cons_blank hc, ih hblanks]

theorem words_append_blanks {blanks : List Char} (hblanks : ∀ c ∈ blanks, isBlank c = true)
    (text : List Char) : words (text ++ blanks) = words text := by
  cases blanks with
  | nil => rw [List.append_nil]
  | cons c blanks =>
    obtain ⟨hc, hblanks⟩ := List.forall_mem_cons.1 hblanks
    have hnone : words blanks = [] := by
      rw [← List.append_nil blanks, words_blanks_append hblanks, words_nil]
    rw [words_append_blank hc, hnone, List.append_nil]

theorem words_trim (text : List Char) : words (trim text) = words text := by
  obtain ⟨before, after, htext, hbefore, hafter, -⟩ := exists_trim text
  conv_rhs => rw [htext]
  rw [words_blanks_append hbefore, words_append_blanks hafter]

theorem HasWords.words_eq {found : List (List Char)} (h : HasWords text found) :
    words text = found := by
  induction h with
  | nil => rfl
  | blank hc _ ih => rw [words_cons_blank hc, ih]
  | last hne hword => exact words_of_forall hne hword
  | word hne hword hc _ ih =>
    rw [words_append_blank hc, words_of_forall hne hword, ih, List.singleton_append]

theorem exists_hasWords (text : List Char) : ∃ found, HasWords text found := by
  induction text with
  | nil => exact ⟨[], .nil⟩
  | cons c text ih =>
    obtain ⟨found, h⟩ := ih
    cases hc : isBlank c with
    | true => exact ⟨found, .blank hc h⟩
    | false =>
      have hfirst : ∀ word : List Char, (∀ d ∈ word, isBlank d = false) →
          ∀ d ∈ c :: word, isBlank d = false :=
        fun word hword => List.forall_mem_cons.2 ⟨hc, hword⟩
      have hnone : ∀ d ∈ ([] : List Char), isBlank d = false := fun _ hd => absurd hd List.not_mem_nil
      -- The character begins a word of its own, or goes in front of the word that the rest begins with.
      cases h with
      | nil => exact ⟨_, .last (List.cons_ne_nil c []) (hfirst [] hnone)⟩
      | blank hblank h => exact ⟨_, .word (List.cons_ne_nil c []) (hfirst [] hnone) hblank h⟩
      | last hne hword => exact ⟨_, .last (List.cons_ne_nil c _) (hfirst _ hword)⟩
      | word hne hword hblank h =>
        exact ⟨_, .word (List.cons_ne_nil c _) (hfirst _ hword) hblank h⟩

theorem words_eq_iff {found : List (List Char)} : words text = found ↔ HasWords text found := by
  constructor
  · rintro rfl
    obtain ⟨found, h⟩ := exists_hasWords text
    rw [h.words_eq]
    exact h
  · exact HasWords.words_eq

end Words

end ExactCover.Text
