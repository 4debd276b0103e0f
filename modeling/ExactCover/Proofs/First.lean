import Mathlib.Tactic.Basic
/-!
The first member of a list with a property, and the searches that come upon it. What a search returns
may depend on the place of the member; whether it returns anything there does not.
-/

namespace ExactCover

/-- The member at this place has the property, and no member before it has. -/
structure IsFirst {α : Type} (p : α → Prop) (l : List α) (place : Nat) (a : α) : Prop where
  getElem?_eq : l[place]? = some a
  holds : p a
  not_before : ∀ b ∈ l.take place, ¬ p b

section First

variable {α β : Type} {p : α → Prop} {l : List α} {place : Nat} {a b : α}

theorem IsFirst.mem (h : IsFirst p l place a) : a ∈ l := List.mem_of_getElem? h.getElem?_eq

theorem isFirst_cons_zero : IsFirst p (a :: l) 0 b ↔ a = b ∧ p b := by
  constructor
  · intro h
    exact ⟨Option.some.inj h.getElem?_eq, h.holds⟩
  · rintro ⟨rfl, h⟩
    exact ⟨rfl, h, fun _ hb => absurd hb List.not_mem_nil⟩

theorem isFirst_cons_succ : IsFirst p (a :: l) (place + 1) b ↔ ¬ p a ∧ IsFirst p l place b := by
  constructor
  · intro h
    obtain ⟨hfirst, hrest⟩ := List.forall_mem_cons.1 h.not_before
    exact ⟨hfirst, h.getElem?_eq, h.holds, hrest⟩
  · rintro ⟨hfirst, h⟩
    exact ⟨h.getElem?_eq, h.holds, List.forall_mem_cons.2 ⟨hfirst, h.not_before⟩⟩

theorem exists_isFirst (h : ∃ a ∈ l, p a) : ∃ place a, IsFirst p l place a := by
  induction l with
  | nil =>
    obtain ⟨a, ha, -⟩ := h
    cases ha
  | cons b l ih =>
    by_cases hb : p b
    · exact ⟨0, b, isFirst_cons_zero.2 ⟨rfl, hb⟩⟩
    · obtain ⟨a, ha, hpa⟩ := h
      have hrest : a ∈ l := (List.mem_cons.1 ha).resolve_left fun heq => hb (heq ▸ hpa)
      obtain ⟨place, a, hfirst⟩ := ih ⟨a, hrest, hpa⟩
      exact ⟨place + 1, a, isFirst_cons_succ.2 ⟨hb, hfirst⟩⟩

theorem exists_isFirst_cons {r : Nat → α → Prop} (ha : ¬ p a) :
    (∃ place b, IsFirst p (a :: l) place b ∧ r place b) ↔
      ∃ place b, IsFirst p l place b ∧ r (place + 1) b := by
  constructor
  · rintro ⟨place, b, h, hr⟩
    cases place with
    | zero =>
      obtain ⟨rfl, hb⟩ := isFirst_cons_zero.1 h
      exact absurd hb ha
    | succ place => exact ⟨place, b, (isFirst_cons_succ.1 h).2, hr⟩
  · rintro ⟨place, b, h, hr⟩
    exact ⟨place + 1, b, isFirst_cons_succ.2 ⟨ha, h⟩, hr⟩

theorem exists_isFirst_cons_of_pos {r : Nat → α → Prop} (ha : p a) :
    (∃ place b, IsFirst p (a :: l) place b ∧ r place b) ↔ r 0 a := by
  constructor
  · rintro ⟨place, b, h, hr⟩
    cases place with
    | zero =>
      obtain ⟨rfl, -⟩ := isFirst_cons_zero.1 h
      exact hr
    | succ place => exact absurd ha (isFirst_cons_succ.1 h).1
  · exact fun hr => ⟨0, a, isFirst_cons_zero.2 ⟨rfl, ha⟩, hr⟩

/-- A search by number and member finds what it finds at the first member of its kind. -/
theorem findSome?_zipIdx_eq_some_iff {f : α × Nat → Option β} {start : Nat} {found : β}
    (hf : ∀ a number, f (a, number) = none ↔ ¬ p a) :
    (l.zipIdx start).findSome? f = some found ↔
      ∃ place a, IsFirst p l place a ∧ f (a, start + place) = some found := by
  induction l generalizing start with
  | nil => simpa using fun place a (h : IsFirst p [] place a) => absurd h.mem List.not_mem_nil
  | cons a l ih =>
    cases hfa : f (a, start) with
    | none =>
      rw [List.zipIdx_cons, List.findSome?_cons_of_isNone (by rw [hfa]; rfl), ih,
        exists_isFirst_cons ((hf a start).1 hfa)]
      simp only [Nat.add_right_comm, Nat.add_assoc]
    | some b =>
      have ha : p a := Classical.byContradiction fun hnot => by simp [(hf a start).2 hnot] at hfa
      rw [List.zipIdx_cons, List.findSome?_cons_of_isSome (by rw [hfa]; rfl),
        exists_isFirst_cons_of_pos ha, Nat.add_zero]

theorem findSome?_zipIdx_eq_none_iff {f : α × Nat → Option β} {start : Nat}
    (hf : ∀ a number, f (a, number) = none ↔ ¬ p a) :
    (l.zipIdx start).findSome? f = none ↔ ∀ a ∈ l, ¬ p a := by
  induction l generalizing start with
  | nil => simp
  | cons a l ih =>
    rw [List.forall_mem_cons, ← hf a start, ← @ih (start + 1), List.zipIdx_cons,
      List.findSome?_cons]
    cases f (a, start) <;> simp

theorem find?_eq_some_iff_exists_isFirst {test : α → Bool} (htest : ∀ a, test a = true ↔ p a) :
    l.find? test = some a ↔ ∃ place, IsFirst p l place a := by
  rw [List.find?_eq_some_iff_append]
  constructor
  · rintro ⟨ha, before, after, rfl, hbefore⟩
    refine ⟨before.length, by simp, (htest a).1 ha, fun b hb hpb => ?_⟩
    rw [List.take_left] at hb
    simpa [(htest b).2 hpb] using hbefore b hb
  · rintro ⟨place, h⟩
    obtain ⟨hlt, rfl⟩ := List.getElem?_eq_some_iff.1 h.getElem?_eq
    refine ⟨(htest _).2 h.holds, l.take place, l.drop (place + 1), ?_, fun b hb => ?_⟩
    · rw [List.getElem_cons_drop, List.take_append_drop]
    · rw [Bool.not_eq_true', Bool.eq_false_iff]
      exact mt (htest b).1 (h.not_before b hb)

end First

end ExactCover
