import Mathlib.Data.List.Nodup
/-!
Doubly linked loops, without the nodes: two functions on numbers lead around a start, each the way
back of the other. Taking a member out or adding one at the end changes the functions at the two
neighbours only, and the rest of the loop does not notice.
-/

namespace ExactCover

/-- From `a` on, the steps of `next` meet the members of `l` and then `b`. -/
def Leads (next : Nat → Nat) : Nat → List Nat → Nat → Prop
  | a, [], b => next a = b
  | a, x :: l, b => next a = x ∧ Leads next x l b

variable {next prev next' prev' : Nat → Nat} {a b x y start : Nat} {l l₁ l₂ : List Nat}

theorem leads_append :
    Leads next a (l₁ ++ x :: l₂) b ↔ Leads next a l₁ x ∧ Leads next x l₂ b := by
  induction l₁ generalizing a with
  | nil => exact Iff.rfl
  | cons c l₁ ih => simp only [List.cons_append, Leads, ih, and_assoc]

theorem Leads.congr (h : Leads next a l b) (hsame : ∀ c ∈ a :: l, next' c = next c) :
    Leads next' a l b := by
  induction l generalizing a with
  | nil => exact (hsame a List.mem_cons_self).trans h
  | cons x l ih =>
    refine ⟨(hsame a List.mem_cons_self).trans h.1, ih h.2 ?_⟩
    intro c hc
    exact hsame c (List.mem_cons_of_mem a hc)

theorem Leads.reverse (h : Leads next a l b) (hback : ∀ c ∈ a :: l, prev (next c) = c) :
    Leads prev b l.reverse a := by
  induction l generalizing a with
  | nil =>
    have hab : prev (next a) = a := hback a List.mem_cons_self
    rwa [show next a = b from h] at hab
  | cons x l ih =>
    have hx : prev (next a) = a := hback a List.mem_cons_self
    rw [h.1] at hx
    rw [List.reverse_cons, leads_append]
    exact ⟨ih h.2 fun c hc => hback c (List.mem_cons_of_mem a hc), hx⟩

theorem Leads.exists_next (h : Leads next a l b) (hy : y ∈ l ++ [b]) : ∃ c ∈ a :: l, next c = y := by
  induction l generalizing a with
  | nil =>
    rw [List.nil_append, List.mem_singleton] at hy
    exact ⟨a, List.mem_cons_self, h.trans hy.symm⟩
  | cons x l ih =>
    rcases List.mem_cons.1 hy with rfl | hy
    · exact ⟨a, List.mem_cons_self, h.1⟩
    · obtain ⟨c, hc, heq⟩ := ih h.2 hy
      exact ⟨c, List.mem_cons_of_mem a hc, heq⟩

theorem Leads.next_mem (h : Leads next a l b) (hy : y ∈ a :: l) : next y ∈ l ++ [b] := by
  induction l generalizing a with
  | nil =>
    rw [List.mem_singleton.1 hy]
    exact List.mem_singleton.2 h
  | cons x l ih =>
    rcases List.mem_cons.1 hy with rfl | hy
    · rw [h.1]
      exact List.mem_cons_self
    · exact List.mem_cons_of_mem x (ih h.2 hy)

theorem Leads.forall_mem {P : Nat → Prop} (h : Leads next a l b) (ha : P a)
    (hstep : ∀ c, P c → P (next c)) : ∀ c ∈ l, P c := by
  induction l generalizing a with
  | nil => exact fun c hc => absurd hc List.not_mem_nil
  | cons x l ih =>
    have hx : P x := h.1 ▸ hstep a ha
    intro c hc
    rcases List.mem_cons.1 hc with rfl | hc
    · exact hx
    · exact ih h.2 hx c hc

theorem Leads.redirect (h : Leads next a l x) (hnodup : (a :: l).Nodup)
    (hlast : ∀ c ∈ a :: l, next c = x → next' c = b)
    (hsame : ∀ c ∈ a :: l, next c ≠ x → next' c = next c) (hx : x ∉ l) : Leads next' a l b := by
  induction l generalizing a with
  | nil => exact hlast a List.mem_cons_self h
  | cons c l ih =>
    have hne : next a ≠ x := by
      rw [h.1]
      rintro rfl
      exact hx List.mem_cons_self
    refine ⟨(hsame a List.mem_cons_self hne).trans h.1, ih h.2 hnodup.of_cons ?_ ?_ ?_⟩
    · exact fun d hd => hlast d (List.mem_cons_of_mem a hd)
    · exact fun d hd => hsame d (List.mem_cons_of_mem a hd)
    · exact fun hmem => hx (List.mem_cons_of_mem c hmem)

/-- What leads there and back the same way can be taken back step by step. -/
theorem Leads.prev_next (h : Leads next a l b) (hback : Leads prev b l.reverse a) :
    ∀ c ∈ a :: l, prev (next c) = c := by
  induction l generalizing a with
  | nil =>
    intro c hc
    rw [List.mem_singleton.1 hc, show next a = b from h]
    exact hback
  | cons x l ih =>
    rw [List.reverse_cons, leads_append] at hback
    intro c hc
    rcases List.mem_cons.1 hc with rfl | hc
    · rw [h.1]
      exact hback.2
    · exact ih h.2 hback.1 c hc

/-- Nothing is met twice where every step can be taken back: going back from both places ends at the
start, which is not met again. -/
theorem Leads.nodup (h : Leads next a l b) (hback : ∀ c ∈ a :: l, prev (next c) = c) (ha : a ∉ l) :
    (a :: l).Nodup := by
  induction l generalizing a with
  | nil => exact List.nodup_singleton a
  | cons x l ih =>
    refine List.nodup_cons.2 ⟨ha, ih h.2 (fun c hc => hback c (List.mem_cons_of_mem a hc)) ?_⟩
    intro hx
    obtain ⟨c, hc, hnext⟩ := h.2.exists_next (List.mem_append_left [b] hx)
    have hprev : prev x = a := h.1 ▸ hback a List.mem_cons_self
    have hsame : prev x = c := hnext ▸ hback c (List.mem_cons_of_mem a hc)
    exact ha (hprev.symm.trans hsame ▸ hc)

theorem Leads.first_eq (h : Leads next a l b) (h' : Leads next' a l b) : next a = next' a := by
  cases l with
  | nil => exact Eq.trans h (Eq.symm h')
  | cons x l => exact h.1.trans h'.1.symm

theorem Leads.nearer (h : Leads next a l b)
    (hnodup : l.Nodup) (hx : x ∈ l) :
    next x = b ∨ (next x ∈ l ∧ l.idxOf x < l.idxOf (next x)) := by
  obtain ⟨before, after, rfl⟩ := List.append_of_mem hx
  have hrest := (leads_append.1 h).2
  cases after with
  | nil => exact .inl hrest
  | cons y after =>
    have hnext : next x = y := hrest.1
    obtain ⟨-, hafter, hdisjoint⟩ := List.nodup_append.1 hnodup
    have hx' : x ∉ before := fun hmem => hdisjoint x hmem x List.mem_cons_self rfl
    have hy' : y ∉ before := fun hmem => hdisjoint y hmem y (by simp) rfl
    have hne : x ≠ y := fun heq => (List.nodup_cons.1 hafter).1 (heq ▸ List.mem_cons_self)
    rw [hnext]
    refine .inr ⟨by simp, ?_⟩
    rw [List.idxOf_append_of_notMem hx', List.idxOf_append_of_notMem hy', List.idxOf_cons_self,
      List.idxOf_cons_ne _ hne]
    omega

/-- From `start` the steps of `next` meet each member of `l` once and come back, and `prev` is the
way back of every step. -/
structure Loop (next prev : Nat → Nat) (start : Nat) (l : List Nat) : Prop where
  nodup : (start :: l).Nodup
  leads : Leads next start l start
  prev_next : ∀ c ∈ start :: l, prev (next c) = c

namespace Loop

theorem nil (hnext : next start = start) (hprev : prev start = start) :
    Loop next prev start [] where
  nodup := List.nodup_singleton start
  leads := hnext
  prev_next := by
    intro c hc
    rw [List.mem_singleton.1 hc, hnext, hprev]

theorem ne_start (h : Loop next prev start l) (hx : x ∈ l) : x ≠ start := by
  rintro rfl
  exact (List.nodup_cons.1 h.nodup).1 hx

theorem next_mem (h : Loop next prev start l) (hx : x ∈ start :: l) : next x ∈ start :: l := by
  have := h.leads.next_mem hx
  simpa [or_comm] using this

theorem next_prev (h : Loop next prev start l) (hx : x ∈ start :: l) : next (prev x) = x := by
  have hx' : x ∈ l ++ [start] := by simpa [or_comm] using hx
  obtain ⟨c, hc, rfl⟩ := h.leads.exists_next hx'
  rw [h.prev_next c hc]

theorem symm (h : Loop next prev start l) : Loop prev next start l.reverse where
  nodup := by
    have hnodup := List.nodup_cons.1 h.nodup
    exact List.nodup_cons.2 ⟨by simpa using hnodup.1, List.nodup_reverse.2 hnodup.2⟩
  leads := h.leads.reverse h.prev_next
  prev_next := by
    intro c hc
    exact h.next_prev (by simpa using hc)

theorem prev_mem (h : Loop next prev start l) (hx : x ∈ start :: l) : prev x ∈ start :: l := by
  have := h.symm.next_mem (show x ∈ start :: l.reverse by simpa using hx)
  simpa using this

theorem next_ne (h : Loop next prev start l) (hx : x ∈ l) : next x ≠ x := by
  obtain ⟨l₁, l₂, rfl⟩ := List.append_of_mem hx
  have hleads := (leads_append.1 h.leads).2
  cases l₂ with
  | nil =>
    rw [show next x = start from hleads]
    exact (h.ne_start hx).symm
  | cons y l₂ =>
    rw [hleads.1]
    rintro rfl
    have hnodup := (List.nodup_append.1 (List.nodup_cons.1 h.nodup).2).2.1
    exact (List.nodup_cons.1 hnodup).1 List.mem_cons_self

theorem congr (h : Loop next prev start l) (hnext : ∀ c ∈ start :: l, next' c = next c)
    (hprev : ∀ c ∈ start :: l, prev' c = prev c) : Loop next' prev' start l where
  nodup := h.nodup
  leads := h.leads.congr hnext
  prev_next := by
    intro c hc
    rw [hnext c hc, hprev _ (h.next_mem hc), h.prev_next c hc]

theorem rotate (h : Loop next prev start (l₁ ++ x :: l₂)) :
    Loop next prev x (l₂ ++ start :: l₁) := by
  have hperm : (x :: (l₂ ++ start :: l₁)).Perm (start :: (l₁ ++ x :: l₂)) := by
    have : (x :: l₂ ++ start :: l₁).Perm (start :: l₁ ++ x :: l₂) := List.perm_append_comm
    simpa using this
  obtain ⟨hfirst, hsecond⟩ := leads_append.1 h.leads
  exact
    { nodup := hperm.nodup_iff.2 h.nodup
      leads := leads_append.2 ⟨hsecond, hfirst⟩
      prev_next := fun c hc => h.prev_next c (hperm.mem_iff.1 hc) }

theorem next_eq_iff (h : Loop next prev start l) (hy : y ∈ start :: l) (hx : x ∈ start :: l) :
    next y = x ↔ y = prev x := by
  constructor
  · rintro rfl
    exact (h.prev_next y hy).symm
  · rintro rfl
    exact h.next_prev hx

theorem leads_remove (h : Loop next prev start (l₁ ++ x :: l₂))
    (hnext : ∀ c ∈ start :: (l₁ ++ l₂), next' c = if c = prev x then next x else next c) :
    Leads next' start (l₁ ++ l₂) start := by
  have hnodup : (start :: l₁ ++ x :: l₂).Nodup := h.nodup
  obtain ⟨hleft, hright, hdisj⟩ := List.nodup_append.1 hnodup
  have hlast : ∀ c ∈ start :: (l₁ ++ l₂), next c = x ↔ c = prev x := by
    intro c hc
    refine h.next_eq_iff ?_ (by simp)
    simp only [List.mem_cons, List.mem_append] at hc ⊢
    tauto
  obtain ⟨hfirst, hsecond⟩ := leads_append.1 h.leads
  have hpre : Leads next' start l₁ (next x) := by
    refine hfirst.redirect hleft ?_ ?_ ?_
    · intro c hc heq
      have hmem : c ∈ start :: (l₁ ++ l₂) := List.mem_append_left l₂ hc
      rw [hnext c hmem, if_pos ((hlast c hmem).1 heq)]
    · intro c hc hneq
      have hmem : c ∈ start :: (l₁ ++ l₂) := List.mem_append_left l₂ hc
      rw [hnext c hmem, if_neg fun heq => hneq ((hlast c hmem).2 heq)]
    · exact fun hmem => hdisj x (List.mem_cons_of_mem start hmem) x List.mem_cons_self rfl
  -- The steps behind the member stay; only the one that led to it has a new goal.
  cases l₂ with
  | nil =>
    rw [List.append_nil]
    rwa [show next x = start from hsecond] at hpre
  | cons y l₂ =>
    rw [hsecond.1] at hpre
    refine leads_append.2 ⟨hpre, hsecond.2.congr ?_⟩
    intro c hc
    have hmem : c ∈ start :: (l₁ ++ y :: l₂) := List.mem_append_right (start :: l₁) hc
    rw [hnext c hmem, if_neg]
    intro heq
    have hback : x ∈ l₂ ++ [start] := (hlast c hmem).2 heq ▸ hsecond.2.next_mem hc
    rcases List.mem_append.1 hback with hback | hback
    · exact (List.nodup_cons.1 hright).1 (List.mem_cons_of_mem y hback)
    · exact hdisj start List.mem_cons_self x List.mem_cons_self (List.mem_singleton.1 hback).symm

theorem remove (h : Loop next prev start (l₁ ++ x :: l₂))
    (hnext : ∀ c ∈ start :: (l₁ ++ l₂), next' c = if c = prev x then next x else next c)
    (hprev : ∀ c ∈ start :: (l₁ ++ l₂), prev' c = if c = next x then prev x else prev c) :
    Loop next' prev' start (l₁ ++ l₂) := by
  have hx : x ∈ start :: (l₁ ++ x :: l₂) := by simp
  have hperm : (x :: start :: (l₁ ++ l₂)).Perm (start :: (l₁ ++ x :: l₂)) :=
    (@List.perm_middle _ x (start :: l₁) l₂).symm
  have hnodup := List.nodup_cons.1 (hperm.nodup_iff.2 h.nodup)
  refine ⟨hnodup.2, h.leads_remove hnext, ?_⟩
  intro c hc
  have hc' : c ∈ start :: (l₁ ++ x :: l₂) := hperm.mem_iff.1 (List.mem_cons_of_mem x hc)
  have hcx : c ≠ x := fun heq => hnodup.1 (heq ▸ hc)
  have hstay : ∀ y ∈ start :: (l₁ ++ x :: l₂), y ≠ x → y ∈ start :: (l₁ ++ l₂) := by
    intro y hy hne
    exact (List.mem_cons.1 (hperm.mem_iff.2 hy)).resolve_left hne
  rw [hnext c hc]
  by_cases heq : c = prev x
  · rw [if_pos heq, hprev _ (hstay _ (h.next_mem hx) (h.next_ne (by simp))), if_pos rfl, heq]
  · have hne : next c ≠ x := fun hnext => heq ((h.next_eq_iff hc' hx).1 hnext)
    rw [if_neg heq, hprev _ (hstay _ (h.next_mem hc') hne), if_neg, h.prev_next c hc']
    intro hsame
    apply hcx
    rw [← h.prev_next c hc', hsame, h.prev_next x hx]

theorem append (h : Loop next prev start l) (hx : x ∉ start :: l)
    (hnext : ∀ c ∈ start :: l, next' c = if c = prev start then x else next c)
    (hprev : ∀ c ∈ start :: l, prev' c = if c = start then x else prev c)
    (hnextx : next' x = start) (hprevx : prev' x = prev start) :
    Loop next' prev' start (l ++ [x]) := by
  have hstart : start ∈ start :: l := List.mem_cons_self
  refine ⟨?_, leads_append.2 ⟨?_, hnextx⟩, ?_⟩
  · rw [← List.cons_append]
    refine List.nodup_append.2 ⟨h.nodup, List.nodup_singleton x, ?_⟩
    rintro c hc d hd rfl
    exact hx (List.mem_singleton.1 hd ▸ hc)
  · refine h.leads.redirect h.nodup ?_ ?_ (List.nodup_cons.1 h.nodup).1
    · intro c hc heq
      rw [hnext c hc, if_pos ((h.next_eq_iff hc hstart).1 heq)]
    · intro c hc hneq
      rw [hnext c hc, if_neg fun heq => hneq ((h.next_eq_iff hc hstart).2 heq)]
  · intro c hc
    rcases List.mem_append.1 (show c ∈ start :: l ++ [x] from hc) with hc | hc
    · rw [hnext c hc]
      by_cases heq : c = prev start
      · rw [if_pos heq, hprevx, heq]
      · have hne : next c ≠ start := fun hnext => heq ((h.next_eq_iff hc hstart).1 hnext)
        rw [if_neg heq, hprev _ (h.next_mem hc), if_neg hne, h.prev_next c hc]
    · rw [List.mem_singleton.1 hc, hnextx, hprev start hstart, if_pos rfl]

end Loop

end ExactCover
