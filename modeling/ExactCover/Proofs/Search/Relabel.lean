import Mathlib.Order.Monotone.Basic
import ExactCover.Proofs.Search.Plain
/-!
New names for columns and rows. The plain search compares columns only by their order, and row
numbers not at all, so a renaming that keeps the order of the columns renames the rows that the
search finds and changes nothing else.
-/

namespace ExactCover

def LiveRow.relabel (f g : Nat → Nat) (live : LiveRow) : LiveRow where
  row := g live.row
  ones := live.ones.map f

namespace Remainder

def relabel (f g : Nat → Nat) (p : Remainder) : Remainder where
  columns := p.columns.map f
  rows := p.rows.map (LiveRow.relabel f g)

def renamed (g : Nat → Nat) (result : Stats × Option (List Nat)) : Stats × Option (List Nat) :=
  (result.1, result.2.map (List.map g))

variable {f g : Nat → Nat} (hf : StrictMono f) {p : Remainder} {live : LiveRow} {column : Nat}

section Level

include hf

theorem contains_map (l : List Nat) (a : Nat) : (l.map f).contains (f a) = l.contains a := by
  rw [Bool.eq_iff_iff, List.contains_iff_mem, List.contains_iff_mem, List.mem_map_of_injective hf.injective]

theorem candidates_relabel :
    (p.relabel f g).candidates (f column) = (p.candidates column).map (LiveRow.relabel f g) := by
  apply filter_map_of
  intro live _
  exact contains_map hf live.ones column

theorem strike_relabel : (p.relabel f g).strike (f column) = (p.strike column).relabel f g := by
  simp only [strike, relabel, mk.injEq]
  constructor <;> apply filter_map_of
  · intro other _
    simp [bne, hf.injective.eq_iff]
  · intro live _
    exact congrArg (!·) (contains_map hf live.ones column)

theorem select_relabel :
    (p.relabel f g).select (live.relabel f g) = (p.select live).relabel f g := by
  simp only [select, relabel, mk.injEq]
  constructor <;> apply filter_map_of
  · intro other _
    exact congrArg (!·) (contains_map hf live.ones other)
  · intro other _
    simp only [LiveRow.relabel, List.any_map, Function.comp_def, contains_map hf]

theorem cost_relabel : (p.relabel f g).cost (f column) = p.cost column := by
  rw [cost, candidates_relabel hf, List.map_map, cost]
  congr 2
  apply List.map_congr_left
  intro live _
  simp [LiveRow.relabel]

theorem costAll_relabel (columns : List Nat) :
    (p.relabel f g).costAll (columns.map f) = p.costAll columns := by
  induction columns generalizing p with
  | nil => rfl
  | cons column columns ih =>
    rw [List.map_cons, costAll, cost_relabel hf, strike_relabel hf, ih, costAll]

theorem others_relabel : others (live.relabel f g) (f column) = (others live column).map f := by
  simp only [others, LiveRow.relabel, List.map_append]
  congr 1 <;> exact filter_map_of fun other _ => by simp [hf.lt_iff_lt]

theorem pick_relabel (selector : Selector) :
    (p.relabel f g).pick selector = (p.pick selector).map f := by
  cases selector with
  | leftmost => exact List.head?_map
  | minimumRemaining =>
    rw [pick, pick, relabel, List.find?_map]
    congr 2
    funext column
    rw [Function.comp_apply, List.all_map]
    congr 1
    funext other
    have hcount : ∀ c, ((p.relabel f g).candidates (f c)).length = (p.candidates c).length := by
      intro c
      rw [candidates_relabel hf, List.length_map]
    rw [Function.comp_apply]
    exact decide_eq_decide.2 (by rw [← hcount, ← hcount]; rfl)

end Level

theorem tryRows_relabel {descend descend' : LiveRow → Stats → Stats × Option (List Nat)}
    {lives : List LiveRow}
    (h : ∀ live ∈ lives, ∀ stats, descend' (live.relabel f g) stats = renamed g (descend live stats))
    (stats : Stats) :
    tryRows descend' (lives.map (LiveRow.relabel f g)) stats =
      renamed g (tryRows descend lives stats) := by
  induction lives generalizing stats with
  | nil => rfl
  | cons live lives ih =>
    rw [List.map_cons, tryRows, tryRows, h live List.mem_cons_self]
    generalize descend live stats = result
    obtain ⟨after, found⟩ := result
    cases found with
    | some rows => rfl
    | none => exact ih (fun l hl => h l (List.mem_cons_of_mem live hl)) after.backtrack

include hf in
/-- The search goes through the same partial solutions, whatever the columns and rows are called. -/
theorem search_relabel (selector : Selector) (levels depth : Nat) (p : Remainder) (stats : Stats) :
    search selector levels depth (p.relabel f g) stats =
      renamed g (search selector levels depth p stats) := by
  induction levels generalizing depth p stats with
  | zero => rfl
  | succ levels ih =>
    have hpick' := @pick_relabel f g hf p selector
    cases hpick : p.pick selector with
    | none =>
      rw [hpick, Option.map_none] at hpick'
      rw [search_solved hpick', search_solved hpick]
      rfl
    | some column =>
      rw [hpick, Option.map_some] at hpick'
      have hcandidates := @candidates_relabel f g hf p column
      by_cases hnone : p.candidates column = []
      · rw [hnone, List.map_nil] at hcandidates
        rw [search_deadEnd hpick' hcandidates, search_deadEnd hpick hnone]
        rfl
      · have hsome : (p.relabel f g).candidates (f column) ≠ [] := by
          rw [hcandidates]
          exact fun hnil => hnone (List.map_eq_nil_iff.1 hnil)
        rw [search_branch hpick' hsome, search_branch hpick hnone, hcandidates, cost_relabel hf]
        apply tryRows_relabel
        intro live _ stats
        rw [select_relabel hf, others_relabel hf, strike_relabel hf, costAll_relabel hf]
        exact ih _ _ _

end Remainder

end ExactCover
