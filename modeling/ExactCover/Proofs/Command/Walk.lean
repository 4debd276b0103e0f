import ExactCover.Command.Tree
/-!
The walk that the program makes. As long as every directory can be opened, it lists all files below an
entry, depth first and siblings in the order of their names.
-/

namespace ExactCover.Entry

open Text

variable {path : String} {entries : List (String × Entry)}

def filesByName (path : String) (entries : List (String × Entry)) :
    List (String × List (String × Contents)) :=
  (entries.map fun child => (child.1, files (joinPath path child.1) child.2)).mergeSort
    fun a b => decide (a.1 ≤ b.1)

theorem filesOfEach_eq (path : String) (entries : List (String × Entry)) : filesOfEach path entries =
    entries.map fun child => (child.1, files (joinPath path child.1) child.2) := by
  induction entries with
  | nil => rfl
  | cons child entries ih =>
    obtain ⟨name, entry⟩ := child
    exact congrArg ((name, files (joinPath path name) entry) :: ·) ih

theorem files_directory (hshort : isTooLong path = false) (entries : List (String × Entry)) :
    files path (.directory entries) = (filesByName path entries).flatMap Prod.snd := by
  rw [files, hshort, filesOfEach_eq]
  rfl

theorem mem_filesByName {listed : String × List (String × Contents)} :
    listed ∈ filesByName path entries ↔
      ∃ child ∈ entries, (child.1, files (joinPath path child.1) child.2) = listed :=
  List.mem_mergeSort.trans List.mem_map

theorem pairwise_filesByName (hnodup : (entries.map Prod.fst).Nodup) :
    (filesByName path entries).Pairwise fun a b => a.1 < b.1 := by
  have hsorted : (filesByName path entries).Pairwise fun a b => decide (a.1 ≤ b.1) = true := by
    refine List.pairwise_mergeSort (fun a b c hab hbc => ?_) (fun a b => ?_) _
    · rw [decide_eq_true_eq] at hab hbc ⊢
      exact String.le_trans hab hbc
    · rw [Bool.or_eq_true, decide_eq_true_eq, decide_eq_true_eq]
      exact String.le_total a.1 b.1
  have hnames : ((filesByName path entries).map Prod.fst).Nodup := by
    have hperm := (List.mergeSort_perm
      (entries.map fun child => (child.1, files (joinPath path child.1) child.2))
      fun a b => decide (a.1 ≤ b.1)).map Prod.fst
    rw [List.map_map] at hperm
    exact hperm.nodup_iff.2 hnodup
  refine hsorted.imp₂ (fun a b hle hne => ?_) (List.pairwise_map.1 hnames)
  rw [decide_eq_true_eq] at hle
  exact Std.lt_of_le_of_ne hle hne

theorem lists_file (path : String) (contents : Contents) :
    Lists path (.file contents) [(path, contents)] where
  mem_iff file := by
    rw [List.mem_singleton]
    constructor
    · rintro rfl
      exact ⟨[], .here⟩
    · rintro ⟨names, hleads⟩
      cases hleads
      rfl
  ascending := List.pairwise_singleton _ _

theorem lists_directory (hnodup : (entries.map Prod.fst).Nodup) (hshort : isTooLong path = false)
    (hchildren : ∀ child ∈ entries, Lists (joinPath path child.1) child.2
      (files (joinPath path child.1) child.2)) :
    Lists path (.directory entries) (files path (.directory entries)) := by
  rw [files_directory hshort]
  constructor
  · intro file
    rw [List.mem_flatMap]
    constructor
    · rintro ⟨listed, hlisted, hfile⟩
      obtain ⟨child, hchild, rfl⟩ := mem_filesByName.1 hlisted
      obtain ⟨names, hleads⟩ := ((hchildren child hchild).mem_iff file).1 hfile
      exact ⟨child.1 :: names, .down hchild hleads⟩
    · rintro ⟨names, hleads⟩
      cases hleads with
      | @down _ name entry _ names _ hchild hleads =>
        exact ⟨_, mem_filesByName.2 ⟨_, hchild, rfl⟩,
          ((hchildren _ hchild).mem_iff file).2 ⟨names, hleads⟩⟩
  · refine List.pairwise_flatMap.2 ⟨?_, ?_⟩
    · rintro listed hlisted
      obtain ⟨child, hchild, rfl⟩ := mem_filesByName.1 hlisted
      refine (hchildren child hchild).ascending.imp ?_
      rintro file later ⟨names, others, hfile, hlater, hlt⟩
      exact ⟨child.1 :: names, child.1 :: others, .down hchild hfile, .down hchild hlater,
        List.cons_lt_cons_iff.2 (.inr ⟨rfl, hlt⟩)⟩
    · refine (pairwise_filesByName hnodup).imp_of_mem ?_
      rintro first second hfirst hsecond hlt file hfile later hlater
      obtain ⟨child, hchild, rfl⟩ := mem_filesByName.1 hfirst
      obtain ⟨other, hother, rfl⟩ := mem_filesByName.1 hsecond
      obtain ⟨names, hnames⟩ := ((hchildren child hchild).mem_iff file).1 hfile
      obtain ⟨others, hothers⟩ := ((hchildren other hother).mem_iff later).1 hlater
      exact ⟨child.1 :: names, other.1 :: others, .down hchild hnames, .down hother hothers,
        List.cons_lt_cons_iff.2 (.inl hlt)⟩

theorem Listable.lists_files {entry : Entry} (hlistable : Listable path entry)
    (hentry : entry.WellFormed) : Lists path entry (files path entry) := by
  induction hlistable with
  | @file path contents => exact lists_file path contents
  | @directory path entries hshort hchildren ih =>
    cases hentry with
    | directory hnodup hnames hwellFormed =>
      exact lists_directory hnodup hshort fun child hchild =>
        ih child hchild (hwellFormed child hchild)

end ExactCover.Entry
