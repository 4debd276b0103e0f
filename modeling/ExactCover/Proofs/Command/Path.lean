import ExactCover.Command.Tree
import ExactCover.Proofs.Text.Pieces
/-!
Where paths lead. A name joined to the path of a directory leads to what the directory holds under it,
and so does every way of names further down, as long as the path is not too long to be looked up.
-/

namespace ExactCover

open Text

theorem endsWith_slash_iff {path : String} :
    path.endsWith "/" = true ↔ ∃ text, path.toList = text ++ ['/'] := by
  rw [← String.endsWith_toSlice, String.Slice.endsWith_string_iff, String.copy_toSlice]
  exact ⟨fun ⟨text, htext⟩ => ⟨text, htext.symm⟩, fun ⟨text, htext⟩ => ⟨text, htext.symm⟩⟩

/-- The steps of a joined path are those of the directory and then the name; a slash at the end of the
directory's path, which is an empty step there, is not doubled. -/
theorem pieces_joinPath {path name : String} (hname : '/' ∉ name.toList) : ∃ steps,
    pieces (· == '/') (joinPath path name).toList = steps ++ [name.toList] ∧
    (pieces (· == '/') path.toList = steps ∨ pieces (· == '/') path.toList = steps ++ [[]]) := by
  have hlast : pieces (· == '/') name.toList = [name.toList] :=
    pieces_of_forall fun c hc => beq_false_of_ne fun h => hname (h ▸ hc)
  by_cases hslash : path.endsWith "/" = true
  · obtain ⟨text, htext⟩ := endsWith_slash_iff.1 hslash
    refine ⟨pieces (· == '/') text, ?_, .inr ?_⟩
    · rw [joinPath, if_pos hslash, String.toList_append, htext, List.append_assoc,
        List.singleton_append, pieces_append_mark rfl, hlast]
    · rw [htext, pieces_append_mark rfl]
      rfl
  · refine ⟨pieces (· == '/') path.toList, ?_, .inl rfl⟩
    have htext : ("/" : String).toList = ['/'] := rfl
    rw [joinPath, if_neg hslash, String.toList_append, String.toList_append, htext,
      List.append_assoc, List.singleton_append, pieces_append_mark rfl, hlast]

theorem exists_joinPath_eq (path name : String) :
    ∃ slash : String, slash.utf8ByteSize ≤ 1 ∧ joinPath path name = path ++ (slash ++ name) := by
  unfold joinPath
  split
  case isTrue => exact ⟨"", Nat.zero_le 1, by rw [String.empty_append]⟩
  case isFalse => exact ⟨"/", Nat.le_refl 1, String.append_assoc⟩

theorem utf8ByteSize_le_joinPath (path name : String) :
    path.utf8ByteSize ≤ (joinPath path name).utf8ByteSize := by
  obtain ⟨slash, -, hjoin⟩ := exists_joinPath_eq path name
  rw [hjoin, String.utf8ByteSize_append]
  exact Nat.le_add_right _ _

theorem isTooLong_joinPath {path : String} (name : String) (h : isTooLong path = true) :
    isTooLong (joinPath path name) = true :=
  decide_eq_true (Nat.lt_of_lt_of_le (of_decide_eq_true h) (utf8ByteSize_le_joinPath path name))

theorem isTooLong_joinPath_eq_false {path name : String}
    (h : path.utf8ByteSize + 1 + name.utf8ByteSize ≤ pathLimit) :
    isTooLong (joinPath path name) = false := by
  obtain ⟨slash, hslash, hjoin⟩ := exists_joinPath_eq path name
  refine decide_eq_false ?_
  rw [hjoin, String.utf8ByteSize_append, String.utf8ByteSize_append]
  omega

theorem startsWith_slash_joinPath {path : String} (name : String) (hne : path ≠ "") :
    (joinPath path name).startsWith "/" = path.startsWith "/" := by
  obtain ⟨slash, -, hjoin⟩ := exists_joinPath_eq path name
  rw [hjoin, Bool.eq_iff_iff, String.startsWith_string_iff, String.startsWith_string_iff,
    String.toList_append]
  cases htext : path.toList with
  | nil => exact absurd (String.toList_eq_nil_iff.1 htext) hne
  | cons c text => simp

theorem joinPath_ne_empty {path name : String} (hne : path ≠ "") : joinPath path name ≠ "" := by
  intro h
  have hle := utf8ByteSize_le_joinPath path name
  rw [h, String.utf8ByteSize_empty] at hle
  exact hne (String.utf8ByteSize_eq_zero_iff.1 (Nat.le_zero.1 hle))

namespace Entry

variable {above : List Entry} {here : Entry} {steps : List String}
  {entries : List (String × Entry)} {name : String} {child : Entry}

theorem child?_of_mem (hnodup : (entries.map Prod.fst).Nodup) (hmem : (name, child) ∈ entries) :
    (Entry.directory entries).child? name = some child := by
  have hfind : entries.find? (fun entry => entry.1 == name) = some (name, child) := by
    induction entries with
    | nil => cases hmem
    | cons entry entries ih =>
      obtain ⟨hnot, hnodup⟩ := List.nodup_cons.1 hnodup
      rcases List.mem_cons.1 hmem with rfl | hmem
      · exact List.find?_cons_of_pos (beq_self_eq_true name)
      · have hne : entry.1 ≠ name := fun h => hnot (List.mem_map.2 ⟨_, hmem, h.symm⟩)
        rw [List.find?_cons_of_neg (by simpa using hne)]
        exact ih hnodup hmem
  exact congrArg (Option.map Prod.snd) hfind

theorem follow_cons (above : List Entry) (entries : List (String × Entry)) (step : String)
    (steps : List String) : follow above (.directory entries) (step :: steps) =
      if step = "" || step = "." then follow above (.directory entries) steps
      else if step = ".." then
        match above with
        | [] => .error .missing
        | parent :: above => follow above parent steps
      else if nameLimit < step.utf8ByteSize then .error .nameTooLong
      else match (Entry.directory entries).child? step with
        | some next => follow (.directory entries :: above) next steps
        | none => .error .missing := by
  cases above <;> rfl

/-- A step that does not go up depends on nothing but where the steps before it lead. -/
theorem follow_concat {last : String} (hlast : last ≠ "..") :
    follow above here (steps ++ [last]) =
      (follow above here steps).bind fun entry => follow [] entry [last] := by
  fun_induction follow above here steps with
  | case1 above here =>
    change _ = follow [] here [last]
    cases here with
    | file => rfl
    | directory entries => simp [follow, hlast]
  | case2 => rfl
  | case3 above step steps entries hstay ih =>
    rw [List.cons_append, follow_cons, if_pos hstay]
    exact ih
  | case4 steps entries hstay =>
    rw [List.cons_append, follow_cons, if_neg hstay, if_pos rfl]
    rfl
  | case5 steps entries parent above hstay ih =>
    rw [List.cons_append, follow_cons, if_neg hstay, if_pos rfl]
    exact ih
  | case6 above step steps entries hstay hup hlong =>
    rw [List.cons_append, follow_cons, if_neg hstay, if_neg hup, if_pos hlong]
    rfl
  | case7 above step steps entries hstay hup hlong next hnext ih =>
    rw [List.cons_append, follow_cons, if_neg hstay, if_neg hup, if_neg hlong, hnext]
    exact ih
  | case8 above step steps entries hstay hup hlong hnext =>
    rw [List.cons_append, follow_cons, if_neg hstay, if_neg hup, if_neg hlong, hnext]
    rfl

theorem follow_concat_name (hname : IsName name)
    (hchild : (Entry.directory entries).child? name = some child)
    (hfollow : follow above here steps = .ok (.directory entries)) :
    follow above here (steps ++ [name]) = .ok child := by
  rw [follow_concat hname.ne_above, hfollow]
  change follow [] (.directory entries) [name] = .ok child
  have hlong : ¬ nameLimit < name.utf8ByteSize := Nat.not_lt.2 hname.le_limit
  simp [follow, hname.ne_empty, hname.ne_same, hname.ne_above, hlong, hchild]

theorem follow_of_concat_empty
    (hfollow : follow above here (steps ++ [""]) = .ok (.directory entries)) :
    follow above here steps = .ok (.directory entries) := by
  rw [follow_concat (by decide)] at hfollow
  cases hentry : follow above here steps with
  | error cause =>
    rw [hentry] at hfollow
    cases hfollow
  | ok entry =>
    rw [hentry] at hfollow
    cases entry with
    | file => cases hfollow
    | directory => exact hfollow

theorem WellFormed.of_child? (hhere : here.WellFormed) (hchild : here.child? name = some child) :
    child.WellFormed := by
  cases hhere with
  | file => cases hchild
  | directory hnodup hnames hchildren =>
    obtain ⟨entry, hfind, rfl⟩ := Option.map_eq_some_iff.1 hchild
    exact hchildren _ (List.mem_of_find?_eq_some hfind)

theorem WellFormed.follow {found : Entry} (habove : ∀ entry ∈ above, entry.WellFormed)
    (hhere : here.WellFormed) (hfollow : follow above here steps = .ok found) :
    found.WellFormed := by
  fun_induction Entry.follow above here steps with
  | case1 above here => exact Except.ok.inj hfollow ▸ hhere
  | case2 | case4 | case6 => cases hfollow
  | case8 above step steps entries hstay hup hlong hnext =>
    rw [hnext] at hfollow
    cases hfollow
  | case3 above step steps entries hstay ih => exact ih habove hhere hfollow
  | case5 steps entries parent above hstay ih =>
    obtain ⟨hparent, habove⟩ := List.forall_mem_cons.1 habove
    exact ih habove hparent hfollow
  | case7 above step steps entries hstay hup hlong next hnext ih =>
    rw [hnext] at hfollow
    exact ih (List.forall_mem_cons.2 ⟨hhere, habove⟩) (hhere.of_child? hnext) hfollow

def start (here : Entry) (path : String) : Entry :=
  if path.startsWith "/" then .directory [] else here

theorem find_eq_ok_iff {path : String} {found : Entry} : here.find path = .ok found ↔
    isTooLong path = false ∧ path ≠ "" ∧ follow [] (here.start path)
      ((pieces (· == '/') path.toList).map String.ofList) = .ok found := by
  unfold find
  by_cases hlong : isTooLong path = true
  · simp [hlong]
  · by_cases hempty : path.isEmpty = true
    · have heq : path = "" := String.isEmpty_iff.1 hempty
      simp only [hlong, hempty, if_true]
      exact ⟨fun h => (nomatch h), fun h => absurd heq h.2.1⟩
    · have hne : path ≠ "" := fun h => hempty (String.isEmpty_iff.2 h)
      simp [hlong, hne, start]

theorem WellFormed.find {path : String} {found : Entry} (hhere : here.WellFormed)
    (hfind : here.find path = .ok found) : found.WellFormed := by
  have hstart : (here.start path).WellFormed := by
    unfold start
    split
    case isTrue =>
      exact .directory .nil (fun _ h => absurd h List.not_mem_nil)
        fun _ h => absurd h List.not_mem_nil
    case isFalse => exact hhere
  exact hstart.follow (fun _ h => absurd h List.not_mem_nil) (find_eq_ok_iff.1 hfind).2.2

/-- A joined path leads to what the directory holds under the name. -/
theorem find_joinPath {path : String} (hname : IsName name)
    (hchild : (Entry.directory entries).child? name = some child)
    (hfind : here.find path = .ok (.directory entries))
    (hshort : isTooLong (joinPath path name) = false) :
    here.find (joinPath path name) = .ok child := by
  obtain ⟨-, hne, hfollow⟩ := find_eq_ok_iff.1 hfind
  obtain ⟨steps, hjoined, hpath⟩ := pieces_joinPath hname.slash_not_mem
  have hstart : here.start (joinPath path name) = here.start path := by
    rw [start, startsWith_slash_joinPath name hne, start]
  have hsteps : follow [] (here.start path) (steps.map String.ofList) = .ok (.directory entries) := by
    rcases hpath with hpath | hpath
    · rwa [hpath] at hfollow
    · rw [hpath, List.map_append] at hfollow
      exact follow_of_concat_empty hfollow
  refine find_eq_ok_iff.2 ⟨hshort, joinPath_ne_empty hne, ?_⟩
  rw [hstart, hjoined, List.map_append, List.map_singleton, String.ofList_toList]
  exact follow_concat_name hname hchild hsteps

/-- The way down from a directory is the way that its files' own paths take. -/
theorem LeadsTo.find {path : String} {entry : Entry} {names : List String}
    {file : String × Contents} (hleads : LeadsTo path entry names file) (hentry : entry.WellFormed)
    (hfind : isTooLong path = false → here.find path = .ok entry) :
    here.find file.1 = if isTooLong file.1 then .error .nameTooLong else .ok (.file file.2) := by
  induction hleads with
  | @here path contents =>
    by_cases hlong : isTooLong path = true
    · rw [if_pos hlong, Entry.find, if_pos hlong]
    · rw [if_neg hlong]
      exact hfind (Bool.eq_false_iff.2 hlong)
  | @down path name entry entries names file hmem hleads ih =>
    cases hentry with
    | directory hnodup hnames hchildren =>
      refine ih (hchildren _ hmem) fun hshort => ?_
      have hpath : isTooLong path = false :=
        Bool.eq_false_iff.2 fun hlong => Bool.eq_false_iff.1 hshort (isTooLong_joinPath name hlong)
      exact find_joinPath (hnames _ hmem) (child?_of_mem hnodup hmem) (hfind hpath) hshort

end Entry

end ExactCover
