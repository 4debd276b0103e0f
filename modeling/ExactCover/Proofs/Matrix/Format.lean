import ExactCover.Matrix.Text
import ExactCover.Proofs.Text.Lines
/-!
The format of a matrix text, apart from the way it is read. The lines before the end mark are looked
at one by one; the first that cannot stand there decides, and where there is none the entries of all of
them are the rows of the matrix.
-/

namespace ExactCover

open Text

namespace Matrix

def isEndMark : Option (List Char) → Bool
  | none => false
  | some text => trim text == ['%']

/-- The lines before the first end mark; all lines if there is none. -/
def dataLines (lines : List (Option (List Char))) : List (Option (List Char)) :=
  lines.takeWhile fun line => !isEndMark line

/-- Blank, or a comment: its first character that is not blank is `c` or `#`. -/
def isNote (text : List Char) : Bool :=
  match text.find? fun c => !isBlank c with
  | none => true
  | some c => c == 'c' || c == '#'

def bit? : Char → Option Bool
  | '0' => some false
  | '1' => some true
  | _ => none

def isAllowed (c : Char) : Bool := ['0', '1', ',', '[', ']'].contains c || isBlank c

def lineError? (number : Nat) : Option (List Char) → Option ParseError
  | none => some (.unreadable .notUtf8)
  | some text =>
    if isNote text then none
    else (text.find? fun c => !isAllowed c).map fun c => .invalidCharacter number c

/-- What is wrong with the first line that cannot stand where it does; the lines are numbered from
`number` on. -/
def firstError? (number : Nat) (lines : List (Option (List Char))) : Option ParseError :=
  (lines.zipIdx number).findSome? fun (line, number) => lineError? number line

def lineEntries : Option (List Char) → List Bool
  | none => []
  | some text => if isNote text then [] else text.filterMap bit?

/-- The rows on the lines; a line without entries is none. -/
def lineRows (lines : List (Option (List Char))) : List (List Bool) :=
  (lines.map lineEntries).filter fun row => !row.isEmpty

theorem dataLines_cons (line : Option (List Char)) (lines : List (Option (List Char))) :
    dataLines (line :: lines) = if isEndMark line then [] else line :: dataLines lines := by
  rw [dataLines, List.takeWhile_cons]
  cases isEndMark line <;> rfl

theorem firstError?_cons (number : Nat) (line : Option (List Char))
    (lines : List (Option (List Char))) : firstError? number (line :: lines) =
      (lineError? number line).or (firstError? (number + 1) lines) := by
  simp only [firstError?, List.zipIdx_cons, List.findSome?_cons]
  cases lineError? number line <;> rfl

theorem lineRows_cons (line : Option (List Char)) (lines : List (Option (List Char))) :
    lineRows (line :: lines) =
      if (lineEntries line).isEmpty then lineRows lines else lineEntries line :: lineRows lines := by
  rw [lineRows, List.map_cons, List.filter_cons]
  cases (lineEntries line).isEmpty <;> rfl

theorem isSkipped_trim (text : List Char) : isSkipped (trim text) = isNote text := by
  rw [isNote, ← head?_trim]
  cases trim text <;> rfl

theorem isAllowed_of_isBlank {c : Char} (h : isBlank c = true) : isAllowed c = true := by
  simp [isAllowed, h]

theorem bit?_of_isFiller {c : Char} (h : isFiller c = true) : bit? c = none := by
  unfold bit?
  split
  case h_1 => cases h
  case h_2 => cases h
  case h_3 => rfl

/-- A line is read up to the first character that must not stand on it. -/
theorem entries_eq (text : List Char) : entries text =
    match text.find? fun c => !isAllowed c with
    | some c => .error c
    | none => .ok (text.filterMap bit?) := by
  induction text with
  | nil => rfl
  | cons c rest ih =>
    rw [entries, ih, List.find?_cons, List.filterMap_cons]
    by_cases hzero : c = '0'
    · subst hzero
      cases rest.find? fun c => !isAllowed c <;> rfl
    by_cases hone : c = '1'
    · subst hone
      cases rest.find? fun c => !isAllowed c <;> rfl
    rw [if_neg hzero, if_neg hone]
    have hallowed : isAllowed c = isFiller c := by
      rw [Bool.eq_iff_iff]
      simp [isAllowed, isFiller, hzero, hone, or_assoc]
    rw [hallowed]
    cases hfiller : isFiller c with
    | true =>
      rw [bit?_of_isFiller hfiller]
      rfl
    | false => rfl

theorem entries_trim (text : List Char) : entries (trim text) = entries text := by
  have hallowed : ∀ c, isBlank c = true → (!isAllowed c) = false := by
    intro c hc
    rw [isAllowed_of_isBlank hc, Bool.not_true]
  have hbit : ∀ c, isBlank c = true → bit? c = none :=
    fun c hc => bit?_of_isFiller (by simp [isFiller, hc])
  rw [entries_eq, entries_eq, find?_trim hallowed, filterMap_trim hbit]

/-- Reading stops at the first line that cannot stand where it does, or before the end mark. -/
theorem readRows_eq (number : Nat) (lines : List (Option (List Char))) :
    readRows number lines =
      match firstError? number (dataLines lines) with
      | some error => .error error
      | none => .ok (lineRows (dataLines lines)) := by
  induction lines generalizing number with
  | nil => rfl
  | cons line lines ih =>
    cases line with
    | none => rfl
    | some text =>
      rw [readRows, isSkipped_trim, entries_trim, entries_eq, ih, dataLines_cons]
      by_cases hend : trim text = ['%']
      -- The end mark is neither blank nor a comment, so it is met as what it is.
      · have hmark : isEndMark (some text) = true := beq_iff_eq.2 hend
        have hnote : isNote text = false := by
          rw [← isSkipped_trim, hend]
          rfl
        rw [hmark, hnote, hend]
        rfl
      · have hmark : isEndMark (some text) = false := beq_eq_false_iff_ne.2 hend
        have hnot : isEnd (trim text) = false := hmark
        simp only [hmark, hnot, Bool.false_eq_true, if_false, firstError?_cons, lineError?,
          lineRows_cons, lineEntries]
        by_cases hnote : isNote text = true
        · simp only [hnote, if_true]
          rfl
        · simp only [hnote, Bool.false_eq_true, if_false]
          cases text.find? fun c => !isAllowed c with
          | some c => rfl
          | none => cases firstError? (number + 1) (dataLines lines) <;> rfl

theorem parseBytes_eq (bytes : List UInt8) : parseBytes bytes =
    match firstError? 1 (dataLines (byteLines bytes)) with
    | some error => .error error
    | none => (ofDense (lineRows (dataLines (byteLines bytes)))).mapError .shape := by
  rw [parseBytes, ofLines, readRows_eq]
  cases firstError? 1 (dataLines (byteLines bytes)) <;> rfl

/-- The lines of bytes: each up to a line feed, with one carriage return before it dropped, and what is
left behind the last one. -/
theorem byteLines_flatMap {raws : List (List UInt8)} {last : List UInt8}
    (hraws : ∀ raw ∈ raws, 0x0A ∉ raw) (hlast : 0x0A ∉ last) :
    byteLines (raws.flatMap (· ++ [0x0A]) ++ last) =
      raws.map (fun raw => decode (dropEnd 0x0D raw)) ++ if last = [] then [] else [decode last] := by
  rw [byteLines, lines_flatMap hraws hlast, List.map_append, List.map_map]
  congr 1
  split <;> rfl

theorem dataLines_append {line : Option (List Char)} (hline : isEndMark line = true)
    (before after : List (Option (List Char))) :
    dataLines (before ++ line :: after) = dataLines before := by
  induction before with
  | nil => rw [List.nil_append, dataLines_cons, hline]; rfl
  | cons first before ih =>
    rw [List.cons_append, dataLines_cons, dataLines_cons, ih]

/-- Nothing after the end mark matters, whatever bytes it is. -/
theorem parseBytes_append {before raw : List UInt8}
    (hbefore : before = [] ∨ before.getLast? = some 0x0A) (hraw : 0x0A ∉ raw)
    (hend : isEndMark (decode (dropEnd 0x0D raw)) = true) (rest : List UInt8) :
    parseBytes (before ++ (raw ++ 0x0A :: rest)) = parseBytes before := by
  have hlines : dataLines (byteLines (before ++ (raw ++ 0x0A :: rest))) =
      dataLines (byteLines before) := by
    rw [byteLines, lines_append hbefore, lines_cons hraw, List.map_append, List.map_cons,
      dataLines_append hend]
    rfl
  rw [parseBytes_eq, parseBytes_eq, hlines]

/-- Bytes are a matrix exactly if they have its format. They are cut into lines; the first line before
the end mark that is not UTF-8, or that holds a character which must not stand there, is the error, by
its number and that character; without one, the entries are the rows of the matrix, whose shape is then
checked. What follows the end mark is not looked at. -/
theorem parseBytes_reads_format :
    (∀ (raws : List (List UInt8)) (last : List UInt8), (∀ raw ∈ raws, 0x0A ∉ raw) → 0x0A ∉ last →
      byteLines (raws.flatMap (· ++ [0x0A]) ++ last) =
        raws.map (fun raw => decode (dropEnd 0x0D raw)) ++
          if last = [] then [] else [decode last]) ∧
    (∀ bytes, parseBytes bytes =
      match firstError? 1 (dataLines (byteLines bytes)) with
      | some error => .error error
      | none => (ofDense (lineRows (dataLines (byteLines bytes)))).mapError .shape) ∧
    ∀ before raw rest, before = [] ∨ before.getLast? = some 0x0A → 0x0A ∉ raw →
      isEndMark (decode (dropEnd 0x0D raw)) = true →
      parseBytes (before ++ (raw ++ 0x0A :: rest)) = parseBytes before := by
  refine ⟨fun raws last => byteLines_flatMap, parseBytes_eq, ?_⟩
  exact fun before raw rest hbefore hraw hend => parseBytes_append hbefore hraw hend rest

-- One row, the end mark, and a byte that is not UTF-8.
example : parseBytes [0x31, 0x2C, 0x30, 0x0D, 0x0A, 0x25, 0x0A, 0xFF] =
    (ofDense [[true, false]]).mapError .shape := by
  decide +kernel

end Matrix

end ExactCover
