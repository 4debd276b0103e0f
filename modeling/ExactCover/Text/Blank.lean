/-!
Blanks, lines and words. Blank means the White_Space property of the Unicode standard, so the next
line, the no-break space and the ideographic space are blank, while the zero-width space is not.
-/

namespace ExactCover.Text

/-- The ranges of the White_Space property. -/
def blankRanges : List (Nat × Nat) :=
  [(0x09, 0x0D), (0x20, 0x20), (0x85, 0x85), (0xA0, 0xA0), (0x1680, 0x1680), (0x2000, 0x200A),
   (0x2028, 0x2029), (0x202F, 0x202F), (0x205F, 0x205F), (0x3000, 0x3000)]

def inRanges (ranges : List (Nat × Nat)) (c : Char) : Bool :=
  ranges.any fun (first, last) => first ≤ c.toNat && c.toNat ≤ last

def isBlank (c : Char) : Bool := inRanges blankRanges c

theorem isBlank_of_isWhitespace (c : Char) (h : c.isWhitespace = true) : isBlank c = true := by
  simp only [Char.isWhitespace, Bool.or_eq_true, decide_eq_true_eq] at h
  rcases h with ((rfl | rfl) | rfl) | rfl <;> rfl

/-- Cuts at every element that `isMark` picks; the marks are dropped. There is one piece more than
there are marks. -/
def pieces {α : Type} (isMark : α → Bool) (text : List α) : List (List α) :=
  text.foldr (fun a rest =>
    if isMark a then [] :: rest
    else match rest with
      | [] => [[a]]
      | piece :: rest => (a :: piece) :: rest) [[]]

def dropEnd {α : Type} [DecidableEq α] (mark : α) (line : List α) : List α :=
  if line.getLast? = some mark then line.dropLast else line

/-- The lines of a text: each ends at a line feed, and a carriage return right before it goes too.
What follows the last line feed is a line if it is not empty. -/
def lines {α : Type} [DecidableEq α] (lineFeed carriageReturn : α) (text : List α) :
    List (List α) :=
  let parts := pieces (· == lineFeed) text
  let rest := parts.getLast?.getD []
  parts.dropLast.map (dropEnd carriageReturn) ++ if rest.isEmpty then [] else [rest]

def trim (text : List Char) : List Char :=
  ((text.dropWhile isBlank).reverse.dropWhile isBlank).reverse

def words (text : List Char) : List (List Char) :=
  (pieces isBlank text).filter fun word => !word.isEmpty

end ExactCover.Text
