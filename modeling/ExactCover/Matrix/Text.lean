import ExactCover.Matrix.Construct
import ExactCover.Text.Quoted
import ExactCover.Text.Source
/-!
A matrix as text. Written, a row is a line of zeros and ones. Read, a line may also hold commas,
square brackets and blanks between the entries; blank lines and comments (`c` or `#` in front) are
skipped, and a line that holds only `%` ends the matrix, whatever follows.
-/

namespace ExactCover

open Text

namespace Matrix

def toText (m : Matrix) : List Char :=
  m.dense.flatMap fun bits => bits.map (fun bit => if bit then '1' else '0') ++ ['\n']

def display (m : Matrix) : String := String.ofList m.toText

inductive ParseError
  | unreadable (cause : SourceError)
  | invalidCharacter (line : Nat) (character : Char)
  | shape (cause : MatrixError)
deriving DecidableEq, Repr

def ParseError.message : ParseError → String
  | unreadable cause => s!"failed to read matrix: {cause.message}"
  | invalidCharacter line character =>
    let quoted := quotedChar character
    s!"line {line}: unexpected character {quoted}"
  | shape cause => cause.message

def isSkipped : List Char → Bool
  | [] => true
  | c :: _ => c == 'c' || c == '#'

def isEnd (line : List Char) : Bool := line == ['%']

def isFiller (c : Char) : Bool := c == ',' || c == '[' || c == ']' || isBlank c

/-- The entries of a trimmed line, or its first character that has no place in a row. -/
def entries : List Char → Except Char (List Bool)
  | [] => .ok []
  | c :: rest =>
    if c = '0' then (entries rest).map (false :: ·)
    else if c = '1' then (entries rest).map (true :: ·)
    else if isFiller c then entries rest
    else .error c

/-- The rows on the lines from number `line` on; `none` stands for a line that cannot be read. -/
def readRows (line : Nat) : List (Option (List Char)) → Except ParseError (List (List Bool))
  | [] => .ok []
  | none :: _ => .error (.unreadable .notUtf8)
  | some text :: rest =>
    let trimmed := trim text
    if isSkipped trimmed then readRows (line + 1) rest
    else if isEnd trimmed then .ok []
    else match entries trimmed with
      | .error character => .error (.invalidCharacter line character)
      | .ok row => (readRows (line + 1) rest).map fun rows => if row.isEmpty then rows else row :: rows

/-- Reads the rows, then checks their shape. -/
def ofLines (lines : List (Option (List Char))) : Except ParseError Matrix :=
  match readRows 1 lines with
  | .error error => .error error
  | .ok rows => (ofDense rows).mapError .shape

def parse (text : List Char) : Except ParseError Matrix := ofLines ((textLines text).map some)

/-- Reads a matrix from bytes, line by line: a line that is not UTF-8 does no harm after the end. -/
def parseBytes (bytes : List UInt8) : Except ParseError Matrix := ofLines (byteLines bytes)

def parseContents : Contents → Except ParseError Matrix
  | .ok bytes => parseBytes bytes
  | .error cause => .error (.unreadable cause)

end Matrix

end ExactCover
