import ExactCover.Text.Blank
/-!
Text as it comes from outside: bytes that may or may not be UTF-8, from a place that may or may not
be readable.
-/

namespace ExactCover.Text

inductive SourceError
  | missing
  | isDirectory
  | notDirectory
  | denied
  | nameTooLong
  | notUtf8
deriving DecidableEq, Repr

def SourceError.message : SourceError → String
  | missing => "No such file or directory (os error 2)"
  | isDirectory => "Is a directory (os error 21)"
  | notDirectory => "Not a directory (os error 20)"
  | denied => "Permission denied (os error 13)"
  | nameTooLong => "File name too long (os error 36)"
  | notUtf8 => "stream did not contain valid UTF-8"

/-- What a file holds, or why it cannot be opened. -/
abbrev Contents := Except SourceError (List UInt8)

instance : Coe (List UInt8) Contents := ⟨.ok⟩

/-- The characters that the bytes encode; `none` if they are not UTF-8. -/
def decode (bytes : List UInt8) : Option (List Char) :=
  (String.fromUTF8? (ByteArray.mk bytes.toArray)).map String.toList

def textLines (text : List Char) : List (List Char) := lines '\n' '\r' text

/-- The lines of an encoded text, decoded one by one; `none` stands for a line that is not UTF-8. -/
def byteLines (bytes : List UInt8) : List (Option (List Char)) :=
  (lines 0x0A 0x0D bytes).map decode

end ExactCover.Text
