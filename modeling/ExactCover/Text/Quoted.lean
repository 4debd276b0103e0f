import ExactCover.Text.GraphemeExtend
import ExactCover.Text.Unprintable
/-!
Characters and strings between quotes, for messages: what cannot be seen, or would join the quote
before it, is written as an escape.
-/

namespace ExactCover.Text

/-- The Hangul fillers: letters for which nothing is drawn. -/
def isHangulFiller (c : Char) : Bool :=
  inRanges [(0x115F, 0x1160), (0x3164, 0x3164), (0xFFA0, 0xFFA0)] c

/-- The halfwidth sound marks of katakana: they extend the character before them, but take a place
of their own. -/
def isHalfwidthSoundMark (c : Char) : Bool := inRanges [(0xFF9E, 0xFF9F)] c

/-- Whether a character cannot be told behind a quote, because nothing is drawn for it or because it
joins the quote. -/
def isHidden (c : Char) : Bool :=
  isUnprintable c || isHangulFiller c || (isGraphemeExtend c && !isHalfwidthSoundMark c)

def codePointEscape (c : Char) : List Char :=
  '\\' :: 'u' :: '\x7b' :: Nat.toDigits 16 c.toNat ++ ['\x7d']

def escape (quote c : Char) : List Char :=
  if c = '\x00' then ['\\', '0']
  else if c = '\t' then ['\\', 't']
  else if c = '\n' then ['\\', 'n']
  else if c = '\r' then ['\\', 'r']
  else if c = '\\' || c = quote then ['\\', c]
  else if isHidden c then codePointEscape c
  else [c]

def quotedChar (c : Char) : String := String.ofList ('\'' :: escape '\'' c ++ ['\''])

def quotedString (text : List Char) : String :=
  String.ofList ('"' :: text.flatMap (escape '"') ++ ['"'])

end ExactCover.Text
