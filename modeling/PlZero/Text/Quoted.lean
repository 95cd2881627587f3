import PlZero.Text.DefaultIgnorable
import PlZero.Text.GraphemeExtend
import PlZero.Text.Unprintable

/-!
Quoted text: a text between two quotes, on one line and free of characters that cannot be seen.
A tab, carriage return, line feed or zero is written by its letter, a backslash and the enclosing
quote by themselves after a backslash, and any other character that is unprintable, may be passed
over by a display or would attach itself to its neighbour by its code point in hexadecimal digits
between braces.
-/

namespace PlZero.Text

/-- Is `c` a halfwidth voiced or semi-voiced sound mark? These two extend the character before them
but are letters that take a place of their own. -/
def isHalfwidthSoundMark (c : Char) : Bool := c = '\uFF9E' || c = '\uFF9F'

/-- Would `c`, standing for itself, be drawn as part of the character before it? -/
def attaches (c : Char) : Bool := isGraphemeExtend c && !isHalfwidthSoundMark c

/-- Would `c`, standing for itself, be hard to see? -/
def isHidden (c : Char) : Bool := isUnprintable c || isDefaultIgnorable c || attaches c

/-- A character `c` as it stands between two `quote`s. -/
def escapeChar (quote c : Char) : List Char :=
  match c with
  | '\t' => ['\\', 't']
  | '\r' => ['\\', 'r']
  | '\n' => ['\\', 'n']
  | '\x00' => ['\\', '0']
  | '\\' => ['\\', '\\']
  | c =>
    if c = quote then ['\\', c]
    else if isHidden c then
      ['\\', 'u', '\x7b'] ++ Nat.toDigits 16 c.toNat ++ ['\x7d']
    else [c]

/-- The characters of `cs` as they stand between two `quote`s. -/
def escape (quote : Char) (cs : List Char) : List Char := cs.flatMap (escapeChar quote)

/-- A text in double quotes. -/
def quoted (s : String) : String :=
  String.ofList ('"' :: escape '"' s.toList ++ ['"'])

/-- A single character in single quotes. -/
def quotedChar (c : Char) : String :=
  String.ofList ('\'' :: escapeChar '\'' c ++ ['\''])

end PlZero.Text
