import Multiequation.Unicode.GraphemeExtend
import Multiequation.Unicode.Unprintable

/-!
# Quoted text

A text is shown between double quotes. The quote, the backslash, tab, newline, carriage return and
NUL have a two-character escape; any other character that would not show up on its own is written
as its code point in lower-case hexadecimal digits between braces. A mark that attaches to the
character before it counts as one that would not show up.

What shows up follows Unicode 17.0, while the classes of characters in names and tokens are those of
16.0: a letter of the newer version is no part of a name, yet it is quoted as itself.
-/

namespace Multiequation.Text.Quoted

open Multiequation.Unicode

/-- The code point of `c` between braces. -/
def codePoint (c : Char) : List Char :=
  ['\\', 'u', '\x7b'] ++ Nat.toDigits 16 c.toNat ++ ['\x7d']

/-- Whether `c` attaches to the character before it. The two halfwidth sound marks of Katakana are
grapheme extenders that take a cell of their own, so they are left out. -/
def isAttached (c : Char) : Bool :=
  isGraphemeExtend c && c != '\uff9e' && c != '\uff9f'

/-- How `c` is written inside a quoted text. -/
def escape (c : Char) : List Char :=
  if c = '\x22' then ['\\', '\x22']
  else if c = '\\' then ['\\', '\\']
  else if c = '\n' then ['\\', 'n']
  else if c = '\r' then ['\\', 'r']
  else if c = '\t' then ['\\', 't']
  else if c = '\x00' then ['\\', '0']
  else if isAttached c || isUnprintable c then codePoint c
  else [c]

/-- The quoted form of a text. -/
def encode (s : String) : String :=
  String.ofList ('\x22' :: s.toList.flatMap escape ++ ['\x22'])

end Multiequation.Text.Quoted
