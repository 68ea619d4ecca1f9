/-!
# Byte offsets into a text

A place in a text is the number of bytes before it in UTF-8. Offsets between two characters, before
the first and after the last are boundaries; the others fall inside a character.
-/

namespace Multiequation.Text

/-- The number of bytes of the characters in UTF-8. -/
def byteLength : List Char → Nat
  | [] => 0
  | c :: cs => c.utf8Size + byteLength cs

/-- The characters that begin before the offset. -/
def charsBefore : Nat → List Char → List Char
  | 0, _ => []
  | _, [] => []
  | offset, c :: cs => c :: charsBefore (offset - c.utf8Size) cs

/-- The characters that begin at the offset or after it. -/
def charsFrom : Nat → List Char → List Char
  | 0, cs => cs
  | _, [] => []
  | offset, c :: cs => charsFrom (offset - c.utf8Size) cs

/-- Whether the offset is a boundary of the text. -/
def isBoundary : Nat → List Char → Bool
  | 0, _ => true
  | _, [] => false
  | offset, c :: cs => c.utf8Size ≤ offset && isBoundary (offset - c.utf8Size) cs

@[simp] theorem byteLength_nil : byteLength [] = 0 := rfl

@[simp] theorem byteLength_cons (c : Char) (cs : List Char) :
    byteLength (c :: cs) = c.utf8Size + byteLength cs := rfl

@[simp] theorem byteLength_append (cs ds : List Char) :
    byteLength (cs ++ ds) = byteLength cs + byteLength ds := by
  induction cs with
  | nil => simp
  | cons c cs ih => simp [ih, Nat.add_assoc]

@[simp] theorem charsBefore_zero (cs : List Char) : charsBefore 0 cs = [] := by
  cases cs <;> rfl

@[simp] theorem charsFrom_zero (cs : List Char) : charsFrom 0 cs = cs := by
  cases cs <;> rfl

@[simp] theorem isBoundary_zero (cs : List Char) : isBoundary 0 cs = true := by
  cases cs <;> rfl

theorem charsBefore_append_charsFrom (offset : Nat) (cs : List Char) :
    charsBefore offset cs ++ charsFrom offset cs = cs := by
  induction cs generalizing offset with
  | nil => cases offset <;> rfl
  | cons c cs ih =>
    cases offset with
    | zero => rfl
    | succ n => simp [charsBefore, charsFrom, ih]

end Multiequation.Text
