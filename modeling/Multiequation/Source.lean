import Multiequation.Text.Offset

/-!
# Source texts

A source is a named text. A table holds the offsets at which its lines begin, and the line of an offset
is searched for in this table. A place is a byte offset or a line and a column, both counted from one,
where columns count characters. An excerpt shows a span of the source under the line that it begins on.
-/

namespace Multiequation

/-- A named text. -/
structure Source where
  name : String
  text : String
  deriving DecidableEq

/-- A line and a column, both counted from one. -/
structure Position where
  line : Nat
  column : Nat
  deriving DecidableEq

/-- The part of a text between two byte offsets. -/
structure Span where
  start : Nat
  stop : Nat
  deriving DecidableEq

namespace Source

open Multiequation.Text

/-- The characters of the text. -/
def chars (source : Source) : List Char :=
  source.text.toList

/-- The number of bytes of the text. -/
def size (source : Source) : Nat :=
  byteLength source.chars

/-- Whether the text has no character. -/
def isEmpty (source : Source) : Bool :=
  source.chars.isEmpty

/-! ### Spans -/

/-- The empty span at the end of the text. -/
def endSpan (source : Source) : Span :=
  ⟨source.size, source.size⟩

/-- Whether the span begins and ends at boundaries, in this order. -/
def hasSpan (source : Source) (span : Span) : Bool :=
  span.start ≤ span.stop && isBoundary span.start source.chars && isBoundary span.stop source.chars

/-- The characters of a span. -/
def charsIn (source : Source) (span : Span) : List Char :=
  charsBefore (span.stop - span.start) (charsFrom span.start source.chars)

/-- The text of a span. -/
def textIn (source : Source) (span : Span) : String :=
  String.ofList (source.charsIn span)

/-! ### Lines -/

/-- The offsets behind the newlines of the characters, the first of which is at `offset`. -/
def behindNewlines : Nat → List Char → List Nat
  | _, [] => []
  | offset, c :: cs =>
    if c = '\n' then (offset + c.utf8Size) :: behindNewlines (offset + c.utf8Size) cs
    else behindNewlines (offset + c.utf8Size) cs

/-- The offsets at which the lines begin. -/
def lineStarts (source : Source) : Array Nat :=
  (0 :: behindNewlines 0 source.chars).toArray

/-- Searches for `x` in the part of an ascending array from `lo` to `hi`: the index at which it is, or as
an error the one at which it would have to be put in. -/
def search (xs : Array Nat) (x lo hi : Nat) (hhi : hi ≤ xs.size) : Except Nat Nat :=
  if h : lo < hi then
    have hmid : (lo + hi) / 2 < hi := by omega
    match compare xs[(lo + hi) / 2] x with
    | .lt => search xs x ((lo + hi) / 2 + 1) hi hhi
    | .eq => .ok ((lo + hi) / 2)
    | .gt => search xs x lo ((lo + hi) / 2) (by omega)
  else .error lo
termination_by hi - lo

/-- The index of the last line that begins at the offset or before it. -/
def lineIndex (source : Source) (offset : Nat) : Nat :=
  match search source.lineStarts offset 0 source.lineStarts.size (Nat.le_refl _) with
  | .ok index => index
  | .error index => index - 1

/-- The span of the line with an index, without the newline that ends it. -/
def lineSpan? (source : Source) (index : Nat) : Option Span :=
  match source.lineStarts[index]? with
  | none => none
  | some start =>
    match source.lineStarts[index + 1]? with
    | none => some ⟨start, source.size⟩
    | some next => some ⟨start, if start < next then next - 1 else next⟩

/-- The characters without one carriage return at their end. -/
def dropCarriageReturn (cs : List Char) : List Char :=
  if cs.getLast? = some '\r' then cs.dropLast else cs

/-- The text of a line, counted from one, without its line end. -/
def line (source : Source) : Nat → String
  | 0 => ""
  | n + 1 =>
    match source.lineSpan? n with
    | none => ""
    | some span => String.ofList (dropCarriageReturn (source.charsIn span))

/-! ### Positions -/

/-- The part of its line that lies before an offset; an offset past the end stands for the end. -/
def spanInLine (source : Source) (offset : Nat) : Span :=
  let offset := min offset source.size
  ⟨source.lineStarts[source.lineIndex offset]?.getD 0, offset⟩

/-- The line and column of an offset; an offset past the end stands for the end. -/
def positionAt (source : Source) (offset : Nat) : Position where
  line := source.lineIndex (min offset source.size) + 1
  column := (source.charsIn (source.spanInLine offset)).length + 1

/-- The line and column of an offset that does not fall inside a character. -/
def positionAt? (source : Source) (offset : Nat) : Option Position :=
  if source.hasSpan (source.spanInLine offset) then some (source.positionAt offset) else none

/-! ### Excerpts -/

/-- Blanks up to a column, then one caret for each of `n` characters but at least one. -/
def caretRow (column n : Nat) : String :=
  String.ofList (List.replicate (column - 1) ' ' ++ List.replicate (max 1 n) '^')

/-- The name and position of a span, the line it begins on, and carets under its characters. -/
def excerpt (source : Source) (span : Span) : String :=
  let position := source.positionAt span.start
  s!"{source.name}:{position.line}:{position.column}\n" ++ source.line position.line ++ "\n" ++
    caretRow position.column (source.charsIn span).length

end Source

end Multiequation
