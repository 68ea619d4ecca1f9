import Multiequation.Symbol
import Multiequation.Token
import Multiequation.Unicode.Blank
import Multiequation.Unicode.Uppercase

/-!
# Reading tokens

Blanks and comments separate tokens; a comment runs from two hyphens up to the next newline. A
variable begins with an uppercase letter or an underscore, an atom with any other alphabetic
character, and both go on as long as a name can. A numeral is a run of ASCII digits. A character
that begins none of these is unrecognised, and reading stops in front of it for good.
-/

namespace Multiequation

open Multiequation.Unicode

/-- A place in a source: the characters from there on and their offset. -/
structure Cursor where
  rest : List Char
  offset : Nat
  deriving DecidableEq

/-- What a cursor sees next, behind any blanks and comments. -/
inductive Scan
  | finished
  | token (token : Token) (next : Cursor)
  | unrecognised (span : Span) (cursor : Cursor)
  deriving DecidableEq

/-- A character that begins no token. -/
structure LexError where
  span : Span
  deriving DecidableEq

namespace LexError

/-- The message shown for an unrecognised character. -/
def message (source : Source) (e : LexError) : String :=
  "unrecognizable character at " ++ source.excerpt e.span

end LexError

/-- Whether `c` begins a variable. -/
def isVariableStart (c : Char) : Bool :=
  isUppercase c || c == '_'

/-- Whether `c` is one of the five punctuation marks. -/
def isPunctuationMark (c : Char) : Bool :=
  c == '(' || c == ')' || c == ',' || c == ';' || c == '='

/-- The kind of token that `c` begins. -/
def tokenKind? (c : Char) : Option TokenKind :=
  if isVariableStart c then some .variable
  else if isAlphabetic c then some .atom
  else if c.isDigit then some .numeral
  else if isPunctuationMark c then some .punctuation
  else none

/-- Whether a token of the given kind goes on with `c`. -/
def TokenKind.continues : TokenKind → Char → Bool
  | .variable, c => isNameChar c
  | .atom, c => isNameChar c
  | .numeral, c => c.isDigit
  | .punctuation, _ => false

namespace Cursor

/-- The cursor at the beginning of a source. -/
def ofSource (source : Source) : Cursor :=
  ⟨source.chars, 0⟩

/-- Drops blanks and comments; `inComment` tells whether the characters begin inside a comment. -/
def skipFrom (inComment : Bool) (offset : Nat) : List Char → Cursor
  | [] => ⟨[], offset⟩
  | c :: cs =>
    if inComment then skipFrom (c != '\n') (offset + c.utf8Size) cs
    else if isBlank c then skipFrom false (offset + c.utf8Size) cs
    else if c = '-' ∧ cs.head? = some '-' then skipFrom true (offset + c.utf8Size) cs
    else ⟨c :: cs, offset⟩

/-- The cursor behind blanks and comments. -/
def skip (cursor : Cursor) : Cursor :=
  skipFrom false cursor.offset cursor.rest

/-- The token of the given kind whose first character is `c`, and the cursor behind it. -/
def readToken (kind : TokenKind) (c : Char) (cs : List Char) (offset : Nat) : Token × Cursor :=
  let lexeme := c :: cs.takeWhile kind.continues
  (⟨kind, String.ofList lexeme, offset⟩,
    ⟨cs.dropWhile kind.continues, offset + Text.byteLength lexeme⟩)

/-- What the cursor sees next. -/
def scan (cursor : Cursor) : Scan :=
  match cursor.skip with
  | ⟨[], _⟩ => .finished
  | ⟨c :: cs, offset⟩ =>
    match tokenKind? c with
    | some kind =>
      let (token, next) := readToken kind c cs offset
      .token token next
    | none => .unrecognised ⟨offset, offset + c.utf8Size⟩ ⟨c :: cs, offset⟩

/-- Whether only blanks and comments are left. -/
def atEnd (cursor : Cursor) : Bool :=
  match cursor.scan with
  | .finished => true
  | _ => false

theorem length_skipFrom_le (inComment : Bool) (offset : Nat) (cs : List Char) :
    (skipFrom inComment offset cs).rest.length ≤ cs.length := by
  induction cs generalizing inComment offset with
  | nil => simp [skipFrom]
  | cons c cs ih =>
    unfold skipFrom
    split
    · exact Nat.le_succ_of_le (ih _ _)
    · split
      · exact Nat.le_succ_of_le (ih _ _)
      · split
        · exact Nat.le_succ_of_le (ih _ _)
        · exact Nat.le_refl _

theorem length_scan_lt {cursor next : Cursor} {token : Token}
    (h : cursor.scan = .token token next) : next.rest.length < cursor.rest.length := by
  have hskip := length_skipFrom_le false cursor.offset cursor.rest
  unfold scan skip at h
  split at h
  · cases h
  · next c cs offset hcs =>
    split at h
    · next kind _ =>
      simp only [readToken, Scan.token.injEq] at h
      rw [hcs] at hskip
      obtain ⟨-, rfl⟩ := h
      have := (List.dropWhile_sublist (kind.continues) (l := cs)).length_le
      simp only [List.length_cons] at hskip
      dsimp only
      omega
    · cases h

end Cursor

/-- The tokens of a source in order, and what ended the reading if it was not the end. -/
structure TokenStream where
  tokens : List Token
  fault : Option LexError
  deriving DecidableEq

namespace TokenStream

/-- All tokens that a cursor sees up to the end or an unrecognised character. -/
def ofCursor (cursor : Cursor) : TokenStream :=
  match _h : cursor.scan with
  | .finished => ⟨[], none⟩
  | .unrecognised span _ => ⟨[], some ⟨span⟩⟩
  | .token token next =>
    let stream := ofCursor next
    ⟨token :: stream.tokens, stream.fault⟩
termination_by cursor.rest.length
decreasing_by exact Cursor.length_scan_lt _h

/-- All tokens of a source. -/
def ofSource (source : Source) : TokenStream :=
  ofCursor (.ofSource source)

/-- Whether the stream has ended without a fault. -/
def atEnd (stream : TokenStream) : Bool :=
  stream.tokens.isEmpty && stream.fault.isNone

end TokenStream

end Multiequation
