import Multiequation.Source

/-!
# Tokens

A token is a stretch of a source: a variable, an atom, a numeral or one of the five punctuation
marks. It carries its own text and the offset at which it begins.
-/

namespace Multiequation

/-- What a token can stand for. -/
inductive TokenKind
  | variable
  | atom
  | numeral
  | punctuation
  deriving DecidableEq

/-- A stretch of a source, beginning at a byte offset. -/
structure Token where
  kind : TokenKind
  text : String
  start : Nat
  deriving DecidableEq

/-- The name under which a kind of token is shown. -/
def TokenKind.label : TokenKind → String
  | .variable => "Var"
  | .atom => "Atom"
  | .numeral => "NumLit"
  | .punctuation => "Symbol"

namespace Token

/-- The place of the token in its source. -/
def span (token : Token) : Span :=
  ⟨token.start, token.start + Text.byteLength token.text.toList⟩

/-- Whether the token is a variable. -/
def isVariable (token : Token) : Bool :=
  token.kind == .variable

/-- Whether the token is a punctuation mark. -/
def isPunctuation (token : Token) : Bool :=
  token.kind == .punctuation

/-- Whether the token is the punctuation mark `mark`. -/
def isMark (token : Token) (mark : Char) : Bool :=
  token.isPunctuation && token.text == mark.toString

/-- The kind and text of the token above its excerpt. -/
def describe (source : Source) (token : Token) : String :=
  token.kind.label ++ " " ++ token.text ++ "\n" ++ source.excerpt token.span

end Token

end Multiequation
