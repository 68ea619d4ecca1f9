import Multiequation.Term
import Multiequation.Token.Lexer

/-!
# Reading terms and equations

    file     ::= (equation (';' equation)* ';'?)?
    equation ::= term '=' term
    term     ::= VARIABLE | NUMERAL | ATOM | ATOM '(' term (',' term)* ')'

A term is read with a stack of the applications that are still open, so that each step looks at the
next token only. A parser is left behind the tokens it has used, also when it fails; a token that
does not fit is used up, except at the check that the input ends.
-/

namespace Multiequation

/-- What a token is compared with when it does not fit. -/
inductive Wanted
  | term
  | mark (c : Char)
  | endOfInput
  deriving DecidableEq

/-- Why a text is not a list of equations. -/
inductive ParseError
  | unrecognised (error : LexError)
  | unexpected (wanted : Wanted) (span : Span)
  | invalidSymbol (error : InvalidSymbol) (span : Span)
  | endOfInput
  deriving DecidableEq

/-- What is said about a token that does not fit. -/
def Wanted.message : Wanted → String
  | .term => "expected term"
  | .mark c => "expected symbol '" ++ c.toString ++ "'"
  | .endOfInput => "expected EOF but tokens remain"

namespace ParseError

/-- The message shown for a parse error. -/
def message (source : Source) : ParseError → String
  | .unrecognised _ => "tokenize error"
  | .unexpected wanted span => "parse error: " ++ wanted.message ++ " at " ++ source.excerpt span
  | .invalidSymbol error span => "parse error: " ++ error.message ++ " at " ++ source.excerpt span
  | .endOfInput => "unexpected end of input at " ++ source.excerpt source.endSpan

/-- The message of the error that lies behind a parse error. -/
def cause? (source : Source) : ParseError → Option String
  | .unrecognised error => some (error.message source)
  | _ => none

/-- The messages of a parse error and of what lies behind it. -/
def chain (source : Source) (e : ParseError) : List String :=
  e.message source :: (e.cause? source).toList

end ParseError

/-- A parser takes tokens from a stream; a failure keeps the stream as far as it was used. -/
abbrev Parser := EStateM ParseError TokenStream

namespace Parser

/-- What is wrong when one more token is needed and there is none. -/
def missing : Option LexError → ParseError
  | some error => .unrecognised error
  | none => .endOfInput

/-- An application whose arguments are being read; the arguments read so far come last first. -/
structure Frame where
  functor : Symbol
  args : List Term
  deriving DecidableEq

mutual

/-- Reads a term inside the open applications, then goes on with them until all are closed. -/
def readTerm (fault : Option LexError) (stack : List Frame) :
    List Token → EStateM.Result ParseError TokenStream Term
  | [] => .error (missing fault) ⟨[], fault⟩
  | token :: tokens =>
    match token.kind with
    | .variable => resume fault (.var token.text) stack tokens
    | .punctuation => .error (.unexpected .term token.span) ⟨tokens, fault⟩
    | .numeral =>
      match Symbol.ofString token.text with
      | .error e => .error (.invalidSymbol e token.span) ⟨tokens, fault⟩
      | .ok symbol => resume fault (.const symbol) stack tokens
    | .atom =>
      match Symbol.ofString token.text with
      | .error e => .error (.invalidSymbol e token.span) ⟨tokens, fault⟩
      | .ok symbol =>
        match tokens with
        | [] => resume fault (.const symbol) stack []
        | mark :: rest =>
          if mark.isMark '(' then readTerm fault (⟨symbol, []⟩ :: stack) rest
          else resume fault (.const symbol) stack (mark :: rest)

/-- Goes on behind a complete term inside the open applications. -/
def resume (fault : Option LexError) (term : Term) (stack : List Frame) (tokens : List Token) :
    EStateM.Result ParseError TokenStream Term :=
  match stack with
  | [] => .ok term ⟨tokens, fault⟩
  | frame :: stack =>
    match tokens with
    | [] => .error (missing fault) ⟨[], fault⟩
    | token :: tokens =>
      if token.isMark ',' then readTerm fault (⟨frame.functor, term :: frame.args⟩ :: stack) tokens
      else if token.isMark ')' then
        resume fault (.app frame.functor (term :: frame.args).reverse) stack tokens
      else .error (.unexpected (.mark ')') token.span) ⟨tokens, fault⟩

end

/-- Reads one term. -/
def term : Parser Term := fun stream =>
  readTerm stream.fault [] stream.tokens

/-- Takes the punctuation mark `mark`. -/
def expectMark (mark : Char) : Parser Unit := fun stream =>
  match stream.tokens with
  | [] => .error (missing stream.fault) stream
  | token :: tokens =>
    let rest := { stream with tokens }
    if token.isMark mark then .ok () rest
    else .error (.unexpected (.mark mark) token.span) rest

/-- Takes the punctuation mark `mark` if it comes next, and tells whether it did. -/
def optionalMark (mark : Char) : Parser Bool := fun stream =>
  match stream.tokens with
  | [] => .ok false stream
  | token :: tokens =>
    if token.isMark mark then .ok true { stream with tokens } else .ok false stream

/-- Checks that no token is left. -/
def expectEnd : Parser Unit := fun stream =>
  match stream.tokens, stream.fault with
  | token :: _, _ => .error (.unexpected .endOfInput token.span) stream
  | [], some error => .error (.unrecognised error) stream
  | [], none => .ok () stream

/-- Reads one equation. -/
def equation : Parser Equation := do
  let left ← term
  expectMark '='
  let right ← term
  return ⟨left, right⟩

/-- Reads at most `n` equations, up to the end or the first one that no semicolon follows. -/
def equationsUpTo : Nat → Parser (List Equation)
  | 0 => return []
  | n + 1 => do
    if (← get).atEnd then
      return []
    let first ← equation
    if ← optionalMark ';' then
      return first :: (← equationsUpTo n)
    return [first]

/-- Reads the equations of a whole file. Each takes a token, so there are at most as many. -/
def equations : Parser (List Equation) := do
  let all ← equationsUpTo ((← get).tokens.length + 1)
  expectEnd
  return all

/-- The result of a parser on all tokens of a source. -/
def onSource {α : Type} (parser : Parser α) (source : Source) : Except ParseError α :=
  match parser (.ofSource source) with
  | .ok a _ => .ok a
  | .error e _ => .error e

end Parser

/-- The equations that a source consists of. -/
def Source.equations (source : Source) : Except ParseError (List Equation) :=
  Parser.equations.onSource source

/-- The term that a source begins with. -/
def Source.term (source : Source) : Except ParseError Term :=
  Parser.term.onSource source

end Multiequation
