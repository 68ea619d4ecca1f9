import Multiequation.Proofs.Equation.Language
import Multiequation.Proofs.Equation.Stages

/-!
# Where reading stops

A parser goes through the stages that its tokens lead to. It fails in one of two ways only: at a token
that its stage has no step for, or behind all tokens, if the lexer was stopped there or the input ends at
a stage that is not final. Both are told by the tokens up to that place. So spelled lexemes that lead to a
final stage are a sentence, because the parser has no way left to fail on them; and as every stage has a
way to a final one, the lexemes that lead anywhere are the beginnings of sentences.
-/

namespace Multiequation

/-- The lexemes are a sentence of the grammar. -/
def IsSentence (ls : List Lexeme) : Prop :=
  (∀ l ∈ ls, l.IsSpelled) ∧ ∃ d : SourceTree, d.lexemes = ls

/-- The lexemes can be extended to a sentence. -/
def IsViable (ls : List Lexeme) : Prop :=
  ∃ more, IsSentence (ls ++ more)

namespace Parser

/-- Why a parser that starts at the stage fails: a token has no place behind those in front of it, or all
tokens have one, and the lexer was stopped behind them or the input ends too early. -/
inductive Blocked (stage : Stage) (stream : TokenStream) : ParseError → Prop
  | unexpected (used rest : List Token) {token : Token} {last : Stage} (wanted : Wanted)
      (htokens : stream.tokens = used ++ token :: rest)
      (hrun : stage.run (used.map Token.lexeme) = some last) (hstep : last.step token.lexeme = none) :
      Blocked stage stream (.unexpected wanted token.span)
  | missing {last : Stage} (hrun : stage.run (stream.tokens.map Token.lexeme) = some last)
      (hend : stream.fault = none → ¬ last.IsFinal) : Blocked stage stream (missing stream.fault)

/-- A result that follows the stages: it is reached by tokens that lead to a stage with the property `P`,
or reading is blocked. -/
def Follows {α : Type} (stage : Stage) (stream : TokenStream) (P : Stage → TokenStream → Prop) :
    EStateM.Result ParseError TokenStream α → Prop
  | .ok _ left => ∃ used last, stream.tokens = used ++ left.tokens ∧ left.fault = stream.fault ∧
      stage.run (used.map Token.lexeme) = some last ∧ P last left
  | .error e _ => Blocked stage stream e

/-- A term has ended, and no application can open any more. -/
def EndOfTerm (side : Side) (depth : ℕ) (stage : Stage) (tokens : List Token) : Prop :=
  stage = .behindTerm side depth ∨
    stage = .behindAtom side depth ∧ EndsTerm (tokens.map Token.lexeme)

variable {stage next last : Stage} {stream middle left : TokenStream} {fault : Option LexError}
  {used tokens : List Token} {token : Token} {side : Side} {depth n : ℕ} {e : ParseError}
  {P Q : Stage → TokenStream → Prop} {α β : Type}

theorem EndOfTerm.isBehind (h : EndOfTerm side depth stage tokens) : stage.IsBehind side depth := by
  rcases h with rfl | ⟨rfl, -⟩
  · exact .inr rfl
  · exact .inl rfl

/-- The next token closes the term. -/
theorem EndOfTerm.step_eq (h : EndOfTerm side depth stage (token :: tokens)) :
    stage.step token.lexeme = Stage.leave side depth token.lexeme := by
  rcases h with rfl | ⟨rfl, hends⟩
  · rfl
  · exact if_neg fun hopen => hends (congrArg some hopen)

/-! ### One parser after the other -/

theorem Blocked.prepend (htokens : stream.tokens = used ++ middle.tokens)
    (hfault : middle.fault = stream.fault) (hrun : stage.run (used.map Token.lexeme) = some next)
    (h : Blocked next middle e) : Blocked stage stream e := by
  cases h with
  | @unexpected used' rest token last wanted htokens' hrun' hstep =>
    refine .unexpected (used ++ used') rest wanted ?_ ?_ hstep
    · rw [htokens, htokens', List.append_assoc]
    · rw [List.map_append, Stage.run_append_of_run hrun, hrun']
  | @missing last hrun' hend =>
    rw [hfault]
    refine .missing ?_ (hfault ▸ hend)
    rw [htokens, List.map_append, Stage.run_append_of_run hrun, hrun']

theorem Follows.prepend {result : EStateM.Result ParseError TokenStream α}
    (htokens : stream.tokens = used ++ middle.tokens) (hfault : middle.fault = stream.fault)
    (hrun : stage.run (used.map Token.lexeme) = some next) (h : Follows next middle P result) :
    Follows stage stream P result := by
  cases result with
  | ok a left =>
    obtain ⟨used', last, htokens', hfault', hrun', hlast⟩ := h
    refine ⟨used ++ used', last, ?_, hfault'.trans hfault, ?_, hlast⟩
    · rw [htokens, htokens', List.append_assoc]
    · rw [List.map_append, Stage.run_append_of_run hrun, hrun']
  | error e left => exact Blocked.prepend htokens hfault hrun h

/-- One token is a step to the next stage. -/
theorem Follows.cons {result : EStateM.Result ParseError TokenStream α}
    (hstep : stage.step token.lexeme = some next) (h : Follows next ⟨tokens, fault⟩ P result) :
    Follows stage ⟨token :: tokens, fault⟩ P result := by
  have hrun : stage.run ([token].map Token.lexeme) = some next := Stage.run_cons_of_step hstep []
  refine Follows.prepend ?_ ?_ hrun h <;> rfl

theorem follows_ok {a : α} (h : P stage stream) : Follows stage stream P (.ok a stream) :=
  ⟨[], stage, rfl, rfl, rfl, h⟩

theorem Follows.bind {first : Parser α} {rest : α → Parser β}
    (hfirst : Follows stage stream P (first stream))
    (hrest : ∀ a used last left, stream.tokens = used ++ left.tokens →
      stage.run (used.map Token.lexeme) = some last → P last left → Follows last left Q (rest a left)) :
    Follows stage stream Q ((first >>= rest) stream) := by
  show Follows stage stream Q (EStateM.bind first rest stream)
  unfold EStateM.bind
  revert hfirst
  cases first stream with
  | ok a left =>
    rintro ⟨used, last, htokens, hfault, hrun, hlast⟩
    exact (hrest a used last left htokens hrun hlast).prepend htokens hfault hrun
  | error e left => exact id

/-! ### Terms -/

mutual

/-- Reading a term inside open applications follows the stages up to the end of the outermost one. -/
theorem follows_readTerm {stage : Stage} {stack : List Frame} {tokens : List Token}
    (henter : ∀ l, stage.step l = Stage.enter side stack.length l)
    (hend : tokens = [] → fault = none → ¬ stage.IsFinal)
    (hspelled : ∀ token ∈ tokens, token.lexeme.IsSpelled) :
    Follows stage ⟨tokens, fault⟩ (fun last left => EndOfTerm side 0 last left.tokens)
      (readTerm fault stack tokens) := by
  match tokens with
  | [] =>
    rw [readTerm]
    exact .missing rfl (hend rfl)
  | token :: tokens =>
    rw [List.forall_mem_cons] at hspelled
    obtain ⟨htoken, hspelled⟩ := hspelled
    have hstep := henter token.lexeme
    have hsame : token.lexeme.kind = token.kind := rfl
    -- the kind of the token tells the next stage
    rw [Stage.enter, hsame] at hstep
    cases hkind : token.kind with
    | «variable» =>
      rw [hkind] at hstep
      rw [readTerm, hkind]
      exact .cons hstep (follows_resume (.inl rfl) hspelled)
    | punctuation =>
      rw [hkind] at hstep
      rw [readTerm, hkind]
      exact .unexpected [] tokens .term rfl rfl hstep
    | numeral =>
      obtain ⟨symbol, hsymbol⟩ := htoken.exists_symbol (.inr hkind)
      change Symbol.ofString token.text = .ok symbol at hsymbol
      rw [hkind] at hstep
      simp only [readTerm, hkind, hsymbol]
      exact .cons hstep (follows_resume (.inl rfl) hspelled)
    | atom =>
      obtain ⟨symbol, hsymbol⟩ := htoken.exists_symbol (.inl hkind)
      rw [hkind] at hstep
      obtain ⟨hconst, hends⟩ | ⟨mark, args, htokens, hopen, happ⟩ :=
        readTerm_of_atom fault stack tokens hkind hsymbol
      · rw [hconst]
        exact .cons hstep (follows_resume (.inr ⟨rfl, hends⟩) hspelled)
      · have hargs : args.length < tokens.length := by
          rw [htokens]
          exact Nat.lt_succ_self _
        have hinside : (Stage.behindAtom side stack.length).step mark.lexeme =
            some (.term side (stack.length + 1)) := if_pos (Token.isMark_iff.1 hopen)
        rw [happ]
        rw [htokens] at hspelled ⊢
        rw [List.forall_mem_cons] at hspelled
        exact .cons hstep (.cons hinside (follows_readTerm (fun _ => rfl) (fun _ _ => id) hspelled.2))
termination_by tokens.length

/-- Going on behind a term follows the stages up to the end of the outermost one. -/
theorem follows_resume {stage : Stage} {t : Term} {stack : List Frame} {tokens : List Token}
    (hstage : EndOfTerm side stack.length stage tokens)
    (hspelled : ∀ token ∈ tokens, token.lexeme.IsSpelled) :
    Follows stage ⟨tokens, fault⟩ (fun last left => EndOfTerm side 0 last left.tokens)
      (resume fault t stack tokens) := by
  match stack, tokens with
  | [], tokens =>
    rw [resume]
    exact follows_ok hstage
  | frame :: stack, [] =>
    rw [resume]
    exact .missing rfl fun _ => Stage.not_isFinal_of_isBehind hstage.isBehind
  | frame :: stack, token :: tokens =>
    rw [List.forall_mem_cons] at hspelled
    have hstep := hstage.step_eq
    rw [List.length_cons, Stage.leave] at hstep
    rw [resume]
    by_cases hcomma : token.isMark ',' = true
    · rw [if_pos hcomma]
      rw [if_pos (Token.isMark_iff.1 hcomma)] at hstep
      exact .cons hstep (follows_readTerm (fun _ => rfl) (fun _ _ => id) hspelled.2)
    · rw [if_neg hcomma]
      rw [if_neg (mt Token.isMark_iff.2 hcomma)] at hstep
      by_cases hclose : token.isMark ')' = true
      · rw [if_pos hclose]
        rw [if_pos (Token.isMark_iff.1 hclose)] at hstep
        exact .cons hstep (follows_resume (.inl rfl) hspelled.2)
      · rw [if_neg hclose]
        rw [if_neg (mt Token.isMark_iff.2 hclose)] at hstep
        exact .unexpected [] tokens _ rfl rfl hstep
termination_by tokens.length

end

theorem follows_term (henter : ∀ l, stage.step l = Stage.enter side 0 l)
    (hend : stream.tokens = [] → stream.fault = none → ¬ stage.IsFinal) (hspelled : Spelled stream) :
    Follows stage stream (fun last left => EndOfTerm side 0 last left.tokens) (term stream) :=
  follows_readTerm henter hend hspelled

/-! ### Equations -/

/-- A mark that has to come is the only lexeme that the stage has a step for. -/
theorem follows_expectMark {c : Char} (hmark : ∀ token tokens, stream.tokens = token :: tokens →
      stage.step token.lexeme = if token.lexeme = .mark c then some next else none)
    (hend : ¬ stage.IsFinal) :
    Follows stage stream (fun last _ => last = next) (expectMark c stream) := by
  obtain ⟨tokens, fault⟩ := stream
  cases tokens with
  | nil => exact .missing rfl fun _ => hend
  | cons token tokens =>
    have hstep := hmark token tokens rfl
    simp only [expectMark]
    by_cases h : token.isMark c = true
    · rw [if_pos h]
      rw [if_pos (Token.isMark_iff.1 h)] at hstep
      exact .cons hstep (follows_ok rfl)
    · rw [if_neg h]
      rw [if_neg (mt Token.isMark_iff.2 h)] at hstep
      exact .unexpected [] tokens _ rfl rfl hstep

theorem Spelled.of_append (h : Spelled stream) (htokens : stream.tokens = used ++ left.tokens) :
    Spelled left :=
  fun token htoken => h token (htokens ▸ List.mem_append_right _ htoken)

theorem follows_equation (hend : stream.atEnd = false) (hspelled : Spelled stream) :
    Follows .equation stream (fun last left => EndOfTerm .right 0 last left.tokens)
      (equation stream) := by
  have hstart : stream.tokens = [] → stream.fault = none → ¬ Stage.equation.IsFinal := by
    intro htokens hfault
    simp [TokenStream.atEnd, htokens, hfault] at hend
  refine (follows_term (fun _ => rfl) hstart hspelled).bind fun l used stage left htokens _ hleft => ?_
  have hequals : ∀ token tokens, left.tokens = token :: tokens → stage.step token.lexeme =
      if token.lexeme = .mark '=' then some (.term .right 0) else none := by
    intro token tokens h
    rw [h] at hleft
    exact hleft.step_eq
  have hopen : ¬ stage.IsFinal := by
    rcases hleft.isBehind with rfl | rfl <;> simp [Stage.IsFinal]
  refine (follows_expectMark hequals hopen).bind fun _ used' stage' left' htokens' _ hstage' => ?_
  subst hstage'
  have hspelled' := (hspelled.of_append htokens).of_append htokens'
  refine (follows_term (fun _ => rfl) (fun _ _ => id) hspelled').bind
    fun r used'' stage'' left'' _ _ hright => ?_
  exact follows_ok hright

/-- Behind an equation a semicolon is the one token that the stage has a step for. -/
theorem follows_optionalMark (hstage : EndOfTerm .right 0 stage stream.tokens) :
    (∃ tokens, optionalMark ';' stream = .ok true ⟨tokens, stream.fault⟩ ∧
      ∃ token, stream.tokens = token :: tokens ∧ stage.step token.lexeme = some .equation) ∨
    optionalMark ';' stream = .ok false stream ∧
      ∀ token ∈ stream.tokens.head?, stage.step token.lexeme = none := by
  obtain ⟨tokens, fault⟩ := stream
  cases tokens with
  | nil => exact .inr ⟨rfl, nofun⟩
  | cons token tokens =>
    have hstep := hstage.step_eq
    simp only [optionalMark]
    by_cases h : token.isMark ';' = true
    · rw [if_pos h]
      exact .inl ⟨tokens, rfl, token, rfl, hstep.trans (if_pos (Token.isMark_iff.1 h))⟩
    · rw [if_neg h]
      refine .inr ⟨rfl, ?_⟩
      rintro _ ⟨⟩
      exact hstep.trans (if_neg (mt Token.isMark_iff.2 h))

/-- The equations are read up to where a list of equations may end and the next token, if there is one,
has no place. -/
def EndOfEquations (stage : Stage) (left : TokenStream) : Prop :=
  stage.IsFinal ∧ ∀ token ∈ left.tokens.head?, stage.step token.lexeme = none

theorem bind_of_ok {first : Parser α} {rest : α → Parser β} {a : α} (h : first stream = .ok a left) :
    (first >>= rest) stream = rest a left := by
  show EStateM.bind first rest stream = _
  rw [EStateM.bind, h]

theorem follows_equationsUpTo (hn : stream.tokens.length < n) (hspelled : Spelled stream) :
    Follows .equation stream EndOfEquations (equationsUpTo n stream) := by
  induction n generalizing stream with
  | zero => exact absurd hn (Nat.not_lt_zero _)
  | succ n ih =>
    have hget : (get : Parser TokenStream) stream = .ok stream stream := rfl
    rw [equationsUpTo, bind_of_ok hget]
    cases hend : stream.atEnd with
    | true =>
      have htokens : stream.tokens = [] := by
        rw [TokenStream.atEnd, Bool.and_eq_true, List.isEmpty_iff] at hend
        exact hend.1
      exact follows_ok ⟨trivial, by simp [htokens]⟩
    | false =>
      rw [if_neg Bool.false_ne_true]
      refine (follows_equation hend hspelled).bind fun first used stage left htokens hrun hstage => ?_
      rcases follows_optionalMark hstage with ⟨tokens, hmark, token, hleft, hstep⟩ | ⟨hmark, hnext⟩
      · rw [bind_of_ok hmark, if_pos rfl]
        obtain ⟨_, fault⟩ := left
        cases hleft
        -- the equation and the semicolon take tokens, so the bound stays great enough
        have hlength : tokens.length < n := by
          rw [htokens, List.length_append, List.length_cons] at hn
          omega
        have hspelled' : Spelled ⟨tokens, fault⟩ := fun later hlater =>
          hspelled.of_append htokens later (List.mem_cons_of_mem _ hlater)
        refine Follows.cons hstep ((ih hlength hspelled').bind fun es used' last left' _ _ hlast => ?_)
        exact follows_ok hlast
      · rw [bind_of_ok hmark, if_neg Bool.false_ne_true]
        refine follows_ok ⟨?_, hnext⟩
        rcases hstage.isBehind with rfl | rfl <;> exact ⟨rfl, rfl⟩

theorem follows_expectEnd (hstage : EndOfEquations stage stream) :
    Follows stage stream (fun last left => last.IsFinal ∧ left = ⟨[], none⟩) (expectEnd stream) := by
  obtain ⟨tokens, fault⟩ := stream
  cases tokens with
  | cons token tokens => exact .unexpected [] tokens _ rfl rfl (hstage.2 token rfl)
  | nil =>
    cases fault with
    | some error => exact .missing rfl nofun
    | none => exact follows_ok ⟨hstage.1, rfl⟩

/-- Reading a list of equations follows the stages from the first to a final one. -/
theorem follows_equations (hspelled : Spelled stream) :
    Follows .equation stream (fun last left => last.IsFinal ∧ left = ⟨[], none⟩)
      (equations stream) := by
  have hget : (get : Parser TokenStream) stream = .ok stream stream := rfl
  rw [equations, bind_of_ok hget]
  refine (follows_equationsUpTo (Nat.lt_succ_self _) hspelled).bind
    fun E used stage left _ _ hstage => ?_
  refine (follows_expectEnd hstage).bind fun _ used' last left' _ _ hlast => ?_
  exact follows_ok hlast

/-! ### Sentences -/

/-- Tokens that lead on are not blocked. -/
theorem Blocked.elim_of_run (h : Blocked .equation stream e)
    (hrun : Stage.equation.run (stream.tokens.map Token.lexeme) = some last) :
    e = Parser.missing stream.fault ∧ (stream.fault = none → ¬ last.IsFinal) := by
  cases h with
  | unexpected used rest wanted htokens hrun' hstep =>
    rw [htokens, List.map_append, Stage.run_append_of_run hrun', List.map_cons, Stage.run_cons,
      hstep] at hrun
    cases hrun
  | missing hrun' hend =>
    obtain rfl := Option.some.inj (hrun'.symm.trans hrun)
    exact ⟨rfl, hend⟩

end Parser

/-- The sentences are the spelled lexemes that lead to a final stage. -/
theorem isSentence_iff {ls : List Lexeme} (hspelled : ∀ l ∈ ls, l.IsSpelled) :
    IsSentence ls ↔ ∃ last, Stage.equation.run ls = some last ∧ last.IsFinal := by
  constructor
  · rintro ⟨-, d, rfl⟩
    exact Stage.exists_run_source d
  · rintro ⟨last, hrun, hfinal⟩
    -- the parser reads any tokens with these lexemes
    obtain ⟨tokens, htokens⟩ : ∃ tokens : List Token, tokens.map Token.lexeme = ls :=
      ⟨ls.map fun l => ⟨l.kind, l.text, 0⟩, by simp [Function.comp_def, Token.lexeme]⟩
    have hstream : Parser.Spelled ⟨tokens, none⟩ := fun token htoken =>
      hspelled _ (htokens ▸ List.mem_map_of_mem htoken)
    have hfollows := Parser.follows_equations hstream
    cases h : Parser.equations ⟨tokens, none⟩ with
    | ok E left =>
      obtain ⟨-, -, d, hd, -⟩ := Parser.equations_eq_ok_iff.1 h
      exact ⟨hspelled, d, hd.symm.trans htokens⟩
    | error e left =>
      rw [h] at hfollows
      rw [← htokens] at hrun
      exact absurd hfinal ((Parser.Blocked.elim_of_run hfollows hrun).2 rfl)

/-- The beginnings of sentences are the spelled lexemes that lead anywhere. -/
theorem isViable_iff {ls : List Lexeme} (hspelled : ∀ l ∈ ls, l.IsSpelled) :
    IsViable ls ↔ ∃ last, Stage.equation.run ls = some last := by
  constructor
  · rintro ⟨more, -, d, hd⟩
    obtain ⟨last, hlast, -⟩ := Stage.exists_run_source d
    rw [hd] at hlast
    obtain ⟨next, hnext, -⟩ := Stage.exists_run_of_append hlast
    exact ⟨next, hnext⟩
  · rintro ⟨last, hrun⟩
    obtain ⟨more, hmore, final, hfinal, hend⟩ := last.exists_completes
    have hall : ∀ l ∈ ls ++ more, l.IsSpelled := fun l hl =>
      (List.mem_append.1 hl).elim (hspelled l) (hmore l)
    have hfinal' := (Stage.run_append_of_run hrun more).trans hfinal
    exact ⟨more, (isSentence_iff hall).2 ⟨final, hfinal', hend⟩⟩

end Multiequation
