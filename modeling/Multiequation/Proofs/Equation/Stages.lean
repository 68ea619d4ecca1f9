import Multiequation.Proofs.Equation.Grammar

/-!
# Stages of a list of equations

How far a list of equations has been read is told by a stage: which side of an equation it is in, how many
applications are still open, and whether a term has to come or has just ended. Of the applications only
their number matters, so a stage and the next lexeme determine the next stage. The lexemes of a derivation
lead from the first stage to a final one, and every stage has a way to a final one. Hence the lexemes that
lead anywhere are those that a derivation can go on from, and a lexeme that leads nowhere is wrong at its
place whatever follows it.
-/

namespace Multiequation

/-- A side of an equation. -/
inductive Side
  | left
  | right
  deriving DecidableEq

/-- How far a list of equations has been read; `depth` is the number of applications that are open. -/
inductive Stage
  | equation
  | term (side : Side) (depth : ℕ)
  | behindAtom (side : Side) (depth : ℕ)
  | behindTerm (side : Side) (depth : ℕ)
  deriving DecidableEq

namespace Stage

/-- The stage behind the first lexeme of a term. -/
def enter (side : Side) (depth : ℕ) (l : Lexeme) : Option Stage :=
  match l.kind with
  | .variable => some (.behindTerm side depth)
  | .numeral => some (.behindTerm side depth)
  | .atom => some (.behindAtom side depth)
  | .punctuation => none

/-- The stage behind a mark that follows a whole term. -/
def leave : Side → ℕ → Lexeme → Option Stage
  | side, depth + 1, l =>
    if l = .mark ',' then some (.term side (depth + 1))
    else if l = .mark ')' then some (.behindTerm side depth)
    else none
  | .left, 0, l => if l = .mark '=' then some (.term .right 0) else none
  | .right, 0, l => if l = .mark ';' then some .equation else none

/-- The stage behind one more lexeme, if it can stand here. -/
def step : Stage → Lexeme → Option Stage
  | .equation, l => enter .left 0 l
  | .term side depth, l => enter side depth l
  | .behindAtom side depth, l =>
    if l = .mark '(' then some (.term side (depth + 1)) else leave side depth l
  | .behindTerm side depth, l => leave side depth l

/-- The stage behind some lexemes, if all of them can stand where they are. -/
def run (stage : Stage) (ls : List Lexeme) : Option Stage :=
  ls.foldlM step stage

/-- A list of equations may end here. -/
def IsFinal : Stage → Prop
  | .equation => True
  | .term _ _ => False
  | .behindAtom side depth => side = .right ∧ depth = 0
  | .behindTerm side depth => side = .right ∧ depth = 0

/-- A term has just ended, with or without the chance that its last atom opens an application. -/
def IsBehind (side : Side) (depth : ℕ) (stage : Stage) : Prop :=
  stage = .behindAtom side depth ∨ stage = .behindTerm side depth

variable {stage next last : Stage} {side : Side} {depth : ℕ} {l : Lexeme} {ls ms : List Lexeme}

theorem run_cons (stage : Stage) (l : Lexeme) (ls : List Lexeme) :
    run stage (l :: ls) = (step stage l).bind fun next => run next ls := by
  simp [run, List.foldlM_cons]

theorem run_cons_of_step (h : step stage l = some next) (ls : List Lexeme) :
    run stage (l :: ls) = run next ls := by
  rw [run_cons, h, Option.bind_some]

theorem run_append (stage : Stage) (ls ms : List Lexeme) :
    run stage (ls ++ ms) = (run stage ls).bind fun next => run next ms := by
  simp [run, List.foldlM_append]

theorem run_append_of_run (h : run stage ls = some next) (ms : List Lexeme) :
    run stage (ls ++ ms) = run next ms := by
  rw [run_append, h, Option.bind_some]

/-- Lexemes that lead somewhere do so with each of their beginnings. -/
theorem exists_run_of_append (h : run stage (ls ++ ms) = some last) :
    ∃ next, run stage ls = some next ∧ run next ms = some last := by
  rw [run_append] at h
  exact Option.bind_eq_some_iff.1 h

/-- Lexemes that lead somewhere do not go beyond one that leads nowhere. -/
theorem length_le_of_step_eq_none {rest rest' : List Lexeme} (hrun : run stage ls = some last)
    (hstep : step last l = none) (hnext : run stage ms = some next)
    (heq : ls ++ l :: rest = ms ++ rest') : ms.length ≤ ls.length := by
  rcases List.append_eq_append_iff.1 heq with ⟨between, rfl, hbetween⟩ | ⟨between, rfl, -⟩
  · cases between with
    | nil => rw [List.append_nil]
    | cons m between =>
      obtain ⟨rfl, -⟩ := List.cons.inj hbetween
      rw [run_append_of_run hrun, run_cons, hstep] at hnext
      cases hnext
  · rw [List.length_append]
    exact Nat.le_add_right _ _

/-- Of a lexeme its kind matters, and of a punctuation mark which one it is. -/
theorem step_congr {m : Lexeme} (hkind : l.kind = m.kind)
    (htext : l.kind = .punctuation → l.text = m.text) (stage : Stage) : step stage l = step stage m := by
  have hmark : ∀ c, l = .mark c ↔ m = .mark c := by
    intro c
    obtain ⟨kind, text⟩ := l
    obtain ⟨kind', text'⟩ := m
    simp only [Lexeme.mark, Lexeme.mk.injEq] at hkind htext ⊢
    subst hkind
    refine and_congr_right fun hpunctuation => ?_
    rw [htext hpunctuation]
  have henter : ∀ side depth, enter side depth l = enter side depth m := fun side depth => by
    simp only [enter, hkind]
  have hleave : ∀ side depth, leave side depth l = leave side depth m := fun side depth => by
    cases side <;> cases depth <;> simp only [leave, hmark]
  cases stage <;> simp only [step, henter, hleave, hmark]

theorem step_of_isBehind (h : IsBehind side depth stage) (hl : l ≠ .mark '(') :
    step stage l = leave side depth l := by
  rcases h with rfl | rfl
  · exact if_neg hl
  · rfl

theorem not_isFinal_of_isBehind (h : IsBehind side (depth + 1) stage) : ¬ stage.IsFinal := by
  rcases h with rfl | rfl <;> simp [IsFinal]

/-! ### Derivations reach a final stage -/

theorem run_restLexemes {trees : List TermTree} (hstage : IsBehind side (depth + 1) stage)
    (htrees : ∀ t ∈ trees, ∃ next, run (.term side (depth + 1)) t.lexemes = some next ∧
      IsBehind side (depth + 1) next) :
    run stage (TermTree.restLexemes trees) = some (.behindTerm side depth) := by
  induction trees generalizing stage with
  | nil =>
    rw [TermTree.restLexemes, run_cons_of_step (step_of_isBehind hstage (by simp))]
    rfl
  | cons t trees ih =>
    rw [List.forall_mem_cons] at htrees
    obtain ⟨⟨next, hnext, hbehind⟩, htrees⟩ := htrees
    rw [TermTree.restLexemes, run_cons_of_step (step_of_isBehind hstage (by simp)),
      run_append_of_run hnext]
    exact ih hbehind htrees

/-- A derived term leads from where a term has to come to where one has ended. -/
theorem exists_run_term (t : TermTree) (side : Side) (depth : ℕ) :
    ∃ next, run (.term side depth) t.lexemes = some next ∧ IsBehind side depth next := by
  induction t using TermTree.induction generalizing depth with
  | var x => exact ⟨.behindTerm side depth, by rw [TermTree.lexemes_var]; rfl, .inr rfl⟩
  | numeral n => exact ⟨.behindTerm side depth, by rw [TermTree.lexemes_numeral]; rfl, .inr rfl⟩
  | atom a => exact ⟨.behindAtom side depth, by rw [TermTree.lexemes_atom]; rfl, .inl rfl⟩
  | application f first rest ihfirst ihrest =>
    obtain ⟨next, hnext, hbehind⟩ := ihfirst (depth + 1)
    refine ⟨.behindTerm side depth, ?_, .inr rfl⟩
    have hopen : run (.term side depth) (⟨.atom, f⟩ :: .mark '(' ::
        (first.lexemes ++ TermTree.restLexemes rest)) =
        run (.term side (depth + 1)) (first.lexemes ++ TermTree.restLexemes rest) := rfl
    rw [TermTree.lexemes_application, hopen, run_append_of_run hnext]
    exact run_restLexemes hbehind fun t ht => ihrest t ht (depth + 1)

theorem exists_run_equation (e : EquationTree) :
    ∃ next, run .equation e.lexemes = some next ∧ IsBehind .right 0 next := by
  obtain ⟨middle, hmiddle, hbehind⟩ := exists_run_term e.left .left 0
  obtain ⟨next, hnext, hnext'⟩ := exists_run_term e.right .right 0
  -- the stage in front of an equation differs from that in front of a term only in being final
  have hleft : run .equation e.left.lexemes = run (.term .left 0) e.left.lexemes := by
    obtain ⟨l, ls, hls⟩ := List.exists_cons_of_ne_nil e.left.lexemes_ne_nil
    rw [hls]
    rfl
  refine ⟨next, ?_, hnext'⟩
  rw [EquationTree.lexemes, run_append_of_run (hleft.trans hmiddle),
    run_cons_of_step (step_of_isBehind hbehind (by simp))]
  exact hnext

theorem exists_run_restLexemes (trailing : Bool) (es : List EquationTree)
    (hstage : IsBehind .right 0 stage) :
    ∃ last, run stage (SourceTree.restLexemes trailing es) = some last ∧ last.IsFinal := by
  induction es generalizing stage with
  | nil =>
    cases trailing with
    | true =>
      refine ⟨.equation, ?_, trivial⟩
      rw [SourceTree.restLexemes, if_pos rfl, run_cons_of_step (step_of_isBehind hstage (by simp))]
      rfl
    | false =>
      refine ⟨stage, rfl, ?_⟩
      rcases hstage with rfl | rfl <;> exact ⟨rfl, rfl⟩
  | cons e es ih =>
    obtain ⟨next, hnext, hbehind⟩ := exists_run_equation e
    obtain ⟨last, hlast, hfinal⟩ := ih hbehind
    refine ⟨last, ?_, hfinal⟩
    rw [SourceTree.restLexemes, run_cons_of_step (step_of_isBehind hstage (by simp))]
    exact (run_append_of_run hnext _).trans hlast

/-- The lexemes of a derivation lead to a final stage. -/
theorem exists_run_source (d : SourceTree) :
    ∃ last, run .equation d.lexemes = some last ∧ last.IsFinal := by
  cases d with
  | empty => exact ⟨.equation, rfl, trivial⟩
  | list first rest trailing =>
    obtain ⟨next, hnext, hbehind⟩ := exists_run_equation first
    obtain ⟨last, hlast, hfinal⟩ := exists_run_restLexemes trailing rest hbehind
    exact ⟨last, (run_append_of_run hnext _).trans hlast, hfinal⟩

/-! ### Every stage has a way to a final one -/

/-- Spelled lexemes lead to a final stage. -/
def Completes (stage : Stage) (ls : List Lexeme) : Prop :=
  (∀ l ∈ ls, l.IsSpelled) ∧ ∃ last, run stage ls = some last ∧ last.IsFinal

theorem Completes.cons (hl : l.IsSpelled) (hstep : step stage l = some next)
    (h : next.Completes ls) : stage.Completes (l :: ls) := by
  obtain ⟨hls, last, hlast, hfinal⟩ := h
  exact ⟨List.forall_mem_cons.2 ⟨hl, hls⟩, last, (run_cons_of_step hstep ls).trans hlast, hfinal⟩

/-- Behind a term the open applications are closed, and the left side gets a right one. -/
theorem exists_completes_behindTerm (side : Side) (depth : ℕ) :
    ∃ ls, (Stage.behindTerm side depth).Completes ls := by
  have hclose : (Lexeme.mark ')').IsSpelled := by decide +kernel
  have hequals : (Lexeme.mark '=').IsSpelled := by decide +kernel
  have hvariable : Lexeme.IsSpelled ⟨.variable, "X"⟩ := by decide +kernel
  induction depth with
  | zero =>
    cases side with
    | left =>
      refine ⟨[.mark '=', ⟨.variable, "X"⟩], .cons hequals rfl (.cons hvariable rfl ?_)⟩
      exact ⟨List.forall_mem_nil _, .behindTerm .right 0, rfl, rfl, rfl⟩
    | right => exact ⟨[], List.forall_mem_nil _, .behindTerm .right 0, rfl, rfl, rfl⟩
  | succ depth ih =>
    obtain ⟨ls, hls⟩ := ih
    exact ⟨.mark ')' :: ls, .cons hclose rfl hls⟩

theorem exists_completes_term (side : Side) (depth : ℕ) :
    ∃ ls, (Stage.term side depth).Completes ls := by
  have hvariable : Lexeme.IsSpelled ⟨.variable, "X"⟩ := by decide +kernel
  obtain ⟨ls, hls⟩ := exists_completes_behindTerm side depth
  exact ⟨⟨.variable, "X"⟩ :: ls, .cons hvariable rfl hls⟩

theorem exists_completes (stage : Stage) : ∃ ls, stage.Completes ls := by
  cases stage with
  | equation => exact ⟨[], List.forall_mem_nil _, .equation, rfl, trivial⟩
  | term side depth => exact exists_completes_term side depth
  | behindTerm side depth => exact exists_completes_behindTerm side depth
  | behindAtom side depth =>
    have hopen : (Lexeme.mark '(').IsSpelled := by decide +kernel
    obtain ⟨ls, hls⟩ := exists_completes_term side (depth + 1)
    exact ⟨.mark '(' :: ls, .cons hopen rfl hls⟩

end Stage

end Multiequation
