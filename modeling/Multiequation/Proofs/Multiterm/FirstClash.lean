import Multiequation.Proofs.Multiterm.Paths

/-!
# The first clash of two multiterms

Paths are ordered lexicographically, as their places are met from above and from the left. Merging goes
through the places of both multiterms in this order. It fails only when at some path both have an
application and the two differ in functor or arity, and the clash it reports is that of the first such
path.
-/

namespace Multiequation

namespace Clash

/-- Functors and arities tell how two applications clash. -/
theorem Between.unique {h h' : Symbol × ℕ} {e e' : Clash} (he : Between h h' e)
    (he' : Between h h' e') : e = e' := by
  cases he <;> cases he' <;> simp_all

theorem Between.ne {h h' : Symbol × ℕ} {e : Clash} (he : Between h h' e) : h ≠ h' := by
  rintro rfl
  exact he.differ.elim (fun hf => hf rfl) fun hn => hn rfl

end Clash

namespace Cell

variable {vs ws : Queue Var} {f g : Symbol} {ls rs : List Cell} {c d m : Cell} {i : ℕ}
  {path : List ℕ} {e e' : Clash}

/-- Both cells have an application at the path, and the two differ in functor or arity. -/
def DifferAt (c d : Cell) (path : List ℕ) : Prop :=
  ∃ h h', c.headAt? path = some h ∧ d.headAt? path = some h' ∧ h ≠ h'

/-- The applications at the path clash, and those at the paths before it do not differ. -/
structure FirstClash (c d : Cell) (path : List ℕ) (e : Clash) : Prop where
  clash : ∃ h h', c.headAt? path = some h ∧ d.headAt? path = some h' ∧ Clash.Between h h' e
  first : ∀ before < path, ¬ c.DifferAt d before

/-- Below the root two applications differ where cells of one argument place do. -/
theorem differAt_app_cons :
    DifferAt ⟨vs, some ⟨f, ls⟩⟩ ⟨ws, some ⟨g, rs⟩⟩ (i :: path) ↔
      ∃ c d : Cell, ls[i]? = some c ∧ rs[i]? = some d ∧ c.DifferAt d path := by
  simp only [DifferAt, headAt?_app_cons]
  cases ls[i]? <;> cases rs[i]? <;> simp

theorem MergedAt.not_differAt (h : MergedAt c d m path) : ¬ c.DifferAt d path := by
  rintro ⟨k, k', hk, hk', hne⟩
  exact hne (h.agree k k' hk hk')

namespace FirstClash

theorem differAt (h : FirstClash c d path e) : c.DifferAt d path := by
  obtain ⟨k, k', hk, hk', he⟩ := h.clash
  exact ⟨k, k', hk, hk', he.ne⟩

theorem conflict (h : FirstClash c d path e) : c.Conflict d :=
  ⟨path, h.differAt⟩

/-- There is one first clash at most. -/
theorem unique {path' : List ℕ} (h : FirstClash c d path e) (h' : FirstClash c d path' e') :
    e = e' := by
  obtain hlt | rfl | hlt := lt_trichotomy path path'
  · exact absurd h.differAt (h'.first path hlt)
  · obtain ⟨k, l, hk, hl, he⟩ := h.clash
    obtain ⟨k', l', hk', hl', he'⟩ := h'.clash
    cases hk.symm.trans hk'
    cases hl.symm.trans hl'
    exact he.unique he'
  · exact absurd h'.differAt (h.first path' hlt)

end FirstClash

end Cell

namespace Multiterm

open Cell

/-- A merge that fails names the first clash. -/
theorem exists_firstClash {l r : Multiterm} {e : Clash} (h : l.merge r = .error e)
    (vs ws : Queue Var) : ∃ path, FirstClash ⟨vs, some l⟩ ⟨ws, some r⟩ path e := by
  induction l using Multiterm.induction generalizing r vs ws with
  | mk f ls ih =>
    obtain ⟨g, rs⟩ := r
    obtain hbetween | ⟨rfl, hlen, hargs⟩ := merge_eq_error h
    · exact ⟨[], ⟨_, _, rfl, rfl, hbetween⟩, fun _ hlt => absurd hlt (List.not_lt_nil _)⟩
    · obtain ⟨i, ⟨vs', s⟩, ⟨ws', t⟩, hc, hd, hcd, hbefore⟩ := mergeArgs_eq_error hargs
      obtain ⟨s, t, rfl, rfl, he⟩ := mergeOption_eq_error hcd
      obtain ⟨path, hclash, hfirst⟩ := ih _ (List.mem_of_getElem? hc) s rfl he vs' ws'
      refine ⟨i :: path, ?_, fun before hlt hdiffer => ?_⟩
      · simpa only [headAt?_app_cons, hc, hd, Option.bind_some] using hclash
      · -- a place before is the root, one that has been merged, or one before in the failing place
        cases before with
        | nil =>
          obtain ⟨k, k', hk, hk', hne⟩ := hdiffer
          cases hk
          cases hk'
          exact hne (congrArg (Prod.mk f) hlen)
        | cons j before =>
          obtain ⟨⟨vs₁, s₁⟩, ⟨ws₁, t₁⟩, hcj, hdj, hdiffer⟩ := differAt_app_cons.1 hdiffer
          obtain hj | ⟨rfl, hrest⟩ := List.cons_lt_cons_iff.1 hlt
          · obtain ⟨m, hm⟩ := hbefore j hj _ _ hcj hdj
            exact (mergedAt_mergeOption hm vs₁ ws₁ before).not_differAt hdiffer
          · cases hc.symm.trans hcj
            cases hd.symm.trans hdj
            exact hfirst before hrest hdiffer

/-- Multiterms that can not be merged have different applications at some path. -/
theorem conflict_of_mergeOption {l r : Option Multiterm} {e : Clash}
    (h : mergeOption l r = .error e) (vs ws : Queue Var) : Conflict ⟨vs, l⟩ ⟨ws, r⟩ := by
  obtain ⟨s, t, rfl, rfl, he⟩ := mergeOption_eq_error h
  obtain ⟨path, hpath⟩ := exists_firstClash he vs ws
  exact hpath.conflict

end Multiterm

end Multiequation
