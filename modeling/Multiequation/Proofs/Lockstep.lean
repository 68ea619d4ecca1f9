import Multiequation.Proofs.Outcome

/-!
# Runs in lockstep

The same work, done in two states that are related, ends alike when it gives the same result or the
same error and the states that it leaves are related again. What ends alike may be done one after the
other, once for every element of a list, and in a fold.
-/

namespace Multiequation

variable {ε σ α β γ : Type}

/-- Two runs ended in the same way, in states that `R` relates; a result is as `P` says. -/
inductive Alike (R : σ → σ → Prop) (P : α → Prop) :
    EStateM.Result ε σ α → EStateM.Result ε σ α → Prop
  | ok {a : α} {s t : σ} : P a → R s t → Alike R P (.ok a s) (.ok a t)
  | error {e : ε} {s t : σ} : R s t → Alike R P (.error e s) (.error e t)

namespace Alike

variable {R : σ → σ → Prop} {P : α → Prop} {s t : σ}

theorem mono {Q : α → Prop} {r r' : EStateM.Result ε σ α} (h : Alike R P r r')
    (hP : ∀ a, P a → Q a) : Alike R Q r r' := by
  cases h with
  | ok ha hR => exact .ok (hP _ ha) hR
  | error hR => exact .error hR

/-- One piece of work after the other; what the first one came to on the left is known. -/
theorem bind_of_ok {P : β → Prop} {Q : α → Prop} {x y : EStateM ε σ β} {f g : β → EStateM ε σ α}
    (hx : Alike R P (x s) (y t))
    (hf : ∀ b s' t', x s = .ok b s' → P b → R s' t' → Alike R Q (f b s') (g b t')) :
    Alike R Q ((x >>= f) s) ((y >>= g) t) := by
  simp only [Bind.bind, EStateM.bind]
  generalize x s = r at hx hf
  generalize y t = r' at hx
  cases hx with
  | ok hb hR => exact hf _ _ _ rfl hb hR
  | error hR => exact .error hR

/-- One piece of work after the other. -/
theorem bind {P : β → Prop} {Q : α → Prop} {x y : EStateM ε σ β} {f g : β → EStateM ε σ α}
    (hx : Alike R P (x s) (y t))
    (hf : ∀ b s' t', P b → R s' t' → Alike R Q (f b s') (g b t')) :
    Alike R Q ((x >>= f) s) ((y >>= g) t) :=
  hx.bind_of_ok fun b s' t' _ => hf b s' t'

theorem map {P : β → Prop} {Q : α → Prop} {x y : EStateM ε σ β} {f : β → α}
    (hx : Alike R P (x s) (y t)) (hf : ∀ b, P b → Q (f b)) :
    Alike R Q ((f <$> x) s) ((f <$> y) t) := by
  simp only [Functor.map, EStateM.map]
  generalize x s = r at hx
  generalize y t = r' at hx
  cases hx with
  | ok hb hR => exact .ok (hf _ hb) hR
  | error hR => exact .error hR

theorem get_bind {f g : σ → EStateM ε σ α} (h : Alike R P (f s s) (g t t)) :
    Alike R P ((get >>= f) s) ((get >>= g) t) := h

theorem modify {P : PUnit → Prop} {f g : σ → σ} (hP : P ⟨⟩) (h : R (f s) (g t)) :
    Alike R P ((modify f : EStateM ε σ PUnit) s) ((modify g : EStateM ε σ PUnit) t) := .ok hP h

theorem modifyGet {f g : σ → α × σ} (hfg : (g t).1 = (f s).1) (hP : P (f s).1)
    (h : R (f s).2 (g t).2) :
    Alike R P ((modifyGet f : EStateM ε σ α) s) ((modifyGet g : EStateM ε σ α) t) := by
  change Alike R P (.ok (f s).1 (f s).2) (.ok (g t).1 (g t).2)
  rw [hfg]
  exact .ok hP h

/-- An error that is thrown changes nothing. -/
theorem ofExcept (x : Except ε α) (h : R s t) : Alike R (fun _ => True)
    ((MonadExcept.ofExcept x : EStateM ε σ α) s) ((MonadExcept.ofExcept x : EStateM ε σ α) t) := by
  cases x with
  | ok a => exact .ok trivial h
  | error e => exact .error h

/-! ### Lists of steps -/

theorem optionForM {f : β → EStateM ε σ PUnit}
    (hf : ∀ b s t, R s t → Alike R (fun _ => True) (f b s) (f b t)) (o : Option β) (h : R s t) :
    Alike R (fun _ => True) (o.forM f s) (o.forM f t) := by
  cases o with
  | none => exact .ok trivial h
  | some b => exact hf b s t h

theorem forM {f : β → EStateM ε σ PUnit}
    (hf : ∀ b s t, R s t → Alike R (fun _ => True) (f b s) (f b t)) (bs : List β) (h : R s t) :
    Alike R (fun _ => True) (bs.forM f s) (bs.forM f t) := by
  induction bs generalizing s t with
  | nil => exact .ok trivial h
  | cons b bs ih => exact (hf b s t h).bind fun _ _ _ _ => ih

theorem foldlM {P : γ → Prop} {f : γ → β → EStateM ε σ γ}
    (hf : ∀ c b s t, P c → R s t → Alike R P (f c b s) (f c b t)) (bs : List β) {c : γ}
    (hc : P c) (h : R s t) : Alike R P (bs.foldlM f c s) (bs.foldlM f c t) := by
  induction bs generalizing c s t with
  | nil => exact .ok hc h
  | cons b bs ih => exact (hf c b s t hc h).bind fun _ _ _ => ih

/-- Steps that are alike as long as an invariant of the state on the left and of the elements that are
still to come holds. -/
theorem forM_of_ends {f : β → EStateM ε σ PUnit} (I : List β → σ → Prop)
    (hI : ∀ b bs s, I (b :: bs) s → Ends (f b) s (fun _ s' => I bs s') fun _ _ => True)
    (hf : ∀ b bs s t, I (b :: bs) s → R s t → Alike R (fun _ => True) (f b s) (f b t)) (bs : List β)
    (h : I bs s) (hR : R s t) : Alike R (fun _ => True) (bs.forM f s) (bs.forM f t) := by
  induction bs generalizing s t with
  | nil => exact .ok trivial hR
  | cons b bs ih =>
    exact (hf b bs s t h hR).bind_of_ok fun _ _ _ hok _ hR => ih ((hI b bs s h).of_ok hok) hR

theorem foldlM_of_ends {f : γ → β → EStateM ε σ γ} (I : γ → List β → σ → Prop)
    (hI : ∀ c b bs s, I c (b :: bs) s →
      Ends (f c b) s (fun c' s' => I c' bs s') fun _ _ => True)
    (hf : ∀ c b bs s t, I c (b :: bs) s → R s t → Alike R (fun _ => True) (f c b s) (f c b t))
    (bs : List β) {c : γ} (h : I c bs s) (hR : R s t) :
    Alike R (fun _ => True) (bs.foldlM f c s) (bs.foldlM f c t) := by
  induction bs generalizing c s t with
  | nil => exact .ok trivial hR
  | cons b bs ih =>
    exact (hf c b bs s t h hR).bind_of_ok fun _ _ _ hok _ hR => ih ((hI c b bs s h).of_ok hok) hR

/-! ### Work that was told apart -/

/-- Runs of which it is known how either of them ends are alike if their ends fit. -/
theorem of_ends {x y : EStateM ε σ α} {Q Q' : α → σ → Prop} {E E' : ε → σ → Prop}
    (hx : Ends x s Q E) (hy : Ends y t Q' E')
    (ok : ∀ a s' b t', Q a s' → Q' b t' → b = a ∧ P a ∧ R s' t')
    (error : ∀ e s' e' t', E e s' → E' e' t' → e' = e ∧ R s' t')
    (ok_error : ∀ a s' e t', Q a s' → E' e t' → False)
    (error_ok : ∀ e s' a t', E e s' → Q' a t' → False) : Alike R P (x s) (y t) := by
  cases hxs : x s with
  | ok a s' =>
    cases hyt : y t with
    | ok b t' =>
      obtain ⟨rfl, hP, hR⟩ := ok a s' b t' (hx.of_ok hxs) (hy.of_ok hyt)
      exact .ok hP hR
    | error e t' => exact (ok_error a s' e t' (hx.of_ok hxs) (hy.of_error hyt)).elim
  | error e s' =>
    cases hyt : y t with
    | ok b t' => exact (error_ok e s' b t' (hx.of_error hxs) (hy.of_ok hyt)).elim
    | error e' t' =>
      obtain ⟨rfl, hR⟩ := error e s' e' t' (hx.of_error hxs) (hy.of_error hyt)
      exact .error hR

end Alike

end Multiequation
