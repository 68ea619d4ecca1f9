import Mathlib.Tactic

/-!
# How stateful work ends

Work on a state either ends with a result or fails with an error, and leaves a state in both cases.
What is known of either end is carried along a sequence of steps, through lists of steps and folds.
-/

namespace Multiequation

variable {ε σ α β γ : Type}

/-- Started in `s`, the work ends as `Q` says or fails as `R` says. -/
def Ends (x : EStateM ε σ α) (s : σ) (Q : α → σ → Prop) (R : ε → σ → Prop) : Prop :=
  match x s with
  | .ok a s' => Q a s'
  | .error e s' => R e s'

namespace Ends

variable {s : σ} {Q : α → σ → Prop} {R : ε → σ → Prop}

theorem of_ok {x : EStateM ε σ α} (h : Ends x s Q R) {a : α} {s' : σ} (hx : x s = .ok a s') :
    Q a s' := by
  rw [Ends, hx] at h
  exact h

theorem of_error {x : EStateM ε σ α} (h : Ends x s Q R) {e : ε} {s' : σ}
    (hx : x s = .error e s') : R e s' := by
  rw [Ends, hx] at h
  exact h

theorem of_eq_ok {x : EStateM ε σ α} {a : α} {s' : σ} (hx : x s = .ok a s') (h : Q a s') :
    Ends x s Q R := by
  rwa [Ends, hx]

theorem of_eq_error {x : EStateM ε σ α} {e : ε} {s' : σ} (hx : x s = .error e s') (h : R e s') :
    Ends x s Q R := by
  rwa [Ends, hx]

/-- Work that can not fail has a result. -/
theorem exists_ok {x : EStateM ε σ α} (h : Ends x s Q fun _ _ => False) :
    ∃ a s', x s = .ok a s' ∧ Q a s' := by
  cases hx : x s with
  | ok a s' => exact ⟨a, s', rfl, h.of_ok hx⟩
  | error e s' => exact (h.of_error hx).elim

theorem mono {x : EStateM ε σ α} {Q' : α → σ → Prop} {R' : ε → σ → Prop} (h : Ends x s Q' R')
    (hQ : ∀ a s', Q' a s' → Q a s') (hR : ∀ e s', R' e s' → R e s') : Ends x s Q R := by
  cases hx : x s with
  | ok a s' => simpa only [Ends, hx] using hQ a s' (h.of_ok hx)
  | error e s' => simpa only [Ends, hx] using hR e s' (h.of_error hx)

/-- Work that can not fail stays so under any claim about its failures. -/
theorem safe {x : EStateM ε σ α} {Q' : α → σ → Prop} (h : Ends x s Q' fun _ _ => False)
    (hQ : ∀ a s', Q' a s' → Q a s') : Ends x s Q R :=
  h.mono hQ fun _ _ h => h.elim

theorem and {x : EStateM ε σ α} {Q' : α → σ → Prop} {R' : ε → σ → Prop} (h : Ends x s Q R)
    (h' : Ends x s Q' R') :
    Ends x s (fun a s' => Q a s' ∧ Q' a s') fun e s' => R e s' ∧ R' e s' := by
  cases hx : x s with
  | ok a s' => exact .of_eq_ok hx ⟨h.of_ok hx, h'.of_ok hx⟩
  | error e s' => exact .of_eq_error hx ⟨h.of_error hx, h'.of_error hx⟩

/-- One piece of work after the other. -/
theorem bind {x : EStateM ε σ β} {f : β → EStateM ε σ α} {P : β → σ → Prop} (hx : Ends x s P R)
    (hf : ∀ b s', P b s' → Ends (f b) s' Q R) : Ends (x >>= f) s Q R := by
  cases h : x s with
  | ok b s' =>
    have := hf b s' (hx.of_ok h)
    simpa only [Ends, Bind.bind, EStateM.bind, h] using this
  | error e s' =>
    have := hx.of_error h
    simpa only [Ends, Bind.bind, EStateM.bind, h] using this

/-- Work behind a step of which the end is known. -/
theorem bind_of_eq_ok {x : EStateM ε σ β} {f : β → EStateM ε σ α} {b : β} {s' : σ}
    (hx : x s = .ok b s') (h : Ends (f b) s' Q R) : Ends (x >>= f) s Q R :=
  (of_eq_ok (Q := fun c t => c = b ∧ t = s') hx ⟨rfl, rfl⟩).bind (by rintro _ _ ⟨rfl, rfl⟩; exact h)

/-! ### Lists of steps -/

/-- An invariant of the state and of the elements that are still to come holds at the end. -/
theorem forM {f : β → EStateM ε σ PUnit} (I : List β → σ → Prop)
    (hf : ∀ b bs s, I (b :: bs) s → Ends (f b) s (fun _ s' => I bs s') R) (bs : List β)
    (h : I bs s) : Ends (bs.forM f) s (fun _ s' => I [] s') R := by
  induction bs generalizing s with
  | nil => exact h
  | cons b bs ih => exact (hf b bs s h).bind fun _ _ => ih

/-- An invariant of the value, the state and the elements that are still to come holds at the end. -/
theorem foldlM {f : γ → β → EStateM ε σ γ} (I : γ → List β → σ → Prop)
    (hf : ∀ c b bs s, I c (b :: bs) s → Ends (f c b) s (fun c' s' => I c' bs s') R)
    (bs : List β) {c : γ} (h : I c bs s) : Ends (bs.foldlM f c) s (fun c' s' => I c' [] s') R := by
  induction bs generalizing c s with
  | nil => exact h
  | cons b bs ih => exact (hf c b bs s h).bind fun _ _ => ih

end Ends

/-! ### Single steps -/

section

variable {s : σ} {Q : α → σ → Prop} {R : ε → σ → Prop}

theorem ends_pure {a : α} (h : Q a s) : Ends (pure a) s Q R := h

theorem ends_throw {e : ε} (h : R e s) : Ends (throw e) s Q R := h

theorem get_bind (f : σ → EStateM ε σ α) (s : σ) : (get >>= f) s = f s s := rfl

theorem ends_set {Q : PUnit → σ → Prop} {s' : σ} (h : Q ⟨⟩ s') : Ends (set s') s Q R := h

theorem ends_modify {Q : PUnit → σ → Prop} {f : σ → σ} (h : Q ⟨⟩ (f s)) :
    Ends (modify f) s Q R := h

theorem ends_modifyGet {f : σ → α × σ} (h : Q (f s).1 (f s).2) : Ends (modifyGet f) s Q R := h

/-! ### Work behind a single step -/

theorem ends_get_bind {f : σ → EStateM ε σ α} (h : Ends (f s) s Q R) : Ends (get >>= f) s Q R := h

theorem ends_set_bind {f : PUnit → EStateM ε σ α} {s' : σ} (h : Ends (f ⟨⟩) s' Q R) :
    Ends (set s' >>= f) s Q R := h

theorem ends_modify_bind {g : σ → σ} {f : PUnit → EStateM ε σ α} (h : Ends (f ⟨⟩) (g s) Q R) :
    Ends (modify g >>= f) s Q R := h

end

end Multiequation
