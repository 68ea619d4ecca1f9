import Multiequation.Proofs.Relational.Encoding
import Multiequation.Proofs.Relational.Unification

/-!
# Bindings of encoded terms

The first part of an encoded application is its symbol, and what follows is a list of encoded terms;
so two encoded terms meet in encoded terms and in lists of them only. Every variable is therefore bound
to an encoded term, and what it becomes when all bindings are carried out encodes a term as well.
-/

namespace Multiequation.Relational

/-- What a part of an encoded term may be. -/
inductive Part
  | term
  | args

/-- The value encodes a term, or a list of terms, whose variables have been met. -/
def Encoding.Codes (enc : Encoding) : Part → Value → Prop
  | .term, v => ∃ t : Term, (∀ x ∈ t.vars, x ∈ enc.names) ∧ v = t.toValue enc.index
  | .args, v => ∃ ts : List Term, (∀ t ∈ ts, ∀ x ∈ t.vars, x ∈ enc.names) ∧
      v = .ofList (ts.map (Term.toValue enc.index))

namespace Encoding

variable {enc : Encoding} {part : Part} {v car cdr : Value} {n : ℕ}

theorem codes_toValue {t : Term} (h : ∀ x ∈ t.vars, x ∈ enc.names) :
    enc.Codes .term (t.toValue enc.index) :=
  ⟨t, h, rfl⟩

/-- Both kinds of pairs consist of a term and a list of terms. -/
theorem Codes.of_pair (h : enc.Codes part (.pair car cdr)) :
    enc.Codes .term car ∧ enc.Codes .args cdr := by
  cases part with
  | term =>
    obtain ⟨t, ht, heq⟩ := h
    cases t with
    | var x => simp at heq
    | app f args =>
      rw [Term.toValue_app] at heq
      cases args with
      | nil => cases heq
      | cons a as =>
        obtain ⟨rfl, rfl⟩ := Value.pair.inj heq
        rw [Term.vars_app, List.forall_mem_flatMap] at ht
        exact ⟨⟨.const f, by simp [Term.const], rfl⟩, a :: as, ht, rfl⟩
  | args =>
    obtain ⟨ts, hts, heq⟩ := h
    cases ts with
    | nil => cases heq
    | cons t ts =>
      obtain ⟨rfl, rfl⟩ := Value.pair.inj heq
      rw [List.forall_mem_cons] at hts
      exact ⟨⟨t, hts.1, rfl⟩, ts, hts.2, rfl⟩

/-- A list of terms is no variable. -/
theorem Codes.of_var (h : enc.Codes part (.var n)) : part = .term := by
  cases part with
  | term => rfl
  | args =>
    obtain ⟨ts, -, heq⟩ := h
    cases ts <;> cases heq

end Encoding

namespace Bindings

variable {enc : Encoding} {part : Part} {s s' : Bindings} {u v : Value} {ps : List (Value × Value)}

/-- Every bound value encodes a term. -/
def Coded (enc : Encoding) (s : Bindings) : Prop :=
  ∀ e ∈ s.entries, enc.Codes .term e.2

theorem Coded.walk (hs : s.Coded enc) (hv : enc.Codes part v) : enc.Codes part (s.walk v) := by
  cases part with
  | term => exact walk_mem hs hv
  | args =>
    obtain ⟨ts, hts, rfl⟩ := hv
    cases ts with
    | nil => exact ⟨[], hts, walk_nil⟩
    | cons t ts => exact ⟨t :: ts, hts, walk_pair _ _⟩

theorem Coded.extend_walked {n : ℕ} (hs : s.Coded enc) (hu : enc.Codes part u)
    (hv : enc.Codes part v) (hn : s.walk u = .var n) : (s.extend n (s.walk v)).Coded enc := by
  have hwalk := hs.walk hu
  rw [hn] at hwalk
  obtain rfl := hwalk.of_var
  exact List.forall_mem_cons.2 ⟨hs.walk hv, hs⟩

theorem Unified.coded (h : Unified u v s s') (hs : s.Coded enc) (hu : enc.Codes part u)
    (hv : enc.Codes part v) : s'.Coded enc := by
  induction h generalizing part with
  | same _ => exact hs
  | left hn _ => exact hs.extend_walked hu hv hn
  | right hn _ => exact hs.extend_walked hv hu hn
  | pair hwu hwv _ _ ihcar ihcdr =>
    have hu := hs.walk hu
    have hv := hs.walk hv
    rw [hwu] at hu
    rw [hwv] at hv
    exact ihcdr (ihcar hs hu.of_pair.1 hv.of_pair.1) hu.of_pair.2 hv.of_pair.2

theorem UnifiedAll.coded (h : UnifiedAll ps s s') (hs : s.Coded enc)
    (hps : ∀ p ∈ ps, enc.Codes .term p.1 ∧ enc.Codes .term p.2) : s'.Coded enc := by
  induction h with
  | nil => exact hs
  | cons hp _ ih =>
    rw [List.forall_mem_cons] at hps
    exact ih (hp.coded hs hps.1.1 hps.1.2) hps.2

/-- What a variable that has been met becomes encodes a term. -/
theorem Triangular.codes_walkStar (hs : s.Triangular) (hcoded : s.Coded enc) {x : String}
    (hx : x ∈ enc.names) : enc.Codes .term (s.walkStar (.var (enc.index x))) := by
  obtain ⟨rank, hrank⟩ := hs.ranked
  induction hr : rank (enc.index x) using Nat.strong_induction_on generalizing x with
  | _ r ih =>
    cases hv : s.get? (enc.index x) with
    | none =>
      rw [walkStar_var_of_none hs hv]
      exact ⟨.var x, by simpa using hx, by simp⟩
    | some v =>
      have hmem := mem_of_get? hv
      obtain ⟨t, ht, rfl⟩ : enc.Codes .term v := hcoded _ hmem
      have hargs : ∀ y ∈ t.vars, enc.Codes .term (s.walkStar (.var (enc.index y))) := by
        intro y hy
        have hlt := hrank _ hmem (enc.index y) (by simpa [Term.vars_toValue] using ⟨y, hy, rfl⟩)
        exact ih _ (hr ▸ hlt) (ht y hy) rfl
      have : Nonempty Term := ⟨t⟩
      choose! image hvars himage using hargs
      rw [hs.walkStar_var_of_some hv, hs.walkStar_eq_bind, t.bind_toValue himage]
      refine ⟨t.bind image, fun z hz => ?_, rfl⟩
      obtain ⟨y, hy, hz⟩ := (t.mem_vars_bind).1 hz
      exact hvars y hy z hz

end Bindings

end Multiequation.Relational
