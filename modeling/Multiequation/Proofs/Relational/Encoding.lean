import Multiequation.Proofs.Relational.Assignment
import Multiequation.Proofs.Unifier
import Multiequation.Relational.Encoding

/-!
# Terms encoded as values

Encoding a term adds its new variables to the names and gives the value that the term has under the
numbers of all names met so far or later. Under different numbers for different names different terms
have different values, and decoding leads back. Replacing variables before encoding is the same as
replacing them afterwards.
-/

namespace Multiequation

open Relational

/-! ### The value of a term -/

namespace Relational.Value

/-- The value of an application. -/
def ofApp (f : Symbol) (args : List Value) : Value :=
  if args.isEmpty then .sym f else .pair (.sym f) (.ofList args)

variable {θ : ℕ → Value} {f g : Symbol} {us vs : List Value}

@[simp] theorem bind_ofList : (ofList vs).bind θ = ofList (vs.map (bind θ)) := by
  induction vs with
  | nil => rfl
  | cons v vs ih => rw [ofList, bind_pair, ih, List.map_cons, ofList]

@[simp] theorem bind_ofApp : (ofApp f vs).bind θ = ofApp f (vs.map (bind θ)) := by
  cases vs with
  | nil => rfl
  | cons v vs => exact congrArg (Value.pair (.sym f)) bind_ofList

@[simp] theorem vars_ofList : (ofList vs).vars = vs.flatMap vars := by
  induction vs with
  | nil => rfl
  | cons v vs ih => rw [ofList, vars_pair, ih, List.flatMap_cons]

@[simp] theorem vars_ofApp : (ofApp f vs).vars = vs.flatMap vars := by
  cases vs with
  | nil => rfl
  | cons v vs => exact vars_ofList

theorem ofList_injective : Function.Injective ofList := by
  intro us vs h
  induction us generalizing vs with
  | nil =>
    cases vs with
    | nil => rfl
    | cons v vs => cases h
  | cons u us ih =>
    cases vs with
    | nil => cases h
    | cons v vs =>
      obtain ⟨rfl, hrest⟩ := pair.inj h
      rw [ih hrest]

theorem ofApp_inj (h : ofApp f us = ofApp g vs) : f = g ∧ us = vs := by
  cases us <;> cases vs
  · exact ⟨sym.inj h, rfl⟩
  · cases h
  · cases h
  · obtain ⟨hf, hargs⟩ := pair.inj h
    exact ⟨sym.inj hf, ofList_injective hargs⟩

end Relational.Value

namespace Term

mutual

/-- The value of a term whose variables are numbered by `ν`. -/
def toValue (ν : String → ℕ) : Term → Value
  | .var x => .var (ν x)
  | .app f args => .ofApp f (toValues ν args)

/-- The values of terms. -/
def toValues (ν : String → ℕ) : List Term → List Value
  | [] => []
  | t :: ts => t.toValue ν :: toValues ν ts

end

variable {ν μ : String → ℕ}

theorem toValues_eq_map (ts : List Term) : toValues ν ts = ts.map (toValue ν) := by
  induction ts with
  | nil => rfl
  | cons t ts ih => simp [toValues, ih]

@[simp] theorem toValue_var (x : String) : (var x).toValue ν = .var (ν x) := by
  rw [toValue]

@[simp] theorem toValue_app (f : Symbol) (args : List Term) :
    (app f args).toValue ν = .ofApp f (args.map (toValue ν)) := by
  rw [toValue, toValues_eq_map]

theorem vars_toValue (t : Term) : (t.toValue ν).vars = t.vars.map ν := by
  induction t using Term.induction with
  | var x => simp
  | app f args ih =>
    rw [toValue_app, Value.vars_ofApp, List.flatMap_map, vars_app, List.map_flatMap]
    exact List.flatMap_congr ih

/-- Variables may be replaced before or after encoding. -/
theorem bind_toValue {Θ : ℕ → Value} {θ : String → Term} (t : Term)
    (h : ∀ x ∈ t.vars, Θ (ν x) = (θ x).toValue μ) :
    (t.toValue ν).bind Θ = (t.bind θ).toValue μ := by
  induction t using Term.induction with
  | var x => simpa using h x
  | app f args ih =>
    rw [toValue_app, Value.bind_ofApp, bind_app, toValue_app, List.map_map, List.map_map]
    refine congrArg _ (List.map_congr_left fun t ht => ih t ht fun x hx => h x ?_)
    simpa using ⟨t, ht, hx⟩

theorem toValue_congr (t : Term) (h : ∀ x ∈ t.vars, ν x = μ x) : t.toValue ν = t.toValue μ := by
  induction t using Term.induction with
  | var x => simpa using h x
  | app f args ih =>
    rw [toValue_app, toValue_app]
    refine congrArg _ (List.map_congr_left fun t ht => ih t ht fun x hx => h x ?_)
    simpa using ⟨t, ht, hx⟩

theorem eq_of_map_toValue_eq {ss ts : List Term} (h : ss.map (toValue ν) = ts.map (toValue ν))
    (hinj : ∀ s ∈ ss, ∀ t ∈ ts, s.toValue ν = t.toValue ν → s = t) : ss = ts := by
  induction ss generalizing ts with
  | nil => exact (List.map_eq_nil_iff.1 h.symm).symm
  | cons s ss ih =>
    cases ts with
    | nil => cases h
    | cons t ts =>
      obtain ⟨hst, hrest⟩ := List.cons.inj h
      rw [hinj s List.mem_cons_self t List.mem_cons_self hst, ih hrest fun s hs t ht =>
        hinj s (List.mem_cons_of_mem _ hs) t (List.mem_cons_of_mem _ ht)]

/-- Under different numbers for different names different terms have different values. -/
theorem toValue_inj {S : Set String} (hν : S.InjOn ν) {s t : Term} (hs : ∀ x ∈ s.vars, x ∈ S)
    (ht : ∀ x ∈ t.vars, x ∈ S) (h : s.toValue ν = t.toValue ν) : s = t := by
  induction s using Term.induction generalizing t with
  | var x =>
    cases t with
    | var y => rw [hν (hs x (by simp)) (ht y (by simp)) (by simpa using h)]
    | app g ts => cases ts <;> simp [Value.ofApp] at h
  | app f ss ih =>
    cases t with
    | var y => cases ss <;> simp [Value.ofApp] at h
    | app g ts =>
      rw [toValue_app, toValue_app] at h
      obtain ⟨rfl, hargs⟩ := Value.ofApp_inj h
      rw [vars_app, List.forall_mem_flatMap] at hs ht
      rw [eq_of_map_toValue_eq hargs fun s hs' t ht' => ih s hs' (hs s hs') (ht t ht')]

end Term

/-! ### Names and numbers -/

namespace Relational.Encoding

variable {enc enc' : Encoding} {x y : String}

/-- The number of a name that has been met. -/
def index (enc : Encoding) (x : String) : ℕ := enc.names.idxOf x

/-- The encoding after a name has been met. -/
def meet (enc : Encoding) (x : String) : Encoding :=
  if x ∈ enc.names then enc else ⟨enc.names ++ [x]⟩

/-- The encoding after names have been met one after the other. -/
def meetAll (enc : Encoding) (xs : List String) : Encoding := xs.foldl meet enc

theorem meetAll_append (xs ys : List String) :
    enc.meetAll (xs ++ ys) = (enc.meetAll xs).meetAll ys :=
  List.foldl_append

theorem prefix_meet (enc : Encoding) (x : String) : enc.names <+: (enc.meet x).names := by
  rw [meet]
  split_ifs
  · exact List.prefix_rfl
  · exact List.prefix_append _ _

@[simp] theorem mem_meet : y ∈ (enc.meet x).names ↔ y ∈ enc.names ∨ y = x := by
  rw [meet]
  split_ifs with hx
  · exact (or_iff_left_of_imp fun h => h ▸ hx).symm
  · simp

theorem nodup_meet (h : enc.names.Nodup) : (enc.meet x).names.Nodup := by
  rw [meet]
  split_ifs with hx
  · exact h
  · rw [List.nodup_append]
    refine ⟨h, List.nodup_singleton x, fun a ha b hb => ?_⟩
    obtain rfl := List.mem_singleton.1 hb
    exact fun hax => hx (hax ▸ ha)

theorem prefix_meetAll (xs : List String) : enc.names <+: (enc.meetAll xs).names := by
  induction xs generalizing enc with
  | nil => exact List.prefix_rfl
  | cons x xs ih => exact (prefix_meet enc x).trans ih

theorem mem_meetAll {xs : List String} : y ∈ (enc.meetAll xs).names ↔ y ∈ enc.names ∨ y ∈ xs := by
  induction xs generalizing enc with
  | nil => simp [meetAll]
  | cons x xs ih =>
    rw [meetAll, List.foldl_cons, ← meetAll, ih, mem_meet, List.mem_cons, or_assoc]

/-- Meeting names again adds none. -/
theorem meetAll_of_mem {xs : List String} (h : ∀ x ∈ xs, x ∈ enc.names) : enc.meetAll xs = enc := by
  induction xs with
  | nil => rfl
  | cons x xs ih =>
    rw [List.forall_mem_cons] at h
    rw [meetAll, List.foldl_cons, meet, if_pos h.1, ← meetAll, ih h.2]

theorem nodup_meetAll (h : enc.names.Nodup) (xs : List String) : (enc.meetAll xs).names.Nodup := by
  induction xs generalizing enc with
  | nil => exact h
  | cons x xs ih => exact ih (nodup_meet h)

/-- A name that has been met keeps its number. -/
theorem index_eq_of_mem (h : enc.names <+: enc'.names) (hx : x ∈ enc.names) :
    enc'.index x = enc.index x := by
  obtain ⟨rest, hrest⟩ := h
  rw [index, index, ← hrest, List.idxOf_append_of_mem hx]

theorem injOn_index (enc : Encoding) : {x | x ∈ enc.names}.InjOn enc.index :=
  fun _ hx _ _ h => List.idxOf_inj hx |>.1 h

/-! ### Encoding -/

theorem number_eq (x : String) (enc : Encoding) :
    (number x).run enc = ((enc.meet x).index x, enc.meet x) := by
  show number x enc = _
  rw [number, index, meet]
  cases hn : enc.names.idxOf? x with
  | none =>
    have hx : x ∉ enc.names := List.idxOf?_eq_none_iff.1 hn
    simp [hx, List.idxOf_append_of_notMem]
  | some n =>
    have hx : x ∈ enc.names := List.isSome_idxOf?.1 (by simp [hn])
    simp [hx, List.idxOf_eq_getD_idxOf?, hn]

theorem encodeArgs_eq {ts : List Term} (h : ∀ t ∈ ts, ∀ enc : Encoding,
      (encode t).run enc = (t.toValue (enc.meetAll t.vars).index, enc.meetAll t.vars))
    (enc : Encoding) : (encodeArgs ts).run enc =
      (.ofList (ts.map (Term.toValue (enc.meetAll (ts.flatMap Term.vars)).index)),
        enc.meetAll (ts.flatMap Term.vars)) := by
  induction ts generalizing enc with
  | nil =>
    rw [encodeArgs]
    rfl
  | cons t ts ih =>
    rw [List.forall_mem_cons] at h
    rw [encodeArgs, List.flatMap_cons, meetAll_append]
    simp only [StateT.run_bind, h.1, ih h.2]
    have hvalue : t.toValue (enc.meetAll t.vars).index =
        t.toValue ((enc.meetAll t.vars).meetAll (ts.flatMap Term.vars)).index := by
      refine t.toValue_congr fun x hx => (index_eq_of_mem (prefix_meetAll _) ?_).symm
      exact mem_meetAll.2 (.inr hx)
    rw [hvalue]
    rfl

/-- Encoding gives the value of the term under the numbers of the names met so far. -/
theorem encode_eq (t : Term) (enc : Encoding) :
    (encode t).run enc = (t.toValue (enc.meetAll t.vars).index, enc.meetAll t.vars) := by
  induction t using Term.induction generalizing enc with
  | var x =>
    rw [encode]
    simp only [StateT.run_bind, number_eq, Term.vars_var, Term.toValue_var]
    rfl
  | app f args ih =>
    rw [encode, Term.vars_app, Term.toValue_app]
    simp only [StateT.run_bind, encodeArgs_eq ih]
    cases args <;> rfl

/-- The values of both sides of an equation. -/
def sides (enc : Encoding) (e : Equation) : Value × Value :=
  (e.left.toValue enc.index, e.right.toValue enc.index)

theorem sides_eq_of_mem {e : Equation} (h : enc.names <+: enc'.names)
    (he : ∀ x ∈ e.vars, x ∈ enc.names) : enc'.sides e = enc.sides e := by
  rw [Equation.vars, List.forall_mem_append] at he
  rw [sides, sides, e.left.toValue_congr fun x hx => index_eq_of_mem h (he.1 x hx),
    e.right.toValue_congr fun x hx => index_eq_of_mem h (he.2 x hx)]

theorem encodeEquation_eq (e : Equation) (enc : Encoding) :
    (encodeEquation e).run enc = ((enc.meetAll e.vars).sides e, enc.meetAll e.vars) := by
  have hleft : e.left.toValue (enc.meetAll e.left.vars).index =
      e.left.toValue (enc.meetAll e.vars).index := by
    rw [Equation.vars, meetAll_append]
    exact e.left.toValue_congr fun x hx =>
      (index_eq_of_mem (prefix_meetAll _) (mem_meetAll.2 (.inr hx))).symm
  rw [encodeEquation]
  simp only [StateT.run_bind, encode_eq]
  rw [sides, ← hleft, Equation.vars, meetAll_append]
  rfl

/-- Encoding equations gives the values of their sides under the numbers of all names. -/
theorem mapM_encodeEquation (E : List Equation) (enc : Encoding) :
    (E.mapM encodeEquation).run enc =
      (E.map (enc.meetAll (E.flatMap Equation.vars)).sides,
        enc.meetAll (E.flatMap Equation.vars)) := by
  induction E generalizing enc with
  | nil => rfl
  | cons e E ih =>
    rw [List.mapM_cons, List.flatMap_cons, meetAll_append]
    simp only [StateT.run_bind, encodeEquation_eq, ih]
    have hsides : (enc.meetAll e.vars).sides e =
        ((enc.meetAll e.vars).meetAll (E.flatMap Equation.vars)).sides e :=
      (sides_eq_of_mem (prefix_meetAll _) fun x hx => mem_meetAll.2 (.inr hx)).symm
    rw [hsides]
    rfl

/-! ### Decoding -/

theorem decodeArgs?_ofList {ts : List Term}
    (h : ∀ t ∈ ts, enc.decode? (t.toValue enc.index) = some t) :
    enc.decodeArgs? (.ofList (ts.map (Term.toValue enc.index))) = some ts := by
  induction ts with
  | nil => rfl
  | cons t ts ih =>
    rw [List.forall_mem_cons] at h
    rw [List.map_cons, Value.ofList, decodeArgs?, h.1, ih h.2]
    rfl

/-- The value of a term is decoded to the term. -/
theorem decode?_toValue {t : Term} (h : ∀ x ∈ t.vars, x ∈ enc.names) :
    enc.decode? (t.toValue enc.index) = some t := by
  induction t using Term.induction with
  | var x =>
    have hx : x ∈ enc.names := h x (by simp)
    rw [Term.toValue_var, decode?, index, List.getElem?_eq_getElem (List.idxOf_lt_length_iff.2 hx),
      List.getElem_idxOf]
    rfl
  | app f args ih =>
    rw [Term.vars_app, List.forall_mem_flatMap] at h
    have hargs := decodeArgs?_ofList fun t ht => ih t ht (h t ht)
    rw [Term.toValue_app]
    cases args with
    | nil => rfl
    | cons t ts =>
      show (enc.decodeArgs? _).map _ = _
      rw [hargs]
      rfl

end Relational.Encoding

end Multiequation
