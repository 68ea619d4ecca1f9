import Multiequation.Proofs.Multiterm.FirstClash
import Multiequation.Proofs.Multiterm.Shape

/-!
# What a merge leaves at each place

A merge lays one multiterm over another one. It fails exactly when at some path both have applications
that differ, with the clash of the first such path. Otherwise every place of either multiterm is one of the
result: a place of both holds the variables of both, the left ones in front, and a place of one only
holds what it held.
-/

namespace Multiequation

namespace Cell

variable {c d m c' d' : Cell} {i : ℕ} {path : List ℕ}

/-! ### Which places there are -/

theorem at?_append (c : Cell) (path rest : List ℕ) :
    c.at? (path ++ rest) = (c.at? path).bind fun d => d.at? rest := by
  induction path generalizing c with
  | nil => rfl
  | cons i path ih =>
    rw [List.cons_append, at?, at?]
    cases c.term with
    | none => rfl
    | some t => cases h : t.args[i]? <;> simp [h, ih]

theorem headAt?_append (c : Cell) (path rest : List ℕ) :
    c.headAt? (path ++ rest) = (c.at? path).bind fun d => d.headAt? rest := by
  rw [headAt?, at?_append, Option.bind_assoc]
  rfl

theorem varsAt_append (c : Cell) (path rest : List ℕ) :
    c.varsAt (path ++ rest) = (c.at? path).elim [] fun d => d.varsAt rest := by
  rw [varsAt, at?_append]
  cases c.at? path <;> rfl

/-- An application has as many places right below it as its arity says. -/
theorem isSome_at?_concat :
    (c.at? (path ++ [i])).isSome ↔ ∃ f n, c.headAt? path = some (f, n) ∧ i < n := by
  rw [at?_append, headAt?]
  cases c.at? path with
  | none => simp
  | some d =>
    obtain ⟨vs, t⟩ := d
    cases t with
    | none => simp [at?, head?]
    | some t =>
      simp only [Option.bind_some, at?, head?, Option.map_some, Option.some.injEq, Prod.mk.injEq]
      simp [Multiterm.arity]

/-- The cell at a path is told by what stands at the path and below it. -/
theorem at?_eq_some_of_paths (hsome : (m.at? path).isSome)
    (hhead : ∀ rest, m.headAt? (path ++ rest) = c'.headAt? rest)
    (hvars : ∀ rest, m.varsAt (path ++ rest) = c'.varsAt rest) : m.at? path = some c' := by
  obtain ⟨e, he⟩ := Option.isSome_iff_exists.1 hsome
  rw [he, Option.some.injEq]
  refine eq_of_paths (fun rest => ?_) fun rest => ?_
  · rw [← hhead, headAt?_append, he, Option.bind_some]
  · rw [← hvars, varsAt_append, he, Option.elim_some]

section Merged

variable (h : ∀ path, MergedAt c d m path)
include h

/-- A merged cell has the places of both cells. -/
theorem isSome_at?_of_mergedAt (path : List ℕ) :
    (m.at? path).isSome ↔ (c.at? path).isSome ∨ (d.at? path).isSome := by
  obtain rfl | ⟨path, i, rfl⟩ := List.eq_nil_or_concat path
  · simp [at?]
  · have hagree := (h path).agree
    rw [List.concat_eq_append, isSome_at?_concat, isSome_at?_concat, isSome_at?_concat,
      (h path).head]
    cases hc : c.headAt? path with
    | none => simp
    | some k =>
      cases hd : d.headAt? path with
      | none => simp
      | some k' => simp [hagree k k' hc hd]

/-- A place of both cells holds the variables of both. -/
theorem exists_at?_of_mergedAt (hc : c.at? path = some c') (hd : d.at? path = some d') :
    ∃ e, m.at? path = some e ∧ e.vars = c'.vars ++ d'.vars := by
  have hsome := (isSome_at?_of_mergedAt h path).2 (.inl (by rw [hc]; rfl))
  obtain ⟨e, he⟩ := Option.isSome_iff_exists.1 hsome
  refine ⟨e, he, Queue.ext_toList ?_⟩
  have hvars := (h path).vars
  rwa [varsAt, varsAt, varsAt, hc, hd, he] at hvars

/-- A place of the left cell alone keeps its cell. -/
theorem at?_of_mergedAt_left (hc : c.at? path = some c') (hd : d.at? path = none) :
    m.at? path = some c' := by
  have hsome := (isSome_at?_of_mergedAt h path).2 (.inl (by rw [hc]; rfl))
  refine at?_eq_some_of_paths hsome (fun rest => ?_) fun rest => ?_
  · rw [(h _).head, headAt?_append, headAt?_append, hc, hd, Option.bind_some, Option.bind_none,
      Option.or_none]
  · rw [(h _).vars, varsAt_append, varsAt_append, hc, hd, Option.elim_some, Option.elim_none,
      List.append_nil]

/-- A place of the right cell alone keeps its cell. -/
theorem at?_of_mergedAt_right (hc : c.at? path = none) (hd : d.at? path = some d') :
    m.at? path = some d' := by
  have hsome := (isSome_at?_of_mergedAt h path).2 (.inr (by rw [hd]; rfl))
  refine at?_eq_some_of_paths hsome (fun rest => ?_) fun rest => ?_
  · rw [(h _).head, headAt?_append, headAt?_append, hc, hd, Option.bind_some, Option.bind_none,
      Option.none_or]
  · rw [(h _).vars, varsAt_append, varsAt_append, hc, hd, Option.elim_some, Option.elim_none,
      List.nil_append]

end Merged

end Cell

namespace Multiterm

open Cell

variable {l r m : Multiterm}

/-- The multiterm `m` is `l` and `r` laid over each other. -/
structure IsOverlay (l r m : Multiterm) : Prop where
  head : ∀ path, (nested m).headAt? path =
    ((nested l).headAt? path).or ((nested r).headAt? path)
  isSome_head : ∀ path, ((nested m).headAt? path).isSome ↔
    ((nested l).headAt? path).isSome ∨ ((nested r).headAt? path).isSome
  both : ∀ path c d, (nested l).at? path = some c → (nested r).at? path = some d →
    ∃ e, (nested m).at? path = some e ∧ e.vars = c.vars ++ d.vars
  left : ∀ path c, (nested l).at? path = some c → (nested r).at? path = none →
    (nested m).at? path = some c
  right : ∀ path d, (nested l).at? path = none → (nested r).at? path = some d →
    (nested m).at? path = some d
  vars : m.vars.Perm (l.vars ++ r.vars)

theorem isOverlay_merge (h : l.merge r = .ok m) : IsOverlay l r m := by
  have hm : ∀ path, MergedAt (nested l) (nested r) (nested m) path := mergedAt_merge h .empty .empty
  exact {
    head := fun path => (hm path).head
    isSome_head := fun path => by rw [(hm path).head, Option.isSome_or, Bool.or_eq_true]
    both := fun _ _ _ => exists_at?_of_mergedAt hm
    left := fun _ _ => at?_of_mergedAt_left hm
    right := fun _ _ => at?_of_mergedAt_right hm
    vars := vars_merge h }

/-- Where a merge succeeds no applications differ. -/
theorem not_differAt_of_merge (h : l.merge r = .ok m) (path : List ℕ) :
    ¬ (nested l).DifferAt (nested r) path :=
  (mergedAt_merge h .empty .empty path).not_differAt

/-- A merge fails exactly when at some path the two multiterms have applications that differ in functor
or arity. The clash is that of the first such path, and a successful merge lays the two over each
other. -/
theorem merge_exact (l r : Multiterm) :
    ((∃ e, mergeOption (some l) (some r) = .error e) ↔
      ∃ path, (nested l).DifferAt (nested r) path) ∧
    (∀ e, mergeOption (some l) (some r) = .error e ↔
      ∃ path, (nested l).FirstClash (nested r) path e) ∧
    ∀ m, mergeOption (some l) (some r) = .ok m → ∃ t, m = some t ∧ IsOverlay l r t := by
  rw [mergeOption_some_some]
  cases h : l.merge r with
  | ok t =>
    refine ⟨?_, fun e => ?_, fun m hm => ⟨t, (Except.ok.inj hm).symm, isOverlay_merge h⟩⟩
    · exact iff_of_false nofun fun ⟨path, hpath⟩ => not_differAt_of_merge h path hpath
    · exact iff_of_false nofun fun ⟨path, hpath⟩ => not_differAt_of_merge h path hpath.differAt
  | error e =>
    obtain ⟨path, hfirst⟩ := exists_firstClash h .empty .empty
    refine ⟨iff_of_true ⟨e, rfl⟩ ⟨path, hfirst.differAt⟩, fun e' => ?_, nofun⟩
    constructor
    · intro he
      cases he
      exact ⟨path, hfirst⟩
    · rintro ⟨path', hfirst'⟩
      rw [hfirst'.unique hfirst]
      rfl

/-- With `f(_0, g(_1))` on the left and `f(_2 = a, _3 = g(_4))` on the right, the merge is
`f(_0 = _2 = a, _3 = g(_1 = _4))`. -/
theorem merge_exact_of_nested_places : ∃ l r m : Multiterm,
    mergeOption (some l) (some r) = .ok (some m) ∧ IsOverlay l r m ∧
    m.vars = [⟨0⟩, ⟨2⟩, ⟨3⟩, ⟨1⟩, ⟨4⟩] := by
  let f : Symbol := ⟨"f", by decide⟩
  let g : Symbol := ⟨"g", by decide⟩
  let a : Symbol := ⟨"a", by decide⟩
  let l : Multiterm := ⟨f, [.var ⟨0⟩, .nested ⟨g, [.var ⟨1⟩]⟩]⟩
  let r : Multiterm := ⟨f, [⟨.singleton ⟨2⟩, some (leaf a)⟩, ⟨.singleton ⟨3⟩, some ⟨g, [.var ⟨4⟩]⟩⟩]⟩
  let m : Multiterm := ⟨f, [⟨⟨[⟨0⟩, ⟨2⟩]⟩, some (leaf a)⟩,
    ⟨⟨[⟨3⟩]⟩, some ⟨g, [⟨⟨[⟨1⟩, ⟨4⟩]⟩, none⟩]⟩⟩]⟩
  have hm : mergeOption (some l) (some r) = .ok (some m) := rfl
  obtain ⟨t, ht, hoverlay⟩ := (merge_exact l r).2.2 _ hm
  cases ht
  exact ⟨l, r, m, hm, hoverlay, rfl⟩

/-- Of the clashes of `f(g(a), c)` with `f(g(b), g(a))` the one at the left is reported. -/
example (f g a b c : Symbol) (h : a ≠ b) :
    mergeOption (some ⟨f, [.nested ⟨g, [.nested (leaf a)]⟩, .nested (leaf c)]⟩)
      (some ⟨f, [.nested ⟨g, [.nested (leaf b)]⟩, .nested ⟨g, [.nested (leaf a)]⟩]⟩) =
        .error (.symbols a b) := by
  simp [merge, mergeOption, Cell.mergeArgs, nested, leaf, h, bind, Except.bind]

end Multiterm

end Multiequation
