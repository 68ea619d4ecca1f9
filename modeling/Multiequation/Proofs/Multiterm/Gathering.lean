import Multiequation.Proofs.Multiterm.FirstClash

/-!
# Merging many multiterms

A cell gathers other cells when it has an application at a path exactly when one of them has it, and
has the variables of all of them there. What gathers some cells can be merged with what gathers others
exactly when none of the former conflicts with one of the latter, whatever the order in which they
were merged before. So multiterms can all be merged exactly when no two of them conflict, and the
result depends on their order in the order of variables only.
-/

namespace Multiequation

namespace Cell

/-- At each path `c` has the application that cells of the list have and the variables of all of
them. -/
structure Gathers (parts : List Cell) (c : Cell) : Prop where
  head : ∀ path h, c.headAt? path = some h ↔ ∃ d ∈ parts, d.headAt? path = some h
  vars : ∀ path, (c.varsAt path).Perm (parts.flatMap fun d => d.varsAt path)

variable {parts parts' : List Cell} {c c' d m : Cell} {s t : Option Multiterm}

theorem gathers_nil : Gathers [] ⟨.empty, none⟩ := by
  constructor
  · rintro (_ | ⟨i, path⟩) h <;> simp [head?]
  · rintro (_ | ⟨i, path⟩) <;> simp

theorem gathers_singleton (c : Cell) : Gathers [c] c := by
  constructor <;> simp

namespace Gathers

theorem perm (h : Gathers parts c) (hperm : parts.Perm parts') : Gathers parts' c :=
  ⟨fun path hd => (h.head path hd).trans (by simp only [hperm.mem_iff]),
    fun path => (h.vars path).trans (hperm.flatMap_right _)⟩

theorem append (h : Gathers parts c) (h' : Gathers parts' d) (hm : ∀ path, MergedAt c d m path) :
    Gathers (parts ++ parts') m := by
  refine ⟨fun path hd => ?_, fun path => ?_⟩
  · have hor : m.headAt? path = some hd ↔ c.headAt? path = some hd ∨ d.headAt? path = some hd := by
      have hagree := (hm path).agree
      rw [(hm path).head]
      cases hc : c.headAt? path with
      | none => simp
      | some h =>
        cases hd' : d.headAt? path with
        | none => simp
        | some h' => simp [hagree h h' hc hd']
    rw [hor, h.head, h'.head, ← exists_or]
    exact exists_congr fun e => by rw [List.mem_append, or_and_right]
  · rw [(hm path).vars, List.flatMap_append]
    exact (h.vars path).append (h'.vars path)

/-- No two cells that have been gathered conflict. -/
theorem not_conflict (h : Gathers parts c) (hd : d ∈ parts) {e : Cell} (he : e ∈ parts) :
    ¬ d.Conflict e := by
  rintro ⟨path, k, k', hk, hk', hne⟩
  have hck := (h.head path k).2 ⟨d, hd, hk⟩
  have hck' := (h.head path k').2 ⟨e, he, hk'⟩
  exact hne (Option.some.inj (hck.symm.trans hck'))

/-- A conflict of what has been gathered is one of two cells. -/
theorem exists_conflict (h : Gathers parts c) (h' : Gathers parts' d) (hcd : c.Conflict d) :
    ∃ e ∈ parts, ∃ e' ∈ parts', e.Conflict e' := by
  obtain ⟨path, k, k', hk, hk', hne⟩ := hcd
  obtain ⟨e, he, hek⟩ := (h.head path k).1 hk
  obtain ⟨e', he', hek'⟩ := (h'.head path k').1 hk'
  exact ⟨e, he, e', he', path, k, k', hek, hek', hne⟩

/-- What gathers the same cells is the same but for the order of variables. -/
theorem reordered (h : Gathers parts c) (h' : Gathers parts d) : Reordered c d := by
  refine reordered_of_paths (fun path => Option.ext fun k => ?_) fun path =>
    (h.vars path).trans (h'.vars path).symm
  rw [h.head, h'.head]

end Gathers

end Cell

namespace Multiterm

open Cell

variable {parts parts' : List Cell} {l r m : Option Multiterm}

/-- What a merge of two multiterms gathers. -/
theorem gathers_mergeOption (hl : Gathers parts ⟨.empty, l⟩) (hr : Gathers parts' ⟨.empty, r⟩)
    (h : mergeOption l r = .ok m) : Gathers (parts ++ parts') ⟨.empty, m⟩ :=
  hl.append hr (mergedAt_mergeOption h .empty .empty)

/-- A merge fails at two cells only that have been gathered by the one and by the other. -/
theorem exists_conflict_of_mergeOption (hl : Gathers parts ⟨.empty, l⟩)
    (hr : Gathers parts' ⟨.empty, r⟩) {e : Clash} (h : mergeOption l r = .error e) :
    ∃ c ∈ parts, ∃ d ∈ parts', c.Conflict d :=
  hl.exists_conflict hr (conflict_of_mergeOption h .empty .empty)

/-- Merges what is there of a list of multiterms, the first two first. -/
def mergeOptions (ts : List (Option Multiterm)) : Except Clash (Option Multiterm) :=
  ts.foldlM mergeOption none

theorem mergeOptions_concat (ts : List (Option Multiterm)) (t : Option Multiterm) :
    mergeOptions (ts ++ [t]) = (mergeOptions ts).bind fun m => mergeOption m t := by
  rw [mergeOptions, List.foldlM_append]
  refine congrArg _ (funext fun m => ?_)
  rw [List.foldlM_cons]
  cases mergeOption m t <;> rfl

/-- The merge of a list gathers all of it, or fails at two of its multiterms that conflict. -/
theorem mergeOptions_cases (ts : List (Option Multiterm)) :
    (∃ m, mergeOptions ts = .ok m ∧ Gathers (ts.map (Cell.mk .empty)) ⟨.empty, m⟩) ∨
      ∃ e, mergeOptions ts = .error e ∧
        ∃ s ∈ ts, ∃ t ∈ ts, Conflict ⟨.empty, s⟩ ⟨.empty, t⟩ := by
  induction ts using List.reverseRecOn with
  | nil => exact .inl ⟨none, rfl, gathers_nil⟩
  | append_singleton ts t ih =>
    rw [mergeOptions_concat, List.map_append]
    obtain ⟨m, hm, hgathers⟩ | ⟨e, he, s, hs, u, hu, hsu⟩ := ih
    · rw [hm, Except.bind]
      cases hmerge : mergeOption m t with
      | ok m' =>
        exact .inl ⟨m', rfl, gathers_mergeOption hgathers (gathers_singleton _) hmerge⟩
      | error e =>
        obtain ⟨c, hc, d, hd, hcd⟩ :=
          exists_conflict_of_mergeOption hgathers (gathers_singleton ⟨.empty, t⟩) hmerge
        obtain ⟨s, hs, rfl⟩ := List.mem_map.1 hc
        obtain rfl := List.mem_singleton.1 hd
        exact .inr ⟨e, rfl, s, List.mem_append_left _ hs, t, by simp, hcd⟩
    · rw [he]
      exact .inr ⟨e, rfl, s, List.mem_append_left _ hs, u, List.mem_append_left _ hu, hsu⟩

theorem gathers_mergeOptions {ts : List (Option Multiterm)} (h : mergeOptions ts = .ok m) :
    Gathers (ts.map (Cell.mk .empty)) ⟨.empty, m⟩ := by
  obtain ⟨m', hm, hgathers⟩ | ⟨e, he, -⟩ := mergeOptions_cases ts
  · cases h.symm.trans hm
    exact hgathers
  · cases h.symm.trans he

/-- A list of multiterms can be merged exactly when no two of them conflict. -/
theorem exists_mergeOptions_iff {ts : List (Option Multiterm)} :
    (∃ m, mergeOptions ts = .ok m) ↔
      ∀ s ∈ ts, ∀ t ∈ ts, ¬ Conflict ⟨.empty, s⟩ ⟨.empty, t⟩ := by
  constructor
  · rintro ⟨m, hm⟩ s hs t ht
    exact (gathers_mergeOptions hm).not_conflict (List.mem_map_of_mem hs) (List.mem_map_of_mem ht)
  · intro h
    obtain ⟨m, hm, -⟩ | ⟨e, -, s, hs, t, ht, hst⟩ := mergeOptions_cases ts
    · exact ⟨m, hm⟩
    · exact absurd hst (h s hs t ht)

/-- Merges the multiterms of a list, the first two first. -/
def mergeAll (ts : List Multiterm) : Except Clash (Option Multiterm) :=
  ts.foldlM (fun m t => mergeOption m (some t)) none

theorem mergeAll_eq (ts : List Multiterm) : mergeAll ts = mergeOptions (ts.map some) := by
  rw [mergeAll, mergeOptions, List.foldlM_map]

/-- Only from no multiterm at all nothing is gathered. -/
theorem eq_none_iff_of_gathers {ts : List Multiterm}
    (h : Gathers (ts.map nested) ⟨.empty, l⟩) : l = none ↔ ts = [] := by
  constructor
  · rintro rfl
    refine List.eq_nil_iff_forall_not_mem.2 fun t ht => ?_
    have hhead := (h.head [] (t.functor, t.arity)).2 ⟨nested t, List.mem_map_of_mem ht, rfl⟩
    cases hhead
  · rintro rfl
    cases l with
    | none => rfl
    | some t =>
      obtain ⟨d, hd, -⟩ := (h.head [] (t.functor, t.arity)).1 rfl
      cases hd

/-- A cell without variables that gathers multiterms holds their merge but for the order of
variables. -/
theorem reordered_of_gathers {ts : List Multiterm} (h : Gathers (ts.map nested) ⟨.empty, l⟩) :
    ∃ m, mergeAll ts = .ok m ∧ Reordered ⟨.empty, m⟩ ⟨.empty, l⟩ := by
  have hno : ∀ s ∈ ts.map some, ∀ t ∈ ts.map some, ¬ Conflict ⟨.empty, s⟩ ⟨.empty, t⟩ := by
    simp only [List.forall_mem_map]
    exact fun s hs t ht => h.not_conflict (List.mem_map_of_mem hs) (List.mem_map_of_mem ht)
  obtain ⟨m, hm⟩ := exists_mergeOptions_iff.2 hno
  have hgathers := gathers_mergeOptions hm
  rw [List.map_map] at hgathers
  exact ⟨m, (mergeAll_eq ts).trans hm, hgathers.reordered h⟩

end Multiterm

end Multiequation
