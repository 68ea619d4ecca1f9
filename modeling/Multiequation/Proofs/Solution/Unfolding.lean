import Multiequation.Proofs.Solution.Listing

/-!
# The domain of a list of classes

A list of classes has a domain of its own. Its objects are the terms over the first members of the
classes, and the first member of a class with a term is the application that this term is. The classes
hold there, and little else does: a variable is not the same object as the term that defines it, so a
list that names a subterm and one that writes it out are told apart. Two lists that hold in the domains
of each other therefore have the same classes, and terms that are the same up to the choice of members.
-/

namespace Multiequation

namespace SolvedClass

variable {C C' : List SolvedClass} {c c' : SolvedClass} {x y : String} {t t' : Term}

/-! ### The domain -/

/-- The member that stands for the class of `x`; a variable in no class stands for itself. -/
def representative (C : List SolvedClass) (x : String) : String :=
  ((C.find? (x ∈ ·.members)).bind (·.members.head?)).getD x

/-- The term of the class of `x`. -/
def definition? (C : List SolvedClass) (x : String) : Option Term :=
  (C.find? (x ∈ ·.members)).bind (·.term)

/-- The value of a variable in the domain of the classes. -/
def place (C : List SolvedClass) (x : String) : Term :=
  .var (representative C x)

/-- Terms over representatives; one that has a definition is the application that this says. -/
abbrev domain (C : List SolvedClass) : Domain where
  Object := Term
  IsApp d f ds := d = .app f ds ∨
    ∃ x t, d = .var x ∧ definition? C x = some t ∧ t.bind (place C) = .app f ds
  args_unique := by
    rintro d f ds es (rfl | ⟨x, t, rfl, hx, ht⟩) (he | ⟨y, u, he, hy, hu⟩) -
    · exact (Term.app.inj he).2
    · cases he
    · cases he
    · obtain rfl := Term.var.inj he
      obtain rfl := Option.some.inj (hx.symm.trans hy)
      exact (Term.app.inj (ht.symm.trans hu)).2

theorem domain_isTotal (C : List SolvedClass) : (domain C).IsTotal :=
  fun f ds => ⟨.app f ds, .inl rfl⟩

/-- An object that is written as an application is this one only: no definition is looked up. -/
theorem describes_app_iff {f g : Symbol} {args ds : List Term} :
    (Term.app f args).Describes (domain C) (place C) (.app g ds) ↔
      g = f ∧ List.Forall₂ (Term.Describes (domain C) (place C)) args ds := by
  rw [Term.describes_app, ← Term.describeAll_iff]
  constructor
  · rintro ⟨es, happ | ⟨_, _, hvar, -⟩, hargs⟩
    · obtain ⟨rfl, rfl⟩ := Term.app.inj happ
      exact ⟨rfl, hargs⟩
    · cases hvar
  · rintro ⟨rfl, hargs⟩
    exact ⟨ds, .inl rfl, hargs⟩

/-- A term describes what it becomes over representatives. -/
theorem describes_bind_place (C : List SolvedClass) (t : Term) :
    t.Describes (domain C) (place C) (t.bind (place C)) := by
  induction t using Term.induction with
  | var x => rw [Term.describes_var, Term.bind_var]
  | app f args ih =>
    rw [Term.bind_app, describes_app_iff, List.forall₂_map_right_iff, List.forall₂_same]
    exact ⟨rfl, ih⟩

/-- Two terms that describe one another over representatives are the same over representatives. -/
theorem bind_place_eq (h : t.Describes (domain C') (place C') (t'.bind (place C')))
    (h' : t'.Describes (domain C) (place C) (t.bind (place C))) :
    t.bind (place C) = t'.bind (place C) := by
  induction t using Term.induction generalizing t' with
  | var x =>
    -- a variable describes a representative, so the other term cannot be an application
    cases t' with
    | var y => exact (Term.describes_var.1 h').symm
    | app g args' => cases Term.describes_var.1 h
  | app f args ih =>
    cases t' with
    | var y => cases Term.describes_var.1 h'
    | app g args' =>
      rw [Term.bind_app, describes_app_iff, List.forall₂_map_right_iff] at h h'
      obtain ⟨rfl, hargs⟩ := h
      have hmap : args.map (Term.bind (place C)) = args'.map (Term.bind (place C)) := by
        rw [← List.forall₂_eq_eq_eq, List.forall₂_map_left_iff, List.forall₂_map_right_iff]
        exact forall₂_of_flip (fun t ht t' => ih t ht) hargs h'.2
      rw [Term.bind_app, Term.bind_app, hmap]

/-! ### Classes that share no member -/

/-- Every variable is listed in one class at most and once in it, and the terms are applications. -/
structure Separate (C : List SolvedClass) : Prop where
  find?_eq : ∀ c ∈ C, ∀ x ∈ c.members, C.find? (x ∈ ·.members) = some c
  ne_nil : ∀ c ∈ C, c.members ≠ []
  nodup : ∀ c ∈ C, c.members.Nodup
  isApp : ∀ c ∈ C, ∀ t, c.term = some t → ∃ f args, t = .app f args

namespace Separate

theorem eq_of_mem (h : Separate C) (hc : c ∈ C) (hc' : c' ∈ C) (hx : x ∈ c.members)
    (hx' : x ∈ c'.members) : c = c' :=
  Option.some.inj ((h.find?_eq c hc x hx).symm.trans (h.find?_eq c' hc' x hx'))

theorem definition?_eq (h : Separate C) (hc : c ∈ C) (hx : x ∈ c.members) :
    definition? C x = c.term := by
  rw [definition?, h.find?_eq c hc x hx, Option.bind_some]

/-- A class has one representative, which is one of its members. -/
theorem exists_representative (h : Separate C) (hc : c ∈ C) :
    ∃ r ∈ c.members, ∀ x ∈ c.members, representative C x = r := by
  obtain ⟨r, rest, hmembers⟩ := List.exists_cons_of_ne_nil (h.ne_nil c hc)
  refine ⟨r, hmembers ▸ List.mem_cons_self, fun x hx => ?_⟩
  rw [representative, h.find?_eq c hc x hx, Option.bind_some, hmembers, List.head?_cons,
    Option.getD_some]

theorem mem_of_representative_eq (h : Separate C) (hc : c ∈ C) (hc' : c' ∈ C) (hx : x ∈ c.members)
    (hy : y ∈ c'.members) (heq : representative C y = representative C x) : c' = c := by
  obtain ⟨r, hr, hrep⟩ := h.exists_representative hc
  obtain ⟨r', hr', hrep'⟩ := h.exists_representative hc'
  rw [hrep x hx, hrep' y hy] at heq
  exact h.eq_of_mem hc' hc hr' (heq ▸ hr)

/-- The classes hold in their own domain. -/
theorem holds_domain (h : Separate C) :
    ∀ c ∈ C, ∀ e ∈ c.equations, e.Holds (domain C) (place C) := by
  intro c hc
  obtain ⟨r, hr, hrep⟩ := h.exists_representative hc
  have hplace : ∀ x ∈ c.members, place C x = .var r := fun x hx => by rw [place, hrep x hx]
  refine (holds_equations_iff (h.ne_nil c hc)).2 ⟨.var r, hplace, fun t ht => ?_⟩
  obtain ⟨f, args, rfl⟩ := h.isApp c hc t ht
  have hself := describes_bind_place C (.app f args)
  rw [Term.bind_app, describes_app_iff] at hself
  exact Term.describes_app.2 ⟨_, .inr ⟨r, _, rfl, (h.definition?_eq hc hr).trans ht,
    Term.bind_app _ f args⟩, Term.describeAll_iff.2 hself.2⟩

end Separate

/-- Terms over representatives are enough where the members of every class are replaced by one
term. -/
theorem Separate.bind_place_bind (h : Separate C) {κ : String → Term}
    (hκ : ∀ b ∈ C, ∀ x ∈ b.members, ∀ y ∈ b.members, κ x = κ y) (t : Term) :
    (t.bind (place C)).bind κ = t.bind κ := by
  rw [Term.bind_bind]
  refine t.bind_congr fun x _ => ?_
  rw [place, Term.bind_var]
  cases hfind : C.find? (x ∈ ·.members) with
  | none => rw [representative, hfind, Option.bind_none, Option.getD_none]
  | some b =>
    have hb := List.mem_of_find?_eq_some hfind
    have hx : x ∈ b.members := by simpa using List.find?_some hfind
    obtain ⟨r, hr, hrep⟩ := h.exists_representative hb
    rw [hrep x hx, hκ b hb r hr x hx]

/-! ### Two lists of classes -/

/-- The classes have the same members. When the members of each class of the list are replaced by one
term, both get the same term, or neither has one. -/
structure Matches (C : List SolvedClass) (c c' : SolvedClass) : Prop where
  members : c.members.Perm c'.members
  term : ∀ κ : String → Term, (∀ b ∈ C, ∀ x ∈ b.members, ∀ y ∈ b.members, κ x = κ y) →
    c.term.map (Term.bind κ) = c'.term.map (Term.bind κ)

/-- The second list is about variables of the first one, and it holds in the domain of this one. -/
structure Entails (C C' : List SolvedClass) : Prop where
  mem : ∀ c ∈ C', ∀ x ∈ c.members, ∃ b ∈ C, x ∈ b.members
  holds : ∀ c ∈ C', ∀ e ∈ c.equations, e.Holds (domain C) (place C)

namespace Entails

/-- Variables are equal in the domain of a list only if they are in one class of it. -/
theorem members_subset (hE : Entails C C') (h : Separate C) (h' : Separate C') (hc : c ∈ C)
    (hc' : c' ∈ C') (hx : x ∈ c.members) (hx' : x ∈ c'.members) : c'.members ⊆ c.members := by
  obtain ⟨d, hd, -⟩ := (holds_equations_iff (h'.ne_nil c' hc')).1 (hE.holds c' hc')
  intro y hy
  obtain ⟨b, hb, hyb⟩ := hE.mem c' hc' y hy
  have heq := Term.var.inj ((hd y hy).trans (hd x hx').symm)
  exact h.mem_of_representative_eq hc hb hx hyb heq ▸ hyb

/-- A variable is an application in the domain of a list only if its class has a term. -/
theorem exists_term (hE : Entails C C') (h : Separate C) (h' : Separate C') (hc : c ∈ C)
    (hc' : c' ∈ C') (hx : x ∈ c.members) (hx' : x ∈ c'.members) (ht' : c'.term = some t') :
    ∃ t, c.term = some t ∧ t'.Describes (domain C) (place C) (t.bind (place C)) := by
  obtain ⟨d, hd, hterm⟩ := (holds_equations_iff (h'.ne_nil c' hc')).1 (hE.holds c' hc')
  obtain ⟨r, hr, hrep⟩ := h.exists_representative hc
  have hdesc := hterm t' ht'
  obtain ⟨f, args, rfl⟩ := h'.isApp c' hc' t' ht'
  rw [← hd x hx', place, hrep x hx, Term.describes_app] at hdesc
  -- the place of the class is a variable, which is an application by its definition only
  obtain ⟨ds, happ | ⟨z, t, hz, ht, happ⟩, hargs⟩ := hdesc
  · cases happ
  · obtain rfl := Term.var.inj hz
    rw [h.definition?_eq hc hr] at ht
    refine ⟨t, ht, ?_⟩
    rw [happ, describes_app_iff, ← Term.describeAll_iff]
    exact ⟨rfl, hargs⟩

/-- If two lists entail each other, classes with a common member match. -/
theorem matches_of_mem (hE : Entails C C') (hE' : Entails C' C) (h : Separate C) (h' : Separate C')
    (hc : c ∈ C) (hc' : c' ∈ C') (hx : x ∈ c.members) (hx' : x ∈ c'.members) : Matches C c c' := by
  constructor
  · rw [List.perm_ext_iff_of_nodup (h.nodup c hc) (h'.nodup c' hc')]
    exact fun y => ⟨fun hy => hE'.members_subset h' h hc' hc hx' hx hy,
      fun hy => hE.members_subset h h' hc hc' hx hx' hy⟩
  · intro κ hκ
    cases ht' : c'.term with
    | none =>
      cases ht : c.term with
      | none => rfl
      | some t =>
        obtain ⟨t', hsome, -⟩ := hE'.exists_term h' h hc' hc hx' hx ht
        cases ht'.symm.trans hsome
    | some t' =>
      obtain ⟨t, ht, hdesc⟩ := hE.exists_term h h' hc hc' hx hx' ht'
      obtain ⟨u, hu, hdesc'⟩ := hE'.exists_term h' h hc' hc hx' hx ht
      obtain rfl := Option.some.inj (ht'.symm.trans hu)
      rw [ht, Option.map_some, Option.map_some, ← h.bind_place_bind hκ t,
        ← h.bind_place_bind hκ t', bind_place_eq hdesc' hdesc]

/-- If two lists entail each other, every class of the first one matches one of the second. -/
theorem exists_matches (hE : Entails C C') (hE' : Entails C' C) (h : Separate C) (h' : Separate C')
    (hc : c ∈ C) : ∃ c' ∈ C', Matches C c c' := by
  obtain ⟨x, hx⟩ := List.exists_mem_of_ne_nil _ (h.ne_nil c hc)
  obtain ⟨c', hc', hx'⟩ := hE'.mem c hc x hx
  exact ⟨c', hc', hE.matches_of_mem hE' h h' hc hc' hx hx'⟩

/-- If two lists entail each other, every class of the second one is matched by one of the first. -/
theorem exists_matched (hE : Entails C C') (hE' : Entails C' C) (h : Separate C) (h' : Separate C')
    (hc' : c' ∈ C') : ∃ c ∈ C, Matches C c c' := by
  obtain ⟨x, hx'⟩ := List.exists_mem_of_ne_nil _ (h'.ne_nil c' hc')
  obtain ⟨c, hc, hx⟩ := hE.mem c' hc' x hx'
  exact ⟨c, hc, hE.matches_of_mem hE' h h' hc hc' hx hx'⟩

end Entails

end SolvedClass

/-- The classes of a solution are separate. -/
theorem Solution.Solved.separate {s : Solution} (h : s.Solved) :
    SolvedClass.Separate s.classes where
  find?_eq c hc x hx := by
    obtain ⟨id, hid, -, rfl⟩ := Solution.mem_classes.1 hc
    obtain ⟨hxn, hown⟩ := (h.mem_listing_iff hid).1 hx
    rw [← List.head?_filter, h.filter_classes hxn hown, List.head?_cons]
  ne_nil c hc := by
    obtain ⟨id, -, hne, rfl⟩ := Solution.mem_classes.1 hc
    exact hne
  nodup c hc := by
    obtain ⟨id, hid, -, rfl⟩ := Solution.mem_classes.1 hc
    refine (h.pairwise_listing hid).imp ?_
    rintro x y hlt rfl
    exact hlt.false
  isApp c hc t ht := by
    obtain ⟨id, -, -, rfl⟩ := Solution.mem_classes.1 hc
    obtain ⟨⟨f, args⟩, -, rfl⟩ := Option.map_eq_some_iff.1 ht
    exact ⟨f, _, Multiterm.read_mk f args⟩

end Multiequation
