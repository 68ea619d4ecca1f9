import Multiequation.Relational.Value
import Mathlib.Tactic

/-!
# Texts of values

The text of a value can be read in one way only. Its first two characters tell whether the value is a
pair, the empty list or an atom, and so do those of the rest of a list. An atom goes on up to the next
blank or parenthesis, which no atom contains. So a text says where it ends when other text follows it,
and by induction on the value what it is the text of.
-/

namespace Multiequation

/-- The characters of the name of a symbol. -/
theorem Symbol.exists_toList_name (symbol : Symbol) : ∃ c cs, symbol.name.toList = c :: cs ∧
    isNameStart c = true ∧ ∀ d ∈ cs, isNameChar d = true := by
  have hvalid := symbol.name_valid
  cases hname : symbol.name.toList with
  | nil =>
    rw [hname] at hvalid
    cases hvalid
  | cons c cs =>
    rw [hname, isSymbolName_cons, Bool.and_eq_true, List.all_eq_true] at hvalid
    exact ⟨c, cs, rfl, hvalid⟩

namespace Relational.Value

/-- The characters of the text of a value; with `inList` the value is the rest of a list. -/
def chars (inList : Bool) (v : Value) : List Char := (v.textWithin inList).toList

/-- The characters of an atom, that is, of a value other than a pair and the empty list. -/
def atomChars? : Value → Option (List Char)
  | .var n => some ('#' :: Nat.toDigits 10 n)
  | .sym symbol => some symbol.name.toList
  | .bool b => some ['#', if b then 't' else 'f']
  | .nil | .pair _ _ => none

variable {u v : Value} {cs ds r s : List Char} {c : Char}

/-- A value is built from atoms and the empty list by pairing. -/
@[elab_as_elim]
theorem atomInduction {P : Value → Prop}
    (atom : ∀ v cs, v.atomChars? = some cs → P v) (nil : P .nil)
    (pair : ∀ car cdr, P car → P cdr → P (.pair car cdr)) (v : Value) : P v := by
  induction v with
  | var n => exact atom _ _ rfl
  | sym symbol => exact atom _ _ rfl
  | bool b => exact atom _ _ rfl
  | nil => exact nil
  | pair car cdr ihcar ihcdr => exact pair car cdr ihcar ihcdr

@[simp] theorem chars_pair (inList : Bool) (car cdr : Value) : (pair car cdr).chars inList =
    (if inList then ' ' else '(') :: (car.chars false ++ cdr.chars true) := by
  cases inList <;> simp [chars, textWithin]

@[simp] theorem chars_nil (inList : Bool) :
    nil.chars inList = if inList then [')'] else ['(', ')'] := by
  cases inList <;> simp [chars, textWithin]

theorem chars_of_atomChars? (inList : Bool) (h : v.atomChars? = some cs) :
    v.chars inList = if inList then ' ' :: '.' :: ' ' :: (cs ++ [')']) else cs := by
  have hatom : ∀ text : String, text.toList = cs → (textWithin.atom inList text).toList =
      if inList then ' ' :: '.' :: ' ' :: (cs ++ [')']) else cs := by
    rintro text rfl
    cases inList <;> simp [textWithin.atom]
  cases v with
  | var n =>
    cases h
    exact hatom _ (by rw [String.toList_append, Nat.toString_eq_repr, Nat.toList_repr]; rfl)
  | sym symbol =>
    cases h
    exact hatom _ rfl
  | bool b =>
    cases h
    exact hatom _ (by cases b <;> rfl)
  | nil => cases h
  | pair car cdr => cases h

/-! ### Atoms -/

/-- The characters that end an atom or stand in front of the last part of a list. -/
def IsDelimiter (c : Char) : Prop := c = ' ' ∨ c = '(' ∨ c = ')' ∨ c = '.'

theorem not_isNameChar_of_isDelimiter (h : IsDelimiter c) : isNameChar c = false := by
  rcases h with rfl | rfl | rfl | rfl <;> decide +kernel

theorem not_isDelimiter_of_isNameChar (h : isNameChar c = true) : ¬ IsDelimiter c := fun hc => by
  rw [not_isNameChar_of_isDelimiter hc] at h
  cases h

theorem not_isDelimiter_of_isDigit (h : c.isDigit = true) : ¬ IsDelimiter c := by
  rintro (rfl | rfl | rfl | rfl) <;> exact absurd h (by decide)

/-- An atom has a first character, and no character of it is a delimiter. -/
theorem exists_atomChars (h : v.atomChars? = some cs) : ∃ c cs', cs = c :: cs' ∧
    ∀ d ∈ cs, ¬ IsDelimiter d := by
  have hhash : ¬ IsDelimiter '#' := by rw [IsDelimiter]; decide
  cases v with
  | var n =>
    cases h
    refine ⟨_, _, rfl, List.forall_mem_cons.2 ⟨hhash, fun d hd => ?_⟩⟩
    exact not_isDelimiter_of_isDigit (Nat.isDigit_of_mem_toDigits (by decide) (by decide) hd)
  | sym symbol =>
    cases h
    obtain ⟨c, cs', hname, hc, hcs⟩ := Symbol.exists_toList_name symbol
    refine ⟨c, cs', hname, ?_⟩
    rw [hname, List.forall_mem_cons]
    refine ⟨not_isDelimiter_of_isNameChar ?_, fun d hd => not_isDelimiter_of_isNameChar (hcs d hd)⟩
    rw [isNameChar, hc, Bool.true_or]
  | bool b =>
    cases h
    refine ⟨_, _, rfl, ?_⟩
    cases b <;> simp [IsDelimiter]
  | nil => cases h
  | pair car cdr => cases h

/-- A hash sign stands in front of numbers and truth values only. -/
theorem toList_name_ne (symbol : Symbol) : symbol.name.toList ≠ '#' :: cs := by
  obtain ⟨c, cs', hname, hc, -⟩ := symbol.exists_toList_name
  rw [hname]
  rintro ⟨⟩
  exact absurd hc (by decide +kernel)

theorem toDigits_ne (n : ℕ) (b : Bool) : Nat.toDigits 10 n ≠ [if b then 't' else 'f'] := by
  intro h
  have hdigit := Nat.isDigit_of_mem_toDigits (b := 10) (n := n) (by decide) (by decide)
    (h ▸ List.mem_singleton_self _)
  cases b <;> exact absurd hdigit (by decide)

/-- Different atoms have different texts. -/
theorem eq_of_atomChars? (hu : u.atomChars? = some cs) (hv : v.atomChars? = some cs) : u = v := by
  cases u with
  | var n =>
    cases hu
    cases v with
    | var m =>
      have hdigits := (List.cons.inj (Option.some.inj hv)).2
      rw [← Nat.ofDigitChars_ten_toDigits (n := n), ← hdigits, Nat.ofDigitChars_ten_toDigits]
    | sym symbol => exact absurd (Option.some.inj hv) (toList_name_ne symbol)
    | bool b => exact absurd (List.cons.inj (Option.some.inj hv)).2.symm (toDigits_ne n b)
    | nil => cases hv
    | pair car cdr => cases hv
  | sym symbol =>
    cases hu
    cases v with
    | var m => exact absurd (Option.some.inj hv).symm (toList_name_ne symbol)
    | sym symbol' =>
      have hname := String.toList_inj.1 (Option.some.inj hv)
      exact congrArg sym (Symbol.ext_name hname.symm)
    | bool b => exact absurd (Option.some.inj hv).symm (toList_name_ne symbol)
    | nil => cases hv
    | pair car cdr => cases hv
  | bool b =>
    cases hu
    cases v with
    | var m => exact absurd (List.cons.inj (Option.some.inj hv)).2 (toDigits_ne m b)
    | sym symbol => exact absurd (Option.some.inj hv) (toList_name_ne symbol)
    | bool b' =>
      have hletters : ∀ b b' : Bool, [if b' then 't' else 'f'] = [if b then 't' else 'f'] → b = b' := by
        decide
      exact congrArg bool (hletters b b' (List.cons.inj (Option.some.inj hv)).2)
    | nil => cases hv
    | pair car cdr => cases hv
  | nil => cases hu
  | pair car cdr => cases hu

/-! ### Where a text ends -/

/-- An atom in front of these characters is at its end: they are none, or a blank or a closing
parenthesis comes first. -/
def EndsAtom (r : List Char) : Prop := ∀ c ∈ r.head?, c = ' ' ∨ c = ')'

theorem endsAtom_nil : EndsAtom [] := nofun

theorem endsAtom_cons (h : c = ' ' ∨ c = ')') : EndsAtom (c :: cs) := by
  rintro _ ⟨⟩
  exact h

/-- The rest of a list begins with a blank or a closing parenthesis. -/
theorem endsAtom_chars_append (v : Value) (r : List Char) : EndsAtom (v.chars true ++ r) := by
  induction v using atomInduction with
  | atom v cs hcs =>
    rw [chars_of_atomChars? true hcs]
    exact endsAtom_cons (.inl rfl)
  | nil =>
    rw [chars_nil]
    exact endsAtom_cons (.inr rfl)
  | pair car cdr _ _ =>
    rw [chars_pair]
    exact endsAtom_cons (.inl rfl)

/-- Words without delimiters end where the first delimiter stands. -/
theorem eq_of_append_of_endsAtom (hcs : ∀ c ∈ cs, ¬ IsDelimiter c) (hds : ∀ c ∈ ds, ¬ IsDelimiter c)
    (hr : EndsAtom r) (hs : EndsAtom s) (h : cs ++ r = ds ++ s) : cs = ds ∧ r = s := by
  have hne : ∀ {c t t'}, ¬ IsDelimiter c → EndsAtom t → c :: t' ≠ t := by
    rintro c _ t' hc ht rfl
    obtain rfl | rfl := ht c rfl
    · exact hc (.inl rfl)
    · exact hc (.inr (.inr (.inl rfl)))
  induction cs generalizing ds with
  | nil =>
    cases ds with
    | nil => exact ⟨rfl, h⟩
    | cons d ds => exact absurd h.symm (hne (hds d List.mem_cons_self) hr)
  | cons c cs ih =>
    cases ds with
    | nil => exact absurd h (hne (hcs c List.mem_cons_self) hs)
    | cons d ds =>
      obtain ⟨rfl, htail⟩ := List.cons.inj h
      obtain ⟨rfl, hrs⟩ := ih (List.forall_mem_cons.1 hcs).2 (List.forall_mem_cons.1 hds).2 htail
      exact ⟨rfl, hrs⟩

/-! ### What the beginning of a text tells -/

/-- The kinds of values that are printed in different ways. -/
inductive Form
  | pair
  | nil
  | atom
  deriving DecidableEq

/-- The kind of a value. -/
def form : Value → Form
  | .pair _ _ => .pair
  | .nil => .nil
  | .var _ | .sym _ | .bool _ => .atom

/-- The kind that the first two characters tell. -/
def readForm : Bool → List Char → Form
  | false, '(' :: ')' :: _ => .nil
  | false, '(' :: _ => .pair
  | false, _ => .atom
  | true, ' ' :: '.' :: _ => .atom
  | true, ' ' :: _ => .pair
  | true, _ => .nil

theorem form_of_atomChars? (h : v.atomChars? = some cs) : v.form = .atom := by
  cases v with
  | nil => cases h
  | pair car cdr => cases h
  | _ => rfl

theorem form_eq_atom (h : v.form = .atom) : ∃ cs, v.atomChars? = some cs := by
  induction v using atomInduction with
  | atom v cs hcs => exact ⟨cs, hcs⟩
  | nil => cases h
  | pair car cdr _ _ => cases h

theorem form_eq_nil (h : v.form = .nil) : v = .nil := by
  cases v with
  | nil => rfl
  | _ => cases h

theorem form_eq_pair (h : v.form = .pair) : ∃ car cdr, v = .pair car cdr := by
  cases v with
  | pair car cdr => exact ⟨car, cdr, rfl⟩
  | _ => cases h

/-- No text begins with a closing parenthesis or a dot. -/
theorem exists_chars_eq_cons (v : Value) : ∃ c cs, v.chars false = c :: cs ∧ c ≠ ')' ∧ c ≠ '.' := by
  induction v using atomInduction with
  | atom v cs hcs =>
    obtain ⟨c, cs', rfl, hword⟩ := exists_atomChars hcs
    have hc := hword c List.mem_cons_self
    exact ⟨c, cs', chars_of_atomChars? false hcs, fun h => hc (.inr (.inr (.inl h))),
      fun h => hc (.inr (.inr (.inr h)))⟩
  | nil => exact ⟨_, _, chars_nil false, by decide, by decide⟩
  | pair car cdr _ _ => exact ⟨_, _, chars_pair false car cdr, by decide, by decide⟩

theorem readForm_chars_append (inList : Bool) (v : Value) (r : List Char) :
    readForm inList (v.chars inList ++ r) = v.form := by
  induction v using atomInduction with
  | atom v cs hcs =>
    rw [form_of_atomChars? hcs, chars_of_atomChars? inList hcs]
    cases inList with
    | true => rfl
    | false =>
      obtain ⟨c, cs', rfl, hword⟩ := exists_atomChars hcs
      have hc : c ≠ '(' := fun h => hword c List.mem_cons_self (.inr (.inl h))
      simp [readForm, hc]
  | nil => cases inList <;> rfl
  | pair car cdr _ _ =>
    obtain ⟨c, cs, hcar, hclose, hdot⟩ := car.exists_chars_eq_cons
    rw [chars_pair, hcar]
    cases inList <;> simp [readForm, form, hclose, hdot]

/-- The beginning of a text tells how the value is built. -/
theorem form_eq_of_chars_append {inList : Bool}
    (h : u.chars inList ++ r = v.chars inList ++ s) : v.form = u.form := by
  rw [← readForm_chars_append inList v s, ← h, readForm_chars_append]

/-- The text of a value says what the value is, and where the text ends when other text follows it. -/
theorem eq_of_chars_append (inList : Bool) (hr : inList = false → EndsAtom r)
    (hs : inList = false → EndsAtom s) (h : u.chars inList ++ r = v.chars inList ++ s) :
    u = v ∧ r = s := by
  induction u using atomInduction generalizing v inList r s with
  | atom u cs hcs =>
    obtain ⟨ds, hds⟩ := form_eq_atom ((form_eq_of_chars_append h).trans (form_of_atomChars? hcs))
    obtain ⟨-, -, -, hu⟩ := exists_atomChars hcs
    obtain ⟨-, -, -, hv⟩ := exists_atomChars hds
    rw [chars_of_atomChars? inList hcs, chars_of_atomChars? inList hds] at h
    cases inList with
    | false =>
      obtain ⟨rfl, hrs⟩ := eq_of_append_of_endsAtom hu hv (hr rfl) (hs rfl) h
      exact ⟨eq_of_atomChars? hcs hds, hrs⟩
    | true =>
      -- behind the dot an atom is ended by the parenthesis of the list
      have hclose : ∀ t : List Char, EndsAtom (')' :: t) := fun t => endsAtom_cons (.inr rfl)
      simp only [if_true, List.cons_append, List.append_assoc, List.cons.injEq, true_and,
        List.nil_append] at h
      obtain ⟨rfl, hrs⟩ := eq_of_append_of_endsAtom hu hv (hclose r) (hclose s) h
      exact ⟨eq_of_atomChars? hcs hds, (List.cons.inj hrs).2⟩
  | nil =>
    obtain rfl := form_eq_nil (form_eq_of_chars_append h)
    exact ⟨rfl, List.append_cancel_left h⟩
  | pair car cdr ihcar ihcdr =>
    obtain ⟨car', cdr', rfl⟩ := form_eq_pair (form_eq_of_chars_append h)
    rw [chars_pair, chars_pair, List.cons_append, List.cons_append, List.append_assoc,
      List.append_assoc] at h
    obtain ⟨rfl, hrest⟩ := ihcar false (fun _ => endsAtom_chars_append cdr r)
      (fun _ => endsAtom_chars_append cdr' s) (List.cons.inj h).2
    obtain ⟨rfl, hrs⟩ := ihcdr true nofun nofun hrest
    exact ⟨rfl, hrs⟩

/-- No two values have the same text. -/
theorem text_eq_text_iff (u v : Value) : u.text = v.text ↔ u = v := by
  constructor
  · intro h
    have hchars : u.chars false ++ [] = v.chars false ++ [] := by
      rw [List.append_nil, List.append_nil]
      exact congrArg String.toList h
    exact (eq_of_chars_append false (fun _ => endsAtom_nil) (fun _ => endsAtom_nil) hchars).1
  · rintro rfl
    rfl

end Relational.Value

end Multiequation
