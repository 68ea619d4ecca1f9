import Multiequation.Symbol.Table
import Mathlib.Data.List.Nodup
import Mathlib.Logic.Function.Iterate
import Mathlib.Logic.Relation
import Mathlib.Tactic

/-!
# Interning by several callers

Any number of callers share one table. A call that interns a name takes three steps, and each of them is
done at one stroke: the name is checked, it is looked up in the table, and if it was not found it is
looked up once more and inserted. Between the steps of one call others may take as many of theirs as they
like. The second lookup sees whatever was inserted since the first one, so no name ever gets two numbers;
names are only ever added behind the others, so a number that was given out keeps its name.
-/

namespace Multiequation

/-! ### Tables -/

namespace SymbolTable

/-- The numbers and the names belong to each other, and all names are valid. -/
structure Consistent (table : SymbolTable) : Prop where
  lookup?_eq_some_iff : ∀ {name : String} {id : ℕ},
    table.lookup? name = some id ↔ table.name? id = some name
  isSymbolName : ∀ name ∈ table.names, isSymbolName name.toList = true

variable {table table' : SymbolTable} {name : String} {id : ℕ}

theorem consistent_empty : empty.Consistent where
  lookup?_eq_some_iff := by simp [lookup?, name?, empty]
  isSymbolName := List.forall_mem_nil _

theorem Consistent.nodup (h : table.Consistent) : table.names.Nodup := by
  rw [List.nodup_iff_getElem?_ne_getElem?]
  intro i j hij hj heq
  have hname := List.getElem?_eq_getElem hj
  have hlookup := h.lookup?_eq_some_iff.2 (heq.trans hname)
  rw [h.lookup?_eq_some_iff.2 hname, Option.some.injEq] at hlookup
  omega

/-- A number keeps its name when names are added behind the others. -/
theorem name?_of_isPrefix (h : table.names <+: table'.names) (hid : table.name? id = some name) :
    table'.name? id = some name := by
  obtain ⟨added, hadded⟩ := h
  rw [name?, ← hadded, List.getElem?_append_left (List.getElem?_eq_some_iff.1 hid).1]
  exact hid

theorem text_of_name? (h : table.name? id = some name) : table.text id = name := by
  rw [text, h, Option.getD_some]

/-! ### Inserting -/

theorem insert_of_some (h : table.lookup? name = some id) : table.insert name = (id, table) := by
  rw [insert, h]

theorem insert_of_none (h : table.lookup? name = none) : table.insert name =
    (table.names.length, ⟨(name, table.names.length) :: table.ids, table.names ++ [name]⟩) := by
  rw [insert, h]

theorem isPrefix_insert (table : SymbolTable) (name : String) :
    table.names <+: (table.insert name).2.names := by
  cases h : table.lookup? name with
  | some id =>
    rw [insert_of_some h]
  | none =>
    rw [insert_of_none h]
    exact List.prefix_append _ _

/-- The number that an insertion returns is the one of the inserted name. -/
theorem Consistent.name?_insert (h : table.Consistent) (name : String) :
    (table.insert name).2.name? (table.insert name).1 = some name := by
  cases hname : table.lookup? name with
  | some id =>
    rw [insert_of_some hname]
    exact h.lookup?_eq_some_iff.1 hname
  | none =>
    rw [insert_of_none hname]
    exact List.getElem?_concat_length

/-- A name that has no number is not under any number either, so it may get the next one. -/
theorem Consistent.lookup?_insert_iff (h : table.Consistent) (hname : table.lookup? name = none)
    {name' : String} : (table.insert name).2.lookup? name' = some id ↔
      (table.insert name).2.name? id = some name' := by
  rw [insert_of_none hname, lookup?, name?, List.lookup_cons]
  have hunused : table.names[id]? ≠ some name := fun hid => by
    rw [h.lookup?_eq_some_iff.2 hid] at hname
    cases hname
  by_cases hnew : name' = name
  · subst hnew
    rw [beq_self_eq_true, Option.some.injEq]
    constructor
    · rintro rfl
      exact List.getElem?_concat_length
    · intro hid
      by_contra hne
      rw [List.getElem?_append] at hid
      split_ifs at hid with hlt
      · exact hunused hid
      · have := (List.getElem?_eq_some_iff.1 hid).1
        rw [List.length_singleton] at this
        omega
  · rw [beq_eq_false_iff_ne.2 hnew]
    refine h.lookup?_eq_some_iff.trans ⟨fun hid => ?_, fun hid => ?_⟩
    · exact (List.getElem?_append_left (List.getElem?_eq_some_iff.1 hid).1).trans hid
    · rw [List.getElem?_append] at hid
      split_ifs at hid with hlt
      · exact hid
      · exact absurd (List.mem_singleton.1 (List.mem_of_getElem? hid)) hnew

theorem Consistent.insert (h : table.Consistent) (symbol : Symbol) :
    (table.insert symbol.name).2.Consistent := by
  cases hname : table.lookup? symbol.name with
  | some id => rwa [insert_of_some hname]
  | none =>
    refine ⟨h.lookup?_insert_iff hname, fun name hmem => ?_⟩
    rw [insert_of_none hname, List.mem_append, List.mem_singleton] at hmem
    obtain hmem | rfl := hmem
    · exact h.isSymbolName name hmem
    · exact symbol.name_valid

end SymbolTable

/-! ### Calls -/

/-- How far a call that interns a name has come. -/
inductive Call
  /-- The name has been handed over. -/
  | entered (name : String)
  /-- The name is that of a symbol. -/
  | checked (symbol : Symbol)
  /-- The name was not in the table when it was looked up. -/
  | missed (symbol : Symbol)
  /-- The call is over. -/
  | returned (name : String) (result : Except InvalidSymbol ℕ)
  deriving DecidableEq

namespace Call

/-- The name that is to be interned. -/
def name : Call → String
  | .entered name | .returned name _ => name
  | .checked symbol | .missed symbol => symbol.name

/-- The next step of a call, which finds the table as other calls have left it. -/
def advance (table : SymbolTable) : Call → Call × SymbolTable
  | .entered name =>
    match Symbol.ofString name with
    | .error e => (.returned name (.error e), table)
    | .ok symbol => (.checked symbol, table)
  | .checked symbol =>
    match table.lookup? symbol.name with
    | some id => (.returned symbol.name (.ok id), table)
    | none => (.missed symbol, table)
  | .missed symbol =>
    let (id, table) := table.insert symbol.name
    (.returned symbol.name (.ok id), table)
  | .returned name result => (.returned name result, table)

/-- Three steps that no other call interrupts do what interning at one stroke does. -/
theorem advance_alone (table : SymbolTable) (name : String) :
    (fun s : Call × SymbolTable => s.1.advance s.2)^[3] (.entered name, table) =
      match table.intern name with
      | .error e => (.returned name (.error e), table)
      | .ok (id, table') => (.returned name (.ok id), table') := by
  simp only [Nat.iterate, advance, SymbolTable.intern]
  cases hname : Symbol.ofString name with
  | error e => rfl
  | ok symbol =>
    obtain rfl := Symbol.ofString_eq_ok_iff.1 hname
    dsimp only
    cases hlookup : table.lookup? symbol.name <;> rfl

/-- What a step of a call can do, and to what table. -/
inductive Advances (table : SymbolTable) : Call → Call → SymbolTable → Prop
  | refused {name : String} : isSymbolName name.toList = false →
      Advances table (.entered name) (.returned name (.error ⟨name⟩)) table
  | checked {symbol : Symbol} : Advances table (.entered symbol.name) (.checked symbol) table
  | found {symbol : Symbol} {id : ℕ} : table.lookup? symbol.name = some id →
      Advances table (.checked symbol) (.returned symbol.name (.ok id)) table
  | missed {symbol : Symbol} : table.lookup? symbol.name = none →
      Advances table (.checked symbol) (.missed symbol) table
  | inserted {symbol : Symbol} : Advances table (.missed symbol)
      (.returned symbol.name (.ok (table.insert symbol.name).1)) (table.insert symbol.name).2
  | finished {name : String} {result : Except InvalidSymbol ℕ} :
      Advances table (.returned name result) (.returned name result) table

theorem advances (table : SymbolTable) (call : Call) :
    Advances table call (call.advance table).1 (call.advance table).2 := by
  cases call with
  | entered name =>
    simp only [advance, Symbol.ofString]
    split_ifs with hname
    · exact @Advances.checked table ⟨name, hname⟩
    · exact .refused (Bool.eq_false_iff.2 hname)
  | checked symbol =>
    simp only [advance]
    cases hlookup : table.lookup? symbol.name with
    | some id => exact .found hlookup
    | none => exact .missed hlookup
  | missed symbol => exact .inserted
  | returned name result => exact .finished

/-- How many steps a call takes at most before it is over. -/
def stepsLeft : Call → ℕ
  | .entered _ => 3
  | .checked _ => 2
  | .missed _ => 1
  | .returned _ _ => 0

/-- What is known of a call: the number that it returned stands for its name, and only an invalid name
was refused. -/
def Holds (table : SymbolTable) : Call → Prop
  | .returned name (.ok id) => table.name? id = some name
  | .returned name (.error e) => e = ⟨name⟩ ∧ isSymbolName name.toList = false
  | _ => True

variable {table table' : SymbolTable} {call call' : Call}

theorem eq_returned_of_stepsLeft (h : call.stepsLeft = 0) :
    ∃ result, call = .returned call.name result := by
  cases call with
  | returned name result => exact ⟨result, rfl⟩
  | entered name => cases h
  | checked symbol => cases h
  | missed symbol => cases h

/-- What is known of a call stays known when names are added behind the others. -/
theorem Holds.of_isPrefix (h : call.Holds table) (hnames : table.names <+: table'.names) :
    call.Holds table' := by
  cases call with
  | returned name result =>
    cases result with
    | ok id => exact SymbolTable.name?_of_isPrefix hnames h
    | error e => exact h
  | entered name => trivial
  | checked symbol => trivial
  | missed symbol => trivial

namespace Advances

theorem name_eq (h : Advances table call call' table') : call'.name = call.name := by
  cases h <;> rfl

theorem stepsLeft_lt (h : Advances table call call' table') (hcall : call.stepsLeft ≠ 0) :
    call'.stepsLeft < call.stepsLeft := by
  cases h with
  | finished => exact absurd rfl hcall
  | _ => simp [stepsLeft]

theorem isPrefix (h : Advances table call call' table') : table.names <+: table'.names := by
  cases h with
  | inserted => exact table.isPrefix_insert _
  | _ => exact List.prefix_rfl

theorem consistent (h : Advances table call call' table') (htable : table.Consistent) :
    table'.Consistent := by
  cases h with
  | inserted => exact htable.insert _
  | _ => exact htable

theorem holds (h : Advances table call call' table') (htable : table.Consistent)
    (hcall : call.Holds table) : call'.Holds table' := by
  cases h with
  | refused hname => exact ⟨rfl, hname⟩
  | found hlookup => exact htable.lookup?_eq_some_iff.1 hlookup
  | inserted => exact htable.name?_insert _
  | finished => exact hcall
  | checked => trivial
  | missed => trivial

end Advances

end Call

/-! ### Callers that share a table -/

/-- The table and all calls that have been made so far. -/
structure Interning where
  table : SymbolTable
  calls : List Call

namespace Interning

/-- No call has been made. -/
def start : Interning := ⟨.empty, []⟩

/-- Somebody makes a call. -/
def enter (w : Interning) (name : String) : Interning :=
  { w with calls := w.calls ++ [.entered name] }

/-- One call takes its next step. -/
def advance (w : Interning) (i : ℕ) : Interning :=
  match w.calls[i]? with
  | none => w
  | some call => ⟨(call.advance w.table).2, w.calls.set i (call.advance w.table).1⟩

/-- The call `i` is over; it interned `name` and gave `result` back. -/
def Returned (w : Interning) (i : ℕ) (name : String) (result : Except InvalidSymbol ℕ) : Prop :=
  w.calls[i]? = some (.returned name result)

/-- What may happen next: a new call is made, or any of the calls takes a step. -/
inductive Step (w : Interning) : Interning → Prop
  | enter (name : String) : Step w (w.enter name)
  | advance (i : ℕ) : Step w (w.advance i)

/-- What steps, of any calls in any order, may make of `w`. -/
abbrev Later : Interning → Interning → Prop := Relation.ReflTransGen Step

variable {w w' : Interning} {i j : ℕ} {call : Call} {name name' : String} {id id' : ℕ}
  {result : Except InvalidSymbol ℕ}

theorem advance_of_getElem? (h : w.calls[i]? = some call) : w.advance i =
    ⟨(call.advance w.table).2, w.calls.set i (call.advance w.table).1⟩ := by
  rw [advance, h]

/-- Names are added behind the others, and a call that is over stays as it is. -/
structure Extends (w w' : Interning) : Prop where
  names : w.table.names <+: w'.table.names
  returned : ∀ {i : ℕ} {name : String} {result : Except InvalidSymbol ℕ},
    w.Returned i name result → w'.Returned i name result

theorem Step.extends (h : Step w w') : Extends w w' := by
  cases h with
  | enter name =>
    refine ⟨List.prefix_rfl, fun hi => ?_⟩
    exact (List.getElem?_append_left (List.getElem?_eq_some_iff.1 hi).1).trans hi
  | advance i =>
    cases hi : w.calls[i]? with
    | none =>
      rw [Interning.advance, hi]
      exact ⟨List.prefix_rfl, fun hj => hj⟩
    | some call =>
      rw [advance_of_getElem? hi]
      refine ⟨(call.advances w.table).isPrefix, fun {j name result} hj => ?_⟩
      rw [Returned, List.getElem?_set]
      split_ifs with hij hlt
      · subst hij
        cases hi.symm.trans hj
        rfl
      · exact absurd (List.getElem?_eq_some_iff.1 hi).1 hlt
      · exact hj

theorem Later.extends (h : w.Later w') : Extends w w' := by
  induction h with
  | refl => exact ⟨List.prefix_rfl, fun hi => hi⟩
  | tail _ hstep ih =>
    exact ⟨ih.names.trans hstep.extends.names, fun hi => hstep.extends.returned (ih.returned hi)⟩

/-- The table is consistent, and what is known of a call holds of every call. -/
structure Sound (w : Interning) : Prop where
  table : w.table.Consistent
  calls : ∀ call ∈ w.calls, call.Holds w.table

theorem sound_start : start.Sound := ⟨SymbolTable.consistent_empty, List.forall_mem_nil _⟩

theorem Step.sound (h : w.Sound) (hstep : Step w w') : w'.Sound := by
  cases hstep with
  | enter name =>
    refine ⟨h.table, fun call hcall => ?_⟩
    rw [Interning.enter, List.mem_append, List.mem_singleton] at hcall
    obtain hcall | rfl := hcall
    · exact h.calls call hcall
    · trivial
  | advance i =>
    cases hi : w.calls[i]? with
    | none => rwa [Interning.advance, hi]
    | some call =>
      rw [advance_of_getElem? hi]
      have hstep := call.advances w.table
      refine ⟨hstep.consistent h.table, fun call' hcall' => ?_⟩
      -- other calls keep what is known of them, since the table only grows
      obtain hcall' | rfl := List.mem_or_eq_of_mem_set hcall'
      · exact (h.calls call' hcall').of_isPrefix hstep.isPrefix
      · exact hstep.holds h.table (h.calls call (List.mem_of_getElem? hi))

theorem Later.sound (h : w.Sound) (hlater : w.Later w') : w'.Sound := by
  induction hlater with
  | refl => exact h
  | tail _ hstep ih => exact hstep.sound ih

theorem Sound.holds_of_returned (h : w.Sound) (hi : w.Returned i name result) :
    (Call.returned name result).Holds w.table :=
  h.calls _ (List.mem_of_getElem? hi)

theorem Sound.name?_of_returned (h : w.Sound) (hi : w.Returned i name (.ok id)) :
    w.table.name? id = some name :=
  h.holds_of_returned hi

/-- Two calls that are over returned the same number exactly when they were given the same name. -/
theorem Sound.eq_iff_of_returned (h : w.Sound) (hi : w.Returned i name (.ok id))
    (hj : w.Returned j name' (.ok id')) : id = id' ↔ name = name' := by
  have hid := h.name?_of_returned hi
  have hid' := h.name?_of_returned hj
  constructor
  · rintro rfl
    exact Option.some.inj (hid.symm.trans hid')
  · rintro rfl
    have hlookup := h.table.lookup?_eq_some_iff.2 hid
    exact Option.some.inj (hlookup.symm.trans (h.table.lookup?_eq_some_iff.2 hid'))

/-- Every call can be brought to its end by steps of its own. -/
theorem exists_returned (h : w.calls[i]? = some call) : ∃ w' result, w.Later w' ∧
    w'.Returned i call.name result := by
  induction hn : call.stepsLeft using Nat.strong_induction_on generalizing w call with
  | _ n ih =>
    by_cases hcall : call.stepsLeft = 0
    · obtain ⟨result, hover⟩ := Call.eq_returned_of_stepsLeft hcall
      exact ⟨w, result, .refl, hover ▸ h⟩
    · have hstep := call.advances w.table
      have hnext : (w.advance i).calls[i]? = some (call.advance w.table).1 := by
        rw [advance_of_getElem? h]
        exact List.getElem?_set_self (List.getElem?_eq_some_iff.1 h).1
      obtain ⟨w', result, hlater, hi⟩ := ih _ (hn ▸ hstep.stepsLeft_lt hcall) hnext rfl
      exact ⟨w', result, .head (.advance i) hlater, hstep.name_eq ▸ hi⟩

/-- However the steps of the calls are interleaved, at every moment the names in the table are distinct
and belong to their numbers. A number that a call has returned shows as the name of the call from then
on, and two calls have returned the same number exactly when they were given the same name. A name that
was refused never gets into the table. Every call can come to its end, with a number exactly when its
name is valid, and a call that no other interrupts does what interning at one stroke does. -/
theorem numbering_bijective (h : start.Later w) :
    w.table.names.Nodup ∧
    (∀ name id, w.table.lookup? name = some id ↔ w.table.name? id = some name) ∧
    (∀ i name id, w.Returned i name (.ok id) → ∀ w', w.Later w' →
      w'.Returned i name (.ok id) ∧ w'.table.name? id = some name ∧ w'.table.text id = name) ∧
    (∀ i j name name' id id', w.Returned i name (.ok id) → w.Returned j name' (.ok id') →
      (id = id' ↔ name = name')) ∧
    (∀ i name e, w.Returned i name (.error e) → e = ⟨name⟩ ∧
      ∀ w', w.Later w' → name ∉ w'.table.names) ∧
    (∀ (i : ℕ) call, w.calls[i]? = some call → ∃ w' result, w.Later w' ∧
      w'.Returned i call.name result ∧
        ((∃ id, result = .ok id) ↔ isSymbolName call.name.toList = true)) ∧
    ∀ table name, (fun s : Call × SymbolTable => s.1.advance s.2)^[3] (.entered name, table) =
      match table.intern name with
        | .error e => (.returned name (.error e), table)
        | .ok (id, table') => (.returned name (.ok id), table') := by
  have hsound := h.sound sound_start
  refine ⟨hsound.table.nodup, fun _ _ => hsound.table.lookup?_eq_some_iff, ?_,
    fun _ _ _ _ _ _ => hsound.eq_iff_of_returned, ?_, ?_, Call.advance_alone⟩
  · intro i name id hi w' hlater
    have hi' := hlater.extends.returned hi
    have hname := (hlater.sound hsound).name?_of_returned hi'
    exact ⟨hi', hname, SymbolTable.text_of_name? hname⟩
  · intro i name e hi
    obtain ⟨he, hinvalid⟩ := hsound.holds_of_returned hi
    refine ⟨he, fun w' hlater hname => ?_⟩
    rw [(hlater.sound hsound).table.isSymbolName name hname] at hinvalid
    cases hinvalid
  · intro i call hi
    obtain ⟨w', result, hlater, hi'⟩ := exists_returned hi
    have hsound' := hlater.sound hsound
    refine ⟨w', result, hlater, hi', ?_⟩
    cases result with
    | ok id =>
      have hname := hsound'.name?_of_returned hi'
      exact iff_of_true ⟨id, rfl⟩ (hsound'.table.isSymbolName _ (List.mem_of_getElem? hname))
    | error e =>
      have hinvalid := (hsound'.holds_of_returned hi').2
      exact iff_of_false (by rintro ⟨id, ⟨⟩⟩) (by rw [hinvalid]; exact Bool.false_ne_true)

/-- Two calls miss the same name before either of them inserts it, and a third call is refused. -/
theorem numbering_bijective_of_race : ∃ w, start.Later w ∧
    w.calls = [.returned "a" (.ok 0), .returned "a" (.ok 0), .returned "f(x)" (.error ⟨"f(x)"⟩)] ∧
    w.table.names = ["a"] ∧ ∀ w', w.Later w' → w'.table.text 0 = "a" ∧ "f(x)" ∉ w'.table.names := by
  let entered := ((start.enter "a").enter "a").enter "f(x)"
  let missed := (((entered.advance 0).advance 1).advance 0).advance 1
  let w := ((missed.advance 0).advance 1).advance 2
  have hentered : start.Later entered := .tail (.tail (.single (.enter _)) (.enter _)) (.enter _)
  have hmissed : start.Later missed :=
    .tail (.tail (.tail (.tail hentered (.advance 0)) (.advance 1)) (.advance 0)) (.advance 1)
  have hw : start.Later w := .tail (.tail (.tail hmissed (.advance 0)) (.advance 1)) (.advance 2)
  obtain ⟨-, -, hreturned, -, hrefused, -⟩ := numbering_bijective hw
  have hcalls : w.calls = [.returned "a" (.ok 0), .returned "a" (.ok 0),
      .returned "f(x)" (.error ⟨"f(x)"⟩)] := by decide +kernel
  have hfirst : w.Returned 0 "a" (.ok 0) := by rw [Returned, hcalls]; rfl
  have hthird : w.Returned 2 "f(x)" (.error ⟨"f(x)"⟩) := by rw [Returned, hcalls]; rfl
  exact ⟨w, hw, hcalls, by decide +kernel, fun w' hlater =>
    ⟨(hreturned 0 _ _ hfirst w' hlater).2.2, (hrefused 2 _ _ hthird).2 w' hlater⟩⟩

end Interning

end Multiequation
