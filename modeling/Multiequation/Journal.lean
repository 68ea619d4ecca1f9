import Multiequation.Partition.Merge

/-!
# The journal of a run

What a run did, in the order in which it happened. Every entry belongs to a level of detail; a reader
who asks for a level sees its entries and those of the coarser levels.
-/

namespace Multiequation

/-- How much detail an entry gives, coarsest first. -/
inductive Level
  | info
  | debug
  | trace
  deriving DecidableEq

/-- A class as it is shown in a snapshot. -/
structure ClassSummary where
  id : ClassId
  members : List Var
  pending : Nat
  hasTerm : Bool
  deriving DecidableEq

/-- Something that a run did. -/
inductive Event
  /-- The equations of a source were read. -/
  | parsed (name : String) (equations : Nat)
  /-- The equations were laid out in classes. -/
  | built (equations vars classes : Nat)
  /-- A class is about to be absorbed. -/
  | merging (plan : Partition.Absorption) (memberCount pending : Nat)
  /-- A class was taken to be discharged. -/
  | selected (id : ClassId) (remaining : Nat)
  /-- The multiterm of a class was peeled. -/
  | peeled (id : ClassId) (cells : Nat)
  /-- The pending count of a class came down to zero. -/
  | ready (id : ClassId)
  /-- The state of the pool. -/
  | snapshot (remaining : Nat) (classes : List ClassSummary)
  /-- Classes are left but none of them can be discharged. -/
  | stalled (remaining : Nat)
  /-- All classes were discharged. -/
  | solved (equations classes : Nat)
  deriving DecidableEq

/-- Entries in the order in which they were made. -/
abbrev Journal := Array Event

/-- The position of a level, coarsest first. -/
def Level.rank : Level → Nat
  | .info => 0
  | .debug => 1
  | .trace => 2

/-- The name of a level. -/
def Level.label : Level → String
  | .info => "info"
  | .debug => "debug"
  | .trace => "trace"

/-- One line of a snapshot. -/
def ClassSummary.text (c : ClassSummary) : String :=
  "  " ++ c.id.text ++ ": \x7b" ++ ", ".intercalate (c.members.map Var.text) ++
    s!"\x7d pending {c.pending} " ++ (if c.hasTerm then "with term" else "") ++ "\n"

/-- The summary of the live class behind `id`. -/
def Partition.summary (p : Partition) (id : ClassId) : ClassSummary :=
  let cls := p.classAt id
  ⟨id, cls.members.toList, cls.pending, cls.term.isSome⟩

namespace Event

/-- The level that an entry belongs to. -/
def level : Event → Level
  | .parsed _ _ | .solved _ _ => .info
  | .built _ _ _ | .merging _ _ _ | .selected _ _ | .ready _ | .stalled _ => .debug
  | .peeled _ _ | .snapshot _ _ => .trace

/-- The text of an entry. -/
def text : Event → String
  | .parsed name equations => name ++ s!": {equations} equations"
  | .built equations vars classes =>
    s!"built pool: {equations} equations, {vars} variables, {classes} classes"
  | .merging plan memberCount pending =>
    s!"merge {plan.absorbed.text} ({memberCount} vars, pending {pending}) into {plan.survivor.text}"
  | .selected id remaining => s!"select {id.text} ({remaining} remaining)"
  | .peeled id cells => s!"{id.text}: frontier of {cells} cells"
  | .ready id => s!"{id.text} is ready"
  | .snapshot remaining classes =>
    s!"pool: {remaining} remaining\n" ++ String.join (classes.map ClassSummary.text)
  | .stalled remaining => s!"stalled with {remaining} classes left"
  | .solved equations classes => s!"solved {equations} equations into {classes} classes"

end Event

/-- The entry that the merge of two classes leaves, if they are different. -/
def Partition.mergeEvent? (p : Partition) (a b : ClassId) : Option Event :=
  (p.absorption? a b).map fun plan =>
    let dead := p.classAt plan.absorbed
    .merging plan dead.memberCount dead.pending

/-- The entries that a reader of the given level sees. -/
def Journal.upTo (journal : Journal) (level : Level) : List Event :=
  journal.toList.filter fun e => e.level.rank ≤ level.rank

end Multiequation
