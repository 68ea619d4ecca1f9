import Multiequation.Multiterm.Merge
import Multiequation.Partition

/-!
# Committing multiterms and merging classes

A class has one multiterm at most, so a multiterm that is committed to it, or that a class brings
along when it is absorbed, is merged into the one that is there. When the multiterms clash the class
is left without one.
-/

namespace Multiequation.Partition

/-- Merges a multiterm into the one of the class behind `id`. -/
def commit (id : ClassId) (term : Multiterm) : PartitionM Unit := do
  let old ← modifyGet (·.takeTerm id)
  match Multiterm.mergeOption old (some term) with
  | .ok merged => modify (·.setTerm id merged)
  | .error c => throw (.clash c)

/-- A class and the one that is to absorb it. -/
structure Absorption where
  survivor : ClassId
  absorbed : ClassId
  deriving DecidableEq

/-- Which of two classes absorbs the other: the one with more members, on a tie the first. -/
def absorption? (p : Partition) (a b : ClassId) : Option Absorption :=
  let a := p.resolve a
  let b := p.resolve b
  if a = b then none
  else if (p.classAt b).memberCount ≤ (p.classAt a).memberCount then some ⟨a, b⟩
  else some ⟨b, a⟩

/-- A class with the members and pending counts of both classes and no multiterm. -/
def joinMembers (arithmetic : Arithmetic) (cls dead : Class) : Class where
  members := cls.members ++ dead.members
  memberCount := cls.memberCount + dead.memberCount
  pending := arithmetic.add cls.pending dead.pending
  term := none

/-- Leaves nothing but a link to the survivor under the number of the absorbed class. -/
def retire (p : Partition) (plan : Absorption) : Partition :=
  (p.vacate plan.absorbed).redirect plan.absorbed plan.survivor

/-- Lets the survivor take over everything that the absorbed class has. -/
def absorb (plan : Absorption) : PartitionM Unit := do
  let p ← get
  let cls := p.classAt plan.survivor
  let dead := p.classAt plan.absorbed
  set ((p.retire plan).updateLive plan.survivor (joinMembers p.arithmetic · dead))
  match Multiterm.mergeOption cls.term dead.term with
  | .ok merged => modify (·.setTerm plan.survivor merged)
  | .error c => throw (.clash c)

/-- Makes one class of the classes behind `a` and `b` and returns it. -/
def merge (a b : ClassId) : PartitionM ClassId := do
  let a ← modifyGet (·.find a)
  let b ← modifyGet (·.find b)
  match (← get).absorption? a b with
  | none => return a
  | some plan =>
    absorb plan
    return plan.survivor

end Multiequation.Partition
