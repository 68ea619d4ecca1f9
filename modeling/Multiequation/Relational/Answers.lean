/-!
# Streams of answers

A stream gives its answers one by one. Between two answers it may be suspended; what goes on when it
is forced is kept as data, so that a stream may be endless. A suspension is a job that has been put
off, a stream that waits for its turn beside another one, or a stream whose answers are passed on.
-/

namespace Multiequation.Relational

mutual

/-- A stream of answers of type `α` with jobs of type `θ` to do. -/
inductive Answers (θ α : Type)
  | empty
  | mature (answer : α) (rest : Answers θ α)
  | immature (suspension : Suspension θ α)

/-- What is left to do in a suspended stream. -/
inductive Suspension (θ α : Type)
  /-- A job that has not been started. -/
  | delayed (job : θ)
  /-- A stream to be merged with a suspended one, which comes second. -/
  | swapped (first : Answers θ α) (second : Suspension θ α)
  /-- A suspended stream each answer of which is passed on. -/
  | bound (stream : Suspension θ α) (next : α → Answers θ α)

end

namespace Answers

variable {θ α : Type}

/-- The stream of one answer. -/
def unit (a : α) : Answers θ α := .mature a .empty

/-- Merges two streams; at each suspension the other stream gets its turn. -/
def mplus : Answers θ α → Answers θ α → Answers θ α
  | .empty, t => t
  | .mature a s, t => .mature a (s.mplus t)
  | .immature p, t => .immature (.swapped t p)

/-- Merges the streams that `next` gives for the answers of a stream. -/
def bind : Answers θ α → (α → Answers θ α) → Answers θ α
  | .empty, _ => .empty
  | .mature a s, next => (next a).mplus (s.bind next)
  | .immature p, next => .immature (.bound p next)

end Answers

/-- Forces a suspension by one step; `resume` starts a job. -/
def Suspension.force {θ α : Type} (resume : θ → Answers θ α) : Suspension θ α → Answers θ α
  | .delayed job => resume job
  | .swapped s p => s.mplus (p.force resume)
  | .bound p next => (p.force resume).bind next

@[simp] theorem Suspension.force_delayed {θ α : Type} (resume : θ → Answers θ α) (job : θ) :
    (Suspension.delayed job).force resume = resume job := rfl

@[simp] theorem Suspension.force_swapped {θ α : Type} (resume : θ → Answers θ α) (s : Answers θ α)
    (p : Suspension θ α) : (Suspension.swapped s p).force resume = s.mplus (p.force resume) := rfl

@[simp] theorem Suspension.force_bound {θ α : Type} (resume : θ → Answers θ α) (p : Suspension θ α)
    (next : α → Answers θ α) :
    (Suspension.bound p next).force resume = (p.force resume).bind next := rfl

namespace Answers

variable {θ α : Type}

@[simp] theorem empty_mplus (t : Answers θ α) : empty.mplus t = t := rfl

@[simp] theorem mature_mplus (a : α) (s t : Answers θ α) :
    (mature a s).mplus t = mature a (s.mplus t) := rfl

@[simp] theorem immature_mplus (p : Suspension θ α) (t : Answers θ α) :
    (immature p).mplus t = immature (.swapped t p) := rfl

@[simp] theorem empty_bind (next : α → Answers θ α) : empty.bind next = empty := rfl

@[simp] theorem mature_bind (a : α) (s : Answers θ α) (next : α → Answers θ α) :
    (mature a s).bind next = (next a).mplus (s.bind next) := rfl

@[simp] theorem immature_bind (p : Suspension θ α) (next : α → Answers θ α) :
    (immature p).bind next = immature (.bound p next) := rfl

/-- The first `n` answers of a stream, or all if there are fewer; `none` if more than `k` answers and
suspensions would have to be passed. -/
def takeWithin (resume : θ → Answers θ α) : Nat → Nat → Answers θ α → Option (List α)
  | _, 0, _ => some []
  | _, _ + 1, .empty => some []
  | 0, _ + 1, _ => none
  | k + 1, n + 1, .mature a s => (takeWithin resume k n s).map (a :: ·)
  | k + 1, n + 1, .immature p => takeWithin resume k (n + 1) (p.force resume)

/-- All answers of a stream; `none` if more than `k` answers and suspensions would have to be
passed. -/
def takeAllWithin (resume : θ → Answers θ α) : Nat → Answers θ α → Option (List α)
  | _, .empty => some []
  | 0, _ => none
  | k + 1, .mature a s => (takeAllWithin resume k s).map (a :: ·)
  | k + 1, .immature p => takeAllWithin resume k (p.force resume)

end Answers

end Multiequation.Relational
