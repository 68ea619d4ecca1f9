import Multiequation.Proofs.Pool.Twins

/-!
# Sessions

A session is a sequence of requests to a partition and to the pool that is made of it. A request may
fail, and the session goes on with what it left. Between the requests classes and owners may be looked
up, which compresses links. Two sessions with the same requests are answered alike, wherever and however
often either of them looks something up: the same results, the same errors, the same order of discharged
classes, and nothing that can be seen of the pool after a request tells them apart.
-/

namespace Multiequation.Pool

open Multiequation.Partition

/-! ### Requests -/

/-- The result of a request. -/
inductive Reply
  | done
  | var (v : Var)
  | cls (id : ClassId)
  | classes (ids : List ClassId)
  | term (term : Option Multiterm)
  | count (n : ℕ)

/-- Does the operation on a partition and gives its result. -/
def operate : Operation → PartitionM Reply
  | .freshVar => Reply.var <$> modifyGet freshVar
  | .merge a b => Reply.cls <$> Partition.merge a b
  | .commit id term => (fun _ => Reply.done) <$> Partition.commit id term
  | .setPending id pending => (fun _ => Reply.done) <$> modify (·.setPending id pending)
  | .countOccurrences => (fun _ => Reply.done) <$> Partition.countOccurrences
  | .find id => Reply.cls <$> modifyGet (·.find id)
  | .findOwner v => Reply.cls <$> Partition.findOwner v

/-- What can be asked of a partition and of the pool that is made of it. -/
inductive Request
  | operate (op : Operation)
  | takeTerm (id : ClassId)
  | payOff (id : ClassId)
  /-- A new pool is made of the partition as it is. -/
  | restart
  | selectReady
  | mergeClasses (a b : ClassId)
  | compact (frontier : List Cell)
  | discharge

/-- What is given to a request: its result or its failure, and what can be seen of the pool then. -/
structure Answer where
  reply : Except Failure Reply
  view : View

namespace Request

/-- Does what is asked for. -/
def run : Request → PoolM Reply
  | .operate op => onPartition (Pool.operate op)
  | .takeTerm id => Reply.term <$> onPartition (modifyGet (·.takeTerm id))
  | .payOff id => Reply.count <$> onPartition (Partition.payOff id)
  | .restart => (fun _ => Reply.done) <$> modify fun pool => ofPartition pool.partition pool.journal
  | .selectReady => Reply.cls <$> Pool.selectReady
  | .mergeClasses a b => Reply.cls <$> Pool.mergeClasses a b
  | .compact frontier => (fun _ => Reply.done) <$> Pool.compact frontier
  | .discharge => Reply.classes <$> Pool.discharge

/-- The classes that the request is given exist, and so does a variable whose owner it asks for. -/
def IsValid (pool : Pool) : Request → Prop
  | .operate op => op.IsValid pool.partition
  | .takeTerm id | .payOff id => id.index < pool.partition.records.size
  | .mergeClasses a b =>
    a.index < pool.partition.records.size ∧ b.index < pool.partition.records.size
  | .restart | .selectReady | .compact _ | .discharge => True

instance decidableIsValid (pool : Pool) : (r : Request) → Decidable (r.IsValid pool)
  | .operate op => op.decidableIsValid pool.partition
  | .takeTerm _ | .payOff _ => inferInstanceAs (Decidable (_ < _))
  | .mergeClasses _ _ => inferInstanceAs (Decidable (_ ∧ _))
  | .restart | .selectReady | .compact _ | .discharge => inferInstanceAs (Decidable True)

/-- The answer to a request, and the pool that is left, also by a failure. -/
def serve (r : Request) (pool : Pool) : Answer × Pool :=
  match r.run pool with
  | .ok reply pool => (⟨.ok reply, pool.view⟩, pool)
  | .error e pool => (⟨.error e, pool.view⟩, pool)

end Request

/-! ### Turns -/

/-- A question that can be answered without a change. -/
inductive Lookup
  | find (id : ClassId)
  | findOwner (v : Var)

/-- The operation that answers a question and compresses links. -/
def Lookup.operation : Lookup → Operation
  | .find id => .find id
  | .findOwner v => .findOwner v

/-- One turn of a session. -/
inductive Turn
  /-- Something is looked up on the side. -/
  | look (l : Lookup)
  | ask (r : Request)

/-- What is done in a turn. -/
def Turn.request : Turn → Request
  | .look l => .operate l.operation
  | .ask r => r

variable {ε σ α β : Type} {n : ℕ} {s t : Pool} {p q : Partition}

/-! ### Operations on the partition -/

theorem leave_map (f : α → β) (x : EStateM ε σ α) (s : σ) : leave (f <$> x) s = leave x s := by
  simp only [leave, Functor.map, EStateM.map]
  cases x s <;> rfl

/-- The result of an operation is given besides what the operation does. -/
theorem leave_operate (op : Operation) (p : Partition) : leave (operate op) p = op.apply p := by
  cases op <;> exact leave_map _ _ _

theorem serve_operate (op : Operation) (pool : Pool) :
    ((Request.operate op).serve pool).2 = { pool with partition := op.apply pool.partition } := by
  rw [← leave_operate]
  simp only [Request.serve, Request.run, onPartition, lift, leave]
  cases operate op pool.partition <;> rfl

/-- Looking something up changes nothing that can be observed, also when it fails. -/
theorem Lookup.similar (h : p.Linked) (l : Lookup) : Similar p (l.operation.apply p) := by
  cases l with
  | find id => exact h.similar_find id
  | findOwner v =>
    refine leave_of_ends (P := Similar p) ((h.findOwner_leaves v).mono (fun _ _ hq => hq.2) ?_)
    rintro _ q ⟨-, rfl⟩
    exact .refl h

/-- Every operation is done alike to partitions that look the same. -/
theorem operate_alike (h : p.Twin n q) (op : Operation) (hop : op.IsValid p) :
    ∃ m, Alike (Partition.Twin m) (fun _ => True) (operate op p) (operate op q) := by
  have hlt : ∀ {id : ClassId}, id.index < p.records.size → id.index < n :=
    fun hid => h.size_left ▸ hid
  cases op with
  | freshVar => exact ⟨n + 1, .map h.freshVar fun _ _ => trivial⟩
  | merge a b => exact ⟨n, .map (h.merge (hlt hop.1) (hlt hop.2)) fun _ _ => trivial⟩
  | commit id term => exact ⟨n, .map (h.commit id term) fun _ _ => trivial⟩
  | setPending id k => exact ⟨n, .map (h.setPending id k) fun _ _ => trivial⟩
  | countOccurrences => exact ⟨n, .map h.countOccurrences fun _ _ => trivial⟩
  | find id => exact ⟨n, .map (h.findRoot id) fun _ _ => trivial⟩
  | findOwner v => exact ⟨n, .map (h.findOwner v) fun _ _ => trivial⟩

/-! ### One turn -/

namespace Twin

/-- A new pool depends on what can be seen of the partition. -/
theorem restart (h : Twin n s t) : Alike (Twin n) (fun _ => True)
    ((modify fun pool => ofPartition pool.partition pool.journal : PoolM _) s)
    ((modify fun pool => ofPartition pool.partition pool.journal : PoolM _) t) := by
  have hlive := h.partition.liveClasses h.partition.linked_left
  refine .modify trivial ⟨h.partition, ?_, ?_, ?_, h.journal⟩
  · simp only [ofPartition, hlive]
  · simp only [ofPartition, hlive, h.partition.classAt]
  · simp only [ofPartition, hlive, h.partition.classAt]

/-- Every request is run alike in pools that look the same. -/
theorem run (h : Twin n s t) (r : Request) (hr : r.IsValid s) :
    ∃ m, Alike (Twin m) (fun _ => True) (r.run s) (r.run t) := by
  have hlt : ∀ {id : ClassId}, id.index < s.partition.records.size → id.index < n :=
    fun hid => h.partition.size_left ▸ hid
  cases r with
  | operate op =>
    obtain ⟨m, hm⟩ := operate_alike h.partition op hr
    exact ⟨m, h.onPartition hm⟩
  | takeTerm id => exact ⟨n, .map (h.onPartition (h.partition.takeTerm id)) fun _ _ => trivial⟩
  | payOff id => exact ⟨n, .map (h.onPartition (h.partition.payOff id)) fun _ _ => trivial⟩
  | restart => exact ⟨n, .map h.restart fun _ _ => trivial⟩
  | selectReady => exact ⟨n, .map h.selectReady fun _ _ => trivial⟩
  | mergeClasses a b => exact ⟨n, .map (h.mergeClasses (hlt hr.1) (hlt hr.2)) fun _ _ => trivial⟩
  | compact frontier => exact ⟨n, .map (h.compact frontier) fun _ _ => trivial⟩
  | discharge => exact ⟨n, .map h.discharge fun _ _ => trivial⟩

/-- Every request is answered alike by pools that look the same, and they look the same again. -/
theorem serve (h : Twin n s t) (r : Request) (hr : r.IsValid s) :
    (r.serve t).1 = (r.serve s).1 ∧ ∃ m, Twin m (r.serve s).2 (r.serve t).2 := by
  obtain ⟨m, hm⟩ := h.run r hr
  unfold Request.serve
  generalize r.run s = result at hm
  generalize r.run t = result' at hm
  cases hm with
  | ok _ hR => exact ⟨by simp only [hR.view_eq], m, hR⟩
  | error hR => exact ⟨by simp only [hR.view_eq], m, hR⟩

/-- Something may be looked up in one of two pools that look the same. -/
theorem look (h : Twin n s t) (l : Lookup) :
    Twin n ((Request.operate l.operation).serve s).2 t := by
  have hsimilar := l.similar h.partition.linked_left
  rw [serve_operate]
  exact ⟨h.partition.similar hsimilar (.refl h.partition.linked), h.remaining, h.ready, h.pending,
    h.journal⟩

end Twin

/-! ### Sessions -/

namespace Session

/-- The requests of a session, without what is looked up on the side. -/
def requests (turns : List Turn) : List Request :=
  turns.filterMap fun
    | .look _ => none
    | .ask r => some r

/-- The pool that a session leaves. -/
def after : List Turn → Pool → Pool
  | [], pool => pool
  | turn :: turns, pool => after turns (turn.request.serve pool).2

/-- The answers to the requests of a session. -/
def transcript : List Turn → Pool → List Answer
  | [], _ => []
  | .look l :: turns, pool => transcript turns ((Request.operate l.operation).serve pool).2
  | .ask r :: turns, pool => (r.serve pool).1 :: transcript turns (r.serve pool).2

/-- Whenever it comes to a turn, its request is valid. -/
def Feasible : List Turn → Pool → Prop
  | [], _ => True
  | turn :: turns, pool => turn.request.IsValid pool ∧ Feasible turns (turn.request.serve pool).2

instance decidableFeasible : (turns : List Turn) → (pool : Pool) → Decidable (Feasible turns pool)
  | [], _ => inferInstanceAs (Decidable True)
  | turn :: turns, pool =>
    haveI := decidableFeasible turns (turn.request.serve pool).2
    inferInstanceAs (Decidable (_ ∧ _))

/-- The pool that a session begins with: there are no variables yet. -/
def start : Pool := ofPartition .empty #[]

variable {turns turns' : List Turn}

theorem after_append (turns turns' : List Turn) (pool : Pool) :
    after (turns ++ turns') pool = after turns' (after turns pool) := by
  induction turns generalizing pool with
  | nil => rfl
  | cons turn turns ih => exact ih _

theorem feasible_append {pool : Pool} : Feasible (turns ++ turns') pool ↔
    Feasible turns pool ∧ Feasible turns' (after turns pool) := by
  induction turns generalizing pool with
  | nil => exact (true_and _).to_iff.symm
  | cons turn turns ih => exact (and_congr_right fun _ => ih).trans and_assoc.symm

/-- Every partition that operations lead to is that of a session. -/
theorem exists_session_of_visited (h : p.Visited) :
    ∃ turns, Feasible turns start ∧ (after turns start).partition = p := by
  induction h with
  | empty => exact ⟨[], trivial, rfl⟩
  | @apply p op _ hop ih =>
    obtain ⟨turns, hturns, rfl⟩ := ih
    have hlast : Feasible [.ask (.operate op)] (after turns start) := ⟨hop, trivial⟩
    refine ⟨turns ++ [.ask (.operate op)], feasible_append.2 ⟨hturns, hlast⟩, ?_⟩
    rw [after_append]
    exact congrArg partition (serve_operate op _)

/-- A session goes as it would if nothing were looked up on the side. -/
theorem alike (h : Twin n s t) (hs : Feasible turns s) :
    transcript ((requests turns).map .ask) t = transcript turns s ∧
      ∃ m, Twin m (after turns s) (after ((requests turns).map .ask) t) := by
  induction turns generalizing n s t with
  | nil => exact ⟨rfl, n, h⟩
  | cons turn turns ih =>
    obtain ⟨hturn, hturns⟩ := hs
    cases turn with
    | look l =>
      -- only the session on the left looks; the pools look the same all the while
      exact ih (h.look l) hturns
    | ask r =>
      obtain ⟨hanswer, m, hm⟩ := h.serve r hturn
      obtain ⟨hrest, hafter⟩ := ih hm hturns
      exact ⟨congrArg₂ List.cons hanswer hrest, hafter⟩

theorem twin_start : Twin 0 start start :=
  .refl (show start.partition.Linked from Visited.empty.wellFormed.linked)

/-- Path compression can not be seen. In every partition that a session leads to, finding a class ends,
with the class that its links lead to, and changes nothing that can be seen. And two sessions with the
same requests are answered alike, whatever is looked up on the side in either of them, and leave pools
that look the same. -/
theorem compression_invisible (h : Feasible turns start) (h' : Feasible turns' start)
    (hsame : requests turns' = requests turns) :
    (∀ id, (after turns start).partition.FindsQuietly id) ∧
      transcript turns' start = transcript turns start ∧
      (after turns' start).view = (after turns start).view := by
  obtain ⟨hanswers, m, hm⟩ := alike twin_start h
  obtain ⟨hanswers', m', hm'⟩ := alike twin_start h'
  rw [hsame] at hanswers' hm'
  refine ⟨hm.partition.linked_left.findsQuietly, hanswers'.symm.trans hanswers, ?_⟩
  exact hm'.view_eq.symm.trans hm.view_eq

/-- Two classes of two are merged, so that the fourth class is two links away from the first; then
the session goes on. -/
def chain (turns : List Turn) : List Turn :=
  (([.freshVar, .freshVar, .freshVar, .freshVar, .merge ⟨0⟩ ⟨1⟩, .merge ⟨2⟩ ⟨3⟩, .merge ⟨0⟩ ⟨2⟩] :
    List Operation).map fun op => Turn.ask (.operate op)).append turns

/-- A session that makes a pool of the chain and discharges it. -/
def chainSession : List Turn :=
  chain [.ask .restart, .ask .discharge]

/-- The same, with a look at the class at the end of the chain and at its variable. -/
def chainSessionLooking : List Turn :=
  chain [.look (.find ⟨3⟩), .ask .restart, .look (.findOwner ⟨3⟩), .ask .discharge]

/-- Looking has changed the links, and still the sessions are answered alike. -/
theorem compression_invisible_of_chain :
    Feasible chainSession start ∧ Feasible chainSessionLooking start ∧
    requests chainSessionLooking = requests chainSession ∧
    (after chainSessionLooking start).partition.records ≠
      (after chainSession start).partition.records ∧
    (∀ id, (after chainSession start).partition.FindsQuietly id) ∧
    transcript chainSessionLooking start = transcript chainSession start ∧
    (after chainSessionLooking start).view = (after chainSession start).view := by
  have h : Feasible chainSession start := by decide
  have h' : Feasible chainSessionLooking start := by decide
  have hlinks : (after chainSessionLooking start).partition.records ≠
      (after chainSession start).partition.records := by decide
  exact ⟨h, h', rfl, hlinks, compression_invisible h h' rfl⟩

end Session

end Multiequation.Pool
