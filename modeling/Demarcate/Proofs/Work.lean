import Demarcate.Proofs.Frames
/-!
# Work — all that can happen in a context

A piece of work is a tree of steps, each with a way to go on for every answer it can get.  A call has work of its own,
and whatever ends that, a value, an error or an unwinding, is an answer too, which the caller can pass on or not.  What
is looked at can be anything, and the sessions that write, or begin and end transactions of their own, can be any.  Only
the transaction in a frame of the context is ended by nothing but the call that has begun it.

`exec` does the steps and keeps a trace: the moments between the steps, the changes, and the calls.
-/
namespace Demarcate

open Engine (Verdict)

namespace Session

/-- Whether two sessions are in one transaction. -/
def sameTransaction (st : Stores) : Session → Session → Bool
  | .memory _ i (some tx), .memory _ j (some tx') => i == j && tx == tx'
  | .git _ i (some tx), .git _ j (some tx') =>
    (st.handle i).site == (st.handle j).site && tx.id.lowerText == tx'.id.lowerText
  | _, _ => false

end Session

/-- Whether a frame of a context has the transaction that a session is in. -/
def Context.holds (x : Context) (st : Stores) (s : Session) : Bool :=
  x.frames.values.any fun stack => stack.frames.any (s.sameTransaction st)

theorem Context.holds_of_mem {x : Context} {st : Stores} {s t : Session} {b : BackendName}
    (ht : t ∈ (x.stack b).frames) (hs : s.sameTransaction st t = true) : x.holds st s = true := by
  unfold Context.holds
  rw [List.any_eq_true]
  unfold Context.stack at ht
  cases hb : x.frames.get? b with
  | none => rw [hb] at ht; cases ht
  | some stack =>
    rw [hb] at ht
    refine ⟨stack, ?_, List.any_eq_true.2 ⟨t, ht, hs⟩⟩
    exact List.mem_map.2 ⟨(b, stack), SortedMap.get?_eq_some_iff.1 hb, rfl⟩

/-! ## Steps -/

inductive Work where
  | done (outcome : Outcome Failure Unit)
  | look (next : Engine → Work)
  /-- The context is asked for a session. -/
  | resource (b : BackendName) (next : Except TransactionError Session → Work)
  | write (s : Session) (t : TableName) (change : Change) (next : Outcome StorageError Unit → Work)
  /-- A session begins a transaction that no call is about. -/
  | begin (s : Session) (next : Except ResourceError Session → Work)
  | finish (tx : Session) (v : Verdict) (next : Outcome ResourceError Unit → Work)
  | run (d : Definition) (body : Work) (next : Outcome Failure Unit → Work)

/-- The work of a call: the engine that it began with, how it ended, and the engine that it left. -/
structure Visit where
  entered : Engine
  outcome : Outcome Failure Unit
  left : Engine

inductive Event where
  /-- A moment between two steps.  `calls` are the calls whose work is being done, the outermost first. -/
  | seen (calls : List Definition) (e : Engine)
  | wrote (s : Session) (slot : Slot) (before : Engine) (outcome : Outcome StorageError Unit) (after : Engine)
  /-- A call that has returned or unwound.  It has no visit if its work never ran. -/
  | called (calls : List Definition) (d : Definition) (before : Engine) (visit : Option Visit)
    (outcome : Outcome Failure Unit) (after : Engine)

namespace Work

/-- What is known of work that was done. -/
abbrev Ran := (Outcome Failure Unit × List Event) × Engine

/-- Work as a call does it: it reports on its visit, and what happened during it. -/
def visit (work : Engine → Ran) (e : Engine) : (Outcome Failure Unit × (Visit × List Event)) × Engine :=
  ((((work e).1.1), (⟨e, (work e).1.1, (work e).2⟩, (work e).1.2)), (work e).2)

/-- What happened during a call and at its end. -/
def eventsOf (calls : List Definition) (d : Definition) (e : Engine)
    (called : (Outcome Failure Unit × Option (Visit × List Event)) × Engine) : List Event :=
  (called.1.2.map (·.2)).getD [] ++ [.called calls d e (called.1.2.map (·.1)) called.1.1 called.2]

/-- Puts events before those of the work that follows them. -/
def since (events : List Event) (ran : Ran) : Ran := ((ran.1.1, events ++ ran.1.2), ran.2)

/-- Does work in the context `c`, in the work of `calls`. -/
def exec (c : Nat) : Work → List Definition → Engine → Ran
  | .done outcome, calls, e => ((outcome, [.seen calls e]), e)
  | .look next, calls, e => since [.seen calls e] (exec c (next e) calls e)
  | .resource b next, calls, e =>
    let (answer, e') := e.resource c b
    since [.seen calls e] (exec c (next answer) calls e')
  | .write s t change next, calls, e =>
    let (answer, e') := e.apply s t change
    since [.seen calls e, .wrote s ⟨t, change.key⟩ e answer e'] (exec c (next answer) calls e')
  | .begin s next, calls, e =>
    let (answer, e') := e.enter s
    since [.seen calls e] (exec c (next answer) calls e')
  | .finish tx v next, calls, e =>
    if (e.context c).holds e.stores tx then since [.seen calls e] (exec c (next (.value ())) calls e)
    else
      let (answer, e') := e.finish tx v
      since [.seen calls e] (exec c (next answer) calls e')
  | .run d body next, calls, e =>
    let called := e.run c d (visit fun e => exec c body (calls ++ [d]) e)
    since (.seen calls e :: eventsOf calls d e called) (exec c (next called.1.1) calls called.2)

end Work

/-! ## One provider -/

/-- A provider on one store in memory. -/
def Engine.single : Engine := { stores := { memories := #[{}] }, providers := #[{ source := .memory 0 }] }

def Registry.single : Registry := (∅ : Registry).insert BackendName.default 0

end Demarcate
