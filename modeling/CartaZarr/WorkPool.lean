import Mathlib.Data.Fintype.Option
import Mathlib.Data.Fintype.BigOperators
import Mathlib.Data.List.Nodup
import CartaZarr.Foundations.Trace
import CartaZarr.Foundations.Word

/-!
# The worker threads

A `WorkPool` runs tasks on threads of its own and on the caller's. Every section of `run`,
`drainTasks` and `worker` that holds the pool's mutex is one action here, and so is the end of a
body, which may throw; which thread goes next is anybody's choice. Calls of `run` are one at a time,
for each holds `_run`, and the pool is stopped only when none is inside.

Bodies are of any type `β`, for the pool only points to them, and exceptions of any type `ε`.
-/

namespace CartaZarr

open Word

/-- Where a thread is in `drainTasks`: about to take a task, running the body, about to catch what
the body threw, or back. -/
inductive Place (ε : Type)
  | claiming
  | executing (task : ℕ)
  | throwing (task : ℕ) (exception : ε)
  | done
  deriving DecidableEq, Repr

/-- A thread in `drainTasks`, with the body it was handed. -/
structure Drain (β ε : Type) where
  body : Option β
  place : Place ε
  deriving DecidableEq, Repr

/-- A thread that takes tasks: one of the `n` the pool started, or the one that called `run`. -/
abbrev Thread (n : ℕ) := Option (Fin n)

/-- The worker index a body is given. -/
def Thread.index {n : ℕ} : Thread n → ℕ
  | none => 0
  | some i => i + 1

/-- The fields the threads share, and what each thread has of its own. -/
structure WorkPool (n : ℕ) (β ε : Type) where
  body : Option β
  tasks : ℕ
  next : ℕ
  running : ℕ
  generation : ℕ
  stopping : Bool
  failure : Option ε
  /-- The generation each worker saw last. -/
  seen : Fin n → ℕ
  /-- The workers that have returned. -/
  ended : Fin n → Bool
  /-- What each thread in `drainTasks` does there. -/
  drain : Thread n → Option (Drain β ε)

/-- One section of one thread, or the end of a body. -/
inductive PoolAction (n : ℕ) (β ε : Type)
  | call (tasks : ℕ) (body : β)
  | wake (i : Fin n)
  | turn (t : Thread n)
  | ends (t : Thread n) (exception : Option ε)
  | report (i : Fin n)
  | back
  | stop
  | exit (i : Fin n)
  deriving DecidableEq, Repr

/-- What an action did, as the caller, the bodies and the workers know it. -/
inductive PoolEvent (n : ℕ) (β ε : Type)
  | started (tasks : ℕ) (body : β)
  | woke (i : Fin n)
  | called (body : Option β) (task worker : ℕ)
  | left (worker : ℕ)
  | finished (task worker : ℕ)
  | threw (task worker : ℕ) (exception : ε)
  | recorded (worker : ℕ) (exception : ε)
  | reported (i : Fin n)
  | returned (exception : Option ε)
  | stopped
  | exited (i : Fin n)
  deriving DecidableEq, Repr

namespace WorkPool

variable {n : ℕ} {β ε : Type}

/-- A pool whose workers have been started. -/
def new (n : ℕ) (β ε : Type) : WorkPool n β ε where
  body := none
  tasks := 0
  next := 0
  running := 0
  generation := 0
  stopping := false
  failure := none
  seen _ := 0
  ended _ := false
  drain _ := none

/-- `run` hands out a body. -/
def publish (s : WorkPool n β ε) (tasks : ℕ) (body : β) : WorkPool n β ε :=
  { s with
    body := some body
    tasks
    next := 0
    running := n
    generation := add s.generation 1
    drain := Function.update s.drain none (some ⟨some body, .claiming⟩) }

/-- A worker takes the body handed out. -/
def takeBody (s : WorkPool n β ε) (i : Fin n) : WorkPool n β ε :=
  { s with
    seen := Function.update s.seen i s.generation
    drain := Function.update s.drain (some i) (some ⟨s.body, .claiming⟩) }

/-- A thread in `drainTasks` gets somewhere. -/
def goTo (s : WorkPool n β ε) (t : Thread n) (body : Option β) (place : Place ε) : WorkPool n β ε :=
  { s with drain := Function.update s.drain t (some ⟨body, place⟩) }

/-- A worker has drained a generation, and so many are left. -/
def checkOut (s : WorkPool n β ε) (i : Fin n) (running : ℕ) : WorkPool n β ε :=
  { s with running, drain := Function.update s.drain (some i) none }

/-- `run` takes back the body. -/
def retract (s : WorkPool n β ε) : WorkPool n β ε :=
  { s with
    body := none
    tasks := 0
    failure := none
    drain := Function.update s.drain none none }

@[simp] theorem publish_drain (s : WorkPool n β ε) (tasks : ℕ) (body : β) :
    (s.publish tasks body).drain = Function.update s.drain none (some ⟨some body, .claiming⟩) := rfl

@[simp] theorem takeBody_drain (s : WorkPool n β ε) (i : Fin n) :
    (s.takeBody i).drain = Function.update s.drain (some i) (some ⟨s.body, .claiming⟩) := rfl

@[simp] theorem takeBody_seen (s : WorkPool n β ε) (i : Fin n) :
    (s.takeBody i).seen = Function.update s.seen i s.generation := rfl

@[simp] theorem goTo_drain (s : WorkPool n β ε) (t : Thread n) (body : Option β) (place : Place ε) :
    (s.goTo t body place).drain = Function.update s.drain t (some ⟨body, place⟩) := rfl

@[simp] theorem checkOut_drain (s : WorkPool n β ε) (i : Fin n) (running : ℕ) :
    (s.checkOut i running).drain = Function.update s.drain (some i) none := rfl

@[simp] theorem retract_drain (s : WorkPool n β ε) :
    s.retract.drain = Function.update s.drain none none := rfl

@[simp] theorem takeBody_next (s : WorkPool n β ε) (i : Fin n) : (s.takeBody i).next = s.next := rfl

@[simp] theorem takeBody_failure (s : WorkPool n β ε) (i : Fin n) :
    (s.takeBody i).failure = s.failure := rfl

@[simp] theorem takeBody_generation (s : WorkPool n β ε) (i : Fin n) :
    (s.takeBody i).generation = s.generation := rfl

@[simp] theorem checkOut_next (s : WorkPool n β ε) (i : Fin n) (running : ℕ) :
    (s.checkOut i running).next = s.next := rfl

@[simp] theorem checkOut_tasks (s : WorkPool n β ε) (i : Fin n) (running : ℕ) :
    (s.checkOut i running).tasks = s.tasks := rfl

@[simp] theorem checkOut_failure (s : WorkPool n β ε) (i : Fin n) (running : ℕ) :
    (s.checkOut i running).failure = s.failure := rfl

@[simp] theorem checkOut_generation (s : WorkPool n β ε) (i : Fin n) (running : ℕ) :
    (s.checkOut i running).generation = s.generation := rfl

@[simp] theorem checkOut_seen (s : WorkPool n β ε) (i : Fin n) (running : ℕ) :
    (s.checkOut i running).seen = s.seen := rfl

/-- The two sections of `drainTasks`: a task is taken, or there is none left; and an exception is
kept if it is the first, every task not yet taken given up. -/
def drainTasks (s : WorkPool n β ε) (t : Thread n) (drain : Drain β ε) :
    Option (PoolEvent n β ε × WorkPool n β ε) :=
  match drain.place with
  | .claiming =>
    if s.next < s.tasks then
      some (.called drain.body s.next t.index,
        { s with next := add s.next 1 }.goTo t drain.body (.executing s.next))
    else some (.left t.index, s.goTo t drain.body .done)
  | .throwing _ e =>
    some (.recorded t.index e,
      { s with failure := some (s.failure.getD e), next := s.tasks }.goTo t drain.body .done)
  | .executing _ => none
  | .done => none

/-- The body a thread runs returns, or throws. -/
def bodyEnds (s : WorkPool n β ε) (t : Thread n) (drain : Drain β ε) (exception : Option ε) :
    Option (PoolEvent n β ε × WorkPool n β ε) :=
  match drain.place, exception with
  | .executing task, none => some (.finished task t.index, s.goTo t drain.body .claiming)
  | .executing task, some e => some (.threw task t.index e, s.goTo t drain.body (.throwing task e))
  | _, _ => none

/-- One action, where it can be taken. -/
def step (s : WorkPool n β ε) : PoolAction n β ε → Option (PoolEvent n β ε × WorkPool n β ε)
  | .call tasks body =>
    -- two tasks or more: fewer are done by the caller alone
    if (s.drain none).isNone ∧ s.stopping = false ∧ 2 ≤ tasks ∧ tasks < 2 ^ 64 then
      some (.started tasks body, s.publish tasks body)
    else none
  | .wake i =>
    -- a worker sleeps until there is a generation it has not seen
    if (s.drain (some i)).isNone ∧ s.ended i = false ∧ s.stopping = false ∧
        s.generation ≠ s.seen i then
      some (.woke i, s.takeBody i)
    else none
  | .turn t => (s.drain t).bind (s.drainTasks t)
  | .ends t exception => (s.drain t).bind fun drain => s.bodyEnds t drain exception
  | .report i =>
    match s.drain (some i) with
    | some ⟨_, .done⟩ => some (.reported i, s.checkOut i (sub s.running 1))
    | _ => none
  | .back =>
    -- the call waits until no worker is left
    match s.drain none with
    | some ⟨_, .done⟩ => if s.running = 0 then some (.returned s.failure, s.retract) else none
    | _ => none
  | .stop => if (s.drain none).isNone then some (.stopped, { s with stopping := true }) else none
  | .exit i =>
    if (s.drain (some i)).isNone ∧ s.ended i = false ∧ s.stopping = true then
      some (.exited i, { s with ended := Function.update s.ended i true })
    else none

end WorkPool

end CartaZarr
