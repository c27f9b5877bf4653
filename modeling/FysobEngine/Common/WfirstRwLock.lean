import Mathlib.Algebra.Ring.Nat
import FysobEngine.Foundation.Census
import FysobEngine.Foundation.Runs

/-!
# The writer-first lock

`wfirst_rw_lock` for any finite number of threads. Each section that holds the
mutex is one step. A thread that waits on a condition variable looks at its
predicate again when it has been notified, or at any moment without a reason. The
counters do not overflow: that would take more threads than a `std::size_t` counts.
-/

namespace FysobEngine.Common

open Foundation.Census Foundation.Runs

inductive LockMode where
  | read
  | write
  deriving DecidableEq, Repr

/-- Where a thread is. Readers wait on `cond_r` and writers on `cond_w`; a thread
that has been notified has still to look at its predicate. -/
inductive Place where
  | outside
  | waiting (mode : LockMode)
  | notified (mode : LockMode)
  | holding (mode : LockMode)
  deriving DecidableEq, Repr

namespace Place

/-- A reader that holds the lock. -/
def reads : Place → Bool
  | .holding .read => true
  | _ => false

/-- A writer that holds the lock. -/
def writes : Place → Bool
  | .holding .write => true
  | _ => false

/-- A writer that holds the lock or waits for it. -/
def wantsWrite : Place → Bool
  | .waiting .write | .notified .write | .holding .write => true
  | _ => false

end Place

structure WfirstRwLock (Thread : Type) where
  readCnt : Nat
  writeCnt : Nat
  writeFlag : Bool
  place : Thread → Place

namespace WfirstRwLock

variable {Thread : Type}

def create : WfirstRwLock Thread := ⟨0, 0, false, fun _ => .outside⟩

/-- `--` of a `std::size_t`. -/
def decrement (count : Nat) : Nat := if count = 0 then 2 ^ 64 - 1 else count - 1

/-- `cond_r.notify_all()`. -/
def notifyAll (s : WfirstRwLock Thread) : WfirstRwLock Thread :=
  { s with place := fun t =>
      if s.place t = .waiting .read then .notified .read else s.place t }

variable [DecidableEq Thread]

def move (s : WfirstRwLock Thread) (t : Thread) (place : Place) : WfirstRwLock Thread :=
  { s with place := Function.update s.place t place }

/-- One look of `cond_r.wait` at its predicate, and what follows in `read_lock`. -/
def awaitRead (s : WfirstRwLock Thread) (t : Thread) : WfirstRwLock Thread :=
  if s.writeCnt = 0 then { s.move t (.holding .read) with readCnt := s.readCnt + 1 }
  else s.move t (.waiting .read)

/-- `read_lock`. -/
def readLock (s : WfirstRwLock Thread) (t : Thread) : WfirstRwLock Thread := s.awaitRead t

/-- One look of `cond_w.wait` at its predicate, and what follows in `write_lock`. -/
def awaitWrite (s : WfirstRwLock Thread) (t : Thread) : WfirstRwLock Thread :=
  if s.readCnt = 0 ∧ s.writeFlag = false then
    { s.move t (.holding .write) with writeFlag := true }
  else s.move t (.waiting .write)

/-- `write_lock`. -/
def writeLock (s : WfirstRwLock Thread) (t : Thread) : WfirstRwLock Thread :=
  awaitWrite { s with writeCnt := s.writeCnt + 1 } t

variable [Fintype Thread]

/-- `cond_w.notify_one()`, which wakes the thread `woken`, or none where none waits. -/
def notifyOne (s : WfirstRwLock Thread) : Option Thread → Option (WfirstRwLock Thread)
  | some t => if s.place t = .waiting .write then some (s.move t (.notified .write)) else none
  | none => if ∀ t, s.place t ≠ .waiting .write then some s else none

/-- `read_unlock`. -/
def readUnlock (s : WfirstRwLock Thread) (t : Thread) (woken : Option Thread) :
    Option (WfirstRwLock Thread) :=
  let s := { s.move t .outside with readCnt := decrement s.readCnt }
  if s.readCnt = 0 ∧ 0 < s.writeCnt then s.notifyOne woken else some s

/-- `write_unlock`. -/
def writeUnlock (s : WfirstRwLock Thread) (t : Thread) (woken : Option Thread) :
    Option (WfirstRwLock Thread) := do
  let s := { s.move t .outside with writeCnt := decrement s.writeCnt }
  let s ← if s.writeCnt = 0 then some s.notifyAll else s.notifyOne woken
  some { s with writeFlag := false }

/-- What the threads do. A thread unlocks what it has locked. -/
inductive Action (Thread : Type) where
  | lock (thread : Thread) (mode : LockMode)
  /-- A waiting thread looks at its predicate again, notified or not. -/
  | wake (thread : Thread)
  | unlock (thread : Thread) (woken : Option Thread)

def step (s : WfirstRwLock Thread) : Action Thread → Option (WfirstRwLock Thread)
  | .lock t mode =>
      if s.place t = .outside then
        match mode with
        | .read => some (s.readLock t)
        | .write => some (s.writeLock t)
      else none
  | .wake t =>
      match s.place t with
      | .waiting .read | .notified .read => some (s.awaitRead t)
      | .waiting .write | .notified .write => some (s.awaitWrite t)
      | .outside | .holding _ => none
  | .unlock t woken =>
      match s.place t with
      | .holding .read => s.readUnlock t woken
      | .holding .write => s.writeUnlock t woken
      | .outside | .waiting _ | .notified _ => none

/-- The step relation. -/
def Steps (s : WfirstRwLock Thread) (action : Action Thread) (s' : WfirstRwLock Thread) : Prop :=
  s.step action = some s'

end WfirstRwLock

end FysobEngine.Common
