import Mathlib.Data.List.AList
import Mathlib.Logic.Function.Basic
import FysobEngine.Foundation.Runs

/-!
# `net_manager` and its scripts

`net_manager` keeps the context of every session under its id and runs the Lua
functions `on_connect`, `on_message` and `on_passive_clean` and the callbacks of
its timer. Scripts call back the functions registered with Lua. Both sides lock
the one `mutex_`, a `std::mutex`.

A script is the list of the registered calls that it makes. A script that fails
ends the process, in `luaL_error` outside any protected call. What a context is
told to do, through `fire_write` and `fire_close`, ends in posted tasks and does
not come back to `net_manager`.
-/

namespace FysobEngine.Net

open Foundation.Runs

namespace NetManager

/-- A Lua value, as `luaL_checkinteger` and `luaL_checklstring` convert it. -/
structure Argument where
  integer : Option Int
  string : Option (List UInt8)
  deriving DecidableEq, Repr

/-- The functions that `init` registers. -/
inductive Registered where
  | writeMessage
  | closeConnection
  | addTimer
  | removeTimer
  deriving DecidableEq, Repr

structure Call where
  function : Registered
  arguments : List Argument
  deriving DecidableEq, Repr

/-- What a context is told. -/
inductive Fired where
  | write (msg : List UInt8)
  | close
  deriving DecidableEq, Repr

/-- A task given to `timer_`. Its callback does nothing in this version of `add_timer`. -/
structure TimerRequest where
  interval : UInt32
  type : UInt32
  index : UInt32
  deriving DecidableEq, Repr

end NetManager

/-- The maps of `net_manager`, with what it has asked of contexts and of the timer. -/
structure NetManager (κ : Type) where
  contextMap : AList fun _ : UInt32 => κ
  fired : List (κ × NetManager.Fired)
  requests : List NetManager.TimerRequest

namespace NetManager

variable {κ : Type}

def create : NetManager κ := ⟨∅, [], []⟩

/-! ## The registered functions behind their `lock_guard` -/

/-- How a registered function ends. An argument error leaves it by `longjmp`. -/
inductive Outcome (σ : Type) where
  | returns (s : σ)
  | raises
  | undefined

/-- `luaL_checkinteger`; `none` is an argument error. -/
def luaLCheckinteger (arguments : List Argument) (index : Nat) : Option Int :=
  arguments[index - 1]?.bind Argument.integer

/-- `luaL_checklstring`; `none` is an argument error. -/
def luaLChecklstring (arguments : List Argument) (index : Nat) : Option (List UInt8) :=
  arguments[index - 1]?.bind Argument.string

/-- `write_message`. -/
def writeMessage (s : NetManager κ) (arguments : List Argument) : Outcome (NetManager κ) :=
  match luaLCheckinteger arguments 1 with
  | none => .raises
  | some sessionId =>
      match s.contextMap.lookup (UInt32.ofInt sessionId) with
      | none => .returns s
      | some ctx =>
          match luaLChecklstring arguments 2 with
          | none => .raises
          | some msg => .returns { s with fired := s.fired ++ [(ctx, .write msg)] }

/-- `close_connection` never assigns its iterator: `it` is the node it happens to
name, or `none` when it happens to be `end()`. -/
def closeConnection (s : NetManager κ) (it : Option UInt32) (arguments : List Argument) :
    Outcome (NetManager κ) :=
  match luaLCheckinteger arguments 1 with
  | none => .raises
  | some _ =>
      match it with
      | none => .returns s
      | some id =>
          match s.contextMap.lookup id with
          | none => .undefined
          | some ctx => .returns { s with
              contextMap := s.contextMap.erase id
              fired := s.fired ++ [(ctx, .close)] }

/-- `add_timer`. It has no `return`, and so no number of results for Lua. -/
def addTimer (s : NetManager κ) (arguments : List Argument) : Outcome (NetManager κ) :=
  match luaLCheckinteger arguments 1, luaLCheckinteger arguments 2,
      luaLCheckinteger arguments 3 with
  | some interval, some type, some index =>
      .returns { s with
        requests := s.requests ++
          [⟨UInt32.ofInt interval, UInt32.ofInt type, UInt32.ofInt index⟩] }
  | _, _, _ => .raises

/-- `remove_timer`, which removes nothing. -/
def removeTimer (s : NetManager κ) (arguments : List Argument) : Outcome (NetManager κ) :=
  match luaLCheckinteger arguments 1 with
  | none => .raises
  | some _ => .returns s

def invoke (s : NetManager κ) (it : Option UInt32) (call : Call) : Outcome (NetManager κ) :=
  match call.function with
  | .writeMessage => s.writeMessage call.arguments
  | .closeConnection => s.closeConnection it call.arguments
  | .addTimer => s.addTimer call.arguments
  | .removeTimer => s.removeTimer call.arguments

/-- Every argument that the function checks is convertible. -/
def accepts (s : NetManager κ) (call : Call) : Bool :=
  (luaLCheckinteger call.arguments 1).any fun first =>
    match call.function with
    | .writeMessage =>
        (s.contextMap.lookup (UInt32.ofInt first)).isNone ||
          (luaLChecklstring call.arguments 2).isSome
    | .closeConnection => true
    | .addTimer =>
        (luaLCheckinteger call.arguments 2).isSome && (luaLCheckinteger call.arguments 3).isSome
    | .removeTimer => true

theorem invoke_raises_iff (s : NetManager κ) (it : Option UInt32) (call : Call) :
    s.invoke it call = .raises ↔ s.accepts call = false := by
  obtain ⟨function, arguments⟩ := call
  unfold invoke accepts
  dsimp only
  cases first : luaLCheckinteger arguments 1 with
  | none => cases function <;> simp [writeMessage, closeConnection, addTimer, removeTimer, first]
  | some n =>
      cases function with
      | writeMessage =>
          cases found : s.contextMap.lookup (UInt32.ofInt n) with
          | none => simp [writeMessage, first, found]
          | some ctx =>
              cases text : luaLChecklstring arguments 2 <;>
                simp [writeMessage, first, found, text]
      | closeConnection =>
          cases it with
          | none => simp [closeConnection, first]
          | some id =>
              cases found : s.contextMap.lookup id <;> simp [closeConnection, first, found]
      | addTimer =>
          cases second : luaLCheckinteger arguments 2 <;>
            cases third : luaLCheckinteger arguments 3 <;> simp [addTimer, first, second, third]
      | removeTimer => simp [removeTimer, first]

/-! ## The entry points -/

/-- What calls `net_manager` from outside of Lua. `handle_check_timer` runs the
callbacks of the tasks that are due. -/
inductive Event (κ : Type) where
  | onConnect (ctx : κ) (sessionId : UInt32)
  | onMessage (sessionId : UInt32) (msg : List UInt8)
  | onPassiveClean (sessionId : UInt32)
  | handleCheckTimer

/-- What the entry point does before it runs the script. -/
def enter (s : NetManager κ) : Event κ → NetManager κ
  | .onConnect ctx sessionId => { s with contextMap := s.contextMap.insert sessionId ctx }
  | .onMessage _ _ => s
  | .onPassiveClean sessionId => { s with contextMap := s.contextMap.erase sessionId }
  | .handleCheckTimer => s

end NetManager

/-! ## Threads -/

/-- What a thread has still to do. -/
inductive Op (κ : Type) where
  /-- The constructor of `std::lock_guard<std::mutex> lock(mutex_)`. -/
  | lock
  /-- The entry point, with what its script or its callbacks will call. -/
  | enter (event : NetManager.Event κ) (script : List NetManager.Call)
  /-- A registered function behind its `lock_guard`, and the end of that guard. -/
  | call (call : NetManager.Call)
  /-- The end of an entry point's `lock_guard`. -/
  | unlock

/-- `net_manager` and the threads that use it. -/
structure NetThreads (Thread κ : Type) where
  manager : NetManager κ
  /-- The thread that holds `mutex_`. -/
  mutex : Option Thread
  program : Thread → List (Op κ)

namespace NetThreads

open NetManager

variable {Thread κ : Type}

def create : NetThreads Thread κ := ⟨.create, none, fun _ => []⟩

/-- The registered calls of a script. -/
def scriptOps (script : List Call) : List (Op κ) :=
  script.flatMap fun call => [.lock, .call call]

/-- What can happen next. -/
inductive Action (Thread κ : Type) where
  /-- An idle thread is given an event. -/
  | event (thread : Thread) (event : Event κ) (script : List Call)
  /-- An idle thread runs a script outside of the lock, as `main` does. -/
  | script (thread : Thread) (script : List Call)
  /-- A thread goes on; `it` is for `close_connection`. -/
  | run (thread : Thread) (it : Option UInt32)

variable [DecidableEq Thread]

def setProgram (s : NetThreads Thread κ) (thread : Thread) (ops : List (Op κ)) :
    NetThreads Thread κ :=
  { s with program := Function.update s.program thread ops }

/-- One operation of a thread. A `lock` waits as long as the mutex is taken, whoever
holds it. A registered function that raises does not destroy its `lock_guard`: Lua is
built as C, and its `longjmp` runs no destructor. -/
def run (s : NetThreads Thread κ) (thread : Thread) (it : Option UInt32) :
    Option (NetThreads Thread κ) :=
  match s.program thread with
  | [] => none
  | .lock :: rest =>
      if s.mutex = none then some { s.setProgram thread rest with mutex := some thread }
      else none
  | .enter event script :: rest =>
      some { s.setProgram thread (scriptOps script ++ .unlock :: rest) with
        manager := s.manager.enter event }
  | .call call :: rest =>
      match s.manager.invoke it call with
      | .returns manager => some { s.setProgram thread rest with manager, mutex := none }
      | .raises => some (s.setProgram thread rest)
      | .undefined => none
  | .unlock :: rest => some { s.setProgram thread rest with mutex := none }

def step (s : NetThreads Thread κ) : Action Thread κ → Option (NetThreads Thread κ)
  | .event thread event script =>
      if (s.program thread).isEmpty then some (s.setProgram thread [.lock, .enter event script])
      else none
  | .script thread script =>
      if (s.program thread).isEmpty then some (s.setProgram thread (scriptOps script)) else none
  | .run thread it => s.run thread it

/-- The step relation. -/
def Steps (s : NetThreads Thread κ) (action : Action Thread κ) (s' : NetThreads Thread κ) : Prop :=
  s.step action = some s'

end NetThreads

end FysobEngine.Net
