import Mathlib.Data.List.AList
import FysobEngine.Net.SessionRelease

/-!
# The sessions of a server

`server` keeps a session in `session_map_` once it is accepted. A session that is
found idle is moved to `wait_remove_session_map_` and told to close. The close
handler of a session takes its id out of one of the maps.
-/

namespace FysobEngine.Net

open Foundation.Runs

/-- `std::map<uint32_t, std::shared_ptr<session>>`. A pointer is the number of
the session in the order of acceptance. -/
abbrev SessionMap := AList fun _ : Nat => Nat

/-- A server, with every session that it has accepted, next to its id. -/
structure Server (β : Type) where
  autoSessionIncreaseId : Nat
  /-- The id of the session that `accept` waits for. -/
  accepting : Nat
  sessions : List (Nat × Session β)
  sessionMap : SessionMap
  waitRemoveSessionMap : SessionMap

namespace Server

variable {β : Type}

/-- `get_session_increase_id`, a `std::uint32_t`. -/
def getSessionIncreaseId (s : Server β) : Nat := (s.autoSessionIncreaseId + 1) % 2 ^ 32

/-- `remove_session`. -/
def removeSession (map : SessionMap) (id : Nat) : Option Nat × SessionMap :=
  (map.lookup id, map.erase id)

/-- `close_session`, the close handler of the sessions. -/
def closeSession (s : Server β) (id : Nat) : Server β :=
  let (result, waitRemoveSessionMap) := removeSession s.waitRemoveSessionMap id
  match result with
  | some _ => { s with waitRemoveSessionMap := waitRemoveSessionMap }
  | none => { s with sessionMap := (removeSession s.sessionMap id).2 }

/-- `accept`. -/
def accept (s : Server β) : Server β :=
  { s with
    autoSessionIncreaseId := s.getSessionIncreaseId
    accepting := s.getSessionIncreaseId }

/-- One turn of the loop of `handle_check_idle`. -/
def checkIdleSession (s : Server β) (id number : Nat) : Server β :=
  match s.sessions[number]? with
  | some (own, session) =>
      if session.handleCount = 0 then
        { s with
          waitRemoveSessionMap := s.waitRemoveSessionMap.insert id number
          sessions := s.sessions.set number (own, session.close)
          sessionMap := s.sessionMap.erase id }
      else s
  | none => s

/-- `handle_check_idle`. -/
def handleCheckIdle (s : Server β) : Server β :=
  s.sessionMap.entries.foldl (fun s entry => s.checkIdleSession entry.1 entry.2) s

variable [SessionBuffer β] (settings : Settings)

/-- The constructor, when `counter` ids have been given away. -/
def create (counter : Nat) : Server β :=
  accept ⟨counter, 0, [], ∅, ∅⟩

/-- A step of a session, which calls `close_session` from its close handler. -/
def sessionStep (s : Server β) (number : Nat) (action : Session.Action) :
    Option (Server β) := do
  let (id, session) ← s.sessions[number]?
  let stepped ← session.step { settings with closeHandler := true } action
  let calls := stepped.trace.count .closeHandler - session.trace.count .closeHandler
  let s := { s with sessions := s.sessions.set number (id, stepped) }
  some ((List.replicate calls id).foldl closeSession s)

/-- `handle_accept`, with the calls that the handlers make when they are connected. -/
def handleAccept (s : Server β) (connect : List HandlerCall) : Option (Server β) := do
  let number := s.sessions.length
  let s := { s with
    sessions := s.sessions ++ [(s.accepting, Session.create)]
    sessionMap := s.sessionMap.insert s.accepting number }
  let s ← s.sessionStep settings number (.start connect)
  some s.accept

/-- What can happen to a server and its sessions. Others draw ids from the same
counter, as a failed `handle_accept` does. -/
inductive Action where
  | handleAccept (connect : List HandlerCall)
  | acceptAgain
  | drawId
  | handleCheckIdle
  | session (number : Nat) (action : Session.Action)

def step (s : Server β) : Action → Option (Server β)
  | .handleAccept connect => s.handleAccept settings connect
  | .acceptAgain => some s.accept
  | .drawId => some { s with autoSessionIncreaseId := s.getSessionIncreaseId }
  | .handleCheckIdle => some s.handleCheckIdle
  | .session number action => s.sessionStep settings number action

/-- The step relation. -/
def Steps (s : Server β) (action : Action) (s' : Server β) : Prop :=
  s.step settings action = some s'

omit [SessionBuffer β] in
/-- A map keeps the session of this id and number. -/
def Keeps (s : Server β) (id number : Nat) : Prop :=
  s.sessionMap.lookup id = some number ∨ s.waitRemoveSessionMap.lookup id = some number

omit [SessionBuffer β] in
/-- No other accepted session has the id of this one. -/
def OnlyId (s : Server β) (id number : Nat) : Prop :=
  ∀ other session, s.sessions[other]? = some (id, session) → other = number

end Server

end FysobEngine.Net
