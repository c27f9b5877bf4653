import Mathlib.Algebra.Ring.Nat

/-!
# The timer wheels

`timer` with its five wheels of spokes. A spoke is the list of the nodes linked
to it. The clock answers one reading after another, and a script says what
each invocation of a callback does. Milliseconds are counted from the epoch in
64 bits and do not reach the end of that range.
-/

namespace FysobEngine.Common

inductive TimerType where
  | once
  | circle
  deriving DecidableEq, Repr

/-- The callback of a task is known by what its invocations do. -/
structure TimerTask where
  id : UInt32
  interval : UInt32
  type : TimerType
  deriving DecidableEq, Repr

/-- A node is told apart from others by its address. -/
structure TimerNode where
  address : Nat
  deadTime : Nat
  timer : TimerTask
  deriving DecidableEq, Repr

/-- What a callback or another user of the timer asks for. -/
inductive Call where
  | addTask (interval : UInt32) (type : TimerType)
  | removeTask (id : UInt32)
  deriving DecidableEq, Repr

/-- The trace of a run, which no function of the timer reads. `placed` notes the
wheel, the milliseconds to go, the clock, and the time the wheels stand for. -/
inductive Event where
  | created (node : TimerNode)
  | placed (node : TimerNode) (wheel milseconds now wheelTime : Nat)
  | fired (node : TimerNode) (now : Nat)
  | removed (node : TimerNode)
  deriving DecidableEq, Repr

structure Timer where
  spokes : Nat → Nat → List TimerNode
  spokeIndex : Nat → Nat
  checktime : Nat
  readyNodes : List TimerNode
  timerMap : UInt32 → Option TimerNode
  /-- `auto_timer_increase_id_`. -/
  autoIncreaseId : UInt32
  allocations : Nat
  readings : Nat
  invocations : Nat
  trace : List Event

namespace Timer

def granularity : Nat := 10
def wheelBits1 : Nat := 8
def wheelBits2 : Nat := 6
def wheelSize1 : Nat := 1 <<< wheelBits1
def wheelSize2 : Nat := 1 <<< wheelBits2
def wheelMask1 : Nat := wheelSize1 - 1
def wheelMask2 : Nat := wheelSize2 - 1
def wheelNum : Nat := 5

/-- `size` of a wheel. -/
def wheelSize (wheel : Nat) : Nat := if wheel = 0 then wheelSize1 else wheelSize2

variable (clock : Nat → Nat) (script : Nat → List Call)

/-- The constructor, which reads the clock once. -/
def create : Timer where
  spokes := fun _ _ => []
  spokeIndex := fun _ => 0
  checktime := clock 0
  readyNodes := []
  timerMap := fun _ => none
  autoIncreaseId := 0
  allocations := 0
  readings := 1
  invocations := 0
  trace := []

/-- `get_current_millisec`. -/
def getCurrentMillisec (s : Timer) : Nat × Timer :=
  (clock s.readings, { s with readings := s.readings + 1 })

def setSpoke (s : Timer) (wheel index : Nat) (nodes : List TimerNode) : Timer :=
  { s with spokes := fun k j => if k = wheel ∧ j = index then nodes else s.spokes k j }

def setSpokeIndex (s : Timer) (wheel index : Nat) : Timer :=
  { s with spokeIndex := fun k => if k = wheel then index else s.spokeIndex k }

def note (s : Timer) (event : Event) : Timer := { s with trace := s.trace ++ [event] }

/-- The spoke that `add_timer_node` chooses. -/
def spokeFor (s : Timer) (milseconds : Nat) : Nat × Nat :=
  let interval := milseconds / granularity
  let threshold1 := wheelSize1
  let threshold2 := 1 <<< (wheelBits1 + wheelBits2)
  let threshold3 := 1 <<< (wheelBits1 + 2 * wheelBits2)
  let threshold4 := 1 <<< (wheelBits1 + 3 * wheelBits2)
  if interval < threshold1 then (0, (interval + s.spokeIndex 0) &&& wheelMask1)
  else if interval < threshold2 then
    (1, ((interval - threshold1 + s.spokeIndex 1 * threshold1) >>> wheelBits1) &&& wheelMask2)
  else if interval < threshold3 then
    (2, ((interval - threshold2 + s.spokeIndex 2 * threshold2) >>>
      (wheelBits1 + wheelBits2)) &&& wheelMask2)
  else if interval < threshold4 then
    (3, ((interval - threshold3 + s.spokeIndex 3 * threshold3) >>>
      (wheelBits1 + 2 * wheelBits2)) &&& wheelMask2)
  else
    (4, ((interval - threshold4 + s.spokeIndex 4 * threshold4) >>>
      (wheelBits1 + 3 * wheelBits2)) &&& wheelMask2)

/-- `add_timer_node`. -/
def addTimerNode (s : Timer) (milseconds : Nat) (node : TimerNode) : Timer :=
  let (wheel, index) := s.spokeFor milseconds
  s.setSpoke wheel index (s.spokes wheel index ++ [node])

/-- `add_to_ready_node`. -/
def addToReadyNode (s : Timer) (node : TimerNode) : Timer :=
  { s with readyNodes := s.readyNodes ++ [node] }

/-- `add_timer`. -/
def addTimer (s : Timer) (milseconds : Nat) (timer : TimerTask) : TimerNode × Timer :=
  let (now, s) := s.getCurrentMillisec clock
  let node : TimerNode := { address := s.allocations, deadTime := now + milseconds, timer := timer }
  let s := { s with allocations := s.allocations + 1 }
  let s := s.note (.created node)
  let s := s.note (.placed node (s.spokeFor milseconds).1 milseconds now s.checktime)
  (node, s.addTimerNode milseconds node)

def setTimerMap (s : Timer) (id : UInt32) (node : Option TimerNode) : Timer :=
  { s with timerMap := fun other => if other = id then node else s.timerMap other }

/-- `add_task`. -/
def addTask (s : Timer) (interval : UInt32) (type : TimerType) : Timer :=
  let s := { s with autoIncreaseId := s.autoIncreaseId + 1 }
  let task : TimerTask := { id := s.autoIncreaseId, interval := interval, type := type }
  let (node, s) := s.addTimer clock interval.toNat task
  s.setTimerMap task.id (some node)

/-- `remove_task` unlinks the node from whichever list it is in. -/
def removeTask (s : Timer) (id : UInt32) : Timer :=
  match s.timerMap id with
  | none => s
  | some node =>
      let s := s.setTimerMap id none
      let s := { s with
        spokes := fun k j => (s.spokes k j).filter (· ≠ node)
        readyNodes := s.readyNodes.filter (· ≠ node) }
      s.note (.removed node)

/-- The loop of `cascade` over the nodes it took off a spoke. -/
def cascadeNodes (now : Nat) : List TimerNode → Timer → Nat → Timer × Nat
  | [], s, casnum => (s, casnum)
  | node :: rest, s, casnum =>
      if node.deadTime ≤ now then cascadeNodes now rest (s.addToReadyNode node) casnum
      else
        let milseconds := node.deadTime - now
        -- the wheels stand for the tick that `checktime_` is still to count
        let s := s.note (.placed node (s.spokeFor milseconds).1 milseconds now
          (s.checktime + granularity))
        cascadeNodes now rest (s.addTimerNode milseconds node) (casnum + 1)

/-- `cascade`, with the number of wheels from this one on. -/
def cascade : Nat → Nat → Timer → Timer × Nat
  | 0, _, s => (s, 0)
  | .succ left, wheel, s =>
      let (now, s) := s.getCurrentMillisec clock
      let index := s.spokeIndex wheel
      let s := s.setSpokeIndex wheel (index + 1)
      let nodes := s.spokes wheel index
      let s := s.setSpoke wheel index []
      let (s, casnum) := cascadeNodes now nodes s 0
      if s.spokeIndex wheel ≥ wheelSize wheel then
        let (s, more) := cascade left (wheel + 1) (s.setSpokeIndex wheel 0)
        (s, casnum + more)
      else (s, casnum)

/-- One turn of the loop of `detect_timer_list`. -/
def tick (s : Timer) : Timer :=
  let index := s.spokeIndex 0
  let nodes := s.spokes 0 index
  let s := { s.setSpoke 0 index [] with readyNodes := s.readyNodes ++ nodes }
  let s := s.setSpokeIndex 0 (index + 1)
  let s :=
    if s.spokeIndex 0 ≥ wheelSize 0 then
      (cascade clock (wheelNum - 1) 1 (s.setSpokeIndex 0 0)).1
    else s
  { s with checktime := s.checktime + granularity }

def ticks : Nat → Timer → Timer
  | 0, s => s
  | .succ loopnum, s => ticks loopnum (s.tick clock)

/-- One call of a callback. -/
def perform (s : Timer) : Call → Timer
  | .addTask interval type => s.addTask clock interval type
  | .removeTask id => s.removeTask id

/-- The callback of a node. The clock has not fallen behind its last reading. -/
def invoke (s : Timer) (node : TimerNode) : Timer :=
  let calls := script s.invocations
  let s := { s with invocations := s.invocations + 1 }
  let s := s.note (.fired node (clock (s.readings - 1)))
  calls.foldl (perform clock) s

/-- The loop of `do_timeout_callback` for a number of nodes. The node in hand is
no longer in the map, so its callback cannot unlink it. -/
def timeoutLoop : Nat → Timer → Timer
  | 0, s => s
  | .succ left, s =>
      match s.readyNodes with
      | [] => s
      | node :: rest =>
          let s := { s with readyNodes := rest }
          let s :=
            match node.timer.type with
            | .circle =>
                let (again, s) := s.addTimer clock node.timer.interval.toNat node.timer
                s.setTimerMap node.timer.id (some again)
            | .once => s.setTimerMap node.timer.id none
          timeoutLoop left (s.invoke clock script node)

/-- `do_timeout_callback`. Callbacks only take nodes off the ready list. -/
def doTimeoutCallback (s : Timer) : Timer :=
  timeoutLoop clock script s.readyNodes.length s

/-- The number of ticks that `detect_timer_list` has to make up for. -/
def loopnum (s : Timer) (now : Nat) : Nat :=
  if now > s.checktime then (now - s.checktime) / granularity else 0

/-- `detect_timer_list`. Its counter has 32 bits, so it never gets through more
ticks than that. -/
def detectTimerList (s : Timer) : Option Timer :=
  let (now, s) := s.getCurrentMillisec clock
  if s.loopnum now < 2 ^ 32 then
    some (doTimeoutCallback clock script (ticks clock (s.loopnum now) s))
  else none

/-- The entry points of the timer. -/
inductive Action where
  | call (call : Call)
  | detectTimerList
  deriving DecidableEq, Repr

/-- One entry point, when it returns. -/
def Performs (s : Timer) (action : Action) (s' : Timer) : Prop :=
  match action with
  | .call call => s.perform clock call = s'
  | .detectTimerList => s.detectTimerList clock script = some s'

end Timer

end FysobEngine.Common
