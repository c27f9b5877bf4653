import FysobEngine.Common.Timer
import FysobEngine.Foundation.LinkRings

/-!
# The timer with its links

`timer` at the level of `node_link`: the spokes and the ready list are rings of
links, and the functions rewrite links and free nodes. The log notes what is done
to tasks and nodes, and a fault where the program would leave defined behaviour;
no function reads it. A loop over links is given a number of turns, and it is a
fault when they do not suffice.
-/

namespace FysobEngine.Common

open Foundation.LinkRings

/-- The address of a `node_link`. -/
inductive Link where
  | null
  /-- `&ready_nodes_` -/
  | ready
  /-- `wheels_[wheel]->spokes + index` -/
  | spoke (wheel index : Nat)
  | node (address : Nat)
  deriving DecidableEq, Repr

inductive Entry where
  /-- `add_task` has returned the id of this task. -/
  | added (task : TimerTask)
  /-- `remove_task` has returned. -/
  | removed (id : UInt32)
  /-- The callback is invoked. -/
  | fired (task : TimerTask)
  | linked (address : Nat)
  | unlinked (address : Nat)
  | deleted (address : Nat)
  | fault
  deriving DecidableEq, Repr

structure LinkedTimer where
  links : Links Link
  /-- The nodes that are allocated and not deleted. -/
  nodes : Nat → Option TimerNode
  spokeIndex : Nat → Nat
  checktime : Nat
  timerMap : UInt32 → Option Nat
  /-- `auto_timer_increase_id_`. -/
  autoIncreaseId : UInt32
  allocations : Nat
  readings : Nat
  invocations : Nat
  log : List Entry

namespace LinkedTimer

open Timer (wheelNum wheelSize granularity)

variable (clock : Nat → Nat) (script : Nat → List Call)

/-- The constructor: every `node_link` is a ring by itself. -/
def create : LinkedTimer where
  links := ⟨id, id⟩
  nodes := fun _ => none
  spokeIndex := fun _ => 0
  checktime := clock 0
  timerMap := fun _ => none
  autoIncreaseId := 0
  allocations := 0
  readings := 1
  invocations := 0
  log := []

def note (s : LinkedTimer) (entry : Entry) : LinkedTimer := { s with log := s.log ++ [entry] }

/-! ## Memory -/

/-- A link that may be read and written. -/
def alive (s : LinkedTimer) : Link → Bool
  | .null => false
  | .ready => true
  | .spoke wheel index => decide (wheel < wheelNum ∧ index < wheelSize wheel)
  | .node address => (s.nodes address).isSome

def access (s : LinkedTimer) (link : Link) : LinkedTimer :=
  if s.alive link then s else s.note .fault

@[simp] theorem access_links (s : LinkedTimer) (link : Link) :
    (s.access link).links = s.links := by
  unfold access
  split <;> rfl

@[simp] theorem access_nodes (s : LinkedTimer) (link : Link) :
    (s.access link).nodes = s.nodes := by
  unfold access
  split <;> rfl

/-- `(timer_node*) link`. -/
def nodeAt (s : LinkedTimer) : Link → Option TimerNode
  | .node address => s.nodes address
  | .null | .ready | .spoke _ _ => none

/-- `new timer_node(timer, dead_time)`. -/
def newNode (s : LinkedTimer) (timer : TimerTask) (deadTime : Nat) : LinkedTimer :=
  let node : TimerNode := { address := s.allocations, deadTime := deadTime, timer := timer }
  { s with
    allocations := s.allocations + 1
    nodes := Function.update s.nodes s.allocations (some node)
    links := s.links.close (.node s.allocations) }

/-- `delete node`. -/
def delete (s : LinkedTimer) (address : Nat) : LinkedTimer :=
  match s.nodes address with
  | none => s.note .fault
  | some _ => { s with nodes := Function.update s.nodes address none }.note (.deleted address)

/-! ## Link surgery -/

/-- `link->prev->next = link->next`. -/
def skipNext (s : LinkedTimer) (link : Link) : LinkedTimer :=
  let s := (s.access link).access (s.links.prev link)
  { s with links := s.links.setNext (s.links.prev link) (s.links.next link) }

/-- `link->next->prev = link->prev`. -/
def skipPrev (s : LinkedTimer) (link : Link) : LinkedTimer :=
  let s := (s.access link).access (s.links.next link)
  { s with links := s.links.setPrev (s.links.next link) (s.links.prev link) }

/-- What `add_timer_node` and `add_to_ready_node` do at the link they chose. -/
def linkBefore (s : LinkedTimer) (last : Link) (address : Nat) : LinkedTimer :=
  let s := ((s.access last).access (s.links.prev last)).access (.node address)
  { s with links := s.links.linkBefore last (.node address) }.note (.linked address)

/-! ## The functions -/

/-- `get_current_millisec`. -/
def getCurrentMillisec (s : LinkedTimer) : Nat × LinkedTimer :=
  (clock s.readings, { s with readings := s.readings + 1 })

def setSpokeIndex (s : LinkedTimer) (wheel index : Nat) : LinkedTimer :=
  { s with spokeIndex := fun k => if k = wheel then index else s.spokeIndex k }

/-- The spoke that `add_timer_node` chooses, which depends on the indices only. -/
def spokeFor (s : LinkedTimer) (milseconds : Nat) : Link :=
  let wheels : Timer := { Timer.create (fun _ => 0) with spokeIndex := s.spokeIndex }
  .spoke (wheels.spokeFor milseconds).1 (wheels.spokeFor milseconds).2

/-- `add_timer_node`. -/
def addTimerNode (s : LinkedTimer) (milseconds address : Nat) : LinkedTimer :=
  s.linkBefore (s.spokeFor milseconds) address

/-- `add_to_ready_node`. -/
def addToReadyNode (s : LinkedTimer) (address : Nat) : LinkedTimer := s.linkBefore .ready address

/-- `add_timer`. -/
def addTimer (s : LinkedTimer) (milseconds : Nat) (timer : TimerTask) : Nat × LinkedTimer :=
  let (now, s) := s.getCurrentMillisec clock
  (s.allocations,
    (s.newNode timer (now + milseconds)).addTimerNode milseconds s.allocations)

def setTimerMap (s : LinkedTimer) (id : UInt32) (address : Option Nat) : LinkedTimer :=
  { s with timerMap := fun other => if other = id then address else s.timerMap other }

/-- `add_task`. -/
def addTask (s : LinkedTimer) (interval : UInt32) (type : TimerType) : LinkedTimer :=
  let s := { s with autoIncreaseId := s.autoIncreaseId + 1 }
  let task : TimerTask := { id := s.autoIncreaseId, interval := interval, type := type }
  let (address, s) := s.addTimer clock interval.toNat task
  (s.setTimerMap task.id (some address)).note (.added task)

/-- `remove_task` passes a node over where its neighbours are not null. -/
def skipBoth (s : LinkedTimer) (link : Link) : LinkedTimer :=
  let s := s.access link
  let s := if s.links.prev link = .null then s else s.skipNext link
  if s.links.next link = .null then s else s.skipPrev link

/-- `remove_task`. -/
def removeTask (s : LinkedTimer) (id : UInt32) : LinkedTimer :=
  match s.timerMap id with
  | none => s.note (.removed id)
  | some address =>
      let link := Link.node address
      let s := ((s.setTimerMap id none).skipBoth link).note (.unlinked address)
      let s := { s with links := (s.links.setPrev link .null).setNext link .null }
      (s.delete address).note (.removed id)

/-- The loop of `cascade`, which began at the spoke `spoke`. -/
def cascadeNodes (now : Nat) (spoke : Link) : Nat → Link → LinkedTimer → Nat → LinkedTimer × Nat
  | 0, link, s, casnum => (if link = spoke then s else s.note .fault, casnum)
  | .succ turns, link, s, casnum =>
      if link = spoke then (s, casnum)
      else
        match s.nodeAt link with
        | none => (s.note .fault, casnum)
        | some node =>
            let link := s.links.next link
            if node.deadTime ≤ now then
              cascadeNodes now spoke turns link (s.addToReadyNode node.address) casnum
            else
              let milseconds := node.deadTime - now
              cascadeNodes now spoke turns link
                (s.addTimerNode milseconds node.address) (casnum + 1)

/-- `cascade`, with the number of wheels from this one on. -/
def cascade : Nat → Nat → LinkedTimer → LinkedTimer × Nat
  | 0, _, s => (s, 0)
  | .succ left, wheel, s =>
      let (now, s) := s.getCurrentMillisec clock
      let spoke := Link.spoke wheel (s.spokeIndex wheel)
      let s := s.setSpokeIndex wheel (s.spokeIndex wheel + 1)
      let s := s.access spoke
      let link := s.links.next spoke
      let s := { s with links := s.links.close spoke }
      let (s, casnum) := cascadeNodes now spoke s.allocations link s 0
      if s.spokeIndex wheel ≥ wheelSize wheel then
        let (s, more) := cascade left (wheel + 1) (s.setSpokeIndex wheel 0)
        (s, casnum + more)
      else (s, casnum)

/-- The inner loop of `detect_timer_list`. -/
def drainSpoke (spoke : Link) : Nat → Link → LinkedTimer → LinkedTimer
  | 0, link, s => if link = spoke then s else s.note .fault
  | .succ turns, link, s =>
      if link = spoke then s
      else
        match s.nodeAt link with
        | none => s.note .fault
        | some node =>
            let s := ((s.skipNext link).skipPrev link).note (.unlinked node.address)
            drainSpoke spoke turns (s.links.next link) (s.addToReadyNode node.address)

/-- One turn of the loop of `detect_timer_list`. -/
def tick (s : LinkedTimer) : LinkedTimer :=
  let spoke := Link.spoke 0 (s.spokeIndex 0)
  let s := s.access spoke
  let s := drainSpoke spoke s.allocations (s.links.next spoke) s
  let s := s.setSpokeIndex 0 (s.spokeIndex 0 + 1)
  let s :=
    if s.spokeIndex 0 ≥ wheelSize 0 then
      (cascade clock (wheelNum - 1) 1 (s.setSpokeIndex 0 0)).1
    else s
  { s with checktime := s.checktime + granularity }

def ticks : Nat → LinkedTimer → LinkedTimer
  | 0, s => s
  | .succ loopnum, s => ticks loopnum (s.tick clock)

/-- One call of a callback. -/
def perform (s : LinkedTimer) : Call → LinkedTimer
  | .addTask interval type => s.addTask clock interval type
  | .removeTask id => s.removeTask id

/-- The callback of a node. -/
def invoke (s : LinkedTimer) (node : TimerNode) : LinkedTimer :=
  let calls := script s.invocations
  let s := { s with invocations := s.invocations + 1 }
  calls.foldl (perform clock) (s.note (.fired node.timer))

/-- What `do_timeout_callback` does with a node before its callback: a periodic task
is registered again, another one leaves the map. -/
def reregister (s : LinkedTimer) (node : TimerNode) : LinkedTimer :=
  match node.timer.type with
  | .circle =>
      let (again, s) := s.addTimer clock node.timer.interval.toNat node.timer
      s.setTimerMap node.timer.id (some again)
  | .once => s.setTimerMap node.timer.id none

/-- The loop of `do_timeout_callback`. -/
def timeoutLoop : Nat → Link → LinkedTimer → LinkedTimer
  | 0, link, s => if link = .ready then s else s.note .fault
  | .succ turns, link, s =>
      if link = .ready then s
      else
        match s.nodeAt link with
        | none => s.note .fault
        | some node =>
            let s := ((s.reregister clock node).invoke clock script node).access link
            timeoutLoop turns (s.links.next link) (s.delete node.address)

/-- `do_timeout_callback`. -/
def doTimeoutCallback (s : LinkedTimer) : LinkedTimer :=
  let s := timeoutLoop clock script s.allocations (s.links.next .ready) s
  { s with links := s.links.close .ready }

/-- The number of ticks that `detect_timer_list` has to make up for. -/
def loopnum (s : LinkedTimer) (now : Nat) : Nat :=
  if now > s.checktime then (now - s.checktime) / granularity else 0

/-- `detect_timer_list`, when its counter of 32 bits gets through the ticks. -/
def detectTimerList (s : LinkedTimer) : Option LinkedTimer :=
  let (now, s) := s.getCurrentMillisec clock
  if s.loopnum now < 2 ^ 32 then
    some (doTimeoutCallback clock script (ticks clock (s.loopnum now) s))
  else none

/-- One entry point, when it returns. -/
def Performs (s : LinkedTimer) (action : Timer.Action) (s' : LinkedTimer) : Prop :=
  match action with
  | .call call => s.perform clock call = s'
  | .detectTimerList => s.detectTimerList clock script = some s'

end LinkedTimer

end FysobEngine.Common
