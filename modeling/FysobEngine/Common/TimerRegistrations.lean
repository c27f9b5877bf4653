import FysobEngine.Foundation.Runs
import FysobEngine.Common.TimerTicks

/-!
# What the timer registers

Every call of `add_task` and every callback of a periodic task gives the timer
one more node, due an interval behind the reading of the clock.
-/

namespace FysobEngine.Common.Timer

open Foundation.Runs

variable {clock : Nat → Nat} {script : Nat → List Call} {s : Timer}

/-- The node that `add_timer` makes for a task in a state. -/
def nodeFor (clock : Nat → Nat) (s : Timer) (task : TimerTask) : TimerNode :=
  ⟨s.allocations, clock s.readings + task.interval.toNat, task⟩

/-- The placement of that node. -/
def placementFor (clock : Nat → Nat) (s : Timer) (task : TimerTask) : Event :=
  .placed (s.nodeFor clock task) (s.spokeFor task.interval.toNat).1 task.interval.toNat
    (clock s.readings) s.checktime

/-- A task has been given a new node, which is linked to a spoke and found under
the id of the task. -/
structure Registers (clock : Nat → Nat) (s s' : Timer) (task : TimerTask) : Prop where
  traced : s'.trace = s.trace ++ [.created (s.nodeFor clock task), s.placementFor clock task]
  linked : ∃ wheel < wheelNum, ∃ index, s.nodeFor clock task ∈ s'.spokes wheel index
  known : s'.timerMap task.id = some (s.nodeFor clock task)
  read : s'.readings = s.readings + 1

theorem spokeFor_inside (s : Timer) (milseconds : Nat) : (s.spokeFor milseconds).1 < wheelNum := by
  unfold spokeFor
  dsimp only
  split
  · exact (by decide : 0 < wheelNum)
  · split
    · exact (by decide : 1 < wheelNum)
    · split
      · exact (by decide : 2 < wheelNum)
      · split
        · exact (by decide : 3 < wheelNum)
        · exact (by decide : 4 < wheelNum)

variable (clock) in
/-- A task is registered by `add_timer` with its entry in the map. -/
theorem addTimer_registers (s : Timer) (task : TimerTask) :
    Registers clock s ((s.addTimer clock task.interval.toNat task).2.setTimerMap task.id
      (some (s.addTimer clock task.interval.toNat task).1)) task where
  traced := List.append_assoc _ _ _
  linked := by
    refine ⟨_, spokeFor_inside s task.interval.toNat, (s.spokeFor task.interval.toNat).2, ?_⟩
    change _ ∈ if _ ∧ _ then _ else _
    rw [if_pos ⟨rfl, rfl⟩]
    exact List.mem_append_right _ List.mem_cons_self
  known := if_pos rfl
  read := rfl

/-- The task that `add_task` makes out of its arguments. -/
def taskFor (s : Timer) (interval : UInt32) (type : TimerType) : TimerTask :=
  ⟨s.autoIncreaseId + 1, interval, type⟩

theorem addTask_registers (s : Timer) (interval : UInt32) (type : TimerType) :
    Registers clock s (s.addTask clock interval type) (s.taskFor interval type) := by
  have added := addTimer_registers clock
    { s with autoIncreaseId := s.autoIncreaseId + 1 } (s.taskFor interval type)
  exact ⟨added.traced, added.linked, added.known, added.read⟩

/-! ## Counts -/

/-- Nodes created for tasks of an interval and a type. -/
def registrations (interval : UInt32) (type : TimerType) (trace : List Event) : Nat :=
  trace.countP fun
    | .created node => node.timer.interval = interval ∧ node.timer.type = type
    | _ => false

/-- Nodes of such tasks that have been fired. -/
def firings (interval : UInt32) (type : TimerType) (trace : List Event) : Nat :=
  trace.countP fun
    | .fired node _ => node.timer.interval = interval ∧ node.timer.type = type
    | _ => false

/-- Firings that register their task again. -/
def renewals (interval : UInt32) (type : TimerType) (trace : List Event) : Nat :=
  match type with
  | .once => 0
  | .circle => firings interval .circle trace

/-- What the first callbacks have asked for. -/
def callbackRequests (script : Nat → List Call) (interval : UInt32) (type : TimerType) : Nat → Nat
  | 0 => 0
  | .succ count =>
      callbackRequests script interval type count +
        (script count).count (.addTask interval type)

/-- A node has been fired just behind the registration that puts its task an
interval off. -/
def Renewed (trace : List Event) (node : TimerNode) (now : Nat) : Prop :=
  ∃ again placement, again.timer = node.timer ∧
    again.deadTime = now + node.timer.interval.toNat ∧
    [.created again, placement, .fired node now] <:+: trace

/-- The books of a timer that was asked for so many tasks of each kind. -/
structure Registered (clock : Nat → Nat) (asked : UInt32 → TimerType → Nat) (s : Timer) :
    Prop where
  balance : ∀ interval type, registrations interval type s.trace =
    asked interval type + renewals interval type s.trace
  stamped : ∀ node, .created node ∈ s.trace →
    ∃ reading < s.readings, node.deadTime = clock reading + node.timer.interval.toNat
  renewed : ∀ node now, .fired node now ∈ s.trace → node.timer.type = .circle →
    Renewed s.trace node now

theorem registrations_append (interval : UInt32) (type : TimerType) (before behind : List Event) :
    registrations interval type (before ++ behind) =
      registrations interval type before + registrations interval type behind :=
  List.countP_append

theorem renewals_append (interval : UInt32) (type : TimerType) (before behind : List Event) :
    renewals interval type (before ++ behind) =
      renewals interval type before + renewals interval type behind := by
  cases type with
  | once => rfl
  | circle => exact List.countP_append

theorem Renewed.append {trace : List Event} {node : TimerNode} {now : Nat}
    (renewed : Renewed trace node now) (events : List Event) :
    Renewed (trace ++ events) node now := by
  obtain ⟨again, placement, timer, deadTime, noted⟩ := renewed
  exact ⟨again, placement, timer, deadTime, noted.trans (List.prefix_append _ _).isInfix⟩

/-! ## Steps that register nothing -/

/-- An event that neither creates nor fires a node. -/
def Quiet : Event → Prop
  | .created _ | .fired _ _ => False
  | .placed _ _ _ _ _ | .removed _ => True

/-- A step that notes such events only. -/
structure Moves (s s' : Timer) : Prop where
  traced : ∃ events, s'.trace = s.trace ++ events ∧ ∀ event ∈ events, Quiet event
  invocations : s'.invocations = s.invocations
  readings : s.readings ≤ s'.readings

theorem Moves.of_eq {s' : Timer} (trace : s'.trace = s.trace)
    (invocations : s'.invocations = s.invocations) (readings : s.readings ≤ s'.readings) :
    Moves s s' :=
  ⟨⟨[], by rw [trace, List.append_nil], fun _ => nofun⟩, invocations, readings⟩

theorem Moves.trans {s' s'' : Timer} (first : Moves s s') (second : Moves s' s'') :
    Moves s s'' := by
  obtain ⟨before, traced, quiet⟩ := first.traced
  obtain ⟨behind, traced', quiet'⟩ := second.traced
  refine ⟨⟨before ++ behind, by rw [traced', traced, List.append_assoc], ?_⟩,
    second.invocations.trans first.invocations, Nat.le_trans first.readings second.readings⟩
  intro event member
  rcases List.mem_append.mp member with old | new
  · exact quiet event old
  · exact quiet' event new

theorem Moves.note {event : Event} (quiet : Quiet event) : Moves s (s.note event) :=
  ⟨⟨[event], rfl, fun _ member => List.mem_singleton.mp member ▸ quiet⟩, rfl, Nat.le_refl _⟩

theorem cascadeNodes_moves (now : Nat) (nodes : List TimerNode) (s : Timer) (casnum : Nat) :
    Moves s (cascadeNodes now nodes s casnum).1 := by
  induction nodes generalizing s casnum with
  | nil => exact .of_eq rfl rfl (Nat.le_refl _)
  | cons node rest ih =>
      rw [cascadeNodes]
      split
      · have waiting : Moves s (s.addToReadyNode node) := .of_eq rfl rfl (Nat.le_refl _)
        exact waiting.trans (ih _ _)
      · have noted : Moves s (s.note (.placed node (s.spokeFor (node.deadTime - now)).1
            (node.deadTime - now) now (s.checktime + granularity))) := .note trivial
        have linked (s : Timer) : Moves s (s.addTimerNode (node.deadTime - now) node) :=
          .of_eq rfl rfl (Nat.le_refl _)
        exact (noted.trans (linked _)).trans (ih _ _)

theorem cascaded_moves (clock : Nat → Nat) (wheel : Nat) (s : Timer) :
    Moves s (cascaded clock wheel s) := by
  have taken : Moves s (((s.getCurrentMillisec clock).2.setSpokeIndex wheel
      (s.spokeIndex wheel + 1)).setSpoke wheel (s.spokeIndex wheel) []) :=
    .of_eq rfl rfl (Nat.le_succ _)
  exact taken.trans (cascadeNodes_moves _ _ _ _)

theorem cascade_moves (left wheel : Nat) (s : Timer) : Moves s (cascade clock left wheel s).1 := by
  induction left generalizing wheel s with
  | zero => exact .of_eq rfl rfl (Nat.le_refl _)
  | succ left ih =>
      rw [cascade_succ]
      have here := cascaded_moves clock wheel s
      split
      · have reset : Moves (cascaded clock wheel s)
            ((cascaded clock wheel s).setSpokeIndex wheel 0) := .of_eq rfl rfl (Nat.le_refl _)
        exact (here.trans reset).trans (ih _ _)
      · exact here

theorem tick_moves (s : Timer) : Moves s (s.tick clock) := by
  rw [tick_eq]
  split
  · have start : Moves s (s.emptied.setSpokeIndex 0 0) := .of_eq rfl rfl (Nat.le_refl _)
    exact (start.trans (cascade_moves 4 1 _)).trans (.of_eq rfl rfl (Nat.le_refl _))
  · exact .of_eq rfl rfl (Nat.le_refl _)

theorem ticks_moves (clock : Nat → Nat) (loopnum : Nat) (s : Timer) :
    Moves s (ticks clock loopnum s) := by
  induction loopnum generalizing s with
  | zero => exact .of_eq rfl rfl (Nat.le_refl _)
  | succ loopnum ih => exact (tick_moves s).trans (ih _)

theorem removeTask_moves (s : Timer) (id : UInt32) : Moves s (s.removeTask id) := by
  unfold removeTask
  split
  · exact .of_eq rfl rfl (Nat.le_refl _)
  · next node _ =>
      have unlinked : Moves s (({ s.setTimerMap id none with
          spokes := fun k j => (s.spokes k j).filter (· ≠ node)
          readyNodes := s.readyNodes.filter (· ≠ node) } : Timer)) :=
        .of_eq rfl rfl (Nat.le_refl _)
      exact unlinked.trans (.note trivial)

namespace Registered

variable {asked : UInt32 → TimerType → Nat}

theorem quiet_counts {events : List Event} (quiet : ∀ event ∈ events, Quiet event)
    (interval : UInt32) (type : TimerType) :
    registrations interval type events = 0 ∧ renewals interval type events = 0 := by
  have none_fired : firings interval .circle events = 0 := by
    rw [firings, List.countP_eq_zero]
    intro event member
    cases event with
    | fired node now => cases quiet _ member
    | created | placed | removed => exact Bool.false_ne_true
  constructor
  · rw [registrations, List.countP_eq_zero]
    intro event member
    cases event with
    | created node => cases quiet _ member
    | fired | placed | removed => exact Bool.false_ne_true
  · cases type with
    | once => rfl
    | circle => exact none_fired

/-- Events that balance what is asked for more behind them, and are as they should be. -/
theorem noted {more : UInt32 → TimerType → Nat} {s' : Timer} {events : List Event}
    (books : Registered clock asked s) (traced : s'.trace = s.trace ++ events)
    (readings : s.readings ≤ s'.readings)
    (balance : ∀ interval type, asked interval type + registrations interval type events =
      more interval type + renewals interval type events)
    (stamped : ∀ node, .created node ∈ events →
      ∃ reading < s'.readings, node.deadTime = clock reading + node.timer.interval.toNat)
    (renewed : ∀ node now, .fired node now ∈ events → node.timer.type = .circle →
      Renewed s'.trace node now) : Registered clock more s' := by
  refine ⟨?_, ?_, ?_⟩
  · intro interval type
    have before := books.balance interval type
    have behind := balance interval type
    rw [traced, registrations_append, renewals_append]
    omega
  · intro node member
    rw [traced] at member
    rcases List.mem_append.mp member with old | new
    · obtain ⟨reading, earlier, stamp⟩ := books.stamped node old
      exact ⟨reading, Nat.lt_of_lt_of_le earlier readings, stamp⟩
    · exact stamped node new
  · intro node now member circle
    rw [traced] at member
    rcases List.mem_append.mp member with old | new
    · rw [traced]
      exact (books.renewed node now old circle).append events
    · exact renewed node now new circle

/-- A step that registers nothing leaves the books as they are. -/
theorem moved (books : Registered clock asked s) {s' : Timer} (moves : Moves s s') :
    Registered clock asked s' := by
  obtain ⟨events, traced, quiet⟩ := moves.traced
  refine books.noted traced moves.readings (fun interval type => ?_) (fun node new => ?_)
    fun node now new => ?_
  · obtain ⟨created, renewed⟩ := quiet_counts quiet interval type
    rw [created, renewed]
  · cases quiet _ new
  · cases quiet _ new

/-- A new node counts for the task that it was made for. -/
theorem registered (books : Registered clock asked s) {s' : Timer} {task : TimerTask}
    (registers : Registers clock s s' task) :
    Registered clock (fun interval type => asked interval type +
      if task.interval = interval ∧ task.type = type then 1 else 0) s' := by
  have later : s.readings < s'.readings := registers.read ▸ Nat.lt_succ_self _
  refine books.noted registers.traced (Nat.le_of_lt later) (fun interval type => ?_)
    (fun node new => ?_) fun node now new => ?_
  · have renewed : renewals interval type
        [.created (s.nodeFor clock task), s.placementFor clock task] = 0 := by
      cases type <;> rfl
    have created : registrations interval type
        [.created (s.nodeFor clock task), s.placementFor clock task] =
          if task.interval = interval ∧ task.type = type then 1 else 0 := by
      by_cases same : task.interval = interval ∧ task.type = type <;>
        simp [registrations, nodeFor, placementFor, same]
    rw [renewed, created]
    rfl
  · rcases List.mem_cons.mp new with here | there
    · rw [Event.created.inj here]
      exact ⟨s.readings, later, rfl⟩
    · cases List.mem_singleton.mp there
  · rcases List.mem_cons.mp new with here | there
    · cases here
    · cases List.mem_singleton.mp there

/-- Only the trace and the readings matter. -/
theorem frame (books : Registered clock asked s) {s' : Timer} (trace : s'.trace = s.trace)
    (readings : s'.readings = s.readings) : Registered clock asked s' := by
  refine ⟨trace ▸ books.balance, ?_, trace ▸ books.renewed⟩
  rw [trace, readings]
  exact books.stamped

/-- The callback of a task that ends with it registers nothing. -/
theorem fired_once (books : Registered clock asked s) {node : TimerNode}
    (once : node.timer.type = .once) (now : Nat) :
    Registered clock asked (s.note (.fired node now)) := by
  refine books.noted rfl (Nat.le_refl _) (fun interval type => ?_) (fun other new => ?_)
    fun other late new circle => ?_
  · have created : registrations interval type [.fired node now] = 0 := rfl
    have renewed : renewals interval type [.fired node now] = 0 := by
      cases type with
      | once => rfl
      | circle => simp [renewals, firings, once]
    rw [created, renewed]
  · cases List.mem_singleton.mp new
  · obtain ⟨rfl, rfl⟩ := Event.fired.inj (List.mem_singleton.mp new)
    rw [once] at circle
    cases circle

/-- The callback of a periodic task goes with the new node of that task. -/
theorem fired_circle (books : Registered clock asked s) {node : TimerNode} {s' : Timer}
    (circle : node.timer.type = .circle) (registers : Registers clock s s' node.timer) :
    Registered clock asked (s'.note (.fired node (clock s.readings))) := by
  refine (books.registered registers).noted rfl (Nat.le_refl _) (fun interval type => ?_)
    (fun other new => ?_) fun other late new _ => ?_
  · have created : registrations interval type [.fired node (clock s.readings)] = 0 := rfl
    have renewed : renewals interval type [.fired node (clock s.readings)] =
        if node.timer.interval = interval ∧ node.timer.type = type then 1 else 0 := by
      cases type with
      | once => simp [renewals, circle]
      | circle => by_cases same : node.timer.interval = interval <;>
          simp [renewals, firings, circle, same]
    rw [created, renewed, Nat.add_zero]
  · cases List.mem_singleton.mp new
  · obtain ⟨rfl, rfl⟩ := Event.fired.inj (List.mem_singleton.mp new)
    refine ⟨s.nodeFor clock other.timer, s.placementFor clock other.timer, rfl, rfl, ?_⟩
    refine ⟨s.trace, [], ?_⟩
    rw [List.append_nil]
    exact (List.append_assoc _ _ _).symm.trans (congrArg (· ++ _) registers.traced.symm)

/-! ## Calls -/

theorem perform (books : Registered clock asked s) (call : Call) :
    Registered clock (fun interval type => asked interval type +
      [call].count (.addTask interval type)) (s.perform clock call) := by
  cases call with
  | addTask interval type =>
      have added := books.registered (addTask_registers s interval type)
      refine ⟨?_, added.stamped, added.renewed⟩
      intro other kind
      have counted : [Call.addTask interval type].count (.addTask other kind) =
          if interval = other ∧ type = kind then 1 else 0 := by
        by_cases same : interval = other ∧ type = kind <;> simp [same]
      rw [counted]
      exact added.balance other kind
  | removeTask id =>
      have removed := books.moved (removeTask_moves s id)
      refine ⟨?_, removed.stamped, removed.renewed⟩
      intro other kind
      have counted : [Call.removeTask id].count (.addTask other kind) = 0 := by
        simp
      rw [counted]
      exact removed.balance other kind

theorem performs (books : Registered clock asked s) (calls : List Call) :
    Registered clock (fun interval type => asked interval type +
      calls.count (.addTask interval type)) (calls.foldl (Timer.perform clock) s) := by
  induction calls generalizing s asked with
  | nil => exact books
  | cons call rest ih =>
      have later := ih (books.perform call)
      refine ⟨?_, later.stamped, later.renewed⟩
      intro interval type
      have counted : ([call] ++ rest).count (.addTask interval type) =
          [call].count (.addTask interval type) + rest.count (.addTask interval type) :=
        List.count_append
      change _ = asked interval type + ([call] ++ rest).count (.addTask interval type) + _
      rw [counted, ← Nat.add_assoc]
      exact later.balance interval type

end Registered

theorem perform_invocations (s : Timer) (call : Call) :
    (s.perform clock call).invocations = s.invocations := by
  cases call with
  | addTask interval type => rfl
  | removeTask id => exact (removeTask_moves s id).invocations

theorem performs_invocations (s : Timer) (calls : List Call) :
    (calls.foldl (perform clock) s).invocations = s.invocations := by
  induction calls generalizing s with
  | nil => rfl
  | cons call rest ih => exact (ih _).trans (perform_invocations s call)

/-! ## Callbacks -/

/-- What a timer has been asked for from outside and by its callbacks. -/
def requested (script : Nat → List Call) (outside : UInt32 → TimerType → Nat) (s : Timer)
    (interval : UInt32) (type : TimerType) : Nat :=
  outside interval type + callbackRequests script interval type s.invocations

variable {outside : UInt32 → TimerType → Nat}

/-- What a callback asks for counts with the requests of its invocation. -/
theorem callback_registered {node : TimerNode} {now : Nat} (calls : List Call)
    (same : calls = script s.invocations)
    (books : Registered clock (requested script outside s) (s.note (.fired node now))) :
    Registered clock
      (requested script outside (calls.foldl (perform clock)
        ({ s with invocations := s.invocations + 1 }.note (.fired node now))))
      (calls.foldl (perform clock)
        ({ s with invocations := s.invocations + 1 }.note (.fired node now))) := by
  have counted : Registered clock (requested script outside s)
      ({ s with invocations := s.invocations + 1 }.note (.fired node now)) := books.frame rfl rfl
  have after := counted.performs calls
  refine ⟨?_, after.stamped, after.renewed⟩
  intro interval type
  rw [requested, performs_invocations]
  change _ = outside interval type + (callbackRequests script interval type s.invocations +
    (script s.invocations).count (.addTask interval type)) + _
  rw [← Nat.add_assoc, ← same]
  exact after.balance interval type

theorem timeoutTurn_registered {node : TimerNode} {rest : List TimerNode}
    (books : Registered clock (requested script outside s) s) :
    Registered clock (requested script outside (s.timeoutTurn clock script node rest))
      (s.timeoutTurn clock script node rest) := by
  have taken : Registered clock (requested script outside s) { s with readyNodes := rest } :=
    books.frame rfl rfl
  rw [timeoutTurn]
  cases kind : node.timer.type with
  | circle =>
      exact callback_registered _ rfl
        (taken.fired_circle kind
          (addTimer_registers clock { s with readyNodes := rest } node.timer))
  | once =>
      have erased : Registered clock (requested script outside s)
          (setTimerMap { s with readyNodes := rest } node.timer.id none) := taken.frame rfl rfl
      exact callback_registered _ rfl (erased.fired_once kind _)

theorem timeoutLoop_registered (left : Nat)
    (books : Registered clock (requested script outside s) s) :
    Registered clock (requested script outside (timeoutLoop clock script left s))
      (timeoutLoop clock script left s) := by
  induction left generalizing s with
  | zero => exact books
  | succ left ih =>
      cases ready : s.readyNodes with
      | nil =>
          rw [timeoutLoop, ready]
          exact books
      | cons node rest =>
          rw [timeoutLoop_succ script left ready]
          exact ih (timeoutTurn_registered books)

/-! ## Runs -/

theorem requested_congr {s' : Timer} (invocations : s'.invocations = s.invocations) :
    requested script outside s' = requested script outside s := by
  funext interval type
  rw [requested, requested, invocations]

theorem detect_registered {s' : Timer} (books : Registered clock (requested script outside s) s)
    (done : s.detectTimerList clock script = some s') :
    Registered clock (requested script outside s') s' := by
  unfold detectTimerList at done
  dsimp only at done
  split at done
  · have read : Moves s (s.getCurrentMillisec clock).2 := .of_eq rfl rfl (Nat.le_succ _)
    have moves := read.trans (ticks_moves clock (s.loopnum (clock s.readings)) _)
    have ticked := books.moved moves
    rw [← requested_congr moves.invocations] at ticked
    rw [← Option.some.inj done]
    exact timeoutLoop_registered _ ticked
  · cases done

theorem create_registered (clock : Nat → Nat) :
    Registered clock (requested script (fun _ _ => 0) (create clock)) (create clock) := by
  refine ⟨?_, fun _ => nofun, fun _ _ => nofun⟩
  intro interval type
  cases type <;> rfl

/-- The tasks that a run asks for from outside. -/
def outsideRequests (actions : List Action) (interval : UInt32) (type : TimerType) : Nat :=
  actions.count (.call (.addTask interval type))

theorem entry_registered {before : List Action} {action : Action} {s' : Timer}
    (books : Registered clock (requested script (outsideRequests before) s) s)
    (step : s.Performs clock script action s') :
    Registered clock (requested script (outsideRequests (before ++ [action])) s') s' := by
  cases action with
  | call call =>
      cases step
      have after := books.perform call
      refine ⟨?_, after.stamped, after.renewed⟩
      intro interval type
      have counted : outsideRequests (before ++ [.call call]) interval type =
          outsideRequests before interval type + [call].count (.addTask interval type) := by
        rw [outsideRequests, List.count_append]
        by_cases same : call = .addTask interval type <;> simp [outsideRequests, same]
      rw [requested, perform_invocations, counted, after.balance interval type, requested]
      omega
  | detectTimerList =>
      have counted : outsideRequests (before ++ [.detectTimerList]) = outsideRequests before := by
        funext interval type
        simp [outsideRequests]
      rw [counted]
      exact detect_registered books step

theorem run_registered {start : Timer} {actions : List Action}
    (run : Reached (fun _ _ => True) (Performs clock script) start actions s) (before : List Action)
    (books : Registered clock (requested script (outsideRequests before) start) start) :
    Registered clock (requested script (outsideRequests (before ++ actions)) s) s := by
  induction run generalizing before with
  | nil =>
      rw [List.append_nil]
      exact books
  | @cons _ _ _ action _ _ step _ ih =>
      have later := ih (before ++ [action]) (entry_registered books step)
      rw [List.append_assoc] at later
      exact later

/-- Every task asked for in a run has been registered, once, and every callback of a
periodic task has registered it again. -/
theorem reached_registered {actions : List Action}
    (run : Reached (fun _ _ => True) (Performs clock script) (create clock) actions s) :
    Registered clock (requested script (outsideRequests actions) s) s :=
  run_registered run [] (create_registered clock)

end FysobEngine.Common.Timer
