import FysobEngine.Foundation.Logs
import FysobEngine.Common.TimerDeadlines

/-!
# The order in which the timer fires

The wheels stand for the time that `checktime_` counts, while nodes are placed by the
clock and cascades look at the clock. Nodes come onto the ready list in the order of the
wheels, and leave it in the order they came.
-/

namespace FysobEngine.Common.Timer

open Foundation.Runs Foundation.Logs

variable (clock : Nat → Nat) (script : Nat → List Call)

/-! ## Nodes in step with the wheels -/

/-- A node of a task that fires once comes onto the ready list less than two ticks before
its dead time, by the time that the wheels stand for. -/
def NodeInStep (checktime : Nat) (node : TimerNode) : Prop :=
  node.timer.type = .once → node.deadTime < checktime + 2 * granularity

instance (checktime : Nat) : DecidablePred (NodeInStep checktime) :=
  fun _ => inferInstanceAs (Decidable (_ → _))

/-- The nodes that a cascade finds due. -/
def CascadeInStep : Nat → Nat → Timer → Prop
  | 0, _, _ => True
  | .succ left, wheel, s =>
      (∀ node ∈ s.spokes wheel (s.spokeIndex wheel), node.deadTime ≤ clock s.readings →
        NodeInStep s.checktime node) ∧
      (wheelSize wheel ≤ (cascaded clock wheel s).spokeIndex wheel →
        CascadeInStep left (wheel + 1) ((cascaded clock wheel s).setSpokeIndex wheel 0))

/-- The nodes that a tick finds on the spoke of the first wheel, and those of its cascade. -/
def TickInStep (s : Timer) : Prop :=
  (∀ node ∈ s.spokes 0 (s.spokeIndex 0), NodeInStep s.checktime node) ∧
    (wheelSize 0 ≤ s.spokeIndex 0 + 1 → CascadeInStep clock 4 1 (s.emptied.setSpokeIndex 0 0))

def TicksInStep : Nat → Timer → Prop
  | 0, _ => True
  | .succ loopnum, s => TickInStep clock s ∧ TicksInStep loopnum (s.tick clock)

/-- The nodes that an entry point puts onto the ready list. -/
def InStep (s : Timer) : Action → Prop
  | .call _ => True
  | .detectTimerList =>
      TicksInStep clock (s.loopnum (clock s.readings)) (s.getCurrentMillisec clock).2

instance decidableCascade : ∀ left wheel s, Decidable (CascadeInStep clock left wheel s)
  | 0, _, _ => .isTrue trivial
  | .succ left, wheel, s =>
      have := decidableCascade left (wheel + 1) ((cascaded clock wheel s).setSpokeIndex wheel 0)
      inferInstanceAs (Decidable (_ ∧ (_ → _)))

instance (s : Timer) : Decidable (TickInStep clock s) :=
  inferInstanceAs (Decidable (_ ∧ (_ → _)))

instance decidableTicks : ∀ loopnum s, Decidable (TicksInStep clock loopnum s)
  | 0, _ => .isTrue trivial
  | .succ loopnum, s =>
      have := decidableTicks loopnum (s.tick clock)
      inferInstanceAs (Decidable (_ ∧ _))

variable {clock script} {s : Timer} {p t : Nat} {held : List TimerNode}

/-- Every node that is linked to a spoke dies no earlier than the wheels stand. -/
def Ahead (s : Timer) : Prop :=
  ∀ wheel < wheelNum, ∀ index, ∀ node ∈ s.spokes wheel index, s.checktime ≤ node.deadTime

theorem Inv.ahead (inv : Inv clock s 0 p t held) : s.Ahead := by
  intro wheel member index node linked
  obtain ⟨v, _, _, deadline⟩ := (inv.linked wheel member index node linked).visited
  rw [timeOf_waiting (Nat.not_lt_zero wheel)] at deadline
  rw [inv.checked]
  exact Nat.le_trans (Nat.le_add_right _ _) deadline

theorem placed_ne_fired {placed : TimerNode} {wheel milseconds now wheelTime : Nat}
    (node : TimerNode) (later : Nat) :
    Event.placed placed wheel milseconds now wheelTime ≠ .fired node later := by
  intro same
  cases same

theorem created_ne_fired {created : TimerNode} (node : TimerNode) (now : Nat) :
    Event.created created ≠ .fired node now := by
  intro same
  cases same

theorem removed_ne_fired {removed : TimerNode} (node : TimerNode) (now : Nat) :
    Event.removed removed ≠ .fired node now := by
  intro same
  cases same

/-- A node is fired or its task is removed. -/
def Settled (trace : List Event) (node : TimerNode) : Prop :=
  (∃ now, .fired node now ∈ trace) ∨ .removed node ∈ trace

/-- When a task that fires once is fired, the nodes that die two ticks earlier are settled. -/
def InOrder (trace : List Event) : Prop :=
  ∀ node now, node.timer.type = .once → Guarded trace (.fired node now) fun before =>
    ∀ earlier, .created earlier ∈ before → earlier.deadTime + 2 * granularity ≤ node.deadTime →
      Settled before earlier

theorem InOrder.append {trace : List Event} (order : InOrder trace) {event : Event}
    (quiet : ∀ node now, event ≠ .fired node now) : InOrder (trace ++ [event]) :=
  fun node now once => (order node now once).append fun fires => absurd fires (quiet node now)

/-- The first node may leave the ready list before the second one. -/
def Precedes (first second : TimerNode) : Prop :=
  first.timer.type = .once → first.deadTime < second.deadTime + 2 * granularity

/-- The ready list is in order, and no node on it is ahead of the wheels. -/
structure Sorted (s : Timer) : Prop where
  close : ∀ node ∈ s.readyNodes, NodeInStep s.checktime node
  sorted : s.readyNodes.Pairwise Precedes
  fired : InOrder s.trace

namespace Sorted

theorem frame (sorted : s.Sorted) {s' : Timer} (ready : s'.readyNodes = s.readyNodes)
    (checktime : s'.checktime = s.checktime) (trace : s'.trace = s.trace) : s'.Sorted := by
  refine ⟨?_, ?_, ?_⟩
  · rw [ready, checktime]
    exact sorted.close
  · rw [ready]
    exact sorted.sorted
  · rw [trace]
    exact sorted.fired

theorem note (sorted : s.Sorted) (event : Event) (quiet : ∀ node now, event ≠ .fired node now) :
    (s.note event).Sorted :=
  ⟨sorted.close, sorted.sorted, sorted.fired.append quiet⟩

/-- A node that a spoke held goes onto the ready list. -/
theorem toReady (sorted : s.Sorted) {node : TimerNode} (low : s.checktime ≤ node.deadTime)
    (high : NodeInStep s.checktime node) : (s.addToReadyNode node).Sorted := by
  refine ⟨?_, ?_, sorted.fired⟩
  · intro other member
    rcases List.mem_append.mp member with before | here
    · exact sorted.close other before
    · rw [List.mem_singleton.mp here]
      exact high
  · refine List.pairwise_append.mpr ⟨sorted.sorted, List.pairwise_singleton _ _, ?_⟩
    intro first member second here once
    rw [List.mem_singleton.mp here]
    exact Nat.lt_of_lt_of_le (sorted.close first member once) (Nat.add_le_add_right low _)

theorem allReady {nodes : List TimerNode} (sorted : s.Sorted)
    (low : ∀ node ∈ nodes, s.checktime ≤ node.deadTime)
    (high : ∀ node ∈ nodes, NodeInStep s.checktime node) :
    Sorted { s with readyNodes := s.readyNodes ++ nodes } := by
  induction nodes generalizing s with
  | nil =>
      rw [List.append_nil]
      exact sorted
  | cons node rest ih =>
      have first := sorted.toReady (low node List.mem_cons_self) (high node List.mem_cons_self)
      have later := ih first (fun other member => low other (List.mem_cons_of_mem node member))
        fun other member => high other (List.mem_cons_of_mem node member)
      have same : s.readyNodes ++ node :: rest = (s.readyNodes ++ [node]) ++ rest := by
        rw [List.append_assoc]
        rfl
      rw [same]
      exact later

/-- `checktime_` counts a tick. -/
theorem counted (sorted : s.Sorted) :
    Sorted { s with checktime := s.checktime + granularity } := by
  refine ⟨fun node member once => ?_, sorted.sorted, sorted.fired⟩
  have bound := sorted.close node member once
  change node.deadTime < s.checktime + granularity + 2 * granularity
  omega

end Sorted

/-! ## Ticks -/

theorem Ahead.link (ahead : s.Ahead) {node : TimerNode} (low : s.checktime ≤ node.deadTime)
    (milseconds : Nat) : (s.addTimerNode milseconds node).Ahead := by
  intro wheel member index other linked
  simp only [addTimerNode, setSpoke] at linked
  split at linked
  · next here =>
      rcases List.mem_append.mp linked with before | last
      · exact ahead _ (here.1 ▸ member) _ other before
      · rw [List.mem_singleton.mp last]
        exact low
  · exact ahead wheel member index other linked

theorem Ahead.emptied (ahead : s.Ahead) (wheel index : Nat) :
    (s.setSpoke wheel index []).Ahead := by
  intro other member place node linked
  simp only [setSpoke] at linked
  split at linked
  · cases linked
  · exact ahead other member place node linked

theorem cascadeNodes_sorted {now : Nat} {nodes : List TimerNode} (sorted : s.Sorted)
    (ahead : s.Ahead) (low : ∀ node ∈ nodes, s.checktime ≤ node.deadTime)
    (high : ∀ node ∈ nodes, node.deadTime ≤ now → NodeInStep s.checktime node) (casnum : Nat) :
    (cascadeNodes now nodes s casnum).1.Sorted ∧ (cascadeNodes now nodes s casnum).1.Ahead := by
  induction nodes generalizing s casnum with
  | nil => exact ⟨sorted, ahead⟩
  | cons node rest ih =>
      have first := low node List.mem_cons_self
      have lows : ∀ other ∈ rest, s.checktime ≤ other.deadTime :=
        fun other member => low other (List.mem_cons_of_mem node member)
      have highs : ∀ other ∈ rest, other.deadTime ≤ now → NodeInStep s.checktime other :=
        fun other member => high other (List.mem_cons_of_mem node member)
      rw [cascadeNodes]
      split
      · next due =>
          exact ih (sorted.toReady first (high node List.mem_cons_self due)) ahead lows highs casnum
      · next early =>
          have placed : ((s.note (.placed node (s.spokeFor (node.deadTime - now)).1
              (node.deadTime - now) now (s.checktime + granularity))).addTimerNode
                (node.deadTime - now) node).Sorted :=
            (sorted.note (.placed _ _ _ _ _) placed_ne_fired).frame rfl rfl rfl
          exact ih placed (Ahead.link (s := s.note _) ahead first _) lows highs (casnum + 1)

theorem cascaded_sorted {wheel : Nat} (inner : wheel < wheelNum) (sorted : s.Sorted)
    (ahead : s.Ahead)
    (high : ∀ node ∈ s.spokes wheel (s.spokeIndex wheel), node.deadTime ≤ clock s.readings →
      NodeInStep s.checktime node) :
    (cascaded clock wheel s).Sorted ∧ (cascaded clock wheel s).Ahead := by
  have turned : Ahead (((s.getCurrentMillisec clock).2.setSpokeIndex wheel
      (s.spokeIndex wheel + 1)).setSpoke wheel (s.spokeIndex wheel) []) :=
    Ahead.emptied (s := (s.getCurrentMillisec clock).2.setSpokeIndex wheel _) ahead _ _
  refine cascadeNodes_sorted ?_ turned (ahead wheel inner (s.spokeIndex wheel)) high 0
  exact sorted.frame rfl rfl rfl

theorem cascade_sorted {left wheel : Nat} (wheels : left + wheel = wheelNum) (sorted : s.Sorted)
    (ahead : s.Ahead) (inStep : CascadeInStep clock left wheel s) :
    (cascade clock left wheel s).1.Sorted := by
  induction left generalizing wheel s with
  | zero => exact sorted
  | succ left ih =>
      have inner : wheel < wheelNum := by omega
      obtain ⟨high, further⟩ := inStep
      obtain ⟨behind, still⟩ := cascaded_sorted inner sorted ahead high
      rw [cascade_succ]
      split
      · next full =>
          exact ih (by omega) (behind.frame rfl rfl rfl) still (further full)
      · exact behind

theorem tick_sorted (inv : Inv clock s 0 p t []) (sorted : s.Sorted)
    (inStep : TickInStep clock s) : (s.tick clock).Sorted := by
  have ahead := inv.ahead
  have emptied : s.emptied.Sorted :=
    Sorted.allReady (s := (s.setSpokeIndex 0 (s.spokeIndex 0 + 1)).setSpoke 0 (s.spokeIndex 0) [])
      (sorted.frame rfl rfl rfl) (ahead 0 (by decide) _) inStep.1
  have still : s.emptied.Ahead := Ahead.emptied (s := s.setSpokeIndex 0 _) ahead 0 _
  rw [tick_eq]
  split
  · next full =>
      have behind : (cascade clock 4 1 (s.emptied.setSpokeIndex 0 0)).1.Sorted :=
        cascade_sorted rfl (emptied.frame rfl rfl rfl) still (inStep.2 full)
      exact behind.counted
  · exact emptied.counted

theorem ticks_sorted (steady : NonDecreasing clock) (loopnum : Nat) (inv : Inv clock s 0 p t [])
    (bounded : s.Bounded) (later : t + granularity * loopnum ≤ s.lastReading clock)
    (sorted : s.Sorted) (inStep : TicksInStep clock loopnum s) :
    (ticks clock loopnum s).Sorted := by
  induction loopnum generalizing s p t with
  | zero => exact sorted
  | succ loopnum ih =>
      obtain ⟨first, rest⟩ := inStep
      have next : t + granularity + granularity * loopnum = t + granularity * (loopnum + 1) := by
        rw [Nat.mul_succ, Nat.add_assoc, Nat.add_comm granularity]
      have room : t + granularity ≤ s.lastReading clock := by
        rw [← next] at later
        exact Nat.le_trans (Nat.le_add_right _ _) later
      obtain ⟨ticked, inside, grows⟩ := tick_inv steady inv bounded room
      exact ih ticked inside (next ▸ Nat.le_trans later grows) (tick_sorted inv sorted first) rest

/-! ## Calls and callbacks -/

theorem addTimer_sorted (sorted : s.Sorted) (milseconds : Nat) (timer : TimerTask) :
    (s.addTimer clock milseconds timer).2.Sorted := by
  have fresh : Sorted { (s.getCurrentMillisec clock).2 with allocations := s.allocations + 1 } :=
    sorted.frame rfl rfl rfl
  have created : Sorted (note { (s.getCurrentMillisec clock).2 with
      allocations := s.allocations + 1 }
      (.created ⟨s.allocations, clock s.readings + milseconds, timer⟩)) :=
    fresh.note _ created_ne_fired
  exact (created.note (.placed _ _ _ _ _) placed_ne_fired).frame rfl rfl rfl

theorem removeTask_sorted (sorted : s.Sorted) (id : UInt32) : (s.removeTask id).Sorted := by
  unfold removeTask
  split
  · exact sorted
  · refine ⟨?_, sorted.sorted.filter _, sorted.fired.append removed_ne_fired⟩
    intro node member
    exact sorted.close node (List.mem_filter.mp member).1

theorem perform_sorted (sorted : s.Sorted) (call : Call) : (s.perform clock call).Sorted := by
  cases call with
  | addTask interval type =>
      have counted : Sorted { s with autoIncreaseId := s.autoIncreaseId + 1 } :=
        sorted.frame rfl rfl rfl
      exact (addTimer_sorted counted interval.toNat _).frame rfl rfl rfl
  | removeTask id => exact removeTask_sorted sorted id

theorem performs_sorted (sorted : s.Sorted) (calls : List Call) :
    (calls.foldl (perform clock) s).Sorted := by
  induction calls generalizing s with
  | nil => exact sorted
  | cons call rest ih => exact ih (perform_sorted sorted call)

/-- The node that is first on the ready list may be fired: every node that dies two ticks
earlier is settled. -/
theorem first_settled (inv : Inv clock s 0 p t []) (sorted : s.Sorted) {node : TimerNode}
    {rest : List TimerNode} (ready : s.readyNodes = node :: rest)
    (once : node.timer.type = .once) {earlier : TimerNode}
    (created : .created earlier ∈ s.trace)
    (order : earlier.deadTime + 2 * granularity ≤ node.deadTime) : Settled s.trace earlier := by
  have pairs := sorted.sorted
  rw [ready, List.pairwise_cons] at pairs
  rcases inv.accounted earlier created with
    ⟨wheel, member, index, linked⟩ | waiting | inHand | fired | removed
  · -- a linked node dies no earlier than the wheels stand
    have low := inv.ahead wheel member index earlier linked
    have high := sorted.close node (ready ▸ List.mem_cons_self) once
    omega
  · rw [ready] at waiting
    rcases List.mem_cons.mp waiting with rfl | waiting
    · unfold granularity at order
      omega
    · have before := pairs.1 earlier waiting once
      omega
  · cases inHand
  · exact .inl fired
  · exact .inr removed

theorem invoke_sorted (sorted : s.Sorted) {node : TimerNode}
    (settled : node.timer.type = .once → ∀ earlier, .created earlier ∈ s.trace →
      earlier.deadTime + 2 * granularity ≤ node.deadTime → Settled s.trace earlier) :
    (s.invoke clock script node).Sorted := by
  have fired : InOrder (s.trace ++ [.fired node (clock (s.readings - 1))]) := by
    intro other now once
    refine (sorted.fired other now once).append fun fires => ?_
    obtain ⟨rfl, -⟩ := Event.fired.inj fires
    exact settled once
  have invoked : Sorted (note { s with invocations := s.invocations + 1 }
      (.fired node (clock (s.readings - 1)))) := ⟨sorted.close, sorted.sorted, fired⟩
  exact performs_sorted invoked (script s.invocations)

theorem timeoutTurn_sorted (inv : Inv clock s 0 p t []) (sorted : s.Sorted) {node : TimerNode}
    {rest : List TimerNode} (ready : s.readyNodes = node :: rest) :
    (s.timeoutTurn clock script node rest).Sorted := by
  have close := sorted.close
  have pairs := sorted.sorted
  rw [ready] at close pairs
  have taken : Sorted { s with readyNodes := rest } :=
    ⟨fun other member => close other (List.mem_cons_of_mem node member),
      (List.pairwise_cons.mp pairs).2, sorted.fired⟩
  rw [timeoutTurn]
  cases type : node.timer.type with
  | circle =>
      have added : Sorted (setTimerMap (addTimer clock { s with readyNodes := rest }
          node.timer.interval.toNat node.timer).2 node.timer.id
          (some (addTimer clock { s with readyNodes := rest }
            node.timer.interval.toNat node.timer).1)) :=
        (addTimer_sorted taken node.timer.interval.toNat node.timer).frame rfl rfl rfl
      refine invoke_sorted added fun once => ?_
      cases type.symm.trans once
  | once =>
      have erased : Sorted (setTimerMap { s with readyNodes := rest } node.timer.id none) :=
        taken.frame rfl rfl rfl
      exact invoke_sorted erased fun once _ => first_settled inv sorted ready once

theorem timeoutLoop_sorted (steady : NonDecreasing clock) (inv : Inv clock s 0 p t [])
    (sorted : s.Sorted) (left : Nat) : (timeoutLoop clock script left s).Sorted := by
  induction left generalizing s with
  | zero => exact sorted
  | succ left ih =>
      cases ready : s.readyNodes with
      | nil =>
          rw [timeoutLoop, ready]
          exact sorted
      | cons node rest =>
          rw [timeoutLoop_succ script left ready]
          exact ih (timeoutTurn_inv script inv steady ready) (timeoutTurn_sorted inv sorted ready)

/-! ## Runs -/

theorem create_sorted (clock : Nat → Nat) : (create clock).Sorted where
  close := fun _ member => absurd member List.not_mem_nil
  sorted := .nil
  fired := fun _ _ _ => .nil _ _

theorem entry_sorted (steady : NonDecreasing clock) {action : Action} {s' : Timer}
    (inv : Inv clock s 0 p t []) (bounded : s.Bounded) (sorted : s.Sorted)
    (inStep : InStep clock s action) (step : s.Performs clock script action s') : s'.Sorted := by
  cases action with
  | call call =>
      rw [← step]
      exact perform_sorted sorted call
  | detectTimerList =>
      change (if s.loopnum (clock s.readings) < 2 ^ 32 then _ else none) = some s' at step
      split at step
      · obtain ⟨read, within, _⟩ := loopnum_spec steady inv
        have ticked := ticks_sorted steady _ read bounded within (sorted.frame rfl rfl rfl) inStep
        obtain ⟨inv', _⟩ := ticks_inv steady _ read bounded within
        cases step
        exact timeoutLoop_sorted steady inv' ticked _
      · cases step

/-- In a run where every task that fires once comes onto the ready list in step with the
wheels: when one is fired, every node of before that dies two ticks earlier has been fired,
unless it was removed. -/
theorem fired_in_order (steady : NonDecreasing clock) {actions : List Action}
    (run : Reached (fun _ _ => True) (Performs clock script) (create clock) actions s)
    (inStep : Along (fun _ _ => True) (Performs clock script) (InStep clock) (create clock) actions)
    {before after : List Event} {node earlier : TimerNode} {now : Nat}
    (trace : s.trace = before ++ .fired node now :: after) (once : node.timer.type = .once)
    (created : .created earlier ∈ before)
    (order : earlier.deadTime + 2 * granularity ≤ node.deadTime) :
    (∃ now, .fired earlier now ∈ before) ∨ .removed earlier ∈ before := by
  let I := fun s : Timer => s.Sorted ∧ ∃ p t, Inv clock s 0 p t [] ∧ s.Bounded
  have keep : ∀ s action s', I s → True → InStep clock s action →
      s.Performs clock script action s' → I s' := by
    rintro s action s' ⟨sorted, p, t, inv, bounded⟩ - inStep step
    exact ⟨entry_sorted steady inv bounded sorted inStep step, entry_inv steady inv bounded step⟩
  have start : I (create clock) := ⟨create_sorted clock, 0, clock 0, create_inv clock⟩
  obtain ⟨sorted, _⟩ := run.invariant keep inStep start
  exact sorted.fired node now once before after trace earlier created order

/-- A clock that answers these three readings, and then the last one. -/
def stepClock (start middle later : Nat) (reading : Nat) : Nat :=
  if reading ≤ 1 then start else if reading = 2 then middle else later

theorem stepClock_nonDecreasing {start middle later : Nat} (first : start ≤ middle)
    (second : middle ≤ later) : NonDecreasing (stepClock start middle later) := by
  intro i
  unfold stepClock
  split
  · split
    · exact Nat.le_refl _
    · split
      · exact first
      · exact Nat.le_trans first second
  · next past =>
      have past1 : ¬ i + 1 ≤ 1 := by omega
      have past2 : ¬ i + 1 = 2 := by omega
      rw [if_neg past1, if_neg past2]
      split
      · exact second
      · exact Nat.le_refl _

/-- Two tasks, and a detection behind both. -/
def pairRun (clock : Nat → Nat) (first second : UInt32) : Option Timer :=
  (((create clock).addTask clock first .once).addTask clock second .once).detectTimerList clock
    fun _ => []

def pairActions (first second : UInt32) : List Action :=
  [.call (.addTask first .once), .call (.addTask second .once), .detectTimerList]

theorem pairRun_reached {first second : UInt32} (done : pairRun clock first second = some s) :
    Reached (fun _ _ => True) (Performs clock fun _ => []) (create clock)
      (pairActions first second) s :=
  .cons trivial rfl (.cons trivial rfl (.cons trivial done (.nil _)))

/-- Tasks of 50 ms and of 20 ms that are added at once. -/
theorem fired_in_order_pair : ∃ s, pairRun (stepClock 0 0 100) 50 20 = some s ∧
    ∃ before, s.trace = before ++ [.fired ⟨0, 50, ⟨1, 50, .once⟩⟩ 100] ∧
      ((∃ now, .fired ⟨1, 20, ⟨2, 20, .once⟩⟩ now ∈ before) ∨
        .removed ⟨1, 20, ⟨2, 20, .once⟩⟩ ∈ before) := by
  have runs : (pairRun (stepClock 0 0 100) 50 20).any (fun s =>
      s.trace = s.trace.dropLast ++ [.fired ⟨0, 50, ⟨1, 50, .once⟩⟩ 100] ∧
        .created ⟨1, 20, ⟨2, 20, .once⟩⟩ ∈ s.trace.dropLast) = true := by
    decide +kernel
  obtain ⟨s, done, facts⟩ := (Option.any_eq_true _ _).mp runs
  obtain ⟨trace, created⟩ := of_decide_eq_true facts
  have inStep : Along (fun _ _ => True) (Performs (stepClock 0 0 100) fun _ => [])
      (InStep (stepClock 0 0 100)) (create (stepClock 0 0 100)) (pairActions 50 20) := by
    rintro -
    refine ⟨trivial, ?_⟩
    rintro _ rfl -
    refine ⟨trivial, ?_⟩
    rintro _ rfl -
    refine ⟨?_, fun _ _ => trivial⟩
    unfold InStep
    decide +kernel
  exact ⟨s, done, s.trace.dropLast, trace,
    fired_in_order (stepClock_nonDecreasing (by decide) (by decide)) (pairRun_reached done) inStep
      trace rfl created (by decide)⟩

/-- A task of 300 ms, and one of 70 ms that is added when the wheels lag 250 ms behind. -/
theorem pairRun_out_of_order :
    ¬ ∀ (clock : Nat → Nat) (script : Nat → List Call) (actions : List Action) (s : Timer),
      NonDecreasing clock →
      Reached (fun _ _ => True) (Performs clock script) (create clock) actions s →
      ∀ (before after : List Event) (node earlier : TimerNode) (now : Nat),
        s.trace = before ++ .fired node now :: after → node.timer.type = .once →
        earlier.timer.type = .once → .created earlier ∈ before →
        earlier.deadTime + 2 * granularity ≤ node.deadTime →
        (∃ now, .fired earlier now ∈ before) ∨ .removed earlier ∈ before := by
  intro all
  let slow : TimerNode := ⟨0, 300, ⟨1, 300, .once⟩⟩
  let fast : TimerNode := ⟨1, 320, ⟨2, 70, .once⟩⟩
  let before : List Event :=
    [.created slow, .placed slow 0 300 0 0, .created fast, .placed fast 0 70 250 0]
  have runs : (pairRun (stepClock 0 250 400) 300 70).any (fun s =>
      s.trace = before ++ .fired fast 400 :: [.fired slow 400]) = true := by
    decide +kernel
  obtain ⟨s, done, trace⟩ := (Option.any_eq_true _ _).mp runs
  have settled := all _ _ _ s (stepClock_nonDecreasing (by decide) (by decide))
    (pairRun_reached done) before _ fast slow 400 (of_decide_eq_true trace) rfl rfl
    List.mem_cons_self (by decide)
  rcases settled with ⟨now, fired⟩ | removed
  · simp [before] at fired
  · simp [before] at removed

end FysobEngine.Common.Timer
