import FysobEngine.Common.TimerSchedule

/-!
# The invariant of the timer

Between two ticks all wheels stand for one tick of the clock. While a tick
cascades, the wheels below `top` already stand for the next one.
-/

namespace FysobEngine.Common.Timer

open Foundation.Odometer

/-- The tick that a wheel stands for while the wheels below `top` have moved on. -/
def placeOf (top p wheel : Nat) : Nat := if wheel < top then p + 1 else p

/-- The time that belongs to that tick. -/
def timeOf (top t wheel : Nat) : Nat := if wheel < top then t + granularity else t

theorem placeOf_turned {top p wheel : Nat} (turned : wheel < top) :
    placeOf top p wheel = p + 1 := if_pos turned

theorem placeOf_waiting {top p wheel : Nat} (waiting : ¬ wheel < top) :
    placeOf top p wheel = p := if_neg waiting

theorem timeOf_turned {top t wheel : Nat} (turned : wheel < top) :
    timeOf top t wheel = t + granularity := if_pos turned

theorem timeOf_waiting {top t wheel : Nat} (waiting : ¬ wheel < top) :
    timeOf top t wheel = t := if_neg waiting

/-- One more turned wheel changes what that wheel stands for, and no other one. -/
theorem placeOf_succ {top wheel : Nat} (other : wheel ≠ top) (p t : Nat) :
    placeOf (top + 1) p wheel = placeOf top p wheel ∧
      timeOf (top + 1) t wheel = timeOf top t wheel := by
  rcases Nat.lt_or_gt_of_ne other with below | above
  · rw [placeOf_turned below, placeOf_turned (Nat.lt_succ_of_lt below), timeOf_turned below,
      timeOf_turned (Nat.lt_succ_of_lt below)]
    exact ⟨rfl, rfl⟩
  · have waiting : ¬ wheel < top + 1 := Nat.not_lt_of_le above
    have before : ¬ wheel < top := Nat.not_lt_of_lt above
    rw [placeOf_waiting waiting, placeOf_waiting before, timeOf_waiting waiting,
      timeOf_waiting before]
    exact ⟨rfl, rfl⟩

/-- The last value that the clock answered. -/
def lastReading (clock : Nat → Nat) (s : Timer) : Nat := clock (s.readings - 1)

/-- Where a node that was created can be; `held` are the nodes in hand. -/
def Located (s : Timer) (held : List TimerNode) (node : TimerNode) : Prop :=
  (∃ wheel < wheelNum, ∃ index, node ∈ s.spokes wheel index) ∨ node ∈ s.readyNodes ∨
    node ∈ held ∨ (∃ now, .fired node now ∈ s.trace) ∨ .removed node ∈ s.trace

structure Inv (clock : Nat → Nat) (s : Timer) (top p t : Nat) (held : List TimerNode) : Prop where
  started : 1 ≤ s.readings
  checked : s.checktime = t
  behind : ∀ wheel < wheelNum, timeOf top t wheel ≤ s.lastReading clock
  stands : ∀ wheel < wheelNum, s.StandsFor wheel (placeOf top p wheel)
  linked : ∀ wheel < wheelNum, ∀ index, ∀ node ∈ s.spokes wheel index,
    Timely (OnTime s.trace) wheel (placeOf top p wheel) (timeOf top t wheel)
      (s.lastReading clock) index node
  ready : ∀ node ∈ s.readyNodes, OnTime s.trace →
    node.deadTime < s.lastReading clock + granularity
  fired : ∀ node now, .fired node now ∈ s.trace → OnTime s.trace →
    node.deadTime < now + granularity
  accounted : ∀ node, .created node ∈ s.trace → s.Located held node

/-- Every wheel stands at one of its spokes. -/
def Bounded (s : Timer) : Prop := ∀ wheel < wheelNum, s.spokeIndex wheel < wheelSize wheel

/-- The readings of the clock never decrease. -/
def NonDecreasing (clock : Nat → Nat) : Prop := ∀ i, clock i ≤ clock (i + 1)

variable {clock : Nat → Nat} {s : Timer} {top p t : Nat} {held : List TimerNode}

namespace Inv

/-! ## Steps that move no node -/

/-- Only the nodes, the indices, the clock and the trace matter. -/
theorem frame (inv : Inv clock s top p t held) {s' : Timer} (spokes : s'.spokes = s.spokes)
    (indices : s'.spokeIndex = s.spokeIndex) (ready : s'.readyNodes = s.readyNodes)
    (readings : s'.readings = s.readings) (checktime : s'.checktime = s.checktime)
    (trace : s'.trace = s.trace) : Inv clock s' top p t held := by
  cases s
  cases s'
  cases spokes
  cases indices
  cases ready
  cases readings
  cases checktime
  cases trace
  exact ⟨inv.started, inv.checked, inv.behind, inv.stands, inv.linked, inv.ready, inv.fired,
    inv.accounted⟩

/-- Another reading of the clock. -/
theorem read (inv : Inv clock s top p t held) (steady : NonDecreasing clock) :
    Inv clock (s.getCurrentMillisec clock).2 top p t held ∧
      s.lastReading clock ≤ clock s.readings ∧
      (s.getCurrentMillisec clock).2.lastReading clock = clock s.readings := by
  have order : s.lastReading clock ≤ clock s.readings := by
    have step := steady (s.readings - 1)
    rw [Nat.sub_add_cancel inv.started] at step
    exact step
  refine ⟨⟨Nat.le_add_left 1 _, inv.checked, ?_, inv.stands, ?_, ?_, inv.fired, inv.accounted⟩,
    order, rfl⟩
  · intro wheel member
    exact Nat.le_trans (inv.behind wheel member) order
  · intro wheel member index node linked
    exact (inv.linked wheel member index node linked).mono id order
  · intro node member timely
    exact Nat.lt_of_lt_of_le (inv.ready node member timely) (Nat.add_le_add_right order _)

/-- Behind an event the nodes are where they were, but for those in hand. -/
theorem located_note {node : TimerNode} {held' : List TimerNode} (event : Event)
    (located : s.Located held node)
    (inHand : node ∈ held → (s.note event).Located held' node) :
    (s.note event).Located held' node := by
  rcases located with linked | ready | holds | ⟨now, fired⟩ | removed
  · exact .inl linked
  · exact .inr (.inl ready)
  · exact inHand holds
  · exact .inr (.inr (.inr (.inl ⟨now, List.mem_append_left _ fired⟩)))
  · exact .inr (.inr (.inr (.inr (List.mem_append_left _ removed))))

/-- An event is noted. What it fires is due, and what has been created is accounted for. -/
theorem noted (inv : Inv clock s top p t held) (event : Event) {held' : List TimerNode}
    (due : ∀ node now, event = .fired node now → OnTime s.trace →
      node.deadTime < now + granularity)
    (old : ∀ node, s.Located held node → (s.note event).Located held' node)
    (new : ∀ node, event = .created node → (s.note event).Located held' node) :
    Inv clock (s.note event) top p t held' := by
  refine ⟨inv.started, inv.checked, inv.behind, inv.stands, ?_, ?_, ?_, ?_⟩
  · intro wheel member index node linked
    exact (inv.linked wheel member index node linked).mono OnTime.of_append (Nat.le_refl _)
  · intro node member timely
    exact inv.ready node member timely.of_append
  · intro node now member timely
    rcases List.mem_append.mp member with before | here
    · exact inv.fired node now before timely.of_append
    · exact due node now (List.mem_singleton.mp here).symm timely.of_append
  · intro node member
    rcases List.mem_append.mp member with before | here
    · exact old node (inv.accounted node before)
    · exact new node (List.mem_singleton.mp here).symm

/-- An event that neither creates nor fires a node. -/
theorem note (inv : Inv clock s top p t held) (event : Event)
    (old : ∀ node, event ≠ .created node) (quiet : ∀ node now, event ≠ .fired node now) :
    Inv clock (s.note event) top p t held := by
  refine inv.noted event ?_ ?_ ?_
  · exact fun node now same => absurd same (quiet node now)
  · exact fun node located => located_note event located fun inHand => .inr (.inr (.inl inHand))
  · exact fun node same => absurd same (old node)

/-- A new node is in hand. -/
theorem create (inv : Inv clock s top p t held) (node : TimerNode) :
    Inv clock (s.note (.created node)) top p t (node :: held) := by
  refine inv.noted (.created node) nofun ?_ ?_
  · intro other located
    refine located_note _ located fun inHand => ?_
    exact .inr (.inr (.inl (List.mem_cons_of_mem node inHand)))
  · intro other same
    rw [Event.created.inj same]
    exact .inr (.inr (.inl List.mem_cons_self))

/-- A node in hand is fired. -/
theorem fire {node : TimerNode} (inv : Inv clock s top p t (node :: held))
    (due : OnTime s.trace → node.deadTime < s.lastReading clock + granularity) :
    Inv clock (s.note (.fired node (s.lastReading clock))) top p t held := by
  refine inv.noted (.fired node (s.lastReading clock)) ?_ ?_ nofun
  · intro other now same timely
    obtain ⟨rfl, rfl⟩ := Event.fired.inj same
    exact due timely
  · intro other located
    refine located_note _ located fun inHand => ?_
    rcases List.mem_cons.mp inHand with rfl | inHand
    · exact .inr (.inr (.inr (.inl ⟨_, List.mem_append_right _ List.mem_cons_self⟩)))
    · exact .inr (.inr (.inl inHand))

/-! ## Steps that move nodes -/

/-- A node in hand goes onto the ready list. -/
theorem toReady {node : TimerNode} (inv : Inv clock s top p t (node :: held))
    (due : OnTime s.trace → node.deadTime < s.lastReading clock + granularity) :
    Inv clock (s.addToReadyNode node) top p t held := by
  refine ⟨inv.started, inv.checked, inv.behind, inv.stands, inv.linked, ?_, inv.fired, ?_⟩
  · intro other member
    rcases List.mem_append.mp member with before | here
    · exact inv.ready other before
    · rw [List.mem_singleton.mp here]
      exact due
  · intro other member
    rcases inv.accounted other member with linked | ready | inHand | fired | removed
    · exact .inl linked
    · exact .inr (.inl (List.mem_append_left _ ready))
    · rcases List.mem_cons.mp inHand with rfl | inHand
      · exact .inr (.inl (List.mem_append_right _ List.mem_cons_self))
      · exact .inr (.inr (.inl inHand))
    · exact .inr (.inr (.inr (.inl fired)))
    · exact .inr (.inr (.inr (.inr removed)))

/-- A node in hand is linked to a spoke that it is timely on. -/
theorem link {node : TimerNode} (inv : Inv clock s top p t (node :: held))
    {wheel index : Nat} (inside : wheel < wheelNum)
    (timely : Timely (OnTime s.trace) wheel (placeOf top p wheel) (timeOf top t wheel)
      (s.lastReading clock) index node) :
    Inv clock (s.setSpoke wheel index (s.spokes wheel index ++ [node])) top p t held := by
  refine ⟨inv.started, inv.checked, inv.behind, inv.stands, ?_, inv.ready, inv.fired, ?_⟩
  · intro k member j other linked
    simp only [setSpoke] at linked
    split at linked
    · next here =>
        obtain ⟨rfl, rfl⟩ := here
        rcases List.mem_append.mp linked with before | last
        · exact inv.linked k member j other before
        · rw [List.mem_singleton.mp last]
          exact timely
    · exact inv.linked k member j other linked
  · intro other member
    have stays {k j : Nat} (linked : other ∈ s.spokes k j) :
        other ∈ (s.setSpoke wheel index (s.spokes wheel index ++ [node])).spokes k j := by
      simp only [setSpoke]
      split
      · next here =>
          obtain ⟨rfl, rfl⟩ := here
          exact List.mem_append_left _ linked
      · exact linked
    rcases inv.accounted other member with ⟨k, bound, j, linked⟩ | ready | inHand | fired | removed
    · exact .inl ⟨k, bound, j, stays linked⟩
    · exact .inr (.inl ready)
    · rcases List.mem_cons.mp inHand with rfl | inHand
      · refine .inl ⟨wheel, inside, index, ?_⟩
        simp only [setSpoke, and_self, if_true]
        exact List.mem_append_right _ List.mem_cons_self
      · exact .inr (.inr (.inl inHand))
    · exact .inr (.inr (.inr (.inl fired)))
    · exact .inr (.inr (.inr (.inr removed)))

/-- Removing a task unlinks its node wherever it is. -/
theorem remove (inv : Inv clock s top p t held) (id : UInt32) :
    Inv clock (s.removeTask id) top p t held := by
  unfold removeTask
  split
  · exact inv
  · next gone _ =>
      have noted := inv.note (.removed gone) (fun _ => nofun) (fun _ _ => nofun)
      refine ⟨noted.started, noted.checked, noted.behind, noted.stands, ?_, ?_, noted.fired, ?_⟩
      · intro wheel member index node linked
        exact noted.linked wheel member index node (List.mem_filter.mp linked).1
      · intro node member
        exact noted.ready node (List.mem_filter.mp member).1
      · intro node member
        by_cases same : node = gone
        · rw [same]
          exact .inr (.inr (.inr (.inr (List.mem_append_right _ List.mem_cons_self))))
        · have kept : (decide (node ≠ gone)) = true := decide_eq_true same
          rcases noted.accounted node member with ⟨k, bound, j, linked⟩ | ready | rest
          · exact .inl ⟨k, bound, j, List.mem_filter.mpr ⟨linked, kept⟩⟩
          · exact .inr (.inl (List.mem_filter.mpr ⟨ready, kept⟩))
          · exact .inr (.inr rest)

theorem addTimerNode_eq {milseconds wheel index : Nat} {event : Event} (node : TimerNode)
    (chosen : s.spokeFor milseconds = (wheel, index)) :
    (s.note event).addTimerNode milseconds node =
      (s.note event).setSpoke wheel index ((s.note event).spokes wheel index ++ [node]) := by
  have again : (s.note event).spokeFor milseconds = (wheel, index) := chosen
  rw [addTimerNode, again]

/-- A node in hand is placed where `add_timer_node` puts it, on one of the wheels
that stand for the same tick. -/
theorem place {node : TimerNode} (inv : Inv clock s top p t (node :: held))
    {milseconds bound p' t' : Nat} (inner : bound < wheelNum)
    (same : ∀ wheel ≤ bound, placeOf top p wheel = p' ∧ timeOf top t wheel = t')
    (near : milseconds / granularity < wheelReach bound)
    (deadTime : node.deadTime = s.lastReading clock + milseconds) :
    Inv clock ((s.note (.placed node (s.spokeFor milseconds).1 milseconds
      (s.lastReading clock) t')).addTimerNode milseconds node) top p t held := by
  have stands (wheel : Nat) (below : wheel ≤ bound) : s.StandsFor wheel p' := by
    rw [← (same wheel below).1]
    exact inv.stands wheel (Nat.lt_of_le_of_lt below inner)
  obtain ⟨wheel, count, chosen, below, positive, short, reached, first⟩ :=
    spokeFor_spec s p' inner stands near
  have inside := Nat.lt_of_le_of_lt below inner
  obtain ⟨rfl, rfl⟩ := same wheel below
  have noted := inv.note (.placed node (s.spokeFor milseconds).1 milseconds
    (s.lastReading clock) (timeOf top t wheel)) (fun _ => nofun) (fun _ _ => nofun)
  rw [addTimerNode_eq node chosen]
  rw [chosen] at noted ⊢
  refine noted.link inside (Timely.placed (inv.behind wheel inside) deadTime positive short
    reached first ?_)
  intro timely zero
  exact timely _ (List.mem_append_right s.trace List.mem_cons_self) zero

end Inv

/-! ## Calls -/

variable (script : Nat → List Call)

theorem addTimer_inv (inv : Inv clock s 0 p t held) (steady : NonDecreasing clock)
    (interval : UInt32) (timer : TimerTask) :
    Inv clock (s.addTimer clock interval.toNat timer).2 0 p t held := by
  have checked := inv.checked
  subst checked
  obtain ⟨read, _, last⟩ := inv.read steady
  have near : interval.toNat / granularity < wheelReach 4 := by
    have bound := interval.toNat_lt
    unfold granularity
    change _ < 4294967296
    omega
  have fresh : Inv clock { (s.getCurrentMillisec clock).2 with
      allocations := s.allocations + 1 } 0 p s.checktime held := read.frame rfl rfl rfl rfl rfl rfl
  have created := fresh.create ⟨s.allocations, clock s.readings + interval.toNat, timer⟩
  exact created.place (by decide : 4 < wheelNum) (fun _ _ => ⟨rfl, rfl⟩) near rfl

theorem addTask_inv (inv : Inv clock s 0 p t held) (steady : NonDecreasing clock)
    (interval : UInt32) (type : TimerType) :
    Inv clock (s.addTask clock interval type) 0 p t held := by
  have counted : Inv clock { s with autoIncreaseId := s.autoIncreaseId + 1 } 0 p t held :=
    inv.frame rfl rfl rfl rfl rfl rfl
  have added := addTimer_inv counted steady interval
    { id := s.autoIncreaseId + 1, interval := interval, type := type }
  exact added.frame rfl rfl rfl rfl rfl rfl

theorem perform_inv (inv : Inv clock s 0 p t held) (steady : NonDecreasing clock) (call : Call) :
    Inv clock (s.perform clock call) 0 p t held := by
  cases call with
  | addTask interval type => exact addTask_inv inv steady interval type
  | removeTask id => exact inv.remove id

theorem performs_inv (inv : Inv clock s 0 p t held) (steady : NonDecreasing clock)
    (calls : List Call) : Inv clock (calls.foldl (perform clock) s) 0 p t held := by
  induction calls generalizing s with
  | nil => exact inv
  | cons call rest ih => exact ih (perform_inv inv steady call)

/-- A call puts nothing onto the ready list. -/
theorem perform_ready (s : Timer) (call : Call) :
    (s.perform clock call).readyNodes.length ≤ s.readyNodes.length := by
  cases call with
  | addTask interval type => exact Nat.le_refl _
  | removeTask id =>
      unfold perform removeTask
      dsimp only
      split
      · exact Nat.le_refl _
      · exact List.length_filter_le _ _

theorem performs_ready (s : Timer) (calls : List Call) :
    (calls.foldl (perform clock) s).readyNodes.length ≤ s.readyNodes.length := by
  induction calls generalizing s with
  | nil => exact Nat.le_refl _
  | cons call rest ih => exact Nat.le_trans (ih _) (perform_ready s call)

theorem invoke_inv {node : TimerNode} (inv : Inv clock s 0 p t (node :: held))
    (steady : NonDecreasing clock)
    (due : OnTime s.trace → node.deadTime < s.lastReading clock + granularity) :
    Inv clock (s.invoke clock script node) 0 p t held := by
  have counted : Inv clock { s with invocations := s.invocations + 1 } 0 p t (node :: held) :=
    inv.frame rfl rfl rfl rfl rfl rfl
  exact performs_inv (counted.fire due) steady (script s.invocations)

/-- Taking the first node off the ready list leaves it in hand. -/
theorem takeReady {node : TimerNode} {rest : List TimerNode} (inv : Inv clock s top p t held)
    (ready : s.readyNodes = node :: rest) :
    Inv clock { s with readyNodes := rest } top p t (node :: held) := by
  refine ⟨inv.started, inv.checked, inv.behind, inv.stands, inv.linked, ?_, inv.fired, ?_⟩
  · intro other member
    apply inv.ready other
    rw [ready]
    exact List.mem_cons_of_mem node member
  · intro other member
    rcases inv.accounted other member with linked | waiting | inHand | fired | removed
    · exact .inl linked
    · rw [ready] at waiting
      rcases List.mem_cons.mp waiting with rfl | waiting
      · exact .inr (.inr (.inl List.mem_cons_self))
      · exact .inr (.inl waiting)
    · exact .inr (.inr (.inl (List.mem_cons_of_mem node inHand)))
    · exact .inr (.inr (.inr (.inl fired)))
    · exact .inr (.inr (.inr (.inr removed)))

/-- One turn of the loop of `do_timeout_callback`. -/
def timeoutTurn (clock : Nat → Nat) (script : Nat → List Call) (s : Timer) (node : TimerNode)
    (rest : List TimerNode) : Timer :=
  let s := { s with readyNodes := rest }
  let s :=
    match node.timer.type with
    | .circle =>
        let (again, s) := s.addTimer clock node.timer.interval.toNat node.timer
        s.setTimerMap node.timer.id (some again)
    | .once => s.setTimerMap node.timer.id none
  s.invoke clock script node

theorem timeoutLoop_succ {node : TimerNode} {rest : List TimerNode} (left : Nat)
    (ready : s.readyNodes = node :: rest) :
    timeoutLoop clock script (left + 1) s =
      timeoutLoop clock script left (s.timeoutTurn clock script node rest) := by
  rw [timeoutLoop, ready]
  rfl

theorem timeoutTurn_ready (s : Timer) (node : TimerNode) (rest : List TimerNode) :
    (s.timeoutTurn clock script node rest).readyNodes.length ≤ rest.length := by
  rw [timeoutTurn]
  cases node.timer.type with
  | circle => exact performs_ready _ _
  | once => exact performs_ready _ _

theorem timeoutTurn_inv {node : TimerNode} {rest : List TimerNode} (inv : Inv clock s 0 p t [])
    (steady : NonDecreasing clock) (ready : s.readyNodes = node :: rest) :
    Inv clock (s.timeoutTurn clock script node rest) 0 p t [] := by
  have taken := takeReady inv ready
  have due : OnTime s.trace → node.deadTime < s.lastReading clock + granularity :=
    inv.ready node (ready ▸ List.mem_cons_self)
  rw [timeoutTurn]
  cases node.timer.type with
  | circle =>
      have order := (inv.read steady).2.1
      have added := addTimer_inv taken steady node.timer.interval node.timer
      have mapped : Inv clock (setTimerMap (addTimer clock { s with readyNodes := rest }
          node.timer.interval.toNat node.timer).2 node.timer.id
          (some (addTimer clock { s with readyNodes := rest }
            node.timer.interval.toNat node.timer).1)) 0 p t [node] :=
        added.frame rfl rfl rfl rfl rfl rfl
      refine invoke_inv script mapped steady ?_
      intro timely
      have before := due timely.of_append.of_append
      exact Nat.lt_of_lt_of_le before (Nat.add_le_add_right order _)
  | once =>
      have erased : Inv clock (setTimerMap { s with readyNodes := rest }
          node.timer.id none) 0 p t [node] := taken.frame rfl rfl rfl rfl rfl rfl
      exact invoke_inv script erased steady due

/-- The callbacks keep the invariant and empty the ready list. -/
theorem timeoutLoop_inv (inv : Inv clock s 0 p t []) (steady : NonDecreasing clock) (left : Nat)
    (enough : s.readyNodes.length ≤ left) :
    Inv clock (timeoutLoop clock script left s) 0 p t [] ∧
      (timeoutLoop clock script left s).readyNodes = [] := by
  induction left generalizing s with
  | zero => exact ⟨inv, List.eq_nil_of_length_eq_zero (Nat.le_zero.mp enough)⟩
  | succ left ih =>
      cases ready : s.readyNodes with
      | nil =>
          rw [timeoutLoop, ready]
          exact ⟨inv, ready⟩
      | cons node rest =>
          rw [ready, List.length_cons] at enough
          rw [timeoutLoop_succ script left ready]
          refine ih (timeoutTurn_inv script inv steady ready) ?_
          exact Nat.le_trans (timeoutTurn_ready script s node rest)
            (Nat.le_of_succ_le_succ enough)

end FysobEngine.Common.Timer
