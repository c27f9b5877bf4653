import FysobEngine.Common.TimerRegistrations

/-!
# Deadlines of the timer

No node is lost or fires late in any run. A node fires early only where it was
placed on the first wheel while the wheels lagged behind the clock.
-/

namespace FysobEngine.Common.Timer

open Foundation.Runs

variable {clock : Nat → Nat} {script : Nat → List Call} {s : Timer} {p t : Nat}

/-! ## Entry points -/

theorem perform_indices (s : Timer) (call : Call) :
    (s.perform clock call).spokeIndex = s.spokeIndex := by
  cases call with
  | addTask interval type => rfl
  | removeTask id =>
      unfold perform removeTask
      dsimp only
      split <;> rfl

theorem performs_indices (s : Timer) (calls : List Call) :
    (calls.foldl (perform clock) s).spokeIndex = s.spokeIndex := by
  induction calls generalizing s with
  | nil => rfl
  | cons call rest ih => exact (ih _).trans (perform_indices s call)

theorem timeoutLoop_indices (left : Nat) (s : Timer) :
    (timeoutLoop clock script left s).spokeIndex = s.spokeIndex := by
  induction left generalizing s with
  | zero => rfl
  | succ left ih =>
      rw [timeoutLoop]
      split
      · rfl
      · next node rest ready =>
          rw [ih]
          exact (performs_indices _ _).trans (by cases node.timer.type <;> rfl)

theorem timeout_bounded (bounded : s.Bounded) :
    (doTimeoutCallback clock script s).Bounded := by
  intro wheel member
  rw [doTimeoutCallback, timeoutLoop_indices]
  exact bounded wheel member

theorem create_inv (clock : Nat → Nat) :
    Inv clock (create clock) 0 0 (clock 0) [] ∧ (create clock).Bounded := by
  refine ⟨⟨Nat.le_refl 1, rfl, fun _ _ => Nat.le_refl _, ?_, ?_, ?_, ?_, ?_⟩, ?_⟩
  · intro wheel _
    rw [StandsFor, placeOf_waiting (Nat.not_lt_zero wheel), Foundation.Odometer.digit,
      Nat.zero_div]
    rfl
  · intro _ _ _ _ impossible
    cases impossible
  · intro _ impossible
    cases impossible
  · intro _ _ impossible
    cases impossible
  · intro _ impossible
    cases impossible
  · intro wheel _
    exact wheelSize_pos wheel

/-- The ticks that `detect_timer_list` makes up for reach the last one before its
reading of the clock. -/
theorem loopnum_spec (steady : NonDecreasing clock) (inv : Inv clock s 0 p t []) :
    Inv clock (s.getCurrentMillisec clock).2 0 p t [] ∧
      t + granularity * s.loopnum (clock s.readings) ≤
        (s.getCurrentMillisec clock).2.lastReading clock ∧
      clock s.readings < t + granularity * s.loopnum (clock s.readings) + granularity := by
  obtain ⟨read, order, last⟩ := inv.read steady
  have checked := inv.checked
  subst checked
  have behind : s.checktime ≤ clock s.readings :=
    Nat.le_trans (inv.behind 0 (by decide)) order
  have whole : s.checktime + granularity * s.loopnum (clock s.readings) ≤ clock s.readings ∧
      clock s.readings < s.checktime + granularity * s.loopnum (clock s.readings) +
        granularity := by
    unfold loopnum granularity
    split <;> omega
  exact ⟨read, last ▸ whole.1, whole.2⟩

/-- What `detect_timer_list` does with fewer than 2^32 ticks to make up for. -/
theorem detect_spec (script : Nat → List Call) (steady : NonDecreasing clock)
    (inv : Inv clock s 0 p t []) (bounded : s.Bounded)
    (few : s.loopnum (clock s.readings) < 2 ^ 32) :
    ∃ s' p' t', s.detectTimerList clock script = some s' ∧ Inv clock s' 0 p' t' [] ∧
      s'.Bounded ∧ s'.readyNodes = [] ∧ clock s.readings < t' + granularity := by
  obtain ⟨read, within, close⟩ := loopnum_spec steady inv
  obtain ⟨ticked, inside⟩ := ticks_inv steady (s.loopnum (clock s.readings)) read bounded within
  obtain ⟨after, empty⟩ := timeoutLoop_inv script ticked steady _ (Nat.le_refl _)
  exact ⟨_, _, _, if_pos few, after, timeout_bounded inside, empty, close⟩

/-- An entry point keeps the invariant. -/
theorem entry_inv (steady : NonDecreasing clock) {action : Action} {s' : Timer}
    (inv : Inv clock s 0 p t []) (bounded : s.Bounded)
    (step : s.Performs clock script action s') : ∃ p t, Inv clock s' 0 p t [] ∧ s'.Bounded := by
  cases action with
  | call call =>
      refine ⟨p, t, step ▸ perform_inv inv steady call, ?_⟩
      intro wheel member
      rw [← step, perform_indices]
      exact bounded wheel member
  | detectTimerList =>
      change s.detectTimerList clock script = some s' at step
      by_cases few : s.loopnum (clock s.readings) < 2 ^ 32
      · obtain ⟨s'', p', t', done, after, inside, _⟩ := detect_spec script steady inv bounded few
        rw [done, Option.some.injEq] at step
        rw [← step]
        exact ⟨p', t', after, inside⟩
      · have hangs : s.detectTimerList clock script = none := if_neg few
        rw [hangs] at step
        cases step

/-- Every state of a run satisfies the invariant. -/
theorem reached_inv (steady : NonDecreasing clock) {actions : List Action}
    (run : Reached (fun _ _ => True) (Performs clock script) (create clock) actions s) :
    ∃ p t, Inv clock s 0 p t [] ∧ s.Bounded := by
  apply run.invariant_all (I := fun s => ∃ p t, Inv clock s 0 p t [] ∧ s.Bounded)
  · rintro s action s' ⟨p, t, inv, bounded⟩ _ step
    exact entry_inv steady inv bounded step
  · exact ⟨0, clock 0, create_inv clock⟩

/-! ## Late and early -/

/-- A call of `detect_timer_list` returns, and by then every node whose dead time
lay a tick or more before its reading of the clock has been fired, unless it
was removed. The nodes of the run are those of the tasks that were added, one
for each call, and those of the periodic tasks that were fired, one for each
firing. -/
theorem detect_not_late (steady : NonDecreasing clock) {actions : List Action}
    (run : Reached (fun _ _ => True) (Performs clock script) (create clock) actions s)
    (few : s.loopnum (clock s.readings) < 2 ^ 32) :
    ∃ s', s.detectTimerList clock script = some s' ∧
      (∀ node, .created node ∈ s'.trace → node.deadTime + granularity ≤ clock s.readings →
        (∃ now, .fired node now ∈ s'.trace) ∨ .removed node ∈ s'.trace) ∧
      Registered clock (requested script (outsideRequests actions) s') s' ∧
      ∀ (u : Timer) (interval : UInt32) (type : TimerType),
        Registers clock u (u.addTask clock interval type) (u.taskFor interval type) := by
  obtain ⟨p, t, inv, bounded⟩ := reached_inv steady run
  obtain ⟨s', p', t', done, after, _, empty, close⟩ :=
    detect_spec script steady inv bounded few
  refine ⟨s', done, ?_, detect_registered (reached_registered run) done, addTask_registers⟩
  intro node created due
  rcases after.accounted node created with
    ⟨wheel, member, index, linked⟩ | ready | inHand | fired | removed
  · -- a node that is still linked is visited before it is a tick late
    obtain ⟨v, ahead, _, deadline⟩ := (after.linked wheel member index node linked).visited
    rw [timeOf_waiting (Nat.not_lt_zero wheel)] at deadline
    omega
  · rw [empty] at ready
    cases ready
  · cases inHand
  · exact .inl fired
  · exact .inr removed

/-- A clock that stands still but for one step behind three readings. -/
def pausedClock (reading : Nat) : Nat := if reading < 3 then 0 else 500

theorem pausedClock_nonDecreasing : NonDecreasing pausedClock := by
  intro i
  unfold pausedClock
  split <;> split <;> omega

/-- Two tasks, of which one is periodic, added half a second before the detection. -/
def dueTasks : Timer :=
  ((create pausedClock).addTask pausedClock 20 .once).addTask pausedClock 30 .circle

theorem detect_not_late_due :
    .created ⟨0, 20, ⟨1, 20, .once⟩⟩ ∈ dueTasks.trace ∧
      .created ⟨1, 30, ⟨2, 30, .circle⟩⟩ ∈ dueTasks.trace ∧
      ∃ s', dueTasks.detectTimerList pausedClock (fun _ => []) = some s' ∧
        (∀ node, .created node ∈ s'.trace → node.deadTime + granularity ≤ 500 →
          (∃ now, .fired node now ∈ s'.trace) ∨ .removed node ∈ s'.trace) ∧
        Registered pausedClock (requested (fun _ => []) (outsideRequests
          [.call (.addTask 20 .once), .call (.addTask 30 .circle)]) s') s' ∧
        ∀ (u : Timer) (interval : UInt32) (type : TimerType),
          Registers pausedClock u (u.addTask pausedClock interval type)
            (u.taskFor interval type) := by
  have run : Reached (fun _ _ => True) (Performs pausedClock fun _ => []) (create pausedClock)
      [.call (.addTask 20 .once), .call (.addTask 30 .circle)] dueTasks :=
    .cons trivial rfl (.cons trivial rfl (.nil _))
  exact ⟨by decide +kernel, by decide +kernel,
    detect_not_late pausedClock_nonDecreasing run (by decide +kernel)⟩

/-- A clock that stands still between the readings of a short run. -/
def steadyClock (start later : Nat) (reading : Nat) : Nat := if reading = 0 then start else later

theorem steadyClock_nonDecreasing {start later : Nat} (order : start ≤ later) :
    NonDecreasing (steadyClock start later) := by
  intro i
  unfold steadyClock
  split
  · split
    · exact Nat.le_refl _
    · exact order
  · exact Nat.le_refl _

/-- In every run whose placements on the first wheel are timely, no callback is
invoked a tick or more before the dead time of its node. -/
theorem fired_not_early (steady : NonDecreasing clock) {actions : List Action}
    (run : Reached (fun _ _ => True) (Performs clock script) (create clock) actions s)
    (onTime : OnTime s.trace) :
    ∀ node now, .fired node now ∈ s.trace → node.deadTime < now + granularity := by
  obtain ⟨p, t, inv, _⟩ := reached_inv steady run
  intro node now member
  exact inv.fired node now member onTime

/-- A clock that advances by 15 ms with every reading. -/
def evenClock (reading : Nat) : Nat := 15 * reading

/-- A task of 20 ms, added 15 ms behind the last detection, is fired in time. -/
def promptRun : Option Timer :=
  ((create evenClock).addTask evenClock 20 .once).detectTimerList evenClock fun _ => []

theorem promptRun_not_early : ∃ s, promptRun = some s ∧
    .fired ⟨0, 35, ⟨1, 20, .once⟩⟩ 30 ∈ s.trace ∧
      ∀ node now, .fired node now ∈ s.trace → node.deadTime < now + granularity := by
  have prompt : promptRun.any (fun s => .fired ⟨0, 35, ⟨1, 20, .once⟩⟩ 30 ∈ s.trace ∧
      OnTime s.trace) = true := by
    decide +kernel
  obtain ⟨s, done, facts⟩ := (Option.any_eq_true _ _).mp prompt
  obtain ⟨member, onTime⟩ := of_decide_eq_true facts
  have run : Reached (fun _ _ => True) (Performs evenClock fun _ => []) (create evenClock)
      [.call (.addTask 20 .once), .detectTimerList] s :=
    .cons trivial rfl (.cons trivial done (.nil _))
  exact ⟨s, done, member,
    fired_not_early (fun i => Nat.mul_le_mul_left 15 (Nat.le_succ i)) run onTime⟩

/-- A task of 20 ms, added 500 ms behind the last detection, is fired at once. -/
def laggingRun : Option Timer :=
  ((create (steadyClock 0 500)).addTask (steadyClock 0 500) 20 .once).detectTimerList
    (steadyClock 0 500) fun _ => []

theorem laggingRun_early :
    ¬ ∀ (clock : Nat → Nat) (script : Nat → List Call) (actions : List Action) (s : Timer),
      NonDecreasing clock →
      Reached (fun _ _ => True) (Performs clock script) (create clock) actions s →
      ∀ node now, .fired node now ∈ s.trace → node.deadTime < now + granularity := by
  intro all
  have fired : laggingRun.any (fun s => .fired ⟨0, 520, ⟨1, 20, .once⟩⟩ 500 ∈ s.trace) = true := by
    decide +kernel
  obtain ⟨s, done, member⟩ := (Option.any_eq_true _ _).mp fired
  have run : Reached (fun _ _ => True) (Performs (steadyClock 0 500) fun _ => [])
      (create (steadyClock 0 500)) [.call (.addTask 20 .once), .detectTimerList] s :=
    .cons trivial rfl (.cons trivial done (.nil _))
  have late := all _ _ _ s (steadyClock_nonDecreasing (by decide)) run _ _
    (of_decide_eq_true member)
  exact absurd late (by decide)

end FysobEngine.Common.Timer
