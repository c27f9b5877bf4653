import FysobEngine.Foundation.NarrowLoops
import FysobEngine.Common.LinkedTimerTicks

/-!
# Whether a detection ends

The loop of `detect_timer_list` counts in 32 bits up to a number of ticks in 64 bits,
and `cascade` calls itself for the next wheel. Both are stated here as the code has
them, with a number of turns and a depth of calls.
-/

namespace FysobEngine.Common

open Foundation.NarrowLoops

namespace Timer

variable (clock : Nat → Nat) (script : Nat → List Call)

/-- `loopnum` of `detect_timer_list`. -/
def loopBound (now checktime : UInt64) : UInt64 :=
  if now > checktime then (now - checktime) / .ofNat granularity else 0

/-- The body of the loop, which adds to a `checktime_` of 64 bits. -/
def loopBody (s : Timer) : Timer :=
  let s := s.tick clock
  { s with checktime := s.checktime % 2 ^ 64 }

def setChecktime (s : Timer) (checktime : UInt64) : Timer :=
  { s with checktime := checktime.toNat }

/-- The loop of `detect_timer_list`, with the number of its iterations. -/
def detectLoop (turns : Nat) (checktime now : UInt64) (s : Timer) : Option (Nat × Timer) :=
  narrowLoop (loopBody clock) (loopBound now checktime) turns 0 (s.setChecktime checktime)

/-- `cascade`, for a depth of calls. -/
def cascadeFrom : Nat → UInt32 → Timer → Option (Timer × Nat)
  | 0, _, _ => none
  | .succ depth, wheelIndex, s =>
      if wheelIndex < 1 ∨ wheelIndex ≥ .ofNat wheelNum then some (s, 0)
      else
        let wheel := wheelIndex.toNat
        let (now, s) := s.getCurrentMillisec clock
        let index := s.spokeIndex wheel
        let s := s.setSpokeIndex wheel (index + 1)
        let nodes := s.spokes wheel index
        let s := s.setSpoke wheel index []
        let (s, casnum) := cascadeNodes now nodes s 0
        if s.spokeIndex wheel ≥ wheelSize wheel then
          (cascadeFrom depth (wheelIndex + 1) (s.setSpokeIndex wheel 0)).map fun (s, more) =>
            (s, casnum + more)
        else some (s, casnum)

variable {clock script} {s s' : Timer}

/-! ## The recursion over the wheels -/

theorem cascadeFrom_outside {wheelIndex : UInt32}
    (outside : wheelIndex.toNat < 1 ∨ wheelNum ≤ wheelIndex.toNat) (depth : Nat) (s : Timer) :
    cascadeFrom clock (depth + 1) wheelIndex s = some (s, 0) := by
  refine if_pos (outside.imp (fun low => ?_) fun high => ?_)
  · exact UInt32.lt_iff_toNat_lt.mpr low
  · exact UInt32.le_iff_toNat_le.mpr high

/-- A depth of one call for each wheel, and of one behind the last, is enough. -/
theorem cascadeFrom_eq {left depth : Nat} {wheelIndex : UInt32} (first : 1 ≤ wheelIndex.toNat)
    (wheels : left + wheelIndex.toNat = wheelNum) (enough : left < depth) (s : Timer) :
    cascadeFrom clock depth wheelIndex s = some (cascade clock left wheelIndex.toNat s) := by
  induction left generalizing depth wheelIndex s with
  | zero =>
      obtain ⟨depth, rfl⟩ := Nat.exists_eq_add_of_lt enough
      exact cascadeFrom_outside (.inr (by omega)) _ s
  | succ left ih =>
      obtain ⟨depth, rfl⟩ := Nat.exists_eq_add_of_lt enough
      have inside : wheelIndex.toNat < 5 := by
        change _ = 5 at wheels
        omega
      have next : (wheelIndex + 1).toNat = wheelIndex.toNat + 1 := by
        rw [UInt32.toNat_add]
        exact Nat.mod_eq_of_lt (Nat.lt_trans (Nat.succ_lt_succ inside) (by decide))
      have within : ¬ (wheelIndex < 1 ∨ wheelIndex ≥ .ofNat wheelNum) := by
        rintro (low | high)
        · exact absurd (UInt32.lt_iff_toNat_lt.mp low) (Nat.not_lt_of_le first)
        · exact absurd (UInt32.le_iff_toNat_le.mp high) (Nat.not_le_of_lt inside)
      rw [cascadeFrom, if_neg within, cascade]
      dsimp only
      split
      · rw [ih (by omega) (by omega) (by omega), next]
        rfl
      · rfl

theorem cascadeFrom_ends (wheelIndex : UInt32) (s : Timer) :
    ∃ depth result, cascadeFrom clock depth wheelIndex s = some result := by
  by_cases outside : wheelIndex.toNat < 1 ∨ wheelNum ≤ wheelIndex.toNat
  · exact ⟨1, _, cascadeFrom_outside outside 0 s⟩
  · have wheels : wheelNum - wheelIndex.toNat + wheelIndex.toNat = wheelNum := by omega
    exact ⟨_, _, cascadeFrom_eq (by omega) wheels (Nat.lt_succ_self _) s⟩

/-! ## The loop over the ticks -/

theorem cascadeNodes_checktime (now : Nat) (nodes : List TimerNode) (s : Timer) (casnum : Nat) :
    (cascadeNodes now nodes s casnum).1.checktime = s.checktime := by
  induction nodes generalizing s casnum with
  | nil => rfl
  | cons node rest ih =>
      rw [cascadeNodes]
      split
      · exact ih _ _
      · exact ih _ _

theorem cascade_checktime (left wheel : Nat) (s : Timer) :
    (cascade clock left wheel s).1.checktime = s.checktime := by
  induction left generalizing wheel s with
  | zero => rfl
  | succ left ih =>
      have same : (cascaded clock wheel s).checktime = s.checktime := cascadeNodes_checktime _ _ _ _
      rw [cascade_succ]
      split
      · rw [ih]
        exact same
      · exact same

theorem tick_checktime (s : Timer) : (s.tick clock).checktime = s.checktime + granularity := by
  rw [tick_eq]
  split
  · exact congrArg (· + granularity) (cascade_checktime 4 1 _)
  · rfl

/-- Short of the end of the range of `checktime_` the bodies are ticks. -/
theorem loopBody_iterate (clock : Nat → Nat) (count : Nat)
    (room : s.checktime + granularity * count < 2 ^ 64) :
    (loopBody clock)^[count] s = ticks clock count s ∧
      (ticks clock count s).checktime = s.checktime + granularity * count := by
  induction count generalizing s with
  | zero => exact ⟨rfl, rfl⟩
  | succ count ih =>
      have counted : (s.tick clock).checktime = s.checktime + granularity := tick_checktime s
      have whole : (s.tick clock).checktime + granularity * count =
          s.checktime + granularity * (count + 1) := by
        rw [counted, Nat.mul_succ, Nat.add_assoc, Nat.add_comm granularity]
      rw [← whole] at room
      have once : loopBody clock s = s.tick clock := by
        have small : (s.tick clock).checktime % 2 ^ 64 = (s.tick clock).checktime :=
          Nat.mod_eq_of_lt (Nat.lt_of_le_of_lt (Nat.le_add_right _ _) room)
        rw [loopBody, small]
      obtain ⟨same, checktime⟩ := ih room
      rw [Function.iterate_succ_apply, once, ticks]
      exact ⟨same, checktime.trans whole⟩

/-- `loopnum` as a number. -/
theorem loopBound_toNat (now checktime : UInt64) :
    (loopBound now checktime).toNat = (now.toNat - checktime.toNat) / granularity := by
  unfold loopBound
  split
  · next later =>
      have order : checktime.toNat ≤ now.toNat := Nat.le_of_lt (UInt64.lt_iff_toNat_lt.mp later)
      rw [UInt64.toNat_div, UInt64.toNat_sub_of_le _ _ (UInt64.le_iff_toNat_le.mpr order)]
      rfl
  · next early =>
      have order : now.toNat ≤ checktime.toNat :=
        Nat.le_of_not_lt fun later => early (UInt64.lt_iff_toNat_lt.mpr later)
      rw [Nat.sub_eq_zero_of_le order, Nat.zero_div]
      rfl

/-- The loop makes up for the ticks between the two times, and the recursion ends. -/
structure EndsOnTime (clock : Nat → Nat) (s : Timer) (checktime now : UInt64) : Prop where
  loop : ∃ turns s', detectLoop clock turns checktime now s =
      some ((now.toNat - checktime.toNat) / granularity, s') ∧
    (checktime < now → s'.checktime ≤ now.toNat ∧ now.toNat < s'.checktime + granularity)
  cascades : ∀ (wheelIndex : UInt32) (s : Timer),
    ∃ depth result, cascadeFrom clock depth wheelIndex s = some result

/-- The ticks between two times do not reach past the later one. -/
theorem ticks_room (checktime now : UInt64) :
    checktime.toNat + granularity * ((now.toNat - checktime.toNat) / granularity) < 2 ^ 64 := by
  have whole := Nat.mul_div_le (now.toNat - checktime.toNat) granularity
  have start := checktime.toNat_lt
  have stop := now.toNat_lt
  omega

/-- What the loop leaves where its counter reaches the number of ticks. -/
theorem detectLoop_spec (clock : Nat → Nat) {checktime now : UInt64}
    (few : (now.toNat - checktime.toNat) / granularity < 2 ^ 32) (s : Timer) :
    ∃ turns, detectLoop clock turns checktime now s =
        some ((now.toNat - checktime.toNat) / granularity,
          ticks clock ((now.toNat - checktime.toNat) / granularity) (s.setChecktime checktime)) ∧
      (ticks clock ((now.toNat - checktime.toNat) / granularity)
        (s.setChecktime checktime)).checktime =
          checktime.toNat + granularity * ((now.toNat - checktime.toNat) / granularity) := by
  have bound := loopBound_toNat now checktime
  obtain ⟨same, counted⟩ := loopBody_iterate clock (s := s.setChecktime checktime) _
    (ticks_room checktime now)
  refine ⟨(now.toNat - checktime.toNat) / granularity + 1, ?_, counted⟩
  rw [← same]
  exact narrowLoop_of_lt (loopBody clock) (bound ▸ few) ((Nat.zero_add _).trans bound.symm)
    (Nat.lt_succ_self _) _

theorem EndsOnTime.few {checktime now : UInt64} (ends : EndsOnTime clock s checktime now) :
    (now.toNat - checktime.toNat) / granularity < 2 ^ 32 := by
  obtain ⟨turns, s', done, _⟩ := ends.loop
  rw [← loopBound_toNat]
  exact (narrowLoop_ends_iff (loopBody clock) _).mp ⟨turns, _, done⟩

/-- For every timer and every two times: the loop ends as it should, exactly when the ticks
between the times can be counted in 32 bits. -/
theorem endsOnTime_iff (clock : Nat → Nat) (s : Timer) (checktime now : UInt64) :
    EndsOnTime clock s checktime now ↔
      (now.toNat - checktime.toNat) / granularity < 2 ^ 32 := by
  constructor
  · exact EndsOnTime.few
  · intro few
    obtain ⟨turns, done, counted⟩ := detectLoop_spec clock few s
    refine ⟨⟨turns, _, done, fun later => ?_⟩, cascadeFrom_ends⟩
    have order : checktime.toNat < now.toNat := UInt64.lt_iff_toNat_lt.mp later
    have split := Nat.div_add_mod (now.toNat - checktime.toNat) granularity
    have low : (now.toNat - checktime.toNat) % granularity < granularity :=
      Nat.mod_lt _ (by decide)
    omega

/-- The clock is set forward by 2^32 ticks, which is less than seventeen months. -/
theorem forwardClock_hangs :
    ¬ ∀ (clock : Nat → Nat) (s : Timer) (checktime now : UInt64),
      EndsOnTime clock s checktime now := by
  intro all
  have few := (all (fun _ => 0) (create fun _ => 0) 1700000000000 1742949672960).few
  exact absurd few (by decide)

/-! ## The detection -/

theorem loopnum_eq (s : Timer) (now : Nat) : s.loopnum now = (now - s.checktime) / granularity := by
  unfold loopnum
  split
  · rfl
  · next early => rw [Nat.sub_eq_zero_of_le (Nat.le_of_not_lt early), Nat.zero_div]

/-- When the loop ends, the detection goes on with the nodes that it put onto the ready
list. -/
theorem detectTimerList_of_loop {checktime now : UInt64} (starts : s.checktime = checktime.toNat)
    (reads : clock s.readings = now.toNat) {turns count : Nat}
    (done : detectLoop clock turns checktime now (s.getCurrentMillisec clock).2 =
      some (count, s')) :
    s.detectTimerList clock script = some (doTimeoutCallback clock script s') := by
  have ticksTo : s.loopnum (clock s.readings) =
      (now.toNat - checktime.toNat) / granularity := by
    rw [loopnum_eq, starts, reads]
  have few := (narrowLoop_ends_iff (loopBody clock) _).mp ⟨turns, _, done⟩
  rw [loopBound_toNat, ← ticksTo] at few
  have started : (s.getCurrentMillisec clock).2.setChecktime checktime =
      (s.getCurrentMillisec clock).2 := by
    rw [setChecktime, ← starts]
    rfl
  have made : s' = ticks clock (s.loopnum (clock s.readings)) (s.getCurrentMillisec clock).2 := by
    obtain ⟨whole, rfl⟩ := narrowLoop_result (loopBody clock) (Nat.zero_le _) done
    have counted : count = (now.toNat - checktime.toNat) / granularity :=
      (Nat.zero_add count).symm.trans (whole.trans (loopBound_toNat now checktime))
    rw [ticksTo, counted, ← started]
    exact (loopBody_iterate clock _ (ticks_room checktime now)).1
  rw [made]
  exact if_pos few

end Timer

namespace LinkedTimer

open Timer (granularity)

variable {clock : Nat → Nat} {s s' : LinkedTimer} {t : Timer}

theorem tick_iterate (count : Nat) (s : LinkedTimer) :
    (tick clock)^[count] s = ticks clock count s := by
  induction count generalizing s with
  | zero => rfl
  | succ count ih => exact ih (s.tick clock)

/-- Along the links, too, every walk of every turn of the loop comes back to its spoke. -/
theorem narrowLoop_faultless {bound : UInt64} {turns count : Nat} (books : Books s t .ready [])
    (bounded : t.Bounded) (done : narrowLoop (tick clock) bound turns 0 s = some (count, s')) :
    .fault ∉ s'.log := by
  obtain ⟨-, rfl⟩ := narrowLoop_result (tick clock) (Nat.zero_le _) done
  rw [tick_iterate]
  exact (ticks_books clock count books bounded).1.mirrors.tidy.sound

end LinkedTimer

end FysobEngine.Common
