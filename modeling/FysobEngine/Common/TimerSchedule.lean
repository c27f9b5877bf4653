import FysobEngine.Foundation.Odometer
import FysobEngine.Common.Timer

/-!
# When a spoke is visited

The five spoke indices are the digits of a tick counter. Every linked node has
a tick at which its spoke is emptied, no later than its dead time asks for.
-/

namespace FysobEngine.Common.Timer

open Foundation.Odometer

variable {clock : Nat → Nat}

/-- The number of ticks between two turns of a wheel. -/
def wheelUnit : Nat → Nat
  | 0 => 1
  | 1 => 256
  | 2 => 16384
  | 3 => 1048576
  | _ => 67108864

/-- The number of ticks that a wheel spans. -/
def wheelReach (wheel : Nat) : Nat := wheelUnit wheel * wheelSize wheel

theorem wheelUnit_pos (wheel : Nat) : 0 < wheelUnit wheel := by
  unfold wheelUnit
  split <;> decide

theorem wheelUnit_succ {wheel : Nat} (inner : wheel + 1 < wheelNum) :
    wheelUnit (wheel + 1) = wheelUnit wheel * wheelSize wheel := by
  match wheel, inner with
  | 0, _ => rfl
  | 1, _ => rfl
  | 2, _ => rfl
  | 3, _ => rfl

theorem wheelUnit_le_succ (wheel : Nat) : wheelUnit wheel ≤ wheelUnit (wheel + 1) := by
  match wheel with
  | 0 => decide
  | 1 => decide
  | 2 => decide
  | 3 => decide
  | _ + 4 => exact Nat.le_refl _

theorem wheelUnit_mono {inner outer : Nat} (order : inner ≤ outer) :
    wheelUnit inner ≤ wheelUnit outer := by
  induction order with
  | refl => exact Nat.le_refl _
  | step _ ih => exact Nat.le_trans ih (wheelUnit_le_succ _)

/-- The spoke index of a wheel is the digit of tick `p`. -/
def StandsFor (s : Timer) (wheel p : Nat) : Prop :=
  s.spokeIndex wheel % wheelSize wheel = digit (wheelUnit wheel) (wheelSize wheel) p

theorem mask1_eq_mod (value : Nat) : value &&& wheelMask1 = value % wheelSize 0 :=
  Nat.and_two_pow_sub_one_eq_mod value wheelBits1

theorem mask2_eq_mod (value wheel : Nat) :
    value &&& wheelMask2 = value % wheelSize (wheel + 1) :=
  Nat.and_two_pow_sub_one_eq_mod value wheelBits2

/-- The spoke of an outer wheel, counted from the digit it stands at. -/
theorem outer_spoke {s : Timer} {wheel p interval : Nat} (stands : s.StandsFor wheel p)
    (far : wheelUnit wheel ≤ interval) :
    (interval - wheelUnit wheel + s.spokeIndex wheel * wheelUnit wheel) / wheelUnit wheel %
        wheelSize wheel =
      (p / wheelUnit wheel + (interval / wheelUnit wheel - 1)) % wheelSize wheel := by
  have positive := wheelUnit_pos wheel
  have steps := Nat.div_eq_sub_div positive far
  have same : s.spokeIndex wheel % wheelSize wheel = p / wheelUnit wheel % wheelSize wheel := stands
  rw [Nat.add_mul_div_right _ _ positive, steps, Nat.add_sub_cancel, Nat.add_comm,
    Nat.add_mod, same, ← Nat.add_mod]

/-- A node that has `interval` ticks to go at tick `p` falls to this spoke of this
wheel, one of those up to `top`. -/
def FallsTo (p interval top : Nat) (spoke : Nat × Nat) : Prop :=
  ∃ wheel count, spoke = (wheel, (p / wheelUnit wheel + (count - 1)) % wheelSize wheel) ∧
    wheel ≤ top ∧ 1 ≤ count ∧ count * wheelUnit wheel ≤ interval + 1 ∧
    interval < wheelReach wheel ∧ (wheel = 0 → count = interval + 1)

theorem falls_inner {s : Timer} {p interval top : Nat} (stands : s.StandsFor 0 p)
    (reached : interval < wheelReach 0) :
    FallsTo p interval top (0, (interval + s.spokeIndex 0) &&& wheelMask1) := by
  refine ⟨0, interval + 1, ?_, Nat.zero_le top, Nat.le_add_left 1 interval, ?_, reached,
    fun _ => rfl⟩
  · unfold StandsFor digit at stands
    rw [mask1_eq_mod, Nat.add_mod, stands, ← Nat.add_mod, Nat.add_comm, Nat.add_sub_cancel]
  · exact Nat.le_of_eq (Nat.mul_one _)

/-- The outer wheels differ in their units only. -/
theorem falls_outer {s : Timer} {p interval top : Nat} (wheel bits : Nat)
    (unit : wheelUnit (wheel + 1) = 2 ^ bits) (member : wheel + 1 < wheelNum)
    (stands : ∀ wheel ≤ top, s.StandsFor wheel p) (near : interval < wheelReach top)
    (far : wheelUnit (wheel + 1) ≤ interval) (reached : interval < wheelReach (wheel + 1)) :
    FallsTo p interval top (wheel + 1, ((interval - wheelUnit (wheel + 1) +
      s.spokeIndex (wheel + 1) * wheelUnit (wheel + 1)) >>> bits) &&& wheelMask2) := by
  have below : wheel + 1 ≤ top := by
    apply Classical.byContradiction
    intro above
    have order : top + 1 ≤ wheel + 1 := Nat.lt_of_not_le above
    have next : wheelUnit (top + 1) = wheelReach top :=
      wheelUnit_succ (Nat.lt_of_le_of_lt order member)
    have bound := wheelUnit_mono order
    omega
  refine ⟨wheel + 1, interval / wheelUnit (wheel + 1), ?_, below, ?_, ?_, reached, ?_⟩
  · rw [mask2_eq_mod _ wheel, Nat.shiftRight_eq_div_pow, ← unit,
      outer_spoke (stands (wheel + 1) below) far]
  · exact Nat.div_pos far (wheelUnit_pos (wheel + 1))
  · exact Nat.le_succ_of_le (Nat.div_mul_le_self interval (wheelUnit (wheel + 1)))
  · intro first
    cases first

theorem wheelReach_le_outermost {wheel : Nat} (member : wheel < wheelNum) :
    wheelReach wheel ≤ wheelReach 4 := by
  match wheel, member with
  | 0, _ => decide
  | 1, _ => decide
  | 2, _ => decide
  | 3, _ => decide
  | 4, _ => decide

/-- The wheel that a number of ticks falls to, and the spoke counted from there. -/
theorem spokeFor_spec (s : Timer) (p : Nat) {milseconds top : Nat} (inner : top < wheelNum)
    (stands : ∀ wheel ≤ top, s.StandsFor wheel p)
    (near : milseconds / granularity < wheelReach top) :
    FallsTo p (milseconds / granularity) top (s.spokeFor milseconds) := by
  unfold spokeFor
  generalize milseconds / granularity = interval at near ⊢
  dsimp only
  split
  · next first => exact falls_inner (stands 0 (Nat.zero_le top)) first
  · next past1 =>
      split
      · next reached =>
          exact falls_outer 0 wheelBits1 rfl (by decide) stands near (Nat.le_of_not_lt past1)
            reached
      · next past2 =>
          split
          · next reached =>
              exact falls_outer 1 (wheelBits1 + wheelBits2) rfl (by decide) stands near
                (Nat.le_of_not_lt past2) reached
          · next past3 =>
              split
              · next reached =>
                  exact falls_outer 2 (wheelBits1 + 2 * wheelBits2) rfl (by decide) stands near
                    (Nat.le_of_not_lt past3) reached
              · next past4 =>
                  exact falls_outer 3 (wheelBits1 + 3 * wheelBits2) rfl (by decide) stands near
                    (Nat.le_of_not_lt past4)
                    (Nat.lt_of_lt_of_le near (wheelReach_le_outermost inner))

/-! ## One node -/

/-- A node went onto the first wheel while the wheels were less than two ticks
behind the time that its milliseconds were counted from. -/
def PlacedOnTime : Event → Prop
  | .placed _ wheel milseconds now wheelTime =>
      wheel = 0 → milseconds < granularity ∨
        now + milseconds % granularity < wheelTime + 2 * granularity
  | _ => True

instance : DecidablePred PlacedOnTime := fun event => by
  cases event <;> unfold PlacedOnTime <;> infer_instance

/-- Every placement of a run was on time. -/
def OnTime (trace : List Event) : Prop := ∀ event ∈ trace, PlacedOnTime event

instance (trace : List Event) : Decidable (OnTime trace) := by unfold OnTime; infer_instance

theorem OnTime.of_append {trace more : List Event} (timely : OnTime (trace ++ more)) :
    OnTime trace := fun event member => timely event (List.mem_append_left more member)

/-- A node on a spoke of a wheel that stands for tick `p` at time `t`: the spoke
is emptied in time, and with timely placements not too early. -/
structure Timely (timely : Prop) (wheel p t now index : Nat) (node : TimerNode) : Prop where
  visited : ∃ v, p ≤ v ∧ Turns (wheelUnit wheel) (wheelSize wheel) v index ∧
    t + granularity * (v - p) ≤ node.deadTime
  level : node.deadTime < now + granularity * wheelReach wheel
  due : timely → wheel = 0 → ∀ v, p ≤ v → Turns (wheelUnit 0) (wheelSize 0) v index →
    node.deadTime < t + granularity * (v - p) + 2 * granularity ∨
      node.deadTime < now + granularity

namespace Timely

variable {timely : Prop} {wheel p t now index : Nat} {node : TimerNode}

theorem mono (on : Timely timely wheel p t now index node) {still : Prop} {later : Nat}
    (weaker : still → timely) (order : now ≤ later) :
    Timely still wheel p t later index node := by
  obtain ⟨visited, level, due⟩ := on
  refine ⟨visited, Nat.lt_of_lt_of_le level (Nat.add_le_add_right order _), ?_⟩
  intro still first v ahead turn
  rcases due (weaker still) first v ahead turn with before | before
  · exact .inl before
  · exact .inr (Nat.lt_of_lt_of_le before (Nat.add_le_add_right order _))

/-- A tick that does not turn the wheel away from the spoke brings it closer. -/
theorem advance (on : Timely timely wheel p t now index node)
    (rest : ¬ Turns (wheelUnit wheel) (wheelSize wheel) p index) :
    Timely timely wheel (p + 1) (t + granularity) now index node := by
  obtain ⟨⟨v, ahead, turn, deadline⟩, level, due⟩ := on
  have closer (v : Nat) (later : p + 1 ≤ v) :
      t + granularity + granularity * (v - (p + 1)) = t + granularity * (v - p) := by
    unfold granularity
    omega
  have apart : p ≠ v := by
    intro same
    rw [← same] at turn
    exact rest turn
  have later : p + 1 ≤ v := Nat.lt_of_le_of_ne ahead apart
  refine ⟨⟨v, later, turn, ?_⟩, level, ?_⟩
  · rw [closer v later]
    exact deadline
  · intro on first w ahead turn
    rw [closer w ahead]
    exact due on first w (Nat.le_of_succ_le ahead) turn

/-- A node placed now on the spoke that `add_timer_node` chooses. -/
theorem placed {milseconds count : Nat} (behind : t ≤ now)
    (deadTime : node.deadTime = now + milseconds) (positive : 1 ≤ count)
    (near : count * wheelUnit wheel ≤ milseconds / granularity + 1)
    (reached : milseconds / granularity < wheelReach wheel)
    (first : wheel = 0 → count = milseconds / granularity + 1)
    (onTime : timely → wheel = 0 →
      milseconds < granularity ∨ now + milseconds % granularity < t + 2 * granularity) :
    Timely timely wheel p t now ((p / wheelUnit wheel + (count - 1)) % wheelSize wheel) node := by
  have split := Nat.div_add_mod milseconds granularity
  have low : milseconds % granularity < granularity := Nat.mod_lt milseconds (by decide)
  obtain ⟨v, ahead, distance, turn⟩ := turns_ahead p (wheelSize wheel)
    (wheelUnit_pos wheel) positive
  refine ⟨⟨v, ahead, turn, ?_⟩, ?_, ?_⟩
  · unfold granularity at *
    omega
  · unfold granularity at *
    omega
  · rintro timely rfl w later again
    rw [first rfl, Nat.add_sub_cancel, wheelUnit, Nat.div_one] at again
    have bound := first_turn reached later again
    unfold granularity at *
    rcases onTime timely rfl with short | close
    · right
      omega
    · left
      omega

end Timely

end FysobEngine.Common.Timer
