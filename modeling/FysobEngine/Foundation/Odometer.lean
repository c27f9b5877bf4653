/-!
# Wheels of an odometer

A wheel of `size` spokes turns once in every `unit` steps of a counter. The
step from `p` to `p + 1` turns it when `unit` divides `p + 1`, and the spoke it
leaves is the digit of `p`.
-/

namespace FysobEngine.Foundation.Odometer

/-- The spoke a wheel stands at. -/
def digit (unit size p : Nat) : Nat := p / unit % size

/-- The step from `p` turns the wheel away from spoke `j`. -/
def Turns (unit size p j : Nat) : Prop := unit ∣ p + 1 ∧ digit unit size p = j

variable {unit size p j : Nat}

theorem div_succ_of_dvd (turn : unit ∣ p + 1) :
    (p + 1) / unit = p / unit + 1 := by
  rw [Nat.succ_div, if_pos turn]

theorem div_succ_of_not_dvd (rest : ¬ unit ∣ p + 1) : (p + 1) / unit = p / unit := by
  rw [Nat.succ_div, if_neg rest]
  exact Nat.add_zero _

/-- The next wheel turns with the last spoke of this one. -/
theorem dvd_next (positive : 0 < unit) (turn : unit ∣ p + 1) :
    unit * size ∣ p + 1 ↔ size ∣ p / unit + 1 := by
  obtain ⟨count, same⟩ := turn
  have value : p / unit + 1 = count := by
    rw [← div_succ_of_dvd ⟨count, same⟩, same, Nat.mul_div_cancel_left _ positive]
  rw [value, same]
  exact Nat.mul_dvd_mul_iff_left positive

/-- A turn of the wheel that lies `count` turns ahead, and how far away it is. -/
theorem turns_ahead (p size : Nat) (positive : 0 < unit) {count : Nat} (ahead : 1 ≤ count) :
    ∃ v, p ≤ v ∧ v + 1 ≤ p + count * unit ∧
      Turns unit size v ((p / unit + (count - 1)) % size) := by
  have low : p % unit < unit := Nat.mod_lt p positive
  have split : unit * (p / unit) + p % unit = p := Nat.div_add_mod p unit
  have far : unit * (p / unit + count) = unit * (p / unit) + count * unit := by
    rw [Nat.mul_add, Nat.mul_comm count]
  have wide : unit ≤ count * unit := Nat.le_mul_of_pos_left unit ahead
  have next : unit * (p / unit + count) - 1 + 1 = unit * (p / unit + count) := by omega
  refine ⟨unit * (p / unit + count) - 1, by omega, by omega, ?_, ?_⟩
  · rw [next]
    exact Nat.dvd_mul_right _ _
  · have before := div_succ_of_dvd (next ▸ Nat.dvd_mul_right unit (p / unit + count))
    rw [next, Nat.mul_div_cancel_left _ positive] at before
    have value : (unit * (p / unit + count) - 1) / unit = p / unit + (count - 1) := by omega
    rw [digit, value]

/-- The first wheel reaches the spoke `ahead` steps away no earlier than that. -/
theorem first_turn {ahead v : Nat} (near : ahead < size) (later : p ≤ v)
    (turn : Turns 1 size v ((p + ahead) % size)) : p + ahead ≤ v := by
  apply Classical.byContradiction
  intro early
  have same := turn.2
  rw [digit, Nat.div_one] at same
  have gap := Nat.sub_mod_eq_zero_of_mod_eq same.symm
  rw [Nat.mod_eq_of_lt (by omega)] at gap
  omega

end FysobEngine.Foundation.Odometer
