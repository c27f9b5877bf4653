import Mathlib.Algebra.Ring.Nat
import Mathlib.Logic.Function.Iterate

/-!
# Loops with a narrow counter

`for (uint32_t i = 0; i < bound; ++i)` with a bound of 64 bits. The counter starts
again at zero behind its last value, so a bound that it cannot reach is never met.
-/

namespace FysobEngine.Foundation.NarrowLoops

variable {σ : Type _} (body : σ → σ) {bound : UInt64}

/-- The loop from a value of its counter on, with the number of times that its body is
executed. It is given a number of turns, and has no result when they do not suffice. -/
def narrowLoop (bound : UInt64) : Nat → UInt32 → σ → Option (Nat × σ)
  | 0, _, _ => none
  | .succ turns, i, s =>
      if i.toUInt64 < bound then
        (narrowLoop bound turns (i + 1) (body s)).map fun (count, s) => (count + 1, s)
      else some (0, s)

theorem narrowLoop_continues {i : UInt32} (below : i.toNat < bound.toNat) (turns : Nat) (s : σ) :
    narrowLoop body bound (turns + 1) i s =
      (narrowLoop body bound turns (i + 1) (body s)).map fun (count, s) => (count + 1, s) :=
  if_pos (UInt64.lt_iff_toNat_lt.mpr (by rwa [UInt32.toNat_toUInt64]))

theorem narrowLoop_ends {i : UInt32} (reached : bound.toNat ≤ i.toNat) (turns : Nat) (s : σ) :
    narrowLoop body bound (turns + 1) i s = some (0, s) := by
  refine if_neg fun below => ?_
  rw [UInt64.lt_iff_toNat_lt, UInt32.toNat_toUInt64] at below
  exact Nat.not_lt_of_le reached below

/-- A counter below a bound of 32 bits does not start again. -/
theorem toNat_succ (narrow : bound.toNat < 2 ^ 32) {i : UInt32} (below : i.toNat < bound.toNat) :
    (i + 1).toNat = i.toNat + 1 := by
  have whole : i.toNat + 1 < 2 ^ 32 := Nat.lt_of_le_of_lt below narrow
  rw [UInt32.toNat_add]
  exact Nat.mod_eq_of_lt whole

/-- A bound that the counter reaches: the body is executed once for each value below it. -/
theorem narrowLoop_of_lt (narrow : bound.toNat < 2 ^ 32) {left turns : Nat} {i : UInt32}
    (remain : i.toNat + left = bound.toNat) (enough : left < turns) (s : σ) :
    narrowLoop body bound turns i s = some (left, body^[left] s) := by
  induction left generalizing turns i s with
  | zero =>
      obtain ⟨turns, rfl⟩ := Nat.exists_eq_add_of_lt enough
      exact narrowLoop_ends body (Nat.le_of_eq remain.symm) _ s
  | succ left ih =>
      obtain ⟨more, rfl⟩ := Nat.exists_eq_add_of_lt enough
      have below : i.toNat < bound.toNat := by omega
      have next := toNat_succ narrow below
      rw [narrowLoop_continues body below, ih (by omega) (by omega)]
      rfl

/-- A bound that the counter never reaches: no number of turns suffices. -/
theorem narrowLoop_hangs (wide : 2 ^ 32 ≤ bound.toNat) (turns : Nat) (i : UInt32) (s : σ) :
    narrowLoop body bound turns i s = none := by
  induction turns generalizing i s with
  | zero => rfl
  | succ turns ih =>
      rw [narrowLoop_continues body (Nat.lt_of_lt_of_le i.toNat_lt wide), ih]
      rfl

theorem narrow_of_ends {turns : Nat} {i : UInt32} {s : σ} {result : Nat × σ}
    (done : narrowLoop body bound turns i s = some result) : bound.toNat < 2 ^ 32 := by
  apply Nat.lt_of_not_le
  intro wide
  rw [narrowLoop_hangs body wide] at done
  cases done

/-- The loop ends just when its counter can reach the bound. -/
theorem narrowLoop_ends_iff (s : σ) :
    (∃ turns result, narrowLoop body bound turns 0 s = some result) ↔ bound.toNat < 2 ^ 32 := by
  constructor
  · rintro ⟨turns, result, done⟩
    exact narrow_of_ends body done
  · intro narrow
    exact ⟨_, _, narrowLoop_of_lt body narrow (Nat.zero_add _) (Nat.lt_succ_self _) s⟩

/-- What a loop that ends leaves, from a value of its counter on. -/
theorem narrowLoop_result {turns count : Nat} {i : UInt32} {s s' : σ}
    (start : i.toNat ≤ bound.toNat) (done : narrowLoop body bound turns i s = some (count, s')) :
    i.toNat + count = bound.toNat ∧ s' = body^[count] s := by
  have narrow := narrow_of_ends body done
  induction turns generalizing i s count with
  | zero => cases done
  | succ turns ih =>
      rcases Nat.lt_or_ge i.toNat bound.toNat with below | reached
      · have next := toNat_succ narrow below
        rw [narrowLoop_continues body below] at done
        obtain ⟨⟨rest, last⟩, later, same⟩ := Option.map_eq_some_iff.mp done
        cases same
        obtain ⟨whole, rfl⟩ := ih (next ▸ below) later
        exact ⟨by omega, rfl⟩
      · rw [narrowLoop_ends body reached] at done
        cases done
        exact ⟨Nat.le_antisymm start reached, rfl⟩

end FysobEngine.Foundation.NarrowLoops
