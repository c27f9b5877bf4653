import Mathlib.Data.Fintype.Card

/-!
# Parties and their places

A finite number of parties, each in a place. How many of them are in a place of
some kind, and how that number follows a party that moves.
-/

namespace FysobEngine.Foundation.Census

variable {ι π : Type _} [Fintype ι]

/-- The number of parties in a place of this kind. -/
def census (place : ι → π) (kind : π → Bool) : Nat :=
  (Finset.univ.filter fun i => kind (place i) = true).card

theorem census_pos {place : ι → π} {kind : π → Bool} :
    0 < census place kind ↔ ∃ i, kind (place i) = true := by
  simp [census, Finset.card_pos, Finset.filter_nonempty_iff]

theorem census_eq_zero {place : ι → π} {kind : π → Bool} :
    census place kind = 0 ↔ ∀ i, kind (place i) = false := by
  simp [census, Finset.filter_eq_empty_iff]

theorem eq_of_census_le_one {place : ι → π} {kind : π → Bool} (few : census place kind ≤ 1)
    {i j : ι} (first : kind (place i) = true) (second : kind (place j) = true) : i = j := by
  refine Finset.card_le_one.mp few i ?_ j ?_
  · simpa using first
  · simpa using second

theorem census_mono (place : ι → π) {kind wider : π → Bool}
    (within : ∀ p, kind p = true → wider p = true) : census place kind ≤ census place wider :=
  Finset.card_le_card (Finset.monotone_filter_right _ fun i _ => within (place i))

theorem census_le_card (place : ι → π) (kind : π → Bool) : census place kind ≤ Fintype.card ι :=
  Finset.card_le_univ _

/-- Places of one kind may be renamed. -/
theorem census_congr {place place' : ι → π} {kind : π → Bool}
    (same : ∀ i, kind (place' i) = kind (place i)) : census place' kind = census place kind := by
  unfold census
  simp only [same]

variable [DecidableEq ι]

/-- One party moves. -/
theorem census_update (place : ι → π) (kind : π → Bool) (i : ι) (new : π) :
    census (Function.update place i new) kind + (kind (place i)).toNat =
      census place kind + (kind new).toNat := by
  have count : ∀ place : ι → π, census place kind = (kind (place i)).toNat +
      ((Finset.univ.erase i).filter fun j => kind (place j) = true).card := by
    intro place
    unfold census
    rw [← Finset.insert_erase (Finset.mem_univ i), Finset.filter_insert]
    cases here : kind (place i) with
    | false => simp
    | true => simp [here, Finset.card_insert_of_notMem, Nat.add_comm]
  have others : ((Finset.univ.erase i).filter fun j =>
      kind (Function.update place i new j) = true) =
      (Finset.univ.erase i).filter fun j => kind (place j) = true := by
    refine Finset.filter_congr fun j member => ?_
    rw [Function.update_of_ne (Finset.ne_of_mem_erase member)]
  rw [count (Function.update place i new), count place, others, Function.update_self]
  omega

end FysobEngine.Foundation.Census
