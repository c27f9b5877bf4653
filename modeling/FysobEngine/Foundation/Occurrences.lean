import Mathlib.Data.List.Basic

/-!
# Occurrences and cuts

Where a needle occurs in a list first, which of several needles occurs first, and
the list cut into pieces there.
-/

namespace FysobEngine.Foundation.Occurrences

variable {α : Type _} [DecidableEq α]

/-- The first index at which the needle occurs. -/
def find (needle : List α) : List α → Option Nat
  | [] => if needle = [] then some 0 else none
  | item :: rest =>
      if needle <+: item :: rest then some 0 else (find needle rest).map (· + 1)

/-- The needle that occurs first, the first listed one of those that occur there. -/
def cut : List (List α) → List α → Option (Nat × List α)
  | [], _ => none
  | needle :: rest, hay =>
      match find needle hay, cut rest hay with
      | none, later => later
      | some index, none => some (index, needle)
      | some index, some (other, first) =>
          if other < index then some (other, first) else some (index, needle)

/-- The list cut at the first needle, again and again as long as no more than `limit`
items stand in front of it: what stands in front and the needle, for each cut. -/
def pieces (needles : List (List α)) (limit : Nat) : Nat → List α → List (List α × List α)
  | 0, _ => []
  | .succ turns, hay =>
      match cut needles hay with
      | none => []
      | some (index, needle) =>
          if index ≤ limit then
            (hay.take index, needle) ::
              pieces needles limit turns (hay.drop (index + needle.length))
          else []

/-- All the pieces. Every cut takes at least one item. -/
def split (needles : List (List α)) (limit : Nat) (hay : List α) : List (List α × List α) :=
  pieces needles limit hay.length hay

/-- The items of some pieces. -/
def joined (cuts : List (List α × List α)) : List α :=
  cuts.flatMap fun piece => piece.1 ++ piece.2

/-! ## The first occurrence -/

theorem find_some_iff {needle hay : List α} {index : Nat} :
    find needle hay = some index ↔ index ≤ hay.length ∧ needle <+: hay.drop index ∧
      ∀ earlier < index, ¬ needle <+: hay.drop earlier := by
  induction hay generalizing index with
  | nil =>
      rw [find]
      split
      · next empty =>
          subst empty
          constructor
          · intro same
            cases same
            exact ⟨Nat.le_refl _, List.nil_prefix,
              fun _ before => absurd before (Nat.not_lt_zero _)⟩
          · rintro ⟨within, -⟩
            rw [Nat.le_zero.mp within]
      · next nonempty => simp [nonempty]
  | cons item rest ih =>
      rw [find]
      split
      · next here =>
          constructor
          · intro same
            cases same
            exact ⟨Nat.zero_le _, here, fun _ before => absurd before (Nat.not_lt_zero _)⟩
          · rintro ⟨-, -, none⟩
            rcases index.eq_zero_or_pos with rfl | positive
            · rfl
            · exact absurd here (none 0 positive)
      · next away =>
          rw [Option.map_eq_some_iff]
          constructor
          · rintro ⟨place, found, rfl⟩
            obtain ⟨within, occurs, first⟩ := ih.mp found
            refine ⟨Nat.succ_le_succ within, occurs, fun earlier before => ?_⟩
            cases earlier with
            | zero => exact away
            | succ earlier => exact first earlier (Nat.lt_of_succ_lt_succ before)
          · rintro ⟨within, occurs, first⟩
            cases index with
            | zero => exact absurd occurs away
            | succ index =>
                refine ⟨index, ih.mpr ⟨Nat.le_of_succ_le_succ within, occurs, ?_⟩, rfl⟩
                intro earlier before
                exact first (earlier + 1) (Nat.succ_lt_succ before)

theorem find_within {needle hay : List α} {index : Nat} (found : find needle hay = some index) :
    index + needle.length ≤ hay.length := by
  obtain ⟨within, occurs, -⟩ := find_some_iff.mp found
  have long := occurs.length_le
  rw [List.length_drop] at long
  omega

theorem find_none {needle hay : List α} (long : hay.length < needle.length) :
    find needle hay = none := by
  cases found : find needle hay with
  | none => rfl
  | some index =>
      have within := find_within found
      omega

theorem find_eq_none_iff {needle hay : List α} (named : needle ≠ []) :
    find needle hay = none ↔ ∀ index, ¬ needle <+: hay.drop index := by
  constructor
  · intro absent index
    -- the least index of an occurrence would have been found
    induction index using Nat.strongRecOn with
    | ind index earlier =>
        intro occurs
        have long := occurs.length_le
        rw [List.length_drop] at long
        have more := List.length_pos_iff.mpr named
        have found : find needle hay = some index :=
          find_some_iff.mpr ⟨by omega, occurs, earlier⟩
        rw [absent] at found
        cases found
  · intro none
    cases found : find needle hay with
    | none => rfl
    | some index => exact absurd (find_some_iff.mp found).2.1 (none index)

/-! ## The first of several needles -/

theorem cut_some {needles : List (List α)} {hay needle : List α} {index : Nat}
    (cuts : cut needles hay = some (index, needle)) :
    needle ∈ needles ∧ find needle hay = some index := by
  induction needles with
  | nil => cases cuts
  | cons first rest ih =>
      rw [cut] at cuts
      cases found : find first hay with
      | none =>
          rw [found] at cuts
          exact ⟨List.mem_cons_of_mem _ (ih cuts).1, (ih cuts).2⟩
      | some place =>
          rw [found] at cuts
          cases later : cut rest hay with
          | none =>
              rw [later] at cuts
              cases cuts
              exact ⟨List.mem_cons_self, found⟩
          | some nearer =>
              rw [later] at cuts
              dsimp only at cuts
              split at cuts
              · next closer =>
                  cases cuts
                  exact ⟨List.mem_cons_of_mem _ (ih later).1, (ih later).2⟩
              · next farther =>
                  cases cuts
                  exact ⟨List.mem_cons_self, found⟩

theorem cut_within {needles : List (List α)} {hay needle : List α} {index : Nat}
    (cuts : cut needles hay = some (index, needle)) : index + needle.length ≤ hay.length :=
  find_within (cut_some cuts).2

/-- The items in front of a cut, the needle, and those behind. -/
theorem cut_joined {needles : List (List α)} {hay needle : List α} {index : Nat}
    (cuts : cut needles hay = some (index, needle)) :
    hay = hay.take index ++ needle ++ hay.drop (index + needle.length) := by
  obtain ⟨-, occurs, -⟩ := find_some_iff.mp (cut_some cuts).2
  obtain ⟨rest, whole⟩ := occurs
  have behind : hay.drop (index + needle.length) = rest := by
    rw [← List.drop_drop, ← whole, List.drop_left]
  rw [behind, List.append_assoc, whole, List.take_append_drop]

/-! ## All the pieces -/

variable {needles : List (List α)} {limit : Nat}

theorem pieces_cut {hay needle : List α} {index : Nat} (turns : Nat)
    (cuts : cut needles hay = some (index, needle)) (allowed : index ≤ limit) :
    pieces needles limit (turns + 1) hay =
      (hay.take index, needle) ::
        pieces needles limit turns (hay.drop (index + needle.length)) := by
  rw [pieces, cuts]
  exact if_pos allowed

/-- Nothing is cut behind too many items. -/
theorem pieces_uncut {hay : List α} (turns : Nat)
    (above : ∀ index needle, cut needles hay = some (index, needle) → limit < index) :
    pieces needles limit turns hay = [] := by
  cases turns with
  | zero => rfl
  | succ turns =>
      rw [pieces]
      cases cuts : cut needles hay with
      | none => rfl
      | some nearest =>
          obtain ⟨index, needle⟩ := nearest
          exact if_neg (Nat.not_le_of_lt (above index needle cuts))

theorem pieces_nil (named : ∀ needle ∈ needles, needle ≠ []) (turns : Nat) :
    pieces needles limit turns [] = [] := by
  apply pieces_uncut
  intro index needle cuts
  have within := cut_within cuts
  rw [List.length_nil, Nat.le_zero, Nat.add_eq_zero_iff] at within
  exact absurd (List.eq_nil_of_length_eq_zero within.2) (named needle (cut_some cuts).1)

/-- Cutting a number of times gives so many of all the pieces. -/
theorem pieces_take (named : ∀ needle ∈ needles, needle ≠ []) {turns : Nat} {hay : List α}
    (enough : hay.length ≤ turns) (count : Nat) :
    pieces needles limit count hay = (pieces needles limit turns hay).take count := by
  induction count generalizing hay turns with
  | zero => rfl
  | succ count ih =>
      cases turns with
      | zero =>
          rw [List.eq_nil_of_length_eq_zero (Nat.le_zero.mp enough), pieces_nil named,
            pieces_nil named, List.take_nil]
      | succ turns =>
          rw [pieces, pieces]
          cases cuts : cut needles hay with
          | none => rfl
          | some nearest =>
              obtain ⟨index, needle⟩ := nearest
              have taken : 0 < needle.length :=
                List.length_pos_iff.mpr (named needle (cut_some cuts).1)
              have shorter : (hay.drop (index + needle.length)).length ≤ turns := by
                rw [List.length_drop]
                omega
              dsimp only
              split
              · rw [List.take_succ_cons, ih shorter]
              · rfl

theorem pieces_eq_take (named : ∀ needle ∈ needles, needle ≠ []) (hay : List α) (count : Nat) :
    pieces needles limit count hay = (split needles limit hay).take count :=
  pieces_take named (Nat.le_refl _) count

theorem pieces_length (turns : Nat) (hay : List α) :
    (pieces needles limit turns hay).length ≤ turns := by
  induction turns generalizing hay with
  | zero => exact Nat.le_refl 0
  | succ turns ih =>
      rw [pieces]
      cases cut needles hay with
      | none => exact Nat.zero_le _
      | some nearest =>
          obtain ⟨index, needle⟩ := nearest
          dsimp only
          split
          · exact Nat.succ_le_succ (ih _)
          · exact Nat.zero_le _

/-- Cutting as often as there are items gives all the pieces. -/
theorem pieces_all (named : ∀ needle ∈ needles, needle ≠ []) {turns : Nat} {hay : List α}
    (enough : hay.length ≤ turns) : pieces needles limit turns hay = split needles limit hay := by
  rw [pieces_eq_take named]
  exact List.take_of_length_le (Nat.le_trans (pieces_length hay.length hay) enough)

end FysobEngine.Foundation.Occurrences
