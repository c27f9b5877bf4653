import Mathlib.Logic.Equiv.Basic

/-!
# Objects that own a cell

Every object has one pointer, to a cell of the heap or to nothing. When each cell has
one owner, an object may be read as the value in its cell, and what happens to one
object is not seen through another.
-/

namespace FysobEngine.Foundation.Ownership

variable {κ α : Type _}

/-- The values of the objects that live. An object without a cell has none. -/
abbrev Values (κ α : Type _) := κ → Option (Option α)

/-- The heap and the pointers of the objects that live. Addresses from `next` on have
not been given out. -/
structure Memory (κ α : Type _) where
  heap : Nat → Option α
  next : Nat
  pointer : κ → Option (Option Nat)

namespace Values

variable [DecidableEq κ] (v : Values κ α)

/-- An object is made, which has a value or none. -/
def make (k : κ) (value : Option α) : Option (Values κ α) :=
  if v k = none then some (Function.update v k (some value)) else none

/-- An object is made with the value of another, which keeps none. -/
def take (k j : κ) : Option (Values κ α) :=
  if v k = none then
    (v j).map fun value => Function.update (Function.update v k (some value)) j (some none)
  else none

/-- Two objects exchange their values. -/
def exchange (j k : κ) : Option (Values κ α) :=
  if v j = none ∨ v k = none then none
  else some (Function.update (Function.update v j (v k)) k (v j))

/-- An object is destroyed. -/
def release (k : κ) : Option (Values κ α) :=
  (v k).map fun _ => Function.update v k none

/-- A value that an object has is overwritten. -/
def put (k : κ) (a : α) : Option (Values κ α) :=
  (v k).bind fun value => value.map fun _ => Function.update v k (some (some a))

end Values

namespace Memory

variable [DecidableEq κ] (m : Memory κ α)

/-- No object lives, and no cell. -/
def bare : Memory κ α := ⟨fun _ => none, 0, fun _ => none⟩

/-- What the objects are read as. -/
def values : Values κ α := fun k => (m.pointer k).map fun address => address.bind m.heap

/-- An object is made without a cell. -/
def empty (k : κ) : Option (Memory κ α) :=
  if m.pointer k = none then some { m with pointer := Function.update m.pointer k (some none) }
  else none

/-- An object is made with a new cell. -/
def fill (k : κ) (a : α) : Option (Memory κ α) :=
  if m.pointer k = none then
    some {
      heap := Function.update m.heap m.next (some a)
      next := m.next + 1
      pointer := Function.update m.pointer k (some (some m.next)) }
  else none

/-- An object is made with the pointer of another, which keeps none. -/
def take (k j : κ) : Option (Memory κ α) :=
  if m.pointer k = none then
    (m.pointer j).map fun address =>
      { m with
        pointer := Function.update (Function.update m.pointer k (some address)) j (some none) }
  else none

/-- Two objects exchange their pointers. -/
def exchange (j k : κ) : Option (Memory κ α) :=
  if m.pointer j = none ∨ m.pointer k = none then none
  else some { m with
    pointer := Function.update (Function.update m.pointer j (m.pointer k)) k (m.pointer j) }

/-- A cell is deleted. It has to be there. -/
def delete : Option Nat → Option (Memory κ α)
  | none => some m
  | some address => (m.heap address).map fun _ =>
      { m with heap := Function.update m.heap address none }

/-- An object is destroyed, with its cell. -/
def release (k : κ) : Option (Memory κ α) := do
  let address ← m.pointer k
  let m ← m.delete address
  some { m with pointer := Function.update m.pointer k none }

/-- The cell of an object is overwritten. -/
def put (k : κ) (a : α) : Option (Memory κ α) := do
  let address ← m.pointer k
  let address ← address
  let _ ← m.heap address
  some { m with heap := Function.update m.heap address (some a) }

omit [DecidableEq κ] in
/-- The cell of an object, if the object lives and has one. -/
def target (k : κ) : Option Nat := (m.pointer k).join

end Memory

/-- Every cell has one owner, and every owner has its cell. -/
structure Owns (heap : Nat → Option α) (next : Nat) (target : κ → Option Nat) : Prop where
  alone {j k : κ} {address : Nat} :
    target j = some address → target k = some address → j = k
  there {k : κ} {address : Nat} : target k = some address → ∃ a, heap address = some a
  owner {address : Nat} {a : α} : heap address = some a → ∃ k, target k = some address
  below {address : Nat} {a : α} : heap address = some a → address < next

namespace Owns

variable {heap : Nat → Option α} {next : Nat} {target : κ → Option Nat}

/-- The cells may change their owners. -/
theorem renamed (owns : Owns heap next target) (name : κ ≃ κ) :
    Owns heap next (target ∘ name) where
  alone first second := name.injective (owns.alone first second)
  there found := owns.there found
  owner found := by
    obtain ⟨k, here⟩ := owns.owner found
    exact ⟨name.symm k, (congrArg target (name.apply_symm_apply k)).trans here⟩
  below := owns.below

theorem put (owns : Owns heap next target) {address : Nat} {b : α} (there : heap address = some b)
    (a : α) : Owns (Function.update heap address (some a)) next target := by
  have kept {other : Nat} {c : α} (found : Function.update heap address (some a) other = some c) :
      ∃ c, heap other = some c := by
    by_cases same : other = address
    · exact ⟨b, same ▸ there⟩
    · exact ⟨c, (Function.update_of_ne same _ _).symm.trans found⟩
  refine ⟨owns.alone, fun {_ other} found => ?_, fun found => ?_, fun found => ?_⟩
  · by_cases same : other = address
    · exact ⟨a, by rw [same, Function.update_self]⟩
    · obtain ⟨c, before⟩ := owns.there found
      exact ⟨c, (Function.update_of_ne same _ _).trans before⟩
  · obtain ⟨c, before⟩ := kept found
    exact owns.owner before
  · obtain ⟨c, before⟩ := kept found
    exact owns.below before

variable [DecidableEq κ]

theorem unset (owns : Owns heap next target) {k : κ} (bare : target k = none) :
    Owns heap next (Function.update target k none) := by
  rwa [Function.update_eq_self_iff.mpr bare.symm]

/-- An object without a cell gets a new one. -/
theorem fill (owns : Owns heap next target) {k : κ} (bare : target k = none) (a : α) :
    Owns (Function.update heap next (some a)) (next + 1)
      (Function.update target k (some next)) := by
  have old {j : κ} {address : Nat} (found : target j = some address) : address ≠ next := by
    obtain ⟨b, there⟩ := owns.there found
    exact Nat.ne_of_lt (owns.below there)
  have others {j : κ} (other : j ≠ k) :
      Function.update target k (some next) j = target j := Function.update_of_ne other _ _
  have own : Function.update target k (some next) k = some next := Function.update_self _ _ _
  refine ⟨fun {i j address} first second => ?_, fun {j address} found => ?_,
    fun {address b} found => ?_, fun {address b} found => ?_⟩
  · by_cases fresh : address = next
    · have only {i : κ} (found : Function.update target k (some next) i = some address) :
          i = k := by
        by_contra other
        exact old ((others other).symm.trans found) fresh
      exact (only first).trans (only second).symm
    · have before {i : κ} (found : Function.update target k (some next) i = some address) :
          target i = some address := by
        by_cases same : i = k
        · rw [same, own] at found
          exact absurd (Option.some.inj found).symm fresh
        · exact (others same).symm.trans found
      exact owns.alone (before first) (before second)
  · by_cases same : j = k
    · rw [same, own] at found
      cases found
      exact ⟨a, Function.update_self _ _ _⟩
    · rw [others same] at found
      obtain ⟨b, there⟩ := owns.there found
      exact ⟨b, (Function.update_of_ne (old found) _ _).trans there⟩
  · by_cases fresh : address = next
    · exact ⟨k, fresh ▸ own⟩
    · rw [Function.update_of_ne fresh] at found
      obtain ⟨j, here⟩ := owns.owner found
      have other : j ≠ k := by
        rintro rfl
        rw [bare] at here
        cases here
      exact ⟨j, (others other).trans here⟩
  · by_cases fresh : address = next
    · exact fresh ▸ Nat.lt_succ_self _
    · rw [Function.update_of_ne fresh] at found
      exact Nat.lt_succ_of_lt (owns.below found)

/-- An object loses its cell. -/
theorem release (owns : Owns heap next target) {k : κ} {address : Nat}
    (own : target k = some address) :
    Owns (Function.update heap address none) next (Function.update target k none) := by
  have others {j : κ} {other : Nat} (found : Function.update target k none j = some other) :
      target j = some other ∧ other ≠ address := by
    by_cases same : j = k
    · rw [same, Function.update_self] at found
      cases found
    · rw [Function.update_of_ne same] at found
      exact ⟨found, fun there => same (owns.alone (there ▸ found) own)⟩
  have kept {other : Nat} {a : α} (found : Function.update heap address none other = some a) :
      heap other = some a ∧ other ≠ address := by
    by_cases same : other = address
    · rw [same, Function.update_self] at found
      cases found
    · exact ⟨(Function.update_of_ne same _ _).symm.trans found, same⟩
  refine ⟨fun first second => owns.alone (others first).1 (others second).1, fun found => ?_,
    fun found => ?_, fun found => owns.below (kept found).1⟩
  · obtain ⟨before, apart⟩ := others found
    obtain ⟨a, there⟩ := owns.there before
    exact ⟨a, (Function.update_of_ne apart _ _).trans there⟩
  · obtain ⟨before, apart⟩ := kept found
    obtain ⟨j, here⟩ := owns.owner before
    have other : j ≠ k := by
      rintro rfl
      exact apart (Option.some.inj (here.symm.trans own))
    exact ⟨j, (Function.update_of_ne other _ _).trans here⟩

end Owns

namespace Memory

variable [DecidableEq κ]

/-- Every cell has one owner, and every owner has its cell. -/
def Owned (m : Memory κ α) : Prop := Owns m.heap m.next m.target

/-- A step on the memory does what the step on the values does. -/
structure Does (m' : Option (Memory κ α)) (v' : Option (Values κ α)) : Prop where
  same : m'.map values = v'
  owned {m : Memory κ α} : m' = some m → Owned m

omit [DecidableEq κ] in
theorem bare_owned : Owned (bare : Memory κ α) where
  alone found := (Option.some_ne_none _ found.symm).elim
  there found := (Option.some_ne_none _ found.symm).elim
  owner found := (Option.some_ne_none _ found.symm).elim
  below found := (Option.some_ne_none _ found.symm).elim

omit [DecidableEq κ] in
theorem Owned.does {m : Memory κ α} (owned : Owned m) : Does (some m) (some m.values) :=
  ⟨rfl, fun same => Option.some.inj same ▸ owned⟩

omit [DecidableEq κ] in
theorem Does.none : Does (none : Option (Memory κ α)) none :=
  ⟨rfl, fun impossible => (Option.some_ne_none _ impossible.symm).elim⟩

omit [DecidableEq κ] in
/-- Steps that do the same may follow each other. -/
theorem Does.bind {m' : Option (Memory κ α)} {v' : Option (Values κ α)} (does : Does m' v')
    {f : Memory κ α → Option (Memory κ α)} {g : Values κ α → Option (Values κ α)}
    (next : ∀ m, Owned m → Does (f m) (g m.values)) : Does (m'.bind f) (v'.bind g) := by
  cases m' with
  | none =>
      rw [← does.same]
      exact .none
  | some m =>
      rw [← does.same]
      exact next m (does.owned rfl)

variable {m : Memory κ α} {k : κ}

omit [DecidableEq κ] in
theorem values_none : m.values k = none ↔ m.pointer k = none :=
  Option.map_eq_none_iff

theorem values_moved (heap : Nat → Option α) (next : Nat) (pointer : κ → Option (Option Nat))
    (k : κ) (address : Option (Option Nat)) :
    values ⟨heap, next, Function.update pointer k address⟩ =
      Function.update (values ⟨heap, next, pointer⟩) k (address.map fun address =>
        address.bind heap) := by
  funext j
  by_cases same : j = k
  · subst same
    simp only [values, Function.update_self]
  · simp only [values, Function.update_of_ne same]

theorem target_moved (heap : Nat → Option α) (next : Nat) (pointer : κ → Option (Option Nat))
    (k : κ) (address : Option (Option Nat)) :
    target ⟨heap, next, Function.update pointer k address⟩ =
      Function.update (target ⟨heap, next, pointer⟩) k address.join := by
  funext j
  by_cases same : j = k
  · subst same
    simp only [target, Function.update_self]
  · simp only [target, Function.update_of_ne same]

/-! ## Objects are made -/

theorem empty_does (owned : Owned m) (k : κ) : Does (m.empty k) (m.values.make k none) := by
  unfold empty Values.make
  by_cases new : m.pointer k = none
  · rw [if_pos new, if_pos (values_none.mpr new)]
    refine ⟨congrArg some (values_moved _ _ _ _ _), fun same => ?_⟩
    cases same
    unfold Owned
    rw [target_moved]
    exact owned.unset (congrArg Option.join new)
  · rw [if_neg new, if_neg (mt values_none.mp new)]
    exact .none

theorem fill_does (owned : Owned m) (k : κ) (a : α) :
    Does (m.fill k a) (m.values.make k (some a)) := by
  unfold fill Values.make
  by_cases new : m.pointer k = none
  · rw [if_pos new, if_pos (values_none.mpr new)]
    refine ⟨congrArg some (funext fun j => ?_), fun same => ?_⟩
    · by_cases same : j = k
      · subst same
        simp only [values, Function.update_self, Option.map_some, Option.bind_some]
      · simp only [values, Function.update_of_ne same]
        refine Option.map_congr fun address here => ?_
        cases address with
        | none => rfl
        | some address =>
            obtain ⟨b, there⟩ := owned.there (congrArg Option.join here)
            exact Function.update_of_ne (Nat.ne_of_lt (owned.below there)) _ _
    · cases same
      have bare : m.target k = none := congrArg Option.join new
      unfold Owned
      rw [target_moved]
      exact owned.fill bare a
  · rw [if_neg new, if_neg (mt values_none.mp new)]
    exact .none

theorem take_does (owned : Owned m) (k j : κ) : Does (m.take k j) (m.values.take k j) := by
  unfold take Values.take
  by_cases new : m.pointer k = none
  · rw [if_pos new, if_pos (values_none.mpr new)]
    cases from' : m.pointer j with
    | none =>
        rw [values_none.mpr from']
        exact .none
    | some address =>
        have value : m.values j = some (address.bind m.heap) := congrArg (Option.map _) from'
        rw [value]
        refine ⟨congrArg some ?_, fun same => ?_⟩
        · rw [values_moved, values_moved]
          rfl
        · cases same
          have bare : m.target k = none := congrArg Option.join new
          have own : m.target j = address := congrArg Option.join from'
          have renamed := owned.renamed (Equiv.swap j k)
          rw [Equiv.comp_swap_eq_update, own, bare] at renamed
          unfold Owned
          rw [target_moved, target_moved]
          exact renamed
  · rw [if_neg new, if_neg (mt values_none.mp new)]
    exact .none

/-! ## Objects change -/

theorem exchange_does (owned : Owned m) (j k : κ) :
    Does (m.exchange j k) (m.values.exchange j k) := by
  unfold exchange Values.exchange
  simp only [values_none]
  by_cases dead : m.pointer j = none ∨ m.pointer k = none
  · rw [if_pos dead, if_pos dead]
    exact .none
  · rw [if_neg dead, if_neg dead]
    refine ⟨congrArg some ?_, fun same => ?_⟩
    · rw [values_moved, values_moved]
      rfl
    · cases same
      unfold Owned
      rw [target_moved, target_moved]
      have renamed := owned.renamed (Equiv.swap k j)
      rw [Equiv.comp_swap_eq_update] at renamed
      exact renamed

omit [DecidableEq κ] in
/-- The cell of one object is no other's. -/
theorem heap_of_other {address : Nat} (owned : Owned m) (here : m.pointer k = some (some address))
    (cell : Option α) {j : κ} (other : j ≠ k) :
    ((m.pointer j).map fun address' => address'.bind (Function.update m.heap address cell)) =
      m.values j := by
  refine Option.map_congr fun address' there => ?_
  cases address' with
  | none => rfl
  | some address' =>
      refine Function.update_of_ne ?_ _ _
      rintro rfl
      exact other (owned.alone (congrArg Option.join there) (congrArg Option.join here))

theorem release_does (owned : Owned m) (k : κ) : Does (m.release k) (m.values.release k) := by
  unfold release Values.release
  cases here : m.pointer k with
  | none =>
      rw [values_none.mpr here]
      exact .none
  | some address =>
      have value : m.values k = some (address.bind m.heap) := congrArg (Option.map _) here
      rw [value]
      cases address with
      | none =>
          refine ⟨congrArg some (values_moved _ _ _ _ _), fun same => ?_⟩
          cases same
          unfold Owned
          rw [target_moved]
          exact owned.unset (congrArg Option.join here)
      | some address =>
          have own : m.target k = some address := congrArg Option.join here
          obtain ⟨a, there⟩ := owned.there own
          have deleted : m.delete (some address) =
              some { m with heap := Function.update m.heap address none } :=
            congrArg (Option.map _) there
          dsimp only [Option.bind_eq_bind, Option.bind_some]
          rw [deleted]
          refine ⟨congrArg some (funext fun j => ?_), fun same => ?_⟩
          · by_cases same : j = k
            · subst same
              simp only [values, Function.update_self, Option.map_none]
            · simp only [values, Function.update_of_ne same]
              exact heap_of_other owned here none same
          · cases same
            unfold Owned
            rw [target_moved]
            exact owned.release own

theorem put_does (owned : Owned m) (k : κ) (a : α) : Does (m.put k a) (m.values.put k a) := by
  unfold put Values.put
  cases here : m.pointer k with
  | none =>
      rw [values_none.mpr here]
      exact .none
  | some address =>
      have value : m.values k = some (address.bind m.heap) := congrArg (Option.map _) here
      rw [value]
      cases address with
      | none => exact .none
      | some address =>
          have own : m.target k = some address := congrArg Option.join here
          obtain ⟨b, there⟩ := owned.there own
          dsimp only [Option.bind_eq_bind, Option.bind_some]
          rw [there]
          refine ⟨congrArg some (funext fun j => ?_), fun same => ?_⟩
          · by_cases same : j = k
            · subst same
              simp only [values, here, Function.update_self, Option.map_some, Option.bind_some]
            · simp only [values, Function.update_of_ne same]
              exact heap_of_other owned here (some a) same
          · cases same
            exact owned.put there a

end Memory

end FysobEngine.Foundation.Ownership
