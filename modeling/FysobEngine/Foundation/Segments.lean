import Mathlib.Algebra.Ring.Nat

/-!
# Positions in a list of blocks

A list of blocks stands for the concatenation of its blocks. A position names
a block and an index inside it; its offset is the number of elements before it
in the concatenation. The file also has the two operations on the
concatenation that block code implements: reading a slice and overwriting.
-/

namespace FysobEngine.Foundation.Segments

variable {β : Type _}

/-! ## Slices and overwriting -/

/-- The elements at the offsets `first, ..., last - 1`. -/
def slice (xs : List β) (first last : Nat) : List β :=
  (xs.drop first).take (last - first)

/-- Replace the elements from offset `index` on by `data`. -/
def overwrite (xs : List β) (index : Nat) (data : List β) : List β :=
  xs.take index ++ data ++ xs.drop (index + data.length)

theorem slice_length {xs : List β} {first last : Nat} (bound : last ≤ xs.length) :
    (slice xs first last).length = last - first := by
  simp only [slice, List.length_take, List.length_drop]
  omega

theorem slice_append {xs : List β} {last : Nat} (first : Nat) (ys : List β)
    (bound : last ≤ xs.length) : slice (xs ++ ys) first last = slice xs first last := by
  unfold slice
  rw [List.drop_append, List.take_append]
  have none : last - first - (xs.drop first).length = 0 := by
    rw [List.length_drop]; omega
  rw [none, List.take_zero, List.append_nil]

theorem slice_drop (xs : List β) (first last count : Nat) :
    slice xs (first + count) last = (slice xs first last).drop count := by
  unfold slice
  rw [List.drop_take, List.drop_drop]
  congr 1
  omega

theorem slice_take_count {xs : List β} {first last count : Nat}
    (bound : count ≤ last - first) :
    (slice xs first last).take count = (xs.drop first).take count := by
  unfold slice
  rw [List.take_take]
  congr 1
  omega

/-- Moving a part in front of the slice to the back shifts the slice. -/
theorem slice_rotate {front back : List β} {first last : Nat}
    (before : front.length ≤ first) (bound : last ≤ (front ++ back).length) :
    slice (back ++ front) (first - front.length) (last - front.length) =
      slice (front ++ back) first last := by
  rw [List.length_append] at bound
  rw [slice_append _ _ (by omega)]
  unfold slice
  rw [List.drop_append, List.drop_eq_nil_of_le before, List.nil_append]
  congr 1
  omega

/-- Elements in front of a slice do not matter. -/
theorem slice_behind (xs ys : List β) (first last : Nat) :
    slice (xs ++ ys) (xs.length + first) (xs.length + last) = slice ys first last := by
  unfold slice
  rw [List.drop_length_add_append, Nat.add_sub_add_left]

theorem slice_split (xs : List β) {first middle last : Nat} (left : first ≤ middle)
    (right : middle ≤ last) :
    slice xs first last = slice xs first middle ++ slice xs middle last := by
  unfold slice
  have lengths : last - first = (middle - first) + (last - middle) := by omega
  have place : first + (middle - first) = middle := by omega
  rw [lengths, List.take_add, List.drop_drop, place]

/-- A slice up to the end of the first part. -/
theorem slice_rest (xs ys : List β) (first : Nat) :
    slice (xs ++ ys) first xs.length = xs.drop first := by
  rw [slice_append _ _ (Nat.le_refl _)]
  unfold slice
  apply List.take_of_length_le
  rw [List.length_drop]

theorem overwrite_length {xs data : List β} {index : Nat}
    (bound : index + data.length ≤ xs.length) :
    (overwrite xs index data).length = xs.length := by
  simp only [overwrite, List.length_append, List.length_take, List.length_drop]
  omega

theorem overwrite_append_left {xs data : List β} {index : Nat} (ys : List β)
    (bound : index + data.length ≤ xs.length) :
    overwrite (xs ++ ys) index data = overwrite xs index data ++ ys := by
  unfold overwrite
  rw [List.take_append_of_le_length (by omega), List.drop_append_of_le_length bound]
  simp only [List.append_assoc]

theorem overwrite_append_right (xs : List β) {ys data : List β} (index : Nat) :
    overwrite (xs ++ ys) (xs.length + index) data = xs ++ overwrite ys index data := by
  unfold overwrite
  rw [List.take_length_add_append, Nat.add_assoc, List.drop_length_add_append]
  simp only [List.append_assoc]

/-- Overwriting across a boundary overwrites the end of the first part and the
start of the second. -/
theorem overwrite_across (xs ys first second : List β) (index : Nat)
    (reaches : index + first.length = xs.length) :
    overwrite (xs ++ ys) index (first ++ second) =
      overwrite xs index first ++ overwrite ys 0 second := by
  unfold overwrite
  rw [List.take_append_of_le_length (by omega), reaches, List.drop_length,
    List.length_append, ← Nat.add_assoc, reaches, List.drop_length_add_append,
    List.take_zero, Nat.zero_add]
  simp only [List.append_assoc, List.append_nil, List.nil_append]

theorem overwrite_nil (xs : List β) (index : Nat) : overwrite xs index [] = xs := by
  simp [overwrite]

/-- The element at a place that is written is the one of the data. -/
theorem overwrite_inside {xs data : List β} {index i : Nat} (bound : index ≤ xs.length)
    (inside : i < data.length) : (overwrite xs index data)[index + i]? = data[i]? := by
  have front : (xs.take index).length = index := by
    rw [List.length_take]
    omega
  rw [overwrite, List.append_assoc, List.getElem?_append_right (by omega), front,
    Nat.add_sub_cancel_left, List.getElem?_append_left inside]

/-- The elements at all other places stay. -/
theorem overwrite_outside {xs data : List β} {index i : Nat} (bound : index ≤ xs.length)
    (outside : i < index ∨ index + data.length ≤ i) : (overwrite xs index data)[i]? = xs[i]? := by
  have front : (xs.take index).length = index := by
    rw [List.length_take]
    omega
  rw [overwrite]
  rcases outside with before | behind
  · rw [List.append_assoc, List.getElem?_append_left (by omega), List.getElem?_take_of_lt before]
  · have written : (xs.take index ++ data).length = index + data.length := by
      rw [List.length_append, front]
    rw [List.getElem?_append_right (by omega), written, List.getElem?_drop]
    congr 1
    omega

/-- Reading back what was written. -/
theorem overwrite_read {xs data : List β} {index : Nat} (bound : index ≤ xs.length) :
    ((overwrite xs index data).drop index).take data.length = data := by
  have front : (xs.take index).length = index := by
    rw [List.length_take]
    omega
  have behind : (overwrite xs index data).drop index = data ++ xs.drop (index + data.length) := by
    rw [overwrite, List.append_assoc, List.drop_append_of_le_length (by omega),
      List.drop_of_length_le (by omega), List.nil_append]
  rw [behind, List.take_left]

/-- Writing at the end of a slice extends it by what was written. -/
theorem slice_overwrite {xs data : List β} {first last : Nat} (ordered : first ≤ last)
    (bound : last + data.length ≤ xs.length) :
    slice (overwrite xs last data) first (last + data.length) =
      slice xs first last ++ data := by
  have whole : overwrite xs last data =
      (xs.take last ++ data) ++ xs.drop (last + data.length) := rfl
  have length : (xs.take last ++ data).length = last + data.length := by
    rw [List.length_append, List.length_take]; omega
  rw [whole, slice_append _ _ (Nat.le_of_eq length.symm)]
  unfold slice
  have inside : first ≤ (xs.take last).length := by rw [List.length_take]; omega
  rw [List.drop_append_of_le_length inside, List.drop_take]
  apply List.take_of_length_le
  simp only [List.length_append, List.length_take, List.length_drop]
  omega

theorem modify_middle (f : β → β) (front : List β) (block : β) (back : List β) :
    (front ++ block :: back).modify front.length f = front ++ f block :: back := by
  induction front with
  | nil => rfl
  | cons head rest ih =>
      rw [List.cons_append, List.length_cons, List.modify_succ_cons, ih, List.cons_append]

/-! ## Positions -/

/-- The number of elements before index `index` of block `iter`. -/
def offset (blocks : List (List β)) (iter index : Nat) : Nat :=
  (blocks.take iter).flatten.length + index

/-- The position names an existing block and an index inside it. -/
def Position (blocks : List (List β)) (iter index : Nat) : Prop :=
  ∃ front block back, blocks = front ++ block :: back ∧ front.length = iter ∧
    index < block.length

theorem offset_split {front back : List (List β)} {block : List β} (index : Nat) :
    offset (front ++ block :: back) front.length index = front.flatten.length + index := by
  rw [offset, List.take_left]

theorem offset_append {blocks : List (List β)} {iter : Nat} (index : Nat)
    (more : List (List β)) (bound : iter ≤ blocks.length) :
    offset (blocks ++ more) iter index = offset blocks iter index := by
  unfold offset
  rw [List.take_append_of_le_length bound]

theorem offset_take {blocks : List (List β)} {iter count : Nat} (index : Nat)
    (bound : iter ≤ count) :
    offset (blocks.take count) iter index = offset blocks iter index := by
  unfold offset
  rw [List.take_take, Nat.min_eq_left bound]

theorem Position.iter_lt {blocks : List (List β)} {iter index : Nat}
    (position : Position blocks iter index) : iter < blocks.length := by
  obtain ⟨front, block, back, rfl, rfl, _⟩ := position
  rw [List.length_append, List.length_cons]
  omega

theorem Position.offset_lt {blocks : List (List β)} {iter index : Nat}
    (position : Position blocks iter index) :
    offset blocks iter index < blocks.flatten.length := by
  obtain ⟨front, block, back, rfl, rfl, inside⟩ := position
  rw [offset_split, List.flatten_append, List.flatten_cons]
  simp only [List.length_append]
  omega

theorem Position.block {blocks : List (List β)} {iter index : Nat}
    (position : Position blocks iter index) :
    ∃ block, blocks[iter]? = some block ∧ index < block.length := by
  obtain ⟨front, block, back, rfl, rfl, inside⟩ := position
  refine ⟨block, ?_, inside⟩
  rw [List.getElem?_append_right (Nat.le_refl _), Nat.sub_self, List.getElem?_cons_zero]

theorem Position.append {blocks : List (List β)} {iter index : Nat}
    (position : Position blocks iter index) (more : List (List β)) :
    Position (blocks ++ more) iter index := by
  obtain ⟨front, block, back, rfl, rfl, inside⟩ := position
  exact ⟨front, block, back ++ more, by simp, rfl, inside⟩

theorem Position.take {blocks : List (List β)} {iter index count : Nat}
    (position : Position blocks iter index) (kept : iter < count) :
    Position (blocks.take count) iter index := by
  obtain ⟨front, block, back, rfl, rfl, inside⟩ := position
  refine ⟨front, block, back.take (count - front.length - 1), ?_, rfl, inside⟩
  obtain ⟨extra, rfl⟩ : ∃ extra, count = front.length + (extra + 1) :=
    ⟨count - front.length - 1, by omega⟩
  rw [List.take_length_add_append, List.take_succ_cons]
  congr 3
  omega

/-- A position behind the blocks of `front` is one of the remaining blocks. -/
theorem Position.tail {front back : List (List β)} {iter index : Nat}
    (position : Position (front ++ back) iter index) (behind : front.length ≤ iter) :
    Position back (iter - front.length) index := by
  obtain ⟨left, block, right, split, rfl, inside⟩ := position
  rw [List.append_eq_append_iff] at split
  rcases split with ⟨extra, rfl, rfl⟩ | ⟨extra, leftEq, middle⟩
  · exact ⟨extra, block, right, rfl, by simp, inside⟩
  · -- the named block lies behind `front`, so nothing of `front` is left over
    have none : extra = [] := by
      apply List.eq_nil_of_length_eq_zero
      rw [leftEq, List.length_append] at behind
      omega
    subst none
    rw [List.nil_append] at middle
    rw [List.append_nil] at leftEq
    exact ⟨[], block, right, middle.symm, by simp [leftEq], inside⟩

/-- The blocks of `front` are before every later position. -/
theorem offset_tail (front back : List (List β)) (iter index : Nat)
    (behind : front.length ≤ iter) :
    offset (front ++ back) iter index =
      front.flatten.length + offset back (iter - front.length) index := by
  obtain ⟨extra, rfl⟩ := Nat.exists_eq_add_of_le behind
  unfold offset
  rw [List.take_length_add_append, List.flatten_append, List.length_append,
    Nat.add_sub_cancel_left, Nat.add_assoc]

theorem taken_length_le (blocks : List (List β)) {first last : Nat} (ordered : first ≤ last) :
    (blocks.take first).flatten.length ≤ (blocks.take last).flatten.length := by
  have split := List.take_append_drop first (blocks.take last)
  rw [List.take_take, Nat.min_eq_left ordered] at split
  rw [← split, List.flatten_append, List.length_append]
  exact Nat.le_add_right _ _

/-- An earlier position is in an earlier block or in the same one. -/
theorem Position.iter_le {blocks : List (List β)} {iter index iter' index' : Nat}
    (later : Position blocks iter' index')
    (ordered : offset blocks iter index ≤ offset blocks iter' index') : iter ≤ iter' := by
  obtain ⟨front, block, back, rfl, rfl, inside⟩ := later
  rcases Nat.lt_or_ge front.length iter with past | before
  · have covered := taken_length_le (front ++ block :: back) (Nat.succ_le_of_lt past)
    rw [Nat.succ_eq_add_one, List.take_length_add_append, List.flatten_append,
      List.length_append] at covered
    have first : ((block :: back).take 1).flatten.length = block.length := by simp
    rw [offset_split] at ordered
    unfold offset at ordered
    omega
  · exact before

/-- The offset determines the position. -/
theorem Position.unique {blocks : List (List β)} {iter index iter' index' : Nat}
    (position : Position blocks iter index) (other : Position blocks iter' index')
    (same : offset blocks iter index = offset blocks iter' index') :
    iter = iter' ∧ index = index' := by
  have forth := other.iter_le (Nat.le_of_eq same)
  have back := position.iter_le (Nat.le_of_eq same.symm)
  obtain rfl := Nat.le_antisymm forth back
  exact ⟨rfl, Nat.add_left_cancel same⟩

/-- Positions and offsets depend on the lengths of the blocks only. -/
theorem Position.congr {blocks other : List (List β)} {iter index : Nat}
    (lengths : blocks.map List.length = other.map List.length)
    (position : Position blocks iter index) : Position other iter index := by
  obtain ⟨front, block, back, rfl, rfl, inside⟩ := position
  rw [List.map_append, List.map_cons, eq_comm, List.map_eq_append_iff] at lengths
  obtain ⟨front', rest, rfl, frontLengths, restLengths⟩ := lengths
  obtain ⟨block', back', rfl, blockLength, _⟩ := List.map_eq_cons_iff.mp restLengths
  refine ⟨front', block', back', rfl, ?_, by omega⟩
  simpa using congrArg List.length frontLengths

theorem offset_congr {blocks other : List (List β)}
    (lengths : blocks.map List.length = other.map List.length) (iter index : Nat) :
    offset blocks iter index = offset other iter index := by
  unfold offset
  rw [List.length_flatten, List.length_flatten, List.map_take, List.map_take, lengths]

theorem flatten_length_congr {blocks other : List (List β)}
    (lengths : blocks.map List.length = other.map List.length) :
    blocks.flatten.length = other.flatten.length := by
  rw [List.length_flatten, List.length_flatten, lengths]

/-- Blocks of one length. -/
theorem flatten_length_of_forall {blocks : List (List β)} {size : Nat}
    (uniform : ∀ block ∈ blocks, block.length = size) :
    blocks.flatten.length = blocks.length * size := by
  induction blocks with
  | nil => simp
  | cons block rest ih =>
      rw [List.flatten_cons, List.length_append, uniform block (List.mem_cons_self ..),
        ih fun other member => uniform other (List.mem_cons_of_mem _ member),
        List.length_cons, Nat.succ_mul, Nat.add_comm]

/-- With blocks of one length the offset determines the block. -/
theorem Position.offset_uniform {blocks : List (List β)} {iter index size : Nat}
    (position : Position blocks iter index)
    (uniform : ∀ block ∈ blocks, block.length = size) :
    offset blocks iter index = iter * size + index ∧ index < size := by
  obtain ⟨front, block, back, rfl, rfl, inside⟩ := position
  rw [offset_split, flatten_length_of_forall fun other member =>
    uniform other (List.mem_append_left _ member)]
  refine ⟨rfl, ?_⟩
  rw [← uniform block (List.mem_append_right _ (List.mem_cons_self ..))]
  exact inside

end FysobEngine.Foundation.Segments
