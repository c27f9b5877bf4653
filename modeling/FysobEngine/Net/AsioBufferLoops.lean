import FysobEngine.Net.AsioBuffer

/-!
# The block loops of `asio_buffer`

Index advance, the copy loops of `append` and `peek` and the filling of
`mutable_buffer()` are described on the concatenation of the blocks. Every
loop succeeds exactly when the bytes it runs over end before the last byte of
the list, which is the case in which no iterator reaches `end()`.
-/

namespace FysobEngine.Net.AsioBuffer

open Foundation.Segments

/-! ## Index advance -/

theorem adjustIndexLoop_some {blocks : List DataBlock} (iter : Nat) {len : Nat}
    (bound : len < blocks.flatten.length) :
    ∃ i j, adjustIndexLoop blocks iter len = some (iter + i, j) ∧
      Position blocks i j ∧ offset blocks i j = len := by
  induction blocks generalizing iter len with
  | nil => simp at bound
  | cons block rest ih =>
      rw [List.flatten_cons, List.length_append] at bound
      by_cases past : block.length ≤ len
      · obtain ⟨i, j, found, position, place⟩ :=
          ih (iter + 1) (show len - block.length < rest.flatten.length by omega)
        refine ⟨i + 1, j, ?_, ?_, ?_⟩
        · rw [adjustIndexLoop, if_pos past, found, Nat.add_assoc, Nat.add_comm 1]
        · obtain ⟨front, named, back, split, count, inside⟩ := position
          exact ⟨block :: front, named, back, by rw [split]; rfl, by simp [count], inside⟩
        · unfold offset at place ⊢
          rw [List.take_succ_cons, List.flatten_cons, List.length_append]
          omega
      · refine ⟨0, len, ?_, ⟨[], block, rest, rfl, rfl, by omega⟩, ?_⟩
        · rw [adjustIndexLoop, if_neg past, Nat.add_zero]
        · simp [offset]

theorem adjustIndexLoop_none {blocks : List DataBlock} (iter : Nat) {len : Nat}
    (bound : blocks.flatten.length ≤ len) : adjustIndexLoop blocks iter len = none := by
  induction blocks generalizing iter len with
  | nil => rfl
  | cons block rest ih =>
      rw [List.flatten_cons, List.length_append] at bound
      rw [adjustIndexLoop, if_pos (by omega)]
      exact ih (iter + 1) (by omega)

/-- `adjust_index` reaches the normalised position `len` bytes further on. -/
theorem adjustIndex_some {buffer : List DataBlock} {iter index len : Nat}
    (position : Position buffer iter index)
    (bound : offset buffer iter index + len < buffer.flatten.length) :
    ∃ i j, adjustIndex buffer len iter index = some (i, j) ∧ Position buffer i j ∧
      offset buffer i j = offset buffer iter index + len := by
  obtain ⟨front, block, back, rfl, rfl, inside⟩ := position
  rw [offset_split] at bound ⊢
  rw [List.flatten_append, List.flatten_cons, List.length_append, List.length_append] at bound
  unfold adjustIndex
  rw [List.drop_left]
  by_cases within : block.length - index > len
  · refine ⟨front.length, index + len, by simp only [if_pos within], ?_, ?_⟩
    · exact ⟨front, block, back, rfl, rfl, by omega⟩
    · rw [offset_split, Nat.add_assoc]
  · obtain ⟨i, j, found, position, place⟩ :=
      adjustIndexLoop_some (front.length + 1)
        (show len - (block.length - index) < back.flatten.length by omega)
    refine ⟨front.length + 1 + i, j, by simp only [if_neg within, found], ?_, ?_⟩
    · obtain ⟨middle, named, rest, rfl, rfl, insideNamed⟩ := position
      exact ⟨front ++ block :: middle, named, rest, by simp, by simp; omega, insideNamed⟩
    · unfold offset at place ⊢
      have reached : (front ++ block :: back).take (front.length + 1 + i) =
          front ++ block :: back.take i := by
        rw [Nat.add_assoc, Nat.add_comm 1, List.take_length_add_append, List.take_succ_cons]
      rw [reached, List.flatten_append, List.flatten_cons, List.length_append,
        List.length_append]
      omega

/-- With no byte left behind the target, `adjust_index` dereferences `end()`. -/
theorem adjustIndex_none {buffer : List DataBlock} {iter index len : Nat}
    (position : Position buffer iter index)
    (bound : buffer.flatten.length ≤ offset buffer iter index + len) :
    adjustIndex buffer len iter index = none := by
  obtain ⟨front, block, back, rfl, rfl, inside⟩ := position
  rw [offset_split, List.flatten_append, List.flatten_cons, List.length_append,
    List.length_append] at bound
  unfold adjustIndex
  rw [List.drop_left]
  simp only [if_neg (show ¬ block.length - index > len by omega)]
  exact adjustIndexLoop_none _ (by omega)

/-- An iterator of an erased node names no block. -/
theorem adjustIndex_past {buffer : List DataBlock} {iter : Nat} (past : buffer.length ≤ iter)
    (len index : Nat) : adjustIndex buffer len iter index = none := by
  rw [adjustIndex, List.drop_eq_nil_of_le past]

/-! ## Copying in -/

theorem appendLoop_some (blocks : List DataBlock) (data : List UInt8)
    (bound : data.length < blocks.flatten.length) :
    ∃ stored, appendLoop blocks data = some stored ∧
      stored.map List.length = blocks.map List.length ∧
      stored.flatten = overwrite blocks.flatten 0 data := by
  induction blocks generalizing data with
  | nil => simp at bound
  | cons block rest ih =>
      rw [List.flatten_cons, List.length_append] at bound
      by_cases past : block.length ≤ data.length
      · have taken : (data.take block.length).length = block.length := by
          rw [List.length_take]; omega
        obtain ⟨stored, found, lengths, bytes⟩ :=
          ih (data.drop block.length) (by rw [List.length_drop]; omega)
        refine ⟨overwrite block 0 (data.take block.length) :: stored, ?_, ?_, ?_⟩
        · rw [appendLoop, if_pos past, found, Option.map_some]
        · rw [List.map_cons, List.map_cons, lengths, overwrite_length (by omega)]
        · rw [List.flatten_cons, bytes, List.flatten_cons]
          have across := overwrite_across block rest.flatten (data.take block.length)
            (data.drop block.length) 0 (by omega)
          rw [List.take_append_drop] at across
          exact across.symm
      · refine ⟨overwrite block 0 data :: rest, ?_, ?_, ?_⟩
        · rw [appendLoop, if_neg past]
        · rw [List.map_cons, List.map_cons, overwrite_length (by omega)]
        · rw [List.flatten_cons, List.flatten_cons, overwrite_append_left _ (by omega)]

theorem appendLoop_none {blocks : List DataBlock} {data : List UInt8}
    (bound : blocks.flatten.length ≤ data.length) : appendLoop blocks data = none := by
  induction blocks generalizing data with
  | nil => rfl
  | cons block rest ih =>
      rw [List.flatten_cons, List.length_append] at bound
      rw [appendLoop, if_pos (by omega), ih (by rw [List.length_drop]; omega), Option.map_none]

/-- The copy loop of `append` overwrites the concatenation from the position on
and leaves the shape of the list alone. -/
theorem appendCopy_some {buffer : List DataBlock} {iter index : Nat} {data : List UInt8}
    (position : Position buffer iter index)
    (bound : offset buffer iter index + data.length < buffer.flatten.length) :
    ∃ stored, appendCopy buffer iter index data = some stored ∧
      stored.map List.length = buffer.map List.length ∧
      stored.flatten = overwrite buffer.flatten (offset buffer iter index) data := by
  obtain ⟨front, block, back, rfl, rfl, inside⟩ := position
  rw [offset_split] at bound ⊢
  rw [List.flatten_append, List.flatten_cons, List.length_append, List.length_append] at bound
  unfold appendCopy
  rw [List.drop_left, List.take_left, List.flatten_append, List.flatten_cons,
    overwrite_append_right]
  dsimp only
  by_cases within : block.length - index > data.length
  · refine ⟨front ++ overwrite block index data :: back, by rw [if_pos within], ?_, ?_⟩
    · simp only [List.map_append, List.map_cons]
      rw [overwrite_length (by omega)]
    · rw [List.flatten_append, List.flatten_cons, overwrite_append_left _ (by omega)]
  · have taken : (data.take (block.length - index)).length = block.length - index := by
      rw [List.length_take]; omega
    obtain ⟨stored, found, lengths, bytes⟩ :=
      appendLoop_some back (data.drop (block.length - index)) (by rw [List.length_drop]; omega)
    refine ⟨front ++ overwrite block index (data.take (block.length - index)) :: stored,
      by rw [if_neg within, found, Option.map_some], ?_, ?_⟩
    · simp only [List.map_append, List.map_cons, lengths]
      rw [overwrite_length (by omega)]
    · rw [List.flatten_append, List.flatten_cons, bytes]
      have across := overwrite_across block back.flatten (data.take (block.length - index))
        (data.drop (block.length - index)) index (by omega)
      rw [List.take_append_drop] at across
      rw [across]

theorem appendCopy_none {buffer : List DataBlock} {iter index : Nat} {data : List UInt8}
    (position : Position buffer iter index)
    (bound : buffer.flatten.length ≤ offset buffer iter index + data.length) :
    appendCopy buffer iter index data = none := by
  obtain ⟨front, block, back, rfl, rfl, inside⟩ := position
  rw [offset_split, List.flatten_append, List.flatten_cons, List.length_append,
    List.length_append] at bound
  unfold appendCopy
  rw [List.drop_left]
  dsimp only
  rw [if_neg (by omega), appendLoop_none (by rw [List.length_drop]; omega), Option.map_none]

theorem appendCopy_past {buffer : List DataBlock} {iter : Nat} (past : buffer.length ≤ iter)
    (index : Nat) (data : List UInt8) : appendCopy buffer iter index data = none := by
  rw [appendCopy, List.drop_eq_nil_of_le past]

/-! ## Copying out -/

theorem peekLoop_some {blocks : List DataBlock} {len : Nat}
    (bound : len < blocks.flatten.length) :
    peekLoop blocks len = some (blocks.flatten.take len) := by
  induction blocks generalizing len with
  | nil => simp at bound
  | cons block rest ih =>
      rw [List.flatten_cons, List.length_append] at bound
      rw [peekLoop, List.flatten_cons, List.take_append]
      by_cases past : block.length ≤ len
      · rw [if_pos past, ih (by omega), Option.map_some, List.take_of_length_le past]
      · rw [if_neg past, show len - block.length = 0 by omega, List.take_zero,
          List.append_nil]

/-- The copy loop of `peek` returns the bytes from the position on. -/
theorem peekCopy_some {buffer : List DataBlock} {iter index len : Nat}
    (position : Position buffer iter index)
    (bound : offset buffer iter index + len < buffer.flatten.length) :
    peekCopy buffer iter index len =
      some ((buffer.flatten.drop (offset buffer iter index)).take len) := by
  obtain ⟨front, block, back, rfl, rfl, inside⟩ := position
  rw [offset_split] at bound ⊢
  rw [List.flatten_append, List.flatten_cons, List.length_append, List.length_append] at bound
  unfold peekCopy
  rw [List.drop_left, List.flatten_append, List.flatten_cons, List.drop_length_add_append,
    List.drop_append_of_le_length (by omega), List.take_append, List.length_drop]
  dsimp only
  by_cases within : block.length - index > len
  · rw [if_pos within, show len - (block.length - index) = 0 by omega, List.take_zero,
      List.append_nil]
  · rw [if_neg within, peekLoop_some (by omega), Option.map_some,
      List.take_of_length_le (l := block.drop index) (by rw [List.length_drop]; omega)]

/-! ## The three loops -/

/-- The advance by `len` bytes, the copy loop of `append` and that of `peek` place the
blocks' boundaries alike. -/
structure LoopsAgree (buffer : List DataBlock) (iter index len : Nat) : Prop where
  advance : ∃ i j, adjustIndex buffer len iter index = some (i, j) ∧ Position buffer i j ∧
    offset buffer i j = offset buffer iter index + len ∧
    ∀ i' j', Position buffer i' j' → offset buffer i' j' = offset buffer iter index + len →
      i' = i ∧ j' = j
  store : ∀ data : List UInt8, data.length = len → ∃ stored,
    appendCopy buffer iter index data = some stored ∧
      stored.map List.length = buffer.map List.length ∧
      (∀ i < len, stored.flatten[offset buffer iter index + i]? = data[i]?) ∧
      (∀ place, place < offset buffer iter index ∨ offset buffer iter index + len ≤ place →
        stored.flatten[place]? = buffer.flatten[place]?) ∧
      peekCopy stored iter index len = some data
  load : ∃ data, peekCopy buffer iter index len = some data ∧ data.length = len ∧
    ∀ i < len, data[i]? = buffer.flatten[offset buffer iter index + i]?

/-- The copy loop of `peek` reads back what that of `append` has stored. -/
theorem peekCopy_appendCopy {buffer stored : List DataBlock} {iter index : Nat}
    {data : List UInt8} (position : Position buffer iter index)
    (bound : offset buffer iter index + data.length < buffer.flatten.length)
    (lengths : stored.map List.length = buffer.map List.length)
    (bytes : stored.flatten = overwrite buffer.flatten (offset buffer iter index) data) :
    peekCopy stored iter index data.length = some data := by
  have place := offset_congr lengths iter index
  have room : offset stored iter index + data.length < stored.flatten.length := by
    rw [place, flatten_length_congr lengths]
    exact bound
  rw [peekCopy_some (position.congr lengths.symm) room, place, bytes,
    overwrite_read (by omega)]

theorem loops_agree {buffer : List DataBlock} {iter index len : Nat}
    (position : Position buffer iter index)
    (bound : offset buffer iter index + len < buffer.flatten.length) :
    LoopsAgree buffer iter index len where
  advance := by
    obtain ⟨i, j, found, reached, place⟩ := adjustIndex_some position bound
    refine ⟨i, j, found, reached, place, fun i' j' other same => ?_⟩
    exact other.unique reached (same.trans place.symm)
  store := by
    rintro data rfl
    obtain ⟨stored, copied, lengths, bytes⟩ := appendCopy_some position bound
    refine ⟨stored, copied, lengths, fun i inside => ?_, fun place outside => ?_, ?_⟩
    · rw [bytes, overwrite_inside (by omega) inside]
    · rw [bytes, overwrite_outside (by omega) outside]
    · exact peekCopy_appendCopy position bound lengths bytes
  load := by
    refine ⟨_, peekCopy_some position bound, ?_, fun i inside => ?_⟩
    · rw [List.length_take, List.length_drop]
      omega
    · rw [List.getElem?_take_of_lt inside, List.getElem?_drop]

/-- A write that ends on the edge of a block and reads back. -/
theorem loops_agree_edge : LoopsAgree [[1, 2, 3], [4, 5], [6]] 0 1 4 :=
  loops_agree ⟨[], [1, 2, 3], [[4, 5], [6]], rfl, rfl, by decide⟩ (by decide)

/-! ## Writable segments -/

theorem wholeSegments_length (iter : Nat) (blocks : List DataBlock) :
    segmentsLength (wholeSegments iter blocks) = blocks.flatten.length := by
  induction blocks generalizing iter with
  | nil => rfl
  | cons block rest ih =>
      have tail := ih (iter + 1)
      unfold segmentsLength at tail ⊢
      rw [wholeSegments, List.map_cons, List.sum_cons, tail, List.flatten_cons,
        List.length_append]

/-- The segments from a position on cover the bytes up to the end of the list. -/
theorem segmentsFrom_length {buffer : List DataBlock} {iter index : Nat}
    (position : Position buffer iter index) :
    segmentsLength (segmentsFrom buffer iter index) =
      buffer.flatten.length - offset buffer iter index := by
  obtain ⟨front, block, back, rfl, rfl, inside⟩ := position
  have tail := wholeSegments_length (front.length + 1) back
  unfold segmentsLength at tail ⊢
  rw [offset_split, segmentsFrom, List.drop_left]
  dsimp only
  rw [List.map_cons, List.sum_cons, tail, List.flatten_append, List.flatten_cons,
    List.length_append, List.length_append]
  dsimp only
  omega

theorem fillSegments_whole (front back : List DataBlock) (data : List UInt8)
    (bound : data.length ≤ back.flatten.length) :
    ∃ stored, fillSegments (wholeSegments front.length back) data (front ++ back) =
        front ++ stored ∧
      stored.map List.length = back.map List.length ∧
      stored.flatten = overwrite back.flatten 0 data := by
  induction back generalizing front data with
  | nil =>
      rw [List.flatten_nil, List.length_nil, Nat.le_zero] at bound
      rw [List.eq_nil_of_length_eq_zero bound]
      exact ⟨[], rfl, rfl, rfl⟩
  | cons block rest ih =>
      rw [List.flatten_cons, List.length_append] at bound
      obtain ⟨stored, found, lengths, bytes⟩ :=
        ih (front ++ [overwrite block 0 (data.take block.length)])
          (data.drop block.length) (by rw [List.length_drop]; omega)
      have kept : (overwrite block 0 (data.take block.length)).length = block.length :=
        overwrite_length (by rw [List.length_take]; omega)
      refine ⟨overwrite block 0 (data.take block.length) :: stored, ?_, ?_, ?_⟩
      · rw [wholeSegments, fillSegments, modify_middle]
        simpa using found
      · rw [List.map_cons, List.map_cons, lengths, kept]
      · rw [List.flatten_cons, bytes, List.flatten_cons]
        by_cases past : block.length ≤ data.length
        · have across := overwrite_across block rest.flatten (data.take block.length)
            (data.drop block.length) 0 (by rw [List.length_take]; omega)
          rw [List.take_append_drop] at across
          exact across.symm
        · rw [List.take_of_length_le (by omega), List.drop_eq_nil_of_le (by omega),
            overwrite_nil, overwrite_append_left _ (by omega)]

/-- Filling the first bytes of `mutable_buffer()` overwrites the concatenation
from the write position on. -/
theorem fillSegments_from {buffer : List DataBlock} {iter index : Nat} {data : List UInt8}
    (position : Position buffer iter index)
    (bound : offset buffer iter index + data.length ≤ buffer.flatten.length) :
    (fillSegments (segmentsFrom buffer iter index) data buffer).map List.length =
        buffer.map List.length ∧
      (fillSegments (segmentsFrom buffer iter index) data buffer).flatten =
        overwrite buffer.flatten (offset buffer iter index) data := by
  obtain ⟨front, block, back, rfl, rfl, inside⟩ := position
  rw [offset_split] at bound ⊢
  rw [List.flatten_append, List.flatten_cons, List.length_append, List.length_append] at bound
  obtain ⟨stored, found, lengths, bytes⟩ :=
    fillSegments_whole (front ++ [overwrite block index (data.take (block.length - index))])
      back (data.drop (block.length - index)) (by rw [List.length_drop]; omega)
  have kept : (overwrite block index (data.take (block.length - index))).length =
      block.length := overwrite_length (by rw [List.length_take]; omega)
  have whole : fillSegments (segmentsFrom (front ++ block :: back) front.length index) data
      (front ++ block :: back) =
        front ++ overwrite block index (data.take (block.length - index)) :: stored := by
    rw [segmentsFrom, List.drop_left]
    dsimp only
    rw [fillSegments, modify_middle]
    simpa using found
  rw [whole]
  refine ⟨by simp only [List.map_append, List.map_cons, lengths, kept], ?_⟩
  rw [List.flatten_append, List.flatten_cons, bytes, List.flatten_append, List.flatten_cons,
    overwrite_append_right]
  by_cases past : block.length - index ≤ data.length
  · have across := overwrite_across block back.flatten (data.take (block.length - index))
      (data.drop (block.length - index)) index (by rw [List.length_take]; omega)
    rw [List.take_append_drop] at across
    rw [across]
  · rw [List.take_of_length_le (by omega), List.drop_eq_nil_of_le (by omega),
      overwrite_nil, overwrite_append_left _ (by omega)]

end FysobEngine.Net.AsioBuffer
