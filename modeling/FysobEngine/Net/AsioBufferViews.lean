import FysobEngine.Net.AsioBufferWrite
import FysobEngine.Net.SessionBuffer

/-!
# The unread bytes as segments

`const_buffer()` names the unread bytes by segments of the blocks, one for each
block from the read position to the write position.
-/

namespace FysobEngine.Net.AsioBuffer

open Foundation.Segments

theorem segmentBytes_append (buffer : List DataBlock) (first second : List (Nat × Nat × Nat)) :
    segmentBytes buffer (first ++ second) =
      segmentBytes buffer first ++ segmentBytes buffer second :=
  List.flatMap_append

theorem segmentBytes_cons (buffer : List DataBlock) (segment : Nat × Nat × Nat)
    (rest : List (Nat × Nat × Nat)) :
    segmentBytes buffer (segment :: rest) =
      segmentBytes buffer [segment] ++ segmentBytes buffer rest :=
  segmentBytes_append buffer [segment] rest

/-- The segment of one block. -/
theorem segment_bytes (front back : List DataBlock) (block : DataBlock) (index len : Nat) :
    segmentBytes (front ++ block :: back) [(front.length, index, len)] =
      (block.drop index).take len := by
  simp [segmentBytes, List.getD_eq_getElem?_getD]

/-- Segments of whole blocks show the blocks. -/
theorem wholeSegments_bytes (front blocks back : List DataBlock) :
    segmentBytes (front ++ (blocks ++ back)) (wholeSegments front.length blocks) =
      blocks.flatten := by
  induction blocks generalizing front with
  | nil => rfl
  | cons block rest ih =>
      have tail := ih (front ++ [block])
      rw [List.length_append, List.length_singleton, List.append_assoc] at tail
      rw [wholeSegments, segmentBytes_cons, List.cons_append, segment_bytes, List.drop_zero,
        List.take_length, List.flatten_cons]
      exact congrArg (block ++ ·) tail

/-- Both positions are in one block. -/
theorem constBuffer_bytes_one {front back : List DataBlock} {block : DataBlock}
    {readIndex writeIndex : Nat} (inside : writeIndex < block.length) :
    segmentBytes (front ++ block :: back) [(front.length, readIndex, writeIndex - readIndex)] =
      slice (front ++ block :: back).flatten (front.flatten.length + readIndex)
        (front.flatten.length + writeIndex) := by
  rw [segment_bytes, List.flatten_append, List.flatten_cons, slice_behind,
    slice_append _ _ (Nat.le_of_lt inside)]
  rfl

/-- The write position is in a later block than the read position. -/
theorem constBuffer_bytes_more {front middle back : List DataBlock} {block last : DataBlock}
    {readIndex writeIndex : Nat} (inside : readIndex < block.length)
    (within : writeIndex < last.length) :
    segmentBytes (front ++ block :: (middle ++ last :: back))
        ((front.length, readIndex, block.length - readIndex) ::
          wholeSegments (front.length + 1) middle ++
          [(front.length + 1 + middle.length, 0, writeIndex)]) =
      slice (front ++ block :: (middle ++ last :: back)).flatten
        (front.flatten.length + readIndex)
        ((front ++ block :: middle).flatten.length + writeIndex) := by
  have first : (block.drop readIndex).take (block.length - readIndex) = block.drop readIndex := by
    apply List.take_of_length_le
    rw [List.length_drop]
  have whole := wholeSegments_bytes (front ++ [block]) middle (last :: back)
  rw [List.length_append, List.length_singleton, List.append_assoc, List.singleton_append] at whole
  have final := segment_bytes (front ++ block :: middle) back last 0 writeIndex
  rw [List.append_assoc, List.cons_append, List.length_append, List.length_cons,
    Nat.add_comm middle.length, ← Nat.add_assoc, List.drop_zero] at final
  rw [List.cons_append, segmentBytes_cons, segment_bytes, first, segmentBytes_append, whole, final]
  -- the same three parts of the concatenation
  have bytes : (front ++ block :: (middle ++ last :: back)).flatten =
      front.flatten ++ (block ++ ((middle.flatten ++ last) ++ back.flatten)) := by simp
  have place : (front ++ block :: middle).flatten.length + writeIndex =
      front.flatten.length + (block.length + (middle.flatten.length + writeIndex)) := by
    simp [Nat.add_assoc]
  rw [bytes, place, slice_behind, slice_split _ (Nat.le_of_lt inside) (Nat.le_add_right _ _),
    slice_rest, ← Nat.add_zero block.length, Nat.add_assoc, Nat.zero_add, slice_behind,
    slice_append]
  · rw [slice, List.drop_zero, Nat.sub_zero, List.take_length_add_append]
  · rw [List.length_append]
    omega

/-- The segments of `const_buffer()` show the bytes between the two positions. -/
theorem constBuffer_between {s : AsioBuffer}
    (read : Position s.buffer s.readBufferIter s.readIndex)
    (write : Position s.buffer s.writeBufferIter s.writeIndex)
    (ordered : s.readOffset ≤ s.writeOffset) :
    segmentBytes s.buffer s.constBuffer = s.content := by
  have behind := write.iter_le ordered
  obtain ⟨front, block, back, split, readIter, inside⟩ := read
  rw [content, span, Nat.add_zero]
  unfold readOffset writeOffset constBuffer at *
  rw [split] at write ordered ⊢
  rw [← readIter] at behind ordered ⊢
  rcases Nat.eq_or_lt_of_le behind with same | later
  · rw [← same] at write ⊢
    obtain ⟨front', block', back', split', length, within⟩ := write
    obtain ⟨rfl, rest⟩ := List.append_inj split' length.symm
    cases rest
    rw [if_pos rfl, offset_split, offset_split]
    exact constBuffer_bytes_one within
  · -- the block of the write position is one of those behind the read position
    rw [← List.singleton_append, ← List.append_assoc] at write
    have tail := write.tail (by simpa using Nat.succ_le_of_lt later)
    obtain ⟨middle, last, rest, rfl, length, within⟩ := tail
    have iter : s.writeBufferIter = front.length + 1 + middle.length := by
      rw [List.length_append, List.length_singleton] at length
      omega
    have taken : s.writeBufferIter - (front.length + 1) = middle.length := by omega
    have blocks : front ++ block :: (middle ++ last :: rest) =
        (front ++ block :: middle) ++ last :: rest := by simp
    have place : offset ((front ++ block :: middle) ++ last :: rest)
        (front ++ block :: middle).length s.writeIndex = _ := offset_split s.writeIndex
    have count : (front ++ block :: middle).length = front.length + 1 + middle.length := by
      rw [List.length_append, List.length_cons]
      omega
    rw [← blocks, count] at place
    rw [if_neg (Nat.ne_of_lt later), List.drop_left]
    dsimp only
    rw [taken, List.take_left, iter, constBuffer_bytes_more inside within, offset_split, place]

theorem constBuffer_bytes {s : AsioBuffer} (layout : Layout s) :
    segmentBytes s.buffer s.constBuffer = s.content :=
  constBuffer_between layout.read layout.write layout.ordered

end FysobEngine.Net.AsioBuffer
