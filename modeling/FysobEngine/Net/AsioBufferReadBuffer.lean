import FysobEngine.Net.AsioBufferInvariant
import FysobEngine.Net.AsioBufferViews

/-!
# The views of the unread bytes

`const_buffer()`, `read_buffer()` and `peek` each walk the blocks from the read to
the write position. `read_buffer()` ends with the whole block of the write position.
-/

namespace FysobEngine.Net.AsioBuffer

open Foundation.Segments

/-- `read_buffer`. -/
def readBuffer (s : AsioBuffer) : List (Nat × Nat × Nat) :=
  if s.readBufferIter = s.writeBufferIter then
    [(s.readBufferIter, s.readIndex, s.writeIndex - s.readIndex)]
  else
    match s.buffer.drop s.readBufferIter with
    | [] => []
    | block :: rest =>
        (s.readBufferIter, s.readIndex, block.length - s.readIndex) ::
          wholeSegments (s.readBufferIter + 1)
            (rest.take (s.writeBufferIter - (s.readBufferIter + 1))) ++
          [(s.writeBufferIter, 0, (s.buffer.getD s.writeBufferIter []).length)]

/-- The views of the unread bytes show the same ones, and those of the free bytes
name the same regions. -/
structure ViewsAgree (s : AsioBuffer) : Prop where
  read : s.peek s.readableBytes = some (segmentBytes s.buffer s.readBuffer)
  const : s.peek s.readableBytes = some (segmentBytes s.buffer s.constBuffer)
  length : (segmentBytes s.buffer s.readBuffer).length = s.readableBytes
  free : s.writeBuffer = s.mutableBuffer

namespace RepInvariant

variable {s : AsioBuffer}

theorem peek_content (inv : RepInvariant s) : s.peek s.readableBytes = some s.content := by
  have ordered := inv.ordered
  have inside : s.writeOffset < s.buffer.flatten.length := inv.write.offset_lt
  have bound : s.readOffset + s.readableBytes < s.buffer.flatten.length := by
    rw [inv.readable]
    omega
  rw [peek, if_pos (Nat.le_refl _), peekCopy_some inv.read bound, inv.readable]
  rfl

theorem content_length (inv : RepInvariant s) : s.content.length = s.readableBytes := by
  have inside : s.writeOffset < s.buffer.flatten.length := inv.write.offset_lt
  rw [content, span, Nat.add_zero, slice_length (Nat.le_of_lt inside), inv.readable]

theorem constBuffer_content (inv : RepInvariant s) :
    segmentBytes s.buffer s.constBuffer = s.content :=
  constBuffer_between inv.read inv.write inv.ordered

/-- What `read_buffer()` shows behind the unread bytes. -/
theorem readBuffer_content (inv : RepInvariant s) : segmentBytes s.buffer s.readBuffer =
    s.content ++ if s.readBufferIter = s.writeBufferIter then []
      else (s.buffer.getD s.writeBufferIter []).drop s.writeIndex := by
  rw [← inv.constBuffer_content]
  unfold readBuffer constBuffer
  by_cases same : s.readBufferIter = s.writeBufferIter
  · rw [if_pos same, if_pos same, if_pos same, List.append_nil]
  · obtain ⟨front, block, back, split, iter, -⟩ := inv.read
    have rest : s.buffer.drop s.readBufferIter = block :: back := by
      rw [split, ← iter, List.drop_left]
    rw [if_neg same, if_neg same, if_neg same, rest]
    dsimp only
    rw [segmentBytes_append, segmentBytes_append, List.append_assoc]
    -- the last segment is the whole block instead of its part before the write position
    have last : segmentBytes s.buffer
          [(s.writeBufferIter, 0, (s.buffer.getD s.writeBufferIter []).length)] =
        segmentBytes s.buffer [(s.writeBufferIter, 0, s.writeIndex)] ++
          (s.buffer.getD s.writeBufferIter []).drop s.writeIndex := by
      simp [segmentBytes]
    rw [last]

/-- The block of the write position has bytes behind it. -/
theorem behind_ne_nil (inv : RepInvariant s) :
    (s.buffer.getD s.writeBufferIter []).drop s.writeIndex ≠ [] := by
  obtain ⟨block, found, inside⟩ := inv.write.block
  rw [List.getD_eq_getElem?_getD, found, Option.getD_some]
  intro none
  have length := congrArg List.length none
  rw [List.length_drop, List.length_nil] at length
  omega

theorem not_agree (inv : RepInvariant s) (differ : s.readBufferIter ≠ s.writeBufferIter) :
    ¬ ViewsAgree s := by
  intro agree
  have read := agree.read
  rw [inv.peek_content, inv.readBuffer_content, if_neg differ, Option.some.injEq] at read
  exact inv.behind_ne_nil (List.self_eq_append_right.mp read)

end RepInvariant

/-- The views agree exactly when the unread bytes begin and end in one block. -/
theorem viewsAgree_iff {s : AsioBuffer} (inv : RepInvariant s) :
    ViewsAgree s ↔ s.readBufferIter = s.writeBufferIter := by
  constructor
  · intro agree
    exact Classical.not_not.mp fun differ => inv.not_agree differ agree
  · intro same
    have bytes := inv.readBuffer_content
    rw [if_pos same, List.append_nil] at bytes
    refine ⟨?_, ?_, ?_, rfl⟩
    · rw [bytes]
      exact inv.peek_content
    · rw [inv.constBuffer_content]
      exact inv.peek_content
    · rw [bytes]
      exact inv.content_length

/-- Three bytes, the first of which has been taken off. -/
def partlyRead : List Operation := [.append [65, 66, 67], .retrieve 1]

theorem viewsAgree_iff_partlyRead :
    ∃ s, performAll (create kInitialSize) partlyRead = some s ∧ s.readIndex = 1 ∧
      s.peek s.readableBytes = some [66, 67] ∧ ViewsAgree s := by
  have runs : (performAll (create kInitialSize) partlyRead).any (fun s => s.readIndex = 1 ∧
      s.peek s.readableBytes = some [66, 67] ∧ s.readBufferIter = s.writeBufferIter ∧
      s.writableBytes = s.buffer.flatten.length - s.writeOffset) = true := by decide +kernel
  obtain ⟨s, done, facts⟩ := (Option.any_eq_true _ _).mp runs
  obtain ⟨index, unread, same, exact⟩ := of_decide_eq_true facts
  have layout : Layout s := (performAll_reached done).invariant_all
    (fun _ _ _ layout ok step => performs_layout layout ok step) create_layout.1
  exact ⟨s, done, index, unread, (viewsAgree_iff (layout.represented exact)).mpr same⟩

/-- More than one block of unread bytes. -/
theorem twoBlocks_not_agree :
    ∃ s, (create kInitialSize).perform (.append (List.replicate 600 65)) = some (s, []) ∧
      RepInvariant s ∧ ¬ ViewsAgree s := by
  obtain ⟨layout, exact⟩ := create_layout
  have keeps : (create kInitialSize).WriteKeepsBlocks (.append (List.replicate 600 65)) := by
    intro len write active
    cases active
  obtain ⟨s, out, done, inv, -⟩ := (represented_iff layout exact (by decide)).mpr keeps
  have places : ((create kInitialSize).perform (.append (List.replicate 600 65))).map
      (fun done => (done.1.readBufferIter, done.1.writeBufferIter, done.2)) =
        some (0, 1, []) := by decide +kernel
  rw [done, Option.map_some, Option.some.injEq, Prod.mk.injEq, Prod.mk.injEq] at places
  obtain ⟨read, write, rfl⟩ := places
  refine ⟨s, done, inv, inv.not_agree ?_⟩
  rw [read, write]
  exact Nat.zero_ne_one

end FysobEngine.Net.AsioBuffer
