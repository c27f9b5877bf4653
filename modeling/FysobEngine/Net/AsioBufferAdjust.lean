import FysobEngine.Net.AsioBufferLoops

/-!
# What `adjust_buffer` does to the block list

The function rotates the fully read blocks to the back, adds blocks until the
write fits, and on the tenth counted call of low use takes blocks off the end.
The number of added and removed blocks is a function of the counters alone.
-/

namespace FysobEngine.Net.AsioBuffer

open Foundation.Segments

/-! ## The invariant of the block list -/

def readOffset (s : AsioBuffer) : Nat := offset s.buffer s.readBufferIter s.readIndex

def writeOffset (s : AsioBuffer) : Nat := offset s.buffer s.writeBufferIter s.writeIndex

/-- The bytes from the read position to `extra` bytes behind the write position. -/
def span (s : AsioBuffer) (extra : Nat) : List UInt8 :=
  slice s.buffer.flatten s.readOffset (s.writeOffset + extra)

/-- The unread bytes: those between the two positions. -/
def content (s : AsioBuffer) : List UInt8 := s.span 0

/-- What every defined operation keeps. `writable_bytes_` may count more bytes
than there are behind the write position, but never fewer. -/
structure Layout (s : AsioBuffer) : Prop where
  read : Position s.buffer s.readBufferIter s.readIndex
  write : Position s.buffer s.writeBufferIter s.writeIndex
  ordered : s.readOffset ≤ s.writeOffset
  readable : s.readableBytes = s.writeOffset - s.readOffset
  total : s.totalBytes = s.buffer.flatten.length
  room : s.buffer.flatten.length ≤ s.writeOffset + s.writableBytes
  size : kInitialSize ≤ s.blockSize
  lowUse : s.lowUseCount < kLowUseCeilCount
  blocks : s.active = true → ∀ block ∈ s.buffer, block.length = s.blockSize
  fake : s.active = false → s.buffer.map List.length = [1]

/-- `writable_bytes_` counts exactly the bytes behind the write position. -/
def Exact (s : AsioBuffer) : Prop :=
  s.writableBytes = s.buffer.flatten.length - s.writeOffset

theorem content_length {s : AsioBuffer} (layout : Layout s) :
    s.content.length = s.readableBytes := by
  have bound : s.writeOffset ≤ s.buffer.flatten.length :=
    Nat.le_of_lt layout.write.offset_lt
  rw [content, span, Nat.add_zero, slice_length bound, layout.readable]

theorem Layout.activeBytes {s : AsioBuffer} (layout : Layout s) (active : s.active = true) :
    s.buffer.flatten.length = s.buffer.length * s.blockSize :=
  flatten_length_of_forall (layout.blocks active)

theorem Layout.size_pos {s : AsioBuffer} (layout : Layout s) : 0 < s.blockSize :=
  Nat.lt_of_lt_of_le (by decide) layout.size

/-! ## The counters after the call -/

/-- The bytes of the blocks before the read position. -/
def rotatedBytes (s : AsioBuffer) : Nat := (s.buffer.take s.readBufferIter).flatten.length

/-- `writable_bytes_` behind the rotation. -/
def availableBytes (s : AsioBuffer) : Nat := s.writableBytes + s.rotatedBytes

/-- The rounds of a loop that takes up to `size` off `remain` until none is left. -/
def rounds (remain size : Nat) : Nat := (remain + (size - 1)) / size

/-- One block when fewer than an eighth of a block would stay writable. -/
def spareBlocks (s : AsioBuffer) (available len : Nat) : Nat :=
  if available - len < s.blockSize / kRemainRatio then 1 else 0

/-- The blocks that a call for `len` bytes adds. -/
def addedBlocks (s : AsioBuffer) (len : Nat) : Nat :=
  if len ≤ s.availableBytes then s.spareBlocks s.availableBytes len
  else
    let grown := rounds (len - s.availableBytes) s.blockSize
    grown + s.spareBlocks (s.availableBytes + grown * s.blockSize) len

/-- `low_use_count_` when a call that found room tests it. -/
def lowUseReached (s : AsioBuffer) (len : Nat) : Nat :=
  let added := s.addedBlocks len * s.blockSize
  if s.buffer.length + s.addedBlocks len > 3 ∧
      (s.readableBytes + (s.availableBytes + added)) / 2 < s.totalBytes + added then
    s.lowUseCount + 1
  else s.lowUseCount

/-- The blocks that a call for `len` bytes takes off the end of the list. -/
def removedBlocks (s : AsioBuffer) (len : Nat) : Nat :=
  if len ≤ s.availableBytes ∧ kLowUseCeilCount ≤ s.lowUseReached len then
    (s.totalBytes + s.addedBlocks len * s.blockSize) / 4 / s.blockSize
  else 0

/-! ## Rotation -/

def rotated (s : AsioBuffer) : AsioBuffer :=
  { s with
    buffer := s.buffer.drop s.readBufferIter ++ s.buffer.take s.readBufferIter
    readBufferIter := 0
    writeBufferIter := s.writeBufferIter - s.readBufferIter
    writableBytes := s.availableBytes }

theorem rotateLoop_eq (count : Nat) (s : AsioBuffer) (iter : s.readBufferIter = count)
    (order : count ≤ s.writeBufferIter) (bound : count ≤ s.buffer.length) :
    rotateLoop count s = some s.rotated := by
  induction count generalizing s with
  | zero =>
      have same : s.rotated = s := by
        cases s
        subst iter
        simp [rotated, availableBytes, rotatedBytes]
      rw [same]
      rfl
  | succ count ih =>
      obtain ⟨buffer, readIter, writeIter, readIndex, writeIndex, size, readable, writable,
        total, lowUse, active, mask, notify⟩ := s
      dsimp only at iter order bound
      subst iter
      cases writeIter with
      | zero => omega
      | succ writeIter =>
          cases buffer with
          | nil => simp at bound
          | cons block rest =>
              rw [List.length_cons] at bound
              rw [rotateLoop, rotateFront]
              dsimp only [Option.bind]
              rw [ih _ rfl (by dsimp only; omega) (by simp; omega)]
              -- the popped block joins the part that is taken off the front
              have inside : count ≤ rest.length := by omega
              simp [rotated, availableBytes, rotatedBytes, List.drop_append_of_le_length inside,
                List.take_append_of_le_length inside, Nat.add_assoc]

theorem Layout.iter_le {s : AsioBuffer} (layout : Layout s) :
    s.readBufferIter ≤ s.writeBufferIter :=
  layout.write.iter_le layout.ordered

/-- A position not before the read block, after the rotation. -/
theorem rotated_position {s : AsioBuffer} {iter index : Nat}
    (position : Position s.buffer iter index) (behind : s.readBufferIter ≤ iter) :
    Position s.rotated.buffer (iter - s.readBufferIter) index ∧
      s.rotatedBytes + offset s.rotated.buffer (iter - s.readBufferIter) index =
        offset s.buffer iter index := by
  have bound := position.iter_lt
  have length : (s.buffer.take s.readBufferIter).length = s.readBufferIter := by
    rw [List.length_take]; omega
  have split := List.take_append_drop s.readBufferIter s.buffer
  rw [← split] at position
  have tail := position.tail (by omega)
  rw [length] at tail
  refine ⟨tail.append _, ?_⟩
  have place := offset_tail (s.buffer.take s.readBufferIter) (s.buffer.drop s.readBufferIter)
    iter index (by omega)
  rw [split, length] at place
  rw [place, rotated, rotatedBytes]
  dsimp only
  rw [offset_append]
  rw [List.length_drop]
  omega

theorem rotated_flatten (s : AsioBuffer) :
    s.rotated.buffer.flatten.length = s.buffer.flatten.length := by
  have split := congrArg (fun blocks => blocks.flatten.length)
    (List.take_append_drop s.readBufferIter s.buffer)
  simp only [List.flatten_append, List.length_append] at split
  rw [rotated]
  simp only [List.flatten_append, List.length_append]
  omega

theorem rotated_offsets {s : AsioBuffer} (layout : Layout s) :
    s.rotatedBytes + s.rotated.readOffset = s.readOffset ∧
      s.rotatedBytes + s.rotated.writeOffset = s.writeOffset := by
  have read := (rotated_position layout.read (Nat.le_refl _)).2
  rw [Nat.sub_self] at read
  exact ⟨read, (rotated_position layout.write layout.iter_le).2⟩

/-- The rotation keeps the layout. -/
theorem rotated_layout {s : AsioBuffer} (layout : Layout s) (active : s.active = true) :
    Layout s.rotated := by
  have read := (rotated_position layout.read (Nat.le_refl _)).1
  rw [Nat.sub_self] at read
  obtain ⟨readAt, writeAt⟩ := rotated_offsets layout
  have ordered := layout.ordered
  have readable := layout.readable
  have room := layout.room
  constructor
  · exact read
  · exact (rotated_position layout.write layout.iter_le).1
  · omega
  · change s.readableBytes = _
    omega
  · rw [rotated_flatten]
    exact layout.total
  · rw [rotated_flatten]
    change _ ≤ _ + (s.writableBytes + s.rotatedBytes)
    omega
  · exact layout.size
  · exact layout.lowUse
  · intro _ block member
    apply layout.blocks active
    rcases List.mem_append.mp member with later | earlier
    · exact List.mem_of_mem_drop later
    · exact List.mem_of_mem_take earlier
  · intro inactive
    rw [show s.rotated.active = s.active from rfl, active] at inactive
    cases inactive

theorem rotated_span {s : AsioBuffer} (layout : Layout s) {extra : Nat}
    (bound : s.writeOffset + extra ≤ s.buffer.flatten.length) :
    s.rotated.span extra = s.span extra := by
  obtain ⟨readAt, writeAt⟩ := rotated_offsets layout
  have split := congrArg List.flatten (List.take_append_drop s.readBufferIter s.buffer)
  rw [List.flatten_append] at split
  rw [← split] at bound
  have before : (s.buffer.take s.readBufferIter).flatten.length ≤ s.readOffset := by
    change s.rotatedBytes ≤ _
    omega
  have turned := slice_rotate before bound
  rw [split] at turned
  have rotatedRead : s.readOffset - (s.buffer.take s.readBufferIter).flatten.length =
      s.rotated.readOffset := by
    change _ - s.rotatedBytes = _
    omega
  have rotatedWrite :
      s.writeOffset + extra - (s.buffer.take s.readBufferIter).flatten.length =
        s.rotated.writeOffset + extra := by
    change _ - s.rotatedBytes = _
    omega
  rw [rotatedRead, rotatedWrite, ← List.flatten_append] at turned
  exact turned

/-! ## Growth -/

def addBlocks (count : Nat) (s : AsioBuffer) : AsioBuffer :=
  { s with
    buffer := s.buffer ++ List.replicate count (newBlock s.blockSize)
    writableBytes := s.writableBytes + count * s.blockSize
    totalBytes := s.totalBytes + count * s.blockSize }

theorem addBlocks_zero (s : AsioBuffer) : addBlocks 0 s = s := by
  simp [addBlocks]

theorem addBlocks_addBlock (count : Nat) (s : AsioBuffer) :
    addBlocks count s.addBlock = addBlocks (count + 1) s := by
  simp only [addBlocks, addBlock, List.replicate_succ, List.append_assoc,
    List.singleton_append, Nat.succ_mul, AsioBuffer.mk.injEq, true_and, and_true]
  constructor <;> omega

theorem addBlocks_add (first second : Nat) (s : AsioBuffer) :
    addBlocks second (addBlocks first s) = addBlocks (first + second) s := by
  simp [addBlocks, ← List.replicate_append_replicate, Nat.add_mul, Nat.add_assoc]

theorem rounds_zero {size : Nat} (positive : 0 < size) : rounds 0 size = 0 := by
  rw [rounds, Nat.zero_add]
  exact Nat.div_eq_of_lt (by omega)

/-- One round takes `size` off, or what is left. -/
theorem rounds_succ {size : Nat} (positive : 0 < size) (remain : Nat) :
    rounds (remain + 1) size =
      rounds (if remain + 1 > size then remain + 1 - size else 0) size + 1 := by
  split
  · next more =>
      unfold rounds
      rw [← Nat.add_div_right _ positive]
      congr 1
      omega
  · next few =>
      rw [rounds_zero positive, rounds]
      exact Nat.div_eq_of_lt_le (by omega) (by omega)

theorem le_rounds_mul {size : Nat} (positive : 0 < size) (remain : Nat) :
    remain ≤ rounds remain size * size := by
  have below := Nat.lt_mul_div_succ (remain + (size - 1)) positive
  rw [Nat.mul_add, Nat.mul_one, Nat.mul_comm] at below
  unfold rounds
  omega

theorem growLoop_eq (fuel remain : Nat) (s : AsioBuffer) (positive : 0 < s.blockSize)
    (enough : remain ≤ fuel) :
    growLoop fuel remain s = some (addBlocks (rounds remain s.blockSize) s) := by
  induction fuel generalizing remain s with
  | zero =>
      cases remain with
      | zero => rw [growLoop, rounds_zero positive, addBlocks_zero]
      | succ remain => omega
  | succ fuel ih =>
      cases remain with
      | zero => rw [growLoop, rounds_zero positive, addBlocks_zero]
      | succ remain =>
          have shorter : (if remain + 1 > s.blockSize then remain + 1 - s.blockSize else 0) ≤
              fuel := by
            split <;> omega
          rw [growLoop, ih _ s.addBlock positive shorter, addBlocks_addBlock,
            rounds_succ positive]
          rfl

theorem checkToAddBlock_eq {s : AsioBuffer} {len : Nat} (fits : len ≤ s.writableBytes) :
    s.checkToAddBlock len = some (addBlocks (s.spareBlocks s.writableBytes len) s) := by
  rw [checkToAddBlock, if_pos fits, spareBlocks]
  split
  · rw [← addBlocks_addBlock 0, addBlocks_zero]
  · rw [addBlocks_zero]

theorem addBlocks_offsets {s : AsioBuffer} (count : Nat) (layout : Layout s) :
    (addBlocks count s).readOffset = s.readOffset ∧
      (addBlocks count s).writeOffset = s.writeOffset :=
  ⟨offset_append _ _ (Nat.le_of_lt layout.read.iter_lt),
    offset_append _ _ (Nat.le_of_lt layout.write.iter_lt)⟩

theorem addBlocks_flatten (count : Nat) (s : AsioBuffer) :
    (addBlocks count s).buffer.flatten.length =
      s.buffer.flatten.length + count * s.blockSize := by
  have added : (List.replicate count (newBlock s.blockSize)).flatten.length =
      count * s.blockSize := by simp [newBlock]
  rw [addBlocks]
  dsimp only
  rw [List.flatten_append, List.length_append, added]

/-- Added blocks change neither the positions nor the bytes before them. -/
theorem addBlocks_layout {s : AsioBuffer} (count : Nat) (layout : Layout s)
    (active : s.active = true) : Layout (addBlocks count s) := by
  obtain ⟨readAt, writeAt⟩ := addBlocks_offsets count layout
  constructor
  · exact layout.read.append _
  · exact layout.write.append _
  · rw [readAt, writeAt]
    exact layout.ordered
  · rw [readAt, writeAt]
    exact layout.readable
  · rw [addBlocks_flatten, ← layout.total]
    rfl
  · have room := layout.room
    rw [addBlocks_flatten, writeAt]
    change _ ≤ _ + (s.writableBytes + count * s.blockSize)
    omega
  · exact layout.size
  · exact layout.lowUse
  · intro _ block member
    rcases List.mem_append.mp member with old | new
    · exact layout.blocks active block old
    · rw [(List.mem_replicate.mp new).2, newBlock, List.length_replicate]
      rfl
  · intro inactive
    rw [show (addBlocks count s).active = s.active from rfl, active] at inactive
    cases inactive

theorem addBlocks_span {s : AsioBuffer} (count : Nat) (layout : Layout s) {extra : Nat}
    (bound : s.writeOffset + extra ≤ s.buffer.flatten.length) :
    (addBlocks count s).span extra = s.span extra := by
  obtain ⟨readAt, writeAt⟩ := addBlocks_offsets count layout
  unfold span
  rw [readAt, writeAt, addBlocks]
  dsimp only
  rw [List.flatten_append, slice_append _ _ bound]

/-! ## Removal -/

/-- On blocks of one length the loop drops as many as fit into `reduceLen`. -/
theorem reduceLoop_eq {blocks : List DataBlock} {size : Nat} (positive : 0 < size)
    (uniform : ∀ block ∈ blocks, block.length = size) (reduceLen totalBytes : Nat)
    (bound : reduceLen / size < blocks.length) :
    reduceLoop blocks reduceLen totalBytes =
      some (blocks.drop (reduceLen / size), totalBytes - reduceLen / size * size) := by
  induction blocks generalizing reduceLen totalBytes with
  | nil => simp at bound
  | cons block rest ih =>
      have length : block.length = size := uniform block (List.mem_cons_self ..)
      rw [reduceLoop, length]
      by_cases more : size ≤ reduceLen
      · have count : reduceLen / size = (reduceLen - size) / size + 1 :=
          Nat.div_eq_sub_div positive more
        rw [List.length_cons, count] at bound
        rw [if_pos more,
          ih (fun other member => uniform other (List.mem_cons_of_mem _ member)) _ _
            (by omega), count, List.drop_succ_cons, Nat.add_mul, Nat.one_mul, Nat.sub_sub,
          Nat.add_comm size]
      · rw [if_neg more, Nat.div_eq_of_lt (by omega), List.drop_zero, Nat.zero_mul, Nat.sub_zero]

def dropBlocks (count : Nat) (s : AsioBuffer) : AsioBuffer :=
  { s with
    buffer := s.buffer.take (s.buffer.length - count)
    totalBytes := s.totalBytes - count * s.blockSize
    lowUseCount := 0 }

/-- The removal does not depend on the value of the low-use counter. -/
theorem reduceBlocks_eq {s : AsioBuffer} (layout : Layout s) (active : s.active = true)
    (count : Nat) :
    { s with lowUseCount := count }.reduceBlocks =
      some (dropBlocks (s.totalBytes / 4 / s.blockSize) s) := by
  have nonempty : 0 < s.buffer.length := Nat.lt_of_le_of_lt (Nat.zero_le _) layout.read.iter_lt
  have total : s.totalBytes = s.buffer.length * s.blockSize := by
    rw [layout.total, layout.activeBytes active]
  have positive := layout.size_pos
  have fewer : s.totalBytes / 4 / s.blockSize < s.buffer.length := by
    rw [total, Nat.div_div_eq_div_mul, Nat.mul_comm 4, ← Nat.div_div_eq_div_mul,
      Nat.mul_div_cancel _ positive]
    exact Nat.div_lt_self nonempty (by decide)
  unfold reduceBlocks
  rw [reduceLoop_eq positive
    (fun block member => layout.blocks active block (List.mem_reverse.mp member))
    _ _ (by rw [List.length_reverse]; exact fewer), Option.map_some, dropBlocks,
    List.drop_reverse]
  dsimp only
  rw [List.reverse_reverse]

/-! ## The whole call -/

/-- `low_use_count_` behind the call. -/
def lowUseAfter (s : AsioBuffer) (len : Nat) : Nat :=
  if len ≤ s.availableBytes ∧ s.lowUseReached len < kLowUseCeilCount then s.lowUseReached len
  else 0

/-- The buffer behind `adjust_buffer`, by the counters before it. -/
def adjusted (s : AsioBuffer) (len : Nat) : AsioBuffer :=
  { dropBlocks (s.removedBlocks len) (addBlocks (s.addedBlocks len) s.rotated) with
    lowUseCount := s.lowUseAfter len }

theorem grown_length {s : AsioBuffer} (layout : Layout s) (count : Nat) :
    (addBlocks count s.rotated).buffer.length = s.buffer.length + count := by
  have inside := layout.read.iter_lt
  simp only [addBlocks, rotated, List.length_append, List.length_drop, List.length_take,
    List.length_replicate]
  omega

theorem countLowUse_eq {s : AsioBuffer} (layout : Layout s) (len : Nat) :
    (addBlocks (s.addedBlocks len) s.rotated).countLowUse =
      { addBlocks (s.addedBlocks len) s.rotated with lowUseCount := s.lowUseReached len } := by
  unfold countLowUse
  rw [grown_length layout]
  by_cases test : s.buffer.length + s.addedBlocks len > 3 ∧
      (s.readableBytes + (s.availableBytes + s.addedBlocks len * s.blockSize)) / 2 <
        s.totalBytes + s.addedBlocks len * s.blockSize
  · rw [show s.lowUseReached len = s.lowUseCount + 1 from if_pos test]
    exact if_pos test
  · rw [show s.lowUseReached len = s.lowUseCount from if_neg test]
    exact if_neg test

theorem adjusted_kept {s : AsioBuffer} {len : Nat} (none : s.removedBlocks len = 0) :
    s.adjusted len =
      { addBlocks (s.addedBlocks len) s.rotated with lowUseCount := s.lowUseAfter len } := by
  simp [adjusted, dropBlocks, none]

theorem adjustBuffer_eq {s : AsioBuffer} (layout : Layout s) (active : s.active = true)
    (len : Nat) : s.adjustBuffer len = some (s.adjusted len) := by
  have positive := layout.size_pos
  have turned := rotateLoop_eq s.readBufferIter s rfl layout.iter_le
    (Nat.le_of_lt layout.read.iter_lt)
  have available : s.rotated.writableBytes = s.availableBytes := rfl
  have grown := addBlocks_layout (s.addedBlocks len) (rotated_layout layout active) active
  unfold adjustBuffer
  rw [turned]
  dsimp only [Option.bind_eq_bind, Option.bind_some]
  rw [available]
  by_cases found : len ≤ s.availableBytes
  · -- the bytes are there: one spare block at most, then the low-use test
    have added : s.rotated.spareBlocks s.availableBytes len = s.addedBlocks len := by
      rw [addedBlocks, if_pos found]
      rfl
    rw [if_pos found, checkToAddBlock_eq (by rw [available]; exact found), Option.bind_some,
      available, added, countLowUse_eq layout]
    by_cases low : kLowUseCeilCount ≤ s.lowUseReached len
    · have removed : s.removedBlocks len =
          (s.totalBytes + s.addedBlocks len * s.blockSize) / 4 / s.blockSize :=
        if_pos ⟨found, low⟩
      have after : s.lowUseAfter len = 0 := if_neg (by omega)
      rw [if_pos low, reduceBlocks_eq grown active, adjusted, removed, after]
      rfl
    · have none : s.removedBlocks len = 0 := if_neg (by omega)
      have after : s.lowUseAfter len = s.lowUseReached len := if_pos ⟨found, by omega⟩
      rw [if_neg low, adjusted_kept none, after]
  · -- too few bytes: grow until the write fits, then perhaps a spare block
    have missing : len - s.availableBytes ≤
        rounds (len - s.availableBytes) s.blockSize * s.blockSize := le_rounds_mul positive _
    have none : s.removedBlocks len = 0 := if_neg (by omega)
    have after : s.lowUseAfter len = 0 := if_neg (by omega)
    have added : s.addedBlocks len = rounds (len - s.availableBytes) s.blockSize +
        s.spareBlocks (s.availableBytes +
          rounds (len - s.availableBytes) s.blockSize * s.blockSize) len := if_neg found
    have growth := growLoop_eq (len - s.availableBytes) (len - s.availableBytes)
      { s.rotated with lowUseCount := 0 } positive (Nat.le_refl _)
    rw [if_neg found]
    change (growLoop _ _ { s.rotated with lowUseCount := 0 }).bind _ = _
    rw [growth, Option.bind_some, checkToAddBlock_eq (by
        change len ≤ s.availableBytes + rounds _ s.blockSize * s.blockSize
        omega), addBlocks_add, adjusted_kept none, after, added]
    rfl

end FysobEngine.Net.AsioBuffer
