import FysobEngine.Net.AsioBufferAdjust

/-!
# Writing to and reading from the block buffer

A write is defined exactly when the blocks that `adjust_buffer` leaves hold
more bytes behind the write position than are written, and then it appends.
Reads are always defined and drop or return the first bytes.
-/

namespace FysobEngine.Net.AsioBuffer

open Foundation.Segments

/-! ## The state behind `adjust_buffer` -/

/-- Behind the call, more than `len` bytes are left from the write position to
the end of the list. -/
def Fits (s : AsioBuffer) (len : Nat) : Prop :=
  len + s.removedBlocks len * s.blockSize <
    segmentsLength s.mutableBuffer + s.rotatedBytes + s.addedBlocks len * s.blockSize

instance (s : AsioBuffer) (len : Nat) : Decidable (s.Fits len) := by
  unfold Fits
  infer_instance

/-- The list before the removal. -/
abbrev grown (s : AsioBuffer) (len : Nat) : AsioBuffer :=
  addBlocks (s.addedBlocks len) s.rotated

theorem grown_layout {s : AsioBuffer} (layout : Layout s) (active : s.active = true)
    (len : Nat) : Layout (s.grown len) :=
  addBlocks_layout _ (rotated_layout layout active) active

theorem grown_flatten (s : AsioBuffer) (len : Nat) :
    (s.grown len).buffer.flatten.length =
      s.buffer.flatten.length + s.addedBlocks len * s.blockSize := by
  rw [grown, addBlocks_flatten, rotated_flatten]
  rfl

theorem grown_writeOffset {s : AsioBuffer} (layout : Layout s) (active : s.active = true)
    (len : Nat) : s.rotatedBytes + (s.grown len).writeOffset = s.writeOffset := by
  rw [(addBlocks_offsets _ (rotated_layout layout active)).2]
  exact (rotated_offsets layout).2

theorem adjusted_buffer (s : AsioBuffer) (len : Nat) :
    (s.adjusted len).buffer =
      (s.grown len).buffer.take ((s.grown len).buffer.length - s.removedBlocks len) := rfl

theorem lowUseAfter_lt (s : AsioBuffer) (len : Nat) : s.lowUseAfter len < kLowUseCeilCount := by
  unfold lowUseAfter
  split
  · next kept => exact kept.2
  · decide

theorem adjusted_flatten {s : AsioBuffer} (layout : Layout s) (active : s.active = true)
    (len : Nat) :
    (s.adjusted len).buffer.flatten.length =
      (s.grown len).buffer.flatten.length - s.removedBlocks len * s.blockSize := by
  have grown := grown_layout layout active len
  have uniform := grown.blocks active
  rw [adjusted_buffer, grown.activeBytes active,
    flatten_length_of_forall fun block member => uniform block (List.mem_of_mem_take member),
    List.length_take, Nat.min_eq_left (Nat.sub_le _ _), Nat.sub_mul]
  rfl

/-- As long as its block is kept, the write position keeps its offset. -/
theorem adjusted_offsets {s : AsioBuffer} {len : Nat}
    (kept : (s.grown len).writeBufferIter <
      (s.grown len).buffer.length - s.removedBlocks len) :
    (s.adjusted len).readOffset = (s.grown len).readOffset ∧
      (s.adjusted len).writeOffset = (s.grown len).writeOffset :=
  ⟨offset_take _ (Nat.zero_le _), offset_take _ (Nat.le_of_lt kept)⟩

theorem adjusted_layout {s : AsioBuffer} (layout : Layout s) (active : s.active = true)
    {len : Nat}
    (kept : (s.grown len).writeBufferIter <
      (s.grown len).buffer.length - s.removedBlocks len) : Layout (s.adjusted len) := by
  have grown := grown_layout layout active len
  obtain ⟨readAt, writeAt⟩ := adjusted_offsets kept
  constructor
  · exact grown.read.take (Nat.lt_of_le_of_lt (Nat.zero_le _) kept)
  · exact grown.write.take kept
  · rw [readAt, writeAt]
    exact grown.ordered
  · rw [readAt, writeAt]
    exact grown.readable
  · rw [adjusted_flatten layout active, ← grown.total]
    rfl
  · have room := grown.room
    rw [adjusted_flatten layout active, writeAt]
    change _ ≤ _ + (s.grown len).writableBytes
    omega
  · exact layout.size
  · exact lowUseAfter_lt s len
  · intro _ block member
    exact grown.blocks active block (List.mem_of_mem_take member)
  · intro inactive
    rw [show (s.adjusted len).active = s.active from rfl, active] at inactive
    cases inactive

theorem adjusted_span {s : AsioBuffer} (layout : Layout s) (active : s.active = true)
    (len extra : Nat)
    (kept : (s.grown len).writeBufferIter <
      (s.grown len).buffer.length - s.removedBlocks len)
    (before : s.writeOffset + extra ≤ s.buffer.flatten.length)
    (behind : (s.adjusted len).writeOffset + extra ≤
      (s.adjusted len).buffer.flatten.length) :
    (s.adjusted len).span extra = s.span extra := by
  have turned := rotated_layout layout active
  have inside : s.rotated.writeOffset + extra ≤ s.rotated.buffer.flatten.length := by
    rw [rotated_flatten]
    have place := (rotated_offsets layout).2
    omega
  obtain ⟨readAt, writeAt⟩ := adjusted_offsets kept
  rw [writeAt] at behind
  rw [← rotated_span layout before, ← addBlocks_span (s.addedBlocks len) turned inside]
  unfold span
  rw [readAt, writeAt]
  -- the removed blocks are a tail of the concatenation
  have split := List.take_append_drop
    ((s.grown len).buffer.length - s.removedBlocks len) (s.grown len).buffer
  have whole := congrArg List.flatten split
  rw [List.flatten_append] at whole
  change _ = slice (s.grown len).buffer.flatten _ _
  rw [← whole]
  exact (slice_append _ _ behind).symm

/-- The write position and `len` more bytes are inside the list exactly when
the write fits. -/
theorem fits_iff {s : AsioBuffer} (layout : Layout s) (active : s.active = true) (len : Nat) :
    s.Fits len ↔
      (s.grown len).writeBufferIter < (s.grown len).buffer.length - s.removedBlocks len ∧
        (s.adjusted len).writeOffset + len < (s.adjusted len).buffer.flatten.length := by
  have grown := grown_layout layout active len
  have bytes := grown_flatten s len
  have place := grown_writeOffset layout active len
  have inside : s.writeOffset < s.buffer.flatten.length := layout.write.offset_lt
  have room : segmentsLength s.mutableBuffer = s.buffer.flatten.length - s.writeOffset :=
    segmentsFrom_length layout.write
  obtain ⟨uniform, index⟩ := grown.write.offset_uniform (grown.blocks active)
  change (s.grown len).writeOffset = _ at uniform
  have length := grown.activeBytes active
  have cut : ((s.grown len).buffer.length - s.removedBlocks len) * (s.grown len).blockSize =
      (s.grown len).buffer.flatten.length - s.removedBlocks len * s.blockSize := by
    rw [Nat.sub_mul, length]
    rfl
  rw [adjusted_flatten layout active]
  constructor
  · intro fits
    unfold Fits at fits
    have kept : (s.grown len).writeBufferIter <
        (s.grown len).buffer.length - s.removedBlocks len := by
      apply Nat.lt_of_mul_lt_mul_right (a := (s.grown len).blockSize)
      omega
    refine ⟨kept, ?_⟩
    rw [(adjusted_offsets kept).2]
    omega
  · rintro ⟨kept, fits⟩
    rw [(adjusted_offsets kept).2] at fits
    unfold Fits
    omega

/-- The list ends before the write position and `len` more bytes otherwise. -/
theorem not_fits {s : AsioBuffer} (layout : Layout s) (active : s.active = true) {len : Nat}
    (short : ¬ s.Fits len) :
    (s.adjusted len).buffer.length ≤ (s.adjusted len).writeBufferIter ∨
      Layout (s.adjusted len) ∧
        (s.adjusted len).buffer.flatten.length ≤ (s.adjusted len).writeOffset + len := by
  rw [fits_iff layout active] at short
  by_cases kept : (s.grown len).writeBufferIter <
      (s.grown len).buffer.length - s.removedBlocks len
  · right
    refine ⟨adjusted_layout layout active kept, ?_⟩
    exact Nat.le_of_not_lt fun fits => short ⟨kept, fits⟩
  · left
    rw [adjusted_buffer, List.length_take]
    change _ ≤ (s.grown len).writeBufferIter
    omega

/-! ## Storing and advancing -/

/-- The bytes in the blocks are not part of the layout. -/
theorem Layout.of_lengths {s : AsioBuffer} {blocks : List DataBlock} (layout : Layout s)
    (lengths : blocks.map List.length = s.buffer.map List.length) :
    Layout { s with buffer := blocks } where
  read := layout.read.congr lengths.symm
  write := layout.write.congr lengths.symm
  ordered := by
    unfold readOffset writeOffset
    dsimp only
    rw [offset_congr lengths, offset_congr lengths]
    exact layout.ordered
  readable := by
    unfold readOffset writeOffset
    dsimp only
    rw [offset_congr lengths, offset_congr lengths]
    exact layout.readable
  total := by
    dsimp only
    rw [flatten_length_congr lengths]
    exact layout.total
  room := by
    unfold writeOffset
    dsimp only
    rw [offset_congr lengths, flatten_length_congr lengths]
    exact layout.room
  size := layout.size
  lowUse := layout.lowUse
  blocks := by
    intro active block member
    have length : block.length ∈ s.buffer.map List.length := by
      rw [← lengths]
      exact List.mem_map_of_mem member
    obtain ⟨old, oldMember, same⟩ := List.mem_map.mp length
    rw [← same]
    exact layout.blocks active old oldMember
  fake := by
    intro inactive
    exact lengths.trans (layout.fake inactive)

theorem advanceWrite_some {s : AsioBuffer} (layout : Layout s) (len : Nat)
    (bound : s.writeOffset + len < s.buffer.flatten.length) :
    ∃ f, s.advanceWrite len = some f ∧ Layout f ∧ f.content = s.span len ∧
      f.buffer = s.buffer ∧ f.writeOffset = s.writeOffset + len ∧
      f.writableBytes = s.writableBytes - len ∧ f.active = s.active := by
  obtain ⟨iter, index, found, position, place⟩ := adjustIndex_some layout.write bound
  have ordered := layout.ordered
  have readable := layout.readable
  have room := layout.room
  refine ⟨writeBytes { s with writeBufferIter := iter, writeIndex := index } len,
    by rw [advanceWrite, found]; rfl, ?_, ?_, rfl, place, rfl, rfl⟩
  · exact {
      read := layout.read
      write := position
      ordered := by
        change s.readOffset ≤ offset s.buffer iter index
        unfold writeOffset at ordered
        omega
      readable := by
        change s.readableBytes + len = offset s.buffer iter index - s.readOffset
        unfold writeOffset at ordered readable
        omega
      total := layout.total
      room := by
        change s.buffer.flatten.length ≤ offset s.buffer iter index + (s.writableBytes - len)
        unfold writeOffset at room bound
        omega
      size := layout.size
      lowUse := layout.lowUse
      blocks := layout.blocks
      fake := layout.fake }
  · unfold content span
    change slice s.buffer.flatten s.readOffset (offset s.buffer iter index + 0) = _
    rw [place]
    rfl

theorem advanceWrite_none {s : AsioBuffer} {len : Nat}
    (short : s.buffer.length ≤ s.writeBufferIter ∨
      Layout s ∧ s.buffer.flatten.length ≤ s.writeOffset + len) :
    s.advanceWrite len = none := by
  rcases short with past | ⟨layout, bound⟩
  · rw [advanceWrite, adjustIndex_past past, Option.map_none]
  · rw [advanceWrite, adjustIndex_none layout.write bound, Option.map_none]

/-! ## Writing -/

/-- What a write of `len` bytes does to the counters. -/
structure Wrote (s : AsioBuffer) (len : Nat) (f : AsioBuffer) : Prop where
  layout : Layout f
  active : f.active = true
  bytes : f.buffer.flatten.length + s.removedBlocks len * s.blockSize =
    s.buffer.flatten.length + s.addedBlocks len * s.blockSize
  place : s.rotatedBytes + f.writeOffset = s.writeOffset + len
  writable : f.writableBytes = s.availableBytes + s.addedBlocks len * s.blockSize - len

/-- Advancing over stored bytes, in a list of the shape `adjust_buffer` leaves. -/
theorem wrote_of_advance {s : AsioBuffer} (layout : Layout s) (active : s.active = true)
    {len : Nat} (fits : s.Fits len) {blocks : List DataBlock}
    (lengths : blocks.map List.length = (s.adjusted len).buffer.map List.length) :
    ∃ f, { s.adjusted len with buffer := blocks }.advanceWrite len = some f ∧
      Wrote s len f ∧
      f.content = slice blocks.flatten (s.adjusted len).readOffset
        ((s.adjusted len).writeOffset + len) := by
  obtain ⟨kept, bound⟩ := (fits_iff layout active len).mp fits
  have stored := (adjusted_layout layout active kept).of_lengths lengths
  have writeAt : writeOffset { s.adjusted len with buffer := blocks } =
      (s.adjusted len).writeOffset := offset_congr lengths _ _
  have readAt : readOffset { s.adjusted len with buffer := blocks } =
      (s.adjusted len).readOffset := offset_congr lengths _ _
  obtain ⟨f, advanced, after, bytes, buffer, place, writable, stays⟩ :=
    advanceWrite_some stored len (by
      rw [writeAt]
      dsimp only
      rw [flatten_length_congr lengths]
      exact bound)
  refine ⟨f, advanced, ?_, ?_⟩
  · have removal : (s.adjusted len).buffer.flatten.length +
        s.removedBlocks len * s.blockSize =
          s.buffer.flatten.length + s.addedBlocks len * s.blockSize := by
      have before := adjusted_flatten layout active len
      rw [grown_flatten] at before
      omega
    have turned := grown_writeOffset layout active len
    refine ⟨after, stays.trans active, ?_, ?_, writable⟩
    · rw [buffer]
      dsimp only
      rw [flatten_length_congr lengths]
      exact removal
    · rw [place, writeAt, (adjusted_offsets kept).2]
      omega
  · rw [bytes, span, readAt, writeAt]

theorem checkActive_active {s : AsioBuffer} (active : s.active = true) :
    s.checkActive = some s := by
  rw [checkActive, if_pos active]

theorem append_some {s : AsioBuffer} (layout : Layout s) (active : s.active = true)
    {data : List UInt8} (fits : s.Fits data.length) :
    ∃ f, s.append data = some f ∧ Wrote s data.length f ∧ f.content = s.content ++ data := by
  obtain ⟨kept, bound⟩ := (fits_iff layout active data.length).mp fits
  have after := adjusted_layout layout active kept
  obtain ⟨blocks, copied, lengths, bytes⟩ := appendCopy_some after.write bound
  obtain ⟨f, advanced, wrote, content⟩ := wrote_of_advance layout active fits lengths
  refine ⟨f, ?_, wrote, ?_⟩
  · rw [append, checkActive_active active]
    dsimp only [Option.bind_eq_bind, Option.bind_some]
    rw [adjustBuffer_eq layout active, Option.bind_some, copied, Option.bind_some, advanced]
  · have before := adjusted_span layout active _ 0 kept
      (Nat.le_of_lt layout.write.offset_lt) (by omega)
    rw [content, bytes]
    change slice (overwrite _ (s.adjusted data.length).writeOffset data) _ _ = _
    rw [slice_overwrite after.ordered (Nat.le_of_lt bound)]
    change (s.adjusted data.length).span 0 ++ data = _
    rw [before]
    rfl

theorem append_none {s : AsioBuffer} (layout : Layout s) (active : s.active = true)
    {data : List UInt8} (short : ¬ s.Fits data.length) : s.append data = none := by
  rw [append, checkActive_active active]
  dsimp only [Option.bind_eq_bind, Option.bind_some]
  rw [adjustBuffer_eq layout active, Option.bind_some]
  rcases not_fits layout active short with past | ⟨after, bound⟩
  · rw [appendCopy_past past, Option.bind_none]
  · rw [appendCopy_none after.write bound, Option.bind_none]

theorem hasWritten_some {s : AsioBuffer} (layout : Layout s) (active : s.active = true)
    {len : Nat} (inside : len ≤ segmentsLength s.mutableBuffer) (fits : s.Fits len) :
    ∃ f, s.hasWritten len = some f ∧ Wrote s len f ∧ f.content = s.span len := by
  obtain ⟨kept, bound⟩ := (fits_iff layout active len).mp fits
  have room : segmentsLength s.mutableBuffer = s.buffer.flatten.length - s.writeOffset :=
    segmentsFrom_length layout.write
  have counted := layout.room
  have place : s.writeOffset < s.buffer.flatten.length := layout.write.offset_lt
  obtain ⟨f, advanced, wrote, content⟩ := wrote_of_advance layout active fits rfl
  refine ⟨f, ?_, wrote, ?_⟩
  · rw [hasWritten, if_pos (by omega), checkActive_active active]
    dsimp only [Option.bind_eq_bind, Option.bind_some]
    rw [adjustBuffer_eq layout active, Option.bind_some]
    exact advanced
  · rw [content]
    exact adjusted_span layout active _ _ kept (by omega) (Nat.le_of_lt bound)

theorem hasWritten_none {s : AsioBuffer} (layout : Layout s) (active : s.active = true)
    {len : Nat} (short : ¬ s.Fits len) : s.hasWritten len = none := by
  rw [hasWritten, checkActive_active active]
  dsimp only [Option.bind_eq_bind, Option.bind_some]
  rw [adjustBuffer_eq layout active, Option.bind_some,
    advanceWrite_none (not_fits layout active short), ite_self]

/-! ## The first write -/

/-- Before the first write the buffer is one block of one byte. -/
theorem Layout.inactive {s : AsioBuffer} (layout : Layout s) (inactive : s.active = false) :
    ∃ first, s.buffer = [[first]] ∧ s.readBufferIter = 0 ∧ s.readIndex = 0 ∧
      s.writeBufferIter = 0 ∧ s.writeIndex = 0 := by
  have lengths := layout.fake inactive
  obtain ⟨block, rest, split, one, nil⟩ := List.map_eq_cons_iff.mp lengths
  rw [List.map_eq_nil_iff.mp nil] at split
  obtain ⟨first, rfl⟩ := List.length_eq_one_iff.mp one
  -- a position in a list of one element is its start
  have start (iter index : Nat) (position : Position s.buffer iter index) :
      iter = 0 ∧ index = 0 := by
    have inside := position.iter_lt
    have before := position.offset_lt
    rw [split] at inside before
    unfold offset at before
    simp only [List.length_singleton, List.flatten_cons, List.flatten_nil, List.append_nil]
      at inside before
    omega
  obtain ⟨readIter, readIndex⟩ := start _ _ layout.read
  obtain ⟨writeIter, writeIndex⟩ := start _ _ layout.write
  exact ⟨first, split, readIter, readIndex, writeIter, writeIndex⟩

/-- The two real blocks that replace the fake one. -/
def activated (s : AsioBuffer) (first : UInt8) : AsioBuffer :=
  { s with
    buffer := [(newBlock s.blockSize).set 0 first, newBlock s.blockSize]
    writableBytes := 2 * s.blockSize
    totalBytes := 2 * s.blockSize
    active := true }

theorem checkActive_inactive {s : AsioBuffer} (inactive : s.active = false) {first : UInt8}
    (fake : s.buffer = [[first]]) : s.checkActive = some (s.activated first) := by
  rw [checkActive, inactive, fake]
  rfl

theorem activated_blocks (s : AsioBuffer) (first : UInt8) :
    ∀ block ∈ (s.activated first).buffer, block.length = s.blockSize := by
  intro block member
  simp only [activated, List.mem_cons, List.not_mem_nil, or_false] at member
  rcases member with rfl | rfl
  · rw [newBlock, List.length_set, List.length_replicate]
  · rw [newBlock, List.length_replicate]

theorem activated_layout {s : AsioBuffer} (layout : Layout s) (inactive : s.active = false)
    (first : UInt8) :
    Layout (s.activated first) ∧ Exact (s.activated first) ∧
      (s.activated first).readOffset = 0 ∧ (s.activated first).writeOffset = 0 := by
  obtain ⟨_, _, readIter, readIndex, writeIter, writeIndex⟩ := layout.inactive inactive
  have length : (s.activated first).buffer.flatten.length = 2 * s.blockSize :=
    flatten_length_of_forall (activated_blocks s first)
  have readAt : (s.activated first).readOffset = 0 := by
    change offset _ s.readBufferIter s.readIndex = 0
    rw [readIter, readIndex]
    rfl
  have writeAt : (s.activated first).writeOffset = 0 := by
    change offset _ s.writeBufferIter s.writeIndex = 0
    rw [writeIter, writeIndex]
    rfl
  have start : Position (s.activated first).buffer 0 0 := by
    refine ⟨[], _, _, rfl, rfl, ?_⟩
    rw [newBlock, List.length_set, List.length_replicate]
    exact layout.size_pos
  refine ⟨?_, ?_, readAt, writeAt⟩
  · constructor
    · change Position _ s.readBufferIter s.readIndex
      rw [readIter, readIndex]
      exact start
    · change Position _ s.writeBufferIter s.writeIndex
      rw [writeIter, writeIndex]
      exact start
    · exact Nat.le_of_eq (readAt.trans writeAt.symm)
    · have none : s.writeOffset = 0 := by
        rw [writeOffset, writeIter, writeIndex]
        rfl
      rw [readAt, writeAt]
      change s.readableBytes = 0
      rw [layout.readable, none, Nat.zero_sub]
    · exact length.symm
    · rw [length]
      exact Nat.le_add_left _ _
    · exact layout.size
    · exact layout.lowUse
    · intro _ block member
      exact activated_blocks s first block member
    · intro impossible
      cases impossible
  · rw [Exact, length, writeAt]
    rfl

/-- The byte of the fake block survives. -/
theorem activated_span {s : AsioBuffer} (layout : Layout s) (inactive : s.active = false)
    {first : UInt8} (fake : s.buffer = [[first]]) (extra : Nat) (bound : extra ≤ 1) :
    (s.activated first).span extra = s.span extra := by
  obtain ⟨_, _, readIter, readIndex, writeIter, writeIndex⟩ := layout.inactive inactive
  obtain ⟨_, _, readAt, writeAt⟩ := activated_layout layout inactive first
  have readStart : s.readOffset = 0 := by
    rw [readOffset, readIter, readIndex]
    rfl
  have writeStart : s.writeOffset = 0 := by
    rw [writeOffset, writeIter, writeIndex]
    rfl
  have split : (newBlock s.blockSize).set 0 first =
      [first] ++ newBlock (s.blockSize - 1) := by
    obtain ⟨rest, size⟩ := Nat.exists_eq_add_of_lt layout.size_pos
    rw [size, Nat.zero_add]
    rfl
  unfold span
  rw [readAt, writeAt, readStart, writeStart, fake, activated]
  dsimp only
  rw [split, List.flatten_cons, List.append_assoc, slice_append]
  · rfl
  · simpa using bound

/-- Two blocks are too few for the low-use count. -/
theorem activated_removedBlocks {s : AsioBuffer} (layout : Layout s) (first : UInt8)
    (len : Nat) : (s.activated first).removedBlocks len = 0 := by
  have low : s.lowUseCount < kLowUseCeilCount := layout.lowUse
  by_cases found : len ≤ (s.activated first).availableBytes
  · have added : (s.activated first).addedBlocks len ≤ 1 := by
      rw [addedBlocks, if_pos found, spareBlocks]
      split <;> decide
    have few : ¬ ((s.activated first).buffer.length + (s.activated first).addedBlocks len > 3 ∧
        ((s.activated first).readableBytes + ((s.activated first).availableBytes +
          (s.activated first).addedBlocks len * (s.activated first).blockSize)) / 2 <
            (s.activated first).totalBytes +
              (s.activated first).addedBlocks len * (s.activated first).blockSize) := by
      rintro ⟨many, _⟩
      have two : (s.activated first).buffer.length = 2 := rfl
      omega
    have reached : (s.activated first).lowUseReached len = s.lowUseCount := if_neg few
    exact if_neg (by omega)
  · exact if_neg fun both => found both.1

/-- An exact buffer that removes no block has room for every write. -/
theorem Exact.fits {s : AsioBuffer} (exact : Exact s) (layout : Layout s) {len : Nat}
    (none : s.removedBlocks len = 0) : s.Fits len := by
  have room : segmentsLength s.mutableBuffer = s.buffer.flatten.length - s.writeOffset :=
    segmentsFrom_length layout.write
  have positive := layout.size_pos
  have spare (available : Nat) (enough : len ≤ available) :
      len < available + s.spareBlocks available len * s.blockSize := by
    have eighth : 0 < s.blockSize / kRemainRatio :=
      Nat.div_pos (Nat.le_trans (by decide) layout.size) (by decide)
    unfold spareBlocks
    split <;> omega
  unfold Exact at exact
  unfold Fits
  rw [none, room, ← exact, Nat.zero_mul, Nat.add_zero]
  change len < s.availableBytes + _
  by_cases found : len ≤ s.availableBytes
  · rw [addedBlocks, if_pos found]
    exact spare _ found
  · have missing := le_rounds_mul positive (len - s.availableBytes)
    rw [addedBlocks, if_neg found, Nat.add_mul, ← Nat.add_assoc]
    exact spare _ (by omega)

/-! ## Reading -/

theorem peek_some {s : AsioBuffer} (layout : Layout s) {len : Nat}
    (inside : len ≤ s.readableBytes) : s.peek len = some (s.content.take len) := by
  have readable := layout.readable
  have bound : s.writeOffset < s.buffer.flatten.length := layout.write.offset_lt
  have ordered := layout.ordered
  rw [peek, if_pos inside]
  have within : s.readOffset + len < s.buffer.flatten.length := by omega
  have found := peekCopy_some layout.read within
  rw [found, content, span, slice_take_count (by omega)]
  rfl

theorem retrieve_some {s : AsioBuffer} (layout : Layout s) {len : Nat}
    (inside : len ≤ s.readableBytes) :
    ∃ f notified, s.retrieve len = some (f, notified) ∧ Layout f ∧
      f.content = s.content.drop len ∧ (Exact s → Exact f) := by
  have readable := layout.readable
  have bound : s.writeOffset < s.buffer.flatten.length := layout.write.offset_lt
  have ordered := layout.ordered
  have within : s.readOffset + len < s.buffer.flatten.length := by omega
  obtain ⟨iter, index, found, position, place⟩ := adjustIndex_some layout.read within
  change _ = s.readOffset + len at place
  -- only the position, the count and the handler fields change
  have after (mask : Nat) (notify : Bool) : Layout { s with
      readBufferIter := iter
      readIndex := index
      readableBytes := s.readableBytes - len
      highWaterMask := mask
      notifyBehindHighWaterMask := notify } := by
    refine { layout with read := position, ordered := ?_, readable := ?_ }
    · change offset s.buffer iter index ≤ s.writeOffset
      omega
    · change s.readableBytes - len = s.writeOffset - offset s.buffer iter index
      omega
  have bytes (mask : Nat) (notify : Bool) : content { s with
      readBufferIter := iter
      readIndex := index
      readableBytes := s.readableBytes - len
      highWaterMask := mask
      notifyBehindHighWaterMask := notify } = s.content.drop len := by
    unfold content span
    change slice s.buffer.flatten (offset s.buffer iter index) (s.writeOffset + 0) = _
    rw [place, slice_drop]
  rw [retrieve, if_pos inside, found, Option.map_some]
  dsimp only
  split
  · exact ⟨_, _, rfl, after _ _, bytes _ _, id⟩
  · exact ⟨_, _, rfl, after _ _, bytes _ _, id⟩

theorem read_some {s : AsioBuffer} (layout : Layout s) {len : Nat}
    (inside : len ≤ s.readableBytes) :
    ∃ f, s.read len = some (f, s.content.take len) ∧ Layout f ∧
      f.content = s.content.drop len ∧ (Exact s → Exact f) := by
  obtain ⟨f, notified, found, after, bytes, exact⟩ := retrieve_some layout inside
  refine ⟨f, ?_, after, bytes, exact⟩
  rw [read, peek_some layout inside]
  dsimp only [Option.bind_eq_bind, Option.bind_some]
  rw [found]
  rfl

end FysobEngine.Net.AsioBuffer
