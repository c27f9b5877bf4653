import FysobEngine.Net.AsioBufferQueue

/-!
# The memory of the block buffer

`adjust_buffer` adds blocks only when a write would leave less than an eighth of a block
writable. So the blocks never hold much more than the most bytes that were ever unread,
also behind a removal that leaves `writable_bytes_` too large.
-/

namespace FysobEngine.Net.AsioBuffer

open Foundation.Segments Foundation.Runs

variable {s s' middle f : AsioBuffer} {len : Nat}

/-- What a write of `len` bytes does to the counters of an active buffer. -/
structure Counted (s : AsioBuffer) (len : Nat) (f : AsioBuffer) : Prop where
  blockSize : f.blockSize = s.blockSize
  readBufferIter : f.readBufferIter = 0
  readIndex : f.readIndex = s.readIndex
  readableBytes : f.readableBytes = s.readableBytes + len
  writableBytes : f.writableBytes = s.availableBytes + s.addedBlocks len * s.blockSize - len
  totalBytes : f.totalBytes = s.totalBytes + s.addedBlocks len * s.blockSize -
    s.removedBlocks len * s.blockSize

theorem counted_of_advance {blocks : List DataBlock}
    (done : { s.adjusted len with buffer := blocks }.advanceWrite len = some f) :
    Counted s len f := by
  obtain ⟨position, -, rfl⟩ := Option.map_eq_some_iff.mp done
  exact ⟨rfl, rfl, rfl, rfl, rfl, rfl⟩

theorem append_counted (layout : Layout s) (active : s.active = true) {data : List UInt8}
    (done : s.append data = some f) : Counted s data.length f := by
  rw [append, checkActive_active active] at done
  dsimp only [Option.bind_eq_bind, Option.bind_some] at done
  rw [adjustBuffer_eq layout active, Option.bind_some] at done
  obtain ⟨blocks, -, advanced⟩ := Option.bind_eq_some_iff.mp done
  exact counted_of_advance advanced

/-- `has_written` behind `check_active`. -/
theorem hasWritten_counted {active : AsioBuffer} (checked : s.checkActive = some active)
    (layout : Layout active) (isActive : active.active = true)
    (done : s.hasWritten len = some f) : Counted active len f := by
  unfold hasWritten at done
  split at done
  · rw [checked] at done
    dsimp only [Option.bind_eq_bind, Option.bind_some] at done
    rw [adjustBuffer_eq layout isActive, Option.bind_some] at done
    exact counted_of_advance done
  · cases done

/-! ## When blocks are added -/

theorem rounds_mul_lt {size : Nat} (positive : 0 < size) (remain : Nat) :
    rounds remain size * size < remain + size := by
  have within : rounds remain size * size ≤ remain + (size - 1) := Nat.div_mul_le_self _ _
  omega

/-- Where blocks are added, they are hardly more than the write needs. -/
theorem addedBlocks_writable (positive : 0 < s.blockSize) (adds : 0 < s.addedBlocks len) :
    s.availableBytes + s.addedBlocks len * s.blockSize - len <
      s.blockSize + s.blockSize / kRemainRatio := by
  unfold addedBlocks at adds ⊢
  split
  · rename_i found
    rw [if_pos found] at adds
    unfold spareBlocks at adds ⊢
    split
    · rename_i few
      omega
    · rename_i enough
      rw [if_neg enough] at adds
      cases adds
  · rename_i short
    have grown := rounds_mul_lt positive (len - s.availableBytes)
    dsimp only
    unfold spareBlocks
    split
    · rename_i few
      rw [Nat.add_mul]
      omega
    · rw [Nat.add_zero]
      refine Nat.lt_of_lt_of_le ?_ (Nat.le_add_right _ _)
      omega

/-! ## The free bytes behind a write -/

/-- What `len` bytes leave of `free` ones: the blocks that are missing are added, and one
more when less than an eighth of a block would be left. -/
def leftBehind (size free len : Nat) : Nat :=
  let left := free + rounds (len - free) size * size - len
  if left < size / kRemainRatio then left + size else left

/-- The free bytes that a write of `len` bytes leaves. The first one finds two blocks. -/
def freeBehind (s : AsioBuffer) (len : Nat) : Nat :=
  leftBehind s.blockSize (if s.active then s.availableBytes else 2 * s.blockSize) len

theorem addedBlocks_left (positive : 0 < s.blockSize) (len : Nat) :
    s.availableBytes + s.addedBlocks len * s.blockSize - len =
      leftBehind s.blockSize s.availableBytes len := by
  unfold addedBlocks leftBehind spareBlocks
  by_cases found : len ≤ s.availableBytes
  · rw [if_pos found, Nat.sub_eq_zero_of_le found, rounds_zero positive, Nat.zero_mul,
      Nat.add_zero]
    dsimp only
    split
    · rw [Nat.one_mul, Nat.sub_add_comm found]
    · rw [Nat.zero_mul, Nat.add_zero]
  · have enough := le_rounds_mul positive (len - s.availableBytes)
    rw [if_neg found]
    dsimp only
    split
    · rw [Nat.add_mul, Nat.one_mul]
      omega
    · rw [Nat.add_zero]

theorem append_writableBytes (layout : Layout s) {data : List UInt8}
    (done : s.append data = some f) : f.writableBytes = s.freeBehind data.length := by
  have positive := layout.size_pos
  unfold freeBehind
  cases active : s.active with
  | true =>
      rw [(append_counted layout active done).writableBytes]
      exact addedBlocks_left positive data.length
  | false =>
      obtain ⟨first, fake, readIter, -⟩ := layout.inactive active
      have start := (activated_layout layout active first).1
      have again : (s.activated first).append data = some f := by
        rw [← done, append, append, checkActive_inactive active fake, checkActive_active rfl]
      have whole : (s.activated first).availableBytes = 2 * s.blockSize := by
        have none : (s.activated first).rotatedBytes = 0 := by
          rw [rotatedBytes]
          change ((s.activated first).buffer.take s.readBufferIter).flatten.length = 0
          rw [readIter]
          rfl
        rw [availableBytes, none]
        rfl
      rw [(append_counted start rfl again).writableBytes, addedBlocks_left start.size_pos, whole]
      rfl

/-- As long as the counters agree with the blocks, the bytes that are neither unread
nor before the read position are free. -/
theorem availableBytes_of_exact (layout : Layout s) (exact : Exact s) :
    s.availableBytes + (s.readIndex + s.readableBytes) = s.totalBytes := by
  have before : s.writeOffset < s.buffer.flatten.length := layout.write.offset_lt
  have ordered := layout.ordered
  have start : s.readOffset = s.rotatedBytes + s.readIndex := rfl
  rw [availableBytes, layout.readable, exact, layout.total]
  omega

/-- A write adds no blocks, or leaves them nearly full. -/
theorem Counted.total_le (counted : Counted s len f) (before : Layout s) (after : Layout f)
    (active : s.active = true) : f.totalBytes ≤ s.totalBytes ∨
      f.totalBytes ≤ f.readableBytes + (2 * s.blockSize + s.blockSize / kRemainRatio) := by
  cases added : s.addedBlocks len with
  | zero =>
      refine .inl ?_
      rw [counted.totalBytes, added, Nat.zero_mul]
      exact Nat.sub_le _ _
  | succ more =>
      refine .inr ?_
      have index : s.readIndex < s.blockSize := by
        obtain ⟨front, block, back, split, -, inside⟩ := before.read
        have member : block ∈ s.buffer := by simp [split]
        exact (before.blocks active block member) ▸ inside
      have readAt : f.readOffset = s.readIndex := by
        rw [readOffset, counted.readBufferIter, counted.readIndex, offset, List.take_zero]
        exact Nat.zero_add _
      have adds : 0 < s.addedBlocks len := added.symm ▸ Nat.succ_pos more
      have writable := addedBlocks_writable before.size_pos adds
      rw [← counted.writableBytes] at writable
      have room := after.room
      have readable := after.readable
      have ordered := after.ordered
      rw [after.total]
      omega

/-! ## The operations -/

/-- An operation leaves the size of the blocks alone, and either the blocks are no more
than before or than the first two, or they are nearly full. -/
structure Bounded (s f : AsioBuffer) : Prop where
  blockSize : f.blockSize = s.blockSize
  total : f.totalBytes ≤ max s.totalBytes (2 * s.blockSize) ∨
    f.totalBytes ≤ f.readableBytes + (2 * s.blockSize + s.blockSize / kRemainRatio)

theorem Counted.bounded {active : AsioBuffer} (counted : Counted active len f)
    (before : Layout active) (after : Layout f) (isActive : active.active = true)
    (size : active.blockSize = s.blockSize)
    (total : active.totalBytes ≤ max s.totalBytes (2 * s.blockSize)) : Bounded s f := by
  refine ⟨counted.blockSize.trans size, ?_⟩
  have bound := counted.total_le before after isActive
  rw [size] at bound
  exact bound.imp_left fun fewer => Nat.le_trans fewer total

theorem retrieve_bounded {invoked : Bool} (done : s.retrieve len = some (f, invoked)) :
    Bounded s f := by
  unfold AsioBuffer.retrieve at done
  split at done
  · obtain ⟨position, -, result⟩ := Option.map_eq_some_iff.mp done
    dsimp only at result
    split at result
    · cases result
      exact ⟨rfl, .inl (Nat.le_max_left _ _)⟩
    · cases result
      exact ⟨rfl, .inl (Nat.le_max_left _ _)⟩
  · cases done

theorem performs_bounded {op : Operation} (layout : Layout s) (admissible : s.Admissible op)
    (step : s.Performs op f) : Bounded s f := by
  have after := performs_layout layout admissible step
  obtain ⟨out, done⟩ := step
  cases op with
  | append data =>
      obtain ⟨g, appended, same⟩ := Option.map_eq_some_iff.mp done
      cases same
      cases active : s.active with
      | true =>
          exact (append_counted layout active appended).bounded layout after active rfl
            (Nat.le_max_left _ _)
      | false =>
          obtain ⟨first, fake, -⟩ := layout.inactive active
          have start := (activated_layout layout active first).1
          have again : (s.activated first).append data = some f := by
            rw [← appended, append, append, checkActive_inactive active fake,
              checkActive_active rfl]
          exact (append_counted start rfl again).bounded start after rfl rfl (Nat.le_max_right _ _)
  | hasWritten data =>
      obtain ⟨g, written, same⟩ := Option.map_eq_some_iff.mp done
      cases same
      have filled := fillMutable_layout layout admissible
      cases active : s.active with
      | true =>
          have still : (s.fillMutable data).active = true := active
          have counted := hasWritten_counted (checkActive_active still) filled still written
          exact counted.bounded filled after active rfl (Nat.le_max_left _ _)
      | false =>
          have still : (s.fillMutable data).active = false := active
          obtain ⟨first, fake, -⟩ := filled.inactive still
          have start := (activated_layout filled still first).1
          have counted :=
            hasWritten_counted (checkActive_inactive still fake) start rfl written
          exact counted.bounded start after rfl rfl (Nat.le_max_right _ _)
  | peek len =>
      obtain ⟨data, -, same⟩ := Option.map_eq_some_iff.mp done
      cases same
      exact ⟨rfl, .inl (Nat.le_max_left _ _)⟩
  | read len =>
      obtain ⟨data, -, rest⟩ := Option.bind_eq_some_iff.mp done
      obtain ⟨⟨g, invoked⟩, retrieved, same⟩ := Option.bind_eq_some_iff.mp rest
      cases same
      exact retrieve_bounded retrieved
  | retrieve len =>
      obtain ⟨⟨g, invoked⟩, retrieved, same⟩ := Option.map_eq_some_iff.mp done
      cases same
      exact retrieve_bounded retrieved

/-! ## Runs -/

/-- What the blocks hold was made by some state of the run, with a block to spare on
each side, or has been there all the time. -/
theorem reached_bounded {ops : List Operation} (layout : Layout s)
    (run : Reached Admissible Performs s ops f) : f.blockSize = s.blockSize ∧
      (f.totalBytes ≤ max s.totalBytes (2 * s.blockSize) ∨
        ∃ before behind middle, ops = before ++ behind ∧
          Reached Admissible Performs s before middle ∧
          Reached Admissible Performs middle behind f ∧
          f.totalBytes ≤ middle.readableBytes +
            (2 * s.blockSize + s.blockSize / kRemainRatio)) := by
  induction run with
  | nil s => exact ⟨rfl, .inl (Nat.le_max_left _ _)⟩
  | @cons s middle f op rest admissible step run ih =>
      obtain ⟨size, bound⟩ := performs_bounded layout admissible step
      obtain ⟨still, later⟩ := ih (performs_layout layout admissible step)
      rw [size] at still later
      refine ⟨still, ?_⟩
      obtain old | ⟨before, behind, peak, split, first, last, high⟩ := later
      · have spare := Nat.zero_le (s.blockSize / kRemainRatio)
        obtain same | high := bound
        · exact .inl (by omega)
        · refine .inr ⟨[op], rest, middle, rfl, .cons admissible step (.nil _), run, ?_⟩
          omega
      · exact .inr ⟨op :: before, behind, peak, congrArg (op :: ·) split,
          .cons admissible step first, last, high⟩

/-- The blocks of a buffer never hold more than the unread bytes of some moment of the
run and two and an eighth of a block. -/
theorem total_le_peak {initialSize : Nat} (positive : 0 < initialSize) {ops : List Operation}
    (run : Reached Admissible Performs (create initialSize) ops f) :
    f.totalBytes = f.buffer.flatten.length ∧
      ∃ before behind middle, ops = before ++ behind ∧
        Reached Admissible Performs (create initialSize) before middle ∧
        Reached Admissible Performs middle behind f ∧
        f.totalBytes ≤ middle.readableBytes + (2 * f.blockSize + f.blockSize / kRemainRatio) := by
  have layout := create_sized positive
  have after : Layout f := run.invariant_all
    (fun _ _ _ layout ok step => performs_layout layout ok step) layout
  obtain ⟨size, bound⟩ := reached_bounded layout run
  refine ⟨after.total, ?_⟩
  rw [size]
  obtain small | found := bound
  · have one : (create initialSize).totalBytes = 1 := rfl
    have wide := layout.size_pos
    have spare := Nat.zero_le ((create initialSize).blockSize / kRemainRatio)
    exact ⟨[], ops, _, rfl, .nil _, run, by omega⟩
  · exact found

/-- Two blocks are written and read, and a byte is written. -/
def drainedRun : List Operation :=
  [.append (List.replicate 1024 1), .read 1024, .append [2]]

theorem drainedRun_bounded : ∃ f middle behind,
    performAll (create kInitialSize) drainedRun = some f ∧
      f.buffer.flatten.length = 1536 ∧ f.readableBytes = 1 ∧
      Reached Admissible Performs middle behind f ∧ 1536 ≤ middle.readableBytes + 1088 := by
  have runs : (performAll (create kInitialSize) drainedRun).any (fun f =>
      f.totalBytes = 1536 ∧ f.readableBytes = 1 ∧ f.blockSize = 512) = true := by
    decide +kernel
  obtain ⟨f, done, facts⟩ := (Option.any_eq_true _ _).mp runs
  obtain ⟨total, unread, size⟩ := of_decide_eq_true facts
  obtain ⟨same, before, behind, middle, -, -, last, bound⟩ :=
    total_le_peak (by decide) (performAll_reached done)
  rw [total, size] at bound
  exact ⟨f, middle, behind, done, same.symm.trans total, unread, last, bound⟩

end FysobEngine.Net.AsioBuffer
