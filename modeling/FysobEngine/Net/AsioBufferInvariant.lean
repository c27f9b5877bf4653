import FysobEngine.Net.AsioBufferQueue

/-!
# The representation invariant of the block buffer

Three counters and two positions describe one list of blocks. They agree with
it as long as `adjust_buffer` removes no block.
-/

namespace FysobEngine.Net.AsioBuffer

open Foundation.Segments Foundation.Runs

/-- The counters and positions are those of the list of blocks. -/
structure RepInvariant (s : AsioBuffer) : Prop where
  total : s.totalBytes = (s.buffer.map List.length).sum
  read : Position s.buffer s.readBufferIter s.readIndex
  write : Position s.buffer s.writeBufferIter s.writeIndex
  ordered : s.readOffset ≤ s.writeOffset
  readable : s.readableBytes = s.writeOffset - s.readOffset
  writable : s.writableBytes = (s.buffer.map List.length).sum - s.writeOffset
  mutableBytes : segmentsLength s.mutableBuffer = s.writableBytes
  writeBufferBytes : segmentsLength s.writeBuffer = s.writableBytes

/-- The operation is defined, keeps the invariant, and a write leaves room for
at least one more byte. -/
def Represented (s : AsioBuffer) (op : Operation) : Prop :=
  ∃ f out, s.perform op = some (f, out) ∧ RepInvariant f ∧
    (writeLength op ≠ none → 1 ≤ f.writableBytes)

theorem sum_lengths (blocks : List DataBlock) :
    (blocks.map List.length).sum = blocks.flatten.length :=
  List.length_flatten.symm

theorem Layout.represented {s : AsioBuffer} (layout : Layout s) (exact : Exact s) :
    RepInvariant s := by
  have behind : segmentsLength s.mutableBuffer = s.writableBytes := by
    rw [mutableBuffer, segmentsFrom_length layout.write, exact]
    rfl
  constructor
  · rw [sum_lengths]
    exact layout.total
  · exact layout.read
  · exact layout.write
  · exact layout.ordered
  · exact layout.readable
  · rw [sum_lengths]
    exact exact
  · exact behind
  · exact behind

theorem RepInvariant.exact {s : AsioBuffer} (inv : RepInvariant s) : Exact s := by
  have writable := inv.writable
  rw [sum_lengths] at writable
  exact writable

/-- There is always a byte behind the write position. -/
theorem Layout.writable_pos {s : AsioBuffer} (layout : Layout s) : 1 ≤ s.writableBytes := by
  have room := layout.room
  have inside : s.writeOffset < s.buffer.flatten.length := layout.write.offset_lt
  omega

/-- Blocks that `adjust_buffer` does not remove leave room for a write. -/
theorem WriteKeepsBlocks.fits {s : AsioBuffer} (layout : Layout s) (exact : Exact s)
    {op : Operation} (keeps : s.WriteKeepsBlocks op) : s.WriteFits op := by
  intro len write active
  exact exact.fits layout (keeps len write active)

/-- In a laid-out state with exact counters an operation keeps them exact
precisely when it removes no block. -/
theorem represented_iff {s : AsioBuffer} (layout : Layout s) (exact : Exact s)
    {op : Operation} (admissible : s.Admissible op) :
    s.Represented op ↔ s.WriteKeepsBlocks op := by
  cases write : writeLength op with
  | none =>
      obtain ⟨f, out, done, _, after, keeps⟩ := read_only layout admissible write
      refine iff_of_true ⟨f, out, done, after.represented (keeps exact), ?_⟩ ?_
      · intro impossible
        exact absurd write impossible
      · intro len impossible
        rw [write] at impossible
        cases impossible
  | some len =>
      constructor
      · rintro ⟨f, out, done, inv, _⟩
        have fits := fits_of_perform layout admissible done
        obtain ⟨g, again, _, _, keeps⟩ := write_some layout admissible write fits
        rw [done, Option.some.injEq, Prod.mk.injEq] at again
        rw [← again.1] at keeps
        exact (keeps exact).mp inv.exact
      · intro same
        have fits := WriteKeepsBlocks.fits layout exact same
        obtain ⟨f, done, _, after, keeps⟩ := write_some layout admissible write fits
        refine ⟨f, [], done, after.represented ((keeps exact).mpr same), ?_⟩
        intro _
        exact after.writable_pos

theorem Represented.keep {s f : AsioBuffer} {op : Operation} (meets : s.Represented op)
    (step : s.Performs op f) : RepInvariant f := by
  obtain ⟨g, out, done, inv, _⟩ := meets
  obtain ⟨other, again⟩ := step
  rw [done, Option.some.injEq, Prod.mk.injEq] at again
  rw [← again.1]
  exact inv

/-- Every state of a run satisfies the representation invariant, with a
writable byte behind every write, if and only if no write of the run removes
blocks. -/
theorem run_represented_iff (ops : List Operation) :
    (RepInvariant (create kInitialSize) ∧
        Along Admissible Performs Represented (create kInitialSize) ops) ↔
      Along Admissible Performs WriteKeepsBlocks (create kInitialSize) ops := by
  obtain ⟨layout, exact⟩ := create_layout
  have runs : Along Admissible Performs Represented (create kInitialSize) ops ↔
      Along Admissible Performs WriteKeepsBlocks (create kInitialSize) ops := by
    apply along_congr (I := fun s => Layout s ∧ Exact s)
    · rintro s op ⟨layout, exact⟩ ok
      exact represented_iff layout exact ok
    · rintro s op f ⟨layout, exact⟩ ok meets step
      exact ⟨performs_layout layout ok step, (meets.keep step).exact⟩
    · exact create_layout
  rw [runs]
  constructor
  · rintro ⟨_, run⟩
    exact run
  · intro run
    exact ⟨layout.represented exact, run⟩

/-- After the removal `writable_bytes_` counts 512 bytes that are not there. -/
theorem lowUseRun_not_represented :
    ¬ ∀ ops, RepInvariant (create kInitialSize) ∧
      Along Admissible Performs Represented (create kInitialSize) ops := by
  intro all
  obtain ⟨start, run⟩ := all lowUseRun
  have drifted : (performAll (create kInitialSize) lowUseRun).any
      (fun s => s.writableBytes == segmentsLength s.mutableBuffer + 512) = true := by
    decide +kernel
  obtain ⟨last, done, counted⟩ := (Option.any_eq_true _ _).mp drifted
  have inv : RepInvariant last :=
    (performAll_reached done).invariant (I := RepInvariant)
      (fun _ _ _ _ _ meets step => meets.keep step) run start
  rw [inv.mutableBytes, beq_iff_eq] at counted
  omega

end FysobEngine.Net.AsioBuffer
