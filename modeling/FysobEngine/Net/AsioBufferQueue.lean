import FysobEngine.Foundation.Runs
import FysobEngine.Net.AsioBufferWrite

/-!
# Runs of the block buffer against a queue of bytes

The operations that the rest of the engine performs on a buffer, one action
each, and the plain queue they stand for.
-/

namespace FysobEngine.Net.AsioBuffer

open Foundation.Segments Foundation.Runs

inductive Operation where
  | append (data : List UInt8)
  /-- Fill the first bytes of `mutable_buffer()`, then `has_written`. -/
  | hasWritten (data : List UInt8)
  | peek (len : Nat)
  | read (len : Nat)
  | retrieve (len : Nat)
  deriving DecidableEq, Repr

/-- The operation on the block buffer, with the bytes it returns. -/
def perform (s : AsioBuffer) : Operation → Option (AsioBuffer × List UInt8)
  | .append data => (s.append data).map fun s => (s, [])
  | .hasWritten data =>
      ((s.fillMutable data).hasWritten data.length).map fun s => (s, [])
  | .peek len => (s.peek len).map fun data => (s, data)
  | .read len => s.read len
  | .retrieve len => (s.retrieve len).map fun (s, _) => (s, [])

/-- The operation on a plain list of unread bytes. -/
def queue (unread : List UInt8) : Operation → List UInt8 × List UInt8
  | .append data => (unread ++ data, [])
  | .hasWritten data => (unread ++ data, [])
  | .peek len => (unread, unread.take len)
  | .read len => (unread.drop len, unread.take len)
  | .retrieve len => (unread.drop len, [])

/-- A caller writes no more than `mutable_buffer()` holds and asks for no more
than is readable. -/
def Admissible (s : AsioBuffer) : Operation → Prop
  | .append _ => True
  | .hasWritten data => data.length ≤ segmentsLength s.mutableBuffer
  | .peek len => len ≤ s.readableBytes
  | .read len => len ≤ s.readableBytes
  | .retrieve len => len ≤ s.readableBytes

instance (s : AsioBuffer) (op : Operation) : Decidable (s.Admissible op) := by
  cases op <;> unfold Admissible <;> infer_instance

/-- One operation, whatever it returns. -/
def Performs (s : AsioBuffer) (op : Operation) (f : AsioBuffer) : Prop :=
  ∃ out, s.perform op = some (f, out)

/-- The operation is defined and does what the queue does. -/
def ActsAsQueue (s : AsioBuffer) (op : Operation) : Prop :=
  ∃ f out, s.perform op = some (f, out) ∧ queue s.content op = (f.content, out) ∧
    f.readableBytes = f.content.length

/-- The number of bytes that a write stores. -/
def writeLength : Operation → Option Nat
  | .append data => some data.length
  | .hasWritten data => some data.length
  | _ => none

/-- A write to an active buffer fits into the blocks that `adjust_buffer` leaves. -/
def WriteFits (s : AsioBuffer) (op : Operation) : Prop :=
  ∀ len, writeLength op = some len → s.active = true → s.Fits len

instance (s : AsioBuffer) (op : Operation) : Decidable (s.WriteFits op) :=
  decidable_of_iff (∀ len ∈ writeLength op, s.active = true → s.Fits len) Iff.rfl

/-- A write to an active buffer makes `adjust_buffer` remove no block. -/
def WriteKeepsBlocks (s : AsioBuffer) (op : Operation) : Prop :=
  ∀ len, writeLength op = some len → s.active = true → s.removedBlocks len = 0

/-! ## Filling `mutable_buffer()` -/

theorem fillMutable_lengths {s : AsioBuffer} (layout : Layout s) {data : List UInt8}
    (inside : data.length ≤ segmentsLength s.mutableBuffer) :
    (s.fillMutable data).buffer.map List.length = s.buffer.map List.length ∧
      (s.fillMutable data).buffer.flatten = overwrite s.buffer.flatten s.writeOffset data := by
  have room : segmentsLength s.mutableBuffer = s.buffer.flatten.length - s.writeOffset :=
    segmentsFrom_length layout.write
  have bound : s.writeOffset < s.buffer.flatten.length := layout.write.offset_lt
  exact fillSegments_from layout.write (by
    change s.writeOffset + _ ≤ _
    omega)

theorem fillMutable_layout {s : AsioBuffer} (layout : Layout s) {data : List UInt8}
    (inside : data.length ≤ segmentsLength s.mutableBuffer) : Layout (s.fillMutable data) :=
  layout.of_lengths (fillMutable_lengths layout inside).1

/-- The bytes filled in are the ones the advance will cover. -/
theorem fillMutable_span {s : AsioBuffer} (layout : Layout s) {data : List UInt8}
    (inside : data.length ≤ segmentsLength s.mutableBuffer) :
    (s.fillMutable data).span data.length = s.content ++ data := by
  obtain ⟨lengths, bytes⟩ := fillMutable_lengths layout inside
  have room : segmentsLength s.mutableBuffer = s.buffer.flatten.length - s.writeOffset :=
    segmentsFrom_length layout.write
  have bound : s.writeOffset < s.buffer.flatten.length := layout.write.offset_lt
  have writeAt : (s.fillMutable data).writeOffset = s.writeOffset := offset_congr lengths _ _
  have readAt : (s.fillMutable data).readOffset = s.readOffset := offset_congr lengths _ _
  unfold span
  rw [bytes, writeAt, readAt, slice_overwrite layout.ordered (by omega)]
  rfl

/-- The counters do not see the bytes: there is as much room, and as much is added. -/
theorem fillMutable_room {s : AsioBuffer} (layout : Layout s) {data : List UInt8}
    (inside : data.length ≤ segmentsLength s.mutableBuffer) (len : Nat) :
    (s.fillMutable data).buffer.length = s.buffer.length ∧
      (s.fillMutable data).rotatedBytes = s.rotatedBytes ∧
      (s.fillMutable data).availableBytes = s.availableBytes ∧
      (s.fillMutable data).addedBlocks len = s.addedBlocks len := by
  obtain ⟨lengths, _⟩ := fillMutable_lengths layout inside
  have turned : (s.fillMutable data).rotatedBytes = s.rotatedBytes := by
    have front := congrArg (List.take s.readBufferIter) lengths
    rw [← List.map_take, ← List.map_take] at front
    exact flatten_length_congr front
  have available : (s.fillMutable data).availableBytes = s.availableBytes := by
    rw [availableBytes, turned]
    rfl
  refine ⟨by simpa using congrArg List.length lengths, turned, available, ?_⟩
  rw [addedBlocks, available]
  rfl

theorem fillMutable_exact {s : AsioBuffer} (layout : Layout s) {data : List UInt8}
    (inside : data.length ≤ segmentsLength s.mutableBuffer) (exact : Exact s) :
    Exact (s.fillMutable data) := by
  obtain ⟨lengths, _⟩ := fillMutable_lengths layout inside
  rw [Exact, flatten_length_congr lengths, writeOffset, offset_congr lengths]
  exact exact

/-- So as much is removed. -/
theorem fillMutable_counters {s : AsioBuffer} (layout : Layout s) {data : List UInt8}
    (inside : data.length ≤ segmentsLength s.mutableBuffer) (len : Nat) :
    (s.fillMutable data).removedBlocks len = s.removedBlocks len ∧
      ((s.fillMutable data).Fits len ↔ s.Fits len) := by
  obtain ⟨lengths, _⟩ := fillMutable_lengths layout inside
  obtain ⟨count, turned, available, added⟩ := fillMutable_room layout inside len
  have room : segmentsLength (s.fillMutable data).mutableBuffer =
      segmentsLength s.mutableBuffer := by
    have filled := fillMutable_layout layout inside
    rw [mutableBuffer, segmentsFrom_length filled.write, mutableBuffer,
      segmentsFrom_length layout.write, flatten_length_congr lengths]
    congr 1
    exact offset_congr lengths _ _
  have reached : (s.fillMutable data).lowUseReached len = s.lowUseReached len := by
    rw [lowUseReached, count, added, available]
    rfl
  have removed : (s.fillMutable data).removedBlocks len = s.removedBlocks len := by
    rw [removedBlocks, available, reached, added]
    rfl
  refine ⟨removed, ?_⟩
  unfold Fits
  rw [removed, room, turned, added]
  exact Iff.rfl

/-! ## One write -/

theorem Wrote.exact_iff {s f : AsioBuffer} {len : Nat} (wrote : Wrote s len f)
    (layout : Layout s) (exact : Exact s) : Exact f ↔ s.removedBlocks len = 0 := by
  obtain ⟨after, _, bytes, place, writable⟩ := wrote
  have positive := layout.size_pos
  have inside : f.writeOffset < f.buffer.flatten.length := after.write.offset_lt
  have before : s.writeOffset < s.buffer.flatten.length := layout.write.offset_lt
  unfold Exact at exact ⊢
  rw [writable, availableBytes, exact]
  constructor
  · intro same
    -- every removed block is one that `writable_bytes_` still counts
    have none : s.removedBlocks len * s.blockSize = 0 := by omega
    exact (Nat.mul_eq_zero.mp none).resolve_right (Nat.ne_of_gt positive)
  · intro none
    rw [none, Nat.zero_mul] at bytes
    omega

/-- The first write never removes a block and leaves the counters exact. -/
theorem Wrote.exact_first {s f : AsioBuffer} {len : Nat} (layout : Layout s)
    (inactive : s.active = false) {first : UInt8} (wrote : Wrote (s.activated first) len f) :
    Exact f := by
  obtain ⟨activeLayout, exact, _, _⟩ := activated_layout layout inactive first
  exact (wrote.exact_iff activeLayout exact).mpr (activated_removedBlocks layout first len)

/-- A write that came to its end: the bytes are behind the unread ones, and the
counters stay exact if it removed no block. -/
structure Appends (s : AsioBuffer) (data : List UInt8) (f : AsioBuffer) : Prop where
  layout : Layout f
  content : f.content = s.content ++ data
  exact : Exact s → (Exact f ↔ (s.active = true → s.removedBlocks data.length = 0))

theorem append_active {s : AsioBuffer} (layout : Layout s) (active : s.active = true)
    {data : List UInt8} (fits : s.Fits data.length) :
    ∃ f, s.append data = some f ∧ Appends s data f := by
  obtain ⟨f, done, wrote, bytes⟩ := append_some layout active fits
  refine ⟨f, done, wrote.layout, bytes, ?_⟩
  intro exact
  rw [wrote.exact_iff layout exact]
  exact ⟨fun none _ => none, fun none => none active⟩

theorem append_first {s : AsioBuffer} (layout : Layout s) (inactive : s.active = false)
    (data : List UInt8) : ∃ f, s.append data = some f ∧ Appends s data f := by
  obtain ⟨first, fake, _⟩ := layout.inactive inactive
  obtain ⟨activeLayout, exact, _, _⟩ := activated_layout layout inactive first
  have room := exact.fits activeLayout (activated_removedBlocks layout first data.length)
  obtain ⟨f, done, wrote, bytes⟩ := append_some activeLayout rfl room
  have same : s.append data = (s.activated first).append data := by
    rw [append, checkActive_inactive inactive fake, append, checkActive_active rfl]
  have start := activated_span layout inactive fake 0 (Nat.zero_le _)
  refine ⟨f, same.trans done, wrote.layout, ?_, ?_⟩
  · rw [bytes, content, content, start]
  · intro _
    refine iff_of_true (wrote.exact_first layout inactive) fun active => ?_
    rw [inactive] at active
    cases active

/-- The bytes filled in are still ahead of the write position. -/
theorem fillMutable_inside {s : AsioBuffer} (layout : Layout s) {data : List UInt8}
    (inside : data.length ≤ segmentsLength s.mutableBuffer) :
    data.length ≤ segmentsLength (s.fillMutable data).mutableBuffer := by
  obtain ⟨lengths, _⟩ := fillMutable_lengths layout inside
  rw [mutableBuffer, segmentsFrom_length (fillMutable_layout layout inside).write,
    flatten_length_congr lengths, offset_congr lengths]
  rw [mutableBuffer, segmentsFrom_length layout.write] at inside
  exact inside

theorem hasWritten_active {s : AsioBuffer} (layout : Layout s) (active : s.active = true)
    {data : List UInt8} (inside : data.length ≤ segmentsLength s.mutableBuffer)
    (fits : s.Fits data.length) :
    ∃ f, (s.fillMutable data).hasWritten data.length = some f ∧ Appends s data f := by
  have filled := fillMutable_layout layout inside
  obtain ⟨removed, fitsFilled⟩ := fillMutable_counters layout inside data.length
  obtain ⟨f, done, wrote, bytes⟩ :=
    hasWritten_some filled active (fillMutable_inside layout inside) (fitsFilled.mpr fits)
  refine ⟨f, done, wrote.layout, bytes.trans (fillMutable_span layout inside), ?_⟩
  intro exact
  have filledExact := fillMutable_exact layout inside exact
  rw [wrote.exact_iff filled filledExact, removed]
  exact ⟨fun none _ => none, fun none => none active⟩

/-- A buffer that was never written to holds one byte, which activation keeps. -/
theorem hasWritten_first {s : AsioBuffer} (layout : Layout s) (inactive : s.active = false)
    {data : List UInt8} (inside : data.length ≤ segmentsLength s.mutableBuffer) :
    ∃ f, (s.fillMutable data).hasWritten data.length = some f ∧ Appends s data f := by
  have filled := fillMutable_layout layout inside
  have within := fillMutable_inside layout inside
  have still : (s.fillMutable data).active = false := inactive
  obtain ⟨first, fake, _⟩ := filled.inactive still
  obtain ⟨activeLayout, exact, _, writeAt⟩ := activated_layout filled still first
  have room := exact.fits activeLayout (activated_removedBlocks filled first data.length)
  have one : data.length ≤ 1 := by
    rw [mutableBuffer, segmentsFrom_length filled.write, fake] at within
    exact Nat.le_trans within (Nat.sub_le _ _)
  have wide : data.length ≤
      segmentsLength (activated (s.fillMutable data) first).mutableBuffer := by
    have positive := activeLayout.write.offset_lt
    rw [mutableBuffer, segmentsFrom_length activeLayout.write]
    omega
  obtain ⟨f, done, wrote, bytes⟩ := hasWritten_some activeLayout rfl wide room
  have same : (s.fillMutable data).hasWritten data.length =
      (activated (s.fillMutable data) first).hasWritten data.length := by
    have counted := filled.room
    have activeCounted := activeLayout.room
    rw [mutableBuffer, segmentsFrom_length filled.write] at within
    rw [mutableBuffer, segmentsFrom_length activeLayout.write] at wide
    unfold writeOffset at counted activeCounted
    rw [hasWritten, if_pos (by omega), checkActive_inactive still fake, hasWritten,
      if_pos (by omega), checkActive_active rfl]
  have start := activated_span filled still fake _ one
  refine ⟨f, same.trans done, wrote.layout, ?_, ?_⟩
  · rw [bytes, start, fillMutable_span layout inside]
  · intro _
    refine iff_of_true (wrote.exact_first filled still) fun active => ?_
    rw [inactive] at active
    cases active

/-- Both kinds of write: defined when the bytes fit, and then they append. -/
theorem write_some {s : AsioBuffer} (layout : Layout s) {op : Operation} {len : Nat}
    (admissible : s.Admissible op) (write : writeLength op = some len)
    (fits : s.WriteFits op) :
    ∃ f, s.perform op = some (f, []) ∧ queue s.content op = (f.content, []) ∧ Layout f ∧
      (Exact s → (Exact f ↔ s.WriteKeepsBlocks op)) := by
  have keeps : s.WriteKeepsBlocks op ↔ (s.active = true → s.removedBlocks len = 0) := by
    constructor
    · intro all
      exact all len write
    · intro none other same
      rw [write, Option.some.injEq] at same
      rw [← same]
      exact none
  rw [keeps]
  cases op with
  | append data =>
      obtain rfl : data.length = len := Option.some.inj write
      have appended : ∃ f, s.append data = some f ∧ Appends s data f := by
        cases active : s.active with
        | true => exact append_active layout active (fits _ rfl active)
        | false => exact append_first layout active data
      obtain ⟨f, done, appends⟩ := appended
      exact ⟨f, by rw [perform, done]; rfl, by rw [queue, appends.content], appends.layout,
        appends.exact⟩
  | hasWritten data =>
      obtain rfl : data.length = len := Option.some.inj write
      have appended : ∃ f, (s.fillMutable data).hasWritten data.length = some f ∧
          Appends s data f := by
        cases active : s.active with
        | true => exact hasWritten_active layout active admissible (fits _ rfl active)
        | false => exact hasWritten_first layout active admissible
      obtain ⟨f, done, appends⟩ := appended
      exact ⟨f, by rw [perform, done]; rfl, by rw [queue, appends.content], appends.layout,
        appends.exact⟩
  | peek len => cases write
  | read len => cases write
  | retrieve len => cases write

theorem write_none {s : AsioBuffer} (layout : Layout s) {op : Operation}
    (admissible : s.Admissible op) (short : ¬ s.WriteFits op) : s.perform op = none := by
  unfold WriteFits at short
  simp only [Classical.not_forall] at short
  obtain ⟨len, write, active, short⟩ := short
  cases op with
  | append data =>
      obtain rfl : data.length = len := Option.some.inj write
      rw [perform, append_none layout active short, Option.map_none]
  | hasWritten data =>
      obtain rfl : data.length = len := Option.some.inj write
      have filled := fillMutable_layout layout admissible
      have counters := (fillMutable_counters layout admissible data.length).2
      rw [perform, hasWritten_none filled active (fun fits => short (counters.mp fits)),
        Option.map_none]
  | peek len => cases write
  | read len => cases write
  | retrieve len => cases write

/-- A write that returns has found room. -/
theorem fits_of_perform {s f : AsioBuffer} (layout : Layout s) {op : Operation}
    {out : List UInt8} (admissible : s.Admissible op) (done : s.perform op = some (f, out)) :
    s.WriteFits op := by
  apply Classical.byContradiction
  intro short
  rw [write_none layout admissible short] at done
  cases done

/-- The operations that do not write are always defined. -/
theorem read_only {s : AsioBuffer} (layout : Layout s) {op : Operation}
    (admissible : s.Admissible op) (write : writeLength op = none) :
    ∃ f out, s.perform op = some (f, out) ∧ queue s.content op = (f.content, out) ∧
      Layout f ∧ (Exact s → Exact f) := by
  cases op with
  | append data => cases write
  | hasWritten data => cases write
  | peek len =>
      refine ⟨s, s.content.take len, ?_, rfl, layout, id⟩
      rw [perform, peek_some layout admissible, Option.map_some]
  | read len =>
      obtain ⟨f, done, after, bytes, exact⟩ := read_some layout admissible
      exact ⟨f, s.content.take len, done, by rw [queue, bytes], after, exact⟩
  | retrieve len =>
      obtain ⟨f, notified, done, after, bytes, exact⟩ := retrieve_some layout admissible
      refine ⟨f, [], by rw [perform, done]; rfl, by rw [queue, bytes], after, exact⟩

/-! ## Runs -/

theorem create_sized {initialSize : Nat} (positive : 0 < initialSize) :
    Layout (create initialSize) := by
  have start : Position (create initialSize).buffer 0 0 :=
    ⟨[], newBlock 1, [], rfl, rfl, Nat.one_pos⟩
  have size : kInitialSize ≤ (create initialSize).blockSize := by
    have unit : kInitialSize = 512 := rfl
    simp only [create, unit]
    split
    · omega
    · omega
  exact {
    read := start
    write := start
    ordered := Nat.le_refl _
    readable := rfl
    total := rfl
    room := Nat.le_refl _
    size
    lowUse := Nat.succ_pos 9
    blocks := nofun
    fake := fun _ => rfl }

theorem create_layout : Layout (create kInitialSize) ∧ Exact (create kInitialSize) :=
  ⟨create_sized (by decide), rfl⟩

/-- In a laid-out state an admissible operation acts as on the queue exactly
when a write fits, and it keeps the layout. -/
theorem actsAsQueue_iff {s : AsioBuffer} (layout : Layout s) {op : Operation}
    (admissible : s.Admissible op) : s.ActsAsQueue op ↔ s.WriteFits op := by
  cases write : writeLength op with
  | none =>
      obtain ⟨f, out, done, same, after, _⟩ := read_only layout admissible write
      refine iff_of_true ⟨f, out, done, same, (content_length after).symm⟩ ?_
      intro len impossible
      rw [write] at impossible
      cases impossible
  | some len =>
      constructor
      · rintro ⟨f, out, done, _⟩
        apply Classical.byContradiction
        intro short
        rw [write_none layout admissible short] at done
        cases done
      · intro fits
        obtain ⟨f, done, same, after, _⟩ := write_some layout admissible write fits
        exact ⟨f, [], done, same, (content_length after).symm⟩

theorem performs_layout {s f : AsioBuffer} (layout : Layout s) {op : Operation}
    (admissible : s.Admissible op) (step : s.Performs op f) : Layout f := by
  obtain ⟨out, done⟩ := step
  cases write : writeLength op with
  | none =>
      obtain ⟨g, other, again, _, after, _⟩ := read_only layout admissible write
      rw [done, Option.some.injEq, Prod.mk.injEq] at again
      rw [again.1]
      exact after
  | some len =>
      have fits := fits_of_perform layout admissible done
      obtain ⟨g, again, _, after, _⟩ := write_some layout admissible write fits
      rw [done, Option.some.injEq, Prod.mk.injEq] at again
      rw [again.1]
      exact after

/-- Every operation of a run acts as on a queue of bytes if and only if every
write of the run fits into the blocks that `adjust_buffer` leaves for it. -/
theorem run_actsAsQueue_iff (ops : List Operation) :
    Along Admissible Performs ActsAsQueue (create kInitialSize) ops ↔
      Along Admissible Performs WriteFits (create kInitialSize) ops :=
  along_congr (I := Layout) (fun _ _ layout ok => actsAsQueue_iff layout ok)
    (fun _ _ _ layout ok _ step => performs_layout layout ok step) create_layout.1 ops

/-- The state behind a list of admissible operations. -/
def performAll : AsioBuffer → List Operation → Option AsioBuffer
  | s, [] => some s
  | s, op :: rest =>
      if s.Admissible op then (s.perform op).bind fun (f, _) => performAll f rest else none

theorem performAll_reached {s last : AsioBuffer} {ops : List Operation}
    (done : performAll s ops = some last) : Reached Admissible Performs s ops last := by
  induction ops generalizing s with
  | nil =>
      cases done
      exact .nil _
  | cons op rest ih =>
      rw [performAll] at done
      split at done
      · next ok =>
          obtain ⟨⟨f, out⟩, step, tail⟩ := Option.bind_eq_some_iff.mp done
          exact .cons ok ⟨out, step⟩ (ih tail)
      · cases done

/-- Eleven appends that fill three blocks and leave ten counts of low use. -/
def lowUseRun : List Operation :=
  .append (List.replicate 1473 0) :: List.replicate 10 (.append [1])

/-- The removal takes bytes off the list that `writable_bytes_` still counts, so
the next append runs past the end. -/
theorem lowUseRun_not_queue :
    ¬ ∀ ops, Along Admissible Performs ActsAsQueue (create kInitialSize) ops := by
  intro all
  have failing : (performAll (create kInitialSize) lowUseRun).any
      (fun s => (s.perform (.append (List.replicate 53 2))).isNone) = true := by
    decide +kernel
  obtain ⟨last, done, undefined⟩ := (Option.any_eq_true _ _).mp failing
  have run := all (lowUseRun ++ [.append (List.replicate 53 2)])
  obtain ⟨f, out, step, _⟩ := run.behind (performAll_reached done) trivial
  rw [step] at undefined
  cases undefined

/-! ## Buffers of every initial size -/

/-- A buffer with `initial_size` zero. Its blocks would hold nothing, so that no
write comes to its end. -/
structure Blank (s : AsioBuffer) : Prop where
  size : s.blockSize = 0
  inactive : s.active = false
  fake : s.buffer.map List.length = [1]
  readIter : s.readBufferIter = 0
  writeIter : s.writeBufferIter = 0
  readIndex : s.readIndex = 0
  writeIndex : s.writeIndex = 0
  readable : s.readableBytes = 0
  lowUse : s.lowUseCount = 0

theorem create_blank : Blank (create 0) :=
  ⟨rfl, rfl, rfl, rfl, rfl, rfl, rfl, rfl, rfl⟩

theorem growLoop_blank {s : AsioBuffer} (size : s.blockSize = 0) (fuel remainLen : Nat) :
    growLoop fuel (remainLen + 1) s = none := by
  induction fuel generalizing s with
  | zero => rfl
  | succ fuel ih =>
      rw [growLoop, size, if_pos (Nat.succ_pos _), Nat.sub_zero]
      exact ih size

theorem Blank.activated_blocks {s : AsioBuffer} (blank : Blank s) (first : UInt8) :
    (s.activated first).buffer = [[], []] := by
  rw [activated, blank.size]
  rfl

/-- A write of nothing finds two empty blocks, any other write grows forever. -/
theorem Blank.adjustBuffer {s : AsioBuffer} (blank : Blank s) (first : UInt8) (len : Nat) :
    (s.activated first).adjustBuffer len = if len = 0 then some (s.activated first) else none := by
  have size : (s.activated first).blockSize = 0 := blank.size
  have room : (s.activated first).writableBytes = 0 := by
    change 2 * s.blockSize = 0
    rw [blank.size]
  have readIter : (s.activated first).readBufferIter = 0 := blank.readIter
  unfold AsioBuffer.adjustBuffer
  rw [readIter, rotateLoop]
  dsimp only [Option.bind_eq_bind, Option.bind_some]
  by_cases none : len = 0
  · have low : (s.activated first).countLowUse = s.activated first := by
      refine if_neg fun both => ?_
      rw [blank.activated_blocks] at both
      exact absurd both.1 (by decide)
    have spare : (s.activated first).checkToAddBlock 0 = some (s.activated first) := by
      rw [checkToAddBlock, if_pos (Nat.zero_le _), if_neg]
      rw [size]
      exact Nat.not_lt_zero _
    subst none
    rw [if_pos rfl, if_pos (Nat.zero_le _), spare, Option.bind_some, low, if_neg]
    change ¬ _ ≤ s.lowUseCount
    rw [blank.lowUse]
    decide
  · obtain ⟨remainLen, rfl⟩ := Nat.exists_eq_add_one_of_ne_zero none
    rw [room, if_neg none, if_neg (Nat.not_succ_le_zero _), Nat.sub_zero, growLoop_blank]
    · rfl
    · exact size

theorem Blank.fakeByte {s : AsioBuffer} (blank : Blank s) : ∃ first, s.buffer = [[first]] := by
  obtain ⟨block, buffer, length⟩ := List.map_eq_singleton_iff.mp blank.fake
  obtain ⟨first, rfl⟩ := List.length_eq_one_iff.mp length
  exact ⟨first, buffer⟩

theorem Blank.append {s : AsioBuffer} (blank : Blank s) (data : List UInt8) :
    s.append data = none := by
  obtain ⟨first, fake⟩ := blank.fakeByte
  have writeIter : (s.activated first).writeBufferIter = 0 := blank.writeIter
  have writeIndex : (s.activated first).writeIndex = 0 := blank.writeIndex
  rw [AsioBuffer.append, checkActive_inactive blank.inactive fake]
  dsimp only [Option.bind_eq_bind, Option.bind_some]
  rw [blank.adjustBuffer]
  split
  · next nothing =>
      obtain rfl := List.eq_nil_of_length_eq_zero nothing
      rw [Option.bind_some, writeIter, writeIndex, blank.activated_blocks]
      rfl
  · rfl

theorem Blank.hasWritten {s : AsioBuffer} (blank : Blank s) (len : Nat) :
    s.hasWritten len = none := by
  obtain ⟨first, fake⟩ := blank.fakeByte
  have writeIter : (s.activated first).writeBufferIter = 0 := blank.writeIter
  have writeIndex : (s.activated first).writeIndex = 0 := blank.writeIndex
  rw [AsioBuffer.hasWritten]
  split
  · rw [checkActive_inactive blank.inactive fake]
    dsimp only [Option.bind_eq_bind, Option.bind_some]
    rw [blank.adjustBuffer]
    split
    · next nothing =>
        subst nothing
        rw [Option.bind_some, advanceWrite, writeIter, writeIndex, blank.activated_blocks]
        rfl
    · rfl
  · rfl

theorem Blank.retrieve {s f : AsioBuffer} (blank : Blank s) {len : Nat} {invoked : Bool}
    (done : s.retrieve len = some (f, invoked)) : Blank f := by
  obtain ⟨first, fake⟩ := blank.fakeByte
  unfold AsioBuffer.retrieve at done
  split at done
  · next inside =>
      rw [blank.readable] at inside
      obtain rfl := Nat.le_zero.mp inside
      have start : adjustIndex s.buffer 0 s.readBufferIter s.readIndex = some (0, 0) := by
        rw [blank.readIter, blank.readIndex, fake]
        rfl
      rw [start, Option.map_some, Option.some.injEq] at done
      have left : s.readableBytes - 0 = 0 := blank.readable
      dsimp only at done
      split at done
      · cases done
        exact { blank with readIter := rfl, readIndex := rfl, readable := left }
      · cases done
        exact { blank with readIter := rfl, readIndex := rfl, readable := left }
  · cases done

/-- A buffer of any initial size keeps its shape or holds nothing. -/
def Sound (s : AsioBuffer) : Prop := Layout s ∨ Blank s

theorem Sound.layout {s : AsioBuffer} (sound : Sound s) (active : s.active = true) :
    Layout s := by
  rcases sound with layout | blank
  · exact layout
  · rw [blank.inactive] at active
    cases active

theorem Sound.inactive {s : AsioBuffer} (sound : Sound s) (inactive : s.active = false) :
    s.buffer.map List.length = [1] ∧ s.readBufferIter = 0 ∧ s.writeBufferIter = 0 := by
  rcases sound with layout | blank
  · obtain ⟨_, _, readIter, _, writeIter, _⟩ := layout.inactive inactive
    exact ⟨layout.fake inactive, readIter, writeIter⟩
  · exact ⟨blank.fake, blank.readIter, blank.writeIter⟩

theorem create_sound (initialSize : Nat) : Sound (create initialSize) := by
  rcases Nat.eq_zero_or_pos initialSize with rfl | positive
  · exact .inr create_blank
  · exact .inl (create_sized positive)

theorem fillMutable_blank {s : AsioBuffer} (blank : Blank s) {data : List UInt8}
    (inside : data.length ≤ segmentsLength s.mutableBuffer) : Blank (s.fillMutable data) := by
  obtain ⟨first, fake⟩ := blank.fakeByte
  have start : Position s.buffer s.writeBufferIter s.writeIndex := by
    rw [blank.writeIter, blank.writeIndex, fake]
    exact ⟨[], [first], [], rfl, rfl, Nat.one_pos⟩
  have before := start.offset_lt
  rw [mutableBuffer, segmentsFrom_length start] at inside
  have room : offset s.buffer s.writeBufferIter s.writeIndex + data.length ≤
      s.buffer.flatten.length := by omega
  obtain ⟨lengths, _⟩ := fillSegments_from start room
  exact { blank with fake := lengths.trans blank.fake }

/-- No operation takes the soundness away. -/
theorem performs_sound {s f : AsioBuffer} (sound : Sound s) {op : Operation}
    (admissible : s.Admissible op) (step : s.Performs op f) : Sound f := by
  rcases sound with layout | blank
  · exact .inl (performs_layout layout admissible step)
  · right
    obtain ⟨out, done⟩ := step
    cases op with
    | append data =>
        rw [perform, blank.append] at done
        cases done
    | hasWritten data =>
        rw [perform, (fillMutable_blank blank admissible).hasWritten] at done
        cases done
    | peek len =>
        obtain ⟨_, _, same⟩ := Option.map_eq_some_iff.mp done
        cases same
        exact blank
    | read len =>
        obtain ⟨_, _, rest⟩ := Option.bind_eq_some_iff.mp done
        obtain ⟨⟨g, invoked⟩, retrieved, same⟩ := Option.bind_eq_some_iff.mp rest
        cases same
        exact blank.retrieve retrieved
    | retrieve len =>
        obtain ⟨⟨g, invoked⟩, retrieved, same⟩ := Option.map_eq_some_iff.mp done
        cases same
        exact blank.retrieve retrieved

end FysobEngine.Net.AsioBuffer
