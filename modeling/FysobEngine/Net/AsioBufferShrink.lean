import FysobEngine.Net.AsioBufferPlaces

/-!
# When the block buffer shrinks

`adjust_buffer` counts calls in `low_use_count_` and takes blocks off the list at
the tenth of them. A log beside the buffer keeps what every tested and every
counted call has found; no function of the buffer reads it.
-/

namespace FysobEngine.Net

open Foundation.Runs
open PlacedBuffer (Call)

namespace AsioBuffer

/-- What a call of `adjust_buffer` finds when it tests the use of the buffer. -/
structure Use where
  blocks : Nat
  readableBytes : Nat
  totalBytes : Nat
  deriving DecidableEq, Repr

/-- More than three blocks, and the unread bytes fill less than half of them. -/
def Use.Low (use : Use) : Prop := 3 < use.blocks ∧ 2 * use.readableBytes < use.totalBytes

instance (use : Use) : Decidable use.Low := by unfold Use.Low; infer_instance

def use (s : AsioBuffer) : Use := ⟨s.buffer.length, s.readableBytes, s.totalBytes⟩

/-- The buffer in which `adjust_buffer` tests the use. A call that finds no room
does not come to the test. -/
def testing (s : AsioBuffer) (len : Nat) : Option AsioBuffer := do
  let s : AsioBuffer ← rotateLoop s.readBufferIter s
  if len ≤ s.writableBytes then s.checkToAddBlock len else none

/-- The test. -/
def CountsUse (s : AsioBuffer) : Prop :=
  s.buffer.length > 3 ∧ (s.readableBytes + s.writableBytes) / 2 < s.totalBytes

instance (s : AsioBuffer) : Decidable s.CountsUse := by unfold CountsUse; infer_instance

/-- The removal takes at least one block off the list. -/
def Removes (s : AsioBuffer) : Prop :=
  ∃ block ∈ s.buffer.getLast?, block.length ≤ s.totalBytes / 4

instance (s : AsioBuffer) : Decidable s.Removes := by
  unfold Removes
  cases s.buffer.getLast? with
  | none => exact isFalse (by simp)
  | some block => exact decidable_of_iff (block.length ≤ s.totalBytes / 4) (by simp)

/-- The buffer and the length that a call hands to `adjust_buffer`. -/
def adjusting (s : AsioBuffer) : Call → Option (AsioBuffer × Nat)
  | .operation (.append data) => s.checkActive.map fun s => (s, data.length)
  | .operation (.hasWritten data) =>
      if data.length ≤ (s.fillMutable data).writableBytes then
        (s.fillMutable data).checkActive.map fun s => (s, data.length)
      else none
  | .operation (.peek _) | .operation (.read _) | .operation (.retrieve _) => none
  | .setNotifyBehindHighWaterMask _ => none

/-- The buffer in which the use is tested in a call, if it is. -/
def tested (s : AsioBuffer) (call : Call) : Option AsioBuffer :=
  (s.adjusting call).bind fun (s, len) => s.testing len

/-- The number of bytes that a call writes. -/
def written : Call → Option Nat
  | .operation op => writeLength op
  | .setNotifyBehindHighWaterMask _ => none

/-- A write of `len` bytes finds room, and there are more than three blocks then. -/
def Spacious (s : AsioBuffer) (len : Nat) : Prop :=
  s.active = true ∧ len ≤ s.availableBytes ∧ 3 < s.buffer.length + s.addedBlocks len

instance (s : AsioBuffer) (len : Nat) : Decidable (s.Spacious len) := by
  unfold Spacious
  infer_instance

/-- A call on the buffer, without the bytes that it returns. -/
def call (s : AsioBuffer) : Call → Option AsioBuffer
  | .operation op => (s.perform op).map Prod.fst
  | .setNotifyBehindHighWaterMask mask => some (s.setNotifyBehindHighWaterMask mask)

end AsioBuffer

open AsioBuffer (Use)

/-- What the calls of `adjust_buffer` have found. -/
structure UseLog where
  tested : List Use
  /-- The calls that are counted in `low_use_count_`. -/
  counted : List Use
  /-- The calls that were counted towards each removal of blocks. -/
  removals : List (List Use)
  deriving DecidableEq, Repr

namespace UseLog

def test (log : UseLog) (s : AsioBuffer) : UseLog :=
  { log with
    tested := log.tested ++ [s.use]
    counted := if s.CountsUse then log.counted ++ [s.use] else log.counted }

def reduce (log : UseLog) (s : AsioBuffer) : UseLog :=
  { log with
    counted := []
    removals := if s.Removes then log.removals ++ [log.counted] else log.removals }

/-- The log behind a call of `adjust_buffer`. -/
def adjust (log : UseLog) (s : AsioBuffer) (len : Nat) : UseLog :=
  match s.testing len with
  | none => { log with counted := [] }
  | some tested =>
      if kLowUseCeilCount ≤ tested.countLowUse.lowUseCount then (log.test tested).reduce tested
      else log.test tested

end UseLog

/-- A buffer and the log of its use. -/
structure WatchedBuffer where
  state : AsioBuffer
  log : UseLog
  deriving DecidableEq, Repr

namespace WatchedBuffer

/-- The constructor. -/
def create (initialSize : Nat) : WatchedBuffer := ⟨.create initialSize, ⟨[], [], []⟩⟩

/-- The log behind a call, whether the call returns or not. -/
def logBehind (w : WatchedBuffer) (call : Call) : UseLog :=
  match w.state.adjusting call with
  | none => w.log
  | some (s, len) => w.log.adjust s len

def step (w : WatchedBuffer) (call : Call) : Option WatchedBuffer :=
  (w.state.call call).map fun state => ⟨state, w.logBehind call⟩

/-- The step relation. -/
def Steps (w : WatchedBuffer) (call : Call) (w' : WatchedBuffer) : Prop := w.step call = some w'

end WatchedBuffer

/-! ## What the log says about the code -/

namespace AsioBuffer

variable {s f t : AsioBuffer} {len : Nat}

theorem testing_lowUseCount (tests : s.testing len = some t) : t.lowUseCount = s.lowUseCount := by
  obtain ⟨turned, rotated, rest⟩ := Option.bind_eq_some_iff.mp tests
  split at rest
  · rw [lowUseCount_of_settings (checkToAddBlock_settings rest),
      lowUseCount_of_settings (rotateLoop_settings rotated)]
  · cases rest

theorem countLowUse_lowUseCount (s : AsioBuffer) :
    s.countLowUse.lowUseCount = if s.CountsUse then s.lowUseCount + 1 else s.lowUseCount := by
  unfold countLowUse
  by_cases counts : s.CountsUse
  · rw [if_pos counts]
    exact congrArg lowUseCount (if_pos counts)
  · rw [if_neg counts]
    exact congrArg lowUseCount (if_neg counts)

/-- As long as the counters agree with the blocks, every call with more than three
blocks counts, whatever is unread. -/
theorem countsUse_iff_of_exact (layout : Layout s) (exact : Exact s) :
    s.CountsUse ↔ 3 < s.buffer.length := by
  refine ⟨And.left, fun more => ⟨more, ?_⟩⟩
  have before : s.writeOffset < s.buffer.flatten.length := layout.write.offset_lt
  rw [layout.readable, exact, layout.total]
  omega

/-- A call that comes to the test returns what the test leaves. -/
theorem adjustBuffer_tested (tests : s.testing len = some t) :
    s.adjustBuffer len =
      if kLowUseCeilCount ≤ t.countLowUse.lowUseCount then t.countLowUse.reduceBlocks
      else some t.countLowUse := by
  obtain ⟨turned, rotated, rest⟩ := Option.bind_eq_some_iff.mp tests
  split at rest
  · next room =>
      unfold adjustBuffer
      rw [rotated]
      dsimp only [Option.bind_eq_bind, Option.bind_some]
      rw [if_pos room, rest]
      rfl
  · cases rest

/-- A call that does not come to the test starts the count again. -/
theorem adjustBuffer_untested (untested : s.testing len = none)
    (done : s.adjustBuffer len = some f) : f.lowUseCount = 0 := by
  obtain ⟨turned, rotated, rest⟩ := Option.bind_eq_some_iff.mp done
  unfold testing at untested
  rw [rotated] at untested
  dsimp only [Option.bind_eq_bind, Option.bind_some] at untested rest
  split at rest
  · next room =>
      rw [if_pos room] at untested
      rw [untested] at rest
      cases rest
  · obtain ⟨grown, loop, spare⟩ := Option.bind_eq_some_iff.mp rest
    rw [lowUseCount_of_settings (checkToAddBlock_settings spare),
      lowUseCount_of_settings (growLoop_settings loop)]

theorem reduceBlocks_lowUseCount (done : s.reduceBlocks = some f) : f.lowUseCount = 0 := by
  obtain ⟨kept, _, rfl⟩ := Option.map_eq_some_iff.mp done
  rfl

theorem reduceLoop_length {blocks kept : List DataBlock} {reduceLen total left : Nat}
    (done : reduceLoop blocks reduceLen total = some (kept, left)) :
    kept.length ≤ blocks.length := by
  induction blocks generalizing reduceLen total with
  | nil => cases done
  | cons block rest ih =>
      rw [reduceLoop] at done
      split at done
      · exact Nat.le_succ_of_le (ih done)
      · cases done
        exact Nat.le_refl _

/-- The log notes a removal just when blocks are taken off the list. -/
theorem reduceBlocks_removes (done : s.reduceBlocks = some f) :
    f.buffer.length < s.buffer.length ↔ s.Removes := by
  obtain ⟨⟨kept, total⟩, reduced, rfl⟩ := Option.map_eq_some_iff.mp done
  have back : s.buffer.getLast? = s.buffer.reverse.head? := List.head?_reverse.symm
  have length : s.buffer.length = s.buffer.reverse.length := List.length_reverse.symm
  unfold Removes
  rw [back, length]
  dsimp only
  rw [List.length_reverse]
  cases blocks : s.buffer.reverse with
  | nil =>
      rw [blocks] at reduced
      cases reduced
  | cons block rest =>
      rw [blocks, reduceLoop] at reduced
      split at reduced
      · next more =>
          have fewer := reduceLoop_length reduced
          exact iff_of_true (Nat.lt_succ_of_le fewer) ⟨block, rfl, more⟩
      · next none =>
          cases reduced
          refine iff_of_false (Nat.lt_irrefl _) ?_
          rintro ⟨last, same, fits⟩
          cases same
          exact none fits

theorem retrieve_lowUseCount {invoked : Bool} (done : s.retrieve len = some (f, invoked)) :
    f.lowUseCount = s.lowUseCount := by
  unfold retrieve at done
  split at done
  · obtain ⟨position, _, result⟩ := Option.map_eq_some_iff.mp done
    dsimp only at result
    split at result
    · cases result
      rfl
    · cases result
      rfl
  · cases done

theorem adjusting_lowUseCount {call : Call} (handed : s.adjusting call = some (t, len)) :
    t.lowUseCount = s.lowUseCount := by
  unfold adjusting at handed
  split at handed
  · obtain ⟨active, checked, same⟩ := Option.map_eq_some_iff.mp handed
    cases same
    exact lowUseCount_of_settings (checkActive_settings checked)
  · split at handed
    · obtain ⟨active, checked, same⟩ := Option.map_eq_some_iff.mp handed
      cases same
      have filled := lowUseCount_of_settings (checkActive_settings checked)
      exact filled
    · cases handed
  all_goals cases handed

/-- Only `adjust_buffer` sets `low_use_count_`. -/
theorem call_lowUseCount {call : Call} (done : s.call call = some f) :
    match s.adjusting call with
    | none => f.lowUseCount = s.lowUseCount
    | some (active, len) => ∃ adjusted, active.adjustBuffer len = some adjusted ∧
        f.lowUseCount = adjusted.lowUseCount := by
  cases call with
  | setNotifyBehindHighWaterMask mask =>
      cases done
      rfl
  | operation op =>
      obtain ⟨⟨_, out⟩, performed, rfl⟩ := Option.map_eq_some_iff.mp done
      cases op with
      | append data =>
          obtain ⟨_, appended, same⟩ := Option.map_eq_some_iff.mp performed
          cases same
          obtain ⟨active, checked, rest⟩ := Option.bind_eq_some_iff.mp appended
          obtain ⟨adjusted, adjusts, rest⟩ := Option.bind_eq_some_iff.mp rest
          obtain ⟨blocks, copied, advanced⟩ := Option.bind_eq_some_iff.mp rest
          rw [adjusting, checked]
          have kept := lowUseCount_of_settings (advanceWrite_settings advanced)
          exact ⟨adjusted, adjusts, kept⟩
      | hasWritten data =>
          obtain ⟨_, written, same⟩ := Option.map_eq_some_iff.mp performed
          cases same
          unfold hasWritten at written
          split at written
          · next room =>
              obtain ⟨active, checked, rest⟩ := Option.bind_eq_some_iff.mp written
              obtain ⟨adjusted, adjusts, advanced⟩ := Option.bind_eq_some_iff.mp rest
              rw [adjusting, if_pos room, checked]
              exact ⟨adjusted, adjusts, lowUseCount_of_settings (advanceWrite_settings advanced)⟩
          · cases written
      | peek len =>
          obtain ⟨_, _, same⟩ := Option.map_eq_some_iff.mp performed
          cases same
          rfl
      | read len =>
          obtain ⟨_, _, rest⟩ := Option.bind_eq_some_iff.mp performed
          obtain ⟨⟨g, invoked⟩, retrieved, same⟩ := Option.bind_eq_some_iff.mp rest
          cases same
          exact retrieve_lowUseCount retrieved
      | retrieve len =>
          obtain ⟨⟨g, invoked⟩, retrieved, same⟩ := Option.map_eq_some_iff.mp performed
          cases same
          exact retrieve_lowUseCount retrieved

/-! ## What a call finds, by the counters before it -/

section Tested

open Foundation.Segments

theorem testing_eq (layout : Layout s) (len : Nat) :
    s.testing len = if len ≤ s.availableBytes then some (s.grown len) else none := by
  have turned := rotateLoop_eq s.readBufferIter s rfl layout.iter_le
    (Nat.le_of_lt layout.read.iter_lt)
  have available : s.rotated.writableBytes = s.availableBytes := rfl
  unfold testing
  rw [turned]
  dsimp only [Option.bind_eq_bind, Option.bind_some]
  rw [available]
  by_cases found : len ≤ s.availableBytes
  · have added : s.rotated.spareBlocks s.availableBytes len = s.addedBlocks len := by
      rw [addedBlocks, if_pos found]
      rfl
    rw [if_pos found, if_pos found, checkToAddBlock_eq (by rw [available]; exact found),
      available, added]
  · rw [if_neg found, if_neg found]

theorem grown_use (layout : Layout s) (len : Nat) :
    (s.grown len).use = ⟨s.buffer.length + s.addedBlocks len, s.readableBytes,
      s.totalBytes + s.addedBlocks len * s.blockSize⟩ := by
  rw [use, grown_length layout]
  rfl

theorem grown_exact (layout : Layout s) (active : s.active = true) (exact : Exact s)
    (len : Nat) : Exact (s.grown len) := by
  have place := grown_writeOffset layout active len
  have before : s.writeOffset < s.buffer.flatten.length := layout.write.offset_lt
  have free : (s.grown len).writableBytes =
      s.writableBytes + s.rotatedBytes + s.addedBlocks len * s.blockSize := rfl
  unfold Exact at exact ⊢
  rw [free, grown_flatten]
  omega

/-- A caller writes no more than `mutable_buffer()` holds and asks for no more than is
readable. -/
def Admits (s : AsioBuffer) : Call → Prop
  | .operation op => s.Admissible op
  | .setNotifyBehindHighWaterMask _ => True

instance (s : AsioBuffer) (call : Call) : Decidable (s.Admits call) :=
  match call with
  | .operation op => inferInstanceAs (Decidable (s.Admissible op))
  | .setNotifyBehindHighWaterMask _ => inferInstanceAs (Decidable True)

/-- A write to an active buffer is tested in a buffer with the same counters. -/
theorem tested_write (layout : Layout s) (active : s.active = true) {call : Call}
    (admits : s.Admits call) (writes : written call = some len) :
    ∃ s', s.tested call = s'.testing len ∧ Layout s' ∧ s'.active = true ∧
      (Exact s → Exact s') ∧ s'.availableBytes = s.availableBytes ∧
      (s'.grown len).use = (s.grown len).use := by
  cases call with
  | setNotifyBehindHighWaterMask mask => cases writes
  | operation op =>
      cases op with
      | append data =>
          cases writes
          refine ⟨s, ?_, layout, active, id, rfl, rfl⟩
          rw [tested, adjusting, checkActive_active active]
          rfl
      | hasWritten data =>
          cases writes
          have filled := fillMutable_layout layout admits
          have still : (s.fillMutable data).active = true := active
          obtain ⟨count, _, available, added⟩ := fillMutable_room layout admits data.length
          have room : data.length ≤ (s.fillMutable data).writableBytes := by
            have held : segmentsLength s.mutableBuffer = s.buffer.flatten.length - s.writeOffset :=
              segmentsFrom_length layout.write
            have inside : data.length ≤ segmentsLength s.mutableBuffer := admits
            have counted := layout.room
            change data.length ≤ s.writableBytes
            omega
          refine ⟨s.fillMutable data, ?_, filled, still, fillMutable_exact layout admits,
            available, ?_⟩
          · rw [tested, adjusting, if_pos room, checkActive_active still]
            rfl
          · rw [grown_use filled, grown_use layout, count, added]
            rfl
      | peek | read | retrieve => cases writes

/-- What a tested call on an active buffer finds. -/
theorem tested_use (layout : Layout s) (active : s.active = true) {call : Call}
    (admits : s.Admits call) (tests : s.tested call = some t) :
    ∃ len, written call = some len ∧ len ≤ s.availableBytes ∧
      t.use = (s.grown len).use := by
  cases writes : written call with
  | none =>
      have untested : s.tested call = none := by
        cases call with
        | setNotifyBehindHighWaterMask mask => rfl
        | operation op =>
            cases op with
            | append | hasWritten => cases writes
            | peek | read | retrieve => rfl
      rw [untested] at tests
      cases tests
  | some len =>
      obtain ⟨s', same, layout', _, _, available, use⟩ := tested_write layout active admits writes
      rw [same, testing_eq layout', available] at tests
      split at tests
      · next room =>
          cases tests
          exact ⟨len, rfl, room, use⟩
      · cases tests

/-- As long as the counters agree with the blocks, the calls that are counted are those
that find room in more than three blocks. -/
theorem counts_iff_spacious (layout : Layout s) (active : s.active = true) (exact : Exact s)
    {call : Call} (admits : s.Admits call) :
    (∃ t ∈ s.tested call, t.CountsUse) ↔ ∃ len ∈ written call, s.Spacious len := by
  constructor
  · rintro ⟨t, tests, counts⟩
    obtain ⟨len, writes, room, use⟩ := tested_use layout active admits tests
    have blocks : t.buffer.length = s.buffer.length + s.addedBlocks len := by
      rw [grown_use layout] at use
      exact congrArg Use.blocks use
    exact ⟨len, writes, active, room, blocks ▸ counts.1⟩
  · rintro ⟨len, writes, _, room, more⟩
    obtain ⟨s', same, layout', active', exact', available, use⟩ :=
      tested_write layout active admits writes
    refine ⟨s'.grown len, ?_, ?_⟩
    · rw [same, testing_eq layout', available, if_pos room]
      rfl
    · rw [countsUse_iff_of_exact (grown_layout layout' active' len)
        (grown_exact layout' active' (exact' exact) len)]
      have blocks : (s'.grown len).buffer.length = s.buffer.length + s.addedBlocks len := by
        rw [grown_use layout] at use
        exact congrArg Use.blocks use
      rw [blocks]
      exact more

/-! ### The first write -/

theorem rotateLoop_length {count : Nat} (done : rotateLoop count s = some f) :
    f.buffer.length = s.buffer.length := by
  induction count generalizing s with
  | zero =>
      cases done
      rfl
  | succ count ih =>
      obtain ⟨middle, front, rest⟩ := Option.bind_eq_some_iff.mp done
      rw [ih rest]
      unfold rotateFront at front
      split at front
      · next block blocks writeIter held _ =>
          cases front
          simp [held]
      · cases front

/-- A call that comes to the test has added one block at most. -/
theorem testing_length_le (tests : s.testing len = some t) :
    t.buffer.length ≤ s.buffer.length + 1 := by
  obtain ⟨turned, rotated, rest⟩ := Option.bind_eq_some_iff.mp tests
  rw [← rotateLoop_length rotated]
  split at rest
  · next room =>
      rw [checkToAddBlock, if_pos room] at rest
      rw [← Option.some.inj rest]
      split
      · simp [addBlock]
      · exact Nat.le_succ _
  · cases rest

theorem fillSegments_length (segments : List (Nat × Nat × Nat)) (data : List UInt8)
    (buffer : List DataBlock) : (fillSegments segments data buffer).length = buffer.length := by
  induction segments generalizing data buffer with
  | nil => rfl
  | cons segment rest ih => exact (ih _ _).trans (List.length_modify _ _ _)

theorem checkActive_length (inactive : s.active = false) (one : s.buffer.length = 1)
    (done : s.checkActive = some f) : f.buffer.length = 2 := by
  unfold checkActive at done
  rw [if_neg (by simp [inactive])] at done
  split at done
  · next first block rest held =>
      cases done
      rw [held] at one
      simpa using one
  · cases done

/-- The first write finds two blocks. -/
theorem tested_first (inactive : s.active = false) (one : s.buffer.map List.length = [1])
    {call : Call} (tests : s.tested call = some t) : t.buffer.length ≤ 3 := by
  have alone : s.buffer.length = 1 := by simpa using congrArg List.length one
  obtain ⟨⟨active, len⟩, handed, tests⟩ := Option.bind_eq_some_iff.mp tests
  have two : active.buffer.length = 2 := by
    unfold adjusting at handed
    split at handed
    · obtain ⟨active, checked, same⟩ := Option.map_eq_some_iff.mp handed
      cases same
      exact checkActive_length inactive alone checked
    · next data =>
        split at handed
        · obtain ⟨active, checked, same⟩ := Option.map_eq_some_iff.mp handed
          cases same
          have filled : (s.fillMutable data).buffer.length = 1 :=
            (fillSegments_length _ _ _).trans alone
          have still : (s.fillMutable data).active = false := inactive
          exact checkActive_length still filled checked
        · cases handed
    all_goals cases handed
  have grown := testing_length_le tests
  omega

theorem counts_iff_of_sound (sound : Sound s) (exact : Exact s) {call : Call}
    (admits : s.Admits call) :
    (∃ t ∈ s.tested call, t.CountsUse) ↔ ∃ len ∈ written call, s.Spacious len := by
  cases active : s.active with
  | true => exact counts_iff_spacious (sound.layout active) active exact admits
  | false =>
      refine iff_of_false ?_ ?_
      · rintro ⟨t, tests, counts⟩
        have few := tested_first active (sound.inactive active).1 tests
        exact Nat.not_lt.mpr few counts.1
      · rintro ⟨len, _, active', _⟩
        rw [active] at active'
        cases active'

theorem call_sound (sound : Sound s) {call : Call} (admits : s.Admits call)
    (done : s.call call = some f) : Sound f := by
  cases call with
  | setNotifyBehindHighWaterMask mask =>
      cases done
      rcases sound with layout | blank
      · exact .inl (setNotify_layout layout mask)
      · exact .inr { blank with }
  | operation op =>
      obtain ⟨⟨g, out⟩, performed, rfl⟩ := Option.map_eq_some_iff.mp done
      exact performs_sound sound admits ⟨out, performed⟩

end Tested

end AsioBuffer

/-! ## What the counted calls have found -/

namespace UseLog

open AsioBuffer

/-- The calls counted towards a removal are ten calls of low use. -/
def Earned (log : UseLog) : Prop :=
  ∀ removal ∈ log.removals, removal.length = kLowUseCeilCount ∧
    ∀ use ∈ removal, use.Low ∧ use ∈ log.tested

/-- The log beside a `low_use_count_`. -/
structure Counting (log : UseLog) (lowUseCount : Nat) : Prop where
  count : log.counted.length = lowUseCount
  below : lowUseCount < kLowUseCeilCount
  low : ∀ use ∈ log.counted, use.Low ∧ use ∈ log.tested
  earned : log.Earned

variable {log : UseLog} {s f t : AsioBuffer} {len : Nat}

theorem Earned.test (earned : log.Earned) (s : AsioBuffer) : (log.test s).Earned := by
  intro removal member
  obtain ⟨length, low⟩ := earned removal member
  exact ⟨length, fun use counted => ⟨(low use counted).1,
    List.mem_append_left _ (low use counted).2⟩⟩

/-- The counted calls behind a test. -/
theorem Counting.test (counting : log.Counting s.lowUseCount)
    (meets : s.CountsUse → s.use.Low) :
    (log.test s).counted.length = s.countLowUse.lowUseCount ∧
      ∀ use ∈ (log.test s).counted, use.Low ∧ use ∈ (log.test s).tested := by
  have before (use : Use) (counted : use ∈ log.counted) :
      use.Low ∧ use ∈ (log.test s).tested :=
    ⟨(counting.low use counted).1, List.mem_append_left _ (counting.low use counted).2⟩
  rw [countLowUse_lowUseCount]
  by_cases counts : s.CountsUse
  · have counted : (log.test s).counted = log.counted ++ [s.use] := if_pos counts
    rw [counted, if_pos counts, List.length_append, counting.count]
    refine ⟨rfl, fun use member => ?_⟩
    rcases List.mem_append.mp member with old | new
    · exact before use old
    · rw [List.mem_singleton.mp new]
      exact ⟨meets counts, List.mem_append_right _ List.mem_cons_self⟩
  · have counted : (log.test s).counted = log.counted := if_neg counts
    rw [counted, if_neg counts]
    exact ⟨counting.count, before⟩

/-- One call of `adjust_buffer`. -/
theorem Counting.adjust (counting : log.Counting s.lowUseCount)
    (meets : ∀ t, s.testing len = some t → t.CountsUse → t.use.Low) :
    (log.adjust s len).Earned ∧
      ∀ f, s.adjustBuffer len = some f → (log.adjust s len).Counting f.lowUseCount := by
  unfold UseLog.adjust
  cases tests : s.testing len with
  | none =>
      refine ⟨counting.earned, fun f done => ?_⟩
      rw [adjustBuffer_untested tests done]
      exact ⟨rfl, by decide, fun use none => absurd none List.not_mem_nil, counting.earned⟩
  | some t =>
      rw [← testing_lowUseCount tests] at counting
      obtain ⟨length, low⟩ := counting.test (meets t tests)
      have earned := counting.earned.test t
      dsimp only
      rw [adjustBuffer_tested tests]
      split
      · next full =>
          have most : t.countLowUse.lowUseCount ≤ t.lowUseCount + 1 := by
            rw [countLowUse_lowUseCount]
            split
            · exact Nat.le_refl _
            · exact Nat.le_succ _
          have exactly : (log.test t).counted.length = kLowUseCeilCount := by
            have below := counting.below
            omega
          have reduced : ((log.test t).reduce t).Earned := by
            intro removal member
            unfold UseLog.reduce at member
            dsimp only at member
            split at member
            · rcases List.mem_append.mp member with old | new
              · exact earned removal old
              · rw [List.mem_singleton.mp new]
                exact ⟨exactly, low⟩
            · exact earned removal member
          refine ⟨reduced, fun f done => ?_⟩
          rw [reduceBlocks_lowUseCount done]
          exact ⟨rfl, by decide, fun use none => absurd none List.not_mem_nil, reduced⟩
      · next more =>
          refine ⟨earned, fun f done => ?_⟩
          cases done
          exact ⟨length, Nat.lt_of_not_le more, low, earned⟩

end UseLog

namespace WatchedBuffer

open AsioBuffer UseLog

/-- Blocks were removed behind ten calls of low use only, and none at all while the
unread bytes filled half of the buffer in every call. -/
structure ShrinksOnLowUse (log : UseLog) : Prop where
  low : ∀ removal ∈ log.removals, removal.length = kLowUseCeilCount ∧ ∀ use ∈ removal, use.Low
  busy : (∀ use ∈ log.tested, use.totalBytes ≤ 2 * use.readableBytes) → log.removals = []

theorem shrinksOnLowUse_of_earned {log : UseLog} (earned : log.Earned) : ShrinksOnLowUse log where
  low removal member := ⟨(earned removal member).1, fun use counted =>
    ((earned removal member).2 use counted).1⟩
  busy half := by
    apply List.eq_nil_iff_forall_not_mem.mpr
    intro removal member
    obtain ⟨length, low⟩ := earned removal member
    have some : 0 < removal.length := by
      rw [length]
      decide
    obtain ⟨use, counted⟩ := List.exists_mem_of_length_pos some
    have less := (low use counted).1.2
    have more := half use (low use counted).2
    omega

/-- The log behind the call is as it should be. -/
def Shrinks (w : WatchedBuffer) (call : Call) : Prop := ShrinksOnLowUse (w.logBehind call)

def Admits (w : WatchedBuffer) (call : Call) : Prop := w.state.Admits call

instance (w : WatchedBuffer) (call : Call) : Decidable (w.Admits call) := by
  unfold Admits
  infer_instance

/-- A write that finds room in more than three blocks finds less than half of their
bytes unread. -/
def LowWhenSpacious (w : WatchedBuffer) (call : Call) : Prop :=
  ∀ len ∈ written call, w.state.Spacious len →
    2 * w.state.readableBytes < w.state.totalBytes + w.state.addedBlocks len * w.state.blockSize

instance (w : WatchedBuffer) (call : Call) : Decidable (w.LowWhenSpacious call) := by
  unfold LowWhenSpacious
  infer_instance

variable {w w' : WatchedBuffer} {call : Call}

/-- What a counted call has found. -/
theorem tested_low (sound : Sound w.state) (admits : w.Admits call)
    (meets : w.LowWhenSpacious call) {t : AsioBuffer} (tests : w.state.tested call = some t)
    (counts : t.CountsUse) : t.use.Low := by
  cases active : w.state.active with
  | false =>
      have few := tested_first active (sound.inactive active).1 tests
      exact absurd counts.1 (Nat.not_lt.mpr few)
  | true =>
      have layout := sound.layout active
      obtain ⟨len, writes, room, use⟩ := tested_use layout active admits tests
      have more : 3 < t.use.blocks := counts.1
      rw [use, grown_use layout] at more ⊢
      exact ⟨more, meets len writes ⟨active, room, more⟩⟩

/-- One call. -/
theorem call_counting (counting : w.log.Counting w.state.lowUseCount) (sound : Sound w.state)
    (admits : w.Admits call) (meets : w.LowWhenSpacious call) :
    (w.logBehind call).Earned ∧
      ∀ w', w.step call = some w' → w'.log.Counting w'.state.lowUseCount := by
  unfold logBehind
  cases adjusting : w.state.adjusting call with
  | none =>
      refine ⟨counting.earned, fun w' step => ?_⟩
      obtain ⟨f, done, rfl⟩ := Option.map_eq_some_iff.mp step
      have kept := call_lowUseCount done
      rw [adjusting] at kept
      dsimp only at kept ⊢
      rw [kept, logBehind, adjusting]
      exact counting
  | some handed =>
      obtain ⟨s, len⟩ := handed
      dsimp only
      have low : ∀ t, s.testing len = some t → t.CountsUse → t.use.Low := by
        intro t tests counts
        refine tested_low sound admits meets ?_ counts
        rw [AsioBuffer.tested, adjusting]
        exact tests
      rw [← adjusting_lowUseCount adjusting] at counting
      obtain ⟨earned, behind⟩ := counting.adjust low
      refine ⟨earned, fun w' step => ?_⟩
      obtain ⟨f, done, rfl⟩ := Option.map_eq_some_iff.mp step
      have kept := call_lowUseCount done
      rw [adjusting] at kept
      obtain ⟨adjusted, adjusts, same⟩ := kept
      dsimp only
      rw [same, logBehind, adjusting]
      exact behind adjusted adjusts

theorem step_sound (sound : Sound w.state) (admits : w.Admits call) (step : w.Steps call w') :
    Sound w'.state := by
  obtain ⟨f, done, rfl⟩ := Option.map_eq_some_iff.mp step
  exact call_sound sound admits done

theorem create_counting (initialSize : Nat) :
    (create initialSize).log.Counting (create initialSize).state.lowUseCount where
  count := rfl
  below := Nat.succ_pos 9
  low _ none := absurd none List.not_mem_nil
  earned _ none := absurd none List.not_mem_nil

/-- In a run in which every write that finds room in more than three blocks finds low
use, blocks are removed behind ten calls of low use only. As long as the counters agree
with the blocks, these writes are the calls that are counted, whatever they find. -/
theorem along_shrinks (initialSize : Nat) (calls : List Call) :
    (Along Admits Steps LowWhenSpacious (create initialSize) calls →
      Along Admits Steps Shrinks (create initialSize) calls) ∧
    ∀ w, Reached Admits Steps (create initialSize) calls w → w.state.Exact →
      ∀ call, w.Admits call →
        ((∃ t ∈ w.state.tested call, t.CountsUse) ↔
          ∃ len ∈ written call, w.state.Spacious len) := by
  constructor
  · intro meets
    let I := fun w : WatchedBuffer => w.log.Counting w.state.lowUseCount ∧ Sound w.state
    let Q := fun w call => LowWhenSpacious w call ∧ Shrinks w call
    have agree : ∀ w call, I w → Admits w call → (LowWhenSpacious w call ↔ Q w call) := by
      rintro w call ⟨counting, sound⟩ admits
      refine ⟨fun low => ⟨low, ?_⟩, And.left⟩
      exact shrinksOnLowUse_of_earned (call_counting counting sound admits low).1
    have keep : ∀ w call w', I w → Admits w call → LowWhenSpacious w call →
        w.Steps call w' → I w' := by
      rintro w call w' ⟨counting, sound⟩ admits low step
      exact ⟨(call_counting counting sound admits low).2 w' step, step_sound sound admits step⟩
    have start : I (create initialSize) := ⟨create_counting initialSize, create_sound initialSize⟩
    exact ((along_congr agree keep start calls).mp meets).mono fun _ _ => And.right
  · intro w run exact call admits
    have sound : Sound w.state := run.invariant_all (I := fun w => Sound w.state)
      (fun _ _ _ sound admits step => step_sound sound admits step) (create_sound initialSize)
    exact counts_iff_of_sound sound exact admits

/-- Four blocks, of which all that was written has been read again. -/
def readRun : List Call :=
  [.operation (.append (List.replicate 1473 0)), .operation (.retrieve 1473)] ++
    List.replicate 10 (.operation (.append [1]))

theorem along_shrinks_read :
    Along Admits Steps Shrinks (create kInitialSize) readRun :=
  (along_shrinks kInitialSize readRun).1
    ((along_of_holdsAlong (by decide +kernel)).restrict fun _ _ _ => trivial)

/-- Four blocks of 512 bytes with 1473 unread bytes and more, and one of them is removed. -/
def busyRun : List Call :=
  .operation (.append (List.replicate 1473 0)) :: List.replicate 9 (.operation (.append [1]))

theorem busyRun_not_shrinks :
    ¬ ∀ initialSize calls, Along Admits Steps Shrinks (create initialSize) calls := by
  intro all
  have shrunk : (last step (create kInitialSize) busyRun).any (fun w =>
      (∀ use ∈ (w.logBehind (.operation (.append [1]))).tested,
        use.totalBytes ≤ 2 * use.readableBytes) ∧
      (w.logBehind (.operation (.append [1]))).removals ≠ []) = true := by
    decide +kernel
  obtain ⟨w, run, found⟩ := (Option.any_eq_true _ _).mp shrunk
  obtain ⟨half, removed⟩ := of_decide_eq_true found
  have admitted : holdsAlong step Admits (create kInitialSize) busyRun = true := by
    decide +kernel
  have admits : w.Admits (.operation (.append [1])) := trivial
  have shrinks := (all kInitialSize (busyRun ++ [.operation (.append [1])])).behind
    (reached_of_holdsAlong admitted run) admits
  exact removed (shrinks.busy half)

end WatchedBuffer

end FysobEngine.Net
