import FysobEngine.Net.QueueBuffer

/-!
# The blocks of `asio_buffer` and their addresses

`buffer_` is a list of pointers. A `PlacedBuffer` is the block buffer together
with the address of every block of the list. Addresses number the allocations,
so that a block that is freed never comes back under its address. The functions
that reallocate, rotate, add and remove blocks are those of the block buffer,
with what they do to the pointers.
-/

namespace FysobEngine.Net

open Foundation.Runs

structure PlacedBuffer where
  state : AsioBuffer
  /-- The address of each block of `buffer_`, in the order of the list. -/
  places : List Nat
  /-- The number of blocks allocated so far, which is the next address. -/
  allocations : Nat
  deriving DecidableEq, Repr

namespace PlacedBuffer

/-- The constructor: the fake block is the first allocation. -/
def create (initialSize : Nat) : PlacedBuffer where
  state := .create initialSize
  places := [0]
  allocations := 1

/-- `check_active`: `reset` frees the fake block and puts a new block into its
node, a second one is pushed back. -/
def checkActive (p : PlacedBuffer) : Option PlacedBuffer :=
  p.state.checkActive.map fun state =>
    if p.state.active then { p with state }
    else
      { state
        places := (p.allocations :: p.places.drop 1) ++ [p.allocations + 1]
        allocations := p.allocations + 2 }

/-- `add_block`. -/
def addBlock (p : PlacedBuffer) : PlacedBuffer where
  state := p.state.addBlock
  places := p.places ++ [p.allocations]
  allocations := p.allocations + 1

/-- `check_to_add_block`. -/
def checkToAddBlock (p : PlacedBuffer) (len : Nat) : Option PlacedBuffer :=
  if len ≤ p.state.writableBytes then
    some (if p.state.writableBytes - len < p.state.blockSize / kRemainRatio then p.addBlock
      else p)
  else none

/-- One round of the first loop of `adjust_buffer`. -/
def rotateFront (p : PlacedBuffer) : Option PlacedBuffer :=
  p.state.rotateFront.map fun state =>
    { p with state, places := p.places.drop 1 ++ p.places.take 1 }

def rotateLoop : Nat → PlacedBuffer → Option PlacedBuffer
  | 0, p => some p
  | count + 1, p => (rotateFront p).bind (rotateLoop count)

/-- `while (remain_len > 0)` of `adjust_buffer`. -/
def growLoop : Nat → Nat → PlacedBuffer → Option PlacedBuffer
  | _, 0, p => some p
  | 0, _ + 1, _ => none
  | fuel + 1, remainLen + 1, p =>
      growLoop fuel
        (if remainLen + 1 > p.state.blockSize then remainLen + 1 - p.state.blockSize else 0)
        p.addBlock

/-- The block removal of `adjust_buffer`, which frees the blocks it pops. -/
def reduceBlocks (p : PlacedBuffer) : Option PlacedBuffer :=
  p.state.reduceBlocks.map fun state =>
    { p with state, places := p.places.take state.buffer.length }

def withLowUse (p : PlacedBuffer) (count : Nat) : PlacedBuffer :=
  { p with state := { p.state with lowUseCount := count } }

/-- The counting of low use in `adjust_buffer`. -/
def countLowUse (p : PlacedBuffer) : PlacedBuffer := p.withLowUse p.state.countLowUse.lowUseCount

/-- `adjust_buffer`. -/
def adjustBuffer (p : PlacedBuffer) (len : Nat) : Option PlacedBuffer := do
  let p ← rotateLoop p.state.readBufferIter p
  if len ≤ p.state.writableBytes then
    let p ← p.checkToAddBlock len
    let p := p.countLowUse
    if kLowUseCeilCount ≤ p.state.lowUseCount then p.reduceBlocks else some p
  else
    let p := p.withLowUse 0
    let remainLen := len - p.state.writableBytes
    let p ← growLoop remainLen remainLen p
    p.checkToAddBlock len

/-- `append`. Copying leaves the pointers alone. -/
def append (p : PlacedBuffer) (data : List UInt8) : Option PlacedBuffer := do
  let p ← p.checkActive
  let p ← p.adjustBuffer data.length
  let blocks ← AsioBuffer.appendCopy p.state.buffer p.state.writeBufferIter p.state.writeIndex data
  let state ← AsioBuffer.advanceWrite { p.state with buffer := blocks } data.length
  some { p with state }

/-- `has_written`. -/
def hasWritten (p : PlacedBuffer) (len : Nat) : Option PlacedBuffer :=
  if len ≤ p.state.writableBytes then do
    let p ← p.checkActive
    let p ← p.adjustBuffer len
    let state ← p.state.advanceWrite len
    some { p with state }
  else none

/-- What a caller does to a buffer. -/
inductive Call where
  | operation (op : AsioBuffer.Operation)
  | setNotifyBehindHighWaterMask (mask : Nat)
  deriving DecidableEq, Repr

/-- A call, without the bytes that it returns. -/
def perform (p : PlacedBuffer) : Call → Option PlacedBuffer
  | .operation (.append data) => p.append data
  | .operation (.hasWritten data) =>
      { p with state := p.state.fillMutable data }.hasWritten data.length
  | .operation (.peek len) => (p.state.peek len).map fun _ => p
  | .operation (.read len) => (p.state.read len).map fun (state, _) => { p with state }
  | .operation (.retrieve len) => (p.state.retrieve len).map fun (state, _) => { p with state }
  | .setNotifyBehindHighWaterMask mask =>
      some { p with state := p.state.setNotifyBehindHighWaterMask mask }

def Admissible (p : PlacedBuffer) : Call → Prop
  | .operation op => p.state.Admissible op
  | .setNotifyBehindHighWaterMask _ => True

instance (p : PlacedBuffer) (call : Call) : Decidable (p.Admissible call) := by
  cases call <;> unfold Admissible <;> infer_instance

def Performs (p : PlacedBuffer) (call : Call) (q : PlacedBuffer) : Prop :=
  p.perform call = some q

/-! ## Without the addresses it is the block buffer -/

variable {p q : PlacedBuffer}

theorem erased_bind {first : Option PlacedBuffer} {first' : Option AsioBuffer}
    {rest : PlacedBuffer → Option PlacedBuffer} {rest' : AsioBuffer → Option AsioBuffer}
    (same : first.map state = first') (more : ∀ p, (rest p).map state = rest' p.state) :
    (first.bind rest).map state = first'.bind rest' := by
  subst same
  cases first with
  | none => rfl
  | some p => exact more p

theorem checkActive_state (p : PlacedBuffer) :
    p.checkActive.map state = p.state.checkActive := by
  rw [checkActive, Option.map_map]
  cases p.state.checkActive with
  | none => rfl
  | some s =>
      rw [Option.map_some, Function.comp_apply]
      split
      · rfl
      · rfl

theorem rotateFront_state (p : PlacedBuffer) :
    p.rotateFront.map state = p.state.rotateFront := by
  rw [rotateFront, Option.map_map]
  exact Option.map_id'

theorem rotateLoop_state (count : Nat) (p : PlacedBuffer) :
    (rotateLoop count p).map state = AsioBuffer.rotateLoop count p.state := by
  induction count generalizing p with
  | zero => rfl
  | succ count ih => exact erased_bind (rotateFront_state p) ih

theorem checkToAddBlock_state (p : PlacedBuffer) (len : Nat) :
    (p.checkToAddBlock len).map state = p.state.checkToAddBlock len := by
  unfold checkToAddBlock AsioBuffer.checkToAddBlock
  split
  · rw [Option.map_some]
    split
    · rfl
    · rfl
  · rfl

theorem growLoop_state (fuel remainLen : Nat) (p : PlacedBuffer) :
    (growLoop fuel remainLen p).map state = AsioBuffer.growLoop fuel remainLen p.state := by
  induction fuel generalizing remainLen p with
  | zero =>
      cases remainLen with
      | zero => rfl
      | succ remainLen => rfl
  | succ fuel ih =>
      cases remainLen with
      | zero => rfl
      | succ remainLen => exact ih _ p.addBlock

theorem reduceBlocks_state (p : PlacedBuffer) :
    p.reduceBlocks.map state = p.state.reduceBlocks := by
  rw [reduceBlocks, Option.map_map]
  exact Option.map_id'

theorem countLowUse_state (p : PlacedBuffer) : p.countLowUse.state = p.state.countLowUse := by
  unfold countLowUse withLowUse AsioBuffer.countLowUse
  split
  · rfl
  · rfl

theorem adjustBuffer_state (p : PlacedBuffer) (len : Nat) :
    (p.adjustBuffer len).map state = p.state.adjustBuffer len := by
  refine erased_bind (rotateLoop_state _ p) fun turned => ?_
  dsimp only
  split
  · refine erased_bind (checkToAddBlock_state turned len) fun grown => ?_
    rw [← countLowUse_state]
    split
    · exact reduceBlocks_state _
    · rfl
  · exact erased_bind (growLoop_state _ _ _) fun grown => checkToAddBlock_state grown len

theorem append_state (p : PlacedBuffer) (data : List UInt8) :
    (p.append data).map state = p.state.append data := by
  refine erased_bind (checkActive_state p) fun activated => ?_
  refine erased_bind (adjustBuffer_state activated _) fun adjusted => ?_
  rw [Option.bind_eq_bind, Option.map_bind]
  refine congrArg (Option.bind _) (funext fun blocks => ?_)
  rw [Function.comp_apply, Option.bind_eq_bind, Option.map_bind]
  exact Option.bind_fun_some _

theorem hasWritten_state (p : PlacedBuffer) (len : Nat) :
    (p.hasWritten len).map state = p.state.hasWritten len := by
  unfold hasWritten AsioBuffer.hasWritten
  split
  · refine erased_bind (checkActive_state p) fun activated => ?_
    refine erased_bind (adjustBuffer_state activated _) fun adjusted => ?_
    rw [Option.bind_eq_bind, Option.map_bind]
    exact Option.bind_fun_some _
  · rfl

/-- An operation on the placed buffer is the operation on the block buffer. -/
theorem perform_state (p : PlacedBuffer) (op : AsioBuffer.Operation) :
    (p.perform (.operation op)).map state = (p.state.perform op).map Prod.fst := by
  cases op with
  | append data =>
      rw [perform, append_state, AsioBuffer.perform, Option.map_map]
      exact Option.map_id'.symm
  | hasWritten data =>
      rw [perform, hasWritten_state, AsioBuffer.perform, Option.map_map]
      exact Option.map_id'.symm
  | peek len => rw [perform, AsioBuffer.perform, Option.map_map, Option.map_map]; rfl
  | read len => rw [perform, AsioBuffer.perform, Option.map_map]; rfl
  | retrieve len => rw [perform, AsioBuffer.perform, Option.map_map, Option.map_map]; rfl

/-! ## What `adjust_buffer` does to the pointers -/

/-- Blocks are added and low use is counted, nothing else. -/
inductive Grows (p : PlacedBuffer) : PlacedBuffer → Prop where
  | refl : Grows p p
  | addBlock {q : PlacedBuffer} : Grows p q → Grows p q.addBlock
  | withLowUse {q : PlacedBuffer} (count : Nat) : Grows p q → Grows p (q.withLowUse count)

theorem Grows.trans {r : PlacedBuffer} (first : Grows p q) (more : Grows q r) : Grows p r := by
  induction more with
  | refl => exact first
  | addBlock _ ih => exact ih.addBlock
  | withLowUse count _ ih => exact ih.withLowUse count

theorem checkToAddBlock_grows {len : Nat} (done : p.checkToAddBlock len = some q) :
    Grows p q := by
  unfold checkToAddBlock at done
  split at done
  · cases done
    split
    · exact .addBlock .refl
    · exact .refl
  · cases done

theorem growLoop_grows {fuel remainLen : Nat} (done : growLoop fuel remainLen p = some q) :
    Grows p q := by
  induction fuel generalizing remainLen p with
  | zero =>
      cases remainLen with
      | zero =>
          cases done
          exact .refl
      | succ remainLen => cases done
  | succ fuel ih =>
      cases remainLen with
      | zero =>
          cases done
          exact .refl
      | succ remainLen => exact Grows.trans (.addBlock .refl) (ih done)

/-- Everything the call can do: it rotates, adds blocks and perhaps removes some. -/
theorem adjustBuffer_cases {len : Nat} (done : p.adjustBuffer len = some q) :
    ∃ turned grown, rotateLoop p.state.readBufferIter p = some turned ∧ Grows turned grown ∧
      (q = grown ∨ grown.reduceBlocks = some q) := by
  obtain ⟨turned, rotate, rest⟩ := Option.bind_eq_some_iff.mp done
  refine ⟨turned, ?_⟩
  split at rest
  · obtain ⟨spare, check, rest⟩ := Option.bind_eq_some_iff.mp rest
    have grows := (checkToAddBlock_grows check).withLowUse spare.state.countLowUse.lowUseCount
    refine ⟨spare.countLowUse, rotate, grows, ?_⟩
    dsimp only at rest
    split at rest
    · exact .inr rest
    · cases rest
      exact .inl rfl
  · obtain ⟨grown, grow, rest⟩ := Option.bind_eq_some_iff.mp rest
    have reset : Grows turned (turned.withLowUse 0) := .withLowUse 0 .refl
    have grows := (reset.trans (growLoop_grows grow)).trans (checkToAddBlock_grows rest)
    exact ⟨q, rotate, grows, .inl rfl⟩

/-- The first `shift` blocks are gone from the front, and everything behind
them has kept its order. -/
structure Extends (shift : Nat) (p q : PlacedBuffer) : Prop where
  places : ∃ more, q.places = p.places.drop shift ++ more
  buffer : ∃ more, q.state.buffer = p.state.buffer.drop shift ++ more
  readIter : q.state.readBufferIter = p.state.readBufferIter - shift
  writeIter : q.state.writeBufferIter + shift = p.state.writeBufferIter
  readIndex : q.state.readIndex = p.state.readIndex
  writeIndex : q.state.writeIndex = p.state.writeIndex

theorem Extends.refl (p : PlacedBuffer) : Extends 0 p p :=
  ⟨⟨[], by simp⟩, ⟨[], by simp⟩, rfl, rfl, rfl, rfl⟩

theorem drop_drop_append {α : Type} {xs ys zs more rest : List α} {first second : Nat}
    (left : ys = xs.drop first ++ more) (right : zs = ys.drop second ++ rest) :
    ∃ all, zs = xs.drop (first + second) ++ all := by
  refine ⟨more.drop (second - (xs.drop first).length) ++ rest, ?_⟩
  rw [right, left, List.drop_append, List.drop_drop, List.append_assoc]

theorem Extends.trans {r : PlacedBuffer} {first second : Nat} (left : Extends first p q)
    (right : Extends second q r) : Extends (first + second) p r where
  places := by
    obtain ⟨more, places⟩ := left.places
    obtain ⟨rest, places'⟩ := right.places
    exact drop_drop_append places places'
  buffer := by
    obtain ⟨more, buffer⟩ := left.buffer
    obtain ⟨rest, buffer'⟩ := right.buffer
    exact drop_drop_append buffer buffer'
  readIter := by rw [right.readIter, left.readIter, Nat.sub_sub]
  writeIter := by
    rw [← left.writeIter, ← right.writeIter]
    omega
  readIndex := right.readIndex.trans left.readIndex
  writeIndex := right.writeIndex.trans left.writeIndex

theorem rotateFront_extends (done : p.rotateFront = some q) : Extends 1 p q := by
  obtain ⟨state, rotate, rfl⟩ := Option.map_eq_some_iff.mp done
  unfold AsioBuffer.rotateFront at rotate
  split at rotate
  · next block rest writeIter buffer iter =>
      cases rotate
      exact ⟨⟨_, rfl⟩, ⟨[block], by rw [buffer]; rfl⟩, rfl, iter.symm, rfl, rfl⟩
  · cases rotate

theorem rotateLoop_extends {count : Nat} (done : rotateLoop count p = some q) :
    Extends count p q := by
  induction count generalizing p with
  | zero =>
      cases done
      exact .refl _
  | succ count ih =>
      obtain ⟨middle, front, rest⟩ := Option.bind_eq_some_iff.mp done
      have whole := (rotateFront_extends front).trans (ih rest)
      rwa [Nat.add_comm] at whole

theorem addBlock_extends (p : PlacedBuffer) : Extends 0 p p.addBlock :=
  ⟨⟨_, rfl⟩, ⟨_, rfl⟩, rfl, rfl, rfl, rfl⟩

theorem withLowUse_extends (p : PlacedBuffer) (count : Nat) : Extends 0 p (p.withLowUse count) :=
  ⟨⟨[], (List.append_nil _).symm⟩, ⟨[], (List.append_nil _).symm⟩, rfl, rfl, rfl, rfl⟩

theorem Grows.extends (grows : Grows p q) : Extends 0 p q := by
  induction grows with
  | refl => exact .refl p
  | addBlock _ ih => exact ih.trans (addBlock_extends _)
  | withLowUse count _ ih => exact ih.trans (withLowUse_extends _ count)

theorem reduceLoop_suffix {blocks kept : List DataBlock} {reduceLen totalBytes total : Nat}
    (done : AsioBuffer.reduceLoop blocks reduceLen totalBytes = some (kept, total)) :
    kept <:+ blocks := by
  induction blocks generalizing reduceLen totalBytes with
  | nil => cases done
  | cons block rest ih =>
      rw [AsioBuffer.reduceLoop] at done
      split at done
      · exact (ih done).trans (List.suffix_cons block rest)
      · cases done
        exact List.suffix_rfl

/-- What the call leaves of the list: a front part of what the rotation and the
growth have made of it. -/
structure Slides (p q : PlacedBuffer) : Prop where
  places : ∃ more, q.places <+: p.places.drop p.state.readBufferIter ++ more
  buffer : ∃ more, q.state.buffer <+: p.state.buffer.drop p.state.readBufferIter ++ more
  readIter : q.state.readBufferIter = 0
  writeIter : q.state.writeBufferIter + p.state.readBufferIter = p.state.writeBufferIter
  readIndex : q.state.readIndex = p.state.readIndex
  writeIndex : q.state.writeIndex = p.state.writeIndex

theorem adjustBuffer_slides {len : Nat} (done : p.adjustBuffer len = some q) : Slides p q := by
  obtain ⟨turned, grown, rotate, grows, reduced⟩ := adjustBuffer_cases done
  have whole := (rotateLoop_extends rotate).trans grows.extends
  rw [Nat.add_zero] at whole
  obtain ⟨more, places⟩ := whole.places
  obtain ⟨rest, buffer⟩ := whole.buffer
  have start := whole.readIter
  rw [Nat.sub_self] at start
  rcases reduced with rfl | reduce
  · exact ⟨⟨more, places ▸ List.prefix_rfl⟩, ⟨rest, buffer ▸ List.prefix_rfl⟩, start,
      whole.writeIter, whole.readIndex, whole.writeIndex⟩
  · obtain ⟨state, reduceState, rfl⟩ := Option.map_eq_some_iff.mp reduce
    obtain ⟨⟨kept, total⟩, loop, rfl⟩ := Option.map_eq_some_iff.mp reduceState
    refine ⟨⟨more, places ▸ List.take_prefix _ _⟩, ⟨rest, buffer ▸ ?_⟩, start,
      whole.writeIter, whole.readIndex, whole.writeIndex⟩
    have front := List.reverse_prefix.mpr (reduceLoop_suffix loop)
    rwa [List.reverse_reverse] at front

/-! ## Every block has one address -/

/-- Each node has an address of its own, which was allocated, and none of the
addresses before `first` is left. -/
structure Placed (first : Nat) (p : PlacedBuffer) : Prop where
  paired : p.places.length = p.state.buffer.length
  distinct : p.places.Nodup
  low : ∀ place ∈ p.places, first ≤ place
  below : ∀ place ∈ p.places, place < p.allocations
  allocated : first ≤ p.allocations

variable {first : Nat}

/-- The state of the blocks does not matter, as long as there are as many. -/
theorem Placed.withState {state : AsioBuffer} (placed : Placed first p)
    (length : state.buffer.length = p.state.buffer.length) : Placed first { p with state } :=
  ⟨placed.paired.trans length.symm, placed.distinct, placed.low, placed.below,
    placed.allocated⟩

theorem Placed.addBlock (placed : Placed first p) : Placed first p.addBlock where
  paired := by
    change (p.places ++ [_]).length = (p.state.buffer ++ [_]).length
    rw [List.length_append, List.length_append, placed.paired]
    rfl
  distinct := by
    refine List.nodup_append.mpr ⟨placed.distinct, by simp, ?_⟩
    rintro place old new member rfl
    exact absurd (placed.below place old) (by simp [List.mem_singleton.mp member])
  low := by
    intro place member
    rcases List.mem_append.mp member with old | new
    · exact placed.low place old
    · rw [List.mem_singleton.mp new]
      exact placed.allocated
  below := by
    intro place member
    rcases List.mem_append.mp member with old | new
    · exact Nat.lt_succ_of_lt (placed.below place old)
    · rw [List.mem_singleton.mp new]
      exact Nat.lt_succ_self _
  allocated := Nat.le_succ_of_le placed.allocated

theorem Placed.rotateFront (placed : Placed first p) (done : p.rotateFront = some q) :
    Placed first q := by
  obtain ⟨state, rotate, rfl⟩ := Option.map_eq_some_iff.mp done
  have turn : (p.places.drop 1 ++ p.places.take 1).Perm p.places := by
    have swap : (p.places.drop 1 ++ p.places.take 1).Perm (p.places.take 1 ++ p.places.drop 1) :=
      List.perm_append_comm
    rwa [List.take_append_drop] at swap
  unfold AsioBuffer.rotateFront at rotate
  split at rotate
  · next block rest writeIter buffer iter =>
      cases rotate
      refine ⟨?_, turn.nodup_iff.mpr placed.distinct,
        fun place member => placed.low place (turn.mem_iff.mp member),
        fun place member => placed.below place (turn.mem_iff.mp member), placed.allocated⟩
      rw [turn.length_eq, placed.paired, buffer, List.length_cons, List.length_append]
      rfl
  · cases rotate

theorem Placed.rotateLoop {count : Nat} (placed : Placed first p)
    (done : PlacedBuffer.rotateLoop count p = some q) : Placed first q := by
  induction count generalizing p with
  | zero =>
      cases done
      exact placed
  | succ count ih =>
      obtain ⟨middle, front, rest⟩ := Option.bind_eq_some_iff.mp done
      exact ih (placed.rotateFront front) rest

theorem Placed.grows (placed : Placed first p) (grows : Grows p q) : Placed first q := by
  induction grows with
  | refl => exact placed
  | addBlock _ ih => exact ih.addBlock
  | withLowUse count _ ih => exact ih.withState rfl

theorem Placed.reduceBlocks (placed : Placed first p) (done : p.reduceBlocks = some q) :
    Placed first q := by
  obtain ⟨state, reduce, rfl⟩ := Option.map_eq_some_iff.mp done
  obtain ⟨⟨kept, total⟩, loop, rfl⟩ := Option.map_eq_some_iff.mp reduce
  have fewer := (reduceLoop_suffix loop).length_le
  rw [List.length_reverse] at fewer
  refine ⟨?_, placed.distinct.sublist (List.take_sublist _ _),
    fun place member => placed.low place (List.mem_of_mem_take member),
    fun place member => placed.below place (List.mem_of_mem_take member), placed.allocated⟩
  rw [List.length_take, placed.paired, List.length_reverse, Nat.min_eq_left fewer]

theorem Placed.adjustBuffer {len : Nat} (placed : Placed first p)
    (done : p.adjustBuffer len = some q) : Placed first q := by
  obtain ⟨turned, grown, rotate, grows, reduced⟩ := adjustBuffer_cases done
  have made := (placed.rotateLoop rotate).grows grows
  rcases reduced with rfl | reduce
  · exact made
  · exact made.reduceBlocks reduce

/-- The block at an address, if it is still in the list. -/
def blockAt (p : PlacedBuffer) (place : Nat) : Option DataBlock :=
  p.state.buffer[p.places.idxOf place]?

theorem Placed.blockAt {iter place : Nat} (placed : Placed first p)
    (here : p.places[iter]? = some place) : p.blockAt place = p.state.buffer[iter]? := by
  obtain ⟨inside, rfl⟩ := List.getElem?_eq_some_iff.mp here
  rw [PlacedBuffer.blockAt, placed.distinct.idxOf_getElem]

end PlacedBuffer

end FysobEngine.Net
