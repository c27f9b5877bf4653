import FysobEngine.Foundation.Segments

/-!
# The block buffer `asio_buffer`

A buffer is a list of heap blocks with a read and a write position. Both
positions are pairs of a list iterator and an index into the block it names.
An iterator is modelled by the number of list nodes before it, so that
`buffer.length` is `end()`. Every function returns `none` where the code fails
an assertion, dereferences `end()` or uses an iterator of an erased node.

`std::size_t` counters are natural numbers: they count bytes held in memory.
`std::copy` into a block is `overwrite`.
-/

namespace FysobEngine.Net

open Foundation.Segments

/-- The memory of one `data_block`; its `len` is the length of the list. -/
abbrev DataBlock := List UInt8

def kInitialSize : Nat := 512
def kRemainRatio : Nat := 8
def kLowUseCeilCount : Nat := 10

/-- `new data_block(len)`. The allocated bytes are unspecified; zeros stand for
them, and no result below depends on their values. -/
def newBlock (len : Nat) : DataBlock := List.replicate len 0

/-- The fields of `asio_buffer` that its queue operations use. -/
structure AsioBuffer where
  buffer : List DataBlock
  readBufferIter : Nat
  writeBufferIter : Nat
  readIndex : Nat
  writeIndex : Nat
  blockSize : Nat
  readableBytes : Nat
  writableBytes : Nat
  totalBytes : Nat
  lowUseCount : Nat
  active : Bool
  highWaterMask : Nat
  /-- Whether a handler is stored in `notify_behind_high_water_mask_`. -/
  notifyBehindHighWaterMask : Bool
  deriving DecidableEq, Repr

namespace AsioBuffer

/-- The constructor: one fake block of a single byte. -/
def create (initialSize : Nat) : AsioBuffer where
  buffer := [newBlock 1]
  readBufferIter := 0
  writeBufferIter := 0
  readIndex := 0
  writeIndex := 0
  blockSize :=
    (if initialSize % kInitialSize = 0 then initialSize / kInitialSize
      else initialSize / kInitialSize + 1) * kInitialSize
  readableBytes := 0
  writableBytes := 1
  totalBytes := 1
  lowUseCount := 0
  active := false
  highWaterMask := 0
  notifyBehindHighWaterMask := false

/-- `check_active`: the first write replaces the fake block by two real ones,
keeping the byte that a read may already have put into it. -/
def checkActive (s : AsioBuffer) : Option AsioBuffer :=
  if s.active then some s
  else
    match s.buffer with
    | (firstChar :: _) :: rest =>
        some { s with
          buffer := ((newBlock s.blockSize).set 0 firstChar :: rest) ++
            [newBlock s.blockSize]
          writableBytes := 2 * s.blockSize
          totalBytes := 2 * s.blockSize
          active := true }
    | _ => none

/-- `add_block`. -/
def addBlock (s : AsioBuffer) : AsioBuffer :=
  { s with
    buffer := s.buffer ++ [newBlock s.blockSize]
    writableBytes := s.writableBytes + s.blockSize
    totalBytes := s.totalBytes + s.blockSize }

/-- `check_to_add_block`. The clamp behind its assertion has no effect. -/
def checkToAddBlock (s : AsioBuffer) (len : Nat) : Option AsioBuffer :=
  if len ≤ s.writableBytes then
    some (if s.writableBytes - len < s.blockSize / kRemainRatio then s.addBlock else s)
  else none

/-- One round of the first loop of `adjust_buffer`: the front block is popped
and pushed to the back, which erases the node a write iterator there names. -/
def rotateFront (s : AsioBuffer) : Option AsioBuffer :=
  match s.buffer, s.writeBufferIter with
  | block :: rest, writeIter + 1 =>
      some { s with
        buffer := rest ++ [block]
        readBufferIter := s.readBufferIter - 1
        writeBufferIter := writeIter
        writableBytes := s.writableBytes + block.length }
  | _, _ => none

/-- `while (read_buffer_iter_ != buffer_.begin())`, started with the number of
nodes before the read iterator. -/
def rotateLoop : Nat → AsioBuffer → Option AsioBuffer
  | 0, s => some s
  | count + 1, s => (rotateFront s).bind (rotateLoop count)

/-- `while (remain_len > 0)` of `adjust_buffer`. With a positive block size
`remain_len` rounds are enough; with block size zero the loop does not end. -/
def growLoop : Nat → Nat → AsioBuffer → Option AsioBuffer
  | _, 0, s => some s
  | 0, _ + 1, _ => none
  | fuel + 1, remainLen + 1, s =>
      growLoop fuel
        (if remainLen + 1 > s.blockSize then remainLen + 1 - s.blockSize else 0)
        s.addBlock

/-- `while (reduce_len >= (*buffer_.rbegin())->len)` on the reversed list, with
the bytes taken off `total_bytes_`. -/
def reduceLoop : List DataBlock → Nat → Nat → Option (List DataBlock × Nat)
  | [], _, _ => none
  | block :: rest, reduceLen, totalBytes =>
      if block.length ≤ reduceLen then
        reduceLoop rest (reduceLen - block.length) (totalBytes - block.length)
      else some (block :: rest, totalBytes)

/-- The block removal of `adjust_buffer`. It leaves `writable_bytes_` alone. -/
def reduceBlocks (s : AsioBuffer) : Option AsioBuffer :=
  (reduceLoop s.buffer.reverse (s.totalBytes / 4) s.totalBytes).map fun (blocks, total) =>
    { s with buffer := blocks.reverse, totalBytes := total, lowUseCount := 0 }

/-- The counting of low use in `adjust_buffer`. -/
def countLowUse (s : AsioBuffer) : AsioBuffer :=
  if s.buffer.length > 3 ∧ (s.readableBytes + s.writableBytes) / 2 < s.totalBytes then
    { s with lowUseCount := s.lowUseCount + 1 }
  else s

/-- `adjust_buffer`. -/
def adjustBuffer (s : AsioBuffer) (len : Nat) : Option AsioBuffer := do
  let s : AsioBuffer ← rotateLoop s.readBufferIter s
  if len ≤ s.writableBytes then
    let s : AsioBuffer ← s.checkToAddBlock len
    let s := s.countLowUse
    if kLowUseCeilCount ≤ s.lowUseCount then s.reduceBlocks else some s
  else
    let s := { s with lowUseCount := 0 }
    let remainLen := len - s.writableBytes
    let s : AsioBuffer ← growLoop remainLen remainLen s
    s.checkToAddBlock len

/-- `write_bytes`. -/
def writeBytes (s : AsioBuffer) (len : Nat) : AsioBuffer :=
  { s with
    readableBytes := s.readableBytes + len
    writableBytes := s.writableBytes - len }

/-- The loop of `adjust_index` over the nodes behind the first one. -/
def adjustIndexLoop : List DataBlock → Nat → Nat → Option (Nat × Nat)
  | [], _, _ => none
  | block :: rest, iter, len =>
      if block.length ≤ len then adjustIndexLoop rest (iter + 1) (len - block.length)
      else some (iter, len)

/-- `adjust_index`. -/
def adjustIndex (buffer : List DataBlock) (len iter index : Nat) : Option (Nat × Nat) :=
  match buffer.drop iter with
  | [] => none
  | block :: rest =>
      if block.length - index > len then some (iter, index + len)
      else adjustIndexLoop rest (iter + 1) (len - (block.length - index))

/-- The copy loop of `append` over the nodes behind the first one. -/
def appendLoop : List DataBlock → List UInt8 → Option (List DataBlock)
  | [], _ => none
  | block :: rest, data =>
      if block.length ≤ data.length then
        (appendLoop rest (data.drop block.length)).map fun rest =>
          overwrite block 0 (data.take block.length) :: rest
      else some (overwrite block 0 data :: rest)

/-- The copying of `append` from the write position on. -/
def appendCopy (buffer : List DataBlock) (iter index : Nat) (data : List UInt8) :
    Option (List DataBlock) :=
  match buffer.drop iter with
  | [] => none
  | block :: rest =>
      let blockRemainLen := block.length - index
      if blockRemainLen > data.length then
        some (buffer.take iter ++ overwrite block index data :: rest)
      else
        (appendLoop rest (data.drop blockRemainLen)).map fun rest =>
          buffer.take iter ++ overwrite block index (data.take blockRemainLen) :: rest

/-- Advance the write position by `len` bytes already stored there. -/
def advanceWrite (s : AsioBuffer) (len : Nat) : Option AsioBuffer :=
  (adjustIndex s.buffer len s.writeBufferIter s.writeIndex).map fun (iter, index) =>
    writeBytes { s with writeBufferIter := iter, writeIndex := index } len

/-- `append`. -/
def append (s : AsioBuffer) (data : List UInt8) : Option AsioBuffer := do
  let s : AsioBuffer ← s.checkActive
  let s : AsioBuffer ← s.adjustBuffer data.length
  let blocks ← appendCopy s.buffer s.writeBufferIter s.writeIndex data
  advanceWrite { s with buffer := blocks } data.length

/-- `has_written`. -/
def hasWritten (s : AsioBuffer) (len : Nat) : Option AsioBuffer :=
  if len ≤ s.writableBytes then do
    let s : AsioBuffer ← s.checkActive
    let s : AsioBuffer ← s.adjustBuffer len
    s.advanceWrite len
  else none

/-- The copy loop of `peek` over the nodes behind the first one. -/
def peekLoop : List DataBlock → Nat → Option (List UInt8)
  | [], _ => none
  | block :: rest, remainLen =>
      if block.length ≤ remainLen then
        (peekLoop rest (remainLen - block.length)).map (block ++ ·)
      else some (block.take remainLen)

/-- The copying of `peek` from the read position on. -/
def peekCopy (buffer : List DataBlock) (iter index len : Nat) : Option (List UInt8) :=
  match buffer.drop iter with
  | [] => none
  | block :: rest =>
      let blockRemainLen := block.length - index
      if blockRemainLen > len then some ((block.drop index).take len)
      else (peekLoop rest (len - blockRemainLen)).map (block.drop index ++ ·)

/-- `peek`. -/
def peek (s : AsioBuffer) (len : Nat) : Option (List UInt8) :=
  if len ≤ s.readableBytes then peekCopy s.buffer s.readBufferIter s.readIndex len
  else none

/-- `retrieve`, with whether the high-water handler was invoked. -/
def retrieve (s : AsioBuffer) (len : Nat) : Option (AsioBuffer × Bool) :=
  if len ≤ s.readableBytes then
    (adjustIndex s.buffer len s.readBufferIter s.readIndex).map fun (iter, index) =>
      let s := { s with
        readBufferIter := iter
        readIndex := index
        readableBytes := s.readableBytes - len }
      if s.notifyBehindHighWaterMask && s.readableBytes < s.highWaterMask then
        ({ s with notifyBehindHighWaterMask := false, highWaterMask := 0 }, true)
      else (s, false)
  else none

/-- `read`. -/
def read (s : AsioBuffer) (len : Nat) : Option (AsioBuffer × List UInt8) := do
  let data ← s.peek len
  let (s, _) ← s.retrieve len
  some (s, data)

/-- `set_notify_behind_high_water_mask`. -/
def setNotifyBehindHighWaterMask (s : AsioBuffer) (mask : Nat) : AsioBuffer :=
  { s with notifyBehindHighWaterMask := true, highWaterMask := mask }

/-- The segments of whole blocks: block number, first index and length. -/
def wholeSegments : Nat → List DataBlock → List (Nat × Nat × Nat)
  | _, [] => []
  | iter, block :: rest => (iter, 0, block.length) :: wholeSegments (iter + 1) rest

/-- The segments from a position to the end of the list. -/
def segmentsFrom (buffer : List DataBlock) (iter index : Nat) : List (Nat × Nat × Nat) :=
  match buffer.drop iter with
  | [] => []
  | block :: rest => (iter, index, block.length - index) :: wholeSegments (iter + 1) rest

/-- `mutable_buffer`. -/
def mutableBuffer (s : AsioBuffer) : List (Nat × Nat × Nat) :=
  segmentsFrom s.buffer s.writeBufferIter s.writeIndex

/-- `write_buffer`, the same segments as pairs of pointer and length. -/
def writeBuffer (s : AsioBuffer) : List (Nat × Nat × Nat) :=
  segmentsFrom s.buffer s.writeBufferIter s.writeIndex

def segmentsLength (segments : List (Nat × Nat × Nat)) : Nat :=
  (segments.map fun segment => segment.2.2).sum

/-- A caller stores `data` into the first bytes of the segments of
`mutable_buffer()`, as an asynchronous read does. -/
def fillSegments : List (Nat × Nat × Nat) → List UInt8 → List DataBlock → List DataBlock
  | [], _, buffer => buffer
  | (iter, index, len) :: rest, data, buffer =>
      fillSegments rest (data.drop len)
        (buffer.modify iter fun block => overwrite block index (data.take len))

def fillMutable (s : AsioBuffer) (data : List UInt8) : AsioBuffer :=
  { s with buffer := fillSegments s.mutableBuffer data s.buffer }

end AsioBuffer

end FysobEngine.Net
