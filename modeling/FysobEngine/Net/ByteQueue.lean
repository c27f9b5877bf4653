import FysobEngine.Net.Endian

/-!
# The unread bytes of a buffer as a queue

What the handlers and sessions see of an `asio_buffer`: a list of unread bytes
and the operations on it. `none` is a failed assertion.
-/

namespace FysobEngine.Net

/-- A way to leave the program: a `FATAL` log entry or a failed assertion. -/
inductive Fault where
  | fatal
  | assertion
  deriving DecidableEq, Repr

def orAssert {α : Type} : Option α → Except Fault α
  | some value => .ok value
  | none => .error .assertion

namespace ByteQueue

open Endian

/-- `peek`. -/
def peek (unread : List UInt8) (len : Nat) : Option (List UInt8) :=
  if len ≤ unread.length then some (unread.take len) else none

/-- `retrieve`. -/
def retrieve (unread : List UInt8) (len : Nat) : Option (List UInt8) :=
  if len ≤ unread.length then some (unread.drop len) else none

/-- `read`, with the bytes that stay behind. -/
def read (unread : List UInt8) (len : Nat) : Option (List UInt8 × List UInt8) := do
  let data ← peek unread len
  let unread ← retrieve unread len
  some (data, unread)

/-- `peek_index_endian` for an integer of `width` bytes. -/
def peekIndexEndian (smallEndian : Bool) (unread : List UInt8) (index width : Nat)
    (bigEndian : Bool) : Option Nat :=
  if index + width ≤ unread.length then do
    let totalData ← peek unread (index + width)
    some (adapteEndian smallEndian width
      (fromMemory smallEndian (totalData.drop index)) bigEndian)
  else none

/-- `append`. -/
def append (unread data : List UInt8) : List UInt8 := unread ++ data

/-- `append_endian` of an integer of `width` bytes. -/
def appendEndian (smallEndian : Bool) (unread : List UInt8) (width value : Nat)
    (bigEndian : Bool) : List UInt8 :=
  append unread (memory smallEndian width (adapteEndian smallEndian width value bigEndian))

/-- `get_base_data_type`. `func` returns the bytes and what stays behind. -/
def getBaseDataType (smallEndian : Bool) (unread : List UInt8)
    (func : Nat → Option (List UInt8 × List UInt8)) (width : Nat) (bigEndian : Bool) :
    Option (Nat × List UInt8) :=
  if width ≤ unread.length then do
    let (freeData, rest) ← func width
    if freeData.length ≠ width then some (0, rest)
    else some (adapteEndian smallEndian width (fromMemory smallEndian freeData) bigEndian, rest)
  else none

/-- `peek_endian`. -/
def peekEndian (smallEndian : Bool) (unread : List UInt8) (width : Nat) (bigEndian : Bool) :
    Option (Nat × List UInt8) :=
  getBaseDataType smallEndian unread (fun len => (peek unread len).map fun data => (data, unread))
    width bigEndian

/-- `read_endian`. -/
def readEndian (smallEndian : Bool) (unread : List UInt8) (width : Nat) (bigEndian : Bool) :
    Option (Nat × List UInt8) :=
  getBaseDataType smallEndian unread (read unread) width bigEndian

theorem peek_some {unread : List UInt8} {len : Nat} (inside : len ≤ unread.length) :
    peek unread len = some (unread.take len) :=
  if_pos inside

theorem retrieve_some {unread : List UInt8} {len : Nat} (inside : len ≤ unread.length) :
    retrieve unread len = some (unread.drop len) :=
  if_pos inside

theorem read_some {unread : List UInt8} {len : Nat} (inside : len ≤ unread.length) :
    read unread len = some (unread.take len, unread.drop len) := by
  rw [read, peek_some inside, retrieve_some inside]
  rfl

/-- A peeked integer is the one on the wire, whatever the host. -/
theorem peekIndexEndian_some (smallEndian bigEndian : Bool) {unread : List UInt8}
    {index width : Nat} (inside : index + width ≤ unread.length) :
    peekIndexEndian smallEndian unread index width bigEndian =
      some (wireValue bigEndian ((unread.drop index).take width)) := by
  have field : (unread.take (index + width)).drop index = (unread.drop index).take width := by
    rw [List.drop_take, Nat.add_sub_cancel_left]
  have length : ((unread.drop index).take width).length = width := by
    rw [List.length_take, List.length_drop]
    omega
  have adapted := adapteEndian_fromMemory smallEndian bigEndian ((unread.drop index).take width)
  rw [length] at adapted
  rw [peekIndexEndian, if_pos inside, peek_some inside]
  dsimp only [Option.bind_eq_bind, Option.bind_some]
  rw [field, adapted]

theorem peekIndexEndian_byte (smallEndian bigEndian : Bool) {unread : List UInt8} {index : Nat}
    (inside : index < unread.length) :
    peekIndexEndian smallEndian unread index 1 bigEndian = some unread[index].toNat := by
  rw [peekIndexEndian_some smallEndian bigEndian inside, List.drop_eq_getElem_cons inside,
    List.take_succ_cons, List.take_zero]
  cases bigEndian with
  | false => rfl
  | true => rfl

theorem peekIndexEndian_none (smallEndian bigEndian : Bool) {unread : List UInt8}
    {index width : Nat} (short : unread.length < index + width) :
    peekIndexEndian smallEndian unread index width bigEndian = none :=
  if_neg (Nat.not_le_of_lt short)

/-! ## Integers in front -/

/-- An appended integer is on the wire in the wanted order, whatever the host. -/
theorem appendEndian_eq (smallEndian bigEndian : Bool) (unread : List UInt8)
    (width value : Nat) :
    appendEndian smallEndian unread width value bigEndian =
      unread ++ wireBytes bigEndian width value := by
  rw [appendEndian, append, memory_adapteEndian]

theorem getBaseDataType_some (smallEndian bigEndian : Bool) {unread rest : List UInt8}
    {width : Nat} {func : Nat → Option (List UInt8 × List UInt8)}
    (inside : width ≤ unread.length) (taken : func width = some (unread.take width, rest)) :
    getBaseDataType smallEndian unread func width bigEndian =
      some (wireValue bigEndian (unread.take width), rest) := by
  have length : (unread.take width).length = width := by
    rw [List.length_take]
    omega
  have adapted := adapteEndian_fromMemory smallEndian bigEndian (unread.take width)
  rw [length] at adapted
  rw [getBaseDataType, if_pos inside, taken]
  dsimp only [Option.bind_eq_bind, Option.bind_some]
  rw [if_neg (not_not_intro length), adapted]

theorem peekEndian_some (smallEndian bigEndian : Bool) {unread : List UInt8} {width : Nat}
    (inside : width ≤ unread.length) :
    peekEndian smallEndian unread width bigEndian =
      some (wireValue bigEndian (unread.take width), unread) := by
  apply getBaseDataType_some smallEndian bigEndian inside
  rw [peek_some inside, Option.map_some]

theorem readEndian_some (smallEndian bigEndian : Bool) {unread : List UInt8} {width : Nat}
    (inside : width ≤ unread.length) :
    readEndian smallEndian unread width bigEndian =
      some (wireValue bigEndian (unread.take width), unread.drop width) :=
  getBaseDataType_some smallEndian bigEndian inside (read_some inside)

end ByteQueue

end FysobEngine.Net
