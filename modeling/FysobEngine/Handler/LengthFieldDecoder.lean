import FysobEngine.Net.ByteQueue

/-!
# The length-field decoder

`length_field_base_frame_decoder` over a queue of unread bytes. The configured
integers have the widths of the source, so that the arithmetic on lengths
wraps where the code's wraps.
-/

namespace FysobEngine.Handler.LengthField

open Net Net.Endian

structure LengthFieldBaseFrameDecoder where
  maxFrameLength : UInt32
  lengthFieldOffset : UInt32
  lengthFieldLength : UInt32
  lengthAdjustment : Int32
  initialBytesToStrip : UInt32
  bigEndian : Bool
  deriving DecidableEq, Repr

/-- How one turn of the loop of `decode` ends, with the bytes it takes off. -/
inductive Outcome where
  | headerIncomplete
  | frameIncomplete
  | undersized (skipped : Nat)
  | oversized
  | stripTooLong (skipped : Nat)
  | frame (stripped : Nat) (data : List UInt8)
  deriving DecidableEq, Repr

namespace Outcome

/-- The bytes that a turn takes off the buffer. -/
def bytes : Outcome → Nat
  | .headerIncomplete => 0
  | .frameIncomplete => 0
  | .undersized skipped => skipped
  | .oversized => 0
  | .stripTooLong skipped => skipped
  | .frame stripped data => stripped + data.length

/-- The loop goes on only behind a fired frame. -/
def again : Outcome → Bool
  | .frame _ _ => true
  | _ => false

/-- The turn rejects the frame at the head of the buffer. -/
def rejects : Outcome → Bool
  | .undersized _ => true
  | .oversized => true
  | .stripTooLong _ => true
  | _ => false

/-- The message of `fire_read`. -/
def fired : Outcome → Option (List UInt8)
  | .frame _ data => some data
  | _ => none

end Outcome

namespace LengthFieldBaseFrameDecoder

variable (smallEndian : Bool) (cfg : LengthFieldBaseFrameDecoder)

def lengthFieldEndOffset : UInt32 := cfg.lengthFieldOffset + cfg.lengthFieldLength

/-- One case of the switch over the width of the field. -/
def peekField (buf : List UInt8) (width : Nat) : Except Fault UInt64 := do
  let value ← orAssert
    (ByteQueue.peekIndexEndian smallEndian buf cfg.lengthFieldOffset.toNat width cfg.bigEndian)
  .ok (UInt64.ofNat value)

/-- `get_unajust_frame_length`. -/
def getUnajustFrameLength (buf : List UInt8) : Except Fault UInt64 :=
  match cfg.lengthFieldLength.toNat with
  | 1 => cfg.peekField smallEndian buf 1
  | 2 => cfg.peekField smallEndian buf 2
  | 4 => cfg.peekField smallEndian buf 4
  | 8 => cfg.peekField smallEndian buf 8
  | _ => .error .fatal

/-- A negative adjustment that reaches before the frame. `abs` of the least
`int32_t` is that number again, and the comparison converts it to unsigned. -/
def AdjustsTooFar : Prop :=
  cfg.lengthAdjustment < 0 ∧ cfg.lengthAdjustment.abs.toUInt32 > cfg.lengthFieldEndOffset

instance : Decidable cfg.AdjustsTooFar := by unfold AdjustsTooFar; infer_instance

/-- The adjustment and the header are added as `uint32_t` and then widened. -/
def adjusted (raw : UInt64) : UInt64 :=
  raw + (cfg.lengthAdjustment.toUInt32 + cfg.lengthFieldEndOffset).toUInt64

/-- One turn of the loop of `decode`, with the bytes that stay in the buffer. -/
def turn (buf : List UInt8) : Except Fault (Outcome × List UInt8) :=
  if buf.length ≤ cfg.lengthFieldEndOffset.toNat then .ok (.headerIncomplete, buf)
  else do
    let raw ← cfg.getUnajustFrameLength smallEndian buf
    if cfg.AdjustsTooFar then .error .fatal
    else
      let frameLength := cfg.adjusted raw
      if frameLength < cfg.lengthFieldEndOffset.toUInt64 then do
        let rest ← orAssert (ByteQueue.retrieve buf cfg.lengthFieldEndOffset.toNat)
        .ok (.undersized cfg.lengthFieldEndOffset.toNat, rest)
      else if frameLength > cfg.maxFrameLength.toUInt64 then .ok (.oversized, buf)
      else
        let frameLengthInt := frameLength.toUInt32
        if buf.length < frameLengthInt.toNat then .ok (.frameIncomplete, buf)
        else if cfg.initialBytesToStrip > frameLengthInt then do
          let rest ← orAssert (ByteQueue.retrieve buf frameLengthInt.toNat)
          .ok (.stripTooLong frameLengthInt.toNat, rest)
        else do
          let rest ← orAssert (ByteQueue.retrieve buf cfg.initialBytesToStrip.toNat)
          let actualFrameLength := frameLengthInt - cfg.initialBytesToStrip
          let (data, rest) ← orAssert (ByteQueue.read rest actualFrameLength.toNat)
          .ok (.frame cfg.initialBytesToStrip.toNat data, rest)

/-- The loop of `decode` for a number of turns: how the turns ended and what
stays in the buffer. `none` when the turns run out. -/
def decodeLoop : Nat → List UInt8 → Option (List Outcome × Except Fault (List UInt8))
  | 0, _ => none
  | .succ turns, buf =>
      if buf.length = 0 then some ([], .ok buf)
      else
        match cfg.turn smallEndian buf with
        | .error fault => some ([], .error fault)
        | .ok (outcome, rest) =>
            if outcome.again then
              (decodeLoop turns rest).map fun (outcomes, ending) => (outcome :: outcomes, ending)
            else some ([outcome], .ok rest)

/-- `decode`. A loop that makes more turns than there are bytes never ends. -/
def decode (buf : List UInt8) : Option (List Outcome × Except Fault (List UInt8)) :=
  cfg.decodeLoop smallEndian (buf.length + 1) buf

/-- `decode` behind each chunk that arrives, as long as it returns. -/
def receive : List UInt8 → List (List UInt8) → Option (List Outcome × List UInt8)
  | held, [] => some ([], held)
  | held, chunk :: rest =>
      match cfg.decode smallEndian (held ++ chunk) with
      | some (outcomes, .ok held) =>
          (receive held rest).map fun (later, last) => (outcomes ++ later, last)
      | _ => none

/-! ## One turn in terms of numbers -/

/-- The length field of the frame at the head of the buffer. -/
def fieldValue (buf : List UInt8) : Nat :=
  wireValue cfg.bigEndian
    ((buf.drop cfg.lengthFieldOffset.toNat).take cfg.lengthFieldLength.toNat)

/-- The length that the code computes for the frame at the head. -/
def frameLength (buf : List UInt8) : Nat := (cfg.adjusted (UInt64.ofNat (cfg.fieldValue buf))).toNat

/-- What a turn does once the header is read. -/
def settle (buf : List UInt8) : Outcome × List UInt8 :=
  if cfg.frameLength buf < cfg.lengthFieldEndOffset.toNat then
    (.undersized cfg.lengthFieldEndOffset.toNat, buf.drop cfg.lengthFieldEndOffset.toNat)
  else if cfg.maxFrameLength.toNat < cfg.frameLength buf then (.oversized, buf)
  else if buf.length < cfg.frameLength buf then (.frameIncomplete, buf)
  else if cfg.frameLength buf < cfg.initialBytesToStrip.toNat then
    (.stripTooLong (cfg.frameLength buf), buf.drop (cfg.frameLength buf))
  else
    (.frame cfg.initialBytesToStrip.toNat
        ((buf.take (cfg.frameLength buf)).drop cfg.initialBytesToStrip.toNat),
      buf.drop (cfg.frameLength buf))

/-- The widths that the switch handles. -/
def Supported : Prop :=
  cfg.lengthFieldLength.toNat = 1 ∨ cfg.lengthFieldLength.toNat = 2 ∨
    cfg.lengthFieldLength.toNat = 4 ∨ cfg.lengthFieldLength.toNat = 8

instance : Decidable cfg.Supported := by unfold Supported; infer_instance

theorem getUnajustFrameLength_supported (supported : cfg.Supported) (buf : List UInt8) :
    cfg.getUnajustFrameLength smallEndian buf =
      cfg.peekField smallEndian buf cfg.lengthFieldLength.toNat := by
  unfold getUnajustFrameLength
  rcases supported with width | width | width | width <;>
    (rw [width]; rfl)

theorem getUnajustFrameLength_unsupported (unsupported : ¬ cfg.Supported) (buf : List UInt8) :
    cfg.getUnajustFrameLength smallEndian buf = .error .fatal := by
  unfold getUnajustFrameLength
  split
  · next width => exact absurd (.inl width) unsupported
  · next width => exact absurd (.inr (.inl width)) unsupported
  · next width => exact absurd (.inr (.inr (.inl width))) unsupported
  · next width => exact absurd (.inr (.inr (.inr width))) unsupported
  · rfl

theorem peekField_ok {buf : List UInt8}
    (inside : cfg.lengthFieldOffset.toNat + cfg.lengthFieldLength.toNat ≤ buf.length) :
    cfg.peekField smallEndian buf cfg.lengthFieldLength.toNat =
      .ok (UInt64.ofNat (cfg.fieldValue buf)) := by
  rw [peekField, ByteQueue.peekIndexEndian_some smallEndian cfg.bigEndian inside]
  rfl

theorem peekField_error {buf : List UInt8}
    (short : buf.length < cfg.lengthFieldOffset.toNat + cfg.lengthFieldLength.toNat) :
    cfg.peekField smallEndian buf cfg.lengthFieldLength.toNat = .error .assertion := by
  rw [peekField, ByteQueue.peekIndexEndian_none smallEndian cfg.bigEndian short]
  rfl

theorem turn_headerIncomplete {buf : List UInt8}
    (short : buf.length ≤ cfg.lengthFieldEndOffset.toNat) :
    cfg.turn smallEndian buf = .ok (.headerIncomplete, buf) :=
  if_pos short

/-- The header is there and can be read, and the adjustment stays behind the
start of the frame. -/
structure Readable (buf : List UInt8) : Prop where
  header : cfg.lengthFieldEndOffset.toNat < buf.length
  supported : cfg.Supported
  inside : cfg.lengthFieldOffset.toNat + cfg.lengthFieldLength.toNat ≤ buf.length
  adjusts : ¬ cfg.AdjustsTooFar

theorem turn_settle {buf : List UInt8} (readable : cfg.Readable buf) :
    cfg.turn smallEndian buf = .ok (cfg.settle buf) := by
  obtain ⟨header, supported, inside, adjusts⟩ := readable
  have raw := cfg.getUnajustFrameLength_supported smallEndian supported buf
  rw [cfg.peekField_ok smallEndian inside] at raw
  rw [turn, if_neg (Nat.not_le_of_lt header), raw]
  dsimp only [bind, Except.bind]
  rw [if_neg adjusts, settle, frameLength]
  generalize cfg.adjusted (UInt64.ofNat (cfg.fieldValue buf)) = length
  simp only [gt_iff_lt, UInt64.lt_iff_toNat_lt, UInt32.lt_iff_toNat_lt, UInt32.toNat_toUInt64]
  split
  · rw [ByteQueue.retrieve_some (Nat.le_of_lt header)]
    rfl
  · split
    · rfl
    · next small =>
        -- the cast to `uint32_t` loses nothing below the maximum
        have narrow : length.toUInt32.toNat = length.toNat := by
          have bound := cfg.maxFrameLength.toNat_lt
          rw [UInt64.toNat_toUInt32]
          exact Nat.mod_eq_of_lt (by omega)
        simp only [narrow]
        split
        · rfl
        · next complete =>
            rw [Nat.not_lt] at complete
            split
            · rw [ByteQueue.retrieve_some complete]
              rfl
            · next strips =>
                rw [Nat.not_lt] at strips
                have actual : (length.toUInt32 - cfg.initialBytesToStrip).toNat =
                    length.toNat - cfg.initialBytesToStrip.toNat := by
                  rw [UInt32.toNat_sub_of_le]
                  · rw [narrow]
                  · rw [UInt32.le_iff_toNat_le, narrow]
                    exact strips
                have rest : length.toNat - cfg.initialBytesToStrip.toNat ≤
                    (buf.drop cfg.initialBytesToStrip.toNat).length := by
                  rw [List.length_drop]
                  omega
                rw [ByteQueue.retrieve_some (Nat.le_trans strips complete), actual]
                simp only [orAssert]
                rw [ByteQueue.read_some rest, List.drop_drop, List.drop_take,
                  Nat.add_sub_cancel' strips]

end LengthFieldBaseFrameDecoder

end FysobEngine.Handler.LengthField
