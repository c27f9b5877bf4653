import FysobEngine.Handler.LengthFieldReject

/-!
# Length arithmetic of the length-field decoder

The announced length of a frame as an integer, beside the one that the code
computes modulo `2 ^ 64`. A call of a valid configuration runs to its end
whatever the peer announces.
-/

namespace FysobEngine.Handler.LengthField

namespace Outcome

/-- The length of the frame that a turn fires or strips. -/
def framed : Outcome → Option Nat
  | .stripTooLong skipped => some skipped
  | .frame stripped data => some (stripped + data.length)
  | _ => none

end Outcome

namespace LengthFieldBaseFrameDecoder

variable {cfg : LengthFieldBaseFrameDecoder}

/-! ## What a call does -/

/-- The turns of a call of a valid configuration, with what stays in the buffer. -/
inductive Decoded (cfg : LengthFieldBaseFrameDecoder) :
    List UInt8 → List Outcome → List UInt8 → Prop where
  | empty : Decoded cfg [] [] []
  | waits {buf : List UInt8} (some : 0 < buf.length)
      (short : buf.length ≤ cfg.lengthFieldEndOffset.toNat) :
      Decoded cfg buf [.headerIncomplete] buf
  | stops {buf : List UInt8} (readable : cfg.Readable buf) (stops : ¬ cfg.Accepts buf) :
      Decoded cfg buf [(cfg.settle buf).1] (cfg.settle buf).2
  | fires {buf rest : List UInt8} {outcomes : List Outcome} (accepts : cfg.Accepts buf)
      (later : Decoded cfg (buf.drop (cfg.frameLength buf)) outcomes rest) :
      Decoded cfg buf ((cfg.settle buf).1 :: outcomes) rest

theorem decodeLoop_decoded (valid : cfg.Valid) (smallEndian : Bool) (turns : Nat)
    {buf : List UInt8} (enough : buf.length < turns) :
    ∃ outcomes rest, cfg.decodeLoop smallEndian turns buf = some (outcomes, .ok rest) ∧
      Decoded cfg buf outcomes rest := by
  induction turns generalizing buf with
  | zero => exact absurd enough (Nat.not_lt_zero _)
  | succ turns ih =>
      obtain header | short := Nat.lt_or_ge cfg.lengthFieldEndOffset.toNat buf.length
      · have readable := valid.readable header
        by_cases accepts : cfg.Accepts buf
        · have bytes := Nat.lt_of_lt_of_le valid.endOffset_pos accepts.large
          have shorter : (buf.drop (cfg.frameLength buf)).length < turns := by
            rw [List.length_drop]
            omega
          obtain ⟨outcomes, rest, done, decoded⟩ := ih shorter
          rw [decodeLoop_accepts smallEndian turns accepts, done]
          exact ⟨_, rest, rfl, .fires accepts decoded⟩
        · rw [decodeLoop_stops smallEndian turns readable accepts]
          exact ⟨_, _, rfl, .stops readable accepts⟩
      · cases buf with
        | nil => exact ⟨[], [], rfl, .empty⟩
        | cons byte buf =>
            rw [decodeLoop, if_neg (by simp), cfg.turn_headerIncomplete smallEndian short]
            exact ⟨_, _, rfl, .waits (by simp) short⟩

theorem decode_decoded (valid : cfg.Valid) (smallEndian : Bool) (buf : List UInt8) :
    ∃ outcomes rest, cfg.decode smallEndian buf = some (outcomes, .ok rest) ∧
      Decoded cfg buf outcomes rest :=
  decodeLoop_decoded valid smallEndian _ (Nat.lt_succ_self _)

theorem Accepts.bytes {buf : List UInt8} (accepts : cfg.Accepts buf) :
    (cfg.settle buf).1.bytes = cfg.frameLength buf := by
  rw [accepts.settle_eq]
  exact frame_bytes accepts.complete accepts.strips

/-- What the turns take comes off the front. -/
theorem Decoded.consumed {buf rest : List UInt8} {outcomes : List Outcome}
    (decoded : Decoded cfg buf outcomes rest) :
    consumedBytes outcomes ≤ buf.length ∧ rest = buf.drop (consumedBytes outcomes) := by
  induction decoded with
  | empty => exact ⟨Nat.le_refl _, rfl⟩
  | waits => exact ⟨Nat.zero_le _, rfl⟩
  | stops readable => simpa [consumedBytes] using settle_rest readable.header
  | @fires buf rest outcomes accepts _ ih =>
      obtain ⟨within, same⟩ := ih
      have complete := accepts.complete
      rw [List.length_drop] at within
      rw [List.drop_drop] at same
      simp only [consumedBytes, List.map_cons, List.sum_cons, accepts.bytes] at within same ⊢
      exact ⟨by omega, same⟩

/-- A turn behind which the loop goes on fires a frame of at least a header. -/
theorem Decoded.goes_on {buf rest : List UInt8} {outcomes : List Outcome}
    (decoded : Decoded cfg buf outcomes rest) {outcome : Outcome} (member : outcome ∈ outcomes)
    (again : outcome.again = true) :
    outcome.fired.isSome = true ∧ cfg.lengthFieldEndOffset.toNat ≤ outcome.bytes := by
  induction decoded with
  | empty => cases member
  | waits =>
      rw [List.mem_singleton.mp member] at again
      cases again
  | stops readable stops =>
      rw [List.mem_singleton.mp member] at again
      exact absurd (accepts_of_again readable again) stops
  | fires accepts _ ih =>
      obtain rfl | later := List.mem_cons.mp member
      · rw [accepts.bytes]
        refine ⟨?_, accepts.large⟩
        rw [accepts.settle_eq]
        rfl
      · exact ih later

/-- The loop goes on behind every turn but the last. -/
theorem Decoded.ends {buf rest : List UInt8} {outcomes : List Outcome}
    (decoded : Decoded cfg buf outcomes rest) {outcome : Outcome}
    (member : outcome ∈ outcomes.dropLast) : outcome.again = true := by
  induction decoded with
  | empty => cases member
  | waits => cases member
  | stops => cases member
  | @fires buf rest outcomes accepts later ih =>
      cases outcomes with
      | nil => cases member
      | cons next outcomes =>
          obtain rfl | behind := List.mem_cons.mp member
          · rw [accepts.settle_eq]
            rfl
          · exact ih behind

/-- A call ends without a failed assertion, whatever the buffer holds. -/
theorem decode_safe (valid : cfg.Valid) (smallEndian : Bool) (buf : List UInt8) :
    1 ≤ cfg.lengthFieldEndOffset.toNat ∧
    ∃ outcomes rest, cfg.decode smallEndian buf = some (outcomes, .ok rest) ∧
      consumedBytes outcomes ≤ buf.length ∧ rest = buf.drop (consumedBytes outcomes) ∧
      (∀ outcome ∈ outcomes.dropLast, outcome.again = true) ∧
      ∀ outcome ∈ outcomes, outcome.again = true →
        outcome.fired.isSome = true ∧ cfg.lengthFieldEndOffset.toNat ≤ outcome.bytes := by
  obtain ⟨outcomes, rest, done, decoded⟩ := decode_decoded valid smallEndian buf
  have within := decoded.consumed
  exact ⟨valid.endOffset_pos, outcomes, rest, done, within.1, within.2,
    fun _ member => decoded.ends member, fun _ member again => decoded.goes_on member again⟩

/-- A peer that announces two hundred bytes. -/
theorem decode_safe_announced :
    1 ≤ byteLength.lengthFieldEndOffset.toNat ∧
    ∃ outcomes rest, byteLength.decode true [200, 0] = some (outcomes, .ok rest) ∧
      consumedBytes outcomes ≤ 2 ∧ rest = [200, 0].drop (consumedBytes outcomes) ∧
      (∀ outcome ∈ outcomes.dropLast, outcome.again = true) ∧
      ∀ outcome ∈ outcomes, outcome.again = true →
        outcome.fired.isSome = true ∧ byteLength.lengthFieldEndOffset.toNat ≤ outcome.bytes :=
  decode_safe byteLength_valid true [200, 0]

/-! ## The announced length -/

/-- The length that the header announces, adjusted. -/
def trueLength (cfg : LengthFieldBaseFrameDecoder) (buf : List UInt8) : Int :=
  cfg.fieldValue buf + cfg.lengthAdjustment.toInt + cfg.lengthFieldEndOffset.toNat

/-- The frames that a call fires or strips have the length that is announced, and
it is not above the maximum. -/
def LengthsTrue (cfg : LengthFieldBaseFrameDecoder) (smallEndian : Bool)
    (buf : List UInt8) : Prop :=
  ∀ before outcome after ending length,
    cfg.decode smallEndian buf = some (before ++ outcome :: after, ending) →
    outcome.framed = some length →
    (length : Int) = cfg.trueLength (buf.drop (consumedBytes before)) ∧
      length ≤ cfg.maxFrameLength.toNat

/-- The header announces `2 ^ 64` bytes more than a length that would be taken. -/
def WrapsIn (cfg : LengthFieldBaseFrameDecoder) (buf : List UInt8) : Prop :=
  cfg.lengthFieldEndOffset.toNat < buf.length ∧
    ∃ wrapped : Nat, cfg.trueLength buf = 2 ^ 64 + wrapped ∧
      cfg.lengthFieldEndOffset.toNat ≤ wrapped ∧ wrapped ≤ cfg.maxFrameLength.toNat ∧
      wrapped ≤ buf.length

/-- A complete frame of the announced length is at the head of the buffer. -/
structure Framed (cfg : LengthFieldBaseFrameDecoder) (buf : List UInt8) (length : Nat) :
    Prop where
  header : cfg.lengthFieldEndOffset.toNat < buf.length
  announced : cfg.trueLength buf = length
  large : cfg.lengthFieldEndOffset.toNat ≤ length
  allowed : length ≤ cfg.maxFrameLength.toNat
  complete : length ≤ buf.length
  strips : cfg.initialBytesToStrip.toNat ≤ length

/-- The headers behind complete frames of the announced lengths. -/
inductive Header (cfg : LengthFieldBaseFrameDecoder) : List UInt8 → List UInt8 → Prop where
  | here (buf : List UInt8) : Header cfg buf buf
  | behind {buf head : List UInt8} {length : Nat} (framed : Framed cfg buf length)
      (later : Header cfg (buf.drop length) head) : Header cfg buf head

theorem fieldValue_lt (buf : List UInt8) :
    cfg.fieldValue buf < 256 ^ cfg.lengthFieldLength.toNat := by
  have value := Net.Endian.wireValue_lt cfg.bigEndian
    ((buf.drop cfg.lengthFieldOffset.toNat).take cfg.lengthFieldLength.toNat)
  refine Nat.lt_of_lt_of_le value (Nat.pow_le_pow_right (by decide) ?_)
  rw [List.length_take]
  exact Nat.min_le_left _ _

theorem Supported.fieldValue_lt (supported : cfg.Supported) (buf : List UInt8) :
    cfg.fieldValue buf < 2 ^ 64 := by
  have width : cfg.lengthFieldLength.toNat ≤ 8 := by
    rcases supported with width | width | width | width <;> omega
  have wide : 256 ^ cfg.lengthFieldLength.toNat ≤ 256 ^ 8 :=
    Nat.pow_le_pow_right (by decide) width
  exact Nat.lt_of_lt_of_le (cfg.fieldValue_lt buf) wide

/-- The computed length is the announced one modulo `2 ^ 64`. -/
theorem frameLength_wraps (valid : cfg.Valid)
    (sum : cfg.lengthAdjustment.toInt + cfg.lengthFieldEndOffset.toNat < 2 ^ 32)
    (buf : List UInt8) :
    cfg.trueLength buf = cfg.frameLength buf ∨
      cfg.trueLength buf = 2 ^ 64 + (cfg.frameLength buf : Int) ∧
        cfg.frameLength buf < 2 ^ 32 := by
  have adjustment := valid.adjustment
  have value := valid.supported.fieldValue_lt buf
  have sign := toInt_cases cfg.lengthAdjustment
  have bits := cfg.lengthAdjustment.toUInt32.toNat_lt
  have header := valid.endOffset
  rw [trueLength, frameLength, adjusted, UInt64.toNat_add, UInt64.toNat_ofNat',
    UInt32.toNat_toUInt64, UInt32.toNat_add]
  generalize cfg.fieldValue buf = value at *
  split at sign <;> omega

theorem framed_iff {buf : List UInt8} {length : Nat} :
    (cfg.settle buf).1.framed = some length ↔ cfg.frameLength buf = length ∧
      cfg.lengthFieldEndOffset.toNat ≤ length ∧ length ≤ cfg.maxFrameLength.toNat ∧
      length ≤ buf.length := by
  have ends := cfg.settles buf
  generalize cfg.settle buf = result at ends
  cases ends with
  | undersized small =>
      refine iff_of_false nofun ?_
      rintro ⟨rfl, large, -⟩
      exact Nat.not_lt_of_le large small
  | oversized large excess =>
      refine iff_of_false nofun ?_
      rintro ⟨rfl, -, allowed, -⟩
      exact Nat.not_lt_of_le allowed excess
  | frameIncomplete large allowed short =>
      refine iff_of_false nofun ?_
      rintro ⟨rfl, -, -, complete⟩
      exact Nat.not_lt_of_le complete short
  | stripTooLong large allowed complete =>
      rw [Outcome.framed, Option.some.injEq]
      refine ⟨?_, And.left⟩
      rintro rfl
      exact ⟨rfl, large, allowed, complete⟩
  | frame large allowed complete strips =>
      rw [Outcome.framed, Option.some.injEq]
      have bytes := frame_bytes complete strips
      rw [Outcome.bytes] at bytes
      rw [bytes]
      refine ⟨?_, And.left⟩
      rintro rfl
      exact ⟨rfl, large, allowed, complete⟩

section Sums

variable (valid : cfg.Valid)
  (sum : cfg.lengthAdjustment.toInt + cfg.lengthFieldEndOffset.toNat < 2 ^ 32)

include valid sum

/-- What a call takes at a header that does not wrap is what is announced. -/
theorem true_of_not_wrapsIn {buf : List UInt8}
    (header : cfg.lengthFieldEndOffset.toNat < buf.length) (kept : ¬ cfg.WrapsIn buf)
    (large : cfg.lengthFieldEndOffset.toNat ≤ cfg.frameLength buf)
    (allowed : cfg.frameLength buf ≤ cfg.maxFrameLength.toNat)
    (complete : cfg.frameLength buf ≤ buf.length) :
    cfg.trueLength buf = cfg.frameLength buf := by
  obtain same | ⟨wrapped, -⟩ := frameLength_wraps valid sum buf
  · exact same
  · exact absurd ⟨header, cfg.frameLength buf, wrapped, large, allowed, complete⟩ kept

theorem Framed.accepts {buf : List UInt8} {length : Nat} (framed : Framed cfg buf length) :
    cfg.frameLength buf = length ∧ cfg.Accepts buf := by
  have bound := cfg.maxFrameLength.toNat_lt
  have announced := framed.announced
  have allowed := framed.allowed
  have same : cfg.frameLength buf = length := by
    obtain same | ⟨wrapped, -⟩ := frameLength_wraps valid sum buf <;> omega
  refine ⟨same, valid.readable framed.header, ?_, ?_, ?_, ?_⟩ <;> rw [same]
  · exact framed.large
  · exact allowed
  · exact framed.complete
  · exact framed.strips

theorem Accepts.framed {buf : List UInt8} (accepts : cfg.Accepts buf)
    (kept : ¬ cfg.WrapsIn buf) : Framed cfg buf (cfg.frameLength buf) where
  header := accepts.readable.header
  announced := true_of_not_wrapsIn valid sum accepts.readable.header kept accepts.large
    accepts.allowed accepts.complete
  large := accepts.large
  allowed := accepts.allowed
  complete := accepts.complete
  strips := accepts.strips

/-- A call comes to every header behind complete frames. -/
theorem Header.decoded {buf head rest : List UInt8} {outcomes : List Outcome}
    (header : Header cfg buf head) (decoded : Decoded cfg buf outcomes rest)
    (readable : cfg.lengthFieldEndOffset.toNat < head.length) :
    ∃ before after, outcomes = before ++ (cfg.settle head).1 :: after ∧
      buf.drop (consumedBytes before) = head := by
  induction header generalizing outcomes with
  | here buf =>
      cases decoded with
      | empty => exact absurd readable (Nat.not_lt_zero _)
      | waits _ short => exact absurd readable (Nat.not_lt_of_le short)
      | stops => exact ⟨[], [], rfl, rfl⟩
      | fires _ later => exact ⟨[], _, rfl, rfl⟩
  | @behind buf head length framed _ ih =>
      obtain ⟨rfl, accepts⟩ := framed.accepts valid sum
      cases decoded with
      | empty => exact absurd framed.header (Nat.not_lt_zero _)
      | waits _ short => exact absurd framed.header (Nat.not_lt_of_le short)
      | stops _ stops => exact absurd accepts stops
      | fires _ later =>
          obtain ⟨before, after, split, same⟩ := ih later readable
          refine ⟨(cfg.settle buf).1 :: before, after, by rw [split]; rfl, ?_⟩
          rw [← same, List.drop_drop, consumedBytes, List.map_cons, List.sum_cons, accepts.bytes]
          rfl

/-- One turn, and from it every turn of a call. -/
theorem Decoded.lengthsTrue {buf rest : List UInt8} {outcomes before after : List Outcome}
    {outcome : Outcome} {length : Nat} (decoded : Decoded cfg buf outcomes rest)
    (kept : ∀ head, Header cfg buf head → ¬ cfg.WrapsIn head)
    (split : outcomes = before ++ outcome :: after) (framed : outcome.framed = some length) :
    (length : Int) = cfg.trueLength (buf.drop (consumedBytes before)) ∧
      length ≤ cfg.maxFrameLength.toNat := by
  -- the turn at the head of a buffer
  have turn : ∀ {buf : List UInt8}, cfg.Readable buf → ¬ cfg.WrapsIn buf →
      (cfg.settle buf).1.framed = some length →
      (length : Int) = cfg.trueLength buf ∧ length ≤ cfg.maxFrameLength.toNat := by
    intro buf readable kept framed
    obtain ⟨rfl, large, allowed, complete⟩ := framed_iff.mp framed
    exact ⟨(true_of_not_wrapsIn valid sum readable.header kept large allowed complete).symm,
      allowed⟩
  induction decoded generalizing before with
  | empty => exact absurd split (by simp)
  | waits =>
      obtain ⟨rfl, same⟩ | ⟨_, -, rest⟩ := List.cons_eq_append_iff.mp split
      · cases same
        cases framed
      · exact absurd rest (by simp)
  | @stops buf readable =>
      obtain ⟨rfl, same⟩ | ⟨_, -, rest⟩ := List.cons_eq_append_iff.mp split
      · cases same
        exact turn readable (kept buf (.here buf)) framed
      · exact absurd rest (by simp)
  | @fires buf rest outcomes accepts _ ih =>
      obtain ⟨rfl, same⟩ | ⟨behind, rfl, later⟩ := List.cons_eq_append_iff.mp split
      · cases same
        exact turn accepts.readable (kept buf (.here buf)) framed
      · have complete := accepts.framed valid sum (kept buf (.here buf))
        have inner := ih (fun head header => kept head (.behind complete header)) later
        rw [List.drop_drop] at inner
        rw [consumedBytes, List.map_cons, List.sum_cons, accepts.bytes]
        exact inner

end Sums

/-- The lengths of a call are true exactly when no header that it comes to
announces `2 ^ 64` bytes more than a length that it would take. -/
theorem lengthsTrue_iff (valid : cfg.Valid)
    (sum : cfg.lengthAdjustment.toInt + cfg.lengthFieldEndOffset.toNat < 2 ^ 32)
    (smallEndian : Bool) (buf : List UInt8) :
    cfg.LengthsTrue smallEndian buf ↔ ∀ head, Header cfg buf head → ¬ cfg.WrapsIn head := by
  obtain ⟨outcomes, rest, done, decoded⟩ := decode_decoded valid smallEndian buf
  constructor
  · rintro lengths head header ⟨readable, wrapped, announced, large, allowed, complete⟩
    obtain ⟨before, after, split, same⟩ := header.decoded valid sum decoded readable
    have bound := cfg.maxFrameLength.toNat_lt
    have computed : cfg.frameLength head = wrapped := by
      have value := (cfg.adjusted (UInt64.ofNat (cfg.fieldValue head))).toNat_lt
      rw [← frameLength] at value
      obtain same | ⟨same, -⟩ := frameLength_wraps valid sum head <;> omega
    have framed := framed_iff.mpr ⟨computed, large, allowed, complete⟩
    rw [split] at done
    have told := (lengths before _ after _ wrapped done framed).1
    rw [same, announced] at told
    omega
  · intro kept before outcome after ending length done' framed
    rw [done, Option.some.injEq, Prod.mk.injEq] at done'
    exact decoded.lengthsTrue valid sum kept done'.1 framed

/-- Only an eight-byte field with an adjustment above zero can announce that much. -/
theorem WrapsIn.wide {buf : List UInt8} (valid : cfg.Valid) (wraps : cfg.WrapsIn buf) :
    cfg.lengthFieldLength.toNat = 8 ∧ 0 < cfg.lengthAdjustment.toInt := by
  obtain ⟨-, wrapped, announced, large, -⟩ := wraps
  have value := cfg.fieldValue_lt buf
  have adjustment := cfg.lengthAdjustment.toInt_lt
  rw [trueLength] at announced
  constructor
  · rcases valid.supported with width | width | width | width <;> rw [width] at value <;> omega
  · have bound := valid.supported.fieldValue_lt buf
    omega

/-- An eight-byte field in front of a body with a trailer of five bytes. -/
def longLength : LengthFieldBaseFrameDecoder where
  maxFrameLength := 64
  lengthFieldOffset := 0
  lengthFieldLength := 8
  lengthAdjustment := 5
  initialBytesToStrip := 0
  bigEndian := true

theorem lengthsTrue_iff_announced :
    byteLength.LengthsTrue true [200, 0] ↔
      ∀ head, Header byteLength [200, 0] head → ¬ byteLength.WrapsIn head :=
  lengthsTrue_iff byteLength_valid (by decide) true [200, 0]

/-- The field holds `2 ^ 64 - 5`; its eight bytes are fired as a frame. -/
theorem longLength_not_lengthsTrue :
    ¬ longLength.LengthsTrue true [255, 255, 255, 255, 255, 255, 255, 251, 0] := by
  intro lengths
  have told := lengths [] (.frame 0 [255, 255, 255, 255, 255, 255, 255, 251])
    [.headerIncomplete] (.ok [0]) 8 (by decide +kernel) rfl
  exact absurd told.1 (by decide +kernel)

end LengthFieldBaseFrameDecoder

end FysobEngine.Handler.LengthField
