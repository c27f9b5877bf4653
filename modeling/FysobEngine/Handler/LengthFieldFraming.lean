import Mathlib.Algebra.Ring.Int.Defs
import FysobEngine.Foundation.Framing
import FysobEngine.Handler.LengthFieldDecoder

/-!
# Length-field framing under fragmentation

A valid configuration makes the decoder an incremental one: what it skips and
emits is decided by the bytes of the header alone.
-/

namespace FysobEngine.Handler.LengthField

open Foundation.Framing Net Net.Endian

namespace Outcome

/-- The turn skips a rejected frame or emits an accepted one. -/
def acts : Outcome → Bool
  | .undersized _ => true
  | .stripTooLong _ => true
  | .frame _ _ => true
  | _ => false

/-- A turn that does not act leaves the buffer, the loop and the handlers alone. -/
theorem idle {outcome : Outcome} (idle : outcome.acts = false) :
    outcome.bytes = 0 ∧ outcome.again = false ∧ outcome.fired = none := by
  cases outcome with
  | headerIncomplete => exact ⟨rfl, rfl, rfl⟩
  | frameIncomplete => exact ⟨rfl, rfl, rfl⟩
  | oversized => exact ⟨rfl, rfl, rfl⟩
  | undersized => cases idle
  | stripTooLong => cases idle
  | frame => cases idle

end Outcome

/-- The skips and emissions among the turns. -/
def performed (outcomes : List Outcome) : List Outcome := outcomes.filter Outcome.acts

/-- The messages fired by a list of turns. -/
def firedFrames (outcomes : List Outcome) : List (List UInt8) := outcomes.filterMap Outcome.fired

/-- The bytes that a list of turns takes off the buffer. -/
def consumedBytes (outcomes : List Outcome) : Nat := (outcomes.map Outcome.bytes).sum

/-- The lengths of the calls of `retrieve` that a turn makes. -/
def Outcome.retrieves : Outcome → List Nat
  | .undersized skipped | .stripTooLong skipped => [skipped]
  | .frame stripped data => [stripped, data.length]
  | .headerIncomplete | .frameIncomplete | .oversized => []

theorem retrieves_sum (outcomes : List Outcome) :
    (outcomes.flatMap Outcome.retrieves).sum = consumedBytes outcomes := by
  induction outcomes with
  | nil => rfl
  | cons outcome rest ih =>
      rw [List.flatMap_cons, List.sum_append, ih, consumedBytes, consumedBytes, List.map_cons,
        List.sum_cons]
      cases outcome <;> simp [Outcome.retrieves, Outcome.bytes]

theorem firedFrames_performed (outcomes : List Outcome) :
    firedFrames (performed outcomes) = firedFrames outcomes := by
  induction outcomes with
  | nil => rfl
  | cons outcome rest ih =>
      cases acts : outcome.acts with
      | true =>
          rw [performed, List.filter_cons_of_pos acts]
          simp only [firedFrames, List.filterMap_cons] at ih ⊢
          rw [← ih]
          rfl
      | false =>
          obtain ⟨_, _, silent⟩ := Outcome.idle acts
          rw [performed, List.filter_cons_of_neg (by rw [acts]; exact Bool.false_ne_true)]
          rw [firedFrames, firedFrames, List.filterMap_cons_none silent]
          exact ih

theorem consumedBytes_performed (outcomes : List Outcome) :
    consumedBytes (performed outcomes) = consumedBytes outcomes := by
  induction outcomes with
  | nil => rfl
  | cons outcome rest ih =>
      cases acts : outcome.acts with
      | true =>
          rw [performed, List.filter_cons_of_pos acts]
          simp only [consumedBytes, List.map_cons, List.sum_cons] at ih ⊢
          rw [← ih]
          rfl
      | false =>
          obtain ⟨none, _, _⟩ := Outcome.idle acts
          rw [performed, List.filter_cons_of_neg (by rw [acts]; exact Bool.false_ne_true)]
          simp only [consumedBytes, List.map_cons, List.sum_cons] at ih ⊢
          rw [none, Nat.zero_add]
          exact ih

namespace LengthFieldBaseFrameDecoder

variable {cfg : LengthFieldBaseFrameDecoder}

/-- The configurations that the decoder is made for. -/
structure Valid (cfg : LengthFieldBaseFrameDecoder) : Prop where
  supported : cfg.Supported
  header : cfg.lengthFieldOffset.toNat + cfg.lengthFieldLength.toNat < 2 ^ 32
  adjustment : -cfg.lengthAdjustment.toInt ≤
    cfg.lengthFieldOffset.toNat + cfg.lengthFieldLength.toNat

/-- The bits of a signed number as an unsigned one. -/
theorem toInt_cases (adjustment : Int32) : adjustment.toInt =
    if 2 * adjustment.toUInt32.toNat < 2 ^ 32 then (adjustment.toUInt32.toNat : Int)
    else adjustment.toUInt32.toNat - 2 ^ 32 :=
  BitVec.toInt_eq_toNat_cond adjustment.toBitVec

theorem toNat_abs {adjustment : Int32} (negative : adjustment.toInt < 0) :
    (adjustment.abs.toUInt32.toNat : Int) = -adjustment.toInt := by
  have abs : adjustment.abs.toUInt32.toNat =
      if adjustment.toBitVec.msb then 2 ^ 32 - adjustment.toUInt32.toNat
      else adjustment.toUInt32.toNat := BitVec.toNat_abs
  have sign : adjustment.toBitVec.msb = true := by
    rw [BitVec.msb_eq_toInt, decide_eq_true_eq]
    exact negative
  have value := toInt_cases adjustment
  have bound := adjustment.toUInt32.toNat_lt
  rw [sign, if_pos rfl] at abs
  split at value <;> omega

namespace Valid

theorem endOffset (valid : cfg.Valid) : cfg.lengthFieldEndOffset.toNat =
    cfg.lengthFieldOffset.toNat + cfg.lengthFieldLength.toNat := by
  rw [lengthFieldEndOffset, UInt32.toNat_add]
  exact Nat.mod_eq_of_lt valid.header

theorem endOffset_pos (valid : cfg.Valid) : 0 < cfg.lengthFieldEndOffset.toNat := by
  have wide : 0 < cfg.lengthFieldLength.toNat := by
    rcases valid.supported with width | width | width | width <;> rw [width] <;> decide
  rw [valid.endOffset]
  exact Nat.lt_of_lt_of_le wide (Nat.le_add_left _ _)

theorem adjusts (valid : cfg.Valid) : ¬ cfg.AdjustsTooFar := by
  rintro ⟨negative, far⟩
  have adjustment := valid.adjustment
  rw [Int32.lt_iff_toInt_lt] at negative
  have distance := toNat_abs negative
  rw [gt_iff_lt, UInt32.lt_iff_toNat_lt, valid.endOffset] at far
  omega

theorem readable (valid : cfg.Valid) {buf : List UInt8}
    (header : cfg.lengthFieldEndOffset.toNat < buf.length) : cfg.Readable buf := by
  refine ⟨header, valid.supported, ?_, valid.adjusts⟩
  rw [← valid.endOffset]
  exact Nat.le_of_lt header

end Valid

/-! ## The decoder of a valid configuration -/

/-- What the front of the buffer asks for, if it takes bytes at all. -/
def action (cfg : LengthFieldBaseFrameDecoder) (buf : List UInt8) : Option Outcome :=
  if buf.length ≤ cfg.lengthFieldEndOffset.toNat then none
  else if (cfg.settle buf).1.acts then some (cfg.settle buf).1 else none

theorem action_some {buf : List UInt8} {outcome : Outcome}
    (found : cfg.action buf = some outcome) :
    cfg.lengthFieldEndOffset.toNat < buf.length ∧ (cfg.settle buf).1 = outcome ∧
      outcome.acts = true := by
  unfold action at found
  split at found
  · cases found
  · next header =>
      split at found
      · next acts =>
          cases found
          exact ⟨Nat.lt_of_not_le header, rfl, acts⟩
      · cases found

/-- The five ways a turn ends behind the header. -/
inductive Settles (cfg : LengthFieldBaseFrameDecoder) (buf : List UInt8) :
    Outcome × List UInt8 → Prop where
  | undersized (small : cfg.frameLength buf < cfg.lengthFieldEndOffset.toNat) :
      Settles cfg buf (.undersized cfg.lengthFieldEndOffset.toNat,
        buf.drop cfg.lengthFieldEndOffset.toNat)
  | oversized (large : cfg.lengthFieldEndOffset.toNat ≤ cfg.frameLength buf)
      (excess : cfg.maxFrameLength.toNat < cfg.frameLength buf) :
      Settles cfg buf (.oversized, buf)
  | frameIncomplete (large : cfg.lengthFieldEndOffset.toNat ≤ cfg.frameLength buf)
      (allowed : cfg.frameLength buf ≤ cfg.maxFrameLength.toNat)
      (short : buf.length < cfg.frameLength buf) :
      Settles cfg buf (.frameIncomplete, buf)
  | stripTooLong (large : cfg.lengthFieldEndOffset.toNat ≤ cfg.frameLength buf)
      (allowed : cfg.frameLength buf ≤ cfg.maxFrameLength.toNat)
      (complete : cfg.frameLength buf ≤ buf.length)
      (strips : cfg.frameLength buf < cfg.initialBytesToStrip.toNat) :
      Settles cfg buf (.stripTooLong (cfg.frameLength buf), buf.drop (cfg.frameLength buf))
  | frame (large : cfg.lengthFieldEndOffset.toNat ≤ cfg.frameLength buf)
      (allowed : cfg.frameLength buf ≤ cfg.maxFrameLength.toNat)
      (complete : cfg.frameLength buf ≤ buf.length)
      (strips : cfg.initialBytesToStrip.toNat ≤ cfg.frameLength buf) :
      Settles cfg buf (.frame cfg.initialBytesToStrip.toNat
          ((buf.take (cfg.frameLength buf)).drop cfg.initialBytesToStrip.toNat),
        buf.drop (cfg.frameLength buf))

theorem settles (cfg : LengthFieldBaseFrameDecoder) (buf : List UInt8) :
    Settles cfg buf (cfg.settle buf) := by
  unfold settle
  split
  · next small => exact .undersized small
  · next large =>
      rw [Nat.not_lt] at large
      split
      · next excess => exact .oversized large excess
      · next allowed =>
          rw [Nat.not_lt] at allowed
          split
          · next short => exact .frameIncomplete large allowed short
          · next complete =>
              rw [Nat.not_lt] at complete
              split
              · next strips => exact .stripTooLong large allowed complete strips
              · next strips =>
                  exact .frame large allowed complete (Nat.le_of_not_lt strips)

theorem Settles.settle_eq {buf : List UInt8} {result : Outcome × List UInt8}
    (ends : Settles cfg buf result) : cfg.settle buf = result := by
  unfold settle
  cases ends with
  | undersized small => rw [if_pos small]
  | oversized large excess => rw [if_neg (Nat.not_lt_of_le large), if_pos excess]
  | frameIncomplete large allowed short =>
      rw [if_neg (Nat.not_lt_of_le large), if_neg (Nat.not_lt_of_le allowed), if_pos short]
  | stripTooLong large allowed complete strips =>
      rw [if_neg (Nat.not_lt_of_le large), if_neg (Nat.not_lt_of_le allowed),
        if_neg (Nat.not_lt_of_le complete), if_pos strips]
  | frame large allowed complete strips =>
      rw [if_neg (Nat.not_lt_of_le large), if_neg (Nat.not_lt_of_le allowed),
        if_neg (Nat.not_lt_of_le complete), if_neg (Nat.not_lt_of_le strips)]

/-- A fired frame takes its whole length off the buffer. -/
theorem frame_bytes {buf : List UInt8} (complete : cfg.frameLength buf ≤ buf.length)
    (strips : cfg.initialBytesToStrip.toNat ≤ cfg.frameLength buf) :
    Outcome.bytes (.frame cfg.initialBytesToStrip.toNat
      ((buf.take (cfg.frameLength buf)).drop cfg.initialBytesToStrip.toNat)) =
        cfg.frameLength buf := by
  rw [Outcome.bytes, List.length_drop, List.length_take, Nat.min_eq_left complete,
    Nat.add_sub_cancel' strips]

/-- A turn behind the header takes the bytes it reports off the front. -/
theorem settle_rest {buf : List UInt8} (header : cfg.lengthFieldEndOffset.toNat < buf.length) :
    (cfg.settle buf).1.bytes ≤ buf.length ∧
      (cfg.settle buf).2 = buf.drop (cfg.settle buf).1.bytes := by
  have ends := cfg.settles buf
  generalize cfg.settle buf = result at ends
  cases ends with
  | undersized => exact ⟨Nat.le_of_lt header, rfl⟩
  | oversized => exact ⟨Nat.zero_le _, rfl⟩
  | frameIncomplete => exact ⟨Nat.zero_le _, rfl⟩
  | stripTooLong _ _ complete => exact ⟨complete, rfl⟩
  | frame _ _ complete strips =>
      dsimp only
      rw [frame_bytes complete strips]
      exact ⟨complete, rfl⟩

/-- A skip or an emission of a valid configuration takes at least one byte. -/
theorem settle_progress (valid : cfg.Valid) {buf : List UInt8}
    (acts : (cfg.settle buf).1.acts = true) : 0 < (cfg.settle buf).1.bytes := by
  have positive := valid.endOffset_pos
  have ends := cfg.settles buf
  generalize cfg.settle buf = result at ends acts
  cases ends with
  | undersized => exact positive
  | oversized => cases acts
  | frameIncomplete => cases acts
  | stripTooLong large => exact Nat.lt_of_lt_of_le positive large
  | frame large _ complete strips =>
      dsimp only
      rw [frame_bytes complete strips]
      exact Nat.lt_of_lt_of_le positive large

theorem fieldValue_append {buf : List UInt8} (more : List UInt8)
    (inside : cfg.lengthFieldOffset.toNat + cfg.lengthFieldLength.toNat ≤ buf.length) :
    cfg.fieldValue (buf ++ more) = cfg.fieldValue buf := by
  unfold fieldValue
  rw [List.drop_append_of_le_length (by omega), List.take_append_of_le_length]
  rw [List.length_drop]
  omega

theorem frameLength_append {buf : List UInt8} (more : List UInt8)
    (inside : cfg.lengthFieldOffset.toNat + cfg.lengthFieldLength.toNat ≤ buf.length) :
    cfg.frameLength (buf ++ more) = cfg.frameLength buf := by
  rw [frameLength, fieldValue_append more inside, frameLength]

/-- Bytes that arrive later do not change a turn that is not waiting for them. -/
theorem settle_append {buf : List UInt8} (more : List UInt8)
    (header : cfg.lengthFieldEndOffset.toNat < buf.length)
    (inside : cfg.lengthFieldOffset.toNat + cfg.lengthFieldLength.toNat ≤ buf.length)
    (decided : (cfg.settle buf).1 ≠ .frameIncomplete) :
    cfg.settle (buf ++ more) = ((cfg.settle buf).1, (cfg.settle buf).2 ++ more) := by
  have ends := cfg.settles buf
  have same := frameLength_append more inside
  have longer : buf.length ≤ (buf ++ more).length := by
    rw [List.length_append]
    exact Nat.le_add_right _ _
  generalize cfg.settle buf = result at ends decided
  apply Settles.settle_eq
  cases ends with
  | undersized small =>
      rw [← same] at small
      rw [← List.drop_append_of_le_length (Nat.le_of_lt header)]
      exact .undersized small
  | oversized large excess =>
      rw [← same] at large excess
      exact .oversized large excess
  | frameIncomplete => exact absurd rfl decided
  | stripTooLong large allowed complete strips =>
      rw [← List.drop_append_of_le_length complete]
      rw [← same] at large allowed complete strips ⊢
      exact .stripTooLong large allowed (Nat.le_trans complete longer) strips
  | frame large allowed complete strips =>
      rw [← List.drop_append_of_le_length complete,
        ← List.take_append_of_le_length complete]
      rw [← same] at large allowed complete strips ⊢
      exact .frame large allowed (Nat.le_trans complete longer) strips

/-- The incremental decoder of a valid configuration. -/
def decoder (valid : cfg.Valid) : Decoder UInt8 Outcome where
  next := cfg.action
  size := Outcome.bytes
  again := Outcome.again
  progress := by
    intro buf outcome found
    obtain ⟨_, rfl, acts⟩ := action_some found
    exact settle_progress valid acts
  within := by
    intro buf outcome found
    obtain ⟨header, rfl, _⟩ := action_some found
    exact (settle_rest header).1
  stable := by
    intro buf outcome more found
    obtain ⟨header, same, acts⟩ := action_some found
    have decided : (cfg.settle buf).1 ≠ .frameIncomplete := by
      intro waits
      rw [← same, waits] at acts
      cases acts
    have longer : ¬ (buf ++ more).length ≤ cfg.lengthFieldEndOffset.toNat := by
      rw [List.length_append]
      omega
    rw [action, if_neg longer, settle_append more header (valid.readable header).inside decided]
    dsimp only
    rw [same, if_pos acts]

theorem next_short (valid : cfg.Valid) {buf : List UInt8}
    (short : buf.length ≤ cfg.lengthFieldEndOffset.toNat) : (decoder valid).next buf = none := by
  change cfg.action buf = none
  rw [action, if_pos short]

theorem next_empty (valid : cfg.Valid) : (decoder valid).next [] = none :=
  next_short valid (Nat.zero_le _)

/-- Every skip and emission that a stream asks for. -/
def actions (valid : cfg.Valid) (stream : List UInt8) : List Outcome :=
  ((decoder valid).drain stream).1

/-- Where the incremental decoder waits the loop ends, without an action. -/
theorem decodeLoop_wait (valid : cfg.Valid) (smallEndian : Bool) {buf : List UInt8}
    (turns : Nat) (waits : cfg.action buf = none) :
    ∃ outcomes, cfg.decodeLoop smallEndian (turns + 1) buf = some (outcomes, .ok buf) ∧
      performed outcomes = [] := by
  rw [decodeLoop]
  split
  · exact ⟨[], rfl, rfl⟩
  · unfold action at waits
    split at waits
    · next short =>
        rw [cfg.turn_headerIncomplete smallEndian short]
        exact ⟨[.headerIncomplete], rfl, rfl⟩
    · next header =>
        have header := Nat.lt_of_not_le header
        split at waits
        · cases waits
        · next idle =>
            obtain ⟨none, leaves, _⟩ := Outcome.idle (Bool.not_eq_true _ ▸ idle)
            have rest := (settle_rest header).2
            rw [none, List.drop_zero] at rest
            rw [cfg.turn_settle smallEndian (valid.readable header)]
            dsimp only
            rw [leaves, rest]
            refine ⟨[(cfg.settle buf).1], rfl, ?_⟩
            rw [performed, List.filter_cons_of_neg idle]
            rfl

/-- Where the incremental decoder acts the loop takes the action's bytes off. -/
theorem decodeLoop_act (valid : cfg.Valid) (smallEndian : Bool) {buf : List UInt8}
    {outcome : Outcome} (turns : Nat) (found : cfg.action buf = some outcome) :
    cfg.decodeLoop smallEndian (turns + 1) buf =
      if outcome.again then
        (cfg.decodeLoop smallEndian turns (buf.drop outcome.bytes)).map
          fun (outcomes, ending) => (outcome :: outcomes, ending)
      else some ([outcome], .ok (buf.drop outcome.bytes)) := by
  obtain ⟨header, same, _⟩ := action_some found
  have rest := (settle_rest header).2
  rw [decodeLoop, if_neg (Nat.ne_zero_of_lt header),
    cfg.turn_settle smallEndian (valid.readable header)]
  dsimp only
  rw [rest, same]

/-- Enough turns perform the actions of one call of the incremental decoder. -/
theorem decodeLoop_call (valid : cfg.Valid) (smallEndian : Bool) (buf : List UInt8)
    (turns : Nat) (enough : buf.length < turns) :
    ∃ outcomes, cfg.decodeLoop smallEndian turns buf =
        some (outcomes, .ok ((decoder valid).call buf).2) ∧
      performed outcomes = ((decoder valid).call buf).1 := by
  induction buf using (decoder valid).induct_next generalizing turns with
  | wait buf waits =>
      obtain ⟨turns, rfl⟩ := Nat.exists_eq_succ_of_ne_zero (Nat.ne_zero_of_lt enough)
      rw [(decoder valid).call_wait waits]
      exact decodeLoop_wait valid smallEndian turns waits
  | act buf outcome found ih =>
      obtain ⟨turns, rfl⟩ := Nat.exists_eq_succ_of_ne_zero (Nat.ne_zero_of_lt enough)
      have acts := (action_some found).2.2
      rw [decodeLoop_act valid smallEndian turns found]
      cases again : outcome.again with
      | true =>
          have shorter := (decoder valid).sub_lt found
          obtain ⟨outcomes, done, log⟩ := ih turns (by
            rw [List.length_drop]
            omega)
          change cfg.decodeLoop smallEndian turns (buf.drop outcome.bytes) = _ at done
          rw [(decoder valid).call_again found again, if_pos rfl, done, Option.map_some]
          refine ⟨outcome :: outcomes, rfl, ?_⟩
          rw [performed, List.filter_cons_of_pos acts, ← log]
          rfl
      | false =>
          rw [(decoder valid).call_stop found again]
          refine ⟨[outcome], rfl, ?_⟩
          rw [performed, List.filter_cons_of_pos acts]
          rfl

/-- A fed stream performs the actions of the incremental decoder. -/
theorem receive_feed (valid : cfg.Valid) (smallEndian : Bool) (held : List UInt8)
    (chunks : List (List UInt8)) :
    ∃ log, cfg.receive smallEndian held chunks =
        some (log, ((decoder valid).feed held chunks).2) ∧
      performed log = ((decoder valid).feed held chunks).1 := by
  induction chunks generalizing held with
  | nil => exact ⟨[], rfl, rfl⟩
  | cons chunk rest ih =>
      obtain ⟨outcomes, done, first⟩ :=
        decodeLoop_call valid smallEndian (held ++ chunk) _ (Nat.lt_succ_self _)
      obtain ⟨later, tail, second⟩ := ih ((decoder valid).call (held ++ chunk)).2
      refine ⟨outcomes ++ later, ?_, ?_⟩
      · rw [receive, decode, done]
        dsimp only
        rw [tail]
        rfl
      · rw [performed, List.filter_append]
        change performed outcomes ++ performed later = _
        rw [first, second]
        rfl

/-! ## Two ways to cut one stream -/

/-- A fed stream performs a prefix of its actions and keeps the bytes behind them. -/
theorem receive_prefix (valid : cfg.Valid) (smallEndian : Bool) (chunks : List (List UInt8)) :
    ∃ log held, cfg.receive smallEndian [] chunks = some (log, held) ∧
      performed log <+: actions valid chunks.flatten ∧
      consumedBytes log + held.length = chunks.flatten.length := by
  obtain ⟨log, done, same⟩ := receive_feed valid smallEndian [] chunks
  refine ⟨log, _, done, ?_, ?_⟩
  · rw [same]
    exact (decoder valid).feed_consumed chunks
  · rw [← consumedBytes_performed, same]
    have taken := (decoder valid).feed_rest [] chunks
    rw [List.length_nil, Nat.zero_add] at taken
    exact taken

theorem prefix_fired {first second : List Outcome}
    (before : performed first <+: performed second) :
    firedFrames first <+: firedFrames second ∧ consumedBytes first ≤ consumedBytes second := by
  obtain ⟨more, same⟩ := before
  rw [← firedFrames_performed first, ← firedFrames_performed second, ← consumedBytes_performed
    first, ← consumedBytes_performed second, ← same]
  constructor
  · rw [firedFrames, firedFrames, List.filterMap_append]
    exact List.prefix_append _ _
  · rw [consumedBytes, consumedBytes, List.map_append, List.sum_append]
    exact Nat.le_add_right _ _

/-- However a stream is cut, the decoder performs a prefix of the skips and
emissions that the stream alone determines, so the frames fired and the bytes
consumed by two cuts are comparable. -/
theorem receive_comparable (valid : cfg.Valid) (stream : List UInt8) (smallEndian : Bool)
    (first second : List (List UInt8)) (one : first.flatten = stream)
    (other : second.flatten = stream) :
    ∃ log held log' held', cfg.receive smallEndian [] first = some (log, held) ∧
      cfg.receive smallEndian [] second = some (log', held') ∧
      performed log <+: actions valid stream ∧ performed log' <+: actions valid stream ∧
      consumedBytes log + held.length = stream.length ∧
      consumedBytes log' + held'.length = stream.length ∧
      (firedFrames log <+: firedFrames log' ∧ consumedBytes log ≤ consumedBytes log' ∨
        firedFrames log' <+: firedFrames log ∧ consumedBytes log' ≤ consumedBytes log) := by
  obtain ⟨log, held, done, part, taken⟩ := receive_prefix valid smallEndian first
  obtain ⟨log', held', done', part', taken'⟩ := receive_prefix valid smallEndian second
  rw [one] at part taken
  rw [other] at part' taken'
  refine ⟨log, held, log', held', done, done', part, part', taken, taken', ?_⟩
  rcases List.prefix_or_prefix_of_prefix part part' with before | behind
  · exact .inl (prefix_fired before)
  · exact .inr (prefix_fired behind)

/-- The layouts of the class comment with a one-byte field in front. -/
def byteLength : LengthFieldBaseFrameDecoder where
  maxFrameLength := 64
  lengthFieldOffset := 0
  lengthFieldLength := 1
  lengthAdjustment := 0
  initialBytesToStrip := 0
  bigEndian := true

theorem byteLength_valid : byteLength.Valid := ⟨by decide, by decide, by decide⟩

theorem receive_comparable_bytes :
    ∃ log held log' held', byteLength.receive true [] [[1, 65, 1]] = some (log, held) ∧
      byteLength.receive true [] [[1], [65, 1]] = some (log', held') ∧
      performed log <+: actions byteLength_valid [1, 65, 1] ∧
      performed log' <+: actions byteLength_valid [1, 65, 1] ∧
      consumedBytes log + held.length = 3 ∧ consumedBytes log' + held'.length = 3 ∧
      (firedFrames log <+: firedFrames log' ∧ consumedBytes log ≤ consumedBytes log' ∨
        firedFrames log' <+: firedFrames log ∧ consumedBytes log' ≤ consumedBytes log) :=
  receive_comparable byteLength_valid [1, 65, 1] true [[1, 65, 1]] [[1], [65, 1]] rfl rfl

/-! ## Streams of frames -/

/-- A frame that the configuration accepts: its field announces its length,
which lies between the header and the maximum and covers the bytes to strip. -/
structure WellFormed (cfg : LengthFieldBaseFrameDecoder) (frame : List UInt8) : Prop where
  length : (frame.length : Int) = cfg.fieldValue frame + cfg.lengthAdjustment.toInt +
    (cfg.lengthFieldOffset.toNat + cfg.lengthFieldLength.toNat)
  header : cfg.lengthFieldOffset.toNat + cfg.lengthFieldLength.toNat ≤ frame.length
  allowed : frame.length ≤ cfg.maxFrameLength.toNat
  strips : cfg.initialBytesToStrip.toNat ≤ frame.length

/-- What the decoder does with a frame. -/
def emission (cfg : LengthFieldBaseFrameDecoder) (frame : List UInt8) : Outcome :=
  .frame cfg.initialBytesToStrip.toNat (frame.drop cfg.initialBytesToStrip.toNat)

/-- Every frame is fired once and stripped, in order, and nothing stays behind. -/
def Delivered (cfg : LengthFieldBaseFrameDecoder) (smallEndian : Bool)
    (frames chunks : List (List UInt8)) : Prop :=
  ∃ log, cfg.receive smallEndian [] chunks = some (log, []) ∧
    firedFrames log = frames.map fun frame => frame.drop cfg.initialBytesToStrip.toNat

/-- The additions of the code do not wrap below the maximum. -/
theorem WellFormed.frameLength_eq {frame : List UInt8} (valid : cfg.Valid)
    (formed : cfg.WellFormed frame) : cfg.frameLength frame = frame.length := by
  have length := formed.length
  have allowed := formed.allowed
  have adjustment := valid.adjustment
  have bound := cfg.maxFrameLength.toNat_lt
  have sign := toInt_cases cfg.lengthAdjustment
  have bits := cfg.lengthAdjustment.toUInt32.toNat_lt
  rw [frameLength, adjusted, UInt64.toNat_add, UInt64.toNat_ofNat', UInt32.toNat_toUInt64,
    UInt32.toNat_add, valid.endOffset]
  generalize cfg.fieldValue frame = value at length ⊢
  split at sign <;> omega

theorem WellFormed.settle_eq {frame : List UInt8} (valid : cfg.Valid)
    (formed : cfg.WellFormed frame) (more : List UInt8) :
    cfg.settle (frame ++ more) = (cfg.emission frame, more) := by
  have length : cfg.frameLength (frame ++ more) = frame.length := by
    rw [frameLength_append more formed.header, formed.frameLength_eq valid]
  have whole : frame.length ≤ (frame ++ more).length := by
    rw [List.length_append]
    exact Nat.le_add_right _ _
  have accepted : Settles cfg (frame ++ more) (.frame cfg.initialBytesToStrip.toNat
      (((frame ++ more).take frame.length).drop cfg.initialBytesToStrip.toNat),
        (frame ++ more).drop frame.length) := by
    rw [← length]
    apply Settles.frame
    · rw [length, valid.endOffset]
      exact formed.header
    · rw [length]
      exact formed.allowed
    · rw [length]
      exact whole
    · rw [length]
      exact formed.strips
  rw [accepted.settle_eq, List.take_left, List.drop_left]
  rfl

theorem WellFormed.action_eq {frame : List UInt8} (valid : cfg.Valid)
    (formed : cfg.WellFormed frame) (more : List UInt8)
    (header : cfg.lengthFieldEndOffset.toNat < (frame ++ more).length) :
    cfg.action (frame ++ more) = some (cfg.emission frame) := by
  rw [action, if_neg (Nat.not_le_of_lt header), formed.settle_eq valid more]
  rfl

theorem WellFormed.emission_bytes {frame : List UInt8} (formed : cfg.WellFormed frame) :
    (cfg.emission frame).bytes = frame.length := by
  rw [emission, Outcome.bytes, List.length_drop, Nat.add_sub_cancel' formed.strips]

/-- Frames with bytes behind them are emitted one by one. -/
theorem drain_frames (valid : cfg.Valid) {frames : List (List UInt8)}
    (formed : ∀ frame ∈ frames, cfg.WellFormed frame) {tail : List UInt8} (behind : tail ≠ []) :
    (decoder valid).drain (frames.flatten ++ tail) =
      (frames.map cfg.emission ++ ((decoder valid).drain tail).1,
        ((decoder valid).drain tail).2) := by
  induction frames with
  | nil => rfl
  | cons frame rest ih =>
      have first := formed frame List.mem_cons_self
      have later := ih fun other member => formed other (List.mem_cons_of_mem frame member)
      have header : cfg.lengthFieldEndOffset.toNat <
          (frame ++ (rest.flatten ++ tail)).length := by
        have positive := List.length_pos_iff.mpr behind
        have covers := first.header
        rw [List.length_append, List.length_append, valid.endOffset]
        omega
      have found : (decoder valid).next (frame ++ (rest.flatten ++ tail)) =
          some (cfg.emission frame) := first.action_eq valid _ header
      have size : (decoder valid).size (cfg.emission frame) = frame.length :=
        first.emission_bytes
      rw [List.flatten_cons, List.append_assoc, (decoder valid).drain_act found, size,
        List.drop_left, later]
      rfl

theorem firedFrames_emissions (frames : List (List UInt8)) :
    firedFrames (frames.map cfg.emission) =
      frames.map fun frame => frame.drop cfg.initialBytesToStrip.toNat := by
  induction frames with
  | nil => rfl
  | cons frame rest ih =>
      rw [List.map_cons, List.map_cons, ← ih]
      rfl

/-- The last frame is emitted when there are bytes behind its header. -/
theorem drain_last (valid : cfg.Valid) {last : List UInt8} (formed : cfg.WellFormed last)
    (body : cfg.lengthFieldEndOffset.toNat < last.length) :
    (decoder valid).drain last = ([cfg.emission last], []) := by
  have found := formed.action_eq valid [] (by rw [List.append_nil]; exact body)
  rw [List.append_nil] at found
  have size : (decoder valid).size (cfg.emission last) = last.length := formed.emission_bytes
  have empty := next_empty valid
  rw [(decoder valid).drain_act found, size, List.drop_length,
    (decoder valid).drain_wait empty]

/-- A frame that is all header is left waiting for a byte behind it. -/
theorem drain_header (valid : cfg.Valid) {last : List UInt8}
    (bare : ¬ cfg.lengthFieldEndOffset.toNat < last.length) :
    (decoder valid).drain last = ([], last) := by
  rw [(decoder valid).drain_wait (next_short valid (Nat.le_of_not_lt bare))]

theorem WellFormed.ne_nil {frame : List UInt8} (valid : cfg.Valid)
    (formed : cfg.WellFormed frame) : frame ≠ [] := by
  rintro rfl
  have covers := formed.header
  rw [← valid.endOffset] at covers
  exact absurd covers (Nat.not_le_of_lt valid.endOffset_pos)

/-- Frames whose last one has a body are emitted, however they are cut. -/
theorem feed_frames (valid : cfg.Valid) {before chunks : List (List UInt8)} {last : List UInt8}
    (formed : ∀ frame ∈ before, cfg.WellFormed frame) (formedLast : cfg.WellFormed last)
    (body : cfg.lengthFieldEndOffset.toNat < last.length)
    (cut : chunks.flatten = before.flatten ++ last) :
    (decoder valid).feed [] chunks = ((before ++ [last]).map cfg.emission, []) := by
  have drained : (decoder valid).drain ([] ++ chunks.flatten) =
      ((before ++ [last]).map cfg.emission, []) := by
    rw [List.nil_append, cut, drain_frames valid formed (formedLast.ne_nil valid),
      drain_last valid formedLast body, List.map_append]
    rfl
  rw [(decoder valid).feed_eq_drain (next_empty valid), drained]
  -- emissions do not end a call
  intro outcome member
  rw [drained] at member
  obtain ⟨frame, _, rfl⟩ := List.mem_map.mp member
  rfl

/-- A last frame without a body stays behind, however the frames are cut. -/
theorem feed_bare (valid : cfg.Valid) {before chunks : List (List UInt8)} {last : List UInt8}
    (formed : ∀ frame ∈ before, cfg.WellFormed frame) (formedLast : cfg.WellFormed last)
    (bare : ¬ cfg.lengthFieldEndOffset.toNat < last.length)
    (cut : chunks.flatten = before.flatten ++ last) :
    (firedFrames ((decoder valid).feed [] chunks).1).length ≤ before.length := by
  have part := (decoder valid).feed_consumed chunks
  rw [cut, drain_frames valid formed (formedLast.ne_nil valid), drain_header valid bare,
    List.append_nil] at part
  have fewer := (List.IsPrefix.filterMap Outcome.fired part).length_le
  change _ ≤ (firedFrames (before.map cfg.emission)).length at fewer
  rw [firedFrames_emissions, List.length_map] at fewer
  exact fewer

/-- However the frames are cut into chunks, they are delivered exactly if the
last of them has a byte behind its header. -/
theorem delivered_iff (valid : cfg.Valid) (smallEndian : Bool) {frames : List (List UInt8)}
    (formed : ∀ frame ∈ frames, cfg.WellFormed frame) {chunks : List (List UInt8)}
    (cut : chunks.flatten = frames.flatten) :
    cfg.Delivered smallEndian frames chunks ↔
      ∀ last, frames.getLast? = some last →
        cfg.lengthFieldOffset.toNat + cfg.lengthFieldLength.toNat < last.length := by
  obtain ⟨log, done, same⟩ := receive_feed valid smallEndian [] chunks
  rcases List.eq_nil_or_concat frames with rfl | ⟨before, last, rfl⟩
  · have nothing : (decoder valid).feed [] chunks = ([], []) := by
      have empty := next_empty valid
      have drained : (decoder valid).drain ([] ++ chunks.flatten) = ([], []) := by
        rw [cut]
        exact (decoder valid).drain_wait empty
      rw [(decoder valid).feed_eq_drain empty, drained]
      intro outcome member
      rw [drained] at member
      cases member
    refine iff_of_true ⟨log, ?_, ?_⟩ ?_
    · rw [done, nothing]
    · rw [← firedFrames_performed, same, nothing]
      rfl
    · intro last impossible
      cases impossible
  · rw [List.concat_eq_append] at *
    have formedLast := formed last (List.mem_append_right before List.mem_cons_self)
    have formedBefore (frame : List UInt8) (member : frame ∈ before) : cfg.WellFormed frame :=
      formed frame (List.mem_append_left [last] member)
    rw [List.flatten_append, List.flatten_singleton] at cut
    rw [List.getLast?_concat, ← valid.endOffset]
    by_cases body : cfg.lengthFieldEndOffset.toNat < last.length
    · have whole := feed_frames valid formedBefore formedLast body cut
      refine iff_of_true ⟨log, ?_, ?_⟩ ?_
      · rw [done, whole]
      · rw [← firedFrames_performed, same, whole, firedFrames_emissions]
      · intro other found
        rw [← Option.some.inj found]
        exact body
    · refine iff_of_false ?_ fun all => body (all last rfl)
      rintro ⟨log', done', fired⟩
      rw [done, Option.some.injEq, Prod.mk.injEq] at done'
      have few := feed_bare valid formedBefore formedLast body cut
      rw [← same, firedFrames_performed, done'.1, fired, List.length_map,
        List.length_append] at few
      exact absurd few (Nat.not_succ_le_self _)

/-- A frame with a body in two pieces. -/
theorem delivered_iff_body : byteLength.Delivered true [[1, 65]] [[1], [65]] ↔
    ∀ last, [[(1 : UInt8), 65]].getLast? = some last →
      byteLength.lengthFieldOffset.toNat + byteLength.lengthFieldLength.toNat < last.length :=
  delivered_iff byteLength_valid true
    (fun frame member => by
      rw [List.mem_singleton.mp member]
      exact ⟨by decide, by decide, by decide, by decide⟩)
    rfl

/-- A lone frame without a body is never fired. -/
theorem header_not_delivered :
    ¬ ∀ (cfg : LengthFieldBaseFrameDecoder) (smallEndian : Bool)
      (frames chunks : List (List UInt8)), cfg.Valid →
      (∀ frame ∈ frames, cfg.WellFormed frame) → (∀ chunk ∈ chunks, chunk ≠ []) →
      chunks.flatten = frames.flatten → cfg.Delivered smallEndian frames chunks := by
  intro all
  obtain ⟨log, done, _⟩ := all byteLength true [[0]] [[0]] byteLength_valid
    (fun frame member => by
      rw [List.mem_singleton.mp member]
      exact ⟨by decide, by decide, by decide, by decide⟩)
    (by decide) rfl
  have stays : byteLength.receive true [] [[0]] = some ([.headerIncomplete], [0]) := by
    decide +kernel
  rw [stays] at done
  cases done

/-! ## A frame of which a part has arrived -/

theorem emissions_bytes {frames : List (List UInt8)}
    (formed : ∀ frame ∈ frames, cfg.WellFormed frame) :
    consumedBytes (frames.map cfg.emission) = frames.flatten.length := by
  induction frames with
  | nil => rfl
  | cons frame rest ih =>
      have first := formed frame List.mem_cons_self
      have later := ih fun other member => formed other (List.mem_cons_of_mem frame member)
      rw [List.flatten_cons, List.length_append, ← later, ← first.emission_bytes]
      rfl

/-- A part of a frame asks for nothing. -/
theorem next_unfinished (valid : cfg.Valid) {frame : List UInt8} (formed : cfg.WellFormed frame)
    {len : Nat} (short : len < frame.length) : (decoder valid).next (frame.take len) = none := by
  by_cases header : (frame.take len).length ≤ cfg.lengthFieldEndOffset.toNat
  · exact next_short valid header
  · have inside := (valid.readable (Nat.lt_of_not_le header)).inside
    have length : cfg.frameLength (frame.take len) = frame.length := by
      rw [← formed.frameLength_eq valid, ← frameLength_append (frame.drop len) inside,
        List.take_append_drop]
    have waits : Settles cfg (frame.take len) (.frameIncomplete, frame.take len) := by
      apply Settles.frameIncomplete
      · rw [length, valid.endOffset]
        exact formed.header
      · rw [length]
        exact formed.allowed
      · rw [length, List.length_take]
        exact Nat.lt_of_le_of_lt (Nat.min_le_left _ _) short
    change cfg.action (frame.take len) = none
    rw [action, if_neg header, waits.settle_eq]
    rfl

/-- One call emits the whole frames and keeps what is behind them. -/
theorem call_frames (valid : cfg.Valid) {frames : List (List UInt8)}
    (formed : ∀ frame ∈ frames, cfg.WellFormed frame) {tail : List UInt8} (behind : tail ≠ [])
    (waits : (decoder valid).next tail = none) :
    (decoder valid).call (frames.flatten ++ tail) = (frames.map cfg.emission, tail) := by
  have drained := drain_frames valid formed behind
  rw [(decoder valid).drain_wait waits, List.append_nil] at drained
  have goes : ∀ outcome ∈ ((decoder valid).drain ([] ++ [frames.flatten ++ tail].flatten)).1,
      (decoder valid).again outcome = true := by
    intro outcome member
    rw [List.nil_append, List.flatten_singleton, drained] at member
    obtain ⟨frame, _, rfl⟩ := List.mem_map.mp member
    rfl
  have fed := (decoder valid).feed_eq_drain (next_empty valid) [frames.flatten ++ tail] goes
  rw [List.nil_append, List.flatten_singleton, drained] at fed
  simp only [Decoder.feed, List.nil_append, List.append_nil] at fed
  exact fed

/-- Behind whole frames `decode` keeps the part of the next one that has arrived. -/
theorem decode_unfinished (valid : cfg.Valid) (smallEndian : Bool) {before : List (List UInt8)}
    {frame : List UInt8} (formed : ∀ other ∈ before, cfg.WellFormed other)
    (formedLast : cfg.WellFormed frame) {len : Nat} (arrived : 0 < len)
    (short : len < frame.length) :
    ∃ outcomes, cfg.decode smallEndian (before.flatten ++ frame.take len) =
        some (outcomes, .ok (frame.take len)) ∧
      (outcomes.flatMap Outcome.retrieves).sum = before.flatten.length := by
  have behind : frame.take len ≠ [] := by
    rw [← List.length_pos_iff, List.length_take]
    omega
  have call := call_frames valid formed behind (next_unfinished valid formedLast short)
  obtain ⟨outcomes, done, log⟩ := decodeLoop_call valid smallEndian
    (before.flatten ++ frame.take len) _ (Nat.lt_succ_self _)
  rw [call] at done log
  refine ⟨outcomes, done, ?_⟩
  rw [retrieves_sum, ← consumedBytes_performed, log]
  exact emissions_bytes formed

end LengthFieldBaseFrameDecoder

end FysobEngine.Handler.LengthField
