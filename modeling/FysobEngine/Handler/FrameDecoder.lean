import FysobEngine.Handler.DelimiterLimit
import FysobEngine.Handler.LengthFieldReject

/-!
# Decoders that take messages off a buffer in turns

`decode` of both decoders is a loop over the bytes at hand. A turn looks at them,
calls `retrieve` and `read` for the bytes it takes, and may fire a message.
-/

namespace FysobEngine.Handler

open Net

/-- The loop of `decode`, apart from what one turn does. -/
structure FrameDecoder (ω : Type) where
  turn : List UInt8 → Except Fault (ω × List UInt8)
  /-- Whether the loop goes on behind the turn. -/
  again : ω → Bool
  /-- The lengths of the calls of `retrieve` and `read` that a turn makes. -/
  retrieves : ω → List Nat
  /-- The message of `fire_read`. -/
  fired : ω → Option (List UInt8)
  turn_takes {buf rest : List UInt8} {outcome : ω} : turn buf = .ok (outcome, rest) →
    (retrieves outcome).sum ≤ buf.length ∧ rest = buf.drop (retrieves outcome).sum

namespace FrameDecoder

variable {ω : Type} (d : FrameDecoder ω)

/-- The loop for a number of turns: how the turns ended and what stays in the
buffer. `none` when the turns run out. -/
def decodeLoop : Nat → List UInt8 → Option (List ω × Except Fault (List UInt8))
  | 0, _ => none
  | .succ turns, buf =>
      if buf.length = 0 then some ([], .ok buf)
      else
        match d.turn buf with
        | .error fault => some ([], .error fault)
        | .ok (outcome, rest) =>
            if d.again outcome then
              (decodeLoop turns rest).map fun (outcomes, ending) => (outcome :: outcomes, ending)
            else some ([outcome], .ok rest)

/-- More turns change nothing. -/
theorem decodeLoop_more {turns more : Nat} {buf : List UInt8}
    {ended : List ω × Except Fault (List UInt8)} (done : d.decodeLoop turns buf = some ended)
    (enough : turns ≤ more) : d.decodeLoop more buf = some ended := by
  induction turns generalizing more buf ended with
  | zero => cases done
  | succ turns ih =>
      obtain ⟨more, rfl⟩ := Nat.exists_eq_succ_of_ne_zero (Nat.ne_zero_of_lt enough)
      rw [decodeLoop] at done ⊢
      split
      · next empty => rwa [if_pos empty] at done
      · next some_ =>
          rw [if_neg some_] at done
          split at done
          · exact done
          · next outcome rest turned =>
              split at done
              · next again =>
                  obtain ⟨later, inner, rfl⟩ := Option.map_eq_some_iff.mp done
                  rw [if_pos again, ih inner (Nat.le_of_succ_le_succ enough)]
                  rfl
              · next stops =>
                  rw [if_neg stops]
                  exact done

end FrameDecoder

/-! ## The two decoders -/

namespace LengthField.LengthFieldBaseFrameDecoder

variable (cfg : LengthFieldBaseFrameDecoder) (smallEndian : Bool)

theorem settle_retrieves {buf : List UInt8} (header : cfg.lengthFieldEndOffset.toNat < buf.length) :
    ((cfg.settle buf).1.retrieves).sum ≤ buf.length ∧
      (cfg.settle buf).2 = buf.drop ((cfg.settle buf).1.retrieves).sum := by
  have same : (cfg.settle buf).1.retrieves.sum = (cfg.settle buf).1.bytes := by
    simpa [consumedBytes] using retrieves_sum [(cfg.settle buf).1]
  rw [same]
  exact settle_rest header

theorem turn_takes {buf rest : List UInt8} {outcome : Outcome}
    (turned : cfg.turn smallEndian buf = .ok (outcome, rest)) :
    outcome.retrieves.sum ≤ buf.length ∧ rest = buf.drop outcome.retrieves.sum := by
  by_cases header : cfg.lengthFieldEndOffset.toNat < buf.length
  · by_cases readable : cfg.Readable buf
    · have settled := settle_retrieves cfg header
      rw [cfg.turn_settle smallEndian readable, Except.ok.injEq] at turned
      rw [turned] at settled
      exact settled
    · obtain ⟨fault, failed⟩ := turn_error smallEndian header readable
      rw [failed] at turned
      cases turned
  · rw [cfg.turn_headerIncomplete smallEndian (Nat.le_of_not_lt header)] at turned
    cases turned
    exact ⟨Nat.zero_le _, rfl⟩

def frameDecoder : FrameDecoder Outcome where
  turn := cfg.turn smallEndian
  again := Outcome.again
  retrieves := Outcome.retrieves
  fired := Outcome.fired
  turn_takes := cfg.turn_takes smallEndian

theorem frameDecoder_decodeLoop (turns : Nat) (buf : List UInt8) :
    (cfg.frameDecoder smallEndian).decodeLoop turns buf = cfg.decodeLoop smallEndian turns buf := by
  induction turns generalizing buf with
  | zero => rfl
  | succ turns ih =>
      rw [FrameDecoder.decodeLoop, decodeLoop]
      cases turned : cfg.turn smallEndian buf with
      | error fault =>
          have same : (cfg.frameDecoder smallEndian).turn buf = .error fault := turned
          rw [same]
      | ok ended =>
          have same : (cfg.frameDecoder smallEndian).turn buf = .ok ended := turned
          rw [same]
          dsimp only
          rw [ih ended.2]
          rfl

end LengthField.LengthFieldBaseFrameDecoder

namespace Delimiter.DelimiterBasedFrameDecoder

variable (cfg : DelimiterBasedFrameDecoder) (smallEndian : Bool)

/-- A message is read, and its delimiter retrieved if it is stripped. -/
def retrieves : Outcome → List Nat
  | .nothing => []
  | .oversized skipped => [skipped]
  | .frame data taken =>
      if cfg.stripDelimiter then [data.length, taken - data.length] else [data.length]

theorem turn_takes {buf rest : List UInt8} {outcome : Outcome}
    (turned : cfg.turn smallEndian buf = .ok (outcome, rest)) :
    (cfg.retrieves outcome).sum ≤ buf.length ∧ rest = buf.drop (cfg.retrieves outcome).sum := by
  rcases turn_cases smallEndian cfg buf with ⟨position, delim, cuts, _⟩ | nothing
  · by_cases whole : cfg.cutBytes position delim ≤ buf.length
    · rw [turn_cut cuts whole] at turned
      cases turned
      have sum : (cfg.retrieves (.frame (cfg.cutData buf position delim)
          (cfg.cutBytes position delim))).sum = cfg.cutBytes position delim := by
        unfold cutBytes at whole
        unfold retrieves cutData cutBytes
        split at whole
        · next strips =>
            dsimp only
            rw [if_pos strips, if_pos strips, if_pos strips, List.length_take_of_le (by omega)]
            simp
        · next keeps =>
            dsimp only
            rw [if_neg keeps, if_neg keeps, if_neg keeps, List.length_take_of_le whole]
            simp
      rw [sum]
      exact ⟨whole, rfl⟩
    · rw [turn_short cuts whole] at turned
      cases turned
  · rw [nothing] at turned
    cases turned
    exact ⟨Nat.zero_le _, rfl⟩

def frameDecoder : FrameDecoder Outcome where
  turn := cfg.turn smallEndian
  again := Outcome.again
  retrieves := cfg.retrieves
  fired := Outcome.fired
  turn_takes := cfg.turn_takes smallEndian

theorem frameDecoder_decodeLoop (turns : Nat) (buf : List UInt8) :
    (cfg.frameDecoder smallEndian).decodeLoop turns buf = cfg.decodeLoop smallEndian turns buf := by
  induction turns generalizing buf with
  | zero => rfl
  | succ turns ih =>
      rw [FrameDecoder.decodeLoop, decodeLoop]
      cases turned : cfg.turn smallEndian buf with
      | error fault =>
          have same : (cfg.frameDecoder smallEndian).turn buf = .error fault := turned
          rw [same]
      | ok ended =>
          have same : (cfg.frameDecoder smallEndian).turn buf = .ok ended := turned
          rw [same]
          dsimp only
          rw [ih ended.2]
          rfl

end Delimiter.DelimiterBasedFrameDecoder

end FysobEngine.Handler
