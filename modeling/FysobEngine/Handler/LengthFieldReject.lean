import FysobEngine.Handler.LengthFieldFraming

/-!
# Rejected frames of the length-field decoder

What a call does with a frame that it rejects, for every configuration. A
frame above the maximum is left in the buffer, so nothing behind it is ever
decoded.
-/

namespace FysobEngine.Handler.LengthField

namespace LengthFieldBaseFrameDecoder

variable {cfg : LengthFieldBaseFrameDecoder}

/-- The loop fires the frame at the head of the buffer. -/
structure Accepts (cfg : LengthFieldBaseFrameDecoder) (buf : List UInt8) : Prop where
  readable : cfg.Readable buf
  large : cfg.lengthFieldEndOffset.toNat ≤ cfg.frameLength buf
  allowed : cfg.frameLength buf ≤ cfg.maxFrameLength.toNat
  complete : cfg.frameLength buf ≤ buf.length
  strips : cfg.initialBytesToStrip.toNat ≤ cfg.frameLength buf

/-- The loop rejects the frame at the head of the buffer. -/
def Rejects (cfg : LengthFieldBaseFrameDecoder) (buf : List UInt8) : Prop :=
  cfg.Readable buf ∧ (cfg.frameLength buf < cfg.lengthFieldEndOffset.toNat ∨
    cfg.maxFrameLength.toNat < cfg.frameLength buf ∨
    cfg.frameLength buf ≤ buf.length ∧ cfg.frameLength buf < cfg.initialBytesToStrip.toNat)

/-- The frame at the head is above the maximum, or it is an empty one that is
to be stripped behind a header whose end wrapped to zero. -/
def Wedges (cfg : LengthFieldBaseFrameDecoder) (buf : List UInt8) : Prop :=
  cfg.lengthFieldEndOffset.toNat ≤ cfg.frameLength buf ∧
    (cfg.maxFrameLength.toNat < cfg.frameLength buf ∨
      cfg.frameLength buf = 0 ∧ 0 < cfg.initialBytesToStrip.toNat)

/-- Every header that can come up at the front of these bytes wedges. -/
def Doomed (cfg : LengthFieldBaseFrameDecoder) (held : List UInt8) : Prop :=
  ∀ more, cfg.lengthFieldEndOffset.toNat < (held ++ more).length →
    cfg.Readable (held ++ more) ∧ cfg.Wedges (held ++ more)

/-- The bytes taken off with a rejected frame that does not wedge. -/
def skipLength (cfg : LengthFieldBaseFrameDecoder) (buf : List UInt8) : Nat :=
  if cfg.frameLength buf < cfg.lengthFieldEndOffset.toNat then cfg.lengthFieldEndOffset.toNat
  else cfg.frameLength buf

/-- The front of the buffer when the loop has fired the complete frames before
it. Empty frames are fired forever, there is no front behind them. -/
inductive Front (cfg : LengthFieldBaseFrameDecoder) : List UInt8 → List UInt8 → Prop where
  | here {buf : List UInt8} (stops : ¬ cfg.Accepts buf) : Front cfg buf buf
  | behind {buf head : List UInt8} (accepts : cfg.Accepts buf)
      (bytes : 0 < cfg.frameLength buf)
      (later : Front cfg (buf.drop (cfg.frameLength buf)) head) : Front cfg buf head

/-- Whatever arrives, every later call returns and neither consumes nor fires. -/
def Stuck (cfg : LengthFieldBaseFrameDecoder) (smallEndian : Bool) (held : List UInt8) : Prop :=
  ∀ chunks, ∃ log, cfg.receive smallEndian held chunks = some (log, held ++ chunks.flatten) ∧
    firedFrames log = []

/-- A call that ends with a rejection takes bytes of the rejected frame, and the
calls behind it are not stuck. -/
def RejectsWell (cfg : LengthFieldBaseFrameDecoder) (smallEndian : Bool)
    (buf : List UInt8) : Prop :=
  ∀ before outcome rest,
    cfg.decode smallEndian buf = some (before ++ [outcome], .ok rest) →
    outcome.rejects = true → 1 ≤ outcome.bytes ∧ ¬ cfg.Stuck smallEndian rest

/-! ## One turn -/

theorem turn_error (smallEndian : Bool) {buf : List UInt8}
    (header : cfg.lengthFieldEndOffset.toNat < buf.length) (unreadable : ¬ cfg.Readable buf) :
    ∃ fault, cfg.turn smallEndian buf = .error fault := by
  rw [turn, if_neg (Nat.not_le_of_lt header)]
  by_cases supported : cfg.Supported
  · rw [cfg.getUnajustFrameLength_supported smallEndian supported]
    by_cases inside : cfg.lengthFieldOffset.toNat + cfg.lengthFieldLength.toNat ≤ buf.length
    · rw [cfg.peekField_ok smallEndian inside]
      by_cases adjusts : cfg.AdjustsTooFar
      · refine ⟨.fatal, ?_⟩
        dsimp only [bind, Except.bind]
        rw [if_pos adjusts]
      · exact absurd ⟨header, supported, inside, adjusts⟩ unreadable
    · rw [cfg.peekField_error smallEndian (Nat.lt_of_not_le inside)]
      exact ⟨.assertion, rfl⟩
  · rw [cfg.getUnajustFrameLength_unsupported smallEndian supported]
    exact ⟨.fatal, rfl⟩

theorem Accepts.settle_eq {buf : List UInt8} (accepts : cfg.Accepts buf) :
    cfg.settle buf = (.frame cfg.initialBytesToStrip.toNat
        ((buf.take (cfg.frameLength buf)).drop cfg.initialBytesToStrip.toNat),
      buf.drop (cfg.frameLength buf)) :=
  (Settles.frame accepts.large accepts.allowed accepts.complete accepts.strips).settle_eq

theorem accepts_of_again {buf : List UInt8} (readable : cfg.Readable buf)
    (again : (cfg.settle buf).1.again = true) : cfg.Accepts buf := by
  have ends := cfg.settles buf
  generalize cfg.settle buf = result at ends again
  cases ends with
  | undersized => cases again
  | oversized => cases again
  | frameIncomplete => cases again
  | stripTooLong => cases again
  | frame large allowed complete strips => exact ⟨readable, large, allowed, complete, strips⟩

theorem rejects_iff {buf : List UInt8} (readable : cfg.Readable buf) :
    (cfg.settle buf).1.rejects = true ↔ cfg.Rejects buf := by
  have ends := cfg.settles buf
  generalize cfg.settle buf = result at ends
  cases ends with
  | undersized small => exact iff_of_true rfl ⟨readable, .inl small⟩
  | oversized _ excess => exact iff_of_true rfl ⟨readable, .inr (.inl excess)⟩
  | stripTooLong _ _ complete strips =>
      exact iff_of_true rfl ⟨readable, .inr (.inr ⟨complete, strips⟩)⟩
  | frameIncomplete large allowed short =>
      refine iff_of_false Bool.false_ne_true ?_
      rintro ⟨_, small | excess | ⟨complete, _⟩⟩
      · exact Nat.not_lt_of_le large small
      · exact Nat.not_lt_of_le allowed excess
      · exact Nat.not_le_of_lt short complete
  | frame large allowed complete strips =>
      refine iff_of_false Bool.false_ne_true ?_
      rintro ⟨_, small | excess | ⟨_, long⟩⟩
      · exact Nat.not_lt_of_le large small
      · exact Nat.not_lt_of_le allowed excess
      · exact Nat.not_lt_of_le strips long

/-! ## One call -/

/-- The four ways the loop can go on at the head of the buffer. -/
theorem decodeLoop_short (smallEndian : Bool) (turns : Nat) {buf : List UInt8}
    (short : buf.length ≤ cfg.lengthFieldEndOffset.toNat) :
    ∃ outcomes, cfg.decodeLoop smallEndian (turns + 1) buf = some (outcomes, .ok buf) ∧
      ∀ outcome ∈ outcomes, outcome = .headerIncomplete := by
  rw [decodeLoop]
  split
  · exact ⟨[], rfl, fun _ member => by cases member⟩
  · rw [cfg.turn_headerIncomplete smallEndian short]
    exact ⟨[.headerIncomplete], rfl, fun _ member => List.mem_singleton.mp member⟩

theorem decodeLoop_error (smallEndian : Bool) (turns : Nat) {buf : List UInt8}
    (header : cfg.lengthFieldEndOffset.toNat < buf.length) (unreadable : ¬ cfg.Readable buf) :
    ∃ fault, cfg.decodeLoop smallEndian (turns + 1) buf = some ([], .error fault) := by
  obtain ⟨fault, failed⟩ := turn_error smallEndian header unreadable
  rw [decodeLoop, if_neg (Nat.ne_zero_of_lt header), failed]
  exact ⟨fault, rfl⟩

theorem decodeLoop_accepts (smallEndian : Bool) (turns : Nat) {buf : List UInt8}
    (accepts : cfg.Accepts buf) :
    cfg.decodeLoop smallEndian (turns + 1) buf =
      (cfg.decodeLoop smallEndian turns (buf.drop (cfg.frameLength buf))).map
        fun (outcomes, ending) => ((cfg.settle buf).1 :: outcomes, ending) := by
  have header := accepts.readable.header
  rw [decodeLoop, if_neg (Nat.ne_zero_of_lt header),
    cfg.turn_settle smallEndian accepts.readable, accepts.settle_eq]
  rfl

theorem decodeLoop_stops (smallEndian : Bool) (turns : Nat) {buf : List UInt8}
    (readable : cfg.Readable buf) (stops : ¬ cfg.Accepts buf) :
    cfg.decodeLoop smallEndian (turns + 1) buf =
      some ([(cfg.settle buf).1], .ok (cfg.settle buf).2) := by
  have leaves := mt (accepts_of_again readable) stops
  rw [decodeLoop, if_neg (Nat.ne_zero_of_lt readable.header),
    cfg.turn_settle smallEndian readable]
  dsimp only
  rw [if_neg leaves]

/-- A call that fires the frame at the head and ends with a rejection ends with
it behind that frame. -/
theorem rejection_behind (smallEndian : Bool) {turns : Nat} {buf rest : List UInt8}
    {before : List Outcome} {outcome : Outcome} (accepts : cfg.Accepts buf)
    (done : cfg.decodeLoop smallEndian (turns + 1) buf = some (before ++ [outcome], .ok rest))
    (rejects : outcome.rejects = true) :
    ∃ later, cfg.decodeLoop smallEndian turns (buf.drop (cfg.frameLength buf)) =
      some (later ++ [outcome], .ok rest) := by
  rw [decodeLoop_accepts smallEndian _ accepts, Option.map_eq_some_iff] at done
  obtain ⟨⟨outcomes, ending⟩, inner, same⟩ := done
  dsimp only at same
  rw [Prod.mk.injEq] at same
  obtain ⟨turned, rfl⟩ := same
  cases before with
  | nil =>
      rw [List.nil_append, List.cons.injEq] at turned
      rw [← turned.1, accepts.settle_eq] at rejects
      cases rejects
  | cons first later =>
      rw [List.cons_append, List.cons.injEq] at turned
      rw [turned.2] at inner
      exact ⟨later, inner⟩

/-- A call that ends with a rejection rejected the front of the buffer. -/
theorem front_of_decodeLoop (smallEndian : Bool) {turns : Nat} {buf rest : List UInt8}
    {before : List Outcome} {outcome : Outcome}
    (done : cfg.decodeLoop smallEndian turns buf = some (before ++ [outcome], .ok rest))
    (rejects : outcome.rejects = true) :
    ∃ head, Front cfg buf head ∧ cfg.Readable head ∧ cfg.settle head = (outcome, rest) := by
  induction turns generalizing buf before with
  | zero => cases done
  | succ turns ih =>
      by_cases header : cfg.lengthFieldEndOffset.toNat < buf.length
      · by_cases readable : cfg.Readable buf
        · by_cases accepts : cfg.Accepts buf
          · obtain ⟨later, inner⟩ := rejection_behind smallEndian accepts done rejects
            obtain ⟨head, front, found⟩ := ih inner
            refine ⟨head, ?_, found⟩
            rcases Nat.eq_zero_or_pos (cfg.frameLength buf) with none | bytes
            · rw [none] at front
              exact front
            · exact .behind accepts bytes front
          · rw [decodeLoop_stops smallEndian _ readable accepts, Option.some.injEq,
              Prod.mk.injEq, Except.ok.injEq] at done
            obtain ⟨only, rest⟩ := done
            have last := congrArg List.getLast? only
            rw [List.getLast?_singleton, List.getLast?_concat, Option.some.injEq] at last
            exact ⟨buf, .here accepts, readable, Prod.ext last rest⟩
        · obtain ⟨fault, failed⟩ :=
            decodeLoop_error smallEndian turns header readable
          rw [failed, Option.some.injEq, Prod.mk.injEq] at done
          cases done.2
      · obtain ⟨outcomes, waits, all⟩ :=
          decodeLoop_short smallEndian turns (Nat.le_of_not_lt header)
        rw [waits, Option.some.injEq, Prod.mk.injEq] at done
        rw [done.1] at all
        rw [all outcome (List.mem_append_right before List.mem_cons_self)] at rejects
        cases rejects

/-- A call fires the frames before the front and ends with the turn there. -/
theorem decodeLoop_front (smallEndian : Bool) {buf head : List UInt8}
    (front : Front cfg buf head) (readable : cfg.Readable head) (turns : Nat)
    (enough : buf.length ≤ turns) :
    ∃ before, cfg.decodeLoop smallEndian (turns + 1) buf =
      some (before ++ [(cfg.settle head).1], .ok (cfg.settle head).2) := by
  induction front generalizing turns with
  | here stops =>
      rw [decodeLoop_stops smallEndian _ readable stops]
      exact ⟨[], rfl⟩
  | @behind buf head accepts bytes _ ih =>
      have header := accepts.readable.header
      have shorter : (buf.drop (cfg.frameLength buf)).length ≤ turns - 1 := by
        rw [List.length_drop]
        omega
      have nonzero : turns - 1 + 1 = turns := by omega
      obtain ⟨before, done⟩ := ih readable (turns - 1) shorter
      rw [nonzero] at done
      rw [decodeLoop_accepts smallEndian _ accepts, done]
      exact ⟨_ :: before, rfl⟩

/-! ## Later calls -/

/-- At a header that wedges a call returns with the buffer as it was. -/
theorem decode_wedged (smallEndian : Bool) {buf : List UInt8}
    (wedged : cfg.lengthFieldEndOffset.toNat < buf.length → cfg.Readable buf ∧ cfg.Wedges buf) :
    ∃ outcomes, cfg.decode smallEndian buf = some (outcomes, .ok buf) ∧
      firedFrames outcomes = [] := by
  unfold decode
  by_cases header : cfg.lengthFieldEndOffset.toNat < buf.length
  · obtain ⟨readable, large, excess | ⟨none, strips⟩⟩ := wedged header
    · have stops : ¬ cfg.Accepts buf := fun accepts =>
        Nat.not_lt_of_le accepts.allowed excess
      rw [decodeLoop_stops smallEndian _ readable stops,
        (Settles.oversized large excess).settle_eq]
      exact ⟨[.oversized], rfl, rfl⟩
    · have strips : cfg.frameLength buf < cfg.initialBytesToStrip.toNat := by
        rw [none]
        exact strips
      have stops : ¬ cfg.Accepts buf := fun accepts =>
        Nat.not_lt_of_le accepts.strips strips
      have settled := Settles.stripTooLong large (none ▸ Nat.zero_le _)
        (none ▸ Nat.zero_le _) strips
      rw [decodeLoop_stops smallEndian _ readable stops, settled.settle_eq, none]
      exact ⟨[.stripTooLong 0], rfl, rfl⟩
  · obtain ⟨outcomes, waits, all⟩ :=
      decodeLoop_short smallEndian buf.length (Nat.le_of_not_lt header)
    refine ⟨outcomes, waits, ?_⟩
    rw [firedFrames, List.filterMap_eq_nil_iff]
    intro outcome member
    rw [all outcome member]
    rfl

/-- A call that returns without a trace wedges or waits for the rest of a frame. -/
theorem wedges_of_idle (smallEndian : Bool) {buf : List UInt8} {outcomes : List Outcome}
    (header : cfg.lengthFieldEndOffset.toNat < buf.length)
    (idle : cfg.decode smallEndian buf = some (outcomes, .ok buf))
    (silent : firedFrames outcomes = []) :
    cfg.Readable buf ∧ (cfg.Wedges buf ∨ buf.length < cfg.frameLength buf) := by
  unfold decode at idle
  by_cases readable : cfg.Readable buf
  · refine ⟨readable, ?_⟩
    by_cases accepts : cfg.Accepts buf
    · rw [decodeLoop_accepts smallEndian _ accepts, Option.map_eq_some_iff] at idle
      obtain ⟨⟨later, ending⟩, _, same⟩ := idle
      dsimp only at same
      rw [Prod.mk.injEq] at same
      rw [← same.1, accepts.settle_eq] at silent
      cases silent
    · rw [decodeLoop_stops smallEndian _ readable accepts, Option.some.injEq, Prod.mk.injEq,
        Except.ok.injEq] at idle
      have lengths := congrArg List.length idle.2
      have ends := cfg.settles buf
      generalize cfg.settle buf = result at ends lengths
      cases ends with
      | undersized small =>
          dsimp only at lengths
          rw [List.length_drop] at lengths
          omega
      | oversized large excess => exact .inl ⟨large, .inl excess⟩
      | frameIncomplete _ _ short => exact .inr short
      | stripTooLong large _ complete strips =>
          dsimp only at lengths
          rw [List.length_drop] at lengths
          have none : cfg.frameLength buf = 0 := by omega
          exact .inl ⟨large, .inr ⟨none, none ▸ strips⟩⟩
      | frame large allowed complete strips =>
          exact absurd ⟨readable, large, allowed, complete, strips⟩ accepts
  · obtain ⟨fault, failed⟩ :=
      decodeLoop_error smallEndian buf.length header readable
    rw [failed, Option.some.injEq, Prod.mk.injEq] at idle
    cases idle.2

theorem Doomed.append {held : List UInt8} (doomed : cfg.Doomed held) (chunk : List UInt8) :
    cfg.Doomed (held ++ chunk) := by
  intro more header
  rw [List.append_assoc] at header ⊢
  exact doomed (chunk ++ more) header

/-- The next call of a stuck decoder, with whatever arrives before it. -/
theorem Stuck.idle {smallEndian : Bool} {held : List UInt8}
    (stuck : cfg.Stuck smallEndian held) (chunk : List UInt8) :
    ∃ outcomes, cfg.decode smallEndian (held ++ chunk) = some (outcomes, .ok (held ++ chunk)) ∧
      firedFrames outcomes = [] := by
  obtain ⟨log, done, silent⟩ := stuck [chunk]
  rw [receive] at done
  split at done
  · next outcomes rest call =>
      rw [receive, Option.map_some, Option.some.injEq, Prod.mk.injEq,
        List.flatten_singleton, List.append_nil] at done
      rw [call, done.1, done.2]
      exact ⟨log, rfl, silent⟩
  · cases done

theorem doomed_of_stuck {smallEndian : Bool} {held : List UInt8}
    (stuck : cfg.Stuck smallEndian held) : cfg.Doomed held := by
  intro more header
  obtain ⟨outcomes, done, silent⟩ := stuck.idle more
  obtain ⟨readable, wedges | _⟩ := wedges_of_idle smallEndian header done silent
  · exact ⟨readable, wedges⟩
  · refine ⟨readable, ?_⟩
    -- enough bytes behind the header to complete the frame that it announces
    have padding : (List.replicate (cfg.frameLength (held ++ more)) (0 : UInt8)).length =
        cfg.frameLength (held ++ more) := List.length_replicate
    generalize List.replicate (cfg.frameLength (held ++ more)) (0 : UInt8) = extra at padding
    obtain ⟨outcomes, done, silent⟩ := stuck.idle (more ++ extra)
    rw [← List.append_assoc] at done
    have same := frameLength_append extra readable.inside
    have longer : (held ++ more ++ extra).length = (held ++ more).length + extra.length :=
      List.length_append
    obtain ⟨_, wedges | short⟩ := wedges_of_idle smallEndian (by omega) done silent
    · unfold Wedges at wedges
      rw [same] at wedges
      exact wedges
    · omega

theorem stuck_of_doomed (smallEndian : Bool) {held : List UInt8} (doomed : cfg.Doomed held) :
    cfg.Stuck smallEndian held := by
  intro chunks
  induction chunks generalizing held with
  | nil => exact ⟨[], by rw [receive, List.flatten_nil, List.append_nil], rfl⟩
  | cons chunk rest ih =>
      obtain ⟨outcomes, call, silent⟩ := decode_wedged smallEndian (doomed chunk)
      obtain ⟨log, done, later⟩ := ih (doomed.append chunk)
      refine ⟨outcomes ++ log, ?_, ?_⟩
      · rw [receive, call]
        dsimp only
        rw [done, List.flatten_cons, List.append_assoc]
        rfl
      · rw [firedFrames, List.filterMap_append]
        change firedFrames outcomes ++ firedFrames log = []
        rw [silent, later]
        rfl

/-- Later calls are stuck exactly when every header that can come up wedges. -/
theorem stuck_iff (smallEndian : Bool) (held : List UInt8) :
    cfg.Stuck smallEndian held ↔ cfg.Doomed held :=
  ⟨doomed_of_stuck, stuck_of_doomed smallEndian⟩

/-- The turn that rejects a frame, whatever came before it. -/
theorem rejected_turn (smallEndian : Bool) {head : List UInt8} (rejects : cfg.Rejects head) :
    (1 ≤ (cfg.settle head).1.bytes ∧ ¬ cfg.Stuck smallEndian (cfg.settle head).2) ↔
      (¬ cfg.Wedges head ∧ ¬ cfg.Doomed (head.drop (cfg.skipLength head))) := by
  have rejected := (rejects_iff rejects.1).mpr rejects
  have ends := cfg.settles head
  rw [stuck_iff]
  generalize cfg.settle head = result at ends rejected
  cases ends with
  | undersized small =>
      have free : ¬ cfg.Wedges head := fun wedges => Nat.not_lt_of_le wedges.1 small
      rw [skipLength, if_pos small]
      refine and_congr_left fun _ => iff_of_true ?_ free
      exact Nat.lt_of_le_of_lt (Nat.zero_le _) small
  | oversized large excess =>
      refine iff_of_false ?_ fun both => both.1 ⟨large, .inl excess⟩
      rintro ⟨impossible, _⟩
      cases impossible
  | frameIncomplete => cases rejected
  | stripTooLong large allowed complete strips =>
      rw [skipLength, if_neg (Nat.not_lt_of_le large)]
      refine and_congr_left fun _ => ?_
      constructor
      · rintro bytes ⟨_, excess | ⟨none, _⟩⟩
        · exact Nat.not_lt_of_le allowed excess
        · exact absurd none (Nat.ne_of_gt bytes)
      · intro free
        apply Nat.pos_of_ne_zero
        intro none
        exact free ⟨large, .inr ⟨none, Nat.lt_of_le_of_lt (Nat.zero_le _) strips⟩⟩
  | frame => cases rejected

/-- A call ends well at a rejected frame, and does not leave the connection
wedged, exactly when the rejected frame is not one that stays in the buffer
and the bytes behind it can still become a header that is not. -/
theorem rejectsWell_iff (cfg : LengthFieldBaseFrameDecoder) (smallEndian : Bool)
    (buf : List UInt8) :
    cfg.RejectsWell smallEndian buf ↔
      ∀ head, cfg.Front buf head → cfg.Rejects head →
        ¬ cfg.Wedges head ∧ ¬ cfg.Doomed (head.drop (cfg.skipLength head)) := by
  constructor
  · intro well head front rejects
    obtain ⟨before, done⟩ :=
      decodeLoop_front smallEndian front rejects.1 buf.length (Nat.le_refl _)
    have sound := well before _ _ done ((rejects_iff rejects.1).mpr rejects)
    exact (rejected_turn smallEndian rejects).mp sound
  · intro sound before outcome rest done rejected
    obtain ⟨head, front, readable, settled⟩ := front_of_decodeLoop smallEndian done rejected
    have rejects : cfg.Rejects head := by
      rw [← rejects_iff readable, settled]
      exact rejected
    have well := (rejected_turn smallEndian rejects).mpr (sound head front rejects)
    rw [settled] at well
    exact well

/-- A frame above the maximum stays in the buffer for good. -/
theorem oversized_not_rejectsWell :
    ¬ ∀ (cfg : LengthFieldBaseFrameDecoder) (smallEndian : Bool) (buf : List UInt8),
      cfg.lengthFieldEndOffset.toNat < buf.length → cfg.RejectsWell smallEndian buf := by
  intro all
  have call : byteLength.decode true [100, 0] = some ([] ++ [.oversized], .ok [100, 0]) := by
    rfl
  obtain ⟨consumed, _⟩ := all byteLength true [100, 0] (by decide) [] .oversized _ call rfl
  cases consumed

end LengthFieldBaseFrameDecoder

end FysobEngine.Handler.LengthField
