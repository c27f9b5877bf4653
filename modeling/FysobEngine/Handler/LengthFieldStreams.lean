import FysobEngine.Handler.LengthFieldArithmetic

/-!
# Streams of frames

What the length-field decoder makes of a part of a stream of frames, and the
frames that a peer makes with `append` and `append_endian`. The peer may run on a
host of another byte order.
-/

namespace FysobEngine.Handler.LengthField

open Foundation.Framing Net Net.Endian

namespace LengthFieldBaseFrameDecoder

variable {cfg : LengthFieldBaseFrameDecoder}

/-- One more chunk arrives. -/
theorem receive_concat {smallEndian : Bool} {start held held' : List UInt8}
    {chunks : List (List UInt8)} {chunk : List UInt8} {outcomes outcomes' : List Outcome}
    (before : cfg.receive smallEndian start chunks = some (outcomes, held))
    (decoded : cfg.decode smallEndian (held ++ chunk) = some (outcomes', .ok held')) :
    cfg.receive smallEndian start (chunks ++ [chunk]) = some (outcomes ++ outcomes', held') := by
  induction chunks generalizing start outcomes with
  | nil =>
      cases before
      simp [receive, decoded]
  | cons first rest ih =>
      rw [receive] at before
      split at before
      · next ended last done =>
          obtain ⟨⟨later, _⟩, tail, same⟩ := Option.map_eq_some_iff.mp before
          cases same
          rw [List.cons_append, receive, done]
          dsimp only
          rw [ih tail, Option.map_some, List.append_assoc]
      · cases before

/-! ## A part of a stream of frames -/

/-- A frame that the decoder accepts, with a byte behind its header. -/
structure Carries (cfg : LengthFieldBaseFrameDecoder) (frame : List UInt8) : Prop extends
    cfg.WellFormed frame where
  body : cfg.lengthFieldEndOffset.toNat < frame.length

/-- A part of the stream asks for the first frames. -/
theorem drain_part (valid : cfg.Valid) {frames : List (List UInt8)}
    (formed : ∀ frame ∈ frames, cfg.WellFormed frame) {stream : List UInt8}
    (part : stream <+: frames.flatten) :
    ((decoder valid).drain stream).1 <+: frames.map cfg.emission := by
  obtain ⟨more, whole⟩ := part
  -- one more byte behind the frames is the part of a header
  have waits : (decoder valid).next [0] = none := next_short valid valid.endOffset_pos
  have drained := drain_frames valid formed (List.cons_ne_nil (0 : UInt8) [])
  rw [(decoder valid).drain_wait waits, List.append_nil] at drained
  have before := (decoder valid).drain_front stream (more ++ [0])
  rw [← List.append_assoc, whole, drained] at before
  exact before

/-- The part of the stream that is left over is shorter than one of the frames. -/
theorem drain_left (valid : cfg.Valid) {frames : List (List UInt8)}
    (carries : ∀ frame ∈ frames, cfg.Carries frame) {stream : List UInt8}
    (part : stream <+: frames.flatten) :
    ((decoder valid).drain stream).2 = [] ∨
      ∃ frame ∈ frames, ((decoder valid).drain stream).2.length < frame.length := by
  induction frames generalizing stream with
  | nil =>
      rw [List.flatten_nil, List.prefix_nil] at part
      rw [part, (decoder valid).drain_wait (next_empty valid)]
      exact .inl rfl
  | cons frame rest ih =>
      have first := carries frame List.mem_cons_self
      rw [List.flatten_cons] at part
      rcases List.prefix_or_prefix_of_prefix part (List.prefix_append frame rest.flatten) with
        short | ⟨behind, rfl⟩
      · by_cases whole : stream = frame
        · rw [whole, drain_last valid first.toWellFormed first.body]
          exact .inl rfl
        · have length : stream.length < frame.length :=
            Nat.lt_of_le_of_ne short.length_le fun same => whole (short.eq_of_length same)
          have waits := next_unfinished valid first.toWellFormed length
          rw [← List.prefix_iff_eq_take.mp short] at waits
          rw [(decoder valid).drain_wait waits]
          exact .inr ⟨frame, List.mem_cons_self, length⟩
      · have later := ih (fun other member => carries other (List.mem_cons_of_mem frame member))
          ((List.prefix_append_right_inj frame).mp part)
        have header : cfg.lengthFieldEndOffset.toNat < (frame ++ behind).length := by
          rw [List.length_append]
          exact Nat.lt_of_lt_of_le first.body (Nat.le_add_right _ _)
        have found : (decoder valid).next (frame ++ behind) = some (cfg.emission frame) :=
          first.action_eq valid behind header
        have size : (decoder valid).size (cfg.emission frame) = frame.length :=
          first.emission_bytes
        rw [(decoder valid).drain_act found, size, List.drop_left]
        exact later.imp_right fun ⟨other, member, shorter⟩ =>
          ⟨other, List.mem_cons_of_mem frame member, shorter⟩

/-- Frames never end a call, so that chunks are decoded as the stream is. -/
theorem feed_part (valid : cfg.Valid) {frames : List (List UInt8)}
    (formed : ∀ frame ∈ frames, cfg.WellFormed frame) {chunks : List (List UInt8)}
    (part : chunks.flatten <+: frames.flatten) :
    (decoder valid).feed [] chunks = (decoder valid).drain chunks.flatten := by
  refine (decoder valid).feed_eq_drain (next_empty valid) chunks fun outcome member => ?_
  obtain ⟨frame, _, rfl⟩ := List.mem_map.mp ((drain_part valid formed part).subset member)
  rfl

/-- The frames fired while a part of the stream has arrived. -/
theorem receive_part (valid : cfg.Valid) {smallEndian : Bool} {frames : List (List UInt8)}
    (formed : ∀ frame ∈ frames, cfg.WellFormed frame) {chunks : List (List UInt8)}
    {log : List Outcome} {held : List UInt8}
    (fed : cfg.receive smallEndian [] chunks = some (log, held))
    (part : chunks.flatten <+: frames.flatten) :
    firedFrames log = firedFrames ((decoder valid).drain chunks.flatten).1 ∧
      held = ((decoder valid).drain chunks.flatten).2 ∧
      firedFrames log <+: frames.map fun frame => frame.drop cfg.initialBytesToStrip.toNat := by
  obtain ⟨log', done, same⟩ := receive_feed valid smallEndian [] chunks
  rw [fed, Option.some.injEq, Prod.mk.injEq] at done
  obtain ⟨rfl, rfl⟩ := done
  rw [feed_part valid formed part] at same ⊢
  have fires : firedFrames log = firedFrames ((decoder valid).drain chunks.flatten).1 := by
    rw [← firedFrames_performed, same]
  refine ⟨fires, rfl, ?_⟩
  rw [fires, ← firedFrames_emissions]
  exact (drain_part valid formed part).filterMap Outcome.fired

/-- The whole stream asks for all frames and leaves nothing. -/
theorem drain_whole (valid : cfg.Valid) {frames : List (List UInt8)}
    (carries : ∀ frame ∈ frames, cfg.Carries frame) :
    (decoder valid).drain frames.flatten = (frames.map cfg.emission, []) := by
  rcases List.eq_nil_or_concat frames with rfl | ⟨before, last, rfl⟩
  · exact (decoder valid).drain_wait (next_empty valid)
  · rw [List.concat_eq_append] at *
    have final := carries last (List.mem_append_right before List.mem_cons_self)
    have formed : ∀ frame ∈ before, cfg.WellFormed frame := fun frame member =>
      (carries frame (List.mem_append_left [last] member)).toWellFormed
    rw [List.flatten_append, List.flatten_singleton,
      drain_frames valid formed (final.ne_nil valid),
      drain_last valid final.toWellFormed final.body, List.map_append]
    rfl

/-- All frames are fired once all of the stream has arrived. -/
theorem receive_whole (valid : cfg.Valid) {smallEndian : Bool} {frames : List (List UInt8)}
    (carries : ∀ frame ∈ frames, cfg.Carries frame) {chunks : List (List UInt8)}
    {log : List Outcome} {held : List UInt8}
    (fed : cfg.receive smallEndian [] chunks = some (log, held))
    (whole : chunks.flatten = frames.flatten) :
    firedFrames log = frames.map fun frame => frame.drop cfg.initialBytesToStrip.toNat := by
  have formed (frame : List UInt8) (member : frame ∈ frames) : cfg.WellFormed frame :=
    (carries frame member).toWellFormed
  obtain ⟨fires, _, _⟩ := receive_part valid formed fed (whole ▸ List.prefix_rfl)
  rw [fires, whole, ← firedFrames_emissions, drain_whole valid carries]

/-! ## Frames as a peer appends them -/

end LengthFieldBaseFrameDecoder

/-- The bytes of one frame in front of its length field and behind it. -/
structure Message where
  front : List UInt8
  behind : List UInt8
  deriving DecidableEq, Repr

namespace LengthFieldBaseFrameDecoder

variable (cfg : LengthFieldBaseFrameDecoder)

/-- The value of the length field: the length of what is behind it, less the
adjustment that the decoder adds. -/
def announced (m : Message) : Nat :=
  (m.behind.length - cfg.lengthAdjustment.toInt).toNat

/-- The frame of a message on the wire. -/
def frame (m : Message) : List UInt8 :=
  m.front ++ wireBytes cfg.bigEndian cfg.lengthFieldLength.toNat (cfg.announced m) ++ m.behind

/-- A host appends a message to its write buffer. -/
def appendMessage (smallEndian : Bool) (buf : List UInt8) (m : Message) : List UInt8 :=
  ByteQueue.append
    (ByteQueue.appendEndian smallEndian (ByteQueue.append buf m.front)
      cfg.lengthFieldLength.toNat (cfg.announced m) cfg.bigEndian) m.behind

/-- A message that the configuration has room for. -/
structure Fits (m : Message) : Prop where
  front : m.front.length = cfg.lengthFieldOffset.toNat
  adjusts : cfg.lengthAdjustment.toInt ≤ m.behind.length
  field : cfg.announced m < 256 ^ cfg.lengthFieldLength.toNat
  allowed : (cfg.frame m).length ≤ cfg.maxFrameLength.toNat
  strips : cfg.initialBytesToStrip.toNat ≤ (cfg.frame m).length
  body : m.behind ≠ []

variable {cfg}

theorem frame_length (m : Message) :
    (cfg.frame m).length = m.front.length + cfg.lengthFieldLength.toNat + m.behind.length := by
  rw [frame, List.length_append, List.length_append, wireBytes_length]

/-- The host that appends does not matter. -/
theorem appendMessage_eq (smallEndian : Bool) (buf : List UInt8) (m : Message) :
    cfg.appendMessage smallEndian buf m = buf ++ cfg.frame m := by
  rw [appendMessage, ByteQueue.appendEndian_eq, ByteQueue.append, ByteQueue.append, frame]
  simp only [List.append_assoc]

theorem appendMessages_eq (smallEndian : Bool) (buf : List UInt8) (messages : List Message) :
    messages.foldl (cfg.appendMessage smallEndian) buf =
      buf ++ (messages.map cfg.frame).flatten := by
  induction messages generalizing buf with
  | nil => exact (List.append_nil buf).symm
  | cons m rest ih =>
      rw [List.foldl_cons, ih, appendMessage_eq, List.map_cons, List.flatten_cons,
        List.append_assoc]

/-- The decoder accepts the frame of every message that fits. -/
theorem Fits.carries (valid : cfg.Valid) {m : Message} (fits : cfg.Fits m) :
    cfg.Carries (cfg.frame m) := by
  have length : (cfg.frame m).length =
      m.front.length + cfg.lengthFieldLength.toNat + m.behind.length := frame_length m
  have adjusts := fits.adjusts
  have field : cfg.fieldValue (cfg.frame m) = cfg.announced m := by
    rw [fieldValue, frame, ← fits.front, List.append_assoc, List.drop_left,
      List.take_left' (wireBytes_length _ _ _), wireValue_wireBytes cfg.bigEndian fits.field]
  have positive := List.length_pos_iff.mpr fits.body
  have front := fits.front
  refine ⟨⟨?_, by omega, fits.allowed, fits.strips⟩, ?_⟩
  · rw [field, announced, length, front]
    omega
  · rw [valid.endOffset]
    omega

/-- A frame stripped of its header is what was behind the length field. -/
theorem frame_drop {m : Message} (front : m.front.length = cfg.lengthFieldOffset.toNat)
    (header : cfg.initialBytesToStrip.toNat =
      cfg.lengthFieldOffset.toNat + cfg.lengthFieldLength.toNat) :
    (cfg.frame m).drop cfg.initialBytesToStrip.toNat = m.behind := by
  have length : (m.front ++ wireBytes cfg.bigEndian cfg.lengthFieldLength.toNat
      (cfg.announced m)).length = cfg.initialBytesToStrip.toNat := by
    rw [List.length_append, wireBytes_length, front, header]
  rw [frame, List.drop_left' length]

/-- What a peer appends on any host comes out of the decoder on any host, however
the stream is cut: the same messages, in order, with nothing left over. -/
theorem messages_round_trip (valid : cfg.Valid) (writer reader : Bool)
    {messages : List Message} (fit : ∀ m ∈ messages, cfg.Fits m) {chunks : List (List UInt8)}
    (cut : chunks.flatten = messages.foldl (cfg.appendMessage writer) []) :
    ∃ log, cfg.receive reader [] chunks = some (log, []) ∧
      firedFrames log =
        messages.map (fun m => (cfg.frame m).drop cfg.initialBytesToStrip.toNat) ∧
      (cfg.initialBytesToStrip.toNat =
          cfg.lengthFieldOffset.toNat + cfg.lengthFieldLength.toNat →
        firedFrames log = messages.map Message.behind) := by
  rw [appendMessages_eq, List.nil_append] at cut
  have carries : ∀ other ∈ messages.map cfg.frame, cfg.Carries other := by
    intro other member
    obtain ⟨m, listed, rfl⟩ := List.mem_map.mp member
    exact (fit m listed).carries valid
  obtain ⟨log, held, done, _, _⟩ := receive_prefix valid reader chunks
  have fires := receive_whole valid carries done cut
  rw [List.map_map] at fires
  obtain ⟨_, left, _⟩ := receive_part valid
    (fun other member => (carries other member).toWellFormed) done (cut ▸ List.prefix_rfl)
  have nothing : held = [] := by
    rw [left, cut, drain_whole valid carries]
  refine ⟨log, nothing ▸ done, fires, fun header => ?_⟩
  rw [fires]
  exact List.map_congr_left fun m member => frame_drop (fit m member).front header

/-- The decoder that `main` adds to every session. -/
def mainDecoder : LengthFieldBaseFrameDecoder where
  maxFrameLength := 1024
  lengthFieldOffset := 0
  lengthFieldLength := 2
  lengthAdjustment := 0
  initialBytesToStrip := 2
  bigEndian := true

theorem mainDecoder_valid : mainDecoder.Valid := ⟨by decide, by decide, by decide⟩

theorem mainDecoder_fits : ∀ m ∈ [Message.mk [] [72, 105], ⟨[], [33]⟩], mainDecoder.Fits m := by
  intro m listed
  rw [List.mem_cons, List.mem_singleton] at listed
  rcases listed with rfl | rfl
  · exact ⟨by decide, by decide, by decide, by decide, by decide, by decide⟩
  · exact ⟨by decide, by decide, by decide, by decide, by decide, by decide⟩

/-- A big-endian host appends two bodies, and a small-endian one gets them in pieces. -/
theorem mainDecoder_round_trip :
    ∃ log, mainDecoder.receive true [] [[0], [2, 72], [105, 0, 1], [33]] = some (log, []) ∧
      firedFrames log = [⟨[], [72, 105]⟩, ⟨[], [33]⟩].map
        (fun m => (mainDecoder.frame m).drop mainDecoder.initialBytesToStrip.toNat) ∧
      (mainDecoder.initialBytesToStrip.toNat =
          mainDecoder.lengthFieldOffset.toNat + mainDecoder.lengthFieldLength.toNat →
        firedFrames log = [⟨[], [72, 105]⟩, ⟨[], [33]⟩].map Message.behind) :=
  messages_round_trip mainDecoder_valid false true
    mainDecoder_fits (by decide)

end LengthFieldBaseFrameDecoder

end FysobEngine.Handler.LengthField
