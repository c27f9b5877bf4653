import FysobEngine.Handler.LengthFieldFraming
import FysobEngine.Net.SessionReading

/-!
# Reading and framing together

A session reads on while its buffer holds fewer bytes than the mask, and the
length-field decoder retrieves a frame once it is whole. So a frame has to fit
below the mask.
-/

namespace FysobEngine.Net

open Foundation.Runs Handler.LengthField

/-- The length of a call of `retrieve`. -/
def HandlerCall.retrieved : HandlerCall → Option Nat
  | .retrieve len => some len
  | .write _ | .postWrite _ | .close => none

namespace Session

/-- The bytes that a read completion brings. -/
def receivedBytes : Action → List UInt8
  | .readDone (.ok data) => data
  | _ => []

section Definitions

variable {β : Type} [QueueBuffer β]

/-- The decoder is the first handler: a read task retrieves what `decode` does,
whatever else the handlers behind it do, and nobody else retrieves. -/
def DecodesFirst (cfg : LengthFieldBaseFrameDecoder) (smallEndian : Bool) (s : Session β) :
    Action → Prop
  | .start connect => connect.filterMap HandlerCall.retrieved = []
  | .runWork decode => s.workQueue.head? = some .fireRead →
      ∃ outcomes rest,
        cfg.decode smallEndian (QueueBuffer.content s.readBuffer) = some (outcomes, .ok rest) ∧
          decode.filterMap HandlerCall.retrieved = outcomes.flatMap Outcome.retrieves
  | _ => True

/-- An open session has nothing under way, and its read buffer holds a part of a
frame. The rest of the frame is never read. -/
structure Starved (frames : List (List UInt8)) (s : Session β) : Prop where
  started : s.started = true
  closeFlag : s.closeFlag = false
  reads : s.reads = 0
  ioQueue : s.ioQueue = []
  workQueue : s.workQueue = []
  part : ∃ frame ∈ frames, QueueBuffer.content s.readBuffer <+: frame ∧
    QueueBuffer.content s.readBuffer ≠ frame

end Definitions

/-! ## A frame that is longer than the mask -/

theorem plain_retrieve {settings : Settings} {s : Session PlainQueue} {len : Nat}
    (enough : len + s.readBuffer.highWaterMask ≤ s.readBuffer.unread.length) :
    s.perform settings (.retrieve len) = some { s with
      readBuffer := { s.readBuffer with unread := s.readBuffer.unread.drop len } } := by
  have inside : len ≤ s.readBuffer.unread.length := Nat.le_trans (Nat.le_add_right _ _) enough
  have above : ¬ (s.readBuffer.armed &&
      decide ((s.readBuffer.unread.drop len).length < s.readBuffer.highWaterMask)) = true := by
    rw [Bool.and_eq_true, decide_eq_true_eq, List.length_drop]
    omega
  change (PlainQueue.retrieve s.readBuffer len).bind _ = _
  rw [PlainQueue.retrieve, if_pos inside, if_neg above]
  rfl

/-- Retrieves that leave as many bytes as the mask invoke no handler. -/
theorem performAll_retrieves (settings : Settings) (lens : List Nat) {s : Session PlainQueue}
    (enough : lens.sum + s.readBuffer.highWaterMask ≤ s.readBuffer.unread.length) :
    performAll settings (lens.map HandlerCall.retrieve) s = some { s with
      readBuffer := { s.readBuffer with unread := s.readBuffer.unread.drop lens.sum } } := by
  induction lens generalizing s with
  | nil => rfl
  | cons len rest ih =>
      rw [List.sum_cons] at enough
      have first : len + s.readBuffer.highWaterMask ≤ s.readBuffer.unread.length :=
        Nat.le_trans (by omega) enough
      rw [List.map_cons, performAll, plain_retrieve first, Option.bind_some, ih]
      · rw [List.drop_drop, List.sum_cons]
      · change rest.sum + s.readBuffer.highWaterMask ≤ (s.readBuffer.unread.drop len).length
        rw [List.length_drop]
        omega

/-- A read completion that finds as many bytes as the mask stores a handler. -/
theorem handleRead_stores {settings : Settings} {s : Session PlainQueue} {data : List UInt8}
    (opened : s.closeFlag = false) (masked : 0 < settings.readHighWaterMask)
    (full : settings.readHighWaterMask ≤ (s.readBuffer.unread ++ data).length) :
    s.handleRead settings (.ok data) = some (postWork { s.readEnded with
      readBuffer := ⟨s.readBuffer.unread ++ data, settings.readHighWaterMask, true⟩
      workReadCount := s.workReadCount + 1 } .fireRead) := by
  have waits : closeAfterLastRead settings { s.readEnded with
      readBuffer := { s.readBuffer with unread := s.readBuffer.unread ++ data } } =
      ({ s.readEnded with
        readBuffer := { s.readBuffer with unread := s.readBuffer.unread ++ data } }, false) :=
    closeAfterLastRead_waits (by simp [readEnded, opened])
  have stops : ¬ ReadsOn settings { s.readBuffer with unread := s.readBuffer.unread ++ data } := by
    rintro (none | below)
    · exact absurd masked (Nat.not_lt.mpr (Nat.le_of_eq none))
    · exact absurd below (Nat.not_lt.mpr full)
  have received : SessionBuffer.receive s.readBuffer data =
      some { s.readBuffer with unread := s.readBuffer.unread ++ data } := rfl
  rw [ReadsOn] at stops
  rw [readEnded] at waits
  simp only [handleRead, received, Option.bind_eq_bind, Option.bind_some, waits]
  rw [if_neg Bool.false_ne_true, if_neg stops]
  rfl

/-- A session whose first read has brought more bytes than its mask. -/
def filled (settings : Settings) (chunk : List UInt8) : Session PlainQueue :=
  { (create : Session PlainQueue) with
    readBuffer := ⟨chunk, settings.readHighWaterMask, true⟩
    workReadCount := 1
    handleCount := 1
    started := true
    workQueue := [.fireRead]
    trace := [.fireConnect, .asyncReadSome] }

theorem step_filled (settings : Settings) {chunk : List UInt8}
    (masked : 0 < settings.readHighWaterMask)
    (full : settings.readHighWaterMask ≤ chunk.length) :
    ∃ opened : Session PlainQueue, create.Steps settings (.start []) opened ∧
      opened.Steps settings (.readDone (.ok chunk)) (filled settings chunk) := by
  refine ⟨_, rfl, ?_⟩
  exact handleRead_stores (s := { (create : Session PlainQueue) with
    reading := true, started := true, trace := [.fireConnect, .asyncReadSome] }) rfl masked full

/-- A read task that retrieves no more than the bytes above the mask. -/
theorem step_retrieves (settings : Settings) {chunk : List UInt8} (lens : List Nat)
    (enough : lens.sum + settings.readHighWaterMask ≤ chunk.length) :
    (filled settings chunk).Steps settings (.runWork (lens.map .retrieve))
      { filled settings (chunk.drop lens.sum) with
        workReadCount := 0
        handleCount := 0
        workQueue := []
        trace := [.fireConnect, .asyncReadSome, .fireRead] } := by
  have calls := performAll_retrieves settings lens
    (s := note { filled settings chunk with workQueue := [] } .fireRead) enough
  change (performAll settings (lens.map .retrieve)
    (note { filled settings chunk with workQueue := [] } .fireRead)).bind _ = _
  rw [calls]
  rfl

/-- A frame that is longer than the mask can starve the session. -/
theorem starved_of_long_frame {settings : Settings} {cfg : LengthFieldBaseFrameDecoder}
    (smallEndian : Bool) (valid : cfg.Valid) {frames : List (List UInt8)}
    (formed : ∀ frame ∈ frames, cfg.WellFormed frame) (masked : 0 < settings.readHighWaterMask)
    {frame : List UInt8} (member : frame ∈ frames)
    (long : settings.readHighWaterMask < frame.length) :
    ∃ (actions : List Action) (s : Session PlainQueue),
      Reached (DecodesFirst cfg smallEndian) (Steps settings) create actions s ∧
        actions.flatMap receivedBytes <+: frames.flatten ∧ s.Starved frames := by
  obtain ⟨before, behind, rfl⟩ := List.append_of_mem member
  have part : (frame.take settings.readHighWaterMask).length = settings.readHighWaterMask :=
    List.length_take_of_le (Nat.le_of_lt long)
  have length : (before.flatten ++ frame.take settings.readHighWaterMask).length =
      before.flatten.length + settings.readHighWaterMask := by
    rw [List.length_append, part]
  obtain ⟨outcomes, decoded, sum⟩ := cfg.decode_unfinished valid smallEndian
    (fun other found => formed other (List.mem_append_left _ found)) (formed frame member)
    masked long
  have full : settings.readHighWaterMask ≤
      (before.flatten ++ frame.take settings.readHighWaterMask).length := by
    rw [length]
    exact Nat.le_add_left _ _
  have enough : (outcomes.flatMap Outcome.retrieves).sum + settings.readHighWaterMask ≤
      (before.flatten ++ frame.take settings.readHighWaterMask).length := by
    rw [sum, length]
  obtain ⟨opened, start, read⟩ := step_filled settings masked full
  have retrieves := step_retrieves settings (outcomes.flatMap Outcome.retrieves) enough
  rw [sum, List.drop_left] at retrieves
  refine ⟨[.start [], .readDone (.ok _), .runWork _], _,
    .cons rfl start (.cons trivial read (.cons ?_ retrieves (.nil _))), ?_, ?_⟩
  · refine fun _ => ⟨outcomes, _, decoded, ?_⟩
    rw [List.filterMap_map]
    exact List.filterMap_some
  · refine ⟨frame.drop settings.readHighWaterMask ++ behind.flatten, ?_⟩
    simp only [receivedBytes, List.flatMap_cons, List.flatMap_nil, List.nil_append,
      List.append_nil, List.flatten_append, List.flatten_cons, List.append_assoc]
    rw [← List.append_assoc (frame.take _), List.take_append_drop]
  · refine ⟨rfl, rfl, rfl, rfl, rfl, frame, member, List.take_prefix _ _, ?_⟩
    intro same
    have lengths := congrArg List.length same
    change (frame.take settings.readHighWaterMask).length = frame.length at lengths
    rw [part] at lengths
    exact absurd long (Nat.not_lt.mpr (Nat.le_of_eq lengths.symm))

/-! ## The result -/

theorem not_starved {β : Type} [QueueBuffer β] {settings : Settings} {actions : List Action}
    {s : Session β} {frames : List (List UInt8)}
    (run : Reached (fun _ _ => True) (Steps settings) create actions s)
    (short : ∀ frame ∈ frames, frame.length ≤ settings.readHighWaterMask) :
    ¬ s.Starved frames := by
  rintro ⟨started, opened, reads, _, _, frame, member, part, proper⟩
  have acc : Accounted settings 0 s :=
    run.invariant_all (fun _ _ _ acc _ step => step_accounted acc step) create_accounted
  have continues := reached_continues run
  have idle : s.reading = false := by
    have count := acc.reads
    rw [reads] at count
    cases reading : s.reading with
    | false => rfl
    | true => simp [reading] at count
  rcases continues.goes started opened with reading | armed
  · rw [idle] at reading
    cases reading
  · have full := (continues.waits armed).2
    rw [QueueBuffer.readableBytes_eq] at full
    have whole : frame.length ≤ (QueueBuffer.content s.readBuffer).length :=
      Nat.le_trans (short frame member) full
    exact proper (part.eq_of_length_le whole)

/-- Whatever the buffer and however a stream of frames is cut, an open session
never waits for the rest of a frame that it does not read, if and only if no frame
is longer than the mask. -/
theorem never_starved_iff {settings : Settings} {cfg : LengthFieldBaseFrameDecoder}
    (smallEndian : Bool) (valid : cfg.Valid) {frames : List (List UInt8)}
    (formed : ∀ frame ∈ frames, cfg.WellFormed frame)
    (masked : 0 < settings.readHighWaterMask) :
    (∀ (β : Type) [QueueBuffer β] (actions : List Action) (s : Session β),
      Reached (DecodesFirst cfg smallEndian) (Steps settings) create actions s →
      actions.flatMap receivedBytes <+: frames.flatten → ¬ s.Starved frames) ↔
      ∀ frame ∈ frames, frame.length ≤ settings.readHighWaterMask := by
  constructor
  · intro never frame member
    rcases Nat.lt_or_ge settings.readHighWaterMask frame.length with long | fits
    · obtain ⟨actions, s, run, stream, starved⟩ :=
        starved_of_long_frame smallEndian valid formed masked member long
      exact absurd starved (never PlainQueue actions s run stream)
    · exact fits
  · intro short β _ actions s run _
    exact not_starved (run.mono fun _ _ _ => trivial) short

theorem never_starved_bytes :
    (∀ (β : Type) [QueueBuffer β] (actions : List Action) (s : Session β),
      Reached (DecodesFirst LengthFieldBaseFrameDecoder.byteLength true)
        (Steps ⟨2, 0, false, true⟩) create actions s →
      actions.flatMap receivedBytes <+: [[1, 65]].flatten → ¬ s.Starved [[1, 65]]) ↔
      ∀ frame ∈ [([1, 65] : List UInt8)], frame.length ≤ 2 :=
  never_starved_iff true LengthFieldBaseFrameDecoder.byteLength_valid
    (fun frame member => by
      rw [List.mem_singleton.mp member]
      exact ⟨by decide, by decide, by decide, by decide⟩)
    (by decide)

/-- The first byte of a two-byte frame fills the buffer to a mask of one, and the
second byte is never read. -/
theorem maskBelowFrame_starves :
    ¬ ∀ (settings : Settings) (cfg : LengthFieldBaseFrameDecoder) (smallEndian : Bool)
      (frames : List (List UInt8)), 0 < settings.readHighWaterMask → cfg.Valid →
      (∀ frame ∈ frames, cfg.WellFormed frame) →
      ∀ (actions : List Action) (s : Session AsioBuffer.LaidOut),
        Reached (DecodesFirst cfg smallEndian) (Steps settings) create actions s →
        actions.flatMap receivedBytes <+: frames.flatten → ¬ s.Starved frames := by
  intro all
  have runs : ((create : Session AsioBuffer.LaidOut).step ⟨1, 0, false, true⟩ (.start [])).any
      (fun opened => (opened.step ⟨1, 0, false, true⟩ (.readDone (.ok [1]))).any
        fun filled => QueueBuffer.content filled.readBuffer = [1] ∧
          (filled.step ⟨1, 0, false, true⟩ (.runWork [])).any fun s =>
            s.started = true ∧ s.closeFlag = false ∧ s.reads = 0 ∧ s.ioQueue = [] ∧
              s.workQueue = [] ∧ QueueBuffer.content s.readBuffer = [1]) = true := by
    decide +kernel
  obtain ⟨opened, start, rest⟩ := (Option.any_eq_true _ _).mp runs
  obtain ⟨filled, read, rest⟩ := (Option.any_eq_true _ _).mp rest
  obtain ⟨held, rest⟩ := of_decide_eq_true rest
  obtain ⟨s, task, facts⟩ := (Option.any_eq_true _ _).mp rest
  obtain ⟨started, flag, reads, ioQueue, workQueue, content⟩ := of_decide_eq_true facts
  have waits : LengthFieldBaseFrameDecoder.byteLength.decode true [1] =
      some ([.headerIncomplete], .ok [1]) := by
    decide +kernel
  refine all ⟨1, 0, false, true⟩ LengthFieldBaseFrameDecoder.byteLength true [[1, 65]] (by decide)
    LengthFieldBaseFrameDecoder.byteLength_valid ?_ [.start [], .readDone (.ok [1]), .runWork []]
    s (.cons rfl start (.cons trivial read (.cons ?_ task (.nil s)))) ?_ ?_
  · intro frame member
    rw [List.mem_singleton.mp member]
    exact ⟨by decide, by decide, by decide, by decide⟩
  · exact fun _ => ⟨[.headerIncomplete], [1], held ▸ waits, rfl⟩
  · exact ⟨[65], rfl⟩
  · refine ⟨started, flag, reads, ioQueue, workQueue, [1, 65], List.mem_singleton.mpr rfl, ?_, ?_⟩
    · rw [content]
      exact ⟨[65], rfl⟩
    · rw [content]
      decide

end Session

end FysobEngine.Net
