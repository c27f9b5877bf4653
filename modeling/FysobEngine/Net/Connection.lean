import FysobEngine.Foundation.Networks
import FysobEngine.Net.SessionDelivery
import FysobEngine.Net.SessionWrite

/-!
# Sessions joined by connections

The sessions of `server` and `client` at the ends of TCP connections. What the
completion of a write has handed to the socket arrives at the other end in
order, and each completion of a read brings some of it. The steps of all
sessions interleave in any order, and any operation may fail at any time.
-/

namespace FysobEngine.Net

open Foundation.Runs Foundation.Networks Handler.LengthField

variable {β : Type} [QueueBuffer β]

namespace Session

variable {settings : Settings}

/-- The bytes that an action hands to the socket. -/
def handedBytes (s : Session β) : Action → List UInt8
  | .writeDone operation (.ok length) => ((s.writes[operation]?).getD []).take length
  | _ => []

theorem write_sentBytes (s : Session β) : sentBytes s.write.trace = sentBytes s.trace := by
  unfold write
  split
  · simp [note, sentBytes]
  · rfl

theorem handleWrite_sentBytes {s s' : Session β} {result : Except ErrorCode Nat}
    (done : s.handleWrite settings result = some s') :
    sentBytes s'.trace = sentBytes s.trace := by
  rcases handleWrite_cases done with
    ⟨_, level, _, rfl⟩ | ⟨_, _, _, _, _, ⟨_, rfl⟩ | ⟨_, rfl⟩⟩
  · rw [(closeAfterLastWrite_ending _).sentBytes]
    simp [writeEnded, note, sentBytes]
  · rw [write_sentBytes]
    rfl
  · rw [(closeAfterLastWrite_ending _).sentBytes]
    rfl

/-- The events tell what the completions of writes have handed over. -/
theorem step_handed {s s' : Session β} {action : Action} (acc : Accounted settings 0 s)
    (step : s.Steps settings action s') :
    sentBytes s'.trace = sentBytes s.trace ++ s.handedBytes action := by
  cases action with
  | start connect =>
      obtain ⟨_, last, done, rfl⟩ := step.start
      simpa [handedBytes] using (start_adds done).sent
  | readDone result =>
      obtain ⟨reads, _, done⟩ := step.readDone
      simpa [handedBytes] using (handleRead_adds done).sent
  | writeDone operation result =>
      cases result with
      | error code =>
          obtain ⟨data, _, handled⟩ := step.writeDone_error
          simpa [handedBytes] using handleWrite_sentBytes handled
      | ok length =>
          obtain ⟨data, outstanding, _, handled⟩ := step.writeDone_ok
          rw [handleWrite_sentBytes handled, handedBytes, outstanding]
          simp [note, sentBytes]
  | runIo =>
      obtain ⟨task, rest, _, ⟨_, rfl⟩ | ⟨_, rfl⟩⟩ := step.runIo
      · simpa [handedBytes] using write_sentBytes { s with ioQueue := rest }
      · have ending : Ending { s with ioQueue := rest }
            (closeTask settings { s with ioQueue := rest }) := closeTask_ending _
        simpa [handedBytes] using ending.sentBytes
  | runWork decode =>
      obtain ⟨task, rest, queue, ⟨rfl, done⟩ | ⟨data, rfl, done⟩⟩ := step.runWork
      · simpa [handedBytes] using (fireRead_adds (acc.fireRead_taken queue) done).sent
      · simpa [handedBytes] using (append_adds done).sent
  | write data => simpa [handedBytes] using (append_adds step).sent
  | postWrite argument =>
      cases step
      simp [handedBytes, postWork]
  | close =>
      cases step
      simpa [handedBytes] using (close_adds s).sent

theorem reached_handed {actions : List Action} {s : Session β}
    (run : Reached (fun _ _ => True) (Steps settings) create actions s) :
    sentBytes s.trace = produced (step settings) handedBytes (create : Session β) actions := by
  have both : Accounted settings 0 s ∧
      sentBytes s.trace = produced (step settings) handedBytes (create : Session β) actions := by
    refine run.history_all (I := fun handed s =>
      Accounted settings 0 s ∧ sentBytes s.trace = handed) ?_ ⟨create_accounted, rfl⟩
    rintro handed s action s' ⟨acc, same⟩ step
    refine ⟨step_accounted acc step, ?_⟩
    rw [step_handed acc step, same]
  exact both.2

/-- Whether a read task of these calls takes what the decoder takes. -/
def decodes (cfg : LengthFieldBaseFrameDecoder) (smallEndian : Bool) (s : Session β)
    (decode : List HandlerCall) : Bool :=
  match cfg.decode smallEndian (QueueBuffer.content s.readBuffer) with
  | some (outcomes, .ok _) =>
      decide (decode.filterMap HandlerCall.retrieved = outcomes.flatMap Outcome.retrieves)
  | _ => false

theorem decodes_iff {cfg : LengthFieldBaseFrameDecoder} {smallEndian : Bool} {s : Session β}
    {decode : List HandlerCall} : s.decodes cfg smallEndian decode = true ↔
      ∃ outcomes rest,
        cfg.decode smallEndian (QueueBuffer.content s.readBuffer) = some (outcomes, .ok rest) ∧
          decode.filterMap HandlerCall.retrieved = outcomes.flatMap Outcome.retrieves := by
  unfold decodes
  constructor
  · intro takes
    split at takes
    · next outcomes rest decoded => exact ⟨outcomes, rest, decoded, of_decide_eq_true takes⟩
    · cases takes
  · rintro ⟨outcomes, rest, decoded, same⟩
    rw [decoded]
    exact decide_eq_true same

instance (cfg : LengthFieldBaseFrameDecoder) (smallEndian : Bool) (s : Session β)
    (action : Action) : Decidable (DecodesFirst cfg smallEndian s action) :=
  match action with
  | .start connect => inferInstanceAs (Decidable (connect.filterMap HandlerCall.retrieved = []))
  | .runWork decode =>
      decidable_of_iff (s.workQueue.head? = some .fireRead → s.decodes cfg smallEndian decode)
        (imp_congr_right fun _ => decodes_iff)
  | .readDone _ | .writeDone _ _ | .runIo | .write _ | .postWrite _ | .close => isTrue trivial

end Session

/-- The ends of the connections, and how the session at each end is set up. -/
structure Connections (ι : Type) where
  peer : ι → ι
  peer_peer (i : ι) : peer (peer i) = i
  settings : ι → Settings

namespace Connections

variable {ι : Type} [DecidableEq ι] (c : Connections ι)

/-- The sessions at the ends, with what is on the way between them. -/
abbrev State (ι β : Type) := Network ι (Session β) UInt8

def wiring (β : Type) [QueueBuffer β] : Wiring ι (Session β) Session.Action UInt8 where
  peer := c.peer
  peer_peer := c.peer_peer
  step := fun i => Session.step (c.settings i)
  takes := Session.receivedBytes
  puts := Session.handedBytes

/-- Connections that nothing has crossed yet. -/
def fresh : State ι β := ⟨fun _ => .create, fun _ => []⟩

/-- Everything appended to the write buffer of an end, in order. -/
def appended (events : List (ι × Session.Action)) (β : Type) [QueueBuffer β] (i : ι) :
    List UInt8 :=
  appendedBytes (produced (Session.step (c.settings i)) Session.writeCalls
    (Session.create : Session β) (actionsOf i events))

/-- Everything that the reads of an end have brought. -/
def received (events : List (ι × Session.Action)) (i : ι) : List UInt8 :=
  (actionsOf i events).flatMap Session.receivedBytes

variable {c} {valid : ι → Session β → Session.Action → Prop}
  {events : List (ι × Session.Action)} {n : State ι β}

/-- The run of one end. -/
theorem run_end (run : (c.wiring β).Runs valid fresh events n) (i : ι) :
    Reached (valid i) (Session.Steps (c.settings i)) Session.create (actionsOf i events)
      (n.nodes i) :=
  run.node i

theorem carried_eq (run : (c.wiring β).Runs valid fresh events n) (i : ι) :
    produced (Session.step (c.settings i)) Session.handedBytes (Session.create : Session β)
        (actionsOf i events) = received events (c.peer i) ++ n.wire (c.peer i) := by
  have carried := run.wire (c.peer i)
  change [] ++ produced (Session.step (c.settings (c.peer (c.peer i)))) Session.handedBytes
    (Session.create : Session β) (actionsOf (c.peer (c.peer i)) events) = _ at carried
  rw [c.peer_peer, List.nil_append] at carried
  exact carried

/-- Every byte appended at one end has been received at the other, is on the way
or is still to be sent, in the order of the appends. -/
theorem appended_eq (run : (c.wiring β).Runs valid fresh events n) (i : ι) :
    c.appended events β i =
      received events (c.peer i) ++ n.wire (c.peer i) ++ (n.nodes i).unsent := by
  have sender := (run_end run i).mono fun _ _ _ => trivial
  have written := (Session.reached_written sender).2.1
  rw [appended, written.sent, Session.reached_handed sender, carried_eq run]

/-- An open end without a write and without a write task has sent everything. -/
theorem unsent_empty (run : (c.wiring β).Runs valid fresh events n) {i : ι}
    (opened : (n.nodes i).closeFlag = false) (idle : (n.nodes i).writes = [])
    (none : .write ∉ (n.nodes i).ioQueue) : (n.nodes i).unsent = [] := by
  have sender := (run_end run i).mono fun _ _ _ => trivial
  obtain ⟨acc, written, woken⟩ := Session.reached_written sender
  have free : (n.nodes i).writing = false := by
    have count := acc.writes
    rw [idle] at count
    cases writing : (n.nodes i).writing with
    | false => rfl
    | true => simp [writing] at count
  refine List.length_eq_zero_iff.mp (Nat.eq_zero_of_not_pos fun waiting => ?_)
  rcases woken opened (written.pending ▸ waiting) with busy | queued
  · rw [free] at busy
    cases busy
  · exact none queued

/-- What holds between one end, as a sender, and its peer. -/
structure Intact (c : Connections ι) (events : List (ι × Session.Action)) (n : State ι β)
    (i : ι) : Prop where
  stream : c.appended events β i =
    received events (c.peer i) ++ n.wire (c.peer i) ++ (n.nodes i).unsent
  pending : (n.nodes i).pendingWriteLen = (n.nodes i).unsent.length
  flushed : (n.nodes i).closeFlag = false → (n.nodes i).writes = [] →
    .write ∉ (n.nodes i).ioQueue →
      c.appended events β i = received events (c.peer i) ++ n.wire (c.peer i)

/-- In every state of every run, no connection has lost, repeated or reordered a
byte, whatever the other connections do and whichever operations fail. -/
theorem intact (run : (c.wiring β).Runs valid fresh events n) (i : ι) : c.Intact events n i := by
  have sender := (run_end run i).mono fun _ _ _ => trivial
  refine ⟨appended_eq run i, (Session.reached_written sender).2.1.pending,
    fun opened idle none => ?_⟩
  rw [appended_eq run i, unsent_empty run opened idle none, List.append_nil]

/-- Two ends of one connection, with a mask of two bytes. -/
def pair : Connections Bool where
  peer := Bool.not
  peer_peer := Bool.not_not
  settings := fun _ => ⟨2, 0, false, true⟩

/-- One end appends a frame of two bytes, which cross the connection one at a time. -/
def twoPieces : List (Bool × Session.Action) :=
  [(false, .start []), (true, .start []), (false, .write [1, 65]), (false, .runIo),
    (false, .writeDone 0 (.ok 1)), (true, .readDone (.ok [1])), (false, .writeDone 0 (.ok 1)),
    (true, .runWork []), (true, .readDone (.ok [65])), (true, .runWork [.retrieve 0, .retrieve 2])]

theorem twoPieces_intact : ∃ n : State Bool AsioBuffer.LaidOut,
    last (pair.wiring AsioBuffer.LaidOut).next fresh twoPieces = some n ∧
      pair.Intact twoPieces n false := by
  have runs : (last (pair.wiring AsioBuffer.LaidOut).next fresh twoPieces).isSome = true := by
    decide +kernel
  obtain ⟨n, run⟩ := Option.isSome_iff_exists.mp runs
  have made : (pair.wiring AsioBuffer.LaidOut).Runs (fun _ _ _ => True) fresh twoPieces n :=
    reached_last run
  exact ⟨n, run, intact made false⟩

/-! ## Frames across a connection -/

section Frames

variable (c)

/-- The frames that the decoder of an end has fired at the next handler. -/
def delivered (cfg : LengthFieldBaseFrameDecoder) (smallEndian : Bool)
    (events : List (ι × Session.Action)) (β : Type) [QueueBuffer β] (i : ι) :
    List (List UInt8) :=
  produced (Session.step (c.settings i)) (Session.decodedFrames cfg smallEndian)
    (Session.create : Session β) (actionsOf i events)

/-- Nothing can happen between an end and its peer until somebody appends again. -/
structure Rests (n : State ι β) (i : ι) : Prop where
  writes : (n.nodes i).writes = []
  ioQueue : .write ∉ (n.nodes i).ioQueue
  workQueue : .fireRead ∉ (n.nodes (c.peer i)).workQueue
  /-- What is on the way waits for a read that is not outstanding. -/
  wire : n.wire (c.peer i) = [] ∨ (n.nodes (c.peer i)).reads = 0

/-- Both ends are open, and the receiving one has been started. -/
structure Opened (n : State ι β) (i : ι) : Prop where
  sender : (n.nodes i).closeFlag = false
  receiver : (n.nodes (c.peer i)).closeFlag = false
  started : (n.nodes (c.peer i)).started = true

variable {c} {cfg : LengthFieldBaseFrameDecoder} {smallEndian : Bool} {i : ι}

/-- What the receiving end has decoded, as far as it has received. -/
theorem delivered_feeding (run : (c.wiring β).Runs valid fresh events n) (formedBy : cfg.Valid)
    (decodes : ∀ s a, valid (c.peer i) s a → Session.DecodesFirst cfg smallEndian s a) :
    Session.Feeding cfg smallEndian (received events (c.peer i))
      (c.delivered cfg smallEndian events β (c.peer i)) (n.nodes (c.peer i)) := by
  have receiver := (run_end run (c.peer i)).mono decodes
  exact Session.reached_feeding formedBy receiver (Session.create_feeding cfg smallEndian)

theorem received_part (run : (c.wiring β).Runs valid fresh events n)
    {frames : List (List UInt8)} (sends : c.appended events β i <+: frames.flatten) :
    received events (c.peer i) <+: frames.flatten := by
  refine List.IsPrefix.trans ?_ sends
  rw [appended_eq run i, List.append_assoc]
  exact List.prefix_append _ _

/-- The frames arrive in order and each at most once, however the connection cuts
and delays them and whatever fails. -/
theorem frames_in_order (run : (c.wiring β).Runs valid fresh events n) (formedBy : cfg.Valid)
    (decodes : ∀ s a, valid (c.peer i) s a → Session.DecodesFirst cfg smallEndian s a)
    {frames : List (List UInt8)} (formed : ∀ frame ∈ frames, cfg.WellFormed frame)
    (sends : c.appended events β i <+: frames.flatten) :
    c.delivered cfg smallEndian events β (c.peer i) <+:
      frames.map fun frame => frame.drop cfg.initialBytesToStrip.toNat :=
  (delivered_feeding run formedBy decodes).in_order formedBy formed (received_part run sends)

/-- At rest the decoder has seen all that has been received. -/
theorem rests_decoded (run : (c.wiring β).Runs valid fresh events n) (formedBy : cfg.Valid)
    (decodes : ∀ s a, valid (c.peer i) s a → Session.DecodesFirst cfg smallEndian s a)
    (rests : c.Rests n i) (opened : c.Opened n i) :
    ∃ chunks outcomes held, cfg.receive smallEndian [] chunks = some (outcomes, held) ∧
      firedFrames outcomes = c.delivered cfg smallEndian events β (c.peer i) ∧
      QueueBuffer.content (n.nodes (c.peer i)).readBuffer = held ∧
      chunks.flatten = received events (c.peer i) := by
  obtain ⟨chunks, outcomes, held, unseen, fed, fired, content, stream, waits⟩ :=
    (delivered_feeding run formedBy decodes).fed
  have seen : unseen = [] := by
    refine Classical.byContradiction fun some => ?_
    rcases waits some with closing | queued
    · rw [opened.receiver] at closing
      cases closing
    · exact rests.workQueue queued
  rw [seen, List.append_nil] at content stream
  exact ⟨chunks, outcomes, held, fed, fired, content, stream⟩

/-- The frames of the run above. -/
theorem byteFrames_carry : ∀ frame ∈ [([1, 65] : List UInt8)],
    LengthFieldBaseFrameDecoder.byteLength.Carries frame := by
  intro frame member
  rw [List.mem_singleton.mp member]
  exact ⟨⟨by decide, by decide, by decide, by decide⟩, by decide⟩

theorem twoPieces_appended :
    pair.appended twoPieces AsioBuffer.LaidOut false = [[1, 65]].flatten := by
  decide +kernel

theorem twoPieces_runs {n : State Bool AsioBuffer.LaidOut}
    (run : last (pair.wiring AsioBuffer.LaidOut).next fresh twoPieces = some n) :
    (pair.wiring AsioBuffer.LaidOut).Runs
      (fun _ => Session.DecodesFirst LengthFieldBaseFrameDecoder.byteLength true) fresh twoPieces
      n := by
  have holds : holdsAlong (pair.wiring AsioBuffer.LaidOut).next
      (fun n event => Session.DecodesFirst LengthFieldBaseFrameDecoder.byteLength true
        (n.nodes event.1) event.2) fresh twoPieces = true := by
    decide +kernel
  exact reached_of_holdsAlong holds run

theorem twoPieces_in_order : ∃ n : State Bool AsioBuffer.LaidOut,
    last (pair.wiring AsioBuffer.LaidOut).next fresh twoPieces = some n ∧
      pair.delivered LengthFieldBaseFrameDecoder.byteLength true twoPieces AsioBuffer.LaidOut
        (pair.peer false) <+: [[1, 65]].map fun frame => frame.drop
          LengthFieldBaseFrameDecoder.byteLength.initialBytesToStrip.toNat := by
  have runs : (last (pair.wiring AsioBuffer.LaidOut).next fresh twoPieces).isSome = true := by
    decide +kernel
  obtain ⟨n, run⟩ := Option.isSome_iff_exists.mp runs
  exact ⟨n, run, frames_in_order (twoPieces_runs run) LengthFieldBaseFrameDecoder.byteLength_valid
    (fun _ _ decodes => decodes) (fun frame member => (byteFrames_carry frame member).toWellFormed)
    (twoPieces_appended ▸ List.prefix_rfl)⟩

/-- A connection at rest reads on, so that nothing is left on the way. -/
theorem wire_empty (run : (c.wiring β).Runs valid fresh events n) (formedBy : cfg.Valid)
    (decodes : ∀ s a, valid (c.peer i) s a → Session.DecodesFirst cfg smallEndian s a)
    {frames : List (List UInt8)} (carries : ∀ frame ∈ frames, cfg.Carries frame)
    (fits : (c.settings (c.peer i)).readHighWaterMask = 0 ∨
      ∀ frame ∈ frames, frame.length ≤ (c.settings (c.peer i)).readHighWaterMask)
    (sends : c.appended events β i <+: frames.flatten) (rests : c.Rests n i)
    (opened : c.Opened n i) : n.wire (c.peer i) = [] := by
  obtain ⟨chunks, outcomes, held, fed, _, content, stream⟩ :=
    rests_decoded run formedBy decodes rests opened
  have part : chunks.flatten <+: frames.flatten := stream ▸ received_part run sends
  obtain ⟨_, left, _⟩ := LengthFieldBaseFrameDecoder.receive_part formedBy
    (fun frame member => (carries frame member).toWellFormed) fed part
  refine rests.wire.resolve_right fun none => ?_
  have receiver := (run_end run (c.peer i)).mono fun _ _ _ => trivial
  have reads := Session.reads_below_mask receiver opened.started opened.receiver
  rw [none, content, left] at reads
  refine absurd (reads ?_) Nat.zero_ne_one
  rcases fits with unmasked | fits
  · exact .inl unmasked
  · -- what the decoder holds is the part of a frame, and frames fit below the mask
    rcases LengthFieldBaseFrameDecoder.drain_left formedBy carries part with
      empty | ⟨frame, member, shorter⟩
    · rw [empty, List.length_nil]
      exact Nat.eq_zero_or_pos _
    · exact .inr (Nat.lt_of_lt_of_le shorter (fits frame member))

/-- Nor is anything left in the write buffer. -/
theorem received_whole (run : (c.wiring β).Runs valid fresh events n) (formedBy : cfg.Valid)
    (decodes : ∀ s a, valid (c.peer i) s a → Session.DecodesFirst cfg smallEndian s a)
    {frames : List (List UInt8)} (carries : ∀ frame ∈ frames, cfg.Carries frame)
    (fits : (c.settings (c.peer i)).readHighWaterMask = 0 ∨
      ∀ frame ∈ frames, frame.length ≤ (c.settings (c.peer i)).readHighWaterMask)
    (sends : c.appended events β i = frames.flatten) (rests : c.Rests n i)
    (opened : c.Opened n i) : received events (c.peer i) = frames.flatten := by
  have crossed := wire_empty run formedBy decodes carries fits (sends ▸ List.prefix_rfl) rests
    opened
  rw [← sends, appended_eq run i, crossed,
    unsent_empty run opened.sender rests.writes rests.ioQueue, List.append_nil, List.append_nil]

/-- At rest all that has been received has been delivered. -/
theorem rests_delivered (run : (c.wiring β).Runs valid fresh events n) (formedBy : cfg.Valid)
    (decodes : ∀ s a, valid (c.peer i) s a → Session.DecodesFirst cfg smallEndian s a)
    {frames : List (List UInt8)} (carries : ∀ frame ∈ frames, cfg.Carries frame)
    (whole : received events (c.peer i) = frames.flatten) (rests : c.Rests n i)
    (opened : c.Opened n i) :
    c.delivered cfg smallEndian events β (c.peer i) =
      frames.map fun frame => frame.drop cfg.initialBytesToStrip.toNat := by
  obtain ⟨chunks, outcomes, held, fed, fired, _, stream⟩ :=
    rests_decoded run formedBy decodes rests opened
  rw [whole] at stream
  rw [← fired]
  exact LengthFieldBaseFrameDecoder.receive_whole formedBy carries fed stream

/-- The connection never comes to rest with a frame undelivered: where both ends
are open and nothing is under way, every frame has been delivered exactly once. Handlers
and tasks are steps of their own; nothing comes between their statements. -/
theorem frames_all_delivered (run : (c.wiring β).Runs valid fresh events n)
    (formedBy : cfg.Valid)
    (decodes : ∀ s a, valid (c.peer i) s a → Session.DecodesFirst cfg smallEndian s a)
    {frames : List (List UInt8)} (carries : ∀ frame ∈ frames, cfg.Carries frame)
    (fits : (c.settings (c.peer i)).readHighWaterMask = 0 ∨
      ∀ frame ∈ frames, frame.length ≤ (c.settings (c.peer i)).readHighWaterMask)
    (sends : c.appended events β i = frames.flatten) (rests : c.Rests n i)
    (opened : c.Opened n i) :
    c.delivered cfg smallEndian events β (c.peer i) =
      frames.map fun frame => frame.drop cfg.initialBytesToStrip.toNat :=
  rests_delivered run formedBy decodes carries
    (received_whole run formedBy decodes carries fits sends rests opened) rests opened

theorem twoPieces_delivered : ∃ n : State Bool AsioBuffer.LaidOut,
    last (pair.wiring AsioBuffer.LaidOut).next fresh twoPieces = some n ∧
      pair.delivered LengthFieldBaseFrameDecoder.byteLength true twoPieces AsioBuffer.LaidOut
        (pair.peer false) = [[1, 65]].map fun frame => frame.drop
          LengthFieldBaseFrameDecoder.byteLength.initialBytesToStrip.toNat := by
  have runs : (last (pair.wiring AsioBuffer.LaidOut).next fresh twoPieces).any (fun n =>
      ((n.nodes false).writes = [] ∧ .write ∉ (n.nodes false).ioQueue ∧
        .fireRead ∉ (n.nodes true).workQueue ∧ n.wire true = []) ∧
      (n.nodes false).closeFlag = false ∧ (n.nodes true).closeFlag = false ∧
        (n.nodes true).started = true) = true := by
    decide +kernel
  obtain ⟨n, run, facts⟩ := (Option.any_eq_true _ _).mp runs
  obtain ⟨⟨writes, io, work, wire⟩, sender, receiver, started⟩ := of_decide_eq_true facts
  exact ⟨n, run, frames_all_delivered (twoPieces_runs run)
    LengthFieldBaseFrameDecoder.byteLength_valid (fun _ _ decodes => decodes) byteFrames_carry
    (.inr (by decide)) twoPieces_appended
    ⟨writes, io, work, .inl wire⟩ ⟨sender, receiver, started⟩⟩

end Frames

end Connections

end FysobEngine.Net
