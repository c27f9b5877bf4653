import FysobEngine.Handler.LengthFieldStreams
import FysobEngine.Net.SessionFraming

/-!
# What a session delivers

The bytes that arrive at a session and the frames that its decoder fires. A read
task decodes all that has arrived before it runs, and every completed read of an
open session posts one. So nothing stays behind in the read buffer but the part
of a frame.
-/

namespace FysobEngine.Net.Session

open Foundation.Runs Handler.LengthField

variable {β : Type} [QueueBuffer β] {settings : Settings}

/-- The frames that the decoder of a read task fires at the next handler. -/
def decodedFrames (cfg : LengthFieldBaseFrameDecoder) (smallEndian : Bool) (s : Session β) :
    Action → List (List UInt8)
  | .runWork _ =>
      match s.workQueue with
      | .fireRead :: _ =>
          match cfg.decode smallEndian (QueueBuffer.content s.readBuffer) with
          | some (outcomes, _) => firedFrames outcomes
          | none => []
      | _ => []
  | _ => []

/-- The decoder has seen the bytes that have arrived in chunks, all but the last
ones. An open session has a read task queued for these. -/
structure Feeding (cfg : LengthFieldBaseFrameDecoder) (smallEndian : Bool)
    (received : List UInt8) (frames : List (List UInt8)) (s : Session β) : Prop where
  fed : ∃ chunks outcomes held unseen,
    cfg.receive smallEndian [] chunks = some (outcomes, held) ∧ firedFrames outcomes = frames ∧
      QueueBuffer.content s.readBuffer = held ++ unseen ∧ chunks.flatten ++ unseen = received ∧
      (unseen ≠ [] → s.closeFlag = true ∨ .fireRead ∈ s.workQueue)

/-- A part of a stream of frames delivers the first of them, in order. -/
theorem Feeding.in_order {cfg : LengthFieldBaseFrameDecoder} {smallEndian : Bool}
    {received : List UInt8} {delivered frames : List (List UInt8)} {s : Session β}
    (feeding : Feeding cfg smallEndian received delivered s) (formedBy : cfg.Valid)
    (formed : ∀ frame ∈ frames, cfg.WellFormed frame) (part : received <+: frames.flatten) :
    delivered <+: frames.map fun frame => frame.drop cfg.initialBytesToStrip.toNat := by
  obtain ⟨chunks, outcomes, held, unseen, fed, fired, _, stream, _⟩ := feeding.fed
  rw [← stream] at part
  rw [← fired]
  exact (LengthFieldBaseFrameDecoder.receive_part formedBy formed fed
    ((List.prefix_append chunks.flatten unseen).trans part)).2.2

/-! ## What the handlers leave in the read buffer -/

theorem perform_content {s s' : Session β} {call : HandlerCall}
    (done : s.perform settings call = some s') :
    QueueBuffer.content s'.readBuffer =
        (QueueBuffer.content s.readBuffer).drop (call.retrieved.elim 0 id) ∧
      s.workQueue <+: s'.workQueue := by
  cases call with
  | retrieve len =>
      obtain ⟨⟨readBuffer, invoked⟩, retrieved, result⟩ := Option.bind_eq_some_iff.mp done
      obtain ⟨_, bytes⟩ := QueueBuffer.retrieve_content retrieved
      cases invoked with
      | false =>
          cases result
          exact ⟨bytes, List.prefix_rfl⟩
      | true =>
          cases result
          exact ⟨bytes, List.prefix_rfl⟩
  | write data =>
      have keeps := append_keeps done
      rw [keeps.readBuffer, keeps.workQueue]
      exact ⟨rfl, List.prefix_rfl⟩
  | postWrite argument =>
      cases done
      exact ⟨rfl, List.prefix_append _ _⟩
  | close =>
      cases done
      rw [(close_keeps s).readBuffer, (close_keeps s).workQueue]
      exact ⟨rfl, List.prefix_rfl⟩

/-- The calls of the handlers take their retrieves off the front. -/
theorem performAll_content {s s' : Session β} {calls : List HandlerCall}
    (done : performAll settings calls s = some s') :
    QueueBuffer.content s'.readBuffer =
        (QueueBuffer.content s.readBuffer).drop (calls.filterMap HandlerCall.retrieved).sum ∧
      s.workQueue <+: s'.workQueue := by
  induction calls generalizing s with
  | nil =>
      cases done
      exact ⟨rfl, List.prefix_rfl⟩
  | cons call rest ih =>
      obtain ⟨middle, first, last⟩ := Option.bind_eq_some_iff.mp done
      obtain ⟨bytes, queue⟩ := perform_content first
      obtain ⟨behind, longer⟩ := ih last
      refine ⟨?_, queue.trans longer⟩
      rw [behind, bytes, List.drop_drop, List.filterMap_cons]
      cases call.retrieved with
      | none => simp
      | some len => simp

/-! ## One step -/

theorem Feeding.same {cfg : LengthFieldBaseFrameDecoder} {smallEndian : Bool}
    {received : List UInt8} {frames : List (List UInt8)} {s s' : Session β}
    (feeding : Feeding cfg smallEndian received frames s)
    (content : QueueBuffer.content s'.readBuffer = QueueBuffer.content s.readBuffer)
    (closes : s.closeFlag = true → s'.closeFlag = true)
    (queued : .fireRead ∈ s.workQueue → .fireRead ∈ s'.workQueue) :
    Feeding cfg smallEndian received frames s' := by
  obtain ⟨chunks, outcomes, held, unseen, fed, fired, bytes, stream, waits⟩ := feeding.fed
  exact ⟨chunks, outcomes, held, unseen, fed, fired, content.trans bytes, stream,
    fun some => (waits some).imp closes queued⟩

/-! ## Steps beside the read side -/

omit [QueueBuffer β] in
theorem Keeps.queued {s s' : Session β} (keeps : Keeps s s')
    (queued : WorkTask.fireRead ∈ s.workQueue) : .fireRead ∈ s'.workQueue := by
  rw [keeps.workQueue]
  exact queued

theorem write_workQueue (s : Session β) : s.write.workQueue = s.workQueue := by
  unfold write
  split
  · rfl
  · rfl

theorem handleWrite_queued {s s' : Session β} {result : Except ErrorCode Nat}
    (done : s.handleWrite settings result = some s') (queued : .fireRead ∈ s.workQueue) :
    .fireRead ∈ s'.workQueue := by
  rcases handleWrite_cases done with ⟨_, _, _, rfl⟩ | ⟨_, _, _, _, _, ⟨_, rfl⟩ | ⟨_, rfl⟩⟩
  · exact (closeAfterLastWrite_ending _).keeps.queued queued
  · rw [write_workQueue]
    exact queued
  · exact (closeAfterLastWrite_ending _).keeps.queued queued

/-- A read task stays queued until it runs. -/
theorem step_queued {s s' : Session β} {action : Action} (other : ¬ s.Reads action)
    (step : s.Steps settings action s') (queued : .fireRead ∈ s.workQueue) :
    .fireRead ∈ s'.workQueue := by
  cases action with
  | start connect => exact absurd (.start connect) other
  | readDone result => exact absurd (.readDone result) other
  | writeDone operation result =>
      obtain ⟨data, _, ended, how, handled⟩ := step.writeDone
      have taken : ended.workQueue = s.workQueue := by
        rcases how with rfl | ⟨bytes, rfl⟩ <;> rfl
      exact handleWrite_queued handled (taken ▸ queued)
  | runIo =>
      obtain ⟨task, rest, _, ⟨_, rfl⟩ | ⟨_, rfl⟩⟩ := step.runIo
      · rw [write_workQueue]
        exact queued
      · exact (closeTask_ending _).keeps.queued queued
  | runWork decode =>
      obtain ⟨task, rest, queue, ⟨rfl, _⟩ | ⟨data, rfl, done⟩⟩ := step.runWork
      · exact absurd (.fireRead rest decode queue) other
      · have behind : WorkTask.fireRead ∈ rest := by
          rw [queue] at queued
          rcases List.mem_cons.mp queued with same | later
          · cases same
          · exact later
        exact (append_keeps done).queued behind
  | write data => exact (append_keeps step).queued queued
  | postWrite argument =>
      cases step
      exact List.mem_append_left _ queued
  | close =>
      cases step
      exact (close_keeps s).queued queued

theorem decodedFrames_other (cfg : LengthFieldBaseFrameDecoder) (smallEndian : Bool)
    {s : Session β} {action : Action} (other : ¬ s.Reads action) :
    receivedBytes action = [] ∧ s.decodedFrames cfg smallEndian action = [] := by
  cases action with
  | readDone result => exact absurd (.readDone result) other
  | runWork decode =>
      refine ⟨rfl, ?_⟩
      dsimp only [decodedFrames]
      split
      · next rest queue => exact absurd (.fireRead rest decode queue) other
      · rfl
  | _ => exact ⟨rfl, rfl⟩

/-! ## Steps of the read side -/

theorem start_feeding {cfg : LengthFieldBaseFrameDecoder} {smallEndian : Bool}
    {received : List UInt8} {frames : List (List UInt8)} {s s' : Session β}
    {connect : List HandlerCall} (feeding : Feeding cfg smallEndian received frames s)
    (silent : connect.filterMap HandlerCall.retrieved = [])
    (step : s.Steps settings (.start connect) s') :
    Feeding cfg smallEndian received frames s' := by
  have closes := step_closeFlag step
  obtain ⟨_, last, done, rfl⟩ := step.start
  obtain ⟨middle, calls, result⟩ := Option.bind_eq_some_iff.mp done
  cases result
  obtain ⟨bytes, queue⟩ := performAll_content calls
  rw [silent, List.sum_nil, List.drop_zero] at bytes
  exact feeding.same bytes closes fun queued => queue.subset queued

/-- What arrives is unseen, and an open session posts a read task for it. -/
theorem readDone_feeding {cfg : LengthFieldBaseFrameDecoder} {smallEndian : Bool}
    {received : List UInt8} {frames : List (List UInt8)} {s s' : Session β}
    {result : Except ErrorCode (List UInt8)} (feeding : Feeding cfg smallEndian received frames s)
    (step : s.Steps settings (.readDone result) s') :
    Feeding cfg smallEndian (received ++ receivedBytes (.readDone result)) frames s' := by
  obtain ⟨reads, _, done⟩ := step.readDone
  rcases handleRead_cases done with
    ⟨code, level, rfl, rfl⟩ | ⟨data, readBuffer, rfl, arrived, how⟩
  · have keeps : Keeps { (readEnded { s with reads := reads }).note (.log level) with
        closeFlag := true } (closeAfterLastRead settings
          { (readEnded { s with reads := reads }).note (.log level) with closeFlag := true }).1 :=
      (closeAfterLastRead_ending _).keeps
    have silent : receivedBytes (.readDone (.error code)) = [] := rfl
    rw [silent, List.append_nil]
    refine feeding.same ?_ (fun _ => keeps.closeFlag rfl) keeps.queued
    rw [keeps.readBuffer]
    rfl
  · obtain ⟨chunks, outcomes, held, unseen, fed, fired, bytes, stream, _⟩ := feeding.fed
    have content : QueueBuffer.content readBuffer = held ++ (unseen ++ data) := by
      rw [QueueBuffer.receive_content arrived, ← List.append_assoc, ← bytes]
    have whole : chunks.flatten ++ (unseen ++ data) = received ++ data := by
      rw [← List.append_assoc, stream]
    rcases how with ⟨closing, rfl⟩ | ⟨_, resumed, ⟨_, rfl⟩ | ⟨_, rfl⟩, rfl⟩
    · have keeps : Keeps { readEnded { s with reads := reads } with readBuffer := readBuffer }
          (closeAfterLastRead settings
            { readEnded { s with reads := reads } with readBuffer := readBuffer }).1 :=
        (closeAfterLastRead_ending _).keeps
      rw [Bool.and_eq_true] at closing
      refine ⟨chunks, outcomes, held, _, fed, fired, ?_, whole,
        fun _ => .inl (keeps.closeFlag closing.1)⟩
      rw [keeps.readBuffer]
      exact content
    · exact ⟨chunks, outcomes, held, _, fed, fired, content, whole,
        fun _ => .inr (List.mem_append_right _ List.mem_cons_self)⟩
    · refine ⟨chunks, outcomes, held, _, fed, fired, ?_, whole,
        fun _ => .inr (List.mem_append_right _ List.mem_cons_self)⟩
      exact (QueueBuffer.set_content readBuffer settings.readHighWaterMask).trans content

/-- A read task decodes whatever has arrived. -/
theorem fireRead_feeding {cfg : LengthFieldBaseFrameDecoder} (valid : cfg.Valid)
    {smallEndian : Bool} {received : List UInt8} {frames : List (List UInt8)} {s s' : Session β}
    {decode : List HandlerCall} {rest : List WorkTask}
    (feeding : Feeding cfg smallEndian received frames s)
    (queue : s.workQueue = .fireRead :: rest)
    (decodes : DecodesFirst cfg smallEndian s (.runWork decode))
    (done : fireRead settings { s with workQueue := rest } decode = some s') :
    Feeding cfg smallEndian received
      (frames ++ s.decodedFrames cfg smallEndian (.runWork decode)) s' := by
  obtain ⟨chunks, outcomes, held, unseen, fed, fired, bytes, stream, _⟩ := feeding.fed
  obtain ⟨outcomes', kept, decoded, retrieves⟩ := decodes (by rw [queue]; rfl)
  obtain ⟨middle, calls, behind⟩ := fireRead_unread done
  obtain ⟨taken, _⟩ := performAll_content calls
  obtain ⟨logged, last, again, turns⟩ :=
    cfg.decode_decoded valid smallEndian (QueueBuffer.content s.readBuffer)
  rw [decoded, Option.some.injEq, Prod.mk.injEq, Except.ok.injEq] at again
  obtain ⟨rfl, rfl⟩ := again
  have fires : s.decodedFrames cfg smallEndian (.runWork decode) = firedFrames outcomes' := by
    dsimp only [decodedFrames]
    rw [queue, decoded]
  rw [fires]
  refine ⟨chunks ++ [unseen], outcomes ++ outcomes', kept, [], ?_, ?_, ?_, ?_,
    fun some => absurd rfl some⟩
  · rw [bytes] at decoded
    exact LengthFieldBaseFrameDecoder.receive_concat fed decoded
  · rw [firedFrames, List.filterMap_append, ← fired]
    rfl
  · rw [behind.readBuffer, taken, retrieves, retrieves_sum, List.append_nil]
    exact turns.consumed.2.symm
  · rw [List.append_nil, List.flatten_append, List.flatten_singleton, stream]

theorem step_feeding {cfg : LengthFieldBaseFrameDecoder} (valid : cfg.Valid)
    {smallEndian : Bool} {received : List UInt8} {frames : List (List UInt8)} {s s' : Session β}
    {action : Action} (feeding : Feeding cfg smallEndian received frames s)
    (decodes : DecodesFirst cfg smallEndian s action) (step : s.Steps settings action s') :
    Feeding cfg smallEndian (received ++ receivedBytes action)
      (frames ++ s.decodedFrames cfg smallEndian action) s' := by
  by_cases reads : s.Reads action
  · cases reads with
    | start connect =>
        simpa [receivedBytes, decodedFrames] using start_feeding feeding decodes step
    | readDone result => simpa [decodedFrames] using readDone_feeding feeding step
    | fireRead rest decode queue =>
        obtain ⟨task, others, same, ⟨_, done⟩ | ⟨data, rfl, _⟩⟩ := step.runWork
        · rw [queue] at same
          cases same
          simpa [receivedBytes] using fireRead_feeding valid feeding queue decodes done
        · rw [queue] at same
          cases same
  · obtain ⟨silent, none⟩ := decodedFrames_other cfg smallEndian reads
    rw [silent, none, List.append_nil, List.append_nil]
    have same := (step_unread reads step).1
    exact feeding.same (congrArg QueueBuffer.content same.readBuffer) same.closeFlag
      (step_queued reads step)

theorem create_feeding (cfg : LengthFieldBaseFrameDecoder) (smallEndian : Bool) :
    Feeding cfg smallEndian [] [] (create : Session β) :=
  ⟨[], [], [], [], rfl, rfl, QueueBuffer.create_content, rfl, fun some => absurd rfl some⟩

/-- Behind a run in which the decoder comes first. -/
theorem reached_feeding {cfg : LengthFieldBaseFrameDecoder} (valid : cfg.Valid)
    {smallEndian : Bool} {actions : List Action} {s s' : Session β} {received : List UInt8}
    {frames : List (List UInt8)}
    (run : Reached (DecodesFirst cfg smallEndian) (Steps settings) s actions s')
    (feeding : Feeding cfg smallEndian received frames s) :
    Feeding cfg smallEndian (received ++ actions.flatMap receivedBytes)
      (frames ++ produced (step settings) (decodedFrames cfg smallEndian) s actions) s' := by
  induction run generalizing received frames with
  | nil => simpa [produced] using feeding
  | @cons s middle last action rest ok first _ ih =>
      have behind := ih (step_feeding valid feeding ok first)
      have next : s.step settings action = some middle := first
      simpa [produced, next, List.append_assoc] using behind

/-! ## A stored handler has a mask -/

/-- A handler is stored for a mask above zero. -/
def ArmedByMask (settings : Settings) (s : Session β) : Prop :=
  SessionBuffer.armed s.readBuffer = true → 0 < settings.readHighWaterMask

theorem performAll_armedByMask {s s' : Session β} {calls : List HandlerCall}
    (masked : ArmedByMask settings s) (done : performAll settings calls s = some s') :
    ArmedByMask settings s' := by
  induction calls generalizing s with
  | nil =>
      cases done
      exact masked
  | cons call rest ih =>
      obtain ⟨middle, first, last⟩ := Option.bind_eq_some_iff.mp done
      refine ih (fun armed => masked ?_) last
      cases call with
      | retrieve len =>
          obtain ⟨⟨readBuffer, invoked⟩, retrieved, result⟩ := Option.bind_eq_some_iff.mp first
          obtain ⟨before, after⟩ := SessionBuffer.retrieve_armed retrieved
          cases invoked with
          | false =>
              cases result
              simpa using before.trans (congrArg (· || false) armed)
          | true =>
              cases result
              exact absurd armed (by simpa [read, note] using after rfl)
      | write data => rwa [(append_keeps first).readBuffer] at armed
      | postWrite argument =>
          cases first
          exact armed
      | close =>
          cases first
          rwa [(close_keeps s).readBuffer] at armed

theorem step_armedByMask {s s' : Session β} {action : Action} (acc : Accounted settings 0 s)
    (masked : ArmedByMask settings s) (step : s.Steps settings action s') :
    ArmedByMask settings s' := by
  by_cases reads : s.Reads action
  · cases reads with
    | start connect =>
        obtain ⟨_, last, done, rfl⟩ := step.start
        obtain ⟨middle, calls, result⟩ := Option.bind_eq_some_iff.mp done
        cases result
        have connected : ArmedByMask settings middle :=
          performAll_armedByMask (s := s.note .fireConnect) masked calls
        exact connected
    | readDone result =>
        obtain ⟨reads, outstanding, done⟩ := step.readDone
        have unarmed := (acc.busy (acc.reading_of_reads outstanding).1).2
        intro armed
        rcases handleRead_cases done with
          ⟨_, _, _, rfl⟩ | ⟨data, readBuffer, _, arrived, ⟨_, rfl⟩ | ⟨_, _, how, rfl⟩⟩
        · rw [(closeAfterLastRead_ending _).keeps.readBuffer] at armed
          exact masked armed
        · rw [(closeAfterLastRead_ending _).keeps.readBuffer] at armed
          exact masked ((SessionBuffer.receive_armed arrived).symm.trans armed)
        · rcases how with ⟨_, rfl⟩ | ⟨above, rfl⟩
          · exact masked ((SessionBuffer.receive_armed arrived).symm.trans armed)
          · exact Nat.pos_of_ne_zero fun none => above (.inl none)
    | fireRead rest decode queue =>
        obtain ⟨task, others, same, ⟨_, done⟩ | ⟨data, rfl, _⟩⟩ := step.runWork
        · obtain ⟨middle, calls, behind⟩ := fireRead_unread done
          have decoded := performAll_armedByMask
            (s := note { s with workQueue := others } .fireRead) masked calls
          intro armed
          rw [behind.readBuffer] at armed
          exact decoded armed
        · rw [queue] at same
          cases same
  · intro armed
    rw [(step_unread reads step).1.readBuffer] at armed
    exact masked armed

/-- An open session that has seen all that has arrived and holds fewer bytes than
its mask reads. -/
theorem reads_below_mask {actions : List Action} {s : Session β}
    (run : Reached (fun _ _ => True) (Steps settings) create actions s)
    (started : s.started = true) (opened : s.closeFlag = false)
    (below : settings.readHighWaterMask = 0 ∨
      (QueueBuffer.content s.readBuffer).length < settings.readHighWaterMask) : s.reads = 1 := by
  have fresh : ArmedByMask settings (create : Session β) := by
    intro armed
    rw [create, SessionBuffer.create_armed] at armed
    cases armed
  have invariant : Accounted settings 0 s ∧ ArmedByMask settings s :=
    run.invariant_all (I := fun s => Accounted settings 0 s ∧ ArmedByMask settings s)
      (fun _ _ _ inv _ step => ⟨step_accounted inv.1 step, step_armedByMask inv.1 inv.2 step⟩)
      ⟨create_accounted, fresh⟩
  obtain ⟨acc, masked⟩ := invariant
  have continues := reached_continues run
  rcases continues.goes started opened with reading | armed
  · rw [acc.reads, reading]
    rfl
  · have full := (continues.waits armed).2
    have positive := masked armed
    rw [QueueBuffer.readableBytes_eq] at full
    omega

end FysobEngine.Net.Session
