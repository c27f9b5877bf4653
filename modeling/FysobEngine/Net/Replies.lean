import FysobEngine.Net.Connection
import FysobEngine.Net.SessionPipeline

/-!
# Requests and their answers

One end of a connection sends requests, and the handlers of the other one answer
each of them with frames. The answers come back in the order of the requests.
-/

namespace FysobEngine.Net

open Foundation.Runs Foundation.Networks Handler Handler.LengthField

variable {β : Type} [QueueBuffer β]

namespace Session

variable {settings : Settings} {cfg : LengthFieldBaseFrameDecoder} {smallEndian : Bool}
  {answers : List UInt8 → List HandlerCall}

/-- The handlers behind a decoder write through the pipeline, at once, and have no
way to the read buffer. -/
structure AtOnce (answers : List UInt8 → List HandlerCall) : Prop where
  behind : Behind answers
  posts : ∀ message, postedData ((answers message).flatMap HandlerCall.writeCalls) = []

/-- So do the handlers of a chain. -/
theorem answersTo_atOnce (handlers : List (AbstractHandler AnyValue)) :
    AtOnce (answersTo smallEndian handlers) := by
  refine ⟨answersTo_behind handlers, fun message => ?_⟩
  rw [answersTo]
  generalize inward [.base] handlers (.read (.readData message)) = works
  induction works with
  | nil => rfl
  | cons work rest ih =>
      cases work with
      | context address call => exact ih
      | write msg =>
          rw [handlerCalls]
          cases msg.payload smallEndian with
          | none => rfl
          | some data => exact ih
      | close => exact ih

/-- An end that writes nothing but the answers to the messages of its decoder. -/
def Replies (cfg : LengthFieldBaseFrameDecoder) (smallEndian : Bool)
    (answers : List UInt8 → List HandlerCall) (s : Session β) : Action → Prop
  | .start connect => connect = []
  | .runWork decode => s.workQueue.head? = some .fireRead →
      ∃ outcomes rest,
        cfg.decode smallEndian (QueueBuffer.content s.readBuffer) = some (outcomes, .ok rest) ∧
          decode = outcomes.flatMap (turnCalls (cfg.frameDecoder smallEndian) answers)
  | .write _ => False
  | .postWrite _ => False
  | _ => True

/-- The bytes of the answers to a message. -/
def replyBytes (answers : List UInt8 → List HandlerCall) (message : List UInt8) : List UInt8 :=
  appendedBytes ((answers message).flatMap HandlerCall.writeCalls)

theorem Replies.decodesFirst (atOnce : AtOnce answers) {s : Session β} {action : Action}
    (replies : Replies cfg smallEndian answers s action) :
    DecodesFirst cfg smallEndian s action := by
  cases action with
  | start connect =>
      cases replies
      rfl
  | runWork decode =>
      intro queued
      obtain ⟨outcomes, rest, decoded, rfl⟩ := replies queued
      exact ⟨outcomes, rest, decoded, outcomes_retrieved atOnce.behind outcomes⟩
  | write data => cases replies
  | postWrite argument => cases replies
  | readDone result => trivial
  | writeDone operation result => trivial
  | runIo => trivial
  | close => trivial

theorem retrieves_write (lens : List Nat) :
    (lens.map HandlerCall.retrieve).flatMap HandlerCall.writeCalls = [] := by
  induction lens with
  | nil => rfl
  | cons len rest ih => exact ih

/-- A turn of the decoder writes the answers to the message that it fires. -/
theorem turn_write (outcome : Outcome) :
    (turnCalls (cfg.frameDecoder smallEndian) answers outcome).flatMap HandlerCall.writeCalls =
      outcome.fired.elim [] fun message => (answers message).flatMap HandlerCall.writeCalls := by
  rw [turnCalls, List.flatMap_append, retrieves_write, List.nil_append]
  change (outcome.fired.elim [] answers).flatMap HandlerCall.writeCalls = _
  cases outcome.fired with
  | none => rfl
  | some message => rfl

theorem turns_write (atOnce : AtOnce answers) (outcomes : List Outcome) :
    appendedBytes ((outcomes.flatMap (turnCalls (cfg.frameDecoder smallEndian) answers)).flatMap
        HandlerCall.writeCalls) = (firedFrames outcomes).flatMap (replyBytes answers) ∧
      postedData ((outcomes.flatMap (turnCalls (cfg.frameDecoder smallEndian) answers)).flatMap
        HandlerCall.writeCalls) = [] := by
  induction outcomes with
  | nil => exact ⟨rfl, rfl⟩
  | cons outcome rest ih =>
      have fires : firedFrames (outcome :: rest) = outcome.fired.toList ++ firedFrames rest := by
        cases fired : outcome.fired <;> simp [firedFrames, fired]
      rw [List.flatMap_cons, List.flatMap_append, turn_write, appendedBytes_append, ih.1,
        postedData_append, ih.2, fires]
      cases outcome.fired with
      | none => exact ⟨rfl, rfl⟩
      | some message =>
          refine ⟨rfl, ?_⟩
          rw [List.append_nil]
          exact atOnce.posts message

/-- One step of an end that only answers, while it has no task queued that writes. -/
theorem Replies.writes (atOnce : AtOnce answers) {s : Session β} {action : Action}
    (replies : Replies cfg smallEndian answers s action) (none : s.queuedData = []) :
    appendedBytes (s.writeCalls action) =
        (s.decodedFrames cfg smallEndian action).flatMap (replyBytes answers) ∧
      postedData (s.writeCalls action) = [] := by
  cases action with
  | start connect =>
      cases replies
      exact ⟨rfl, rfl⟩
  | runWork decode =>
      rw [writeCalls, decodedFrames]
      cases queue : s.workQueue with
      | nil => exact ⟨rfl, rfl⟩
      | cons task rest =>
          cases task with
          | write data =>
              rw [queuedData, queue] at none
              cases none
          | fireRead =>
              obtain ⟨outcomes, last, decoded, rfl⟩ := replies (congrArg List.head? queue)
              dsimp only
              rw [decoded]
              exact turns_write atOnce outcomes
  | write data => cases replies
  | postWrite argument => cases replies
  | readDone result => exact ⟨rfl, rfl⟩
  | writeDone operation result => exact ⟨rfl, rfl⟩
  | runIo => exact ⟨rfl, rfl⟩
  | close => exact ⟨rfl, rfl⟩

/-- What such an end has appended are the answers to the messages of its decoder. -/
theorem replies_appended (atOnce : AtOnce answers) {s s' : Session β} {actions : List Action}
    {calls : List WriteCall} (acc : Accounted settings 0 s) (written : Written calls s)
    (none : postedData calls = [])
    (run : Reached (Replies cfg smallEndian answers) (Steps settings) s actions s') :
    appendedBytes (produced (step settings) writeCalls s actions) =
      (produced (step settings) (decodedFrames cfg smallEndian) s actions).flatMap
        (replyBytes answers) := by
  induction run generalizing calls with
  | nil s => rfl
  | @cons s middle last action rest ok taken _ ih =>
      have order := written.order
      rw [none] at order
      obtain ⟨appends, posts⟩ := ok.writes atOnce (List.append_eq_nil_iff.mp order.symm).2
      have next : s.step settings action = some middle := taken
      have behind := ih (step_accounted acc taken) (step_written acc written taken)
        (by rw [postedData_append, none, posts]; rfl)
      rw [produced, produced, next, appendedBytes_append, appends, Option.elim_some,
        Option.elim_some, behind, List.flatMap_append]

end Session

/-! ## Both ways over a connection -/

namespace Connections

variable {ι : Type}

/-- The end `i` decodes with one configuration, its peer with another and answers
every message that it decodes with some frames. -/
structure Exchange (β : Type) [QueueBuffer β] (c : Connections ι)
    (valid : ι → Session β → Session.Action → Prop) (i : ι) where
  asks : LengthFieldBaseFrameDecoder
  asks_valid : asks.Valid
  tells : LengthFieldBaseFrameDecoder
  tells_valid : tells.Valid
  /-- Whether the hosts are small-endian. -/
  asker : Bool
  teller : Bool
  answers : List UInt8 → List HandlerCall
  atOnce : Session.AtOnce answers
  replies : List UInt8 → List (List UInt8)
  bytes : ∀ message, Session.replyBytes answers message = (replies message).flatten
  decodes : ∀ s a, valid i s a → Session.DecodesFirst tells asker s a
  serves : ∀ s a, valid (c.peer i) s a → Session.Replies asks teller answers s a

namespace Exchange

variable {c : Connections ι} {valid : ι → Session β → Session.Action → Prop} {i : ι}
  (e : Exchange β c valid i)

/-- The frames that answer some requests. -/
def told (requests : List (List UInt8)) : List (List UInt8) :=
  requests.flatMap fun request => e.replies (request.drop e.asks.initialBytesToStrip.toNat)

variable {e} {requests : List (List UInt8)}

theorem serves_decodes (s : Session β) (a : Session.Action) (ok : valid (c.peer i) s a) :
    Session.DecodesFirst e.asks e.teller s a :=
  (e.serves s a ok).decodesFirst e.atOnce

theorem decodes_back (s : Session β) (a : Session.Action) (ok : valid (c.peer (c.peer i)) s a) :
    Session.DecodesFirst e.tells e.asker s a := by
  rw [c.peer_peer] at ok
  exact e.decodes s a ok

/-- The answers to the first requests are the first of all answers. -/
theorem told_part {heard : List (List UInt8)}
    (part : heard <+: requests.map fun request =>
      request.drop e.asks.initialBytesToStrip.toNat) :
    heard.flatMap e.replies <+: e.told requests := by
  obtain ⟨more, whole⟩ := part
  refine ⟨more.flatMap e.replies, ?_⟩
  rw [← List.flatMap_append, whole, List.flatMap_map]
  rfl

theorem flatten_part {some all : List (List UInt8)} (part : some <+: all) :
    some.flatten <+: all.flatten := by
  obtain ⟨more, rfl⟩ := part
  rw [List.flatten_append]
  exact List.prefix_append _ _

variable [DecidableEq ι] {events : List (ι × Session.Action)} {n : State ι β}

/-- What the answering end has appended. -/
theorem replied (run : (c.wiring β).Runs valid fresh events n) :
    c.appended events β (c.peer i) =
      ((c.delivered e.asks e.teller events β (c.peer i)).flatMap e.replies).flatten := by
  have appended := Session.replies_appended e.atOnce Session.create_accounted
    Session.create_written rfl ((run_end run (c.peer i)).mono e.serves)
  have bytes : Session.replyBytes e.answers = fun message => (e.replies message).flatten :=
    funext e.bytes
  rw [Connections.appended, appended, bytes, ← List.flatMap_id, List.flatMap_assoc]
  simp only [List.flatMap_id]
  rfl

/-- Every answer that comes out of the decoder of the asking end answers a request,
and no request is answered twice or out of its turn. -/
theorem answers_in_order (run : (c.wiring β).Runs valid fresh events n)
    (formed : ∀ request ∈ requests, e.asks.WellFormed request)
    (sends : c.appended events β i <+: requests.flatten)
    (replies : ∀ frame ∈ e.told requests, e.tells.WellFormed frame) :
    c.delivered e.tells e.asker events β i <+:
      (e.told requests).map fun frame => frame.drop e.tells.initialBytesToStrip.toNat := by
  have heard := (delivered_feeding run e.asks_valid e.serves_decodes).in_order e.asks_valid
    formed (received_part run sends)
  have answered : c.appended events β (c.peer i) <+: (e.told requests).flatten := by
    rw [e.replied run]
    exact flatten_part (told_part heard)
  have back := (delivered_feeding run e.tells_valid e.decodes_back).in_order e.tells_valid
    replies (received_part run answered)
  rw [c.peer_peer] at back
  exact back

/-- Frames that a mask of an end leaves room for. -/
def Within (c : Connections ι) (i : ι) (frames : List (List UInt8)) : Prop :=
  (c.settings i).readHighWaterMask = 0 ∨
    ∀ frame ∈ frames, frame.length ≤ (c.settings i).readHighWaterMask

/-- The two ends never come to rest with a request unanswered: where both are open
and nothing is under way, every request has been answered, in order and once. The requests
and the answers have a byte behind their header and fit the mask of the end that they go
to. Handlers and tasks are steps of their own; nothing comes between their statements. -/
theorem all_answered (run : (c.wiring β).Runs valid fresh events n)
    (carries : ∀ request ∈ requests, e.asks.Carries request)
    (within : Within c (c.peer i) requests) (sends : c.appended events β i = requests.flatten)
    (replies : ∀ frame ∈ e.told requests, e.tells.Carries frame)
    (within' : Within c i (e.told requests)) (rests : c.Rests n i) (opened : c.Opened n i)
    (rests' : c.Rests n (c.peer i)) (opened' : c.Opened n (c.peer i)) :
    c.delivered e.tells e.asker events β i =
      (e.told requests).map fun frame => frame.drop e.tells.initialBytesToStrip.toNat := by
  have heard := rests_delivered run e.asks_valid e.serves_decodes carries
    (received_whole run e.asks_valid e.serves_decodes carries within sends rests opened) rests
    opened
  have answered : c.appended events β (c.peer i) = (e.told requests).flatten := by
    rw [e.replied run, heard, List.flatMap_map]
    rfl
  have room : Within c (c.peer (c.peer i)) (e.told requests) := by
    rw [Within, c.peer_peer]
    exact within'
  have back := rests_delivered run e.tells_valid e.decodes_back replies
    (received_whole run e.tells_valid e.decodes_back replies room answered rests' opened') rests'
    opened'
  rw [c.peer_peer] at back
  exact back

end Exchange

/-! ### One request -/

/-- Whether a read task makes the turns of the decoder with these answers. -/
def answersAll (cfg : LengthFieldBaseFrameDecoder) (smallEndian : Bool)
    (answers : List UInt8 → List HandlerCall) (s : Session β) (decode : List HandlerCall) :
    Bool :=
  match cfg.decode smallEndian (QueueBuffer.content s.readBuffer) with
  | some (outcomes, .ok _) =>
      decide (decode = outcomes.flatMap (Session.turnCalls (cfg.frameDecoder smallEndian) answers))
  | _ => false

theorem answersAll_iff {cfg : LengthFieldBaseFrameDecoder} {smallEndian : Bool}
    {answers : List UInt8 → List HandlerCall} {s : Session β} {decode : List HandlerCall} :
    answersAll cfg smallEndian answers s decode = true ↔
      ∃ outcomes rest,
        cfg.decode smallEndian (QueueBuffer.content s.readBuffer) = some (outcomes, .ok rest) ∧
          decode =
            outcomes.flatMap (Session.turnCalls (cfg.frameDecoder smallEndian) answers) := by
  unfold answersAll
  constructor
  · intro makes
    split at makes
    · next outcomes rest decoded => exact ⟨outcomes, rest, decoded, of_decide_eq_true makes⟩
    · cases makes
  · rintro ⟨outcomes, rest, decoded, same⟩
    rw [decoded]
    exact decide_eq_true same

instance (cfg : LengthFieldBaseFrameDecoder) (smallEndian : Bool)
    (answers : List UInt8 → List HandlerCall) (s : Session β) (action : Session.Action) :
    Decidable (Session.Replies cfg smallEndian answers s action) :=
  match action with
  | .start connect => inferInstanceAs (Decidable (connect = []))
  | .runWork decode =>
      decidable_of_iff (s.workQueue.head? = some .fireRead →
        answersAll cfg smallEndian answers s decode) (imp_congr_right fun _ => answersAll_iff)
  | .write _ | .postWrite _ => isFalse id
  | .readDone _ | .writeDone _ _ | .runIo | .close => isTrue trivial

/-- What the two ends may do: one sends every message back. -/
def Echoes (one : Bool) (s : Session AsioBuffer.LaidOut) (a : Session.Action) : Prop :=
  if one then Session.Replies LengthFieldBaseFrameDecoder.byteLength true
    (Session.answersTo true [Session.echoHandler]) s a
  else Session.DecodesFirst LengthFieldBaseFrameDecoder.byteLength true s a

instance (one : Bool) (s : Session AsioBuffer.LaidOut) (a : Session.Action) :
    Decidable (Echoes one s a) :=
  inferInstanceAs (Decidable (if one then _ else _))

/-- Requests of one byte behind a length of one byte, and the same bytes as answers. -/
def echoes : Exchange AsioBuffer.LaidOut pair Echoes false where
  asks := .byteLength
  asks_valid := LengthFieldBaseFrameDecoder.byteLength_valid
  tells := .byteLength
  tells_valid := LengthFieldBaseFrameDecoder.byteLength_valid
  asker := true
  teller := true
  answers := Session.answersTo true [Session.echoHandler]
  atOnce := Session.answersTo_atOnce [Session.echoHandler]
  replies message := [message]
  bytes _ := rfl
  decodes _ _ ok := ok
  serves _ _ ok := ok

/-- A request goes out in pieces and comes back. -/
def thereAndBack : List (Bool × Session.Action) :=
  [(false, .start []), (true, .start []), (false, .write [1, 65]), (false, .runIo),
    (false, .writeDone 0 (.ok 1)), (true, .readDone (.ok [1])), (false, .writeDone 0 (.ok 1)),
    (true, .runWork []), (true, .readDone (.ok [65])),
    (true, .runWork [.retrieve 0, .retrieve 2, .write [1, 65]]), (true, .runIo),
    (true, .writeDone 0 (.ok 2)), (false, .readDone (.ok [1])), (false, .runWork []),
    (false, .readDone (.ok [65])), (false, .runWork [.retrieve 0, .retrieve 2])]

theorem thereAndBack_runs {n : State Bool AsioBuffer.LaidOut}
    (run : last (pair.wiring AsioBuffer.LaidOut).next fresh thereAndBack = some n) :
    (pair.wiring AsioBuffer.LaidOut).Runs Echoes fresh thereAndBack n := by
  have holds : holdsAlong (pair.wiring AsioBuffer.LaidOut).next
      (fun n event => Echoes event.1 (n.nodes event.1) event.2) fresh thereAndBack = true := by
    decide +kernel
  exact reached_of_holdsAlong holds run

theorem thereAndBack_appended :
    pair.appended thereAndBack AsioBuffer.LaidOut false = [[1, 65]].flatten := by
  decide +kernel

theorem thereAndBack_in_order : ∃ n : State Bool AsioBuffer.LaidOut,
    last (pair.wiring AsioBuffer.LaidOut).next fresh thereAndBack = some n ∧
      pair.delivered echoes.tells echoes.asker thereAndBack AsioBuffer.LaidOut false <+:
        (echoes.told [[1, 65]]).map fun frame =>
          frame.drop echoes.tells.initialBytesToStrip.toNat := by
  have runs : (last (pair.wiring AsioBuffer.LaidOut).next fresh thereAndBack).isSome = true := by
    decide +kernel
  obtain ⟨n, run⟩ := Option.isSome_iff_exists.mp runs
  exact ⟨n, run, Exchange.answers_in_order (thereAndBack_runs run)
    (fun request member => (byteFrames_carry request member).toWellFormed)
    (thereAndBack_appended ▸ List.prefix_rfl)
    fun frame member => (byteFrames_carry frame member).toWellFormed⟩

theorem thereAndBack_answered : ∃ n : State Bool AsioBuffer.LaidOut,
    last (pair.wiring AsioBuffer.LaidOut).next fresh thereAndBack = some n ∧
      pair.delivered echoes.tells echoes.asker thereAndBack AsioBuffer.LaidOut false =
        (echoes.told [[1, 65]]).map fun frame =>
          frame.drop echoes.tells.initialBytesToStrip.toNat := by
  have runs : (last (pair.wiring AsioBuffer.LaidOut).next fresh thereAndBack).any (fun n =>
      ∀ one, ((n.nodes one).writes = [] ∧ .write ∉ (n.nodes one).ioQueue ∧
        .fireRead ∉ (n.nodes one).workQueue ∧ n.wire one = []) ∧
      (n.nodes one).closeFlag = false ∧ (n.nodes one).started = true) = true := by
    decide +kernel
  obtain ⟨n, run, facts⟩ := (Option.any_eq_true _ _).mp runs
  have facts := of_decide_eq_true facts
  have rests : ∀ one, pair.Rests n one := fun one =>
    ⟨(facts one).1.1, (facts one).1.2.1, (facts !one).1.2.2.1, .inl (facts !one).1.2.2.2⟩
  have opened : ∀ one, pair.Opened n one := fun one =>
    ⟨(facts one).2.1, (facts !one).2.1, (facts !one).2.2⟩
  exact ⟨n, run, Exchange.all_answered (thereAndBack_runs run) byteFrames_carry
    (.inr (by decide)) thereAndBack_appended byteFrames_carry (.inr (by decide)) (rests false)
    (opened false) (rests true) (opened true)⟩

end Connections

end FysobEngine.Net
