import FysobEngine.Handler.FrameDecoder
import FysobEngine.Net.SessionDelivery

/-!
# Decoders on the buffer of a session

A decoder takes its frames off the read buffer of the session one by one, and the
handler behind it is called in between. It may write and close, but the buffer is
not within its reach.
-/

namespace FysobEngine.Net.Session

open Foundation.Runs Handler

variable {β ω : Type} [QueueBuffer β] (settings : Settings)

section Decoder

variable (d : FrameDecoder ω) (next : List UInt8 → List HandlerCall)

/-- What a turn of the decoder calls, and then the handler of its message. -/
def turnCalls (outcome : ω) : List HandlerCall :=
  (d.retrieves outcome).map .retrieve ++ (d.fired outcome).elim [] next

/-- `decode` on the read buffer of a session, for a number of turns. `none` when
the turns run out or a call fails. -/
def decodeOn : Nat → Session β → Option (List ω × Except Fault (Session β))
  | 0, _ => none
  | .succ turns, s =>
      if SessionBuffer.readableBytes s.readBuffer = 0 then some ([], .ok s)
      else
        match d.turn (QueueBuffer.content s.readBuffer) with
        | .error fault => some ([], .error fault)
        | .ok (outcome, _) =>
            (performAll settings (turnCalls d next outcome) s).bind fun s =>
              if d.again outcome then
                (decodeOn turns s).map fun (outcomes, ending) => (outcome :: outcomes, ending)
              else some ([outcome], .ok s)

/-- The handlers behind the decoder have no way to the read buffer. -/
def Behind (next : List UInt8 → List HandlerCall) : Prop :=
  ∀ message, (next message).filterMap HandlerCall.retrieved = []

end Decoder

variable {settings}

theorem performAll_append {first second : List HandlerCall} {s : Session β} :
    performAll settings (first ++ second) s =
      (performAll settings first s).bind (performAll settings second) := by
  induction first generalizing s with
  | nil => rfl
  | cons call rest ih =>
      rw [List.cons_append, performAll, performAll, Option.bind_assoc]
      exact congrArg _ (funext fun middle => ih)

variable {d : FrameDecoder ω} {next : List UInt8 → List HandlerCall}

theorem turnCalls_retrieved (behind : Behind next) (outcome : ω) :
    (turnCalls d next outcome).filterMap HandlerCall.retrieved = d.retrieves outcome := by
  have own : ((d.retrieves outcome).map HandlerCall.retrieve).filterMap HandlerCall.retrieved =
      d.retrieves outcome := by
    rw [List.filterMap_map]
    exact List.filterMap_some
  rw [turnCalls, List.filterMap_append, own]
  cases d.fired outcome with
  | none => exact List.append_nil _
  | some message =>
      change _ ++ (next message).filterMap HandlerCall.retrieved = _
      rw [behind message, List.append_nil]

theorem outcomes_retrieved (behind : Behind next) (outcomes : List ω) :
    (outcomes.flatMap (turnCalls d next)).filterMap HandlerCall.retrieved =
      outcomes.flatMap d.retrieves := by
  induction outcomes with
  | nil => rfl
  | cons outcome rest ih =>
      rw [List.flatMap_cons, List.filterMap_append, turnCalls_retrieved behind, ih,
        List.flatMap_cons]

/-- A turn leaves the bytes that the decoder says. -/
theorem turn_content (behind : Behind next) {s s' : Session β} {outcome : ω} {rest : List UInt8}
    (turned : d.turn (QueueBuffer.content s.readBuffer) = .ok (outcome, rest))
    (done : performAll settings (turnCalls d next outcome) s = some s') :
    QueueBuffer.content s'.readBuffer = rest := by
  rw [(performAll_content done).1, turnCalls_retrieved behind]
  exact (d.turn_takes turned).2.symm

/-- The decoder on the session makes the turns that it makes on the bytes alone,
with the calls of the handlers in between. -/
theorem decodeOn_loop (behind : Behind next) {turns : Nat} {s : Session β} {outcomes : List ω}
    {ending : Except Fault (Session β)}
    (done : decodeOn settings d next turns s = some (outcomes, ending)) :
    d.decodeLoop turns (QueueBuffer.content s.readBuffer) =
        some (outcomes, ending.map fun s' => QueueBuffer.content s'.readBuffer) ∧
      ∀ s', ending = .ok s' →
        performAll settings (outcomes.flatMap (turnCalls d next)) s = some s' := by
  induction turns generalizing s outcomes with
  | zero => cases done
  | succ turns ih =>
      rw [decodeOn, QueueBuffer.readableBytes_eq] at done
      rw [FrameDecoder.decodeLoop]
      split at done
      · next empty =>
          cases done
          rw [if_pos empty]
          refine ⟨rfl, fun s' same => ?_⟩
          cases same
          rfl
      · next some_ =>
          rw [if_neg some_]
          cases turned : d.turn (QueueBuffer.content s.readBuffer) with
          | error fault =>
              rw [turned] at done
              cases done
              exact ⟨rfl, fun s' impossible => by cases impossible⟩
          | ok ended =>
              obtain ⟨outcome, rest⟩ := ended
              rw [turned] at done
              obtain ⟨middle, calls, result⟩ := Option.bind_eq_some_iff.mp done
              have kept := turn_content behind turned calls
              dsimp only
              cases again : d.again outcome with
              | true =>
                  rw [if_pos again] at result
                  obtain ⟨⟨later, ended⟩, inner, same⟩ := Option.map_eq_some_iff.mp result
                  cases same
                  obtain ⟨loop, performed⟩ := ih inner
                  rw [kept] at loop
                  rw [if_pos rfl, loop]
                  refine ⟨rfl, fun s' same => ?_⟩
                  rw [List.flatMap_cons, performAll_append, calls, Option.bind_some]
                  exact performed s' same
              | false =>
                  rw [again, if_neg Bool.false_ne_true] at result
                  cases result
                  rw [if_neg Bool.false_ne_true, ← kept]
                  refine ⟨rfl, fun s' same => ?_⟩
                  cases same
                  rw [List.flatMap_cons, List.flatMap_nil, List.append_nil]
                  exact calls

/-! ## Runs with the decoder as the first handler -/

/-- What happens to such a session. A read task runs the decoder for as many turns
as it makes, with the handler behind it. -/
inductive Move where
  | act (action : Action)
  | decode (turns : Nat) (next : List UInt8 → List HandlerCall)

/-- The bytes that a read completion brings. -/
def Move.received : Move → List UInt8
  | .act action => receivedBytes action
  | .decode _ _ => []

section Moves

variable (settings d)

/-- The read task whose first handler is the decoder, with the turns that it made. -/
def fireReadOn (next : List UInt8 → List HandlerCall) (turns : Nat) (s : Session β) :
    Option (List ω × Session β) :=
  match decodeOn settings d next turns (s.note .fireRead) with
  | some (outcomes, .ok s) =>
      some (outcomes, closeIfNecessary { s with
        handleCount := subtract s.handleCount 1
        workReadCount := subtract s.workReadCount 1 })
  | _ => none

/-- One step. The read task leaves no other way to run. -/
def move (s : Session β) : Move → Option (Session β)
  | .act (.runWork decode) =>
      match s.workQueue with
      | .fireRead :: _ => none
      | _ => s.step settings (.runWork decode)
  | .act action => s.step settings action
  | .decode turns next =>
      match s.workQueue with
      | .fireRead :: rest =>
          (fireReadOn settings d next turns { s with workQueue := rest }).map Prod.snd
      | _ => none

/-- The messages that a step fires at the handler behind the decoder. -/
def firedBy (s : Session β) : Move → List (List UInt8)
  | .act _ => []
  | .decode turns next =>
      match s.workQueue with
      | .fireRead :: rest =>
          match fireReadOn settings d next turns { s with workQueue := rest } with
          | some (outcomes, _) => outcomes.filterMap d.fired
          | none => []
      | _ => []

end Moves

/-- Nobody but the decoder retrieves. -/
def OnlyDecodes : Move → Prop
  | .act (.start connect) => connect.filterMap HandlerCall.retrieved = []
  | .act _ => True
  | .decode _ next => Behind next

theorem fireReadOn_some {turns : Nat} {s s' : Session β} {outcomes : List ω}
    (behind : Behind next) (done : fireReadOn settings d next turns s = some (outcomes, s')) :
    s.fireRead settings (outcomes.flatMap (turnCalls d next)) = some s' ∧
      ∃ rest, d.decodeLoop turns (QueueBuffer.content s.readBuffer) =
        some (outcomes, .ok rest) := by
  unfold fireReadOn at done
  split at done
  · next ended last decoded =>
      cases done
      obtain ⟨loop, performed⟩ := decodeOn_loop behind decoded
      refine ⟨?_, _, loop⟩
      rw [fireRead, performed last rfl]
      rfl
  · cases done

/-- The read task is a step of the session in which the decoder comes first. -/
theorem decode_step {cfg : LengthField.LengthFieldBaseFrameDecoder} (valid : cfg.Valid)
    {smallEndian : Bool} {turns : Nat} {s s' : Session β} (behind : Behind next)
    (done : s.move settings (cfg.frameDecoder smallEndian) (.decode turns next) = some s') :
    ∃ action, DecodesFirst cfg smallEndian s action ∧ s.Steps settings action s' ∧
      s.decodedFrames cfg smallEndian action =
        s.firedBy settings (cfg.frameDecoder smallEndian) (.decode turns next) ∧
      receivedBytes action = [] := by
  dsimp only [move] at done
  split at done
  · next rest queue =>
      obtain ⟨⟨outcomes, last⟩, ran, same⟩ := Option.map_eq_some_iff.mp done
      cases same
      obtain ⟨performed, left, loop⟩ := fireReadOn_some behind ran
      -- the decoder makes the same turns within the number that is enough
      obtain ⟨enough, ending, decoded, _⟩ :=
        cfg.decode_decoded valid smallEndian (QueueBuffer.content s.readBuffer)
      have turned : cfg.decode smallEndian (QueueBuffer.content s.readBuffer) =
          some (outcomes, .ok left) := by
        have first := (cfg.frameDecoder smallEndian).decodeLoop_more loop (Nat.le_max_left turns
          ((QueueBuffer.content s.readBuffer).length + 1))
        have second : (cfg.frameDecoder smallEndian).decodeLoop
            ((QueueBuffer.content s.readBuffer).length + 1) (QueueBuffer.content s.readBuffer) =
              some (enough, .ok ending) := by
          rw [LengthField.LengthFieldBaseFrameDecoder.frameDecoder_decodeLoop]
          exact decoded
        have again := (cfg.frameDecoder smallEndian).decodeLoop_more second
          (Nat.le_max_right turns ((QueueBuffer.content s.readBuffer).length + 1))
        exact decoded.trans (again.symm.trans first)
      refine ⟨.runWork (outcomes.flatMap (turnCalls (cfg.frameDecoder smallEndian) next)),
        fun _ => ⟨outcomes, left, turned, outcomes_retrieved behind outcomes⟩, ?_, ?_, rfl⟩
      · dsimp only [Steps, step]
        rw [queue]
        exact performed
      · dsimp only [decodedFrames, firedBy]
        rw [queue]
        dsimp only
        rw [ran, turned]
        rfl
  · cases done

theorem move_step {cfg : LengthField.LengthFieldBaseFrameDecoder} (valid : cfg.Valid)
    {smallEndian : Bool} {s s' : Session β} {m : Move} (only : OnlyDecodes m)
    (done : s.move settings (cfg.frameDecoder smallEndian) m = some s') :
    ∃ action, DecodesFirst cfg smallEndian s action ∧ s.Steps settings action s' ∧
      s.decodedFrames cfg smallEndian action =
        s.firedBy settings (cfg.frameDecoder smallEndian) m ∧
      receivedBytes action = m.received := by
  cases m with
  | decode turns next => exact decode_step valid only done
  | act action =>
      cases action with
      | runWork decode =>
          dsimp only [move] at done
          split at done
          · cases done
          · next other =>
              refine ⟨.runWork decode, fun queue => ?_, done, ?_, rfl⟩
              · cases work : s.workQueue with
                | nil => simp [work] at queue
                | cons task rest =>
                    rw [work, List.head?_cons, Option.some.injEq] at queue
                    exact absurd (queue ▸ work) (other rest)
              · dsimp only [decodedFrames, firedBy]
                split
                · next rest queue => exact absurd queue (other rest)
                · rfl
      | start connect => exact ⟨.start connect, only, done, rfl, rfl⟩
      | readDone result => exact ⟨.readDone result, trivial, done, rfl, rfl⟩
      | writeDone operation result => exact ⟨.writeDone operation result, trivial, done, rfl, rfl⟩
      | runIo => exact ⟨.runIo, trivial, done, rfl, rfl⟩
      | write data => exact ⟨.write data, trivial, done, rfl, rfl⟩
      | postWrite argument => exact ⟨.postWrite argument, trivial, done, rfl, rfl⟩
      | close => exact ⟨.close, trivial, done, rfl, rfl⟩

/-- A run of the session with whole read tasks leads to the same state. The same
bytes arrive in it, and the same messages are fired. -/
def Refines (settings : Settings) (cfg : LengthField.LengthFieldBaseFrameDecoder)
    (smallEndian : Bool) (moves : List Move) (s s' : Session β) : Prop :=
  ∃ actions, Reached (DecodesFirst cfg smallEndian) (Steps settings) s actions s' ∧
    produced (step settings) (decodedFrames cfg smallEndian) s actions =
      produced (move settings (cfg.frameDecoder smallEndian))
        (firedBy settings (cfg.frameDecoder smallEndian)) s moves ∧
    actions.flatMap receivedBytes = moves.flatMap Move.received

/-- A session whose first handler is the decoder, which takes frames off the read
buffer while the handlers behind it write and close, refines the session whose
read tasks decode all bytes at hand first. -/
theorem moves_refine {cfg : LengthField.LengthFieldBaseFrameDecoder} (valid : cfg.Valid)
    {smallEndian : Bool} {moves : List Move} {s s' : Session β}
    (run : Reached (fun _ => OnlyDecodes)
      (fun s m s' => s.move settings (cfg.frameDecoder smallEndian) m = some s') s moves s') :
    Refines settings cfg smallEndian moves s s' := by
  induction run with
  | nil s => exact ⟨[], .nil s, rfl, rfl⟩
  | @cons s middle last m rest ok first _ ih =>
      obtain ⟨action, decodes, taken, fires, arrived⟩ := move_step valid ok first
      obtain ⟨actions, run, messages, bytes⟩ := ih
      refine ⟨action :: actions, .cons decodes taken run, ?_, ?_⟩
      · have next : s.step settings action = some middle := taken
        have moved : s.move settings (cfg.frameDecoder smallEndian) m = some middle := first
        rw [produced, produced, next, moved, fires]
        exact congrArg _ messages
      · rw [List.flatMap_cons, List.flatMap_cons, arrived, bytes]

/-- A handler that answers every message with itself. -/
def echo (message : List UInt8) : List HandlerCall := [.write message]

/-- A frame and the part of another one arrive, and the handler answers the first. -/
def echoMoves : List Move :=
  [.act (.start []), .act (.readDone (.ok [1])), .act (.readDone (.ok [65, 1])), .decode 2 echo]

theorem echoMoves_refine : ∃ s : Session AsioBuffer.LaidOut,
    QueueBuffer.content s.readBuffer = [1] ∧ QueueBuffer.content s.writeBuffer = [1, 65] ∧
    Refines ⟨0, 0, false, true⟩ LengthField.LengthFieldBaseFrameDecoder.byteLength true echoMoves
      create s := by
  have runs : ((create : Session AsioBuffer.LaidOut).move ⟨0, 0, false, true⟩
      (LengthField.LengthFieldBaseFrameDecoder.byteLength.frameDecoder true)
      (.act (.start []))).any (fun opened =>
        (opened.move ⟨0, 0, false, true⟩
          (LengthField.LengthFieldBaseFrameDecoder.byteLength.frameDecoder true)
          (.act (.readDone (.ok [1])))).any fun first =>
            (first.move ⟨0, 0, false, true⟩
              (LengthField.LengthFieldBaseFrameDecoder.byteLength.frameDecoder true)
              (.act (.readDone (.ok [65, 1])))).any fun second =>
                (second.move ⟨0, 0, false, true⟩
                  (LengthField.LengthFieldBaseFrameDecoder.byteLength.frameDecoder true)
                  (.decode 2 echo)).any fun s => QueueBuffer.content s.readBuffer = [1] ∧
                    QueueBuffer.content s.writeBuffer = [1, 65]) = true := by
    decide +kernel
  obtain ⟨opened, start, rest⟩ := (Option.any_eq_true _ _).mp runs
  obtain ⟨first, readFirst, rest⟩ := (Option.any_eq_true _ _).mp rest
  obtain ⟨second, readSecond, rest⟩ := (Option.any_eq_true _ _).mp rest
  obtain ⟨s, decoded, contents⟩ := (Option.any_eq_true _ _).mp rest
  obtain ⟨held, answer⟩ := of_decide_eq_true contents
  exact ⟨s, held, answer, moves_refine LengthField.LengthFieldBaseFrameDecoder.byteLength_valid
    (.cons rfl start (.cons trivial readFirst (.cons trivial readSecond
      (.cons (fun _ => rfl) decoded (.nil s)))))⟩

end FysobEngine.Net.Session
