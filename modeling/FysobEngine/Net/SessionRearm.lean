import FysobEngine.Net.SessionReading

/-!
# Arming the high-water handler again

`retrieve` of the read buffer runs on a thread of the handlers, `handle_read` on that
of the socket. Here the statements of `retrieve` are moves of their own, between which
the session takes whole steps and anyone who holds the buffer may store a handler.
-/

namespace FysobEngine.Net

namespace AsioBuffer

/-- `retrieve` up to its test of the high-water mask. -/
def takeBytes (s : AsioBuffer) (len : Nat) : Option AsioBuffer :=
  if len ≤ s.readableBytes then
    (adjustIndex s.buffer len s.readBufferIter s.readIndex).map fun (iter, index) =>
      { s with
        readBufferIter := iter
        readIndex := index
        readableBytes := s.readableBytes - len }
  else none

/-- The test of `retrieve`. -/
def belowMask (s : AsioBuffer) : Bool :=
  s.notifyBehindHighWaterMask && s.readableBytes < s.highWaterMask

theorem retrieve_eq (s : AsioBuffer) (len : Nat) :
    s.retrieve len = (s.takeBytes len).map fun taken =>
      if taken.belowMask then
        ({ taken with notifyBehindHighWaterMask := false, highWaterMask := 0 }, true)
      else (taken, false) := by
  unfold retrieve takeBytes
  split
  · rw [Option.map_map]
    rfl
  · rfl

theorem takeBytes_handler {s taken : AsioBuffer} {len : Nat} (done : s.takeBytes len = some taken) :
    taken.handler = s.handler := by
  unfold takeBytes at done
  split at done
  · obtain ⟨position, _, rfl⟩ := Option.map_eq_some_iff.mp done
    rfl
  · cases done

end AsioBuffer

/-- A call that may invoke a stored handler. -/
def HandlerCall.retrieves : HandlerCall → Bool
  | .retrieve _ => true
  | .write _ | .postWrite _ | .close => false

/-- An action whose handlers call `retrieve`. -/
def Session.Action.retrieves : Session.Action → Bool
  | .start calls | .runWork calls => calls.any HandlerCall.retrieves
  | .readDone _ | .writeDone _ _ | .runIo | .write _ | .postWrite _ | .close => false

/-- Where a thread is in `retrieve`. -/
inductive RetrievePlace where
  | outside
  /-- The bytes are taken, and the mask is to be tested. -/
  | taken
  /-- The handler is to be invoked. -/
  | below
  /-- The handler runs or has returned. -/
  | invoked
  /-- `notify_behind_high_water_mask_` is cleared, `high_water_mask_` is not. -/
  | cleared
  deriving DecidableEq, Repr

/-- A session with a thread that may be in `retrieve`. -/
structure Rearming where
  session : Session AsioBuffer
  place : RetrievePlace
  /-- Whether the handler that was stored last is the session's, which calls `read`. -/
  resumes : Bool
  /-- The mask of the handler that was stored last, until it is invoked. No move reads it. -/
  armed : Option Nat

namespace Rearming

open Foundation.Runs

inductive Move where
  | retrieve (len : Nat)
  | test
  | invoke
  | clearHandler
  | clearMask
  /-- A callback, or anyone else, stores a handler. -/
  | setNotify (mask : Nat)
  | session (action : Session.Action)

def create : Rearming := ⟨Session.create, .outside, false, none⟩

def setReadBuffer (s : Rearming) (readBuffer : AsioBuffer) : Rearming :=
  { s with session := { s.session with readBuffer := readBuffer } }

variable (settings : Settings)

/-- The session stores its handler in this action. -/
def Stores (s : Rearming) (action : Session.Action) : Prop :=
  s.session.highWaterCalls settings action = [.stored]

instance (s : Rearming) (action : Session.Action) : Decidable (Stores settings s action) :=
  inferInstanceAs (Decidable (_ = _))

/-- One move. A `retrieve` within an action of the session is made by the moves before
and behind that action. -/
def step (s : Rearming) : Move → Option Rearming
  | .retrieve len =>
      if s.place = .outside then
        (s.session.readBuffer.takeBytes len).map fun taken =>
          { s.setReadBuffer taken with place := .taken }
      else none
  | .test =>
      if s.place = .taken then
        some { s with place := if s.session.readBuffer.belowMask then .below else .outside }
      else none
  | .invoke =>
      if s.place = .below then
        some { s with
          session := if s.resumes then s.session.read else s.session
          place := .invoked
          armed := none }
      else none
  | .clearHandler =>
      if s.place = .invoked then
        some { s.setReadBuffer { s.session.readBuffer with notifyBehindHighWaterMask := false } with
          place := .cleared }
      else none
  | .clearMask =>
      if s.place = .cleared then
        some { s.setReadBuffer { s.session.readBuffer with highWaterMask := 0 } with
          place := .outside }
      else none
  | .setNotify mask =>
      some { s.setReadBuffer (s.session.readBuffer.setNotifyBehindHighWaterMask mask) with
        resumes := false
        armed := some mask }
  | .session action =>
      if action.retrieves then none
      else
        (s.session.step settings action).map fun session =>
          if s.Stores settings action then
            { s with session := session, resumes := true, armed := some settings.readHighWaterMask }
          else { s with session := session }

/-- The step relation. -/
def Steps (s : Rearming) (move : Move) (s' : Rearming) : Prop := s.step settings move = some s'

/-- A handler that was not invoked is stored, with its mask. -/
def NotLost (s : Rearming) : Prop :=
  ∀ mask, s.armed = some mask → s.session.readBuffer.handler = (true, mask)

/-- No move loses a handler, and a test that finds the bytes below its mask goes on to
invoke it. -/
def KeepsArmed (s : Rearming) (move : Move) : Prop :=
  ∀ s', s.step settings move = some s' → s'.NotLost ∧
    ∀ mask, move = .test → s.armed = some mask → s.session.readBuffer.readableBytes < mask →
      s'.place = .below

variable {settings}

/-- Nothing is stored between the invocation and the statement that clears it. -/
def Undisturbed (s : Rearming) : Move → Prop
  | .clearHandler => s.place = .invoked → s.armed = none
  | .clearMask => s.place = .cleared → s.armed = none ∨ s.armed = some 0
  | .retrieve _ | .test | .invoke | .setNotify _ | .session _ => True

/-! ## The moves of `retrieve` -/

/-- A `retrieve` that nobody interrupts. -/
theorem retrieve_uninterrupted {s : Rearming} (outside : s.place = .outside)
    (resumes : s.resumes = true) {len : Nat} {session : Session AsioBuffer}
    (done : s.session.retrieve len = some session) :
    ∃ moves s', (moves = [.retrieve len, .test] ∨
        moves = [.retrieve len, .test, .invoke, .clearHandler, .clearMask]) ∧
      last (step settings) s moves = some s' ∧ s'.session = session ∧ s'.place = .outside := by
  obtain ⟨⟨readBuffer, invoked⟩, retrieved, result⟩ := Option.bind_eq_some_iff.mp done
  change s.session.readBuffer.retrieve len = _ at retrieved
  rw [AsioBuffer.retrieve_eq] at retrieved
  obtain ⟨takenBuffer, takes, how⟩ := Option.map_eq_some_iff.mp retrieved
  cases below : takenBuffer.belowMask with
  | false =>
      rw [below] at how
      cases how
      cases result
      refine ⟨_, { s.setReadBuffer readBuffer with place := .outside }, .inl rfl, ?_, rfl, rfl⟩
      simp [last, step, outside, takes, setReadBuffer, below]
  | true =>
      rw [below] at how
      cases how
      cases result
      refine ⟨_, ⟨_, .outside, s.resumes, none⟩, .inr rfl, ?_, rfl, rfl⟩
      simp [last, step, outside, takes, setReadBuffer, below, resumes, Session.read, Session.note]

/-! ## The steps of the session -/

section Session

variable {session session' : Session AsioBuffer}

theorem performAll_quiet {calls : List HandlerCall}
    (quiet : calls.any HandlerCall.retrieves = false)
    (done : Session.performAll settings calls session = some session') :
    session.Unread session' ∧
      produced (Session.perform settings) Session.retrieveCalls session calls = [] := by
  induction calls generalizing session with
  | nil =>
      cases done
      exact ⟨.refl _, rfl⟩
  | cons call rest ih =>
      rw [List.any_cons, Bool.or_eq_false_iff] at quiet
      obtain ⟨middle, first, last⟩ := Option.bind_eq_some_iff.mp done
      obtain ⟨same, none⟩ := ih quiet.2 last
      have called : session.Unread middle ∧ session.retrieveCalls call = [] := by
        cases call with
        | retrieve len => cases quiet.1
        | write data => exact ⟨(Session.append_keeps first).unread, rfl⟩
        | postWrite argument =>
            cases first
            exact ⟨⟨⟨rfl, rfl, rfl, id⟩, rfl⟩, rfl⟩
        | close =>
            cases first
            exact ⟨(Session.close_keeps session).unread, rfl⟩
      refine ⟨called.1.trans same, ?_⟩
      simp [produced, called.2, first, none]

/-- What a step without a `retrieve` does to the read side. -/
inductive ReadSide (settings : Settings) (session session' : Session AsioBuffer) :
    List HighWaterCall → Prop where
  | starts (handler : session'.readBuffer.handler = session.readBuffer.handler)
      (fresh : session.started = false) (started : session'.started = true)
      (reading : session'.reading = true) (reads : session'.reads = session.reads + 1) :
      ReadSide settings session session' []
  /-- A read completes, and the next one is started or the session is closed. -/
  | completes (handler : session'.readBuffer.handler = session.readBuffer.handler)
      (started : session'.started = session.started)
      (goes : session'.closeFlag = true ∨ session'.reading = true)
      (outstanding : 0 < session.reads) (reads : session'.reads ≤ session.reads) :
      ReadSide settings session session' []
  /-- A read completes, and the handler is stored. -/
  | stores (handler : session'.readBuffer.handler = (true, settings.readHighWaterMask))
      (started : session'.started = session.started)
      (reads : session.reads = session'.reads + 1) :
      ReadSide settings session session' [.stored]
  | unread (unread : session.Unread session') : ReadSide settings session session' []

theorem closed_readSide {ended : Session AsioBuffer}
    (handler : ended.readBuffer.handler = session.readBuffer.handler)
    (started : ended.started = session.started) (closed : ended.closeFlag = true)
    (reads : session.reads = ended.reads + 1) :
    ReadSide settings session (Session.closeAfterLastRead settings ended).1 [] := by
  have keeps : ended.Keeps (Session.closeAfterLastRead settings ended).1 :=
    (Session.closeAfterLastRead_ending ended).keeps
  refine .completes ?_ (keeps.started.trans started) (.inl (keeps.closeFlag closed)) ?_ ?_
  · rw [keeps.readBuffer]
    exact handler
  · omega
  · rw [keeps.reads]
    omega

theorem handleRead_readSide {reads : Nat} {result : Except ErrorCode (List UInt8)}
    (outstanding : session.reads = reads + 1)
    (done : Session.handleRead settings { session with reads := reads } result = some session') :
    ReadSide settings session session' (session.highWaterCalls settings (.readDone result)) := by
  rcases Session.handleRead_cases done with
    ⟨code, level, rfl, rfl⟩ |
      ⟨data, readBuffer, rfl, received, ⟨closing, rfl⟩ | ⟨waits, _, how, rfl⟩⟩
  · exact closed_readSide rfl rfl rfl outstanding
  · have received' : SessionBuffer.receive session.readBuffer data = some readBuffer := received
    have calls : session.highWaterCalls settings (.readDone (.ok data)) = [] := by
      dsimp only [Session.highWaterCalls]
      rw [received']
      exact if_pos (.inl closing)
    rw [calls]
    rw [Bool.and_eq_true] at closing
    exact closed_readSide (AsioBuffer.receive_handler received) rfl closing.1 outstanding
  · have received' : SessionBuffer.receive session.readBuffer data = some readBuffer := received
    rcases how with ⟨below, rfl⟩ | ⟨above, rfl⟩
    · have calls : session.highWaterCalls settings (.readDone (.ok data)) = [] := by
        dsimp only [Session.highWaterCalls]
        rw [received']
        exact if_pos (.inr below)
      rw [calls]
      exact .completes (AsioBuffer.receive_handler received) rfl (.inr rfl)
        (Nat.lt_of_lt_of_eq (Nat.succ_pos reads) outstanding.symm) (Nat.le_of_eq outstanding.symm)
    · have calls : session.highWaterCalls settings (.readDone (.ok data)) = [.stored] := by
        have stores : ¬ ((session.closeFlag && !session.writing) = true ∨
            Session.ReadsOn settings readBuffer) := by
          rintro (closing | below)
          · exact Bool.false_ne_true (waits.symm.trans closing)
          · exact above below
        dsimp only [Session.highWaterCalls]
        rw [received']
        exact if_neg stores
      rw [calls]
      exact .stores rfl rfl outstanding

theorem step_readSide {action : Session.Action} (quiet : action.retrieves = false)
    (done : session.Steps settings action session') :
    ReadSide settings session session' (session.highWaterCalls settings action) := by
  by_cases reads : session.Reads action
  · cases reads with
    | start connect =>
        obtain ⟨fresh, connected, started, rfl⟩ := done.start
        obtain ⟨middle, calls, result⟩ := Option.bind_eq_some_iff.mp started
        cases result
        obtain ⟨unread, none⟩ := performAll_quiet quiet calls
        have calls : session.highWaterCalls settings (.start connect) = [] := none
        rw [calls]
        exact .starts (congrArg AsioBuffer.handler unread.readBuffer) fresh rfl rfl
          (congrArg (· + 1) unread.reads)
    | readDone result =>
        obtain ⟨reads, outstanding, handled⟩ := done.readDone
        exact handleRead_readSide outstanding handled
    | fireRead rest decode queue =>
        obtain ⟨task, others, same, ⟨rfl, fired⟩ | ⟨data, rfl, _⟩⟩ := done.runWork
        · obtain ⟨middle, calls, behind⟩ := Session.fireRead_unread fired
          obtain ⟨decoded, none⟩ := performAll_quiet quiet calls
          have taken : session.Unread
              (Session.note { session with workQueue := others } .fireRead) :=
            ⟨⟨rfl, rfl, rfl, id⟩, rfl⟩
          have calls : session.highWaterCalls settings (.runWork decode) = [] := by
            dsimp only [Session.highWaterCalls]
            rw [same]
            exact none
          rw [calls]
          exact .unread ((taken.trans decoded).trans behind)
        · rw [queue] at same
          cases same
  · obtain ⟨unread, none⟩ := Session.step_unread reads done
    rw [none]
    exact .unread unread

end Session

/-! ## One move -/

theorem NotLost.same {s s' : Rearming} (kept : s.NotLost)
    (handler : s'.session.readBuffer.handler = s.session.readBuffer.handler)
    (armed : s'.armed = s.armed) : s'.NotLost := by
  intro mask waiting
  rw [handler]
  exact kept mask (armed ▸ waiting)

/-- What a move of the session does. -/
theorem session_cases {s s' : Rearming} {action : Session.Action}
    (done : s.step settings (.session action) = some s') :
    ∃ session calls, s.session.highWaterCalls settings action = calls ∧
      ReadSide settings s.session session calls ∧
      s' = if calls = [.stored] then
          { s with
            session := session, resumes := true, armed := some settings.readHighWaterMask }
        else { s with session := session } := by
  rw [step] at done
  split at done
  · cases done
  · next quiet =>
      rw [Bool.not_eq_true] at quiet
      obtain ⟨session, stepped, result⟩ := Option.map_eq_some_iff.mp done
      exact ⟨session, _, rfl, step_readSide quiet stepped, result.symm⟩

theorem session_notLost {s s' : Rearming} (kept : s.NotLost) {action : Session.Action}
    (done : s.step settings (.session action) = some s') : s'.NotLost := by
  obtain ⟨session, calls, _, side, rfl⟩ := session_cases done
  cases side with
  | starts handler _ _ _ _ => exact kept.same handler rfl
  | completes handler _ _ _ _ => exact kept.same handler rfl
  | stores handler _ _ =>
      intro mask waiting
      cases waiting
      exact handler
  | unread unread => exact kept.same (congrArg AsioBuffer.handler unread.readBuffer) rfl

/-- The moves that clear a field keep a stored handler just when none is to be kept. -/
theorem clearHandler_notLost_iff (s : Rearming) :
    NotLost { s.setReadBuffer { s.session.readBuffer with notifyBehindHighWaterMask := false } with
      place := .cleared } ↔ s.armed = none := by
  constructor
  · intro still
    cases armed : s.armed with
    | none => rfl
    | some mask => cases congrArg Prod.fst (still mask armed)
  · intro none mask waiting
    cases none.symm.trans waiting

theorem clearMask_notLost_iff {s : Rearming} (kept : s.NotLost) :
    NotLost { s.setReadBuffer { s.session.readBuffer with highWaterMask := 0 } with
      place := .outside } ↔ s.armed = none ∨ s.armed = some 0 := by
  constructor
  · intro still
    cases armed : s.armed with
    | none => exact .inl rfl
    | some mask =>
        have zero : 0 = mask := congrArg Prod.snd (still mask armed)
        exact .inr (congrArg some zero.symm)
  · rintro (none | zero) mask waiting
    · cases none.symm.trans waiting
    · cases zero.symm.trans waiting
      have stored : s.session.readBuffer.notifyBehindHighWaterMask = true :=
        congrArg Prod.fst (kept 0 zero)
      exact Prod.ext stored rfl

theorem keepsArmed_of_notLost {s : Rearming} {move : Move} (other : move ≠ .test)
    (keeps : ∀ s', s.step settings move = some s' → s'.NotLost) : s.KeepsArmed settings move :=
  fun s' done => ⟨keeps s' done, fun _ same => absurd same other⟩

/-- Behind a state that lost no handler, a move loses none and a test wakes the right one
exactly when the move does not clear a handler that was stored meanwhile. -/
theorem keepsArmed_iff {s : Rearming} (kept : s.NotLost) (move : Move) :
    s.KeepsArmed settings move ↔ s.Undisturbed move := by
  cases move with
  | retrieve len =>
      refine iff_of_true (keepsArmed_of_notLost (by rintro ⟨⟩) fun s' done => ?_) trivial
      rw [step] at done
      split at done
      · obtain ⟨taken, takes, rfl⟩ := Option.map_eq_some_iff.mp done
        exact kept.same (AsioBuffer.takeBytes_handler takes) rfl
      · cases done
  | test =>
      refine iff_of_true (fun s' done => ?_) trivial
      rw [step] at done
      split at done
      · cases done
        refine ⟨kept.same rfl rfl, fun mask _ armed below => if_pos ?_⟩
        have stored : s.session.readBuffer.notifyBehindHighWaterMask = true :=
          congrArg Prod.fst (kept mask armed)
        have waits : s.session.readBuffer.highWaterMask = mask :=
          congrArg Prod.snd (kept mask armed)
        rw [AsioBuffer.belowMask, stored, waits, Bool.true_and]
        exact decide_eq_true below
      · cases done
  | invoke =>
      refine iff_of_true (keepsArmed_of_notLost (by rintro ⟨⟩) fun s' done => ?_) trivial
      rw [step] at done
      split at done
      · cases done
        intro mask waiting
        cases waiting
      · cases done
  | clearHandler =>
      simp only [KeepsArmed, step, Undisturbed]
      by_cases place : s.place = .invoked
      · simp [place, clearHandler_notLost_iff s]
      · simp [place]
  | clearMask =>
      simp only [KeepsArmed, step, Undisturbed]
      by_cases place : s.place = .cleared
      · simp [place, clearMask_notLost_iff kept]
      · simp [place]
  | setNotify mask =>
      refine iff_of_true (keepsArmed_of_notLost (by rintro ⟨⟩) fun s' done => ?_) trivial
      cases done
      intro mask waiting
      cases waiting
      rfl
  | session action =>
      refine iff_of_true (keepsArmed_of_notLost (by rintro ⟨⟩) fun s' done => ?_) trivial
      exact session_notLost kept done

/-! ## Runs -/

theorem create_notLost : NotLost create := by
  intro mask waiting
  cases waiting

/-- In a run of the two threads, whatever the order of their moves, no stored handler is
lost exactly when at every clearing statement none waits that was stored since the
invocation. -/
theorem along_keepsArmed_iff (settings : Settings) (moves : List Move) :
    Along (fun _ _ => True) (Steps settings) (KeepsArmed settings) create moves ↔
      Along (fun _ _ => True) (Steps settings) Undisturbed create moves :=
  along_congr (I := NotLost) (fun _ move kept _ => keepsArmed_iff kept move)
    (fun _ _ s' _ _ keeps done => (keeps s' done).1) create_notLost moves

/-- A read arrives while the handler of the last one still runs. -/
def lostRun : List Move :=
  [.session (.start []), .session (.readDone (.ok [65])), .retrieve 1, .test, .invoke,
    .session (.readDone (.ok [66])), .clearHandler, .clearMask]

/-- The session waits for its handler, and the buffer stores none. -/
theorem lostRun_not_kept :
    ¬ Along (fun _ _ => True) (Steps ⟨1, 0, false, false⟩) (KeepsArmed ⟨1, 0, false, false⟩)
      create lostRun := by
  intro along
  have runs : (last (step ⟨1, 0, false, false⟩) create (lostRun.take 7)).any (fun s =>
      (s.step ⟨1, 0, false, false⟩ .clearMask).any fun s' =>
        s'.armed = some 1 ∧ s'.session.readBuffer.handler = (false, 0)) = true := by
    decide +kernel
  obtain ⟨s, run, found⟩ := (Option.any_eq_true _ _).mp runs
  obtain ⟨s', done, seen⟩ := (Option.any_eq_true _ _).mp found
  obtain ⟨armed, handler⟩ := of_decide_eq_true seen
  have kept := ((along.behind (reached_last run) trivial) s' done).1 1 armed
  rw [handler] at kept
  cases kept

/-! ## Reading goes on -/

/-- A move in which nobody but the session stores a handler. -/
def Move.Own : Move → Prop
  | .setNotify _ => False
  | .retrieve _ | .test | .invoke | .clearHandler | .clearMask | .session _ => True

/-- A handler that is stored waits or runs, no read is outstanding while one waits, and an
open session reads or waits. -/
structure Awaited (settings : Settings) (s : Rearming) : Prop where
  stored : s.session.readBuffer.handler.1 = true →
    s.resumes = true ∧ (s.place = .invoked ∨ s.armed.isSome = true)
  below : s.place = .below → s.resumes = true ∧ s.armed.isSome = true
  mask : ∀ mask, s.armed = some mask → mask = settings.readHighWaterMask
  outstanding : s.session.reads + s.armed.isSome.toNat ≤ 1
  fresh : s.session.started = false → s.session.reads = 0 ∧ s.armed = none
  goes : s.session.started = true → s.session.closeFlag = false →
    s.session.reading = true ∨ s.armed.isSome = true

theorem create_awaited : create.Awaited settings where
  stored := by simp [create, Session.create, SessionBuffer.create, AsioBuffer.handler,
    AsioBuffer.create]
  below := by simp [create]
  mask := by simp [create]
  outstanding := by simp [create, Session.create]
  fresh := by simp [create, Session.create]
  goes := by simp [create, Session.create]

/-- Where a read is outstanding no handler waits. -/
theorem Awaited.unarmed {s : Rearming} (awaited : s.Awaited settings)
    (outstanding : 0 < s.session.reads) : s.armed = none := by
  cases armed : s.armed with
  | none => rfl
  | some mask =>
      have bound := awaited.outstanding
      rw [armed] at bound
      simp only [Option.isSome_some, Bool.toNat_true] at bound
      omega

/-- Outside of the invocation a stored handler waits. -/
theorem Awaited.waits {s : Rearming} (awaited : s.Awaited settings)
    (stored : s.session.readBuffer.handler.1 = true) (place : s.place ≠ .invoked) :
    s.resumes = true ∧ s.armed.isSome = true :=
  ⟨(awaited.stored stored).1, (awaited.stored stored).2.resolve_left place⟩

theorem session_awaited {s s' : Rearming} (awaited : s.Awaited settings) {action : Session.Action}
    (done : s.step settings (.session action) = some s') : s'.Awaited settings := by
  obtain ⟨session, calls, _, side, rfl⟩ := session_cases done
  have bound := awaited.outstanding
  cases side with
  | starts handler fresh started reading reads =>
      obtain ⟨idle, unarmed⟩ := awaited.fresh fresh
      refine ⟨fun stored => awaited.stored (handler ▸ stored), awaited.below, awaited.mask, ?_,
        fun unstarted => ?_, fun _ _ => .inl reading⟩
      · change session.reads + s.armed.isSome.toNat ≤ 1
        rw [reads, idle, unarmed]
        exact Nat.le_refl 1
      · cases started.symm.trans unstarted
  | completes handler started goes outstanding reads =>
      refine ⟨fun stored => awaited.stored (handler ▸ stored), awaited.below, awaited.mask, ?_,
        fun unstarted => ?_, fun _ opened => .inl ?_⟩
      · exact Nat.le_trans (Nat.add_le_add_right reads _) bound
      · have idle := (awaited.fresh (started.symm.trans unstarted)).1
        omega
      · exact goes.resolve_left fun closed => Bool.false_ne_true (opened.symm.trans closed)
  | stores handler started reads =>
      refine ⟨fun _ => ⟨rfl, .inr rfl⟩, fun _ => ⟨rfl, rfl⟩,
        fun mask waiting => (Option.some.inj waiting).symm, ?_, fun unstarted => ?_,
        fun _ _ => .inr rfl⟩
      · change session.reads + 1 ≤ 1
        omega
      · have idle := (awaited.fresh (started.symm.trans unstarted)).1
        omega
  | unread unread =>
      have handler := congrArg AsioBuffer.handler unread.readBuffer
      refine ⟨fun stored => awaited.stored (handler ▸ stored), awaited.below, awaited.mask, ?_,
        fun unstarted => ?_, fun started opened => ?_⟩
      · change session.reads + s.armed.isSome.toNat ≤ 1
        rw [unread.reads]
        exact bound
      · change session.reads = 0 ∧ s.armed = none
        rw [unread.reads]
        exact awaited.fresh (unread.started.symm.trans unstarted)
      · change session.reading = true ∨ _
        rw [unread.reading]
        refine awaited.goes (unread.started.symm.trans started) ?_
        cases flag : s.session.closeFlag with
        | false => rfl
        | true => cases (unread.closeFlag flag).symm.trans opened

theorem step_awaited {s s' : Rearming} (awaited : s.Awaited settings) {move : Move}
    (own : move.Own) (done : s.step settings move = some s') : s'.Awaited settings := by
  cases move with
  | retrieve len =>
      rw [step] at done
      split at done
      · next place =>
          obtain ⟨taken, takes, rfl⟩ := Option.map_eq_some_iff.mp done
          refine ⟨fun stored => ?_, by rintro ⟨⟩, awaited.mask, awaited.outstanding,
            awaited.fresh, awaited.goes⟩
          have before : s.session.readBuffer.handler.1 = true :=
            AsioBuffer.takeBytes_handler takes ▸ stored
          obtain ⟨resumes, waits⟩ := awaited.waits before (by rw [place]; rintro ⟨⟩)
          exact ⟨resumes, .inr waits⟩
      · cases done
  | test =>
      rw [step] at done
      split at done
      · next place =>
          cases done
          have away : s.place ≠ .invoked := by
            rw [place]
            rintro ⟨⟩
          refine ⟨fun stored => ?_, fun below => ?_, awaited.mask, awaited.outstanding,
            awaited.fresh, awaited.goes⟩
          · obtain ⟨resumes, waits⟩ := awaited.waits stored away
            exact ⟨resumes, .inr waits⟩
          · change (if s.session.readBuffer.belowMask then RetrievePlace.below else .outside) =
              .below at below
            split at below
            · next tested => exact awaited.waits (Bool.and_eq_true_iff.mp tested).1 away
            · cases below
      · cases done
  | invoke =>
      rw [step] at done
      split at done
      · next place =>
          cases done
          obtain ⟨resumes, waits⟩ := awaited.below place
          have bound := awaited.outstanding
          rw [waits] at bound
          simp only [resumes, if_true]
          refine ⟨fun _ => ⟨rfl, .inl rfl⟩, by rintro ⟨⟩, by simp, ?_, fun unstarted => ?_,
            fun _ _ => .inl rfl⟩
          · exact bound
          · rw [(awaited.fresh unstarted).2] at waits
            cases waits
      · cases done
  | clearHandler =>
      rw [step] at done
      split at done
      · cases done
        exact ⟨fun stored => absurd stored Bool.false_ne_true, by rintro ⟨⟩, awaited.mask,
          awaited.outstanding, awaited.fresh, awaited.goes⟩
      · cases done
  | clearMask =>
      rw [step] at done
      split at done
      · next place =>
          cases done
          refine ⟨fun stored => ?_, by rintro ⟨⟩, awaited.mask, awaited.outstanding,
            awaited.fresh, awaited.goes⟩
          obtain ⟨resumes, waits⟩ := awaited.waits stored (by rw [place]; rintro ⟨⟩)
          exact ⟨resumes, .inr waits⟩
      · cases done
  | setNotify mask => cases own
  | session action => exact session_awaited awaited done

/-- Whatever the order of the moves, a session that alone stores handlers stores none over
one that waits. -/
theorem stores_unarmed {moves : List Move} {s s' : Rearming}
    (run : Reached (fun _ move => move.Own) (Steps settings) create moves s)
    {action : Session.Action} (stores : s.Stores settings action)
    (done : s.step settings (.session action) = some s') : s.armed = none := by
  have awaited : s.Awaited settings :=
    run.invariant_all (fun s move s' inv own done => step_awaited inv own done) create_awaited
  obtain ⟨session, calls, same, side, _⟩ := session_cases done
  rw [Stores, same] at stores
  cases side with
  | starts _ _ _ _ _ => cases stores
  | completes _ _ _ _ _ => cases stores
  | stores _ _ reads => exact awaited.unarmed (by omega)
  | unread _ => cases stores

/-- Where nothing is stored between the invocation and the clearing, and only the session
stores handlers: an open session that was started reads, or the buffer stores its handler
with its mask. -/
theorem paused_is_armed {moves : List Move} {s : Rearming}
    (run : Reached (fun _ move => move.Own) (Steps settings) create moves s)
    (meets : Along (fun _ move => move.Own) (Steps settings) Undisturbed create moves)
    (started : s.session.started = true) (opened : s.session.closeFlag = false) :
    s.session.reading = true ∨
      s.session.readBuffer.handler = (true, settings.readHighWaterMask) := by
  have invariant : s.NotLost ∧ s.Awaited settings :=
    run.invariant (I := fun s => s.NotLost ∧ s.Awaited settings)
      (fun s move s' inv own undisturbed done =>
        ⟨((keepsArmed_iff inv.1 move).mpr undisturbed s' done).1, step_awaited inv.2 own done⟩)
      meets ⟨create_notLost, create_awaited⟩
  obtain ⟨kept, awaited⟩ := invariant
  refine (awaited.goes started opened).imp_right fun waits => ?_
  obtain ⟨mask, armed⟩ := Option.isSome_iff_exists.mp waits
  rw [kept mask armed, awaited.mask mask armed]

end Rearming

end FysobEngine.Net
