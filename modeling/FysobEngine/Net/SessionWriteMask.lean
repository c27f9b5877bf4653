import FysobEngine.Net.AsioBufferMemory
import FysobEngine.Net.SessionWrite

/-!
# The write high-water mark

`notify_write` runs behind every append to the write buffer. It compares the free
bytes of that buffer with the mask, not the bytes that are still to be sent.
-/

namespace FysobEngine.Net

/-- The data that a call of a handler appends at once. -/
def HandlerCall.appends : HandlerCall → List (List UInt8)
  | .write data => [data]
  | .retrieve _ | .postWrite _ | .close => []

namespace Session

open Foundation.Runs
open AsioBuffer

variable {β : Type} {settings : Settings}

section Appends

variable [SessionBuffer β] (settings : Settings)

/-- The appends of some calls of handlers: the session that each one finds, and the data. -/
def appendsIn : List HandlerCall → Session β → List (Session β × List UInt8)
  | [], _ => []
  | call :: rest, s =>
      call.appends.map (s, ·) ++ (s.perform settings call).elim [] (appendsIn rest)

/-- The appends of a step. -/
def appendsAt (s : Session β) : Action → List (Session β × List UInt8)
  | .start connect => appendsIn settings connect (s.note .fireConnect)
  | .runWork decode =>
      match s.workQueue with
      | [] => []
      | .fireRead :: rest => appendsIn settings decode (note { s with workQueue := rest } .fireRead)
      | .write data :: rest => [({ s with workQueue := rest }, data)]
  | .write data => [(s, data)]
  | .readDone _ | .writeDone _ _ | .runIo | .postWrite _ | .close => []

/-- The write high-water handler has been invoked. -/
def Invoked (s s' : Session β) : Prop := s'.trace = s.trace ++ [.writeHighWaterMaskHandler]

end Appends

variable [QueueBuffer β]

/-- The handler is invoked just when the unsent bytes are above the mask. -/
def Reports (settings : Settings) (s : Session β) (data : List UInt8) : Prop :=
  ∀ s', s.append settings data = some s' →
    s'.pendingWriteLen = s'.unsent.length ∧
      (s.Invoked s' ↔ settings.writeHighWaterMask < s'.pendingWriteLen)

def ReportsAt (settings : Settings) (s : Session β) (action : Action) : Prop :=
  ∀ append ∈ appendsAt settings s action, Reports settings append.1 append.2

/-- The counter of the session is that of the buffer. -/
def PendingUnsent (s : Session β) : Prop := s.pendingWriteLen = s.unsent.length

theorem PendingUnsent.adds {s s' : Session β} {data : List UInt8} {posted : List (List UInt8)}
    (pending : s.PendingUnsent) (adds : Adds data posted s s') : s'.PendingUnsent := by
  rw [PendingUnsent, adds.pending, adds.unsent, List.length_append, pending]

/-- What `notify_write` compares. -/
theorem append_invoked (mask : settings.writeHighWaterMask ≠ 0)
    (handler : settings.writeHighWaterMaskHandler = true) {s s' : Session β}
    {data : List UInt8} (done : s.append settings data = some s') :
    s.Invoked s' ↔
      settings.writeHighWaterMask < SessionBuffer.writableBytes s'.writeBuffer := by
  obtain ⟨writeBuffer, -, result⟩ := Option.bind_eq_some_iff.mp done
  cases result
  unfold notifyWrite Invoked
  dsimp only
  split
  · next above => exact iff_of_true rfl above.2.2
  · next below =>
      refine iff_of_false ?_ fun above => below ⟨mask, handler, above⟩
      simp [postIo]

omit [QueueBuffer β] in
theorem append_writeBuffer [SessionBuffer β] {s s' : Session β} {data : List UInt8}
    (done : s.append settings data = some s') :
    SessionBuffer.append s.writeBuffer data = some s'.writeBuffer := by
  obtain ⟨writeBuffer, appended, result⟩ := Option.bind_eq_some_iff.mp done
  cases result
  unfold notifyWrite
  dsimp only
  split
  · exact appended
  · exact appended

/-! ## One append to the block buffer -/

/-- The free bytes that an append leaves, by the counters before it, are above the mask
just when the bytes that are then still to be sent are. -/
def FreeAsPending (settings : Settings) (s : Session LaidOut) (data : List UInt8) : Prop :=
  s.writeBuffer.1.WriteFits (.append data) →
    (settings.writeHighWaterMask < s.writeBuffer.1.freeBehind data.length ↔
      settings.writeHighWaterMask < s.pendingWriteLen + data.length)

instance (settings : Settings) (s : Session LaidOut) (data : List UInt8) :
    Decidable (FreeAsPending settings s data) := by
  unfold FreeAsPending
  infer_instance

/-- So for every append of a step. -/
def FreeAsPendingAt (settings : Settings) (s : Session LaidOut) (action : Action) : Prop :=
  ∀ append ∈ appendsAt settings s action, FreeAsPending settings append.1 append.2

instance (settings : Settings) (s : Session LaidOut) (action : Action) :
    Decidable (FreeAsPendingAt settings s action) := by
  unfold FreeAsPendingAt
  infer_instance

variable (settings) in
/-- An append that fits is done, and leaves these free bytes. -/
theorem append_fits {s : Session LaidOut} {data : List UInt8}
    (fits : s.writeBuffer.1.WriteFits (.append data)) :
    ∃ s', s.append settings data = some s' ∧
      SessionBuffer.writableBytes s'.writeBuffer = s.writeBuffer.1.freeBehind data.length := by
  have layout := s.writeBuffer.2
  have admissible : s.writeBuffer.1.Admissible (.append data) := trivial
  obtain ⟨f, performed, -⟩ := write_some layout admissible rfl fits
  obtain ⟨g, appended, same⟩ := Option.map_eq_some_iff.mp performed
  obtain ⟨writeBuffer, stored, rfl⟩ := LaidOut.append_of_some appended
  have done : s.append settings data =
      some (notifyWrite settings { s with writeBuffer := writeBuffer } data.length) := by
    change (LaidOut.append s.writeBuffer data).bind _ = _
    rw [stored]
    rfl
  refine ⟨_, done, ?_⟩
  have kept := append_writeBuffer done
  have left := append_writableBytes layout (LaidOut.append_some kept)
  exact left

theorem fits_of_append {s s' : Session LaidOut} {data : List UInt8}
    (done : s.append settings data = some s') :
    s.writeBuffer.1.WriteFits (.append data) := by
  have appended := LaidOut.append_some (append_writeBuffer done)
  have performed : s.writeBuffer.1.perform (.append data) = some (s'.writeBuffer.1, []) := by
    rw [AsioBuffer.perform, appended]
    rfl
  have admissible : s.writeBuffer.1.Admissible (.append data) := trivial
  exact fits_of_perform s.writeBuffer.2 admissible performed

theorem reports_iff (mask : settings.writeHighWaterMask ≠ 0)
    (handler : settings.writeHighWaterMaskHandler = true) {s : Session LaidOut}
    (pending : s.PendingUnsent) (data : List UInt8) :
    Reports settings s data ↔ FreeAsPending settings s data := by
  constructor
  · intro reports fits
    obtain ⟨s', done, free⟩ := append_fits settings fits
    have invoked := (reports _ done).2
    rwa [append_invoked mask handler done, free, (append_adds done).pending] at invoked
  · intro compared s' done
    have fits := fits_of_append done
    obtain ⟨again, same, free⟩ := append_fits settings fits
    rw [done, Option.some.injEq] at same
    have adds := append_adds done
    refine ⟨pending.adds adds, ?_⟩
    rw [append_invoked mask handler done, same, free, ← same, adds.pending]
    exact compared fits

/-- As long as no block has been removed, the free bytes are what the unsent bytes and
those before the read position leave of the blocks. -/
theorem freeBehind_of_exact {s : Session LaidOut} (pending : s.PendingUnsent)
    (exact : s.writeBuffer.1.Exact) (active : s.writeBuffer.1.active = true) (len : Nat) :
    s.writeBuffer.1.freeBehind len = leftBehind s.writeBuffer.1.blockSize
      (s.writeBuffer.1.totalBytes - (s.writeBuffer.1.readIndex + s.pendingWriteLen)) len := by
  have layout := s.writeBuffer.2
  have unsent : s.pendingWriteLen = s.writeBuffer.1.readableBytes :=
    pending.trans (content_length layout)
  have whole := availableBytes_of_exact layout exact
  have free : s.writeBuffer.1.availableBytes =
      s.writeBuffer.1.totalBytes - (s.writeBuffer.1.readIndex + s.pendingWriteLen) := by
    rw [unsent]
    omega
  rw [freeBehind, if_pos active, free]

/-! ## The appends of a step -/

theorem appendsIn_pending {calls : List HandlerCall} {s : Session β} (pending : s.PendingUnsent)
    {append : Session β × List UInt8} (member : append ∈ appendsIn settings calls s) :
    append.1.PendingUnsent := by
  induction calls generalizing s with
  | nil => cases member
  | cons call rest ih =>
      rw [appendsIn] at member
      rcases List.mem_append.mp member with here | later
      · obtain ⟨data, -, rfl⟩ := List.mem_map.mp here
        exact pending
      · cases performed : s.perform settings call with
        | none =>
            rw [performed] at later
            cases later
        | some middle =>
            rw [performed] at later
            exact ih (pending.adds (perform_adds performed)) later

theorem appendsAt_pending {s : Session β} (pending : s.PendingUnsent) {action : Action}
    {append : Session β × List UInt8} (member : append ∈ appendsAt settings s action) :
    append.1.PendingUnsent := by
  unfold appendsAt at member
  split at member
  · exact appendsIn_pending (pending.adds (note_adds s .fireConnect rfl)) member
  · split at member
    · cases member
    · next rest _ =>
        have taken : PendingUnsent { s with workQueue := rest } := pending
        exact appendsIn_pending (taken.adds (note_adds _ .fireRead rfl)) member
    · next data rest _ =>
        have taken : PendingUnsent { s with workQueue := rest } := pending
        rw [List.mem_singleton.mp member]
        exact taken
  · rw [List.mem_singleton.mp member]
    exact pending
  all_goals cases member

theorem reportsAt_iff (mask : settings.writeHighWaterMask ≠ 0)
    (handler : settings.writeHighWaterMaskHandler = true) {s : Session LaidOut}
    (pending : s.PendingUnsent) (action : Action) :
    ReportsAt settings s action ↔ FreeAsPendingAt settings s action := by
  refine forall₂_congr fun append member => ?_
  exact reports_iff mask handler (appendsAt_pending pending member) append.2

/-! ## Runs -/

/-- In a run every `notify_write` invokes the handler just when the unsent bytes are
above the mask, exactly when at every append the bytes that it leaves free are above
it just then. -/
theorem along_reports_iff (mask : settings.writeHighWaterMask ≠ 0)
    (handler : settings.writeHighWaterMaskHandler = true) (actions : List Action) :
    Along (fun _ _ => True) (Steps settings) (ReportsAt settings) (create : Session LaidOut)
        actions ↔
      Along (fun _ _ => True) (Steps settings) (FreeAsPendingAt settings)
        (create : Session LaidOut) actions := by
  let I := fun s : Session LaidOut => Accounted settings 0 s ∧ ∃ calls, Written calls s
  have agree : ∀ s action, I s → True →
      (ReportsAt settings s action ↔ FreeAsPendingAt settings s action) := by
    rintro s action ⟨-, calls, written⟩ -
    exact reportsAt_iff mask handler written.pending action
  have keep : ∀ s action s', I s → True → ReportsAt settings s action →
      s.Steps settings action s' → I s' := by
    rintro s action s' ⟨acc, calls, written⟩ - - step
    exact ⟨step_accounted acc step, _, step_written acc written step⟩
  exact along_congr agree keep ⟨create_accounted, _, create_written⟩ actions

/-- A third block is added for 1500 bytes, and a fourth because only 36 would be left. -/
def longWriteRun : List Action := [.start [], .write (List.replicate 1500 0)]

theorem longWriteRun_reported :
    Along (fun _ _ => True) (Steps ⟨0, 100, true, true⟩) (ReportsAt ⟨0, 100, true, true⟩)
      (create : Session LaidOut) longWriteRun :=
  (along_reports_iff (by decide) rfl longWriteRun).mpr (along_of_holdsAlong (by decide +kernel))

/-- A byte is written on an open session. -/
def oneByteRun : List Action := [.start [], .write [65]]

/-- One byte is to be sent, and all but one of the free bytes are still free. -/
theorem oneByteRun_not_reported :
    ¬ Along (fun _ _ => True) (Steps ⟨0, 100, true, true⟩) (ReportsAt ⟨0, 100, true, true⟩)
      (create : Session LaidOut) oneByteRun := by
  intro along
  have runs : (last (Session.step ⟨0, 100, true, true⟩)
      (create : Session LaidOut) [.start []]).any (fun s =>
        (s.append ⟨0, 100, true, true⟩ [65]).any (fun s' =>
          s'.trace = s.trace ++ [.writeHighWaterMaskHandler] ∧ s'.pendingWriteLen = 1)) = true := by
    decide +kernel
  obtain ⟨s, run, found⟩ := (Option.any_eq_true _ _).mp runs
  obtain ⟨s', done, seen⟩ := (Option.any_eq_true _ _).mp found
  obtain ⟨invoked, pending⟩ := of_decide_eq_true seen
  have whole : Along (fun _ _ => True) (Steps ⟨0, 100, true, true⟩)
      (ReportsAt ⟨0, 100, true, true⟩) (create : Session LaidOut)
      ([.start []] ++ [.write [65]]) := along
  have reports := whole.behind (reached_last run) trivial
  have above := (reports (s, [65]) (by simp [appendsAt]) s' done).2.mp invoked
  rw [pending] at above
  exact absurd above (by decide)

end Session

end FysobEngine.Net
