import FysobEngine.Net.ServerIdle
import FysobEngine.Net.SessionLifecycle

/-!
# Which sessions a server keeps

The two maps together name the sessions that have not called their close handler, and
those in `wait_remove_session_map_` are to close.
-/

namespace FysobEngine.Net

namespace Session

variable {β : Type} {settings : Settings} [SessionBuffer β]

/-- The close handler is not called less often behind a step. -/
theorem step_closeHandler_le {s s' : Session β} {action : Action} (set : settings.closeHandler)
    (acc : Accounted settings 0 s) (acc' : Accounted settings 0 s')
    (step : s.Steps settings action s') :
    s.trace.count .closeHandler ≤ s'.trace.count .closeHandler := by
  have before : s.trace.count .closeHandler = s.told.count .fireClosed := by
    rw [acc.notified, if_pos set, told_count]
  have behind : s'.trace.count .closeHandler = s'.told.count .fireClosed := by
    rw [acc'.notified, if_pos set, told_count]
  rw [before, behind]
  rcases step_told acc step with
    ⟨_, _, _, _, connects⟩ | ⟨_, (same | ended) | ⟨_, fired⟩⟩
  · rw [connects, List.count_append]
    exact Nat.le_add_right _ _
  · rw [same]
  · rw [ended, List.count_append]
    exact Nat.le_add_right _ _
  · rw [fired, List.count_append]
    exact Nat.le_add_right _ _

end Session

namespace Server

open Foundation.Runs

variable {β : Type} {settings : Settings}

/-- No session is out of the maps before it has called its close handler, and the
sessions that wait for their removal are to close. -/
structure Exact (s : Server β) : Prop where
  kept : ∀ {id number session}, s.sessions[number]? = some (id, session) → s.OnlyId id number →
    session.trace.count .closeHandler = 0 → s.Keeps id number
  closing : ∀ {id number session}, s.waitRemoveSessionMap.lookup id = some number →
    s.sessions[number]? = some (id, session) → session.closeFlag = true

/-- A call of `close_session` is about one id. -/
theorem closeSession_keeps {s : Server β} {own id number : Nat} (apart : id ≠ own)
    (kept : s.Keeps id number) : (s.closeSession own).Keeps id number := by
  unfold closeSession removeSession
  dsimp only
  split
  · refine kept.imp_right fun waiting => ?_
    exact (AList.lookup_erase_ne apart).trans waiting
  · refine kept.imp_left fun listed => ?_
    exact (AList.lookup_erase_ne apart).trans listed

theorem closeSessions_keeps {s : Server β} {own id number : Nat} (apart : id ≠ own)
    (times : Nat) (kept : s.Keeps id number) :
    ((List.replicate times own).foldl closeSession s).Keeps id number := by
  induction times generalizing s with
  | zero => exact kept
  | succ times ih => exact ih (closeSession_keeps apart kept)

theorem checkIdleSession_exact {s : Server β} {id number : Nat} (registered : Registered s)
    (books : Exact s) (listed : s.sessionMap.lookup id = some number) :
    Exact (s.checkIdleSession id number) := by
  obtain ⟨before, here⟩ := registered.named (.inl listed)
  unfold checkIdleSession
  rw [here]
  dsimp only
  split
  · refine ⟨fun found only silent => ?_, fun waiting found => ?_⟩
    · have own_only := onlyId_of_set here rfl only
      rcases getElem?_set_cases here found with ⟨rfl, rfl, rfl⟩ | ⟨apart, same⟩
      · exact .inr (AList.lookup_insert _)
      · rename_i other n session
        have different : other ≠ id := fun same =>
          apart (own_only number before (same ▸ here)).symm
        refine (books.kept same own_only silent).imp (fun kept => ?_) (fun kept => ?_)
        · exact (AList.lookup_erase_ne different).trans kept
        · exact (AList.lookup_insert_ne different).trans kept
    · rcases getElem?_set_cases here found with ⟨rfl, rfl, rfl⟩ | ⟨apart, same⟩
      · exact (Session.closeIfNecessary_ending _).keeps.closeFlag rfl
      · rename_i other n session
        by_cases again : other = id
        · -- the map names the session that was moved
          subst again
          rw [AList.lookup_insert] at waiting
          exact absurd (Option.some.inj waiting).symm apart
        · rw [AList.lookup_insert_ne again] at waiting
          exact books.closing waiting same
  · exact books

theorem checkIdle_exact (entries : List (Sigma fun _ : Nat => Nat)) {s : Server β}
    (registered : Registered s) (books : Exact s) (distinct : entries.NodupKeys)
    (listed : ∀ entry ∈ entries, s.sessionMap.lookup entry.1 = some entry.2) :
    Exact (entries.foldl (fun s entry => s.checkIdleSession entry.1 entry.2) s) := by
  induction entries generalizing s with
  | nil => exact books
  | cons entry rest ih =>
      obtain ⟨fresh, distinct⟩ := List.nodupKeys_cons.mp distinct
      have here := listed entry List.mem_cons_self
      refine ih (checkIdleSession_registered registered here)
        (checkIdleSession_exact registered books here) distinct fun other member => ?_
      have before := listed other (List.mem_cons_of_mem entry member)
      have apart : other.1 ≠ entry.1 := fun same =>
        fresh (same ▸ List.mem_keys_of_mem member)
      exact (checkIdleSession_lookup s entry.2 apart).trans before

variable [SessionBuffer β]

theorem sessionStep_exact {s s' : Server β} {number : Nat} {action : Session.Action}
    (orderly : Orderly settings s) (books : Exact s)
    (done : s.sessionStep settings number action = some s') : Exact s' := by
  obtain ⟨own, before, after, here, step, rfl⟩ := sessionStep_cases done
  have drops := closeSessions_drops (List.replicate (after.trace.count .closeHandler -
    before.trace.count .closeHandler) own) { s with sessions := s.sessions.set number (own, after) }
  refine ⟨fun found only silent => ?_, fun waiting found => ?_⟩
  · rw [drops.sessions] at found
    have own_only := onlyId_of_set here drops.sessions only
    rcases getElem?_set_cases here found with ⟨rfl, rfl, rfl⟩ | ⟨apart, same⟩
    · -- it has called its close handler neither before nor in this step
      have sound := orderly.sound here
      have grows := Session.step_closeHandler_le rfl sound.accounted
        (Session.step_sound sound step).accounted step
      rw [silent] at grows ⊢
      rw [Nat.zero_sub]
      exact books.kept here own_only (Nat.le_zero.mp grows)
    · rename_i id n session
      have different : id ≠ own := fun same =>
        apart (own_only number before (same ▸ here)).symm
      exact closeSessions_keeps different _ (books.kept same own_only silent)
  · rw [drops.sessions] at found
    have before_waiting := drops.wait waiting
    rcases getElem?_set_cases here found with ⟨rfl, rfl, rfl⟩ | ⟨_, same⟩
    · exact Session.step_closeFlag step (books.closing before_waiting here)
    · exact books.closing before_waiting same

theorem accepted_exact {s : Server β} (registered : Registered s) (books : Exact s) :
    Exact { s with
      sessions := s.sessions ++ [(s.accepting, Session.create)]
      sessionMap := s.sessionMap.insert s.accepting s.sessions.length } := by
  refine ⟨@fun id number session found only silent => ?_, fun waiting found => ?_⟩
  · rcases Nat.lt_or_ge number s.sessions.length with inside | outside
    · have different : id ≠ s.accepting := by
        rintro rfl
        have newest := only s.sessions.length Session.create List.getElem?_concat_length
        exact Nat.ne_of_lt inside newest.symm
      have old_only : s.OnlyId id number := fun other session' there =>
        only other session' (List.getElem?_append_left
          (List.getElem?_eq_some_iff.mp there).1 ▸ there)
      rw [List.getElem?_append_left inside] at found
      refine (books.kept found old_only silent).imp_left fun kept => ?_
      exact (AList.lookup_insert_ne different).trans kept
    · rw [List.getElem?_append_right outside, List.getElem?_singleton] at found
      split at found
      · rename_i last
        cases found
        have newest : number = s.sessions.length :=
          Nat.le_antisymm (Nat.sub_eq_zero_iff_le.mp last) outside
        subst newest
        exact .inl (AList.lookup_insert _)
      · cases found
  · have inside := registered.inside (.inr waiting)
    rw [List.getElem?_append_left inside] at found
    exact books.closing waiting found

theorem step_exact {s s' : Server β} {action : Action} (orderly : Orderly settings s)
    (books : Exact s) (step : s.Steps settings action s') : Exact s' := by
  cases action with
  | handleAccept connect =>
      obtain ⟨middle, done, result⟩ := Option.bind_eq_some_iff.mp step
      cases result
      have accepted : Orderly settings { s with
          sessions := s.sessions ++ [(s.accepting, Session.create)]
          sessionMap := s.sessionMap.insert s.accepting s.sessions.length } :=
        ⟨accepted_registered orderly.registered, accepted_sound orderly.sound⟩
      have started :=
        sessionStep_exact accepted (accepted_exact orderly.registered books) done
      exact ⟨started.kept, started.closing⟩
  | acceptAgain =>
      cases step
      exact ⟨books.kept, books.closing⟩
  | drawId =>
      cases step
      exact ⟨books.kept, books.closing⟩
  | handleCheckIdle =>
      cases step
      exact checkIdle_exact s.sessionMap.entries orderly.registered books s.sessionMap.nodupKeys
        fun entry member => AList.mem_lookup_iff.mpr member
  | session number action => exact sessionStep_exact orderly books step

/-- In every run of a server, a session whose id is its own is in one of the two maps, in
one only, exactly as long as its close handler has not been called; and what is in
`wait_remove_session_map_` is to close. -/
theorem maps_exact {counter : Nat} {actions : List Action} {s : Server β}
    (run : Reached (fun _ _ => True) (Steps settings) (create counter) actions s) :
    (∀ id number session, s.sessions[number]? = some (id, session) → s.OnlyId id number →
      (s.Keeps id number ↔ session.trace.count .closeHandler = 0)) ∧
    (∀ id number, s.sessionMap.lookup id = some number →
      s.waitRemoveSessionMap.lookup id ≠ some number) ∧
    ∀ id number, s.waitRemoveSessionMap.lookup id = some number →
      ∃ session, s.sessions[number]? = some (id, session) ∧ session.closeFlag = true := by
  have reached : Orderly settings s ∧ Exact s := by
    refine run.invariant_all (I := fun s => Orderly settings s ∧ Exact s)
      (fun s a s' ⟨orderly, books⟩ _ step =>
        ⟨step_orderly orderly step, step_exact orderly books step⟩) ?_
    refine ⟨create_orderly counter, fun found => ?_, fun _ found => ?_⟩
    · simp [create, accept] at found
    · simp [create, accept] at found
  obtain ⟨orderly, books⟩ := reached
  refine ⟨fun id number session here only => ⟨?_, ?_⟩, fun id number listed => ?_,
    fun id number waiting => ?_⟩
  · exact orderly.registered.kept here only
  · exact books.kept here only
  · exact orderly.registered.once listed
  · obtain ⟨session, here⟩ := orderly.registered.named (.inr waiting)
    exact ⟨session, here, books.closing waiting here⟩

/-- A peer that leaves, and one that is told to leave. -/
def leavingGuests : List Action :=
  [.handleAccept [], .handleAccept [], .session 0 (.readDone (.ok [7])), .handleCheckIdle,
    .session 0 (.readDone (.error .eof)), .session 0 (.runWork []), .session 0 .runIo]

theorem leavingGuests_exact : ∃ s : Server AsioBuffer,
    last (Server.step ⟨0, 0, false, false⟩) (create 0) leavingGuests = some s ∧
      ¬ s.Keeps 1 0 ∧ s.waitRemoveSessionMap.lookup 2 = some 1 ∧
      ∃ session, s.sessions[1]? = some (2, session) ∧ session.closeFlag = true := by
  have runs : (last (Server.step ⟨0, 0, false, false⟩) (create 0 : Server AsioBuffer)
      leavingGuests).any (fun s => s.sessions.length = 2 ∧
        s.waitRemoveSessionMap.lookup 2 = some 1 ∧
        s.sessions[0]?.any (fun (id, session) =>
          id = 1 ∧ session.trace.count .closeHandler = 1) ∧
        s.sessions[1]?.any (fun (id, _) => id = 2)) = true := by
    decide +kernel
  obtain ⟨s, run, found⟩ := (Option.any_eq_true _ _).mp runs
  obtain ⟨two, waiting, first, second⟩ := of_decide_eq_true found
  obtain ⟨⟨id, session⟩, here, facts⟩ := (Option.any_eq_true _ _).mp first
  obtain ⟨rfl, called⟩ := of_decide_eq_true facts
  obtain ⟨⟨id, other⟩, there, facts⟩ := (Option.any_eq_true _ _).mp second
  obtain rfl := of_decide_eq_true facts
  have only : s.OnlyId 1 0 := by
    intro number session' found
    have inside := (List.getElem?_eq_some_iff.mp found).1
    rw [two] at inside
    match number, inside with
    | 0, _ => rfl
    | 1, _ =>
        rw [there] at found
        cases found
  obtain ⟨exactly, _, closing⟩ := maps_exact (reached_last run)
  refine ⟨s, run, fun kept => ?_, waiting, closing 2 1 waiting⟩
  rw [(exactly 1 0 session here only).mp kept] at called
  cases called

end Server

end FysobEngine.Net
