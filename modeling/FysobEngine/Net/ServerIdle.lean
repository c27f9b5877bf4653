import FysobEngine.Net.IoServicePool
import FysobEngine.Net.SessionHandles

/-!
# The idle check of a server

A session of a server lives a run of its own, so that its `handle_count_` counts what it
counts in every such run. The idle check closes the sessions that have decoded what they
have read and are writing nothing.
-/

namespace FysobEngine.Net.Server

open Foundation.Runs

variable {β : Type} {settings : Settings}

/-! ## The run of a session -/

section Alone

variable [SessionBuffer β]

/-- A session has gone through a run that has these steps in it. -/
def Lives (settings : Settings) (before after : Session β) (given : List Session.Action) : Prop :=
  ∃ actions, given ⊆ actions ∧ Reached (fun _ _ => True)
    (Session.Steps { settings with closeHandler := true }) before actions after

theorem Lives.refl (session : Session β) : Lives settings session session [] :=
  ⟨[], fun _ member => member, .nil session⟩

theorem Lives.trans {first middle last : Session β} {given more : List Session.Action}
    (before : Lives settings first middle given) (behind : Lives settings middle last more) :
    Lives settings first last (given ++ more) := by
  obtain ⟨actions, covers, run⟩ := before
  obtain ⟨later, coversMore, runs⟩ := behind
  refine ⟨actions ++ later, List.append_subset.mpr ⟨?_, ?_⟩, run.append runs⟩
  · exact List.Subset.trans covers (List.subset_append_left actions later)
  · exact List.Subset.trans coversMore (List.subset_append_right actions later)

theorem Lives.step {before after : Session β} {action : Session.Action}
    (step : before.Steps { settings with closeHandler := true } action after) :
    Lives settings before after [action] :=
  ⟨[action], fun _ member => member, .cons trivial step (.nil after)⟩

/-- The steps that an action of the server gives to one of its sessions. -/
def Action.given (number : Nat) : Action → List Session.Action
  | .session other action => if other = number then [action] else []
  | .handleAccept _ | .acceptAgain | .drawId | .handleCheckIdle => []

/-- The session of this number goes on from a session of the server, or is accepted. -/
def Continues (settings : Settings) (s : Server β) (id number : Nat) (after : Session β)
    (given : List Session.Action) : Prop :=
  (∃ before, s.sessions[number]? = some (id, before) ∧ Lives settings before after given) ∨
    s.sessions.length ≤ number ∧ Lives settings Session.create after given

theorem sessionStep_continues {s s' : Server β} {number other id : Nat} {action : Session.Action}
    {after : Session β} (done : s.sessionStep settings other action = some s')
    (found : s'.sessions[number]? = some (id, after)) :
    ∃ before, s.sessions[number]? = some (id, before) ∧
      Lives settings before after (if other = number then [action] else []) := by
  obtain ⟨own, before, stepped, here, step, rfl⟩ := sessionStep_cases done
  rw [(closeSessions_drops _ _).sessions] at found
  rcases getElem?_set_cases here found with ⟨rfl, rfl, rfl⟩ | ⟨apart, same⟩
  · rw [if_pos rfl]
    exact ⟨before, here, Lives.step step⟩
  · rw [if_neg (Ne.symm apart)]
    exact ⟨after, same, Lives.refl after⟩

theorem checkIdleSession_continues {s : Server β} {turn own number id : Nat} {after : Session β}
    (found : (s.checkIdleSession turn own).sessions[number]? = some (id, after)) :
    ∃ before, s.sessions[number]? = some (id, before) ∧ Lives settings before after [] := by
  unfold checkIdleSession at found
  split at found
  · rename_i first before here
    split at found
    · rcases getElem?_set_cases here found with ⟨rfl, rfl, rfl⟩ | ⟨_, same⟩
      · have closed : before.Steps { settings with closeHandler := true } .close before.close := rfl
        obtain ⟨actions, _, run⟩ := Lives.step closed
        exact ⟨before, here, actions, List.nil_subset actions, run⟩
      · exact ⟨after, same, Lives.refl after⟩
    · exact ⟨after, found, Lives.refl after⟩
  · exact ⟨after, found, Lives.refl after⟩

theorem checkIdle_continues (entries : List (Sigma fun _ : Nat => Nat)) {s : Server β}
    {number id : Nat} {after : Session β}
    (found : (entries.foldl (fun s entry =>
      s.checkIdleSession entry.1 entry.2) s).sessions[number]? = some (id, after)) :
    ∃ before, s.sessions[number]? = some (id, before) ∧ Lives settings before after [] := by
  induction entries generalizing s with
  | nil => exact ⟨after, found, Lives.refl after⟩
  | cons entry rest ih =>
      obtain ⟨middle, there, later⟩ := ih found
      obtain ⟨before, here, first⟩ := checkIdleSession_continues there
      exact ⟨before, here, first.trans later⟩

theorem step_continues {s s' : Server β} {action : Action} {number id : Nat} {after : Session β}
    (step : s.Steps settings action s') (found : s'.sessions[number]? = some (id, after)) :
    s.Continues settings id number after (action.given number) := by
  cases action with
  | handleAccept connect =>
      obtain ⟨middle, done, result⟩ := Option.bind_eq_some_iff.mp step
      cases result
      obtain ⟨before, there, actions, _, run⟩ := sessionStep_continues done found
      have lives : Lives settings before after [] := ⟨actions, List.nil_subset actions, run⟩
      rcases Nat.lt_or_ge number s.sessions.length with inside | outside
      · rw [List.getElem?_append_left inside] at there
        exact .inl ⟨before, there, lives⟩
      · -- the session that has just been accepted
        rw [List.getElem?_append_right outside, List.getElem?_singleton] at there
        split at there
        · cases there
          exact .inr ⟨outside, lives⟩
        · cases there
  | acceptAgain =>
      cases step
      exact .inl ⟨after, found, Lives.refl after⟩
  | drawId =>
      cases step
      exact .inl ⟨after, found, Lives.refl after⟩
  | handleCheckIdle =>
      cases step
      exact .inl (checkIdle_continues s.sessionMap.entries found)
  | session other action => exact .inl (sessionStep_continues step found)

/-- A session that is still to be accepted is given no step. -/
theorem step_given {s s' : Server β} {action : Action} {number : Nat}
    (step : s.Steps settings action s') (outside : s.sessions.length ≤ number) :
    action.given number = [] := by
  cases action with
  | session other action =>
      obtain ⟨own, before, after, here, _, _⟩ := sessionStep_cases step
      have inside := (List.getElem?_eq_some_iff.mp here).1
      exact if_neg (Nat.ne_of_lt (Nat.lt_of_lt_of_le inside outside))
  | handleAccept _ => rfl
  | acceptAgain => rfl
  | drawId => rfl
  | handleCheckIdle => rfl

theorem run_continues {s s' : Server β} {actions : List Action} {number id : Nat}
    {after : Session β} (run : Reached (fun _ _ => True) (Steps settings) s actions s')
    (found : s'.sessions[number]? = some (id, after)) :
    s.Continues settings id number after (actions.flatMap (Action.given number)) := by
  induction run with
  | nil s => exact .inl ⟨after, found, Lives.refl after⟩
  | @cons s middle last action rest _ step _ ih =>
      rcases ih found with ⟨before, there, later⟩ | ⟨outside, lives⟩
      · rcases step_continues step there with ⟨first, here, earlier⟩ | ⟨outside, earlier⟩
        · exact .inl ⟨first, here, earlier.trans later⟩
        · exact .inr ⟨outside, earlier.trans later⟩
      · have absent := Nat.le_trans (Nat.le.intro (step_length step).symm) outside
        have none := step_given step absent
        refine .inr ⟨absent, ?_⟩
        rw [List.flatMap_cons, none]
        exact lives

/-- A session of a server lives a run of its own, with the steps that the server has
given to it. -/
theorem session_lives {counter : Nat} {actions : List Action} {s : Server β} {number id : Nat}
    {session : Session β}
    (run : Reached (fun _ _ => True) (Steps settings) (create counter) actions s)
    (found : s.sessions[number]? = some (id, session)) :
    Lives settings Session.create session (actions.flatMap (Action.given number)) := by
  rcases run_continues run found with ⟨before, here, _⟩ | ⟨_, lives⟩
  · cases here
  · exact lives

end Alone

/-! ## The idle check -/

/-- The idle check has told this session to close and has moved it to the other map. -/
structure Moved (s' : Server β) (id number : Nat) (session : Session β) : Prop where
  told : s'.sessions[number]? = some (id, session.close)
  unlisted : s'.sessionMap.lookup id = none
  waits : s'.waitRemoveSessionMap.lookup id = some number

/-- The idle check has left this session where it was. -/
structure Passed (s s' : Server β) (id number : Nat) (session : Session β) : Prop where
  same : s'.sessions[number]? = some (id, session)
  listed : s'.sessionMap.lookup id = some number
  waits : s'.waitRemoveSessionMap.lookup id = s.waitRemoveSessionMap.lookup id

/-- What some turns of the loop have done, for the ids that they were about. -/
structure Checked (s s' : Server β) (ids : List Nat) : Prop where
  turned : ∀ {id number : Nat} {session : Session β}, id ∈ ids →
    s.sessionMap.lookup id = some number → s.sessions[number]? = some (id, session) →
    if session.handleCount = 0 then Moved s' id number session
    else Passed s s' id number session
  sessions : ∀ {number : Nat}, (∀ id ∈ ids, s.sessionMap.lookup id ≠ some number) →
    s'.sessions[number]? = s.sessions[number]?
  listed : ∀ {id : Nat}, id ∉ ids → s'.sessionMap.lookup id = s.sessionMap.lookup id
  waits : ∀ {id : Nat}, id ∉ ids →
    s'.waitRemoveSessionMap.lookup id = s.waitRemoveSessionMap.lookup id

theorem Checked.nil (s : Server β) : Checked s s [] :=
  ⟨fun member => absurd member List.not_mem_nil, fun _ => rfl, fun _ => rfl, fun _ => rfl⟩

/-- One turn is about one id. -/
theorem checkIdleSession_checked {s : Server β} {id number : Nat} (registered : Registered s)
    (listed : s.sessionMap.lookup id = some number) :
    Checked s (s.checkIdleSession id number) [id] := by
  obtain ⟨session, here⟩ := registered.named (.inl listed)
  unfold checkIdleSession
  rw [here]
  dsimp only
  by_cases idle : session.handleCount = 0
  · rw [if_pos idle]
    refine ⟨?_, ?_, ?_, ?_⟩
    · intro other n found member there found'
      obtain rfl := List.mem_singleton.mp member
      obtain rfl := Option.some.inj (listed.symm.trans there)
      obtain rfl : session = found := by
        rw [here] at found'
        cases found'
        rfl
      rw [if_pos idle]
      exact ⟨List.getElem?_set_self (List.getElem?_eq_some_iff.mp here).1,
        AList.lookup_erase _ _, AList.lookup_insert _⟩
    · intro n apart
      refine List.getElem?_set_ne fun same => ?_
      exact apart id List.mem_cons_self (same ▸ listed)
    · intro other apart
      exact AList.lookup_erase_ne fun same => apart (List.mem_singleton.mpr same)
    · intro other apart
      exact AList.lookup_insert_ne fun same => apart (List.mem_singleton.mpr same)
  · rw [if_neg idle]
    refine ⟨?_, fun _ => rfl, fun _ => rfl, fun _ => rfl⟩
    intro other n found member there found'
    obtain rfl := List.mem_singleton.mp member
    obtain rfl := Option.some.inj (listed.symm.trans there)
    obtain rfl : session = found := by
      rw [here] at found'
      cases found'
      rfl
    rw [if_neg idle]
    exact ⟨here, listed, rfl⟩

/-- The map names a session under its own id only. -/
theorem Registered.apart {s : Server β} (registered : Registered s) {id other number : Nat}
    (listed : s.sessionMap.lookup id = some number)
    (there : s.sessionMap.lookup other = some number) : id = other := by
  obtain ⟨session, here⟩ := registered.named (.inl listed)
  obtain ⟨session', here'⟩ := registered.named (.inl there)
  rw [here] at here'
  cases here'
  rfl

/-- A turn and the turns behind it, which are about other ids. -/
theorem Checked.cons {s middle s' : Server β} {id : Nat} {ids : List Nat}
    (registered : Registered s) (first : Checked s middle [id]) (later : Checked middle s' ids)
    (fresh : id ∉ ids) : Checked s s' (id :: ids) := by
  have other : ∀ {n : Nat}, n ∈ ids → n ∉ [id] := fun member same =>
    fresh (List.mem_singleton.mp same ▸ member)
  refine ⟨?_, ?_, ?_, ?_⟩
  · intro own number session member listed here
    rcases List.mem_cons.mp member with rfl | member
    · -- the later turns leave this session alone
      have turned := first.turned List.mem_cons_self listed here
      have kept : s'.sessions[number]? = middle.sessions[number]? := by
        refine later.sessions fun n inside there => ?_
        rw [first.listed (other inside)] at there
        exact fresh (registered.apart there listed ▸ inside)
      split at turned
      · rename_i idle
        rw [if_pos idle]
        exact ⟨kept.trans turned.told, (later.listed fresh).trans turned.unlisted,
          (later.waits fresh).trans turned.waits⟩
      · rename_i busy
        rw [if_neg busy]
        exact ⟨kept.trans turned.same, (later.listed fresh).trans turned.listed,
          (later.waits fresh).trans turned.waits⟩
    · -- the first turn has left this session alone
      have apart := other member
      have kept : middle.sessions[number]? = s.sessions[number]? := by
        refine first.sessions fun n inside there => ?_
        exact apart (registered.apart there listed ▸ inside)
      have turned := later.turned member ((first.listed apart).trans listed) (kept.trans here)
      split at turned
      · rename_i idle
        rw [if_pos idle]
        exact turned
      · rename_i busy
        rw [if_neg busy]
        exact ⟨turned.same, turned.listed, turned.waits.trans (first.waits apart)⟩
  · intro number unlisted
    refine (later.sessions fun n inside there => ?_).trans
      (first.sessions fun n inside there => ?_)
    · rw [first.listed (other inside)] at there
      exact unlisted n (List.mem_cons_of_mem id inside) there
    · exact unlisted n (List.mem_cons.mpr (.inl (List.mem_singleton.mp inside))) there
  · intro n apart
    obtain ⟨notFirst, notLater⟩ := List.ne_and_not_mem_of_not_mem_cons apart
    exact (later.listed notLater).trans
      (first.listed fun same => notFirst (List.mem_singleton.mp same))
  · intro n apart
    obtain ⟨notFirst, notLater⟩ := List.ne_and_not_mem_of_not_mem_cons apart
    exact (later.waits notLater).trans
      (first.waits fun same => notFirst (List.mem_singleton.mp same))

theorem checkIdle_checked (entries : List (Sigma fun _ : Nat => Nat)) {s : Server β}
    (registered : Registered s) (distinct : entries.NodupKeys)
    (listed : ∀ entry ∈ entries, s.sessionMap.lookup entry.1 = some entry.2) :
    Checked s (entries.foldl (fun s entry => s.checkIdleSession entry.1 entry.2) s)
      entries.keys := by
  induction entries generalizing s with
  | nil => exact Checked.nil s
  | cons entry rest ih =>
      obtain ⟨fresh, distinct⟩ := List.nodupKeys_cons.mp distinct
      have here := listed entry List.mem_cons_self
      have turn := checkIdleSession_checked registered here
      have later := ih (checkIdleSession_registered registered here) distinct fun other member => by
        have before := listed other (List.mem_cons_of_mem entry member)
        refine (turn.listed fun same => ?_).trans before
        exact fresh (List.mem_singleton.mp same ▸ List.mem_keys_of_mem member)
      exact turn.cons registered later fresh

variable [SessionBuffer β]

theorem run_orderly {counter : Nat} {actions : List Action} {s : Server β}
    (run : Reached (fun _ _ => True) (Steps settings) (create counter) actions s) :
    Orderly settings s :=
  run.invariant_all (fun _ _ _ orderly _ step => step_orderly orderly step) (create_orderly counter)

theorem session_handles {counter : Nat} {actions : List Action} {s : Server β} {number id : Nat}
    {session : Session β}
    (run : Reached (fun _ _ => True) (Steps settings) (create counter) actions s)
    (found : s.sessions[number]? = some (id, session)) :
    ∃ ended, session.Handles 0 ended ∧
      ((∃ code, .session number (.readDone (.error code)) ∈ actions) → ended ≠ 0) := by
  obtain ⟨own, covers, lived⟩ := session_lives run found
  obtain ⟨ended, _, handles, failed⟩ := Session.run_handles lived Session.create_handles
  refine ⟨ended, handles, fun ⟨code, member⟩ => failed ⟨code, covers ?_⟩⟩
  exact List.mem_flatMap.mpr ⟨_, member, by simp [Action.given]⟩

/-- An idle session that is told to close cancels its read or posts the closing task. -/
theorem idle_close {session : Session β} {ended : Nat}
    (acc : Session.Accounted settings 0 session) (handles : session.Handles 0 ended)
    (idle : session.Idle) :
    session.reading = true ∧ session.close.trace = session.trace ++ [.cancel] ∨
      session.reading = false ∧ .close ∈ session.close.ioQueue := by
  have none := handles.idle.mpr idle
  have count := handles.handles
  have writing : session.writing = false := by
    have flag := acc.writes
    rw [idle.1] at flag
    cases busy : session.writing with
    | false => rfl
    | true =>
        rw [busy] at flag
        cases flag
  have work : session.workReadCount = 0 := by
    rw [acc.work]
    omega
  unfold Session.close Session.closeIfNecessary
  rw [if_pos (by simp [writing, work])]
  cases reading : session.reading with
  | true =>
      rw [if_pos rfl]
      exact .inl ⟨rfl, rfl⟩
  | false =>
      rw [if_neg Bool.false_ne_true]
      exact .inr ⟨rfl, List.mem_append_right _ List.mem_cons_self⟩

/-- In every run of a server, `handle_check_idle` tells exactly those sessions of
`session_map_` to close that have decoded every read that has completed and are writing
nothing, and moves them. They cancel their read or post the closing task. It touches
nothing else. `handle_count_` of any session is 0 exactly then: it is the number of queued
read tasks, of writes and of reads that ended without a read task. A session whose read
has failed is never one of them. -/
theorem idle_checked {counter : Nat} {actions : List Action} {s : Server β}
    (run : Reached (fun _ _ => True) (Steps settings) (create counter) actions s) :
    (∀ id number session, s.sessionMap.lookup id = some number →
      s.sessions[number]? = some (id, session) →
      if session.Idle then
        Moved s.handleCheckIdle id number session ∧
          (session.reading = true ∧ session.close.trace = session.trace ++ [.cancel] ∨
            session.reading = false ∧ .close ∈ session.close.ioQueue)
      else Passed s s.handleCheckIdle id number session) ∧
    (∀ (id number : Nat) (session : Session β), s.sessions[number]? = some (id, session) →
      (session.handleCount = 0 ↔ session.Idle) ∧ ∃ ended, session.Handles 0 ended) ∧
    (∀ number, (∀ id, s.sessionMap.lookup id ≠ some number) →
      s.handleCheckIdle.sessions[number]? = s.sessions[number]?) ∧
    (∀ id, s.sessionMap.lookup id = none → s.handleCheckIdle.sessionMap.lookup id = none ∧
      s.handleCheckIdle.waitRemoveSessionMap.lookup id = s.waitRemoveSessionMap.lookup id) ∧
    ∀ id number session code, s.sessions[number]? = some (id, session) →
      .session number (.readDone (.error code)) ∈ actions → ¬ session.Idle := by
  have orderly := run_orderly run
  have checked : Checked s s.handleCheckIdle s.sessionMap.entries.keys :=
    checkIdle_checked s.sessionMap.entries orderly.registered s.sessionMap.nodupKeys
      fun entry member => AList.mem_lookup_iff.mpr member
  have named : ∀ {id number : Nat}, s.sessionMap.lookup id = some number →
      id ∈ s.sessionMap.entries.keys :=
    fun listed => List.mem_keys_of_mem (AList.mem_lookup_iff.mp listed)
  have unnamed : ∀ {id : Nat}, s.sessionMap.lookup id = none →
      id ∉ s.sessionMap.entries.keys :=
    fun absent => AList.lookup_eq_none.mp absent
  refine ⟨fun id number session listed here => ?_, fun id number session here => ?_,
    fun number unlisted => ?_, fun id absent => ?_,
    fun id number session code here failing idle => ?_⟩
  · obtain ⟨ended, handles, _⟩ := session_handles run here
    have turned := checked.turned (named listed) listed here
    split
    · rename_i idle
      rw [if_pos (handles.idle.mpr idle)] at turned
      exact ⟨turned, idle_close (orderly.sound here).accounted handles idle⟩
    · rename_i busy
      rw [if_neg fun none => busy (handles.idle.mp none)] at turned
      exact turned
  · obtain ⟨ended, handles, _⟩ := session_handles run here
    exact ⟨handles.idle, ended, handles⟩
  · exact checked.sessions fun id _ => unlisted id
  · exact ⟨(checked.listed (unnamed absent)).trans absent, checked.waits (unnamed absent)⟩
  · obtain ⟨ended, handles, failed⟩ := session_handles run here
    have none := handles.idle.mpr idle
    have count := handles.handles
    exact failed ⟨code, failing⟩ (by omega)

/-- A peer whose bytes have arrived, and one that is quiet. -/
def twoGuests : List Action :=
  [.handleAccept [], .handleAccept [], .session 0 (.readDone (.ok [7]))]

theorem twoGuests_checked : ∃ (s : Server AsioBuffer) (busy quiet : Session AsioBuffer),
    last (Server.step ⟨0, 0, false, false⟩) (create 0) twoGuests = some s ∧
      Passed s s.handleCheckIdle 1 0 busy ∧ busy.handleCount ≠ 0 ∧
      Moved s.handleCheckIdle 2 1 quiet ∧ quiet.handleCount = 0 := by
  have runs : (last (Server.step ⟨0, 0, false, false⟩) (create 0 : Server AsioBuffer)
      twoGuests).any (fun s => s.sessions.length = 2 ∧
        s.sessionMap.lookup 1 = some 0 ∧ s.sessionMap.lookup 2 = some 1 ∧
        s.sessions[0]?.any (fun (id, session) => id = 1 ∧ ¬ session.Idle) ∧
        s.sessions[1]?.any (fun (id, session) => id = 2 ∧ session.Idle)) = true := by
    decide +kernel
  obtain ⟨s, run, found⟩ := (Option.any_eq_true _ _).mp runs
  obtain ⟨_, first, second, firstBusy, secondQuiet⟩ := of_decide_eq_true found
  obtain ⟨⟨id, busy⟩, here, facts⟩ := (Option.any_eq_true _ _).mp firstBusy
  obtain ⟨rfl, working⟩ := of_decide_eq_true facts
  obtain ⟨⟨id, quiet⟩, there, facts⟩ := (Option.any_eq_true _ _).mp secondQuiet
  obtain ⟨rfl, idle⟩ := of_decide_eq_true facts
  obtain ⟨checked, counted, _⟩ := idle_checked (reached_last run)
  have passed := checked 1 0 busy first here
  have moved := checked 2 1 quiet second there
  have busyCount := (counted 1 0 busy here).1
  have quietCount := (counted 2 1 quiet there).1
  rw [if_neg working] at passed
  rw [if_pos idle] at moved
  exact ⟨s, busy, quiet, run, passed, mt busyCount.mp working, moved.1, quietCount.mpr idle⟩

end FysobEngine.Net.Server
