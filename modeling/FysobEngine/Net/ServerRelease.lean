import FysobEngine.Net.ServerIds

/-!
# A server lets its closed sessions go

A session is in one of the two maps, under its own id, until its close handler
has been called. A finished session has called it.
-/

namespace FysobEngine.Net.Server

open Foundation.Runs

variable {β : Type} {settings : Settings}

/-! ## What the maps say -/

/-- The maps name accepted sessions under their ids, each at most once. A session
whose id is its own is in a map only before its close handler is called. -/
structure Registered (s : Server β) : Prop where
  named : ∀ {id number}, s.Keeps id number → ∃ session, s.sessions[number]? = some (id, session)
  once : ∀ {id number}, s.sessionMap.lookup id = some number →
    s.waitRemoveSessionMap.lookup id ≠ some number
  kept : ∀ {id number session}, s.sessions[number]? = some (id, session) →
    s.OnlyId id number → s.Keeps id number → session.trace.count .closeHandler = 0

/-- Entries have been taken out of the maps. -/
structure Drops (s s' : Server β) : Prop where
  sessions : s'.sessions = s.sessions
  sessionMap : ∀ {id number}, s'.sessionMap.lookup id = some number →
    s.sessionMap.lookup id = some number
  wait : ∀ {id number}, s'.waitRemoveSessionMap.lookup id = some number →
    s.waitRemoveSessionMap.lookup id = some number

theorem Drops.refl (s : Server β) : Drops s s := ⟨rfl, id, id⟩

theorem Drops.trans {s middle s' : Server β} (first : Drops s middle) (second : Drops middle s') :
    Drops s s' :=
  ⟨second.sessions.trans first.sessions, fun found => first.sessionMap (second.sessionMap found),
    fun found => first.wait (second.wait found)⟩

theorem Drops.keeps {s s' : Server β} (drops : Drops s s') {id number : Nat}
    (kept : s'.Keeps id number) : s.Keeps id number :=
  kept.imp drops.sessionMap drops.wait

theorem lookup_of_erase {map : SessionMap} {id other number : Nat}
    (found : (map.erase id).lookup other = some number) : map.lookup other = some number := by
  by_cases same : other = id
  · rw [same, AList.lookup_erase] at found
    cases found
  · rwa [AList.lookup_erase_ne same] at found

theorem closeSession_drops (s : Server β) (id : Nat) : Drops s (s.closeSession id) := by
  unfold closeSession removeSession
  dsimp only
  split
  · exact ⟨rfl, fun found => found, lookup_of_erase⟩
  · exact ⟨rfl, lookup_of_erase, fun found => found⟩

theorem closeSessions_drops (ids : List Nat) (s : Server β) :
    Drops s (ids.foldl closeSession s) := by
  induction ids generalizing s with
  | nil => exact Drops.refl s
  | cons id rest ih => exact (closeSession_drops s id).trans (ih _)

/-- One call takes out a session that is in one map only. -/
theorem closeSession_releases {s : Server β} {id number : Nat}
    (once : s.sessionMap.lookup id = some number → s.waitRemoveSessionMap.lookup id ≠ some number)
    (named : ∀ other, s.waitRemoveSessionMap.lookup id = some other → other = number) :
    ¬ (s.closeSession id).Keeps id number := by
  unfold closeSession removeSession
  dsimp only
  split
  · rename_i other waiting
    rintro (found | found)
    · exact once found (named other waiting ▸ waiting)
    · rw [AList.lookup_erase] at found
      cases found
  · rename_i absent
    rintro (found | found)
    · rw [AList.lookup_erase] at found
      cases found
    · rw [absent] at found
      cases found

/-- Sessions that keep their ids, and of which one has taken a step. -/
theorem getElem?_set_cases {sessions : List (Nat × Session β)} {number other id own : Nat}
    {before after session : Session β} (here : sessions[number]? = some (own, before))
    (found : (sessions.set number (own, after))[other]? = some (id, session)) :
    other = number ∧ id = own ∧ session = after ∨
      other ≠ number ∧ sessions[other]? = some (id, session) := by
  by_cases same : other = number
  · subst same
    rw [List.getElem?_set_self (List.getElem?_eq_some_iff.mp here).1] at found
    cases found
    exact .inl ⟨rfl, rfl, rfl⟩
  · rw [List.getElem?_set_ne (Ne.symm same)] at found
    exact .inr ⟨same, found⟩

theorem getElem?_set_id {sessions : List (Nat × Session β)} {number other id own : Nat}
    {before session : Session β} (after : Session β) (here : sessions[number]? = some (own, before))
    (found : sessions[other]? = some (id, session)) :
    ∃ session', (sessions.set number (own, after))[other]? = some (id, session') := by
  by_cases same : other = number
  · subst same
    rw [here] at found
    cases found
    exact ⟨after, List.getElem?_set_self (List.getElem?_eq_some_iff.mp here).1⟩
  · exact ⟨session, by rw [List.getElem?_set_ne (Ne.symm same), found]⟩

/-- An id that is its session's own behind a step was so before. -/
theorem onlyId_of_set {s : Server β} {sessions : List (Nat × Session β)} {number other id own : Nat}
    {before after : Session β} (here : s.sessions[number]? = some (own, before))
    (kept : sessions = s.sessions.set number (own, after))
    (only : ∀ n session, sessions[n]? = some (id, session) → n = other) : s.OnlyId id other := by
  intro n session found
  obtain ⟨session', again⟩ := getElem?_set_id after here found
  exact only n session' (kept ▸ again)

/-- A session has taken a step and called `close_session` for each new call of
its close handler. -/
theorem stepped_registered {s : Server β} {number own : Nat} {before after : Session β}
    (registered : Registered s) (here : s.sessions[number]? = some (own, before)) :
    Registered ((List.replicate (after.trace.count .closeHandler -
        before.trace.count .closeHandler) own).foldl closeSession
      { s with sessions := s.sessions.set number (own, after) }) := by
  have drops := closeSessions_drops (List.replicate (after.trace.count .closeHandler -
    before.trace.count .closeHandler) own) { s with sessions := s.sessions.set number (own, after) }
  refine ⟨fun kept => ?_, fun found waiting => ?_, @fun id other session found only kept => ?_⟩
  · obtain ⟨session, named⟩ := registered.named (drops.keeps kept)
    rw [drops.sessions]
    exact getElem?_set_id _ here named
  · exact registered.once (drops.sessionMap found) (drops.wait waiting)
  · rw [drops.sessions] at found
    have own_only := onlyId_of_set here drops.sessions only
    rcases getElem?_set_cases here found with ⟨rfl, rfl, rfl⟩ | ⟨_, same⟩
    · cases calls : session.trace.count .closeHandler - before.trace.count .closeHandler with
      | zero =>
          have silent := registered.kept here own_only (drops.keeps kept)
          exact Nat.eq_zero_of_le_zero (silent ▸ Nat.le_of_sub_eq_zero calls)
      | succ more =>
          rw [calls, List.replicate_succ, List.foldl_cons] at kept
          have still := (closeSessions_drops _ _).keeps kept
          refine absurd still (closeSession_releases registered.once fun other waiting => ?_)
          obtain ⟨session', found⟩ := registered.named (.inr waiting)
          exact own_only other session' found
    · exact registered.kept same own_only (drops.keeps kept)

theorem close_closeHandler (s : Session β) :
    s.close.trace.count .closeHandler = s.trace.count .closeHandler := by
  unfold Session.close Session.closeIfNecessary
  split
  · split
    · exact Session.count_note _ _ _
    · rfl
  · rfl

theorem checkIdleSession_registered {s : Server β} {id number : Nat} (registered : Registered s)
    (listed : s.sessionMap.lookup id = some number) :
    Registered (s.checkIdleSession id number) := by
  obtain ⟨before, here⟩ := registered.named (.inl listed)
  unfold checkIdleSession
  rw [here]
  dsimp only
  split
  · -- the session moves from one map to the other
    have moved : ∀ {other n : Nat}, Keeps { s with
        waitRemoveSessionMap := s.waitRemoveSessionMap.insert id number
        sessions := s.sessions.set number (id, before.close)
        sessionMap := s.sessionMap.erase id } other n → s.Keeps other n := by
      rintro other n (found | found)
      · exact .inl (lookup_of_erase found)
      · by_cases same : other = id
        · subst same
          rw [AList.lookup_insert] at found
          exact .inl (found ▸ listed)
        · rw [AList.lookup_insert_ne same] at found
          exact .inr found
    refine ⟨fun kept => ?_, fun found waiting => ?_, fun found only kept => ?_⟩
    · obtain ⟨session, named⟩ := registered.named (moved kept)
      exact getElem?_set_id _ here named
    · rename_i other n
      by_cases same : other = id
      · subst same
        rw [AList.lookup_erase] at found
        cases found
      · rw [AList.lookup_insert_ne same] at waiting
        exact registered.once (lookup_of_erase found) waiting
    · have own_only := onlyId_of_set here rfl only
      rcases getElem?_set_cases here found with ⟨rfl, rfl, rfl⟩ | ⟨_, same⟩
      · rw [close_closeHandler]
        exact registered.kept here own_only (moved kept)
      · exact registered.kept same own_only (moved kept)
  · exact registered

theorem checkIdleSession_lookup (s : Server β) (number : Nat) {id other : Nat}
    (apart : other ≠ id) :
    (s.checkIdleSession id number).sessionMap.lookup other = s.sessionMap.lookup other := by
  unfold checkIdleSession
  split
  · split
    · exact AList.lookup_erase_ne apart
    · rfl
  · rfl

/-- The loop of `handle_check_idle` runs through entries that are still there. -/
theorem checkIdle_registered (entries : List (Sigma fun _ : Nat => Nat)) {s : Server β}
    (registered : Registered s) (distinct : entries.NodupKeys)
    (listed : ∀ entry ∈ entries, s.sessionMap.lookup entry.1 = some entry.2) :
    Registered (entries.foldl (fun s entry => s.checkIdleSession entry.1 entry.2) s) := by
  induction entries generalizing s with
  | nil => exact registered
  | cons entry rest ih =>
      obtain ⟨fresh, distinct⟩ := List.nodupKeys_cons.mp distinct
      have here := listed entry List.mem_cons_self
      refine ih (checkIdleSession_registered registered here) distinct fun other member => ?_
      have before := listed other (List.mem_cons_of_mem entry member)
      have apart : other.1 ≠ entry.1 := by
        intro same
        exact fresh (same ▸ List.mem_keys_of_mem member)
      exact (checkIdleSession_lookup s entry.2 apart).trans before

theorem handleCheckIdle_registered {s : Server β} (registered : Registered s) :
    Registered s.handleCheckIdle := by
  refine checkIdle_registered s.sessionMap.entries registered s.sessionMap.nodupKeys ?_
  exact fun entry member => AList.mem_lookup_iff.mpr member

/-! ## The steps -/

variable [SessionBuffer β]

/-- Every session of a server is one that can be reached. -/
def SessionsSound (settings : Settings) (s : Server β) : Prop :=
  ∀ {id number : Nat} {session : Session β}, s.sessions[number]? = some (id, session) →
    Session.Sound { settings with closeHandler := true } session

theorem sessionStep_cases {s s' : Server β} {number : Nat} {action : Session.Action}
    (done : s.sessionStep settings number action = some s') :
    ∃ own before after, s.sessions[number]? = some (own, before) ∧
      before.Steps { settings with closeHandler := true } action after ∧
      s' = (List.replicate (after.trace.count .closeHandler -
          before.trace.count .closeHandler) own).foldl closeSession
        { s with sessions := s.sessions.set number (own, after) } := by
  obtain ⟨⟨own, before⟩, here, rest⟩ := Option.bind_eq_some_iff.mp done
  obtain ⟨after, step, result⟩ := Option.bind_eq_some_iff.mp rest
  exact ⟨own, before, after, here, step, (Option.some.inj result).symm⟩

theorem sessionStep_registered {s s' : Server β} {number : Nat} {action : Session.Action}
    (registered : Registered s) (done : s.sessionStep settings number action = some s') :
    Registered s' := by
  obtain ⟨own, before, after, here, _, rfl⟩ := sessionStep_cases done
  exact stepped_registered registered here

theorem sessionStep_sound {s s' : Server β} {number : Nat} {action : Session.Action}
    (sound : SessionsSound settings s) (done : s.sessionStep settings number action = some s') :
    SessionsSound settings s' := by
  obtain ⟨own, before, after, here, step, rfl⟩ := sessionStep_cases done
  intro id other session found
  rw [(closeSessions_drops _ _).sessions] at found
  rcases getElem?_set_cases here found with ⟨_, _, rfl⟩ | ⟨_, same⟩
  · exact Session.step_sound (sound here) step
  · exact sound same

theorem checkIdleSession_sound {s : Server β} (sound : SessionsSound settings s)
    (id number : Nat) : SessionsSound settings (s.checkIdleSession id number) := by
  unfold checkIdleSession
  split
  · rename_i own before here
    split
    · intro other n session found
      rcases getElem?_set_cases here found with ⟨_, _, rfl⟩ | ⟨_, same⟩
      · have closed : before.Steps { settings with closeHandler := true } .close
            before.close := rfl
        exact Session.step_sound (sound here) closed
      · exact sound same
    · exact sound
  · exact sound

theorem handleCheckIdle_sound {s : Server β} (sound : SessionsSound settings s) :
    SessionsSound settings s.handleCheckIdle := by
  unfold handleCheckIdle
  generalize s.sessionMap.entries = entries
  induction entries generalizing s with
  | nil => exact sound
  | cons entry rest ih => exact ih (checkIdleSession_sound sound entry.1 entry.2)

omit [SessionBuffer β] in
/-- The maps name no session that is still to be accepted. -/
theorem Registered.inside {s : Server β} (registered : Registered s) {id number : Nat}
    (kept : s.Keeps id number) : number < s.sessions.length := by
  obtain ⟨session, found⟩ := registered.named kept
  exact (List.getElem?_eq_some_iff.mp found).1

/-- A session that has just been accepted is in `session_map_`. -/
theorem accepted_registered {s : Server β} (registered : Registered s) :
    Registered { s with
      sessions := s.sessions ++ [(s.accepting, Session.create)]
      sessionMap := s.sessionMap.insert s.accepting s.sessions.length } := by
  have old : ∀ {id number : Nat} {session : Session β}, s.sessions[number]? = some (id, session) →
      (s.sessions ++ [(s.accepting, Session.create)])[number]? = some (id, session) :=
    fun found => List.getElem?_append_left (List.getElem?_eq_some_iff.mp found).1 ▸ found
  -- the new entry, or an entry of the maps as they were
  have cases_of_kept : ∀ {id number : Nat}, Keeps { s with
      sessions := s.sessions ++ [(s.accepting, Session.create)]
      sessionMap := s.sessionMap.insert s.accepting s.sessions.length } id number →
      id = s.accepting ∧ number = s.sessions.length ∨ s.Keeps id number := by
    rintro id number (listed | waiting)
    · by_cases same : id = s.accepting
      · subst same
        rw [AList.lookup_insert] at listed
        exact .inl ⟨rfl, (Option.some.inj listed).symm⟩
      · rw [AList.lookup_insert_ne same] at listed
        exact .inr (.inl listed)
    · exact .inr (.inr waiting)
  refine ⟨fun kept => ?_, fun found waiting => ?_, @fun id number session found only kept => ?_⟩
  · rcases cases_of_kept kept with ⟨rfl, rfl⟩ | before
    · exact ⟨_, List.getElem?_concat_length⟩
    · obtain ⟨session, named⟩ := registered.named before
      exact ⟨session, old named⟩
  · have inside := registered.inside (.inr waiting)
    rename_i id number
    by_cases same : id = s.accepting
    · subst same
      rw [AList.lookup_insert] at found
      rw [← Option.some.inj found] at inside
      exact Nat.lt_irrefl _ inside
    · rw [AList.lookup_insert_ne same] at found
      exact registered.once found waiting
  · rcases cases_of_kept kept with ⟨rfl, rfl⟩ | before
    · rw [List.getElem?_concat_length] at found
      cases found
      rfl
    · rw [List.getElem?_append_left (registered.inside before)] at found
      exact registered.kept found (fun other _ there => only other _ (old there)) before

theorem accepted_sound {s : Server β} (sound : SessionsSound settings s) :
    SessionsSound settings { s with
      sessions := s.sessions ++ [(s.accepting, Session.create)]
      sessionMap := s.sessionMap.insert s.accepting s.sessions.length } := by
  intro id number session found
  rcases Nat.lt_or_ge number s.sessions.length with inside | outside
  · rw [List.getElem?_append_left inside] at found
    exact sound found
  · rw [List.getElem?_append_right outside, List.getElem?_singleton] at found
    split at found
    · cases found
      exact Session.create_sound
    · cases found

/-- Every state of a server: its maps and its sessions. -/
structure Orderly (settings : Settings) (s : Server β) : Prop where
  registered : Registered s
  sound : SessionsSound settings s

/-- Drawing ids leaves the maps and the sessions alone. -/
theorem Orderly.drawn {s : Server β} (orderly : Orderly settings s) (counter accepting : Nat) :
    Orderly settings { s with autoSessionIncreaseId := counter, accepting := accepting } :=
  ⟨⟨orderly.registered.named, orderly.registered.once, orderly.registered.kept⟩, orderly.sound⟩

theorem create_orderly (counter : Nat) : Orderly settings (create counter : Server β) := by
  refine ⟨⟨?_, ?_, ?_⟩, ?_⟩
  · rintro id number (found | found) <;> simp [create, accept] at found
  · intro id number found
    simp [create, accept] at found
  · intro id number session found
    simp [create, accept] at found
  · intro id number session found
    simp [create, accept] at found

theorem step_orderly {s s' : Server β} {action : Action} (orderly : Orderly settings s)
    (step : s.Steps settings action s') : Orderly settings s' := by
  cases action with
  | handleAccept connect =>
      obtain ⟨middle, done, result⟩ := Option.bind_eq_some_iff.mp step
      cases result
      have started : Orderly settings middle :=
        ⟨sessionStep_registered (accepted_registered orderly.registered) done,
          sessionStep_sound (accepted_sound orderly.sound) done⟩
      exact started.drawn _ _
  | acceptAgain =>
      cases step
      exact orderly.drawn _ _
  | drawId =>
      cases step
      exact orderly.drawn _ _
  | handleCheckIdle =>
      cases step
      exact ⟨handleCheckIdle_registered orderly.registered, handleCheckIdle_sound orderly.sound⟩
  | session number action =>
      exact ⟨sessionStep_registered orderly.registered step,
        sessionStep_sound orderly.sound step⟩

/-- A finished session has notified its handlers and called its close handler, in
every run of the session. In every run of a server none of its maps keeps such a
session, if the session has its id for its own, as it has while no more ids have
been drawn than there are. -/
theorem finished_session_released :
    (∀ (settings : Settings) (actions : List Session.Action) (s : Session β),
      Reached (fun _ _ => True) (Session.Steps settings) Session.create actions s → s.Finished →
      1 ≤ s.trace.count .fireClosed ∧
        (settings.closeHandler = true → 1 ≤ s.trace.count .closeHandler)) ∧
    ∀ (settings : Settings) (counter : Nat) (actions : List Action) (s : Server β),
      Reached (fun _ _ => True) (Steps settings) (create counter) actions s →
      ∀ id number session, s.sessions[number]? = some (id, session) → session.Finished →
        1 ≤ session.trace.count .closeHandler ∧ (s.OnlyId id number → ¬ s.Keeps id number) ∧
          (idsDrawn actions ≤ 2 ^ 32 → ¬ s.Keeps id number) := by
  constructor
  · intro settings actions s run finished
    have sound : Session.Sound settings s :=
      run.invariant_all (fun s a s' sound _ step => Session.step_sound sound step)
        Session.create_sound
    exact sound.notified finished
  · intro settings counter actions s run id number session here finished
    have orderly : Orderly settings s :=
      run.invariant_all (fun s a s' orderly _ step => step_orderly orderly step)
        (create_orderly counter)
    have called := ((orderly.sound here).notified finished).2 rfl
    have released (only : s.OnlyId id number) : ¬ s.Keeps id number := by
      intro kept
      rw [orderly.registered.kept here only kept] at called
      exact Nat.lt_irrefl 0 called
    exact ⟨called, released, fun few => released (onlyId_of_drawn run few here)⟩

/-- A peer connects and leaves. -/
def visitRun : List Action := [.handleAccept [], .session 0 (.readDone (.error .eof))]

theorem visitRun_released : ∃ (s : Server AsioBuffer) (session : Session AsioBuffer),
    last (Server.step ⟨0, 0, false, false⟩) (create 0) visitRun = some s ∧
      s.sessions[0]? = some (1, session) ∧ session.Finished ∧
      1 ≤ session.trace.count .closeHandler ∧ ¬ s.Keeps 1 0 := by
  have runs : (last (Server.step ⟨0, 0, false, false⟩) (create 0 : Server AsioBuffer)
      visitRun).any (fun s => s.sessions[0]?.any (fun (id, session) =>
        id = 1 ∧ session.closeFlag = true ∧ session.reads = 0 ∧ session.writes = [] ∧
          session.ioQueue = [] ∧ session.workQueue = [])) = true := by
    decide +kernel
  obtain ⟨s, run, first⟩ := (Option.any_eq_true _ _).mp runs
  obtain ⟨⟨id, session⟩, here, facts⟩ := (Option.any_eq_true _ _).mp first
  obtain ⟨rfl, flag, reads, writes, ioQueue, workQueue⟩ := of_decide_eq_true facts
  have finished : session.Finished := ⟨flag, reads, writes, ioQueue, workQueue⟩
  obtain ⟨called, _, released⟩ := finished_session_released.2 ⟨0, 0, false, false⟩ 0 visitRun s
    (reached_last run) 1 0 session here finished
  exact ⟨s, session, run, here, finished, called, released (by decide)⟩

/-! ## An id that comes back -/

variable (settings) in
/-- Failed accepts draw one id after another. -/
theorem acceptAgain_run (s : Server β) (times : Nat) :
    Reached (fun _ _ => True) (Steps settings) s (List.replicate (times + 1) .acceptAgain)
      { s with
        autoSessionIncreaseId := idOf s.autoSessionIncreaseId (times + 1)
        accepting := idOf s.autoSessionIncreaseId (times + 1) } := by
  induction times generalizing s with
  | zero => exact .cons trivial rfl (.nil _)
  | succ times ih =>
      have rest := ih s.accept
      have same : idOf s.accept.autoSessionIncreaseId (times + 1) =
          idOf s.autoSessionIncreaseId (times + 2) := by
        simp only [accept, getSessionIncreaseId, idOf]
        omega
      rw [same] at rest
      exact .cons trivial rfl rest

/-- The first peer is told to leave and does not answer. -/
def lingeringStart : List Action := [.handleAccept [], .handleCheckIdle]

/-- The last peer connects and leaves. -/
def lingeringEnd : List Action := [.handleAccept [], .session 1 (.readDone (.error .eof))]

/-- A session with the id of an older one takes that one out of the map instead of
itself, and stays. -/
theorem lingeringRun_kept :
    ¬ ∀ (settings : Settings) (counter : Nat) (actions : List Action) (s : Server AsioBuffer),
      Reached (fun _ _ => True) (Steps settings) (create counter) actions s →
      ∀ id number session, s.sessions[number]? = some (id, session) → session.Finished →
        ¬ s.Keeps id number := by
  intro all
  have runs : (last (Server.step ⟨0, 0, false, false⟩) (create 0 : Server AsioBuffer)
      lingeringStart).any (fun s => s.autoSessionIncreaseId = 2 ∧
        (last (Server.step ⟨0, 0, false, false⟩)
          { s with autoSessionIncreaseId := 1, accepting := 1 } lingeringEnd).any (fun s =>
            s.sessionMap.lookup 1 = some 1 ∧ s.sessions[1]?.any (fun (id, session) =>
              id = 1 ∧ session.closeFlag = true ∧ session.reads = 0 ∧ session.writes = [] ∧
                session.ioQueue = [] ∧ session.workQueue = []))) = true := by
    decide +kernel
  obtain ⟨middle, start, found⟩ := (Option.any_eq_true _ _).mp runs
  obtain ⟨counter, rest⟩ := of_decide_eq_true found
  obtain ⟨s, ends, found⟩ := (Option.any_eq_true _ _).mp rest
  obtain ⟨kept, facts⟩ := of_decide_eq_true found
  obtain ⟨⟨id, session⟩, here, facts⟩ := (Option.any_eq_true _ _).mp facts
  obtain ⟨rfl, flag, reads, writes, ioQueue, workQueue⟩ := of_decide_eq_true facts
  have again := acceptAgain_run ⟨0, 0, false, false⟩ middle (2 ^ 32 - 2)
  have wrapped : idOf middle.autoSessionIncreaseId (2 ^ 32 - 2 + 1) = 1 := by
    rw [counter]
    decide
  rw [wrapped] at again
  have run := ((reached_last start).append again).append (reached_last ends)
  exact all _ _ _ s run 1 1 session here ⟨flag, reads, writes, ioQueue, workQueue⟩ (.inl kept)

end FysobEngine.Net.Server
