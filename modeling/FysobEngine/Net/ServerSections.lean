import FysobEngine.Common.WfirstRwLockDrain
import FysobEngine.Foundation.Sections
import FysobEngine.Net.ServerRelease

/-!
# The sections of a server

The threads of a server change its maps behind `write_guard`. Each change is a section
of several steps, and the lock makes it one.
-/

namespace FysobEngine.Common.WfirstRwLock

open Foundation.Census Foundation.Sections

variable {Thread : Type} [DecidableEq Thread] [Fintype Thread]

/-- What a thread does at the lock for a section behind `write_guard`. -/
inductive GuardMove (Thread : Type) where
  | lock
  | wake
  | unlock (woken : Option Thread)

def GuardMove.action (t : Thread) : GuardMove Thread → Action Thread
  | .lock => .lock t .write
  | .wake => .wake t
  | .unlock woken => .unlock t woken

/-- `write_guard`. -/
def writeGuard : Gate Thread (WfirstRwLock Thread) (GuardMove Thread) where
  next s t e := s.step (e.action t)
  inside s t := (s.place t).writes

omit [Fintype Thread] in
theorem writeLock_place (s : WfirstRwLock Thread) (t : Thread) :
    ∃ place, (s.writeLock t).place = Function.update s.place t place := by
  rw [writeLock_eq]
  unfold awaitWrite withWriter move
  split
  · exact ⟨_, Function.update_idem ..⟩
  · exact ⟨_, Function.update_idem ..⟩

theorem writeGuard_lawful : (writeGuard : Gate Thread _ _).Lawful Counted where
  keeps {s s' t e} counted next := by
    have step : s.Steps (e.action t) s' := next
    exact step.turn.counted counted
  exclusive {s t u} counted first second := by
    have few : census s.place Place.writes ≤ 1 := by
      rw [counted.writeFlag]
      exact Bool.toNat_le _
    exact eq_of_census_le_one few first second
  others {s s' t u e} counted next other := by
    cases e with
    | lock =>
        have outside : s.place t = .outside := by
          by_contra inside
          simp [writeGuard, GuardMove.action, WfirstRwLock.step, inside] at next
        obtain rfl : s.writeLock t = s' := by
          simpa [writeGuard, GuardMove.action, WfirstRwLock.step, outside] using next
        obtain ⟨place, moved⟩ := writeLock_place s t
        simp only [writeGuard, moved, Function.update_of_ne other]
    | wake =>
        obtain ⟨mode, place, _, _, moved⟩ := wake_place next
        simp only [writeGuard, moved, Function.update_of_ne other]
    | unlock woken =>
        obtain ⟨mode, _, places⟩ := unlock_place next
        have steady := places Place.writes (fun _ => rfl) u
        rwa [place_move_of_ne other] at steady

end FysobEngine.Common.WfirstRwLock

namespace FysobEngine.Net

open Common Foundation.Runs Foundation.Sections

/-- `session_map_` and `wait_remove_session_map_`. -/
structure ServerMaps where
  sessionMap : SessionMap
  waitRemoveSessionMap : SessionMap

/-- The sections, and where a thread is in them. `checkIdle` stands behind the entries
up to `it`, and `eraseIdle` at the entry `it`. `idle` is what `check_idle` answers when
the loop comes to a session; it comes to each once. -/
inductive ServerSection where
  | insert (id number : Nat)
  | closeSession (id : Nat)
  | closeSessionMap (id : Nat)
  | checkIdle (it : Option Nat) (idle : Nat → Bool)
  | eraseIdle (it : Nat) (idle : Nat → Bool)

namespace ServerSection

/-- The entry that an iterator behind `it` stands at. -/
def nextEntry (map : SessionMap) (it : Option Nat) : Option (Nat × Nat) := do
  let id ← (map.keys.filter fun id => it.all (· < id)).min?
  let number ← map.lookup id
  some (id, number)

/-- One step of a thread in a section. -/
def micro : ServerSection → ServerMaps → Option ServerSection × ServerMaps
  | .insert id number, m => (none, { m with sessionMap := m.sessionMap.insert id number })
  | .closeSession id, m =>
      let (result, waitRemoveSessionMap) := Server.removeSession m.waitRemoveSessionMap id
      match result with
      | some _ => (none, { m with waitRemoveSessionMap := waitRemoveSessionMap })
      | none => (some (.closeSessionMap id), m)
  | .closeSessionMap id, m =>
      (none, { m with sessionMap := (Server.removeSession m.sessionMap id).2 })
  | .checkIdle it idle, m =>
      match nextEntry m.sessionMap it with
      | none => (none, m)
      | some (id, number) =>
          if idle number then
            (some (.eraseIdle id idle),
              { m with waitRemoveSessionMap := m.waitRemoveSessionMap.insert id number })
          else (some (.checkIdle (some id) idle), m)
  | .eraseIdle it idle, m =>
      (some (.checkIdle (some it) idle), { m with sessionMap := m.sessionMap.erase it })

/-! ## What the sections mean -/

/-- Maps as functions: the sessions, and those that wait to be removed. -/
abbrev View := (Nat → Option Nat) × (Nat → Option Nat)

def view (m : ServerMaps) : View := (m.sessionMap.lookup, m.waitRemoveSessionMap.lookup)

/-- The entries of these ids whose sessions are idle change the map. -/
def checked (ids idle : Nat → Bool) (v : View) : View :=
  (fun id => if ids id && (v.1 id).any idle then none else v.1 id,
    fun id => if ids id && (v.1 id).any idle then v.1 id else v.2 id)

/-- A section as one change of the maps. -/
def effect : ServerSection → View → View
  | .insert id number, v => (Function.update v.1 id (some number), v.2)
  | .closeSession id, v =>
      if (v.2 id).isSome then (v.1, Function.update v.2 id none)
      else (Function.update v.1 id none, v.2)
  | .closeSessionMap id, v => (Function.update v.1 id none, v.2)
  | .checkIdle it idle, v => checked (fun id => it.all (· < id)) idle v
  | .eraseIdle it idle, v => checked (it < ·) idle (Function.update v.1 it none, v.2)

theorem checked_checked (ids others idle : Nat → Bool) (v : View) :
    checked ids idle (checked others idle v) = checked (fun id => ids id || others id) idle v := by
  unfold checked
  refine Prod.ext (funext fun id => ?_) (funext fun id => ?_)
  all_goals
    dsimp only
    by_cases before : others id = true
    · by_cases idles : (v.1 id).any idle = true
      · simp [before, idles]
      · simp [before, idles]
    · simp [before]

/-- Only ids that name a session matter. -/
theorem checked_congr {ids others idle : Nat → Bool} {v : View}
    (same : ∀ id, (v.1 id).isSome → ids id = others id) :
    checked ids idle v = checked others idle v := by
  unfold checked
  refine Prod.ext (funext fun id => ?_) (funext fun id => ?_)
  all_goals
    dsimp only
    cases there : v.1 id with
    | none => simp
    | some number => rw [same id (there ▸ rfl)]

/-! ## A section to its end -/

theorem lookup_insert_eq (map : SessionMap) (id number : Nat) :
    (map.insert id number).lookup = Function.update map.lookup id (some number) := by
  funext other
  by_cases same : other = id
  · subst same
    rw [AList.lookup_insert, Function.update_self]
  · rw [AList.lookup_insert_ne same, Function.update_of_ne same]

theorem lookup_erase_eq (map : SessionMap) (id : Nat) :
    (map.erase id).lookup = Function.update map.lookup id none := by
  funext other
  by_cases same : other = id
  · subst same
    rw [AList.lookup_erase, Function.update_self]
  · rw [AList.lookup_erase_ne same, Function.update_of_ne same]

theorem mem_filter_keys {map : SessionMap} {it : Option Nat} {id : Nat} :
    id ∈ map.keys.filter (fun id => it.all (· < id)) ↔
      (map.lookup id).isSome ∧ it.all (· < id) = true := by
  rw [List.mem_filter, AList.lookup_isSome, AList.mem_keys]

/-- An iterator at the end has no entry behind it. -/
theorem nextEntry_none {map : SessionMap} {it : Option Nat} (last : nextEntry map it = none)
    {id : Nat} (behind : it.all (· < id) = true) : map.lookup id = none := by
  by_contra there
  have listed : id ∈ map.keys.filter fun id => it.all (· < id) :=
    mem_filter_keys.mpr ⟨Option.isSome_iff_ne_none.mpr there, behind⟩
  cases least : (map.keys.filter fun id => it.all (· < id)).min? with
  | none =>
      rw [List.min?_eq_none_iff] at least
      rw [least] at listed
      cases listed
  | some first =>
      have found := (mem_filter_keys.mp (List.min?_eq_some_iff.mp least).1).1
      obtain ⟨number, entry⟩ := Option.isSome_iff_exists.mp found
      simp [nextEntry, least, entry] at last

/-- An iterator goes to the entry with the least id behind it. -/
theorem nextEntry_some {map : SessionMap} {it : Option Nat} {id number : Nat}
    (next : nextEntry map it = some (id, number)) :
    map.lookup id = some number ∧ it.all (· < id) = true ∧
      ∀ other, it.all (· < other) = true → other < id → map.lookup other = none := by
  unfold nextEntry at next
  obtain ⟨first, least, next⟩ := Option.bind_eq_some_iff.mp next
  obtain ⟨entry, found, same⟩ := Option.bind_eq_some_iff.mp next
  cases same
  obtain ⟨listed, lowest⟩ := List.min?_eq_some_iff.mp least
  refine ⟨found, (mem_filter_keys.mp listed).2, fun other behind less => ?_⟩
  by_contra there
  have listed : other ∈ map.keys.filter fun id => it.all (· < id) :=
    mem_filter_keys.mpr ⟨Option.isSome_iff_ne_none.mpr there, behind⟩
  exact absurd (lowest other listed) (by omega)

/-- Behind an entry there is what is behind the iterator, but for the entry. -/
theorem behind_next {map : SessionMap} {it : Option Nat} {id number other : Nat}
    (next : nextEntry map it = some (id, number)) (apart : other ≠ id) (idle : Nat → Bool) :
    (decide (id < other) && (map.lookup other).any idle) =
      (it.all (· < other) && (map.lookup other).any idle) := by
  obtain ⟨_, behind, lowest⟩ := nextEntry_some next
  rcases Nat.lt_or_gt_of_ne apart with less | more
  · rw [decide_eq_false (Nat.lt_asymm less), Bool.false_and]
    cases before : it.all (· < other) with
    | false => rfl
    | true => rw [lowest other before less]; rfl
  · have also : it.all (· < other) = true := by
      cases it with
      | none => rfl
      | some first =>
          simp only [Option.all_some, decide_eq_true_eq] at behind ⊢
          omega
    rw [decide_eq_true more, also]

/-- What is left of a section, as one change. -/
def remaining : Option ServerSection → View → View
  | none, v => v
  | some c, v => effect c v

theorem micro_end {m : ServerMaps} {it : Option Nat} (last : nextEntry m.sessionMap it = none)
    (idle : Nat → Bool) : micro (.checkIdle it idle) m = (none, m) := by
  simp only [micro, last]

theorem micro_idle {m : ServerMaps} {it : Option Nat} {id number : Nat} {idle : Nat → Bool}
    (next : nextEntry m.sessionMap it = some (id, number)) (unused : idle number = true) :
    micro (.checkIdle it idle) m = (some (.eraseIdle id idle),
      { m with waitRemoveSessionMap := m.waitRemoveSessionMap.insert id number }) := by
  simp only [micro, next, if_pos unused]

theorem micro_busy {m : ServerMaps} {it : Option Nat} {id number : Nat} {idle : Nat → Bool}
    (next : nextEntry m.sessionMap it = some (id, number)) (busy : ¬ idle number = true) :
    micro (.checkIdle it idle) m = (some (.checkIdle (some id) idle), m) := by
  simp only [micro, next, if_neg busy]

theorem checkIdle_effect (it : Option Nat) (idle : Nat → Bool) (m : ServerMaps) :
    remaining (micro (.checkIdle it idle) m).1 (view (micro (.checkIdle it idle) m).2) =
      checked (fun id => it.all (· < id)) idle (view m) := by
  cases next : nextEntry m.sessionMap it with
  | none =>
      have still (id : Nat) :
          (it.all (· < id) && (m.sessionMap.lookup id).any idle) = false := by
        cases behind : it.all (· < id) with
        | false => rfl
        | true => rw [nextEntry_none next behind]; rfl
      rw [micro_end next]
      simp [remaining, checked, view, still]
  | some entry =>
      obtain ⟨id, number⟩ := entry
      obtain ⟨found, behind, -⟩ := nextEntry_some next
      by_cases unused : idle number = true
      · rw [micro_idle next unused]
        dsimp only [remaining, effect, checked, view]
        refine Prod.ext (funext fun other => ?_) (funext fun other => ?_)
        all_goals
          dsimp only
          by_cases same : other = id
          · subst same
            simp [found, behind, unused]
          · simp only [Function.update_of_ne same, behind_next next same,
              AList.lookup_insert_ne same]
      · rw [micro_busy next unused]
        dsimp only [remaining, effect, checked, view]
        refine Prod.ext (funext fun other => ?_) (funext fun other => ?_)
        all_goals
          dsimp only
          by_cases same : other = id
          · subst same
            simp [found, unused]
          · simp only [Option.all_some, behind_next next same]

/-- A step of a section does a part of its change. -/
theorem micro_effect (c : ServerSection) (m : ServerMaps) :
    remaining (micro c m).1 (view (micro c m).2) = effect c (view m) := by
  cases c with
  | insert id number => simp [micro, remaining, effect, view, lookup_insert_eq]
  | closeSession id =>
      cases found : m.waitRemoveSessionMap.lookup id with
      | none => simp [micro, Server.removeSession, remaining, effect, view, found]
      | some number =>
          simp [micro, Server.removeSession, remaining, effect, view, found, lookup_erase_eq]
  | closeSessionMap id =>
      simp [micro, Server.removeSession, remaining, effect, view, lookup_erase_eq]
  | checkIdle it idle => exact checkIdle_effect it idle m
  | eraseIdle it idle => simp [micro, remaining, effect, view, lookup_erase_eq]

theorem tick_effect (s : Option ServerSection × ServerMaps) :
    remaining (tick micro s).1 (view (tick micro s).2) = remaining s.1 (view s.2) := by
  obtain ⟨_ | c, m⟩ := s
  · rfl
  · exact micro_effect c m

theorem ticks_effect (times : Nat) (s : Option ServerSection × ServerMaps) :
    remaining ((tick micro)^[times] s).1 (view ((tick micro)^[times] s).2) =
      remaining s.1 (view s.2) := by
  induction times generalizing s with
  | zero => rfl
  | succ times ih =>
      rw [Function.iterate_succ_apply, ih, tick_effect]

/-- Sections that end one after another change the maps as their effects do. -/
theorem serially_effect {sections : List ServerSection} {m m' : ServerMaps}
    (serially : Serially micro sections m m') :
    view m' = sections.foldl (fun v c => effect c v) (view m) := by
  induction sections generalizing m with
  | nil => exact congrArg view serially
  | cons c rest ih =>
      obtain ⟨times, middle, done, later⟩ := serially
      have whole := ticks_effect times (some c, m)
      rw [done] at whole
      rw [ih later, List.foldl_cons]
      exact congrArg (rest.foldl fun v c => effect c v) whole

/-! ## A section ends -/

/-- How many entries an iterator has behind it. -/
def behind (map : SessionMap) (it : Option Nat) : Nat :=
  (map.keys.filter fun id => it.all (· < id)).length

theorem behind_lt {map : SessionMap} {it : Option Nat} {id number : Nat}
    (next : nextEntry map it = some (id, number)) : behind map (some id) < behind map it := by
  obtain ⟨found, before, -⟩ := nextEntry_some next
  have fewer : (map.keys.filter fun other => (some id).all (· < other)) =
      (map.keys.filter fun other => it.all (· < other)).filter (id < ·) := by
    rw [List.filter_filter]
    refine List.filter_congr fun other _ => ?_
    cases it with
    | none => simp
    | some first =>
        have less : first < id := by simpa using before
        by_cases after : id < other
        · simp [after, Nat.lt_trans less after]
        · simp [after]
  unfold behind
  rw [fewer, List.length_filter_lt_length_iff_exists]
  exact ⟨id, mem_filter_keys.mpr ⟨Option.isSome_of_eq_some found, before⟩, by simp⟩

theorem behind_erase_le (map : SessionMap) (id : Nat) (it : Option Nat) :
    behind (map.erase id) it ≤ behind map it := by
  unfold behind
  rw [AList.keys_erase]
  exact (List.erase_sublist.filter _).length_le

theorem ends_of_tick {c : ServerSection} {m : ServerMaps}
    (ends : ∃ times m', (tick micro)^[times] (micro c m) = (none, m')) :
    ∃ times m', (tick micro)^[times] (some c, m) = (none, m') := by
  obtain ⟨times, m', done⟩ := ends
  exact ⟨times + 1, m', by rw [Function.iterate_succ_apply]; exact done⟩

/-- The loop of `handle_check_idle` ends: an iterator that goes on leaves an entry. -/
theorem checkIdle_ends (idle : Nat → Bool) (it : Option Nat) (m : ServerMaps) :
    ∃ times m', (tick micro)^[times] (some (.checkIdle it idle), m) = (none, m') := by
  induction entries : behind m.sessionMap it using Nat.strongRecOn generalizing it m with
  | ind n ih =>
      cases next : nextEntry m.sessionMap it with
      | none => exact ⟨1, m, micro_end next idle⟩
      | some entry =>
          obtain ⟨id, number⟩ := entry
          have fewer : behind m.sessionMap (some id) < n := entries ▸ behind_lt next
          refine ends_of_tick ?_
          by_cases unused : idle number = true
          · rw [micro_idle next unused]
            refine ends_of_tick (ih _ ?_ (some id) _ rfl)
            exact Nat.lt_of_le_of_lt (behind_erase_le ..) fewer
          · rw [micro_busy next unused]
            exact ih _ fewer (some id) m rfl

theorem section_ends (c : ServerSection) (m : ServerMaps) :
    ∃ times m', (tick micro)^[times] (some c, m) = (none, m') := by
  cases c with
  | insert id number => exact ⟨1, _, rfl⟩
  | closeSession id =>
      cases found : m.waitRemoveSessionMap.lookup id with
      | some number =>
          refine ⟨1, { m with waitRemoveSessionMap := m.waitRemoveSessionMap.erase id }, ?_⟩
          simp [tick, micro, Server.removeSession, found]
      | none =>
          refine ⟨2, { m with sessionMap := m.sessionMap.erase id }, ?_⟩
          simp [tick, micro, Server.removeSession, found]
  | closeSessionMap id => exact ⟨1, _, rfl⟩
  | checkIdle it idle => exact checkIdle_ends idle it m
  | eraseIdle it idle => exact ends_of_tick (checkIdle_ends idle (some it) _)

/-- What is left of a section can be done, and then all of it is. -/
theorem remaining_ends (s : Option ServerSection × ServerMaps) :
    ∃ times m', (tick micro)^[times] s = (none, m') ∧ view m' = remaining s.1 (view s.2) := by
  obtain ⟨times, m', done⟩ : ∃ times m', (tick micro)^[times] s = (none, m') := by
    obtain ⟨_ | c, m⟩ := s
    · exact ⟨0, m, rfl⟩
    · exact section_ends c m
  have whole := ticks_effect times s
  rw [done] at whole
  exact ⟨times, m', done, whole⟩

end ServerSection

/-! ## The sections of the steps -/

namespace Server

open ServerSection

variable {β : Type}

def maps (s : Server β) : ServerMaps := ⟨s.sessionMap, s.waitRemoveSessionMap⟩

/-- What `check_idle` answers for a session. -/
def idle (s : Server β) (number : Nat) : Bool :=
  s.sessions[number]?.any fun session => session.2.handleCount == 0

theorem closeSession_effect (s : Server β) (id : Nat) :
    view (s.closeSession id).maps = effect (.closeSession id) (view s.maps) := by
  cases found : s.waitRemoveSessionMap.lookup id with
  | none => simp [closeSession, removeSession, maps, view, effect, found, lookup_erase_eq]
  | some number => simp [closeSession, removeSession, maps, view, effect, found, lookup_erase_eq]

theorem closeSessions_effect (calls id : Nat) (s : Server β) :
    view ((List.replicate calls id).foldl closeSession s).maps =
      (List.replicate calls (.closeSession id)).foldl (fun v c => effect c v) (view s.maps) := by
  induction calls generalizing s with
  | zero => rfl
  | succ calls ih =>
      rw [List.replicate_succ, List.foldl_cons, ih, closeSession_effect]
      rfl

theorem close_handleCount (s : Session β) : s.close.handleCount = s.handleCount := by
  unfold Session.close Session.closeIfNecessary
  split
  · split
    · rfl
    · rfl
  · rfl

/-- A session that is told to close is as idle as before. -/
theorem checkIdleSession_idle (s : Server β) (id number : Nat) :
    (s.checkIdleSession id number).idle = s.idle := by
  unfold checkIdleSession
  split
  · next own session here =>
    split
    · funext other
      unfold idle
      dsimp only
      by_cases same : other = number
      · subst same
        rw [List.getElem?_set_self (List.getElem?_eq_some_iff.mp here).1, here]
        simp [close_handleCount]
      · rw [List.getElem?_set_ne (Ne.symm same)]
    · rfl
  · rfl

theorem checkIdleSession_effect {s : Server β} {id number : Nat}
    (listed : s.sessionMap.lookup id = some number) :
    view (s.checkIdleSession id number).maps = checked (· == id) s.idle (view s.maps) := by
  cases here : s.sessions[number]? with
  | none =>
      have busy : s.idle number = false := by simp [idle, here]
      simp only [checkIdleSession, here]
      refine Prod.ext (funext fun other => ?_) (funext fun other => ?_)
      all_goals
        by_cases same : other = id
        · subst same
          simp [checked, view, maps, listed, busy]
        · simp [checked, same]
  | some session =>
      obtain ⟨own, session⟩ := session
      by_cases unused : session.handleCount = 0
      · have ready : s.idle number = true := by simp [idle, here, unused]
        simp only [checkIdleSession, here, if_pos unused]
        refine Prod.ext (funext fun other => ?_) (funext fun other => ?_)
        all_goals
          by_cases same : other = id
          · subst same
            simp [checked, view, maps, listed, ready]
          · simp [checked, view, maps, same, AList.lookup_erase_ne, AList.lookup_insert_ne]
      · have busy : s.idle number = false := by simp [idle, here, unused]
        simp only [checkIdleSession, here, if_neg unused]
        refine Prod.ext (funext fun other => ?_) (funext fun other => ?_)
        all_goals
          by_cases same : other = id
          · subst same
            simp [checked, view, maps, listed, busy]
          · simp [checked, same]

/-- The loop of `handle_check_idle` looks at each entry once. -/
theorem checkIdleSessions_effect (entries : List (Sigma fun _ : Nat => Nat)) {s : Server β}
    (distinct : entries.NodupKeys)
    (listed : ∀ entry ∈ entries, s.sessionMap.lookup entry.1 = some entry.2) :
    view (entries.foldl (fun s entry => s.checkIdleSession entry.1 entry.2) s).maps =
      checked (entries.keys.contains ·) s.idle (view s.maps) := by
  induction entries generalizing s with
  | nil => simp [checked]
  | cons entry rest ih =>
      obtain ⟨fresh, distinct⟩ := List.nodupKeys_cons.mp distinct
      have here := listed entry List.mem_cons_self
      rw [List.foldl_cons, ih distinct fun other member => ?_, checkIdleSession_idle,
        checkIdleSession_effect here, checked_checked]
      · simp only [List.keys_cons, List.contains_cons, Bool.or_comm]
      · have apart : other.1 ≠ entry.1 := by
          intro same
          exact fresh (same ▸ List.mem_keys_of_mem member)
        exact (checkIdleSession_lookup s entry.2 apart).trans
          (listed other (List.mem_cons_of_mem entry member))

theorem handleCheckIdle_effect (s : Server β) :
    view s.handleCheckIdle.maps = effect (.checkIdle none s.idle) (view s.maps) := by
  have loop := checkIdleSessions_effect s.sessionMap.entries (s := s) s.sessionMap.nodupKeys
    fun entry member => AList.mem_lookup_iff.mpr member
  refine loop.trans (checked_congr fun id there => ?_)
  have listed : id ∈ s.sessionMap.entries.keys := AList.lookup_isSome.mp there
  simpa using listed

variable [SessionBuffer β] (settings : Settings)

/-- The sections of the close handler in a step of a session. -/
def closeSections (s : Server β) (number : Nat) (action : Session.Action) : List ServerSection :=
  match s.sessions[number]? with
  | none => []
  | some (id, session) =>
      match session.step { settings with closeHandler := true } action with
      | none => []
      | some stepped =>
          List.replicate (stepped.trace.count .closeHandler - session.trace.count .closeHandler)
            (.closeSession id)

/-- The sections of a step. -/
def sections (s : Server β) : Action → List ServerSection
  | .handleAccept connect =>
      let number := s.sessions.length
      let accepted := { s with
        sessions := s.sessions ++ [(s.accepting, Session.create)]
        sessionMap := s.sessionMap.insert s.accepting number }
      .insert s.accepting number :: accepted.closeSections settings number (.start connect)
  | .acceptAgain => []
  | .drawId => []
  | .handleCheckIdle => [.checkIdle none s.idle]
  | .session number action => s.closeSections settings number action

variable {settings}

theorem sessionStep_effect {s s' : Server β} {number : Nat} {action : Session.Action}
    (done : s.sessionStep settings number action = some s') :
    view s'.maps = (s.closeSections settings number action).foldl (fun v c => effect c v)
      (view s.maps) := by
  obtain ⟨own, before, after, here, stepped, rfl⟩ := sessionStep_cases done
  have stepped : before.step { settings with closeHandler := true } action = some after := stepped
  unfold closeSections
  rw [closeSessions_effect, here]
  dsimp only
  rw [stepped]
  rfl

/-- A step of a server changes the maps as its sections do one after another. -/
theorem step_effect {s s' : Server β} {action : Action} (step : s.Steps settings action s') :
    view s'.maps = (s.sections settings action).foldl (fun v c => effect c v) (view s.maps) := by
  unfold Steps Server.step at step
  cases action with
  | handleAccept connect =>
      obtain ⟨started, done, accepted⟩ := Option.bind_eq_some_iff.mp step
      cases accepted
      have inserted := sessionStep_effect done
      rw [sections, List.foldl_cons]
      refine inserted.trans ?_
      congr 1
      exact Prod.ext (lookup_insert_eq ..) rfl
  | acceptAgain =>
      cases step
      rfl
  | drawId =>
      cases step
      rfl
  | handleCheckIdle =>
      cases step
      exact handleCheckIdle_effect s
  | session number action => exact sessionStep_effect step

/-- And so does a run. -/
theorem run_effect {counter : Nat} {actions : List Action} {s : Server β}
    (run : Reached (fun _ _ => True) (Steps settings) (create counter) actions s) :
    view s.maps = (produced (fun s : Server β => s.step settings) (sections settings)
      (create counter) actions).foldl (fun v c => effect c v) (view ⟨∅, ∅⟩) := by
  have kept : ∀ (log : List ServerSection) (s : Server β) action s',
      view s.maps = log.foldl (fun v c => effect c v) (view ⟨∅, ∅⟩) →
      step settings s action = some s' →
      view s'.maps = (log ++ sections settings s action).foldl (fun v c => effect c v)
        (view ⟨∅, ∅⟩) := by
    intro log s action s' before first
    rw [List.foldl_append, ← before]
    exact step_effect first
  exact Reached.history_all kept run rfl

end Server

namespace ServerThreads

open ServerSection Common.WfirstRwLock

variable {Thread : Type} [DecidableEq Thread] [Fintype Thread]

/-- Threads behind the `write_guard` of a server that has no sessions yet. -/
def create : Gated Thread (WfirstRwLock Thread) ServerMaps ServerSection :=
  start WfirstRwLock.create ⟨∅, ∅⟩

def step (s : Gated Thread (WfirstRwLock Thread) ServerMaps ServerSection)
    (event : Foundation.Sections.Event Thread (GuardMove Thread) ServerSection) :
    Option (Gated Thread (WfirstRwLock Thread) ServerMaps ServerSection) :=
  Foundation.Sections.step writeGuard micro s event

/-- The step relation. -/
def Steps (s : Gated Thread (WfirstRwLock Thread) ServerMaps ServerSection)
    (event : Foundation.Sections.Event Thread (GuardMove Thread) ServerSection)
    (s' : Gated Thread (WfirstRwLock Thread) ServerMaps ServerSection) : Prop :=
  step s event = some s'

variable {s : Gated Thread (WfirstRwLock Thread) ServerMaps ServerSection}
  {events : List (Foundation.Sections.Event Thread (GuardMove Thread) ServerSection)}
  {β : Type} [SessionBuffer β]

/-- In every run of the threads the maps are those of whole sections one after another.
A thread inside is alone, and comes to have made the whole of its own. A server that goes
through the same sections has the same maps. -/
theorem sections_serial (run : Reached (fun _ _ => True) Steps create events s) :
    ∃ settled : ServerMaps,
      view settled = s.log.foldl (fun v c => effect c v) (view ⟨∅, ∅⟩) ∧
      (∀ t u, (s.gate.place t).writes = true → (s.gate.place u).writes = true → t = u) ∧
      (∀ t, (s.gate.place t).writes = true → ∃ c times m', s.asked t = some c ∧
        (tick micro)^[times] (s.left t, s.data) = (none, m') ∧
          view m' = effect c (view settled)) ∧
      ((∀ t, (s.gate.place t).writes = false) → s.data = settled) ∧
      ∀ (settings : Settings) counter actions (server : Server β),
        Reached (fun _ _ => True) (Server.Steps settings) (Server.create counter) actions server →
        produced (fun s : Server β => s.step settings) (Server.sections settings)
          (Server.create counter) actions = s.log → view settled = view server.maps := by
  have initial : Serial writeGuard micro Counted ⟨∅, ∅⟩ (create : Gated Thread _ _ _) ⟨∅, ∅⟩ :=
    start_serial create_counted fun _ => rfl
  obtain ⟨settled, serial⟩ := reached_serial writeGuard_lawful initial run
  have whole := serially_effect serial.serially
  refine ⟨settled, whole, fun t u => writeGuard_lawful.exclusive serial.gate, fun t inside => ?_,
    serial.quiet, fun settings counter actions server served same => ?_⟩
  · obtain ⟨c, asked⟩ := Option.isSome_iff_exists.mp (serial.came inside)
    obtain ⟨before, done⟩ := serial.under inside
    obtain ⟨times, m', ended, last⟩ := remaining_ends (s.left t, s.data)
    have part := ticks_effect before (s.asked t, settled)
    rw [done, asked] at part
    exact ⟨c, times, m', asked, ended, last.trans part⟩
  · rw [whole, ← same, Server.run_effect served]

/-- A session is accepted while a thread waits to close it. -/
def acceptedAndClosed : List (Foundation.Sections.Event Bool (GuardMove Bool) ServerSection) :=
  [.ask true (.insert 1 0), .move true .lock, .ask false (.closeSession 1), .move false .lock,
    .work true, .move true (.unlock (some false)), .move false .wake, .work false]

theorem acceptedAndClosed_serial :
    ∃ (s : Gated Bool (WfirstRwLock Bool) ServerMaps ServerSection)
      (settled m' : ServerMaps) (c : ServerSection),
      last step create acceptedAndClosed = some s ∧ s.asked false = some c ∧
        view settled = s.log.foldl (fun v c => effect c v) (view ⟨∅, ∅⟩) ∧
          view m' = effect c (view settled) := by
  have runs : (last step create acceptedAndClosed).any fun s => (s.gate.place false).writes := by
    decide +kernel
  obtain ⟨s, run, inside⟩ := (Option.any_eq_true ..).mp runs
  obtain ⟨settled, whole, -, own, -⟩ := sections_serial (β := AsioBuffer) (reached_last run)
  obtain ⟨c, times, m', asked, -, done⟩ := own false inside
  exact ⟨s, settled, m', c, run, asked, whole, done⟩

end ServerThreads

end FysobEngine.Net
