import FysobEngine.Net.Server

/-!
# The ids of a server

Ids come from a counter of 32 bits, which wraps. They are distinct as long as no
more of them have been drawn than the counter has values.
-/

namespace FysobEngine.Net.Server

open Foundation.Runs

variable {β : Type} {settings : Settings}

/-- The ids of the accepted sessions, in the order of acceptance. -/
def ids (s : Server β) : List Nat := s.sessions.map Prod.fst

/-- The id that is drawn as number `draw` behind the start of the counter. -/
def idOf (counter draw : Nat) : Nat := (counter + draw) % 2 ^ 32

theorem idOf_succ (counter draw : Nat) :
    (idOf counter draw + 1) % 2 ^ 32 = idOf counter (draw + 1) := by
  unfold idOf
  omega

/-- Fewer draws than values of the counter do not collide. -/
theorem idOf_injective {counter draw other : Nat} (first : 1 ≤ draw) (second : 1 ≤ other)
    (few : draw ≤ 2 ^ 32) (few' : other ≤ 2 ^ 32)
    (same : idOf counter draw = idOf counter other) : draw = other := by
  unfold idOf at same
  omega

/-- Every session and the one to be accepted have the ids of draws of their own. -/
structure Numbered (counter drawn : Nat) (draws : List Nat) (waiting : Nat) (s : Server β) :
    Prop where
  ids : s.ids = draws.map (idOf counter)
  accepting : s.accepting = idOf counter waiting
  counter : s.autoSessionIncreaseId = idOf counter drawn
  distinct : draws.Nodup
  ahead : ∀ draw ∈ draws, 1 ≤ draw ∧ draw < waiting
  bounds : 1 ≤ waiting ∧ waiting ≤ drawn

/-- The ids that an action draws. -/
def draws : Action → Nat
  | .handleAccept _ | .acceptAgain | .drawId => 1
  | .handleCheckIdle | .session _ _ => 0

/-- The ids that have been drawn since the start, the first of them by the
constructor. -/
def idsDrawn (actions : List Action) : Nat := 1 + (actions.map draws).sum

theorem Numbered.onlyId {counter drawn waiting : Nat} {draws : List Nat} {s : Server β}
    (numbered : Numbered counter drawn draws waiting s) (few : drawn ≤ 2 ^ 32) {id number : Nat}
    {session : Session β} (here : s.sessions[number]? = some (id, session)) :
    s.OnlyId id number := by
  have distinct : s.ids.Nodup := by
    rw [numbered.ids]
    refine numbered.distinct.map_on fun draw member other member' same => ?_
    obtain ⟨first, before⟩ := numbered.ahead draw member
    obtain ⟨second, before'⟩ := numbered.ahead other member'
    have bound := Nat.le_trans numbered.bounds.2 few
    exact idOf_injective first second (Nat.le_trans (Nat.le_of_lt before) bound)
      (Nat.le_trans (Nat.le_of_lt before') bound) same
  intro other session' there
  have at_number : s.ids[number]? = some id := by
    rw [Server.ids, List.getElem?_map, here]
    rfl
  have at_other : s.ids[other]? = some id := by
    rw [Server.ids, List.getElem?_map, there]
    rfl
  have inside := (List.getElem?_eq_some_iff.mp at_other).1
  exact (List.getElem?_inj inside distinct).mp (at_other.trans at_number.symm)

/-! ## Steps that draw nothing -/

/-- Neither the ids of the sessions nor the counter have changed. -/
structure KeepsIds (s s' : Server β) : Prop where
  ids : s'.ids = s.ids
  accepting : s'.accepting = s.accepting
  counter : s'.autoSessionIncreaseId = s.autoSessionIncreaseId

theorem KeepsIds.refl (s : Server β) : KeepsIds s s := ⟨rfl, rfl, rfl⟩

theorem KeepsIds.trans {s middle s' : Server β} (first : KeepsIds s middle)
    (second : KeepsIds middle s') : KeepsIds s s' :=
  ⟨second.ids.trans first.ids, second.accepting.trans first.accepting,
    second.counter.trans first.counter⟩

theorem Numbered.keeps {counter drawn waiting : Nat} {draws : List Nat} {s s' : Server β}
    (numbered : Numbered counter drawn draws waiting s) (keeps : KeepsIds s s') :
    Numbered counter drawn draws waiting s' :=
  ⟨keeps.ids.trans numbered.ids, keeps.accepting.trans numbered.accepting,
    keeps.counter.trans numbered.counter, numbered.distinct, numbered.ahead, numbered.bounds⟩

/-- A session that takes a step keeps its id. -/
theorem set_ids {s : Server β} {number own : Nat} {before : Session β} (after : Session β)
    (here : s.sessions[number]? = some (own, before)) :
    (s.sessions.set number (own, after)).map Prod.fst = s.ids := by
  obtain ⟨inside, same⟩ := List.getElem?_eq_some_iff.mp here
  have listed : number < (s.sessions.map Prod.fst).length := by
    rw [List.length_map]
    exact inside
  have old : own = (s.sessions.map Prod.fst)[number] := by rw [List.getElem_map, same]
  rw [List.map_set, Server.ids]
  change (s.sessions.map Prod.fst).set number own = _
  rw [old]
  exact List.set_getElem_self _

theorem closeSession_keepsIds (s : Server β) (id : Nat) : KeepsIds s (s.closeSession id) := by
  unfold closeSession removeSession
  dsimp only
  split
  · exact ⟨rfl, rfl, rfl⟩
  · exact ⟨rfl, rfl, rfl⟩

theorem closeSessions_keepsIds (closed : List Nat) (s : Server β) :
    KeepsIds s (closed.foldl closeSession s) := by
  induction closed generalizing s with
  | nil => exact .refl s
  | cons id rest ih => exact (closeSession_keepsIds s id).trans (ih _)

theorem checkIdleSession_keepsIds (s : Server β) (id number : Nat) :
    KeepsIds s (s.checkIdleSession id number) := by
  unfold checkIdleSession
  split
  · rename_i own session here
    split
    · exact ⟨set_ids _ here, rfl, rfl⟩
    · exact .refl s
  · exact .refl s

theorem handleCheckIdle_keepsIds (s : Server β) : KeepsIds s s.handleCheckIdle := by
  unfold handleCheckIdle
  generalize s.sessionMap.entries = entries
  induction entries generalizing s with
  | nil => exact .refl s
  | cons entry rest ih => exact (checkIdleSession_keepsIds s entry.1 entry.2).trans (ih _)

variable [SessionBuffer β]

theorem sessionStep_keepsIds {s s' : Server β} {number : Nat} {action : Session.Action}
    (done : s.sessionStep settings number action = some s') : KeepsIds s s' := by
  obtain ⟨⟨own, before⟩, here, rest⟩ := Option.bind_eq_some_iff.mp done
  obtain ⟨after, _, result⟩ := Option.bind_eq_some_iff.mp rest
  cases result
  have stepped : KeepsIds s { s with sessions := s.sessions.set number (own, after) } :=
    ⟨set_ids after here, rfl, rfl⟩
  exact stepped.trans (closeSessions_keepsIds _ _)

/-! ## Runs -/

omit [SessionBuffer β] in
/-- Another draw, whose id the next session is to have or nobody has. -/
theorem Numbered.draw {counter drawn waiting : Nat} {draws : List Nat} {s : Server β}
    (numbered : Numbered counter drawn draws waiting s) :
    Numbered counter (drawn + 1) draws (drawn + 1) s.accept ∧
      Numbered counter (drawn + 1) draws waiting
        { s with autoSessionIncreaseId := s.getSessionIncreaseId } := by
  obtain ⟨positive, before⟩ := numbered.bounds
  have next : s.getSessionIncreaseId = idOf counter (drawn + 1) := by
    rw [getSessionIncreaseId, numbered.counter, idOf_succ]
  refine ⟨⟨numbered.ids, next, next, numbered.distinct, fun draw member => ?_, ?_⟩,
    ⟨numbered.ids, numbered.accepting, next, numbered.distinct, numbered.ahead, ?_⟩⟩
  · obtain ⟨first, early⟩ := numbered.ahead draw member
    exact ⟨first, Nat.lt_succ_of_lt (Nat.lt_of_lt_of_le early before)⟩
  · exact ⟨Nat.le_add_left 1 drawn, Nat.le_refl _⟩
  · exact ⟨positive, Nat.le_succ_of_le before⟩

theorem step_numbered {counter drawn waiting : Nat} {draws : List Nat} {s s' : Server β}
    {action : Action} (numbered : Numbered counter drawn draws waiting s)
    (step : s.Steps settings action s') :
    ∃ draws waiting, Numbered counter (drawn + Server.draws action) draws waiting s' := by
  cases action with
  | handleAccept connect =>
      obtain ⟨middle, done, result⟩ := Option.bind_eq_some_iff.mp step
      cases result
      have keeps := sessionStep_keepsIds done
      refine ⟨draws ++ [waiting], drawn + 1, ?_⟩
      have fresh : waiting ∉ draws := fun member => by
        exact Nat.lt_irrefl _ (numbered.ahead waiting member).2
      obtain ⟨positive, before⟩ := numbered.bounds
      have next : middle.getSessionIncreaseId = idOf counter (drawn + 1) := by
        rw [getSessionIncreaseId, keeps.counter]
        exact (congrArg (fun id => (id + 1) % 2 ^ 32) numbered.counter).trans (idOf_succ _ _)
      refine ⟨?_, next, next, ?_, fun draw member => ?_, Nat.le_add_left 1 drawn, Nat.le_refl _⟩
      · change middle.ids = _
        rw [keeps.ids, Server.ids, List.map_append, List.map_append]
        exact congrArg₂ (· ++ ·) numbered.ids (congrArg (fun id => [id]) numbered.accepting)
      · exact List.nodup_append.mpr ⟨numbered.distinct, List.nodup_singleton _,
          fun draw member other here same => fresh (by
            rw [List.mem_singleton.mp here] at same
            exact same ▸ member)⟩
      · rcases List.mem_append.mp member with old | new
        · obtain ⟨first, early⟩ := numbered.ahead draw old
          exact ⟨first, Nat.lt_succ_of_lt (Nat.lt_of_lt_of_le early before)⟩
        · rw [List.mem_singleton.mp new]
          exact ⟨positive, Nat.lt_succ_of_le before⟩
  | acceptAgain =>
      cases step
      exact ⟨draws, drawn + 1, numbered.draw.1⟩
  | drawId =>
      cases step
      exact ⟨draws, waiting, numbered.draw.2⟩
  | handleCheckIdle =>
      cases step
      exact ⟨draws, waiting, numbered.keeps (handleCheckIdle_keepsIds s)⟩
  | session number action =>
      exact ⟨draws, waiting, numbered.keeps (sessionStep_keepsIds step)⟩

omit [SessionBuffer β] in
theorem create_numbered (counter : Nat) : Numbered counter 1 [] 1 (create counter : Server β) :=
  ⟨rfl, rfl, rfl, List.nodup_nil, fun _ => nofun, Nat.le_refl 1, Nat.le_refl 1⟩

theorem run_numbered {counter drawn waiting : Nat} {draws : List Nat} {start s : Server β}
    {actions : List Action} (numbered : Numbered counter drawn draws waiting start)
    (run : Reached (fun _ _ => True) (Steps settings) start actions s) :
    ∃ draws waiting, Numbered counter (drawn + (actions.map Server.draws).sum) draws waiting s := by
  induction run generalizing drawn draws waiting with
  | nil => exact ⟨draws, waiting, numbered⟩
  | cons _ step _ ih =>
      obtain ⟨draws', waiting', behind⟩ := step_numbered numbered step
      rw [List.map_cons, List.sum_cons, ← Nat.add_assoc]
      exact ih behind

/-- While no more ids have been drawn than there are, each session has its own. -/
theorem onlyId_of_drawn {counter : Nat} {actions : List Action} {s : Server β}
    (run : Reached (fun _ _ => True) (Steps settings) (create counter) actions s)
    (few : idsDrawn actions ≤ 2 ^ 32) {id number : Nat} {session : Session β}
    (here : s.sessions[number]? = some (id, session)) : s.OnlyId id number := by
  obtain ⟨draws, waiting, numbered⟩ := run_numbered (create_numbered counter) run
  exact numbered.onlyId few here

end FysobEngine.Net.Server
