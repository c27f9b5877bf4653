import FysobEngine.Foundation.Logs
import FysobEngine.Net.NetManager

/-!
# The connections that scripts see

The network tells `net_manager` of a connection and of its end, and scripts write
to connections and close them, in any order. What `context_map_` should hold is
said by the calls made so far: an id belongs to the context that was connected
under it last, unless that id has been cleaned or closed since.
-/

namespace FysobEngine.Net.NetManager

open Foundation.Runs Foundation.Logs

variable {κ : Type}

/-- A call by the network or by a script. A script gives an id as a Lua integer. -/
inductive Use (κ : Type) where
  | onConnect (ctx : κ) (sessionId : UInt32)
  | onPassiveClean (sessionId : UInt32)
  | writeMessage (sessionId : Int) (msg : List UInt8)
  | closeConnection (sessionId : Int)

/-- The call; `it` is for `close_connection`. -/
def perform (s : NetManager κ) (it : Option UInt32) : Use κ → Outcome (NetManager κ)
  | .onConnect ctx sessionId => .returns (s.enter (.onConnect ctx sessionId))
  | .onPassiveClean sessionId => .returns (s.enter (.onPassiveClean sessionId))
  | .writeMessage sessionId msg =>
      s.invoke it ⟨.writeMessage, [⟨some sessionId, none⟩, ⟨none, some msg⟩]⟩
  | .closeConnection sessionId => s.invoke it ⟨.closeConnection, [⟨some sessionId, none⟩]⟩

/-- `context_map_.find`. -/
def find (s : NetManager κ) (sessionId : UInt32) : Option UInt32 :=
  if (s.contextMap.lookup sessionId).isSome then some sessionId else none

/-- `net_manager` with the calls made so far. -/
structure Registry (κ : Type) where
  manager : NetManager κ
  calls : List (Use κ)

namespace Registry

def create : Registry κ := ⟨.create, []⟩

/-- One call, with what the iterator of `close_connection` happens to be. -/
def step (s : Registry κ) (action : Use κ × Option UInt32) : Option (Registry κ) :=
  match s.manager.perform action.2 action.1 with
  | .returns manager => some ⟨manager, s.calls ++ [action.1]⟩
  | .raises => none
  | .undefined => none

/-! ## What the calls say -/

/-- Behind the call the id no longer belongs to whom it belonged to. -/
def Undoes (sessionId : UInt32) : Use κ → Prop
  | .onConnect _ id => id = sessionId
  | .onPassiveClean id => id = sessionId
  | .writeMessage _ _ => False
  | .closeConnection id => UInt32.ofInt id = sessionId

def Connected (calls : List (Use κ)) (sessionId : UInt32) (ctx : κ) : Prop :=
  Since calls (.onConnect ctx sessionId) (Undoes sessionId)

/-- The map holds what the calls say. -/
def Exact (s : Registry κ) : Prop :=
  ∀ sessionId ctx,
    s.manager.contextMap.lookup sessionId = some ctx ↔ Connected s.calls sessionId ctx

/-- Only the context of the id is told, and when there is one. -/
def ToldTo (calls : List (Use κ)) (sessionId : UInt32) (what : Fired)
    (fired : List (κ × Fired)) : Prop :=
  (∀ ctx, Connected calls sessionId ctx → fired = [(ctx, what)]) ∧
    ((∀ ctx, ¬ Connected calls sessionId ctx) → fired = [])

/-- What contexts should be told by a call. -/
def Told (calls : List (Use κ)) (fired : List (κ × Fired)) : Use κ → Prop
  | .onConnect _ _ => fired = []
  | .onPassiveClean _ => fired = []
  | .writeMessage sessionId msg => ToldTo calls (UInt32.ofInt sessionId) (.write msg) fired
  | .closeConnection sessionId => ToldTo calls (UInt32.ofInt sessionId) .close fired

/-- The call returns, the map is exact behind it, and it has told whom it should. -/
def Honours (s : Registry κ) (action : Use κ × Option UInt32) : Prop :=
  ∃ s', s.step action = some s' ∧ s'.Exact ∧
    ∃ fired, s'.manager.fired = s.manager.fired ++ fired ∧ Told s.calls fired action.1

/-- The iterator of `close_connection` happens to be what `find` would have given. -/
def Lucky (s : Registry κ) : Use κ × Option UInt32 → Prop
  | (.closeConnection sessionId, it) => it = s.manager.find (UInt32.ofInt sessionId)
  | _ => True

instance (s : Registry κ) : (action : Use κ × Option UInt32) → Decidable (s.Lucky action)
  | (.closeConnection sessionId, it) =>
      inferInstanceAs (Decidable (it = s.manager.find (UInt32.ofInt sessionId)))
  | (.onConnect _ _, _) => .isTrue trivial
  | (.onPassiveClean _, _) => .isTrue trivial
  | (.writeMessage _ _, _) => .isTrue trivial

def Steps (s : Registry κ) (action : Use κ × Option UInt32) (s' : Registry κ) : Prop :=
  s.step action = some s'

/-! ## One call -/

theorem create_exact : (create : Registry κ).Exact := by
  intro sessionId ctx
  refine iff_of_false (by simp [create, NetManager.create]) ?_
  rintro ⟨before, after, split, -⟩
  exact absurd split (by simp [create])

/-- Whether an id is connected behind a call. -/
theorem connected_append {calls : List (Use κ)} {use : Use κ} {sessionId : UInt32} {ctx : κ} :
    Connected (calls ++ [use]) sessionId ctx ↔
      use = .onConnect ctx sessionId ∨
        Connected calls sessionId ctx ∧ ¬ Undoes sessionId use :=
  since_append_iff

/-- What an exact map answers, told to the context that it answers with. -/
theorem toldTo_iff {s : Registry κ} (exact : s.Exact) {sessionId : UInt32} {what : Fired}
    {fired : List (κ × Fired)} :
    ToldTo s.calls sessionId what fired ↔
      fired = ((s.manager.contextMap.lookup sessionId).map (·, what)).toList := by
  cases found : s.manager.contextMap.lookup sessionId with
  | none =>
      have nobody : ∀ ctx, ¬ Connected s.calls sessionId ctx := by
        intro ctx connected
        rw [(exact sessionId ctx).mpr connected] at found
        cases found
      constructor
      · intro told
        exact told.2 nobody
      · intro silent
        exact ⟨fun ctx of => absurd of (nobody ctx), fun _ => silent⟩
  | some ctx =>
      have connected := (exact sessionId ctx).mp found
      constructor
      · intro told
        exact told.1 ctx connected
      · intro same
        refine ⟨fun other also => ?_, fun nobody => absurd connected (nobody ctx)⟩
        rw [← exact, found] at also
        cases also
        exact same

theorem step_of_returns {s : Registry κ} {use : Use κ} {it : Option UInt32}
    {manager : NetManager κ} (returned : s.manager.perform it use = .returns manager) :
    s.step (use, it) = some ⟨manager, s.calls ++ [use]⟩ := by
  simp only [step, returned]

theorem onConnect_honours {s : Registry κ} (exact : s.Exact) (ctx : κ) (sessionId : UInt32)
    (it : Option UInt32) : s.Honours (.onConnect ctx sessionId, it) := by
  refine ⟨_, step_of_returns rfl, fun id other => ?_, [], by simp [enter], rfl⟩
  simp only [enter, connected_append, Use.onConnect.injEq, Undoes]
  obtain rfl | ne := eq_or_ne id sessionId
  · simp
  · simp [AList.lookup_insert_ne ne, exact id other, ne.symm]

theorem onPassiveClean_honours {s : Registry κ} (exact : s.Exact) (sessionId : UInt32)
    (it : Option UInt32) : s.Honours (.onPassiveClean sessionId, it) := by
  refine ⟨_, step_of_returns rfl, fun id other => ?_, [], by simp [enter], rfl⟩
  simp only [enter, connected_append, reduceCtorEq, false_or, Undoes]
  obtain rfl | ne := eq_or_ne id sessionId
  · simp
  · simp [AList.lookup_erase_ne ne, exact id other, ne.symm]

theorem writeMessage_honours {s : Registry κ} (exact : s.Exact) (sessionId : Int)
    (msg : List UInt8) (it : Option UInt32) : s.Honours (.writeMessage sessionId msg, it) := by
  have quiet : ∀ id other, s.manager.contextMap.lookup id = some other ↔
      Connected (s.calls ++ [.writeMessage sessionId msg]) id other := by
    intro id other
    simp [connected_append, Undoes, exact id other]
  cases found : s.manager.contextMap.lookup (UInt32.ofInt sessionId) with
  | none =>
      have returned : s.manager.perform it (.writeMessage sessionId msg) =
          .returns s.manager := by
        simp [perform, invoke, writeMessage, luaLCheckinteger, found]
      refine ⟨_, step_of_returns returned, quiet, [], by simp, ?_⟩
      exact (toldTo_iff exact).mpr (by simp [found])
  | some ctx =>
      have returned : s.manager.perform it (.writeMessage sessionId msg) =
          .returns { s.manager with fired := s.manager.fired ++ [(ctx, .write msg)] } := by
        simp [perform, invoke, writeMessage, luaLCheckinteger, luaLChecklstring, found]
      refine ⟨_, step_of_returns returned, quiet, [(ctx, .write msg)], rfl, ?_⟩
      exact (toldTo_iff exact).mpr (by simp [found])

/-! ## `close_connection` -/

theorem closeConnection_at_end (s : NetManager κ) (sessionId : Int) :
    s.perform none (.closeConnection sessionId) = .returns s := by
  simp [perform, invoke, closeConnection, luaLCheckinteger]

theorem closeConnection_nowhere {s : NetManager κ} {id : UInt32}
    (absent : s.contextMap.lookup id = none) (sessionId : Int) :
    s.perform (some id) (.closeConnection sessionId) = .undefined := by
  simp [perform, invoke, closeConnection, luaLCheckinteger, absent]

theorem closeConnection_somewhere {s : NetManager κ} {id : UInt32} {ctx : κ}
    (found : s.contextMap.lookup id = some ctx) (sessionId : Int) :
    s.perform (some id) (.closeConnection sessionId) =
      .returns { s with
        contextMap := s.contextMap.erase id
        fired := s.fired ++ [(ctx, .close)] } := by
  simp [perform, invoke, closeConnection, luaLCheckinteger, found]

/-- Who is connected behind a `close_connection`. -/
theorem connected_closeConnection {s : Registry κ} (exact : s.Exact) {sessionId : Int}
    {id : UInt32} {ctx : κ} :
    Connected (s.calls ++ [.closeConnection sessionId]) id ctx ↔
      s.manager.contextMap.lookup id = some ctx ∧ UInt32.ofInt sessionId ≠ id := by
  simp [connected_append, Undoes, exact id ctx]

/-- With the iterator that `find` gives, `close_connection` closes whom it should. -/
theorem closeConnection_honours {s : Registry κ} (exact : s.Exact) (sessionId : Int) :
    s.Honours (.closeConnection sessionId, s.manager.find (UInt32.ofInt sessionId)) := by
  cases found : s.manager.contextMap.lookup (UInt32.ofInt sessionId) with
  | none =>
      have absent : s.manager.find (UInt32.ofInt sessionId) = none := by simp [find, found]
      rw [absent]
      refine ⟨_, step_of_returns (closeConnection_at_end _ _), fun id ctx => ?_, [], by simp, ?_⟩
      · rw [connected_closeConnection exact]
        refine ⟨fun there => ⟨there, ?_⟩, And.left⟩
        rintro rfl
        rw [found] at there
        cases there
      · exact (toldTo_iff exact).mpr (by simp [found])
  | some ctx =>
      have present : s.manager.find (UInt32.ofInt sessionId) =
          some (UInt32.ofInt sessionId) := by simp [find, found]
      rw [present]
      refine ⟨_, step_of_returns (closeConnection_somewhere found _), fun id other => ?_,
        [(ctx, .close)], rfl, ?_⟩
      · rw [connected_closeConnection exact]
        obtain rfl | ne := eq_or_ne id (UInt32.ofInt sessionId)
        · simp
        · simp [AList.lookup_erase_ne ne, ne.symm]
      · exact (toldTo_iff exact).mpr (by simp [found])

/-- With any other iterator it leaves an id that is gone, takes one that is not,
or has no defined behaviour. -/
theorem closeConnection_lucky {s : Registry κ} (exact : s.Exact) {sessionId : Int}
    {it : Option UInt32} (honours : s.Honours (.closeConnection sessionId, it)) :
    it = s.manager.find (UInt32.ofInt sessionId) := by
  obtain ⟨s', step, exact', -⟩ := honours
  cases it with
  | none =>
      rw [step_of_returns (closeConnection_at_end _ _)] at step
      cases step
      cases found : s.manager.contextMap.lookup (UInt32.ofInt sessionId) with
      | none => simp [find, found]
      | some ctx =>
          have still := (exact' _ ctx).mp found
          exact absurd rfl ((connected_closeConnection exact).mp still).2
  | some id =>
      cases there : s.manager.contextMap.lookup id with
      | none =>
          have gone : s.step (.closeConnection sessionId, some id) = none := by
            simp only [Registry.step, closeConnection_nowhere there]
          rw [gone] at step
          cases step
      | some ctx =>
          rw [step_of_returns (closeConnection_somewhere there _)] at step
          cases step
          have same : UInt32.ofInt sessionId = id := by
            by_contra ne
            have kept := (exact' id ctx).mpr
              ((connected_closeConnection exact).mpr ⟨there, ne⟩)
            simp at kept
          subst same
          simp [find, there]

/-! ## Runs of calls -/

/-- One call keeps the books exactly when its iterator is not needed, or lucky. -/
theorem honours_iff {s : Registry κ} (exact : s.Exact) (action : Use κ × Option UInt32) :
    s.Honours action ↔ s.Lucky action := by
  obtain ⟨use, it⟩ := action
  cases use with
  | onConnect ctx sessionId => exact iff_of_true (onConnect_honours exact ctx sessionId it) trivial
  | onPassiveClean sessionId =>
      exact iff_of_true (onPassiveClean_honours exact sessionId it) trivial
  | writeMessage sessionId msg =>
      exact iff_of_true (writeMessage_honours exact sessionId msg it) trivial
  | closeConnection sessionId =>
      constructor
      · exact closeConnection_lucky exact
      · rintro rfl
        exact closeConnection_honours exact sessionId

theorem Honours.keeps {s s' : Registry κ} {action : Use κ × Option UInt32}
    (honours : s.Honours action) (step : s.Steps action s') : s'.Exact := by
  obtain ⟨reached, same, exact, -⟩ := honours
  rw [step] at same
  cases same
  exact exact

/-- In a run. -/
theorem along_honours_iff {s : Registry κ} (exact : s.Exact)
    (actions : List (Use κ × Option UInt32)) :
    Along (fun _ _ => True) Steps Honours s actions ↔
      Along (fun _ _ => True) Steps Lucky s actions :=
  along_congr (I := Exact) (fun _ action exact _ => honours_iff exact action)
    (fun _ _ _ _ _ honours step => honours.keeps step) exact actions

/-- Some iterator is never the one that `find` gives. -/
theorem exists_unlucky (s : NetManager κ) (sessionId : UInt32) :
    ∃ it, it ≠ s.find sessionId := by
  cases found : s.find sessionId with
  | none => exact ⟨some 0, nofun⟩
  | some id => exact ⟨none, nofun⟩

theorem along_lucky (s : Registry κ) {actions : List (Use κ × Option UInt32)}
    (never : ∀ sessionId, .closeConnection sessionId ∉ actions.map Prod.fst) :
    Along (fun _ _ => True) Steps Lucky s actions := by
  induction actions generalizing s with
  | nil => trivial
  | cons action rest ih =>
      obtain ⟨use, it⟩ := action
      refine fun _ => ⟨?_, fun s' _ => ih s' fun sessionId member => ?_⟩
      · cases use with
        | closeConnection sessionId => exact absurd (by simp) (never sessionId)
        | _ => trivial
      · exact never sessionId (List.mem_cons_of_mem _ member)

/-- Calls that are in order whatever the iterator happens to be close nothing. -/
theorem closes_nothing {s : Registry κ} (exact : s.Exact) {uses : List (Use κ)}
    (always : ∀ actions : List (Use κ × Option UInt32), actions.map Prod.fst = uses →
      Along (fun _ _ => True) Steps Honours s actions) (sessionId : Int) :
    .closeConnection sessionId ∉ uses := by
  induction uses generalizing s with
  | nil => exact List.not_mem_nil
  | cons use rest ih =>
      have head : ∀ it, s.Honours (use, it) := by
        intro it
        have whole := always ((use, it) :: rest.map (·, none)) (by simp [Function.comp_def])
        exact (whole trivial).1
      have tail : .closeConnection sessionId ∉ rest := by
        obtain ⟨s', step, exact', -⟩ := head none
        refine ih exact' fun actions same => ?_
        have whole := always ((use, none) :: actions) (by simp [same])
        exact (whole trivial).2 s' step
      intro member
      obtain rfl | behind := List.mem_cons.mp member
      · obtain ⟨it, unlucky⟩ := exists_unlucky s.manager (UInt32.ofInt sessionId)
        exact unlucky (closeConnection_lucky exact (head it))
      · exact tail behind

/-- The calls keep the map exact and tell whom they should as long as every
`close_connection` is lucky, and so whatever its iterator happens to be only where
there is no `close_connection`. -/
theorem registry_exact_iff :
    (∀ actions : List (Use κ × Option UInt32),
      Along (fun _ _ => True) Steps Honours create actions ↔
        Along (fun _ _ => True) Steps Lucky create actions) ∧
    ∀ uses : List (Use κ),
      (∀ actions : List (Use κ × Option UInt32), actions.map Prod.fst = uses →
        Along (fun _ _ => True) Steps Honours create actions) ↔
      ∀ sessionId, .closeConnection sessionId ∉ uses := by
  refine ⟨along_honours_iff create_exact, fun uses => ⟨closes_nothing create_exact, ?_⟩⟩
  rintro never actions rfl
  exact (along_honours_iff create_exact actions).mpr (along_lucky create never)

/-- Two connections, of which the script closes the first: either nothing is closed,
or the other one. -/
def twoConnections (it : Option UInt32) : List (Use Bool × Option UInt32) :=
  [(.onConnect true 1, none), (.onConnect false 2, none), (.closeConnection 1, it)]

theorem closeConnection_stray :
    ¬ Along (fun _ _ => True) Steps Honours create (twoConnections none) ∧
      ¬ Along (fun _ _ => True) Steps Honours create (twoConnections (some 2)) := by
  rw [along_honours_iff create_exact, along_honours_iff create_exact]
  constructor
  · intro lucky
    have third := ((lucky trivial).2 _ rfl trivial).2 _ rfl trivial
    exact absurd third.1 (by decide +kernel)
  · intro lucky
    have third := ((lucky trivial).2 _ rfl trivial).2 _ rfl trivial
    exact absurd third.1 (by decide +kernel)

end Registry

end FysobEngine.Net.NetManager
