import Mathlib.Data.Int.CardIntervalMod
import FysobEngine.Net.ServerRelease

/-!
# Pools of services

`io_service_pool` gives its services away in turn. A server draws the two services
of a session when it begins to wait for it, so it draws for those too that are never
accepted.
-/

namespace FysobEngine.Net

open Foundation.Runs

/-- `io_service_pool`, whose services are the numbers below `size`. -/
structure IoServicePool where
  size : Nat
  nextIoService : Nat
  inside : nextIoService < size

namespace IoServicePool

/-- The constructor. -/
def create (poolSize : Nat) : Except String IoServicePool :=
  if empty : poolSize = 0 then .error "io_service_pool size is 0"
  else .ok ⟨poolSize, 0, Nat.pos_of_ne_zero empty⟩

/-- `get_io_service`. -/
def getIoService (pool : IoServicePool) : Nat × IoServicePool :=
  (pool.nextIoService,
    if last : pool.nextIoService + 1 = pool.size then
      { pool with nextIoService := 0, inside := last ▸ Nat.succ_pos _ }
    else
      { pool with
        nextIoService := pool.nextIoService + 1
        inside := Nat.lt_of_le_of_ne pool.inside last })

/-- The pool when it has been asked this often. -/
structure Asked (poolSize : Nat) (pool : IoServicePool) (times : Nat) : Prop where
  size : pool.size = poolSize
  next : pool.nextIoService = times % poolSize

variable {size times : Nat} {pool : IoServicePool}

theorem create_asked (created : create size = .ok pool) : Asked size pool 0 := by
  unfold create at created
  by_cases empty : size = 0
  · rw [dif_pos empty] at created
    cases created
  · rw [dif_neg empty] at created
    cases created
    exact ⟨rfl, (Nat.zero_mod size).symm⟩

theorem Asked.service (asked : Asked size pool times) : pool.getIoService.1 = times % size :=
  asked.next

theorem Asked.again (asked : Asked size pool times) :
    Asked size pool.getIoService.2 (times + 1) := by
  obtain ⟨rfl, next⟩ := asked
  unfold getIoService
  by_cases last : pool.nextIoService + 1 = pool.size
  · refine ⟨by rw [dif_pos last], ?_⟩
    rw [dif_pos last, ← Nat.mod_add_mod, ← next, last, Nat.mod_self]
  · have below : pool.nextIoService + 1 < pool.size := Nat.lt_of_le_of_ne pool.inside last
    refine ⟨by rw [dif_neg last], ?_⟩
    rw [dif_neg last, ← Nat.mod_add_mod, ← next, Nat.mod_eq_of_lt below]

end IoServicePool

/-- Numbers dealt out in turn reach every place about equally often. -/
theorem count_turns {size : Nat} (times : Nat) {j k : Nat} (first : j < size) (second : k < size) :
    ((List.range times).map (· % size)).count j ≤
      ((List.range times).map (· % size)).count k + 1 := by
  have positive : 0 < size := Nat.zero_lt_of_lt first
  have share {k : Nat} (below : k < size) : ((List.range times).map (· % size)).count k =
      times / size + if k % size < times % size then 1 else 0 := by
    rw [List.count_eq_countP, List.countP_map, ← Nat.count_modEq_card times positive k, Nat.count]
    refine List.countP_congr fun m _ => ?_
    simp [Nat.ModEq, Nat.mod_eq_of_lt below]
  rw [share first, share second]
  split_ifs <;> omega

/-- A server with its pools, the services of the session that `accept` waits for, and
those of every session that it has accepted. -/
structure PooledServer (β : Type) where
  server : Server β
  ioServicePool : IoServicePool
  ioServiceWorkPool : IoServicePool
  waiting : Nat × Nat
  served : List (Nat × Nat)

namespace PooledServer

variable {β : Type}

/-- What `accept` draws for a session: its work service and the service of its socket. -/
def draw (s : PooledServer β) : PooledServer β :=
  { s with
    ioServicePool := s.ioServicePool.getIoService.2
    ioServiceWorkPool := s.ioServiceWorkPool.getIoService.2
    waiting := (s.ioServiceWorkPool.getIoService.1, s.ioServicePool.getIoService.1) }

/-- The constructor. -/
def create (poolSize counter : Nat) : Except String (PooledServer β) := do
  let ioServicePool ← IoServicePool.create poolSize
  let ioServiceWorkPool ← IoServicePool.create poolSize
  return draw ⟨.create counter, ioServicePool, ioServiceWorkPool, (0, 0), []⟩

/-- The pools behind a step of the server. `handle_accept` ends in `accept`, with an
error too. -/
def drawFor (s : PooledServer β) : Server.Action → PooledServer β
  | .handleAccept _ => draw { s with served := s.served ++ [s.waiting] }
  | .acceptAgain => s.draw
  | _ => s

variable [SessionBuffer β] (settings : Settings)

def step (s : PooledServer β) (action : Server.Action) : Option (PooledServer β) :=
  (s.server.step settings action).map fun server => drawFor { s with server := server } action

/-- The step relation. -/
def Steps (s : PooledServer β) (action : Server.Action) (s' : PooledServer β) : Prop :=
  s.step settings action = some s'

/-- The numbers of the calls of `accept` whose sessions are accepted, when it has been
called `calls` times before. -/
def acceptedCalls : Nat → List Server.Action → List Nat
  | _, [] => []
  | calls, .handleAccept _ :: rest => calls :: acceptedCalls (calls + 1) rest
  | calls, .acceptAgain :: rest => acceptedCalls (calls + 1) rest
  | calls, _ :: rest => acceptedCalls calls rest

/-- The pools when `accept` has been called once more than `calls` times. -/
structure Dealt (poolSize calls : Nat) (s : PooledServer β) : Prop where
  io : s.ioServicePool.Asked poolSize (calls + 1)
  work : s.ioServiceWorkPool.Asked poolSize (calls + 1)
  waiting : s.waiting = (calls % poolSize, calls % poolSize)

variable {poolSize counter calls : Nat} {settings} {s s' : PooledServer β}

omit [SessionBuffer β]

theorem draw_dealt (io : s.ioServicePool.Asked poolSize calls)
    (work : s.ioServiceWorkPool.Asked poolSize calls) : Dealt poolSize calls s.draw :=
  ⟨io.again, work.again, Prod.ext work.service io.service⟩

theorem create_dealt (created : create poolSize counter = .ok s) :
    Dealt poolSize 0 s ∧ s.served = [] ∧ s.server = .create counter := by
  unfold create at created
  cases pool : IoServicePool.create poolSize with
  | error text =>
      rw [pool] at created
      cases created
  | ok ioServicePool =>
      rw [pool] at created
      cases created
      have asked := IoServicePool.create_asked pool
      exact ⟨draw_dealt asked asked, rfl, rfl⟩

variable [SessionBuffer β]

theorem step_some {action : Server.Action} (step : s.Steps settings action s') :
    ∃ server, s.server.step settings action = some server ∧
      s' = drawFor { s with server := server } action := by
  obtain ⟨server, done, result⟩ := Option.map_eq_some_iff.mp step
  exact ⟨server, done, result.symm⟩

/-- The pools deal out their services in turn. -/
theorem reached_served {actions : List Server.Action} (dealt : Dealt poolSize calls s)
    (run : Reached (fun _ _ => True) (Steps settings) s actions s') :
    s'.served = s.served ++
      (acceptedCalls calls actions).map fun m => (m % poolSize, m % poolSize) := by
  induction run generalizing calls with
  | nil s => simp [acceptedCalls]
  | @cons s middle last action rest _ step _ ih =>
      obtain ⟨server, _, rfl⟩ := step_some step
      cases action with
      | handleAccept connect =>
          rw [ih (draw_dealt dealt.io dealt.work), acceptedCalls, List.map_cons, ← dealt.waiting]
          exact List.append_assoc s.served [s.waiting] _
      | acceptAgain => exact ih (draw_dealt dealt.io dealt.work)
      | drawId => exact ih ⟨dealt.io, dealt.work, dealt.waiting⟩
      | handleCheckIdle => exact ih ⟨dealt.io, dealt.work, dealt.waiting⟩
      | session number action => exact ih ⟨dealt.io, dealt.work, dealt.waiting⟩

theorem acceptedCalls_range' {actions : List Server.Action} (accepts : .acceptAgain ∉ actions)
    (calls : Nat) : ∃ n, acceptedCalls calls actions = List.range' calls n := by
  induction actions generalizing calls with
  | nil => exact ⟨0, rfl⟩
  | cons action rest ih =>
      obtain ⟨first, others⟩ := not_or.mp (List.mem_cons.not.mp accepts)
      cases action with
      | handleAccept connect =>
          obtain ⟨n, same⟩ := ih others (calls + 1)
          exact ⟨n + 1, congrArg (calls :: ·) same⟩
      | acceptAgain => exact absurd rfl first
      | drawId => exact ih others calls
      | handleCheckIdle => exact ih others calls
      | session number action => exact ih others calls

end PooledServer

namespace Server

variable {β : Type} [SessionBuffer β] {settings : Settings} {s s' : Server β}

omit [SessionBuffer β] in
theorem handleCheckIdle_length (s : Server β) :
    s.handleCheckIdle.sessions.length = s.sessions.length := by
  unfold handleCheckIdle
  refine List.foldlRecOn (motive := fun t : Server β => t.sessions.length = s.sessions.length)
    s.sessionMap.entries _ rfl fun t same entry _ => ?_
  unfold checkIdleSession
  split
  · split
    · exact List.length_set.trans same
    · exact same
  · exact same

theorem sessionStep_length {number : Nat} {action : Session.Action}
    (done : s.sessionStep settings number action = some s') :
    s'.sessions.length = s.sessions.length := by
  obtain ⟨own, before, after, _, _, rfl⟩ := sessionStep_cases done
  rw [(closeSessions_drops _ _).sessions]
  exact List.length_set

theorem step_length {action : Action} (step : s.Steps settings action s') :
    s'.sessions.length = s.sessions.length + (PooledServer.acceptedCalls 0 [action]).length := by
  cases action with
  | handleAccept connect =>
      obtain ⟨middle, done, result⟩ := Option.bind_eq_some_iff.mp step
      cases result
      exact (sessionStep_length done).trans List.length_append
  | acceptAgain =>
      cases step
      rfl
  | drawId =>
      cases step
      rfl
  | handleCheckIdle =>
      cases step
      exact handleCheckIdle_length s
  | session number action => exact sessionStep_length step

end Server

namespace PooledServer

variable {β : Type} [SessionBuffer β] {settings : Settings} {s s' : PooledServer β}

theorem step_served_length {action : Server.Action} (step : s.Steps settings action s')
    (same : s.served.length = s.server.sessions.length) :
    s'.served.length = s'.server.sessions.length := by
  obtain ⟨server, done, rfl⟩ := step_some step
  have length := Server.step_length done
  cases action with
  | handleAccept connect =>
      exact (List.length_append.trans (congrArg (· + 1) same)).trans length.symm
  | acceptAgain => exact same.trans length.symm
  | drawId => exact same.trans length.symm
  | handleCheckIdle => exact same.trans length.symm
  | session number action => exact same.trans length.symm

/-- Every session has the same turn at both pools, whatever fails in between. While no
accept fails, no service has two sessions more than another. -/
theorem services_spread {poolSize counter : Nat} {actions : List Server.Action}
    (created : create poolSize counter = .ok s)
    (run : Reached (fun _ _ => True) (Steps settings) s actions s') :
    s'.served.length = s'.server.sessions.length ∧
      s'.served = (acceptedCalls 0 actions).map (fun m => (m % poolSize, m % poolSize)) ∧
      (.acceptAgain ∉ actions → ∀ j k, j < poolSize → k < poolSize →
        s'.served.count (j, j) ≤ s'.served.count (k, k) + 1) := by
  obtain ⟨dealt, none, server⟩ := create_dealt created
  have served := reached_served dealt run
  rw [none, List.nil_append] at served
  refine ⟨?_, served, fun accepts j k first second => ?_⟩
  · refine run.invariant_all (I := fun s => s.served.length = s.server.sessions.length)
      (fun s a s' same _ step => step_served_length step same) ?_
    rw [none, server]
    rfl
  · obtain ⟨n, calls⟩ := acceptedCalls_range' accepts 0
    have turns : s'.served = ((List.range n).map (· % poolSize)).map fun m => (m, m) := by
      rw [served, calls, ← List.range_eq_range', List.map_map]
      rfl
    have twice : Function.Injective fun m : Nat => (m, m) := fun m n same => congrArg Prod.fst same
    rw [turns, List.count_map_of_injective _ _ twice, List.count_map_of_injective _ _ twice]
    exact count_turns n first second

/-- One session more than there are services. -/
def threeVisitors : List Server.Action := [.handleAccept [], .handleAccept [], .handleAccept []]

theorem threeVisitors_spread : ∃ s s' : PooledServer AsioBuffer, create 2 0 = .ok s ∧
    last (step ⟨0, 0, false, false⟩) s threeVisitors = some s' ∧
      s'.served = [(0, 0), (1, 1), (0, 0)] := by
  obtain ⟨s, created⟩ : ∃ s : PooledServer AsioBuffer, create 2 0 = .ok s := ⟨_, rfl⟩
  have runs : (create 2 0 : Except String (PooledServer AsioBuffer)).toOption.any (fun s =>
      (last (step ⟨0, 0, false, false⟩) s threeVisitors).isSome) = true := by
    decide +kernel
  rw [created] at runs
  obtain ⟨s', run⟩ := Option.isSome_iff_exists.mp runs
  exact ⟨s, s', created, run, (services_spread created (reached_last run)).2.1⟩

end PooledServer

end FysobEngine.Net
