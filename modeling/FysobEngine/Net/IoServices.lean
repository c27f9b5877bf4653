import FysobEngine.Foundation.Networks
import FysobEngine.Net.Server
import FysobEngine.Net.SessionFrame

/-!
# Sessions on shared services

The sessions of a process share the `io_service` objects of their pools. Each of
these has one thread, which runs the tasks of all its sessions one after another.
Seen from one session, it is alone.
-/

namespace FysobEngine.Net

open Foundation.Runs Foundation.Networks

/-- A task that a session has posted, to the service of its socket or to its work
service. -/
inductive Posted where
  | io (task : IoTask)
  | work (task : WorkTask)
  deriving DecidableEq, Repr

namespace Posted

def ioTask : Posted → Option IoTask
  | .io task => some task
  | .work _ => none

def workTask : Posted → Option WorkTask
  | .io _ => none
  | .work task => some task

/-- The action of a session that runs it. -/
def action (decode : List HandlerCall) : Posted → Session.Action
  | .io _ => .runIo
  | .work _ => .runWork decode

end Posted

/-- The services of the sessions, and how each session is set up. -/
structure Hosting (ι θ : Type) where
  ioService : ι → θ
  workService : ι → θ
  settings : ι → Settings

/-- The sessions without the tasks that they have posted, and the tasks that each
service has still to run. -/
structure Services (ι θ β : Type) where
  sessions : ι → Session β
  queues : θ → List (ι × Posted)

/-- What can happen: anything but a task to one session, or the next task of one
service. A step posts tasks in some order. -/
inductive ServiceEvent (ι θ : Type) where
  | act (session : ι) (action : Session.Action) (order : List Posted)
  | run (service : θ) (decode : List HandlerCall) (order : List Posted)

namespace Hosting

variable {ι θ β : Type} [DecidableEq ι] [DecidableEq θ] (h : Hosting ι θ)

/-- The service that a task is posted to. -/
def serviceOf (i : ι) : Posted → θ
  | .io _ => h.ioService i
  | .work _ => h.workService i

/-- No session has been started. -/
def fresh [SessionBuffer β] : Services ι θ β := ⟨fun _ => .create, fun _ => []⟩

/-- A session has made a step and hands the tasks that it has posted to its services. -/
def handOver (n : Services ι θ β) (i : ι) (order : List Posted) (s : Session β) :
    Option (Services ι θ β) :=
  if order.filterMap Posted.ioTask = s.ioQueue ∧ order.filterMap Posted.workTask = s.workQueue then
    some {
      sessions := Function.update n.sessions i { s with ioQueue := [], workQueue := [] }
      queues := fun k => n.queues k ++
        (order.filter fun posted => h.serviceOf i posted = k).map fun posted => (i, posted) }
  else none

variable [SessionBuffer β]

/-- A task runs on its session, which has no other. -/
def runTask (s : Session β) (i : ι) (decode : List HandlerCall) : Posted → Option (Session β)
  | .io task => ({ s with ioQueue := [task] } : Session β).step (h.settings i) .runIo
  | .work task =>
      ({ s with workQueue := [task] } : Session β).step (h.settings i) (.runWork decode)

def step (n : Services ι θ β) : ServiceEvent ι θ → Option (Services ι θ β)
  | .act i action order =>
      if action.runs then none
      else ((n.sessions i).step (h.settings i) action).bind (h.handOver n i order)
  | .run k decode order =>
      match n.queues k with
      | [] => none
      | (i, posted) :: rest =>
          (h.runTask (n.sessions i) i decode posted).bind
            (h.handOver { n with queues := Function.update n.queues k rest } i order)

/-- The step relation. -/
def Steps (n : Services ι θ β) (event : ServiceEvent ι θ) (n' : Services ι θ β) : Prop :=
  h.step n event = some n'

/-! ## One session among the others -/

section Views

omit [SessionBuffer β] [DecidableEq θ]

/-- The tasks of a session in the queue of a service. -/
def tasksOf (i : ι) (queue : List (ι × Posted)) : List Posted :=
  queue.filterMap fun entry => if entry.1 = i then some entry.2 else none

/-- A session with the tasks that are queued for it. -/
def view (n : Services ι θ β) (i : ι) : Session β :=
  (n.sessions i).ahead ((tasksOf i (n.queues (h.ioService i))).filterMap Posted.ioTask)
    ((tasksOf i (n.queues (h.workService i))).filterMap Posted.workTask)

end Views

/-- What a step does to one session. -/
def acted (n : Services ι θ β) : ServiceEvent ι θ → List (ι × Session.Action)
  | .act i action _ => [(i, action)]
  | .run k decode _ =>
      match n.queues k with
      | [] => []
      | (i, posted) :: _ => [(i, posted.action decode)]

/-- Every task is queued, and at its own service. -/
structure Placed (n : Services ι θ β) : Prop where
  io (i : ι) : (n.sessions i).ioQueue = []
  work (i : ι) : (n.sessions i).workQueue = []
  own (k : θ) (entry : ι × Posted) : entry ∈ n.queues k → h.serviceOf entry.1 entry.2 = k

variable {h} {n n' : Services ι θ β} {i : ι}

section HandOver

omit [SessionBuffer β]

variable {order : List Posted} {s : Session β}

theorem handOver_some
    (handed : h.handOver n i order s = some n') :
    order.filterMap Posted.ioTask = s.ioQueue ∧ order.filterMap Posted.workTask = s.workQueue ∧
      n' = {
        sessions := Function.update n.sessions i { s with ioQueue := [], workQueue := [] }
        queues := fun k => n.queues k ++
          (order.filter fun posted => h.serviceOf i posted = k).map fun posted =>
            (i, posted) } := by
  unfold handOver at handed
  by_cases posted : order.filterMap Posted.ioTask = s.ioQueue ∧
      order.filterMap Posted.workTask = s.workQueue
  · rw [if_pos posted] at handed
    exact ⟨posted.1, posted.2, (Option.some.inj handed).symm⟩
  · rw [if_neg posted] at handed
    cases handed

omit [DecidableEq ι] in
/-- What a session has posted to one service, of one kind. -/
theorem filterMap_serviceOf {γ : Type} {k : θ} (f : Posted → Option γ)
    (there : ∀ posted, f posted ≠ none → h.serviceOf i posted = k) (order : List Posted) :
    (order.filter fun posted => h.serviceOf i posted = k).filterMap f = order.filterMap f := by
  rw [List.filterMap_filter]
  refine List.filterMap_congr fun posted _ => ?_
  by_cases here : h.serviceOf i posted = k
  · rw [if_pos (decide_eq_true here)]
  · rw [if_neg (by simpa using here)]
    exact (not_not.mp fun some => here (there posted some)).symm

omit [DecidableEq θ] in
theorem tasksOf_append (i j : ι) (queue : List (ι × Posted)) (tasks : List Posted) :
    tasksOf i (queue ++ tasks.map fun posted => (j, posted)) =
      tasksOf i queue ++ if j = i then tasks else [] := by
  unfold tasksOf
  rw [List.filterMap_append, List.filterMap_map]
  congr 1
  by_cases same : j = i
  · rw [if_pos same]
    exact (List.filterMap_congr fun posted _ => if_pos same).trans List.filterMap_some
  · rw [if_neg same]
    exact List.filterMap_eq_nil_iff.mpr fun posted _ => if_neg same

/-- The tasks that a session hands over come behind those that are queued for it. -/
theorem view_handOver (handed : h.handOver n i order s = some n') :
    h.view n' i = s.ahead ((tasksOf i (n.queues (h.ioService i))).filterMap Posted.ioTask)
      ((tasksOf i (n.queues (h.workService i))).filterMap Posted.workTask) := by
  obtain ⟨io, work, rfl⟩ := handOver_some handed
  have ios := filterMap_serviceOf (h := h) (i := i) (k := h.ioService i) Posted.ioTask
    (fun posted some => by cases posted <;> [rfl; exact (some rfl).elim]) order
  have works := filterMap_serviceOf (h := h) (i := i) (k := h.workService i) Posted.workTask
    (fun posted some => by cases posted <;> [exact (some rfl).elim; rfl]) order
  simp only [view, tasksOf_append, Function.update_self, Session.ahead, if_true,
    List.filterMap_append, ios, works, io, work, List.append_nil]

/-- The other sessions do not see it. -/
theorem view_handOver_other (handed : h.handOver n i order s = some n') {j : ι} (other : j ≠ i) :
    h.view n' j = h.view n j := by
  obtain ⟨_, _, rfl⟩ := handOver_some handed
  simp only [view, tasksOf_append, Function.update_of_ne other, if_neg (Ne.symm other),
    List.append_nil]

theorem Placed.handOver (placed : h.Placed n) (handed : h.handOver n i order s = some n') :
    h.Placed n' := by
  obtain ⟨_, _, rfl⟩ := handOver_some handed
  have empty (j : ι) : (Function.update n.sessions i
      { s with ioQueue := [], workQueue := [] } j).ioQueue = [] ∧
      (Function.update n.sessions i
        { s with ioQueue := [], workQueue := [] } j).workQueue = [] := by
    by_cases same : j = i
    · subst same
      simp only [Function.update_self, and_self]
    · rw [Function.update_of_ne same]
      exact ⟨placed.io j, placed.work j⟩
  refine ⟨fun j => (empty j).1, fun j => (empty j).2, fun k entry queued => ?_⟩
  rcases List.mem_append.mp queued with before | posted
  · exact placed.own k entry before
  · obtain ⟨_, there, rfl⟩ := List.mem_map.mp posted
    exact of_decide_eq_true (List.mem_filter.mp there).2

end HandOver

section Taken

omit [SessionBuffer β]

variable {k : θ} {posted : Posted} {rest : List (ι × Posted)}

omit [DecidableEq ι] in
theorem Placed.taken (placed : h.Placed n) (queue : n.queues k = (i, posted) :: rest) :
    h.Placed { n with queues := Function.update n.queues k rest } := by
  refine ⟨placed.io, placed.work, fun k' entry queued => ?_⟩
  replace queued : entry ∈ Function.update n.queues k rest k' := queued
  by_cases same : k' = k
  · subst same
    rw [Function.update_self] at queued
    exact placed.own k' entry (queue ▸ List.mem_cons_of_mem _ queued)
  · rw [Function.update_of_ne same] at queued
    exact placed.own k' entry queued

/-- The first task of a service is the first of its session there. -/
theorem tasksOf_taken (queue : n.queues k = (i, posted) :: rest) (j : ι) (k' : θ) :
    tasksOf j (n.queues k') =
      (if i = j ∧ k' = k then [posted] else []) ++
        tasksOf j (Function.update n.queues k rest k') := by
  by_cases same : k' = k
  · subst same
    rw [Function.update_self, queue, tasksOf, List.filterMap_cons]
    by_cases own : i = j
    · rw [if_pos own, if_pos ⟨own, rfl⟩]
      rfl
    · rw [if_neg own, if_neg fun both => own both.1]
      rfl
  · rw [Function.update_of_ne same, if_neg fun both => same both.2, List.nil_append]

theorem view_taken_other (queue : n.queues k = (i, posted) :: rest) {j : ι} (other : j ≠ i) :
    h.view { n with queues := Function.update n.queues k rest } j = h.view n j := by
  simp only [view, tasksOf_taken queue j, Ne.symm other, false_and, if_false, List.nil_append]

end Taken

/-! ## The steps of a session alone -/

/-- The first task of a service, as the session has it that posted it. -/
theorem view_runTask {k : θ} {posted : Posted} {rest : List (ι × Posted)} {s : Session β}
    (placed : h.Placed n) (queue : n.queues k = (i, posted) :: rest) {decode : List HandlerCall}
    (ran : h.runTask (n.sessions i) i decode posted = some s) :
    (h.view n i).step (h.settings i) (posted.action decode) =
      some (s.ahead
        ((tasksOf i (Function.update n.queues k rest (h.ioService i))).filterMap Posted.ioTask)
        ((tasksOf i (Function.update n.queues k rest (h.workService i))).filterMap
          Posted.workTask)) := by
  have here : h.serviceOf i posted = k := placed.own k (i, posted) (queue ▸ List.mem_cons_self)
  cases posted with
  | io task =>
      have first : (tasksOf i (n.queues (h.ioService i))).filterMap Posted.ioTask = task ::
          (tasksOf i (Function.update n.queues k rest (h.ioService i))).filterMap
            Posted.ioTask := by
        rw [tasksOf_taken queue, if_pos ⟨rfl, here⟩]
        rfl
      have other : (tasksOf i (n.queues (h.workService i))).filterMap Posted.workTask =
          (tasksOf i (Function.update n.queues k rest (h.workService i))).filterMap
            Posted.workTask := by
        rw [tasksOf_taken queue, List.filterMap_append]
        split_ifs <;> rfl
      rw [view, first, other]
      exact (Session.ahead_runIo _ _ (placed.io i)).trans (congrArg _ ran)
  | work task =>
      have first : (tasksOf i (n.queues (h.workService i))).filterMap Posted.workTask = task ::
          (tasksOf i (Function.update n.queues k rest (h.workService i))).filterMap
            Posted.workTask := by
        rw [tasksOf_taken queue, if_pos ⟨rfl, here⟩]
        rfl
      have other : (tasksOf i (n.queues (h.ioService i))).filterMap Posted.ioTask =
          (tasksOf i (Function.update n.queues k rest (h.ioService i))).filterMap
            Posted.ioTask := by
        rw [tasksOf_taken queue, List.filterMap_append]
        split_ifs <;> rfl
      rw [view, first, other]
      exact (Session.ahead_runWork _ _ (placed.work i) decode).trans (congrArg _ ran)

theorem step_act {action : Session.Action} {order : List Posted}
    (step : h.step n (.act i action order) = some n') :
    action.runs = false ∧ ∃ s, (n.sessions i).step (h.settings i) action = some s ∧
      h.handOver n i order s = some n' := by
  cases runs : action.runs with
  | true =>
      simp only [Hosting.step, runs, if_true] at step
      cases step
  | false =>
      simp only [Hosting.step, runs] at step
      exact ⟨rfl, Option.bind_eq_some_iff.mp step⟩

theorem step_run {k : θ} {decode : List HandlerCall} {order : List Posted}
    (step : h.step n (.run k decode order) = some n') :
    ∃ i posted rest, n.queues k = (i, posted) :: rest ∧
      ∃ s, h.runTask (n.sessions i) i decode posted = some s ∧
        h.handOver { n with queues := Function.update n.queues k rest } i order s = some n' := by
  cases queue : n.queues k with
  | nil =>
      simp only [Hosting.step, queue] at step
      cases step
  | cons entry rest =>
      simp only [Hosting.step, queue] at step
      exact ⟨entry.1, entry.2, rest, rfl, Option.bind_eq_some_iff.mp step⟩

/-- A step of the whole is a step of one session, and no step of the others. -/
theorem step_alone {event : ServiceEvent ι θ} (placed : h.Placed n)
    (step : h.step n event = some n') :
    h.Placed n' ∧ ∀ j, Reached (fun _ _ => True) (Session.Steps (h.settings j)) (h.view n j)
      (actionsOf j (acted n event)) (h.view n' j) := by
  cases event with
  | act i action order =>
      obtain ⟨runs, s, done, handed⟩ := step_act step
      refine ⟨placed.handOver handed, fun j => ?_⟩
      rw [acted]
      by_cases same : i = j
      · subst same
        rw [Wiring.actionsOf_same, view_handOver handed]
        exact .cons trivial ((Session.ahead_step _ _ runs).trans (congrArg _ done)) (.nil _)
      · rw [Wiring.actionsOf_other same, view_handOver_other handed (Ne.symm same)]
        exact .nil _
  | run k decode order =>
      obtain ⟨i, posted, rest, queue, s, ran, handed⟩ := step_run step
      refine ⟨(placed.taken queue).handOver handed, fun j => ?_⟩
      simp only [acted, queue]
      by_cases same : i = j
      · subst same
        rw [Wiring.actionsOf_same, view_handOver handed]
        exact .cons trivial (view_runTask placed queue ran) (.nil _)
      · rw [Wiring.actionsOf_other same, view_handOver_other handed (Ne.symm same),
          view_taken_other queue (Ne.symm same)]
        exact .nil _

theorem reached_alone {events : List (ServiceEvent ι θ)} (placed : h.Placed n)
    (run : Reached (fun _ _ => True) h.Steps n events n') (j : ι) :
    Reached (fun _ _ => True) (Session.Steps (h.settings j)) (h.view n j)
      (actionsOf j (produced h.step acted n events)) (h.view n' j) := by
  unfold Steps at run
  induction run with
  | nil n => exact .nil _
  | @cons n middle last event rest _ step _ ih =>
      obtain ⟨kept, alone⟩ := step_alone placed step
      rw [produced, step, Wiring.actionsOf_append]
      exact (alone j).append (ih kept)

omit [DecidableEq ι] [DecidableEq θ] in
theorem fresh_placed : h.Placed (fresh : Services ι θ β) :=
  ⟨fun _ => rfl, fun _ => rfl, fun _ _ queued => absurd queued List.not_mem_nil⟩

/-- Seen from one session, every run of all of them on their services is a run of its
own. -/
theorem sessions_alone {n : Services ι θ β} {events : List (ServiceEvent ι θ)}
    (run : Reached (fun _ _ => True) h.Steps (fresh : Services ι θ β) events n) (i : ι) :
    Reached (fun _ _ => True) (Session.Steps (h.settings i)) .create
      (actionsOf i (produced h.step acted (fresh : Services ι θ β) events)) (h.view n i) :=
  reached_alone fresh_placed run i

/-- Two sessions whose tasks go to one service. -/
def shared : Hosting Bool Unit where
  ioService _ := ()
  workService _ := ()
  settings _ := ⟨0, 0, false, false⟩

/-- Both write, and the service runs the task of the first. -/
def turns : List (ServiceEvent Bool Unit) :=
  [.act false (.start []) [], .act true (.start []) [], .act false (.write [1]) [.io .write],
    .act true (.write [2]) [.io .write], .run () [] []]

theorem turns_alone : ∃ n : Services Bool Unit AsioBuffer,
    last shared.step fresh turns = some n ∧ ∀ one,
      Reached (fun _ _ => True) (Session.Steps (shared.settings one)) .create
        (actionsOf one (produced shared.step acted (fresh : Services Bool Unit AsioBuffer) turns))
        (shared.view n one) := by
  have runs : (last shared.step (fresh : Services Bool Unit AsioBuffer) turns).isSome = true := by
    decide +kernel
  obtain ⟨n, run⟩ := Option.isSome_iff_exists.mp runs
  exact ⟨n, run, fun one => sessions_alone (reached_last run) one⟩

end Hosting

end FysobEngine.Net
