import FysobEngine.Common.LinkedTimerCallbacks
import FysobEngine.Common.TimerDeadlines

/-!
# Bookkeeping of the timer

Every run of the linked timer is one of the timer whose spokes are lists. Between
two calls the map and the spokes agree, and a task that has been removed is never
fired again.
-/

namespace FysobEngine.Common.LinkedTimer

open Foundation.LinkRings Foundation.Logs Foundation.Runs
open Timer (wheelNum wheelSize)

variable {clock : Nat → Nat} {script : Nat → List Call} {s s' : LinkedTimer} {t : Timer}

/-! ## Entry points -/

/-- What a run keeps beside the same run on lists. -/
structure Kept (s : LinkedTimer) (t : Timer) : Prop where
  books : Books s t .ready []
  bounded : t.Bounded
  empty : t.readyNodes = []

theorem create_kept (clock : Nat → Nat) : Kept (create clock) (Timer.create clock) := by
  have bounded := (Timer.create_inv clock).2
  refine ⟨⟨⟨⟨rfl, rfl, fun _ => rfl, rfl, rfl, rfl, rfl⟩, ?_, rfl, ?_, ?_, ?_, nofun, nofun, ?_⟩,
    ?_, Ledger.create, nofun, List.nodup_nil⟩, bounded, rfl⟩
  · have empty (spot : Spot) : (Timer.create clock).linksAt spot = [] := by cases spot <;> rfl
    refine ⟨fun spot => ?_, fun spot => ?_, fun one two link here there => ?_,
      fun one two => ?_, fun one two same => ?_⟩
    · rw [empty]
      cases spot <;> exact ⟨rfl, rfl⟩
    · rw [empty]
      exact List.nodup_singleton _
    · rw [empty, List.mem_singleton] at here there
      rw [here] at there
      cases one <;> cases two <;> simp_all [Spot.first]
    · rw [empty]
      exact List.not_mem_nil
    · cases one <;> cases two <;> simp_all [Spot.last]
  · intro spot node member
    cases spot <;> cases member
  · intro spot nonempty
    cases spot <;> exact absurd rfl nonempty
  · intro spot node member
    cases spot <;> cases member
  · exact ⟨nofun, fun _ => Guarded.nil _ _, fun _ => Nat.zero_le _⟩
  · intro node
    constructor
    · nofun
    · rintro (⟨spot, member⟩ | impossible)
      · cases spot <;> cases member
      · cases impossible

theorem detect_cases (step : s.detectTimerList clock script = some s') :
    (s.getCurrentMillisec clock).2.loopnum (clock s.readings) < 2 ^ 32 ∧
      s' = (ticks clock ((s.getCurrentMillisec clock).2.loopnum (clock s.readings))
        (s.getCurrentMillisec clock).2).doTimeoutCallback clock script := by
  unfold detectTimerList at step
  dsimp only at step
  split at step
  · rename_i small
    cases step
    exact ⟨small, rfl⟩
  · cases step

theorem performs_kept {action : Timer.Action} (kept : Kept s t)
    (step : Performs clock script s action s') (few : adds s'.log < 2 ^ 32) :
    ∃ t', Timer.Performs clock script t action t' ∧ Kept s' t' := by
  have agrees := kept.books.mirrors.agrees
  cases action with
  | call call =>
      cases step
      refine ⟨t.perform clock call, rfl, (perform_books clock kept.books call few).1, ?_, ?_⟩
      · intro wheel inner
        rw [Timer.perform_indices]
        exact kept.bounded wheel inner
      · have short : (t.perform clock call).readyNodes.length ≤ _ := Timer.perform_ready t call
        rw [kept.empty] at short
        exact List.eq_nil_of_length_eq_zero (Nat.le_zero.mp short)
  | detectTimerList =>
      have loopnum : (s.getCurrentMillisec clock).2.loopnum (clock s.readings) =
          (t.getCurrentMillisec clock).2.loopnum (clock t.readings) := by
        rw [LinkedTimer.loopnum, Timer.loopnum, ← agrees.readings]
        exact congrArg (fun checktime => if clock s.readings > checktime then
          (clock s.readings - checktime) / Timer.granularity else 0) agrees.checktime
      obtain ⟨ticked, inside⟩ := ticks_books clock
        ((s.getCurrentMillisec clock).2.loopnum (clock s.readings)) (kept.books.read clock)
        kept.bounded
      obtain ⟨small, rfl⟩ := detect_cases step
      obtain ⟨books, empty⟩ := doTimeoutCallback_books ticked few
      refine ⟨_, ?_, books, Timer.timeout_bounded inside, empty⟩
      rw [loopnum] at small ⊢
      exact if_pos small

theorem performs_grow {action : Timer.Action} (step : Performs clock script s action s') :
    s.log <+: s'.log := by
  cases action with
  | call call =>
      cases step
      exact perform_grows List.prefix_rfl clock call
  | detectTimerList =>
      obtain ⟨-, rfl⟩ := detect_cases step
      have read : s.log <+: (s.getCurrentMillisec clock).2.log := List.prefix_rfl
      exact timeoutLoop_grows clock script _ (ticks_grows clock _ read)

theorem reached_grow {actions : List Timer.Action}
    (run : Reached (fun _ _ => True) (Performs clock script) s actions s') : s.log <+: s'.log := by
  induction run with
  | nil => exact List.prefix_rfl
  | cons _ step _ ih => exact (performs_grow step).trans ih

/-- A run of the linked timer is one of the timer on lists. -/
theorem reached_kept {actions : List Timer.Action}
    (run : Reached (fun _ _ => True) (Performs clock script) s actions s')
    (few : adds s'.log < 2 ^ 32) (kept : Kept s t) :
    ∃ t', Reached (fun _ _ => True) (Timer.Performs clock script) t actions t' ∧ Kept s' t' := by
  induction run generalizing t with
  | nil => exact ⟨t, .nil t, kept⟩
  | cons _ step rest ih =>
      have small := Nat.lt_of_le_of_lt (adds_mono (reached_grow rest)) few
      obtain ⟨middle, first, behind⟩ := performs_kept kept step small
      obtain ⟨last, later, still⟩ := ih few behind
      exact ⟨last, .cons trivial first later, still⟩

/-! ## Between two calls -/

/-- A ring of nodes. -/
structure Ring (s : LinkedTimer) (sentinel : Link) (addresses : List Nat) : Prop where
  strand : Strand s.links sentinel (addresses.map Link.node) sentinel
  nodup : addresses.Nodup

/-- The map is a bijection between the ids of the outstanding tasks and the nodes
linked in the spokes; `spokes` are the addresses that the rings hold. -/
structure Bookkeeping (s : LinkedTimer) (spokes : Nat → Nat → List Nat) : Prop where
  rings : ∀ wheel < wheelNum, ∀ index < wheelSize wheel,
    Ring s (.spoke wheel index) (spokes wheel index)
  once : ∀ wheel index wheel' index' address, address ∈ spokes wheel index →
    address ∈ spokes wheel' index' → wheel = wheel' ∧ index = index'
  ready : Ring s .ready []
  mapped : ∀ id address, s.timerMap id = some address →
    (∃ wheel < wheelNum, ∃ index < wheelSize wheel, address ∈ spokes wheel index) ∧
      ∃ node, s.nodes address = some node ∧ node.timer.id = id
  linked : ∀ wheel < wheelNum, ∀ index < wheelSize wheel, ∀ address ∈ spokes wheel index,
    ∃ id, s.timerMap id = some address
  live : ∀ id, (s.timerMap id).isSome = true ↔ ∃ task, task.id = id ∧ Outstanding s.log task

theorem Kept.books_balance (kept : Kept s t) :
    Bookkeeping s fun wheel index => (t.spokes wheel index).map TimerNode.address := by
  have m := kept.books.mirrors
  have ledger := kept.books.ledger
  have links (wheel index : Nat) : t.linksAt (.spoke wheel index) =
      ((t.spokes wheel index).map TimerNode.address).map Link.node := by
    rw [List.map_map]
    rfl
  refine ⟨fun wheel _ index _ => ⟨?_, m.distinct (.spoke wheel index)⟩,
    fun wheel index wheel' index' address here there => ?_, ⟨?_, List.nodup_nil⟩,
    fun id address found => ?_, fun wheel _ index _ address member => ?_, fun id => ?_⟩
  · rw [← links]
    exact m.strands.strand (.spoke wheel index)
  · have same := m.strands.eq_of_mem (i := .spoke wheel index) (j := .spoke wheel' index')
      (links wheel index ▸ List.mem_map_of_mem (f := Link.node) here)
      (links wheel' index' ▸ List.mem_map_of_mem (f := Link.node) there)
    cases same
    exact ⟨rfl, rfl⟩
  · have strand := m.strands.strand .ready
    have none : t.linksAt .ready = [] := congrArg (List.map TimerNode.link) kept.empty
    rw [none] at strand
    exact strand
  · rw [m.agrees.timerMap] at found
    obtain ⟨node, mapped, rfl⟩ := Option.map_eq_some_iff.mp found
    have key := (ledger.mapped id node mapped).1
    obtain ⟨spot, member⟩ : t.Linked node := by
      rw [← key] at mapped
      exact ((kept.books.mapped node).mp mapped).resolve_right nofun
    cases spot with
    | ready =>
        change node ∈ t.readyNodes at member
        rw [kept.empty] at member
        cases member
    | spoke wheel index =>
        obtain ⟨inner, inside⟩ := m.placed _ (List.ne_nil_of_mem member)
        exact ⟨⟨wheel, inner, index, inside, List.mem_map_of_mem member⟩, node,
          m.allocated _ node member, key⟩
  · obtain ⟨node, inside, rfl⟩ := List.mem_map.mp member
    refine ⟨node.timer.id, ?_⟩
    rw [m.agrees.timerMap, (kept.books.mapped node).mpr (.inl ⟨.spoke wheel index, inside⟩)]
    rfl
  · rw [m.agrees.timerMap, Option.isSome_map]
    constructor
    · intro some
      obtain ⟨node, mapped⟩ := Option.isSome_iff_exists.mp some
      obtain ⟨key, outstanding⟩ := ledger.mapped id node mapped
      exact ⟨node.timer, key, outstanding⟩
    · rintro ⟨task, rfl, outstanding⟩
      obtain ⟨node, mapped⟩ := ledger.complete task outstanding
      exact Option.isSome_iff_exists.mpr ⟨node, mapped⟩

/-- In every run with fewer than 2^32 calls of `add_task`: between two calls the map is
a bijection between the live tasks and the nodes in the spokes, and the ready list is
empty; a one-shot task fires at most once; a task that was there when `remove_task`
was called for it is not fired after that returned; and nodes are unlinked and deleted
only as often as that is defined. -/
theorem bookkeeping {actions : List Timer.Action}
    (run : Reached (fun _ _ => True) (Performs clock script) (create clock) actions s)
    (few : adds s.log < 2 ^ 32) :
    (∃ spokes, Bookkeeping s spokes) ∧
      (∀ task, task.type = .once → s.log.count (.fired task) ≤ 1) ∧
      (∀ id before after, s.log = before ++ .removed id :: after → ∀ task, task.id = id →
        .added task ∈ before → .fired task ∉ after) ∧
      Tidy s.log := by
  obtain ⟨t, -, kept⟩ := reached_kept run few (create_kept clock)
  have ledger := kept.books.ledger
  refine ⟨⟨_, kept.books_balance⟩, ledger.once, ?_, kept.books.mirrors.tidy⟩
  rintro id before after whole task rfl added fired
  obtain ⟨between, later, split⟩ := List.append_of_mem fired
  have unremoved := (ledger.fired task (before ++ .removed task.id :: between) later (by
    rw [whole, split, List.append_assoc]
    rfl)).2
  exact unremoved before between rfl added

/-- The callback of a periodic task removes its own task and one that is due after it. -/
def removingScript (invocation : Nat) : List Call :=
  if invocation = 0 then [.removeTask 1, .removeTask 2] else []

def removingRun : Option LinkedTimer :=
  (((create (Timer.steadyClock 0 10)).addTask (Timer.steadyClock 0 10) 0 .circle).addTask
    (Timer.steadyClock 0 10) 0 .once).detectTimerList (Timer.steadyClock 0 10) removingScript

theorem removingRun_bookkeeping : ∃ s, removingRun = some s ∧
    .removed 2 ∈ s.log ∧ .added ⟨2, 0, .once⟩ ∈ s.log ∧
    (∃ spokes, Bookkeeping s spokes) ∧ Tidy s.log := by
  have removes : removingRun.any (fun s => .removed 2 ∈ s.log ∧ .added ⟨2, 0, .once⟩ ∈ s.log ∧
      adds s.log < 2 ^ 32) = true := by
    decide +kernel
  obtain ⟨s, done, facts⟩ := (Option.any_eq_true _ _).mp removes
  obtain ⟨removed, added, few⟩ := of_decide_eq_true facts
  have run : Reached (fun _ _ => True) (Performs (Timer.steadyClock 0 10) removingScript)
      (create (Timer.steadyClock 0 10))
      [.call (.addTask 0 .circle), .call (.addTask 0 .once), .detectTimerList] s :=
    .cons trivial rfl (.cons trivial rfl (.cons trivial done (.nil _)))
  obtain ⟨books, -, -, tidy⟩ := bookkeeping run few
  exact ⟨s, done, removed, added, books, tidy⟩

end FysobEngine.Common.LinkedTimer
