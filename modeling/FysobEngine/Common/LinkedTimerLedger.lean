import FysobEngine.Common.LinkedTimer
import FysobEngine.Foundation.Logs

/-!
# What the log says of the tasks

A task that has been added and not removed since, and that is periodic or has not
fired, is outstanding. The map holds exactly the outstanding tasks.
-/

namespace FysobEngine.Common.LinkedTimer

open Foundation.Logs

/-- Entries about nodes. -/
def aboutNodes : Entry → Bool
  | .linked _ | .unlinked _ | .deleted _ => true
  | .added _ | .removed _ | .fired _ | .fault => false

/-- The number of calls of `add_task`. -/
def adds (log : List Entry) : Nat :=
  log.countP fun entry => match entry with
    | .added _ => true
    | _ => false

/-- The task has not been removed since it was added. -/
def Unremoved (log : List Entry) (task : TimerTask) : Prop :=
  Guarded log (.removed task.id) fun before => .added task ∉ before

structure Outstanding (log : List Entry) (task : TimerTask) : Prop where
  added : .added task ∈ log
  unremoved : Unremoved log task
  unfired : task.type = .once → .fired task ∉ log

theorem adds_append (log : List Entry) (entry : Entry) :
    adds (log ++ [entry]) = adds log + adds [entry] :=
  List.countP_append

theorem Outstanding.append {log : List Entry} {task : TimerTask} {entry : Entry}
    (outstanding : Outstanding log task) (kept : entry ≠ .removed task.id)
    (unfired : task.type = .once → entry ≠ .fired task) :
    Outstanding (log ++ [entry]) task where
  added := List.mem_append_left _ outstanding.added
  unremoved := outstanding.unremoved.append fun same => absurd same kept
  unfired once member := by
    obtain before | last := List.mem_append.mp member
    · exact outstanding.unfired once before
    · exact unfired once (List.mem_singleton.mp last).symm

theorem Outstanding.of_append {log : List Entry} {task : TimerTask} {entry : Entry}
    (outstanding : Outstanding (log ++ [entry]) task) (old : entry ≠ .added task) :
    Outstanding log task where
  added := (List.mem_append.mp outstanding.added).elim id fun last =>
    absurd (List.mem_singleton.mp last).symm old
  unremoved := outstanding.unremoved.of_append
  unfired once member := outstanding.unfired once (List.mem_append_left _ member)

/-- A removal of a task that has been added settles it. -/
theorem Outstanding.not_removed {log : List Entry} {task : TimerTask}
    (outstanding : Outstanding (log ++ [.removed task.id]) task) : False := by
  have added := (outstanding.of_append nofun).added
  exact outstanding.unremoved log [] rfl added

/-- The log of the tasks, beside the map and the id that was issued last. -/
structure Ledger (log : List Entry) (timerMap : UInt32 → Option TimerNode) (issued : UInt32) :
    Prop where
  count : adds log = issued.toNat
  ids : ∀ task, .added task ∈ log → task.id.toNat ≤ issued.toNat
  distinct : ∀ task other, .added task ∈ log → .added other ∈ log → task.id = other.id →
    task = other
  mapped : ∀ id node, timerMap id = some node → node.timer.id = id ∧ Outstanding log node.timer
  complete : ∀ task, Outstanding log task → ∃ node, timerMap task.id = some node
  once : ∀ task, task.type = .once → log.count (.fired task) ≤ 1
  fired : ∀ task, Guarded log (.fired task) fun before => .added task ∈ before ∧
    Unremoved before task

namespace Ledger

variable {log : List Entry} {timerMap timerMap' : UInt32 → Option TimerNode} {issued : UInt32}

theorem create : Ledger [] (fun _ => none) 0 where
  count := rfl
  ids := nofun
  distinct := nofun
  mapped := nofun
  complete := fun _ outstanding => nomatch outstanding.added
  once := fun _ _ => Nat.zero_le _
  fired := fun _ => Guarded.nil _ _

theorem fired_added (ledger : Ledger log timerMap issued) {task : TimerTask}
    (member : .fired task ∈ log) : .added task ∈ log := by
  obtain ⟨before, after, rfl⟩ := List.append_of_mem member
  exact List.mem_append_left _ (ledger.fired task before after rfl).1

/-- An entry that adds no task; if a task fires, it is outstanding. -/
theorem plain (ledger : Ledger log timerMap issued) {entry : Entry}
    (not_added : ∀ task, entry ≠ .added task)
    (fires : ∀ task, entry = .fired task → Outstanding log task)
    (mapped : ∀ id node, timerMap' id = some node →
      node.timer.id = id ∧ Outstanding (log ++ [entry]) node.timer)
    (complete : ∀ task, Outstanding (log ++ [entry]) task →
      ∃ node, timerMap' task.id = some node) :
    Ledger (log ++ [entry]) timerMap' issued := by
  have added_before : ∀ task, .added task ∈ log ++ [entry] → .added task ∈ log := by
    intro task member
    obtain before | last := List.mem_append.mp member
    · exact before
    · exact absurd (List.mem_singleton.mp last).symm (not_added task)
  refine ⟨?_, fun task member => ledger.ids task (added_before task member),
    fun task other one two => ledger.distinct task other (added_before task one)
      (added_before other two), mapped, complete, fun task once => ?_, fun task => ?_⟩
  · rw [adds_append, ledger.count]
    cases entry with
    | added task => exact absurd rfl (not_added task)
    | linked | unlinked | deleted | removed | fired | fault => rfl
  · rw [List.count_append, List.count_singleton]
    split
    · rename_i last
      have first := (fires task (by simpa using last)).unfired once
      rw [List.count_eq_zero_of_not_mem first]
    · exact ledger.once task once
  · refine (ledger.fired task).append fun same => ?_
    exact ⟨(fires task same).added, (fires task same).unremoved⟩

theorem silent (ledger : Ledger log timerMap issued) {entry : Entry}
    (quiet : aboutNodes entry = true) : Ledger (log ++ [entry]) timerMap issued := by
  have not_added : ∀ task, entry ≠ .added task := by
    rintro task rfl
    cases quiet
  have not_fired : ∀ task, entry ≠ .fired task := by
    rintro task rfl
    cases quiet
  have not_removed : ∀ id, entry ≠ .removed id := by
    rintro id rfl
    cases quiet
  refine ledger.plain not_added (fun task same => absurd same (not_fired task))
    (fun id node found => ?_) fun task outstanding => ?_
  · obtain ⟨same, outstanding⟩ := ledger.mapped id node found
    exact ⟨same, outstanding.append (not_removed _) fun _ => not_fired _⟩
  · exact ledger.complete task (outstanding.of_append (not_added task))

theorem next_id (ledger : Ledger log timerMap issued) (few : adds log + 1 < 2 ^ 32) :
    (issued + 1).toNat = issued.toNat + 1 := by
  rw [ledger.count] at few
  rw [UInt32.toNat_add]
  exact Nat.mod_eq_of_lt few

/-- The next id is not in use. -/
theorem fresh (ledger : Ledger log timerMap issued) (few : adds log + 1 < 2 ^ 32) :
    timerMap (issued + 1) = none := by
  cases found : timerMap (issued + 1) with
  | none => rfl
  | some node =>
      obtain ⟨key, outstanding⟩ := ledger.mapped _ node found
      have old := ledger.ids _ outstanding.added
      rw [key, ledger.next_id few] at old
      exact absurd old (Nat.not_succ_le_self _)

/-- A task is added under the next id. -/
theorem add (ledger : Ledger log timerMap issued) (few : adds log + 1 < 2 ^ 32)
    {task : TimerTask} {node : TimerNode} (id_eq : task.id = issued + 1)
    (timer : node.timer = task) (here : timerMap' task.id = some node)
    (others : ∀ id, id ≠ task.id → timerMap' id = timerMap id) :
    Ledger (log ++ [.added task]) timerMap' (issued + 1) := by
  have next := ledger.next_id few
  have new : ∀ other, .added other ∈ log → other.id ≠ task.id := by
    intro other member same
    have old := ledger.ids other member
    rw [same, id_eq, next] at old
    exact Nat.not_succ_le_self _ old
  have added_cases : ∀ other, .added other ∈ log ++ [.added task] →
      .added other ∈ log ∨ other = task := by
    intro other member
    obtain before | last := List.mem_append.mp member
    · exact .inl before
    · exact .inr (Entry.added.inj (List.mem_singleton.mp last))
  refine ⟨?_, fun other member => ?_, fun one two first second same => ?_,
    fun id found' found => ?_, fun other outstanding => ?_, fun other once => ?_,
    fun other => (ledger.fired other).append nofun⟩
  · rw [adds_append, ledger.count, next]
    rfl
  · obtain before | rfl := added_cases other member
    · exact Nat.le_trans (ledger.ids other before) (by rw [next]; exact Nat.le_succ _)
    · rw [id_eq]
  · obtain before | last := added_cases one first
    · obtain before' | last' := added_cases two second
      · exact ledger.distinct one two before before' same
      · exact absurd (last' ▸ same) (new one before)
    · obtain before' | last' := added_cases two second
      · exact absurd (last ▸ same.symm) (new two before')
      · rw [last, last']
  · by_cases same : id = task.id
    · rw [same, here] at found
      rw [← Option.some.inj found, timer]
      refine ⟨same.symm, List.mem_append_right _ List.mem_cons_self, ?_, ?_⟩
      · refine Guarded.append (fun before after whole member => ?_) nofun
        exact new task (whole ▸ List.mem_append_left _ member) rfl
      · intro _ member
        obtain before | last := List.mem_append.mp member
        · exact new task (ledger.fired_added before) rfl
        · cases List.mem_singleton.mp last
    · rw [others id same] at found
      obtain ⟨key, outstanding⟩ := ledger.mapped id found' found
      exact ⟨key, outstanding.append nofun nofun⟩
  · by_cases same : other = task
    · rw [same]
      exact ⟨node, here⟩
    · have before := outstanding.of_append fun eq => same (Entry.added.inj eq).symm
      rw [others other.id (new other before.added)]
      exact ledger.complete other before
  · rw [List.count_append, List.count_eq_zero_of_not_mem (l := [_]) (by simp), Nat.add_zero]
    exact ledger.once other once

/-- `remove_task` returns. -/
theorem remove (ledger : Ledger log timerMap issued) {id : UInt32} (here : timerMap' id = none)
    (others : ∀ other, other ≠ id → timerMap' other = timerMap other) :
    Ledger (log ++ [.removed id]) timerMap' issued := by
  refine ledger.plain nofun nofun (fun other node found => ?_) fun task outstanding => ?_
  · by_cases same : other = id
    · rw [same, here] at found
      cases found
    · rw [others other same] at found
      obtain ⟨key, outstanding⟩ := ledger.mapped other node found
      refine ⟨key, outstanding.append (fun eq => same ?_) nofun⟩
      rw [← key, Entry.removed.inj eq]
  · by_cases same : task.id = id
    · rw [← same] at outstanding
      exact outstanding.not_removed.elim
    · rw [others task.id same]
      exact ledger.complete task (outstanding.of_append nofun)

/-- A mapped task fires: a periodic one stays in the map, another one leaves it. -/
theorem fire (ledger : Ledger log timerMap issued) {node : TimerNode}
    (found : timerMap node.timer.id = some node)
    (circle : node.timer.type = .circle →
      ∃ again, timerMap' node.timer.id = some again ∧ again.timer = node.timer)
    (once : node.timer.type = .once → timerMap' node.timer.id = none)
    (others : ∀ id, id ≠ node.timer.id → timerMap' id = timerMap id) :
    Ledger (log ++ [.fired node.timer]) timerMap' issued := by
  obtain ⟨-, outstanding⟩ := ledger.mapped _ node found
  refine ledger.plain nofun (fun task same => Entry.fired.inj same ▸ outstanding)
    (fun id other mapped => ?_) fun task standing => ?_
  · by_cases same : id = node.timer.id
    · rw [same] at mapped ⊢
      cases type : node.timer.type with
      | circle =>
          obtain ⟨again, here, timer⟩ := circle type
          rw [here] at mapped
          rw [← Option.some.inj mapped, timer]
          refine ⟨rfl, outstanding.append nofun fun single => ?_⟩
          rw [type] at single
          cases single
      | once =>
          rw [once type] at mapped
          cases mapped
    · rw [others id same] at mapped
      obtain ⟨key, standing⟩ := ledger.mapped id other mapped
      refine ⟨key, standing.append nofun fun _ eq => same ?_⟩
      rw [← key, Entry.fired.inj eq]
  · have before := standing.of_append nofun
    by_cases same : task.id = node.timer.id
    · have eq := ledger.distinct _ _ before.added outstanding.added same
      cases type : node.timer.type with
      | circle =>
          obtain ⟨again, here, -⟩ := circle type
          exact ⟨again, same ▸ here⟩
      | once =>
          refine absurd ?_ (standing.unfired (eq ▸ type))
          rw [eq]
          exact List.mem_append_right _ List.mem_cons_self
    · rw [others task.id same]
      exact ledger.complete task before

end Ledger

end FysobEngine.Common.LinkedTimer
