import FysobEngine.Common.WfirstRwLockWakeups

/-!
# The writer-first lock empties

When nobody comes any more, whoever waits gets the lock, in whatever order the
threads are scheduled and however often one of them looks without a reason.
-/

namespace FysobEngine.Common

open Foundation.Census Foundation.Runs

namespace Place

/-- A thread that has not left. -/
def inside : Place → Bool
  | .outside => false
  | _ => true

/-- A thread that waits for the lock, notified or not. -/
def queues : Place → Bool
  | .waiting _ | .notified _ => true
  | _ => false

/-- A thread that has been notified. -/
def told : Place → Bool
  | .notified _ => true
  | _ => false

/-- A thread that waits for the lock in this mode. -/
def waitsFor (mode : LockMode) : Place → Bool
  | .waiting waited | .notified waited => waited = mode
  | _ => false

/-- A kind of places that a notification does not leave. -/
def Steady (kind : Place → Bool) : Prop := ∀ mode, kind (.notified mode) = kind (.waiting mode)

end Place

namespace WfirstRwLock

variable {Thread : Type} [DecidableEq Thread]

/-- Whether an action brings a thread to the lock. -/
def Action.comes : Action Thread → Bool
  | .lock _ _ => true
  | _ => false

/-- Whether a thread that has been notified looks, or one that holds the lock leaves. -/
def serves (s : WfirstRwLock Thread) : Action Thread → Bool
  | .lock _ _ => false
  | .wake t => (s.place t).told
  | .unlock _ _ => true

/-! ## Where a step leaves the threads -/

section Looking

variable [Fintype Thread] {s s' : WfirstRwLock Thread} {t : Thread} {woken : Option Thread}

/-- A thread that looks has waited, and comes to hold the lock or waits on. -/
theorem wake_place (step : s.Steps (.wake t) s') :
    ∃ mode place, (s.place t).waitsFor mode = true ∧
      (place = .holding mode ∨ place = .waiting mode) ∧
      s'.place = Function.update s.place t place := by
  have read : ∃ place, (place = .holding .read ∨ place = .waiting .read) ∧
      (s.awaitRead t).place = Function.update s.place t place := by
    unfold awaitRead
    split
    · exact ⟨_, .inl rfl, rfl⟩
    · exact ⟨_, .inr rfl, rfl⟩
  have write : ∃ place, (place = .holding .write ∨ place = .waiting .write) ∧
      (s.awaitWrite t).place = Function.update s.place t place := by
    unfold awaitWrite
    split
    · exact ⟨_, .inl rfl, rfl⟩
    · exact ⟨_, .inr rfl, rfl⟩
  unfold Steps WfirstRwLock.step at step
  dsimp only at step
  cases here : s.place t with
  | outside =>
      rw [here] at step
      cases step
  | holding mode =>
      rw [here] at step
      cases step
  | waiting mode =>
      rw [here] at step
      cases mode with
      | read =>
          cases step
          obtain ⟨place, found, moved⟩ := read
          exact ⟨.read, place, rfl, found, moved⟩
      | write =>
          cases step
          obtain ⟨place, found, moved⟩ := write
          exact ⟨.write, place, rfl, found, moved⟩
  | notified mode =>
      rw [here] at step
      cases mode with
      | read =>
          cases step
          obtain ⟨place, found, moved⟩ := read
          exact ⟨.read, place, rfl, found, moved⟩
      | write =>
          cases step
          obtain ⟨place, found, moved⟩ := write
          exact ⟨.write, place, rfl, found, moved⟩

theorem notifyOne_steady {kind : Place → Bool} (steady : Place.Steady kind)
    (done : s.notifyOne woken = some s') (u : Thread) : kind (s'.place u) = kind (s.place u) := by
  cases woken with
  | none =>
      rw [notifyOne] at done
      split at done
      · cases done
        rfl
      · cases done
  | some t =>
      rw [notifyOne] at done
      split at done
      · rename_i waits
        cases done
        by_cases same : u = t
        · subst same
          rw [place_move_self, waits, steady]
        · rw [place_move_of_ne same]
      · cases done

omit [DecidableEq Thread] [Fintype Thread] in
theorem notifyAll_steady {kind : Place → Bool} (steady : Place.Steady kind) (u : Thread) :
    kind (s.notifyAll.place u) = kind (s.place u) := by
  unfold notifyAll
  dsimp only
  by_cases waits : s.place u = .waiting .read
  · rw [if_pos waits, waits, steady]
  · rw [if_neg waits]

/-- A thread that unlocks has held the lock and is outside. The others are where they
were, but for notifications. -/
theorem unlock_place (step : s.Steps (.unlock t woken) s') :
    ∃ mode, s.place t = .holding mode ∧ ∀ kind, Place.Steady kind →
      ∀ u, kind (s'.place u) = kind ((s.move t .outside).place u) := by
  unfold Steps WfirstRwLock.step at step
  dsimp only at step
  cases holds : s.place t with
  | outside =>
      rw [holds] at step
      cases step
  | waiting mode =>
      rw [holds] at step
      cases step
  | notified mode =>
      rw [holds] at step
      cases step
  | holding mode =>
      rw [holds] at step
      refine ⟨mode, rfl, fun kind steady u => ?_⟩
      cases mode with
      | read =>
          obtain ⟨-, notified⟩ | ⟨-, rfl⟩ := readUnlock_cases step
          · exact notifyOne_steady steady notified u
          · rfl
      | write =>
          obtain ⟨-, rfl⟩ | ⟨-, notified⟩ := writeUnlock_cases step
          · exact notifyAll_steady steady u
          · exact notifyOne_steady steady notified u

end Looking

/-! ## How far the threads are from leaving -/

variable [Fintype Thread] {s s' : WfirstRwLock Thread}

/-- A thread has to get the lock and to leave. It looks in vain at most once for each
thread that leaves. -/
def rank (s : WfirstRwLock Thread) : Nat :=
  (census s.place Place.inside + census s.place Place.queues) * (Fintype.card Thread + 1) +
    census s.place Place.told

omit [DecidableEq Thread] in
theorem rank_le (s : WfirstRwLock Thread) :
    s.rank ≤ 2 * Fintype.card Thread * (Fintype.card Thread + 1) + Fintype.card Thread := by
  have inside := census_le_card s.place Place.inside
  have queues := census_le_card s.place Place.queues
  have told := census_le_card s.place Place.told
  refine Nat.add_le_add (Nat.mul_le_mul_right _ ?_) told
  omega

/-- A thread that leaves pays for every notification. -/
theorem unlock_rank {t : Thread} {woken : Option Thread} (step : s.Steps (.unlock t woken) s') :
    s'.rank < s.rank := by
  obtain ⟨mode, holds, places⟩ := unlock_place step
  have left : census s'.place Place.inside + 1 = census s.place Place.inside := by
    have moved := census_update s.place Place.inside t .outside
    rw [holds] at moved
    rw [census_congr (places Place.inside fun _ => rfl)]
    exact moved
  have waiting : census s'.place Place.queues = census s.place Place.queues := by
    have moved := census_update s.place Place.queues t .outside
    rw [holds] at moved
    rw [census_congr (places Place.queues fun _ => rfl)]
    exact moved
  have told := census_le_card s'.place Place.told
  unfold rank
  rw [← left, waiting, Nat.add_right_comm, Nat.succ_mul]
  omega

/-- A look lowers the rank where the thread has been notified, and never raises it. -/
theorem wake_rank {t : Thread} (step : s.Steps (.wake t) s') :
    (s.place t).told.toNat + s'.rank ≤ s.rank := by
  obtain ⟨mode, place, waits, found, moved⟩ := wake_place step
  have inside : (s.place t).inside = true := by
    cases here : s.place t <;> simp_all [Place.waitsFor, Place.inside]
  have queues : (s.place t).queues = true := by
    cases here : s.place t <;> simp_all [Place.waitsFor, Place.queues]
  have count (kind : Place → Bool) : census s'.place kind + (kind (s.place t)).toNat =
      census s.place kind + (kind place).toNat :=
    moved ▸ census_update s.place kind t place
  have insides := count Place.inside
  have waiting := count Place.queues
  have told := count Place.told
  rw [inside] at insides
  rw [queues] at waiting
  unfold rank
  rcases found with rfl | rfl
  · have fewer : census s'.place Place.queues + 1 = census s.place Place.queues := waiting
    rw [Nat.add_right_cancel insides, ← fewer, ← Nat.add_assoc (census s.place Place.inside),
      Nat.succ_mul]
    have none : (Place.holding mode).told.toNat = 0 := rfl
    omega
  · rw [Nat.add_right_cancel insides, Nat.add_right_cancel waiting]
    have none : (Place.waiting mode).told.toNat = 0 := rfl
    omega

theorem step_rank {action : Action Thread} (gone : action.comes = false)
    (step : s.Steps action s') : (s.serves action).toNat + s'.rank ≤ s.rank := by
  cases action with
  | lock t mode => cases gone
  | wake t => exact wake_rank step
  | unlock t woken =>
      have lower := unlock_rank step
      exact (Nat.add_comm 1 s'.rank).trans_le lower

theorem step_pays {action : Action Thread} (gone : action.comes = false)
    (step : s.Steps action s') :
    (if s.serves action then [action] else []).length + s'.rank ≤ s.rank := by
  have rank := step_rank gone step
  cases served : s.serves action with
  | false => simpa [served] using rank
  | true => simpa [served] using rank

/-! ## Nobody is stuck -/

theorem notifyOne_enabled (s : WfirstRwLock Thread) :
    ∃ woken s', s.notifyOne woken = some s' := by
  by_cases waits : ∃ t, s.place t = .waiting .write
  · obtain ⟨t, waits⟩ := waits
    exact ⟨some t, _, if_pos waits⟩
  · exact ⟨none, s, if_pos fun t there => waits ⟨t, there⟩⟩

/-- Whoever holds the lock can leave. -/
theorem unlock_enabled {t : Thread} {mode : LockMode} (holds : s.place t = .holding mode) :
    ∃ woken s', s.Steps (.unlock t woken) s' := by
  unfold Steps WfirstRwLock.step
  cases mode with
  | read =>
      obtain ⟨woken, notified, done⟩ := notifyOne_enabled (s.withoutReader t)
      refine ⟨woken, ?_⟩
      simp only [holds]
      unfold readUnlock
      dsimp only
      split
      · exact ⟨notified, done⟩
      · exact ⟨_, rfl⟩
  | write =>
      obtain ⟨woken, notified, done⟩ := notifyOne_enabled
        { s.move t .outside with writeCnt := decrement s.writeCnt }
      refine ⟨woken, ?_⟩
      simp only [holds]
      unfold writeUnlock
      dsimp only
      split
      · exact ⟨_, rfl⟩
      · rw [done]
        exact ⟨_, rfl⟩

/-- Whoever has been notified can look. -/
theorem wake_enabled {t : Thread} {mode : LockMode} (told : s.place t = .notified mode) :
    ∃ s', s.Steps (.wake t) s' := by
  unfold Steps WfirstRwLock.step
  cases mode with
  | read => exact ⟨s.awaitRead t, by simp only [told]⟩
  | write => exact ⟨s.awaitWrite t, by simp only [told]⟩

/-- Where no thread can be served, all have left. -/
theorem Stuck.outside (stuck : Stuck (fun s a => s.serves a = true) Steps s) (counted : Counted s)
    (awaited : Awaited s) (t : Thread) : s.place t = .outside := by
  have free (u : Thread) (mode : LockMode) : s.place u ≠ .holding mode := fun holds =>
    have ⟨woken, s', step⟩ := unlock_enabled holds
    stuck (.unlock u woken) s' rfl step
  have silent (u : Thread) (mode : LockMode) : s.place u ≠ .notified mode := fun told =>
    have ⟨s', step⟩ := wake_enabled told
    stuck (.wake u) s' (congrArg Place.told told) step
  have no_writer (u : Thread) : s.place u ≠ .waiting .write := fun waits =>
    (waiting_writer counted awaited waits).elim (fun ⟨v, mode, holds⟩ => free v mode holds)
      fun ⟨v, _, told⟩ => silent v .write told
  have no_reader (u : Thread) : s.place u ≠ .waiting .read := by
    intro waits
    have writers := awaited.readers u waits
    rw [counted.writeCnt] at writers
    obtain ⟨v, wants⟩ := census_pos.mp writers
    cases here : s.place v with
    | outside => simp [here, Place.wantsWrite] at wants
    | holding mode => exact free v mode here
    | notified mode => exact silent v mode here
    | waiting mode =>
        cases mode with
        | write => exact no_writer v here
        | read => simp [here, Place.wantsWrite] at wants
  cases here : s.place t with
  | outside => rfl
  | holding mode => exact absurd here (free t mode)
  | notified mode => exact absurd here (silent t mode)
  | waiting mode =>
      cases mode with
      | write => exact absurd here (no_writer t)
      | read => exact absurd here (no_reader t)

theorem stuck_of_outside (outside : ∀ t, s.place t = .outside) :
    Stuck (fun s a => s.serves a = true) Steps s := by
  intro action s' served step
  cases action with
  | lock t mode => cases served
  | wake t =>
      rw [serves, outside] at served
      cases served
  | unlock t woken =>
      obtain ⟨mode, holds, -⟩ := unlock_place step
      rw [outside] at holds
      cases holds

/-! ## Whoever waits is served -/

/-- A thread that waits is not passed over: it waits on, or holds the lock. -/
theorem step_waitsFor {action : Action Thread} (gone : action.comes = false)
    (step : s.Steps action s') {u : Thread} {mode : LockMode}
    (waits : (s.place u).waitsFor mode = true) :
    (s'.place u).waitsFor mode = true ∨ s'.place u = .holding mode := by
  cases action with
  | lock t asked => cases gone
  | wake t =>
      obtain ⟨seen, place, looked, found, moved⟩ := wake_place step
      by_cases same : u = t
      · subst same
        have own : seen = mode := by
          cases here : s.place u <;> simp_all [Place.waitsFor]
        rw [moved, Function.update_self]
        rcases found with rfl | rfl
        · exact .inr (congrArg Place.holding own)
        · exact .inl (decide_eq_true own)
      · rw [moved, Function.update_of_ne same]
        exact .inl waits
  | unlock t woken =>
      obtain ⟨held, holds, places⟩ := unlock_place step
      have other : u ≠ t := by
        rintro rfl
        rw [holds] at waits
        cases waits
      rw [places (Place.waitsFor mode) (fun _ => rfl) u, place_move_of_ne other]
      exact .inl waits

theorem holds_between {actions : List (Action Thread)} {u : Thread} {mode : LockMode}
    (run : Reached (fun _ a => a.comes = false) Steps s actions s')
    (waits : (s.place u).waitsFor mode = true) (left : s'.place u = .outside) :
    ∃ before behind middle, actions = before ++ behind ∧
      Reached (fun _ a => a.comes = false) Steps s before middle ∧
      middle.place u = .holding mode := by
  induction run with
  | nil s =>
      rw [left] at waits
      cases waits
  | @cons s middle last a rest gone step tail ih =>
      rcases step_waitsFor gone step waits with waits | holds
      · obtain ⟨before, behind, inside, parts, run, holds⟩ := ih waits left
        exact ⟨a :: before, behind, inside, congrArg (a :: ·) parts, .cons gone step run, holds⟩
      · exact ⟨[a], rest, middle, rfl, .cons gone step (.nil middle), holds⟩

/-- The turns of the threads that are served in a run. -/
def turnsServed (s : WfirstRwLock Thread) (actions : List (Action Thread)) :
    List (Action Thread) :=
  produced step (fun s a => if s.serves a then [a] else []) s actions

/-- Once nobody comes any more, from whatever state the threads have reached: there are
at most so many turns, whatever looks come in between; where none is left, all have
left, the lock is free, and whoever waited has held it in the mode it asked for; and
the turns can always be taken. -/
theorem drains {history : List (Action Thread)}
    (reached : Reached (fun _ _ => True) Steps create history s) :
    (∀ actions s', Reached (fun _ a => a.comes = false) Steps s actions s' →
      (turnsServed s actions).length ≤
          2 * Fintype.card Thread * (Fintype.card Thread + 1) + Fintype.card Thread ∧
        (Stuck (fun s a => s.serves a = true) Steps s' →
          (∀ t, s'.place t = .outside) ∧
          (s'.readCnt = 0 ∧ s'.writeCnt = 0 ∧ s'.writeFlag = false) ∧
          ∀ t mode, (s.place t).waitsFor mode = true → ∃ before behind middle,
            actions = before ++ behind ∧
              Reached (fun _ a => a.comes = false) Steps s before middle ∧
              middle.place t = .holding mode)) ∧
      ∃ actions s', Reached (fun s a => s.serves a = true) Steps s actions s' ∧
        Stuck (fun s a => s.serves a = true) Steps s' := by
  have counted := reached_counted reached
  have awaited := reached_awaited reached
  refine ⟨fun actions s' run => ⟨?_, fun stuck => ?_⟩, ?_⟩
  · have paid : (turnsServed s actions).length + s'.rank ≤ s.rank :=
      run.produced_length_le rank (I := fun _ => True) (fun _ _ _ _ _ _ => trivial)
        (fun s a s' _ gone step => step_pays gone step) trivial
    exact (Nat.le_add_right _ _).trans (paid.trans s.rank_le)
  · have kept := run.invariant_all (I := fun s => Counted s ∧ Awaited s)
      (fun _ _ _ both _ step => ⟨step.turn.counted both.1, step.turn.awaited both.1 both.2⟩)
      ⟨counted, awaited⟩
    have outside := Stuck.outside stuck kept.1 kept.2
    refine ⟨outside, ⟨?_, ?_, ?_⟩, fun t mode waits => holds_between run waits (outside t)⟩
    · exact kept.1.readCnt.trans (census_eq_zero.mpr fun t => by rw [outside]; rfl)
    · exact kept.1.writeCnt.trans (census_eq_zero.mpr fun t => by rw [outside]; rfl)
    · refine Bool.eq_false_of_not_eq_true fun flag => ?_
      obtain ⟨t, holds⟩ := kept.1.writer_inside flag
      rw [outside] at holds
      cases holds
  · refine exists_stuck rank (I := fun _ => True) (fun _ _ _ _ _ _ => trivial)
      (fun s a s' _ served step => ?_) trivial
    have gone : a.comes = false := by
      cases a with
      | lock t mode => cases served
      | _ => rfl
    have rank := step_rank gone step
    rw [served] at rank
    exact (Nat.add_comm 1 s'.rank).ge.trans rank

/-- Two writers, and readers behind them. -/
def queueRun : List (Action (Fin 5)) :=
  [.lock 0 .write, .lock 1 .write, .lock 2 .read, .lock 3 .read, .lock 4 .read]

/-- All are served, and one reader looks too early. -/
def servedRun : List (Action (Fin 5)) :=
  [.unlock 0 (some 1), .wake 2, .wake 1, .unlock 1 none, .wake 2, .wake 3, .unlock 2 none,
    .wake 4, .unlock 4 none, .unlock 3 none]

theorem servedRun_drains : ∃ s s' : WfirstRwLock (Fin 5),
    last step create queueRun = some s ∧ last step s servedRun = some s' ∧
      (turnsServed s servedRun).length ≤ 65 ∧ s'.writeFlag = false ∧
      ∃ before behind middle, servedRun = before ++ behind ∧
        Reached (fun _ a => a.comes = false) Steps s before middle ∧
        middle.place 2 = .holding .read := by
  have runs : (last step create queueRun).any (fun s =>
      (s.place 2).waitsFor .read ∧
        holdsAlong step (fun _ a => a.comes = false) s servedRun = true ∧
        (last step s servedRun).any (fun s' => ∀ t, s'.place t = .outside) = true) = true := by
    decide
  obtain ⟨s, reached, facts⟩ := (Option.any_eq_true _ _).mp runs
  obtain ⟨waits, holds, ended⟩ := of_decide_eq_true facts
  obtain ⟨s', run, outside⟩ := (Option.any_eq_true _ _).mp ended
  obtain ⟨turns, served⟩ := (drains (reached_last reached)).1 servedRun s'
    (reached_of_holdsAlong holds run)
  obtain ⟨_, free, held⟩ := served (stuck_of_outside (of_decide_eq_true outside))
  exact ⟨s, s', reached, run, turns, free.2.2, held 2 .read waits⟩

end WfirstRwLock

end FysobEngine.Common
