import FysobEngine.Net.NetManager

/-!
# The mutex of `net_manager`

A thread locks `mutex_` a second time when a script that an entry point runs calls
a registered function. It does so too when a registered function has been left with
the mutex held, by an argument error, and the thread goes on to lock.
-/

namespace FysobEngine.Net.NetThreads

open Foundation.Runs NetManager

variable {Thread κ : Type}

/-- The thread holds the mutex and is about to lock it. -/
def RelocksAt (s : NetThreads Thread κ) (thread : Thread) : Prop :=
  s.mutex = some thread ∧ ∃ rest, s.program thread = .lock :: rest

def Relocks (s : NetThreads Thread κ) : Prop := ∃ thread, s.RelocksAt thread

variable [DecidableEq Thread]

def Enabled (s : NetThreads Thread κ) (action : Action Thread κ) : Prop :=
  ∃ s', s.Steps action s'

/-- Behind the step no thread is about to lock the mutex that it holds. -/
def LocksOnce (s : NetThreads Thread κ) (action : Action Thread κ) : Prop :=
  ∀ s', s.Steps action s' → ¬ s'.Relocks

omit [DecidableEq Thread] in
/-- An entry point runs a script that calls nothing. Nothing is locked by a thread
that an argument error has left with the mutex: not later in the same script, and
not by an event or a script that the thread is given. -/
def Careful (s : NetThreads Thread κ) : Action Thread κ → Prop
  | .event thread _ _ => s.mutex ≠ some thread
  | .script thread script => script = [] ∨ s.mutex ≠ some thread
  | .run thread _ =>
      match s.program thread with
      | .enter _ script :: _ => script = []
      | .call call :: rest => s.manager.accepts call = false → rest = []
      | _ => True

/-! ## Where a thread can be -/

/-- What a thread has still to do, and whether it holds the mutex for it. -/
inductive Shape : List (Op κ) → Bool → Prop where
  | outside (script : List Call) : Shape (scriptOps script) false
  | waiting (event : Event κ) (script : List Call) : Shape [.lock, .enter event script] false
  | entered (event : Event κ) (script : List Call) : Shape [.enter event script] true
  | inside (script : List Call) : Shape (scriptOps script ++ [.unlock]) true
  | called (call : Call) (script : List Call) : Shape (.call call :: scriptOps script) true

omit [DecidableEq Thread] in
/-- Every thread is somewhere, and whoever needs the mutex there has it. -/
def Shaped (s : NetThreads Thread κ) : Prop :=
  ∀ thread, ∃ holds, Shape (s.program thread) holds ∧
    (holds = true → s.mutex = some thread)

/-- Only an empty script does not begin with a lock. -/
theorem scriptOps_waits (script : List Call) {rest : List (Op κ)}
    (behind : ∀ more, rest ≠ .lock :: more) :
    script = [] ↔ ∀ more, (scriptOps script ++ rest : List (Op κ)) ≠ .lock :: more := by
  cases script with
  | nil => exact iff_of_true rfl behind
  | cons call script => exact iff_of_false (List.cons_ne_nil _ _) fun never => never _ rfl

theorem scriptOps_nil_iff (script : List Call) :
    script = [] ↔ ∀ more, (scriptOps script : List (Op κ)) ≠ .lock :: more := by
  have nothing : ∀ more, ([] : List (Op κ)) ≠ .lock :: more := nofun
  have waits := scriptOps_waits script nothing
  rwa [List.append_nil] at waits

/-- A thread that may take the mutex does not lock again right behind. -/
theorem Shape.lock {rest : List (Op κ)} (shape : Shape (.lock :: rest) false) :
    Shape rest true ∧ ∀ more, rest ≠ .lock :: more := by
  generalize whole : (.lock :: rest : List (Op κ)) = ops at shape
  cases shape with
  | outside script =>
      cases script with
      | nil => cases whole
      | cons call script =>
          cases whole
          exact ⟨.called call script, nofun⟩
  | waiting event script =>
      cases whole
      exact ⟨.entered event script, nofun⟩

theorem Shape.enter {event : Event κ} {script : List Call} {rest : List (Op κ)} {holds : Bool}
    (shape : Shape (.enter event script :: rest) holds) : rest = [] ∧ holds = true := by
  generalize whole : (.enter event script :: rest : List (Op κ)) = ops at shape
  cases shape with
  | outside script => cases script <;> cases whole
  | waiting event script => cases whole
  | entered event script =>
      cases whole
      exact ⟨rfl, rfl⟩
  | inside script => cases script <;> cases whole
  | called call script => cases whole

theorem Shape.call {call : Call} {rest : List (Op κ)} {holds : Bool}
    (shape : Shape (.call call :: rest) holds) :
    holds = true ∧ ∃ script, rest = scriptOps script := by
  generalize whole : (.call call :: rest : List (Op κ)) = ops at shape
  cases shape with
  | outside script => cases script <;> cases whole
  | waiting event script => cases whole
  | entered event script => cases whole
  | inside script => cases script <;> cases whole
  | called call script =>
      cases whole
      exact ⟨rfl, script, rfl⟩

theorem Shape.unlock {rest : List (Op κ)} {holds : Bool}
    (shape : Shape (.unlock :: rest) holds) : rest = [] ∧ holds = true := by
  generalize whole : (.unlock :: rest : List (Op κ)) = ops at shape
  cases shape with
  | outside script => cases script <;> cases whole
  | waiting event script => cases whole
  | entered event script => cases whole
  | inside script =>
      cases script with
      | nil =>
          cases whole
          exact ⟨rfl, rfl⟩
      | cons call script => cases whole
  | called call script => cases whole

/-! ## One step -/

theorem setProgram_self (s : NetThreads Thread κ) (thread : Thread) (ops : List (Op κ)) :
    (s.setProgram thread ops).program thread = ops :=
  Function.update_self _ _ _

theorem setProgram_of_ne (s : NetThreads Thread κ) {thread other : Thread} (ops : List (Op κ))
    (ne : other ≠ thread) : (s.setProgram thread ops).program other = s.program other :=
  Function.update_of_ne ne _ _

omit [DecidableEq Thread] in
/-- A step of one thread: the others stay where they are, and it takes the mutex only
when it is free and gives back only its own. -/
structure Moves (thread : Thread) (s s' : NetThreads Thread κ) : Prop where
  others : ∀ other, other ≠ thread → s'.program other = s.program other
  mutex : s'.mutex = s.mutex ∨ s.mutex = none ∧ s'.mutex = some thread ∨
    s.mutex = some thread ∧ s'.mutex = none

variable {s s' : NetThreads Thread κ} {thread : Thread}

omit [DecidableEq Thread] in
theorem Moves.relocks (moves : Moves thread s s') (quiet : ¬ s.Relocks) :
    s'.Relocks ↔ s'.RelocksAt thread := by
  constructor
  · rintro ⟨other, held, rest, waits⟩
    by_cases same : other = thread
    · rw [same] at held waits
      exact ⟨held, rest, waits⟩
    · rw [moves.others other same] at waits
      rcases moves.mutex with kept | ⟨_, taken⟩ | ⟨_, freed⟩
      · exact absurd ⟨other, kept ▸ held, rest, waits⟩ quiet
      · rw [taken, Option.some.injEq] at held
        exact absurd held.symm same
      · rw [freed] at held
        cases held
  · exact fun relocks => ⟨thread, relocks⟩

omit [DecidableEq Thread] in
theorem Moves.shaped (moves : Moves thread s s') (shaped : Shaped s) {holds : Bool}
    (shape : Shape (s'.program thread) holds) (has : holds = true → s'.mutex = some thread) :
    Shaped s' := by
  intro other
  by_cases same : other = thread
  · subst same
    exact ⟨holds, shape, has⟩
  · obtain ⟨held, shape', has'⟩ := shaped other
    refine ⟨held, by rw [moves.others other same]; exact shape', fun needs => ?_⟩
    have before := has' needs
    rcases moves.mutex with kept | ⟨free, _⟩ | ⟨own, _⟩
    · rw [kept, before]
    · rw [free] at before
      cases before
    · rw [own, Option.some.injEq] at before
      exact absurd before.symm same

omit [DecidableEq Thread] in
/-- The thread that takes the step. -/
def Action.actor : Action Thread κ → Thread
  | .event thread _ _ | .script thread _ | .run thread _ => thread

/-- What a step leads to. Where nobody was about to lock twice, somebody is behind the
step if and only if it was careless. -/
structure Leads (s : NetThreads Thread κ) (action : Action Thread κ)
    (s' : NetThreads Thread κ) : Prop where
  moves : Moves action.actor s s'
  shaped : Shaped s'
  relocks : ¬ s.Relocks → (s'.Relocks ↔ ¬ s.Careful action)

/-- A thread goes on to `ops`. -/
theorem goes_leads (shaped : Shaped s) {action : Action Thread κ} (actor : action.actor = thread)
    {ops : List (Op κ)} {manager : NetManager κ} {mutex : Option Thread} {holds : Bool}
    (moved : mutex = s.mutex ∨ s.mutex = none ∧ mutex = some thread ∨
      s.mutex = some thread ∧ mutex = none)
    (shape : Shape ops holds) (has : holds = true → mutex = some thread)
    (care : s.Careful action ↔ mutex ≠ some thread ∨ ∀ more, ops ≠ .lock :: more) :
    Leads s action { s.setProgram thread ops with manager, mutex } := by
  subst actor
  have own := setProgram_self s action.actor ops
  have moves : Moves action.actor s { s.setProgram action.actor ops with manager, mutex } :=
    ⟨fun other ne => s.setProgram_of_ne ops ne, moved⟩
  refine ⟨moves, moves.shaped shaped (own.symm ▸ shape) has, fun quiet => ?_⟩
  rw [moves.relocks quiet, care, RelocksAt, not_or, not_not, not_forall]
  simp only [own, ne_eq, not_not]

/-- The mutex is taken. -/
theorem lock_leads (shaped : Shaped s) {it : Option UInt32} {rest : List (Op κ)}
    (program : s.program thread = .lock :: rest) (free : s.mutex = none) :
    Leads s (.run thread it) { s.setProgram thread rest with mutex := some thread } := by
  obtain ⟨holds, shape, has⟩ := shaped thread
  rw [program] at shape
  cases holds with
  | true =>
      rw [free] at has
      cases has rfl
  | false =>
      obtain ⟨inside, once⟩ := shape.lock
      refine goes_leads shaped rfl (.inr (.inl ⟨free, rfl⟩)) inside (fun _ => rfl) ?_
      simp only [Careful, program, true_iff]
      exact .inr once

/-- A script that is not empty locks again. -/
theorem enter_leads (shaped : Shaped s) {it : Option UInt32} {event : Event κ}
    {script : List Call} {rest : List (Op κ)}
    (program : s.program thread = .enter event script :: rest) :
    Leads s (.run thread it) { s.setProgram thread (scriptOps script ++ .unlock :: rest) with
      manager := s.manager.enter event } := by
  obtain ⟨holds, shape, has⟩ := shaped thread
  rw [program] at shape
  obtain ⟨rfl, rfl⟩ := shape.enter
  have held := has rfl
  refine goes_leads shaped rfl (.inl rfl) (.inside script) (fun _ => held) ?_
  have unlocks : ∀ more, ([.unlock] : List (Op κ)) ≠ .lock :: more := nofun
  simp only [Careful, program]
  exact (scriptOps_waits script unlocks).trans (or_iff_right (not_not_intro held)).symm

/-- A call that returns gives the mutex back. -/
theorem returns_leads (shaped : Shaped s) {it : Option UInt32} {call : Call}
    {rest : List (Op κ)} {manager : NetManager κ}
    (program : s.program thread = .call call :: rest)
    (returns : s.manager.invoke it call = .returns manager) :
    Leads s (.run thread it) { s.setProgram thread rest with manager, mutex := none } := by
  obtain ⟨holds, shape, has⟩ := shaped thread
  rw [program] at shape
  obtain ⟨rfl, script, rfl⟩ := shape.call
  have accepted : s.manager.accepts call ≠ false := by
    rw [ne_eq, ← invoke_raises_iff s.manager it call, returns]
    nofun
  refine goes_leads shaped rfl (.inr (.inr ⟨has rfl, rfl⟩)) (.outside script) nofun ?_
  simp [Careful, program, accepted]

/-- A call that raises keeps it. -/
theorem raises_leads (shaped : Shaped s) {it : Option UInt32} {call : Call}
    {rest : List (Op κ)} (program : s.program thread = .call call :: rest)
    (raises : s.manager.invoke it call = .raises) :
    Leads s (.run thread it) (s.setProgram thread rest) := by
  obtain ⟨holds, shape, has⟩ := shaped thread
  rw [program] at shape
  obtain ⟨rfl, script, rfl⟩ := shape.call
  have held := has rfl
  have rejected := (invoke_raises_iff s.manager it call).mp raises
  refine goes_leads shaped rfl (.inl rfl) (.outside script) nofun ?_
  simp only [Careful, program, rejected, forall_const]
  refine Iff.trans ?_ (or_iff_right (not_not_intro held)).symm
  rw [← scriptOps_nil_iff]
  cases script <;> simp [scriptOps]

theorem unlock_leads (shaped : Shaped s) {it : Option UInt32} {rest : List (Op κ)}
    (program : s.program thread = .unlock :: rest) :
    Leads s (.run thread it) { s.setProgram thread rest with mutex := none } := by
  obtain ⟨holds, shape, has⟩ := shaped thread
  rw [program] at shape
  obtain ⟨rfl, rfl⟩ := shape.unlock
  refine goes_leads shaped rfl (.inr (.inr ⟨has rfl, rfl⟩)) (.outside []) nofun ?_
  simp [Careful, program]

theorem run_leads (shaped : Shaped s) {it : Option UInt32}
    (step : s.run thread it = some s') : Leads s (.run thread it) s' := by
  unfold run at step
  split at step
  · cases step
  · next rest program =>
      split at step
      · next free =>
          cases step
          exact lock_leads shaped program free
      · cases step
  · next event script rest program =>
      cases step
      exact enter_leads shaped program
  · next call rest program =>
      split at step
      · next manager returns =>
          cases step
          exact returns_leads shaped program returns
      · next raises =>
          cases step
          exact raises_leads shaped program raises
      · cases step
  · next rest program =>
      cases step
      exact unlock_leads shaped program

theorem step_leads (shaped : Shaped s) {action : Action Thread κ}
    (step : s.Steps action s') : Leads s action s' := by
  cases action with
  | event thread event script =>
      rw [Steps, NetThreads.step] at step
      split at step
      · cases step
        refine goes_leads shaped rfl (.inl rfl) (.waiting event script) nofun ?_
        simp [Careful, Action.actor]
      · cases step
  | script thread script =>
      rw [Steps, NetThreads.step] at step
      split at step
      · cases step
        refine goes_leads shaped rfl (.inl rfl) (.outside script) nofun ?_
        rw [Careful, or_comm, ← scriptOps_nil_iff, Action.actor]
      · cases step
  | run thread it => exact run_leads shaped step

omit [DecidableEq Thread] in
theorem create_shaped : Shaped (create : NetThreads Thread κ) :=
  fun _ => ⟨false, .outside [], nofun⟩

/-- Over every run of any number of threads, with any events and any scripts: no
thread is ever about to lock the mutex that it holds if and only if every step is
careful. -/
theorem locksOnce_iff (actions : List (Action Thread κ)) :
    Along Enabled Steps LocksOnce create actions ↔
      Along Enabled Steps Careful create actions := by
  apply along_congr (I := fun s => Shaped s ∧ ¬ s.Relocks)
  · rintro s action ⟨shaped, quiet⟩ ⟨next, step⟩
    constructor
    · intro once
      exact Classical.byContradiction fun careless =>
        once next step (((step_leads shaped step).relocks quiet).mpr careless)
    · intro careful s' step' relocks
      exact ((step_leads shaped step').relocks quiet).mp relocks careful
  · rintro s action s' ⟨shaped, quiet⟩ _ once step
    exact ⟨(step_leads shaped step).shaped, once s' step⟩
  · refine ⟨create_shaped, ?_⟩
    rintro ⟨thread, held, _⟩
    cases held

/-- A player is greeted by `on_connect`. -/
def greetingRun : List (Action Nat Nat) :=
  [.event 0 (.onConnect 7 1) [⟨.writeMessage, [⟨some 1, none⟩, ⟨none, some [104, 105]⟩]⟩],
    .run 0 none, .run 0 none]

/-- The greeting waits for the mutex that `on_connect` holds. -/
theorem greetingRun_relocks :
    ¬ ∀ actions : List (Action Nat Nat), Along Enabled Steps LocksOnce create actions := by
  intro all
  have first := all greetingRun ⟨_, rfl⟩
  have second := first.2 _ rfl ⟨_, rfl⟩
  have third := second.2 _ rfl ⟨_, rfl⟩
  exact third.1 _ rfl ⟨0, rfl, _, rfl⟩

/-! ## Nothing resolves it -/

theorem relocksAt_blocked {action : Action Thread κ} (relocks : s.RelocksAt thread)
    (step : s.Steps action s') : action.actor ≠ thread := by
  rintro rfl
  obtain ⟨held, rest, waits⟩ := relocks
  cases action with
  | event thread event script =>
      rw [Action.actor] at waits
      rw [Steps, NetThreads.step, waits, List.isEmpty_cons, if_neg Bool.false_ne_true] at step
      cases step
  | script thread script =>
      rw [Action.actor] at waits
      rw [Steps, NetThreads.step, waits, List.isEmpty_cons, if_neg Bool.false_ne_true] at step
      cases step
  | run thread it =>
      rw [Action.actor] at held waits
      rw [Steps, NetThreads.step, run, waits] at step
      dsimp only at step
      rw [held, if_neg (Option.some_ne_none _)] at step
      cases step

/-- A thread that waits for itself keeps the mutex from everybody. -/
theorem relocksAt_step {action : Action Thread κ} (shaped : Shaped s)
    (relocks : s.RelocksAt thread) (step : s.Steps action s') : s'.RelocksAt thread := by
  have other := relocksAt_blocked relocks step
  have moves := (step_leads shaped step).moves
  obtain ⟨held, rest, waits⟩ := relocks
  refine ⟨?_, rest, by rw [moves.others thread (Ne.symm other), waits]⟩
  rcases moves.mutex with kept | ⟨free, _⟩ | ⟨own, _⟩
  · rw [kept, held]
  · rw [held] at free
    cases free
  · rw [held, Option.some.injEq] at own
    exact absurd own.symm other

theorem relocksAt_forever {actions : List (Action Thread κ)} (shaped : Shaped s)
    (relocks : s.RelocksAt thread) (run : Reached Enabled Steps s actions s') :
    s'.RelocksAt thread := by
  have both : Shaped s' ∧ s'.RelocksAt thread :=
    run.invariant_all (I := fun s => Shaped s ∧ s.RelocksAt thread)
      (fun s action s' ⟨shaped, relocks⟩ _ step =>
        ⟨(step_leads shaped step).shaped, relocksAt_step shaped relocks step⟩)
      ⟨shaped, relocks⟩
  exact both.2

end FysobEngine.Net.NetThreads
