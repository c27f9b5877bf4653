/-!
# Runs of a transition system

A system is a relation `next s a s'`: action `a` takes the state `s` to `s'`.
An action that is not enabled, or that leaves the defined behaviour of the
program, has no successor. `valid` says which actions the environment may
offer in a state.
-/

namespace FysobEngine.Foundation.Runs

variable {σ α : Type _}

/-- The states reached by a finite list of actions. -/
inductive Reached (valid : σ → α → Prop) (next : σ → α → σ → Prop) :
    σ → List α → σ → Prop where
  | nil (s : σ) : Reached valid next s [] s
  | cons {s middle last : σ} {a : α} {rest : List α} :
      valid s a → next s a middle → Reached valid next middle rest last →
      Reached valid next s (a :: rest) last

/-- Every action of the run, as far as the run goes, satisfies `P` in the
state it is offered in. -/
def Along (valid : σ → α → Prop) (next : σ → α → σ → Prop)
    (P : σ → α → Prop) : σ → List α → Prop
  | _, [] => True
  | s, a :: rest =>
      valid s a → P s a ∧ ∀ s', next s a s' → Along valid next P s' rest

variable {valid : σ → α → Prop} {next : σ → α → σ → Prop}

/-- Two step conditions that agree on the states of an invariant, kept by the
steps that meet the first of them, agree along every run. -/
theorem along_congr {I : σ → Prop} {P Q : σ → α → Prop}
    (agree : ∀ s a, I s → valid s a → (P s a ↔ Q s a))
    (keep : ∀ s a s', I s → valid s a → P s a → next s a s' → I s')
    {s : σ} (start : I s) (actions : List α) :
    Along valid next P s actions ↔ Along valid next Q s actions := by
  induction actions generalizing s with
  | nil => exact Iff.rfl
  | cons a rest ih =>
      simp only [Along]
      constructor
      · intro run ok
        obtain ⟨head, tail⟩ := run ok
        refine ⟨(agree s a start ok).mp head, fun s' step => ?_⟩
        exact (ih (keep s a s' start ok head step)).mp (tail s' step)
      · intro run ok
        obtain ⟨head, tail⟩ := run ok
        have first : P s a := (agree s a start ok).mpr head
        refine ⟨first, fun s' step => ?_⟩
        exact (ih (keep s a s' start ok first step)).mpr (tail s' step)

/-- An invariant kept by every step that meets the condition holds in every
state of a run that meets it. -/
theorem Reached.invariant {I : σ → Prop} {P : σ → α → Prop}
    (keep : ∀ s a s', I s → valid s a → P s a → next s a s' → I s')
    {s last : σ} {actions : List α} (run : Reached valid next s actions last)
    (meets : Along valid next P s actions) (start : I s) : I last := by
  induction run with
  | nil => exact start
  | cons ok step _ ih =>
      obtain ⟨head, tail⟩ := meets ok
      exact ih (tail _ step) (keep _ _ _ start ok head step)

/-- A condition met along a run holds of the action offered behind a part of it. -/
theorem Along.behind {P : σ → α → Prop} {s last : σ} {before : List α} {a : α}
    (meets : Along valid next P s (before ++ [a]))
    (run : Reached valid next s before last) (ok : valid last a) : P last a := by
  induction run with
  | nil => exact (meets ok).1
  | cons first step _ ih => exact ih ((meets first).2 _ step) ok

theorem Along.mono {P Q : σ → α → Prop} (weaker : ∀ s a, P s a → Q s a) {s : σ}
    {actions : List α} (meets : Along valid next P s actions) :
    Along valid next Q s actions := by
  induction actions generalizing s with
  | nil => trivial
  | cons a rest ih =>
      intro ok
      obtain ⟨head, tail⟩ := meets ok
      exact ⟨weaker s a head, fun s' step => ih (tail s' step)⟩

/-- A condition met whatever is offered is met in the runs of a narrower environment. -/
theorem Along.restrict {valid' : σ → α → Prop} {P : σ → α → Prop}
    (narrower : ∀ s a, valid' s a → valid s a) {s : σ} {actions : List α}
    (meets : Along valid next P s actions) : Along valid' next P s actions := by
  induction actions generalizing s with
  | nil => trivial
  | cons a rest ih =>
      intro ok
      obtain ⟨head, tail⟩ := meets (narrower s a ok)
      exact ⟨head, fun s' step => ih (tail s' step)⟩

theorem along_true (s : σ) (actions : List α) :
    Along valid next (fun _ _ => True) s actions := by
  induction actions generalizing s with
  | nil => trivial
  | cons a rest ih => exact fun _ => ⟨trivial, fun s' _ => ih s'⟩

/-- The unconditional form: an invariant of every step is one of every run. -/
theorem Reached.invariant_all {I : σ → Prop}
    (keep : ∀ s a s', I s → valid s a → next s a s' → I s')
    {s last : σ} {actions : List α} (run : Reached valid next s actions last)
    (start : I s) : I last :=
  run.invariant (P := fun _ _ => True) (fun s a s' inv ok _ => keep s a s' inv ok)
    (along_true s actions) start

theorem Reached.mono {valid' : σ → α → Prop} (weaker : ∀ s a, valid s a → valid' s a)
    {s last : σ} {actions : List α} (run : Reached valid next s actions last) :
    Reached valid' next s actions last := by
  induction run with
  | nil => exact .nil _
  | cons ok step _ ih => exact .cons (weaker _ _ ok) step ih

theorem Reached.append {s middle last : σ} {before behind : List α}
    (first : Reached valid next s before middle) (second : Reached valid next middle behind last) :
    Reached valid next s (before ++ behind) last := by
  induction first with
  | nil => exact second
  | cons ok step _ ih => exact .cons ok step (ih second)

/-! ## Runs that come to an end -/

/-- No valid action is enabled. -/
def Stuck (valid : σ → α → Prop) (next : σ → α → σ → Prop) (s : σ) : Prop :=
  ∀ a s', valid s a → ¬ next s a s'

/-- Where every step lowers a rank, a run can be continued until no action is enabled. -/
theorem exists_stuck (rank : σ → Nat) {I : σ → Prop}
    (keep : ∀ s a s', I s → valid s a → next s a s' → I s')
    (lower : ∀ s a s', I s → valid s a → next s a s' → rank s' < rank s) {s : σ} (start : I s) :
    ∃ actions last, Reached valid next s actions last ∧ Stuck valid next last := by
  induction bound : rank s using Nat.strongRecOn generalizing s with
  | ind r ih =>
      by_cases enabled : ∃ a s', valid s a ∧ next s a s'
      · obtain ⟨a, s', ok, step⟩ := enabled
        obtain ⟨actions, last, run, stuck⟩ :=
          ih (rank s') (bound ▸ lower s a s' start ok step) (keep s a s' start ok step) rfl
        exact ⟨a :: actions, last, .cons ok step run, stuck⟩
      · exact ⟨[], s, .nil s, fun a s' ok step => enabled ⟨a, s', ok, step⟩⟩

/-! ## Systems that can be run -/

section Executable

variable {step : σ → α → Option σ}

/-- The last state of a run of a system whose steps are a partial function. -/
def last (step : σ → α → Option σ) : σ → List α → Option σ
  | s, [] => some s
  | s, a :: rest => (step s a).bind (last step · rest)

theorem reached_last {s t : σ} {actions : List α} (run : last step s actions = some t) :
    Reached (fun _ _ => True) (fun s a s' => step s a = some s') s actions t := by
  induction actions generalizing s with
  | nil =>
      cases run
      exact .nil _
  | cons a rest ih =>
      obtain ⟨middle, first, tail⟩ := Option.bind_eq_some_iff.mp run
      exact .cons trivial first (ih tail)

/-- Whether a condition is met along such a run. -/
def holdsAlong (step : σ → α → Option σ) (P : σ → α → Prop) [∀ s a, Decidable (P s a)] :
    σ → List α → Bool
  | _, [] => true
  | s, a :: rest => decide (P s a) && (step s a).all (holdsAlong step P · rest)

theorem along_of_holdsAlong {P : σ → α → Prop} [∀ s a, Decidable (P s a)] {s : σ}
    {actions : List α} (holds : holdsAlong step P s actions = true) :
    Along (fun _ _ => True) (fun s a s' => step s a = some s') P s actions := by
  induction actions generalizing s with
  | nil => trivial
  | cons a rest ih =>
      rw [holdsAlong, Bool.and_eq_true, decide_eq_true_eq] at holds
      refine fun _ => ⟨holds.1, fun s' next => ih ?_⟩
      simpa [next] using holds.2

theorem reached_of_holdsAlong {valid : σ → α → Prop} [∀ s a, Decidable (valid s a)] {s t : σ}
    {actions : List α} (holds : holdsAlong step valid s actions = true)
    (run : last step s actions = some t) :
    Reached valid (fun s a s' => step s a = some s') s actions t := by
  induction actions generalizing s with
  | nil =>
      cases run
      exact .nil _
  | cons a rest ih =>
      rw [holdsAlong, Bool.and_eq_true, decide_eq_true_eq] at holds
      obtain ⟨middle, first, tail⟩ := Option.bind_eq_some_iff.mp run
      refine .cons holds.1 first (ih ?_ tail)
      simpa [first] using holds.2

/-! ### What a run puts out -/

variable {γ : Type _}

/-- What the steps of a run put out, one list for each action. -/
def produced (step : σ → α → Option σ) (out : σ → α → List γ) : σ → List α → List γ
  | _, [] => []
  | s, a :: rest =>
      out s a ++ (step s a).elim [] (produced step out · rest)

variable {out : σ → α → List γ}

/-- A relation between the output so far and the state, kept by every step that
meets the condition. -/
theorem Reached.history {I : List γ → σ → Prop} {P : σ → α → Prop}
    (keep : ∀ log s a s', I log s → P s a → step s a = some s' → I (log ++ out s a) s')
    {s last : σ} {actions : List α} {log : List γ}
    (run : Reached (fun _ _ => True) (fun s a s' => step s a = some s') s actions last)
    (meets : Along (fun _ _ => True) (fun s a s' => step s a = some s') P s actions)
    (start : I log s) : I (log ++ produced step out s actions) last := by
  induction run generalizing log with
  | nil => simpa [produced] using start
  | @cons s middle last a rest ok first _ ih =>
      obtain ⟨head, tail⟩ := meets ok
      have behind := ih (tail _ first) (keep log s a middle start head first)
      simpa [produced, first, List.append_assoc] using behind

/-- A rank that pays for the output of every step bounds the output of a run. -/
theorem Reached.produced_length_le {valid : σ → α → Prop} (rank : σ → Nat) {I : σ → Prop}
    (keep : ∀ s a s', I s → valid s a → step s a = some s' → I s')
    (pays : ∀ s a s', I s → valid s a → step s a = some s' → (out s a).length + rank s' ≤ rank s)
    {s last : σ} {actions : List α}
    (run : Reached valid (fun s a s' => step s a = some s') s actions last) (start : I s) :
    (produced step out s actions).length + rank last ≤ rank s := by
  induction run with
  | nil => exact Nat.le_of_eq (Nat.zero_add _)
  | @cons s middle last a rest ok first _ ih =>
      have behind := ih (keep s a middle start ok first)
      have paid := pays s a middle start ok first
      have whole : (produced step out s (a :: rest)).length =
          (out s a).length + (produced step out middle rest).length := by
        rw [produced, first, List.length_append]
        rfl
      omega

/-- The unconditional form. -/
theorem Reached.history_all {I : List γ → σ → Prop}
    (keep : ∀ log s a s', I log s → step s a = some s' → I (log ++ out s a) s')
    {s last : σ} {actions : List α}
    (run : Reached (fun _ _ => True) (fun s a s' => step s a = some s') s actions last)
    (start : I [] s) : I (produced step out s actions) last := by
  have whole := run.history (P := fun _ _ => True)
    (fun log s a s' inv _ first => keep log s a s' inv first) (along_true s actions) start
  simpa using whole

end Executable

end FysobEngine.Foundation.Runs
