import Mathlib.Logic.Function.Iterate
import FysobEngine.Foundation.Runs

/-!
# Sections behind a gate

Parties work on shared data in sections of many small steps, and a gate lets one of
them in at a time. What they do to the data is what their sections do one after
another.
-/

namespace FysobEngine.Foundation.Sections

open Runs

variable {ι κ ε σ χ : Type _}

/-- A gate, and how one party moves at it. -/
structure Gate (ι κ ε : Type _) where
  next : κ → ι → ε → Option κ
  inside : κ → ι → Bool

/-- What a gate has to keep to. -/
structure Gate.Lawful (g : Gate ι κ ε) (I : κ → Prop) : Prop where
  keeps {k k' : κ} {i : ι} {e : ε} : I k → g.next k i e = some k' → I k'
  exclusive {k : κ} {i j : ι} : I k → g.inside k i = true → g.inside k j = true → i = j
  /-- Nobody but the party that moves gets in or out. -/
  others {k k' : κ} {i j : ι} {e : ε} : I k → g.next k i e = some k' → j ≠ i →
    g.inside k' j = g.inside k j

/-! ## Sections -/

section Ticks

variable (micro : χ → σ → Option χ × σ)

/-- One small step of a section, if anything of it is left. -/
def tick : Option χ × σ → Option χ × σ
  | (none, s) => (none, s)
  | (some c, s) => micro c s

/-- Sections that are run to their ends one after another. -/
def Serially : List χ → σ → σ → Prop
  | [], s, s' => s' = s
  | c :: rest, s, s' =>
      ∃ times middle, (tick micro)^[times] (some c, s) = (none, middle) ∧ Serially rest middle s'

variable {micro}

theorem Serially.snoc {sections : List χ} {c : χ} {s middle s' : σ} {times : Nat}
    (first : Serially micro sections s middle)
    (last : (tick micro)^[times] (some c, middle) = (none, s')) :
    Serially micro (sections ++ [c]) s s' := by
  induction sections generalizing s with
  | nil =>
      cases first
      exact ⟨times, s', last, rfl⟩
  | cons head rest ih =>
      obtain ⟨ticks, between, done, later⟩ := first
      exact ⟨ticks, between, done, ih later⟩

end Ticks

/-! ## The parties -/

/-- The gate and the data, what each party has come for and what is left of that, and
the sections that have been left. -/
structure Gated (ι κ σ χ : Type _) where
  gate : κ
  data : σ
  asked : ι → Option χ
  left : ι → Option χ
  log : List χ

/-- A party comes for a section, moves at the gate, or works inside. -/
inductive Event (ι ε χ : Type _) where
  | ask (i : ι) (c : χ)
  | move (i : ι) (e : ε)
  | work (i : ι)

variable [DecidableEq ι] (g : Gate ι κ ε) (micro : χ → σ → Option χ × σ)

/-- A party moves only for a section, and gets out only when it has done all of it. -/
def step (s : Gated ι κ σ χ) : Event ι ε χ → Option (Gated ι κ σ χ)
  | .ask i c =>
      if (s.asked i).isSome then none
      else some { s with
        asked := Function.update s.asked i (some c)
        left := Function.update s.left i (some c) }
  | .move i e =>
      (g.next s.gate i e).bind fun gate =>
        match s.asked i with
        | none => none
        | some c =>
            if g.inside s.gate i && !g.inside gate i then
              if (s.left i).isSome then none
              else some { s with
                gate := gate
                asked := Function.update s.asked i none
                log := s.log ++ [c] }
            else some { s with gate := gate }
  | .work i =>
      if g.inside s.gate i then
        (s.left i).map fun c => { s with
          data := (micro c s.data).2
          left := Function.update s.left i (micro c s.data).1 }
      else none

/-- Nobody has come yet. -/
def start (gate : κ) (data : σ) : Gated ι κ σ χ := ⟨gate, data, fun _ => none, fun _ => none, []⟩

/-- The data is that of the sections that have been left, and of the part that a party
inside has done of its own. -/
structure Serial (I : κ → Prop) (first : σ) (s : Gated ι κ σ χ) (settled : σ) : Prop where
  gate : I s.gate
  came {i : ι} : g.inside s.gate i = true → (s.asked i).isSome
  fresh {i : ι} : g.inside s.gate i = false → s.left i = s.asked i
  serially : Serially micro s.log first settled
  under {i : ι} : g.inside s.gate i = true →
    ∃ times, (tick micro)^[times] (s.asked i, settled) = (s.left i, s.data)
  quiet : (∀ i, g.inside s.gate i = false) → s.data = settled

variable {g micro} {I : κ → Prop} {first settled : σ} {s s' : Gated ι κ σ χ}

omit [DecidableEq ι] in
theorem start_serial {gate : κ} (lawful : I gate) (out : ∀ i, g.inside gate i = false) :
    Serial g micro I first (start gate first) first where
  gate := lawful
  came inside := by
    rw [start, out] at inside
    cases inside
  fresh _ := rfl
  serially := rfl
  under inside := by
    rw [start, out] at inside
    cases inside
  quiet _ := rfl

theorem ask_serial {i : ι} {c : χ} (serial : Serial g micro I first s settled)
    (asked : step g micro s (.ask i c) = some s') : Serial g micro I first s' settled := by
  unfold step at asked
  dsimp only at asked
  split at asked
  · cases asked
  · next none =>
      cases asked
      have out : g.inside s.gate i = false := by
        cases inside : g.inside s.gate i with
        | false => rfl
        | true => exact absurd (serial.came inside) none
      have other {j : ι} (inside : g.inside s.gate j = true) : j ≠ i := by
        rintro rfl
        rw [out] at inside
        cases inside
      refine ⟨serial.gate, fun {j} inside => ?_, fun {j} outside => ?_, serial.serially,
        fun {j} inside => ?_, serial.quiet⟩
      · dsimp only
        rw [Function.update_of_ne (other inside)]
        exact serial.came inside
      · by_cases same : j = i
        · subst same
          dsimp only
          rw [Function.update_self, Function.update_self]
        · dsimp only
          rw [Function.update_of_ne same, Function.update_of_ne same]
          exact serial.fresh outside
      · dsimp only
        rw [Function.update_of_ne (other inside), Function.update_of_ne (other inside)]
        exact serial.under inside

theorem work_serial {i : ι} (lawful : g.Lawful I) (serial : Serial g micro I first s settled)
    (worked : step g micro s (.work i) = some s') : Serial g micro I first s' settled := by
  unfold step at worked
  dsimp only at worked
  split at worked
  · next inside =>
      obtain ⟨c, left, rfl⟩ := Option.map_eq_some_iff.mp worked
      have alone {j : ι} (there : g.inside s.gate j = true) : j = i :=
        lawful.exclusive serial.gate there inside
      refine ⟨serial.gate, serial.came, fun {j} outside => ?_, serial.serially, fun {j} there => ?_,
        fun nobody => ?_⟩
      · have other : j ≠ i := by
          rintro rfl
          exact absurd (inside.symm.trans outside) (by simp)
        dsimp only
        rw [Function.update_of_ne other]
        exact serial.fresh outside
      · obtain rfl := alone there
        obtain ⟨times, done⟩ := serial.under there
        refine ⟨times + 1, ?_⟩
        dsimp only
        rw [Function.iterate_succ_apply', done, left, Function.update_self]
        rfl
      · exact absurd (inside.symm.trans (nobody i)) (by simp)
  · cases worked

/-- A party that leaves settles what it has done. -/
theorem move_serial {i : ι} {e : ε} (lawful : g.Lawful I)
    (serial : Serial g micro I first s settled)
    (moved : step g micro s (.move i e) = some s') :
    ∃ settled, Serial g micro I first s' settled := by
  unfold step at moved
  obtain ⟨gate, next, moved⟩ := Option.bind_eq_some_iff.mp moved
  have others {j : ι} (other : j ≠ i) : g.inside gate j = g.inside s.gate j :=
    lawful.others serial.gate next other
  have kept := lawful.keeps serial.gate next
  cases asked : s.asked i with
  | none =>
      rw [asked] at moved
      cases moved
  | some c =>
      rw [asked] at moved
      dsimp only at moved
      by_cases leaves : (g.inside s.gate i && !g.inside gate i) = true
      · rw [if_pos leaves] at moved
        obtain ⟨inside, out⟩ : g.inside s.gate i = true ∧ g.inside gate i = false := by
          simpa using leaves
        cases left : s.left i with
        | some rest =>
            rw [left] at moved
            cases moved
        | none =>
            rw [left] at moved
            cases moved
            have empty (j : ι) : g.inside gate j = false := by
              by_cases same : j = i
              · exact same ▸ out
              · rw [others same]
                cases there : g.inside s.gate j with
                | false => rfl
                | true => exact absurd (lawful.exclusive serial.gate there inside) same
            obtain ⟨times, done⟩ := serial.under inside
            rw [asked, left] at done
            refine ⟨s.data, kept, fun {j} there => ?_, fun {j} _ => ?_, serial.serially.snoc done,
              fun {j} there => ?_, fun _ => rfl⟩
            · exact absurd (there.symm.trans (empty j)) (by simp)
            · by_cases same : j = i
              · subst same
                dsimp only
                rw [left, Function.update_self]
              · refine (serial.fresh ?_).trans (Function.update_of_ne same _ _).symm
                exact (others same).symm.trans (empty j)
            · exact absurd (there.symm.trans (empty j)) (by simp)
      · rw [if_neg leaves] at moved
        cases moved
        have stays (inside : g.inside s.gate i = true) : g.inside gate i = true := by
          simpa [inside] using leaves
        refine ⟨settled, kept, fun {j} there => ?_, fun {j} outside => ?_, serial.serially,
          fun {j} there => ?_, fun nobody => ?_⟩
        · by_cases same : j = i
          · exact same ▸ asked ▸ rfl
          · exact serial.came ((others same).symm.trans there)
        · by_cases same : j = i
          · subst same
            refine serial.fresh (Bool.eq_false_iff.mpr fun inside => ?_)
            exact absurd ((stays inside).symm.trans outside) (by simp)
          · exact serial.fresh ((others same).symm.trans outside)
        · by_cases before : g.inside s.gate j = true
          · exact serial.under before
          · -- it has come in, and finds nobody
            have outside : g.inside s.gate j = false := Bool.eq_false_iff.mpr before
            obtain rfl : j = i := by
              by_contra other
              exact before ((others other).symm.trans there)
            have nobody (l : ι) : g.inside s.gate l = false := by
              by_cases same : l = j
              · exact same ▸ outside
              · rw [← others same]
                cases also : g.inside gate l with
                | false => rfl
                | true => exact absurd (lawful.exclusive kept also there) same
            exact ⟨0, Prod.ext (serial.fresh outside).symm (serial.quiet nobody).symm⟩
        · refine serial.quiet fun j => ?_
          by_cases same : j = i
          · subst same
            exact Bool.eq_false_iff.mpr fun inside =>
              absurd ((stays inside).symm.trans (nobody j)) (by simp)
          · exact (others same).symm.trans (nobody j)

/-- In every run the sections take effect one after another, in the order in which they
are left. -/
theorem reached_serial {events : List (Event ι ε χ)} (lawful : g.Lawful I)
    (serial : Serial g micro I first s settled)
    (run : Reached (fun _ _ => True) (fun s e s' => step g micro s e = some s') s events s') :
    ∃ settled, Serial g micro I first s' settled := by
  refine run.invariant_all (I := fun s => ∃ settled, Serial g micro I first s settled)
    (fun s event s' ⟨settled, serial⟩ _ stepped => ?_) ⟨settled, serial⟩
  cases event with
  | ask i c => exact ⟨settled, ask_serial serial stepped⟩
  | move i e => exact move_serial lawful serial stepped
  | work i => exact ⟨settled, work_serial lawful serial stepped⟩

end FysobEngine.Foundation.Sections
