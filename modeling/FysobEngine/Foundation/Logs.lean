import Mathlib.Data.List.Basic

/-!
# Logs

A log grows at its end. What held when an entry was made, and what has not been
undone since.
-/

namespace FysobEngine.Foundation.Logs

variable {α : Type _} {log before after : List α} {x e : α}

/-- An entry of a longer log is the last one or was there before. -/
theorem split_append_singleton (split : log ++ [e] = before ++ x :: after) :
    after = [] ∧ before = log ∧ x = e ∨
      ∃ rest, after = rest ++ [e] ∧ log = before ++ x :: rest := by
  obtain rfl | ⟨rest, last, rfl⟩ := after.eq_nil_or_concat
  · obtain ⟨same, final⟩ := List.append_inj' split rfl
    cases final
    exact .inl ⟨rfl, same.symm, rfl⟩
  · have regrouped : log ++ [e] = (before ++ x :: rest) ++ [last] := by simpa using split
    obtain ⟨same, final⟩ := List.append_inj' regrouped rfl
    cases final
    exact .inr ⟨rest, by simp, same⟩

/-- Whenever `x` is noted, what has been noted before satisfies `P`. -/
def Guarded (log : List α) (x : α) (P : List α → Prop) : Prop :=
  ∀ before after, log = before ++ x :: after → P before

theorem Guarded.nil (x : α) (P : List α → Prop) : Guarded [] x P := by
  intro before after split
  exact absurd split (by simp)

theorem Guarded.append {P : List α → Prop} (guarded : Guarded log x P) (now : e = x → P log) :
    Guarded (log ++ [e]) x P := by
  intro before after split
  obtain ⟨-, rfl, rfl⟩ | ⟨rest, -, whole⟩ := split_append_singleton split
  · exact now rfl
  · exact guarded before rest whole

theorem Guarded.of_append {P : List α → Prop} {more : List α}
    (guarded : Guarded (log ++ more) x P) : Guarded log x P := by
  rintro before after rfl
  exact guarded before (after ++ more) (by simp)

/-- `x` has been noted, and nothing that undoes it since. -/
def Since (log : List α) (x : α) (undoes : α → Prop) : Prop :=
  ∃ before after, log = before ++ x :: after ∧ ∀ y ∈ after, ¬ undoes y

theorem Since.new (log : List α) (x : α) (undoes : α → Prop) : Since (log ++ [x]) x undoes :=
  ⟨log, [], rfl, by simp⟩

theorem Since.append {undoes : α → Prop} (since : Since log x undoes) (still : ¬ undoes e) :
    Since (log ++ [e]) x undoes := by
  obtain ⟨before, after, rfl, quiet⟩ := since
  refine ⟨before, after ++ [e], by simp, fun y member => ?_⟩
  obtain earlier | last := List.mem_append.mp member
  · exact quiet y earlier
  · rw [List.mem_singleton.mp last]
    exact still

/-- What the next entry makes of it. -/
theorem since_append_iff {undoes : α → Prop} :
    Since (log ++ [e]) x undoes ↔ e = x ∨ Since log x undoes ∧ ¬ undoes e := by
  constructor
  · rintro ⟨before, after, split, quiet⟩
    obtain ⟨-, -, rfl⟩ | ⟨rest, rfl, whole⟩ := split_append_singleton split
    · exact .inl rfl
    · refine .inr ⟨⟨before, rest, whole, fun y member => ?_⟩, quiet e (by simp)⟩
      exact quiet y (List.mem_append_left _ member)
  · rintro (rfl | ⟨since, still⟩)
    · exact .new log e undoes
    · exact since.append still

end FysobEngine.Foundation.Logs
