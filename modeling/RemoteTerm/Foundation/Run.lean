import Mathlib.Data.List.Basic

/-!
# Runs of a labelled step relation

A run is a finite sequence of steps, each under a label. What one step preserves, a
whole run preserves (`Run.invariant`), also if only the steps under the run's own labels do
(`Run.invariant_mem`), or where it speaks of the labels so far (`Run.invariant_labels`).
-/

namespace RemoteTerm.Foundation

variable {σ α : Type}

/-- `Run step s as t`: the labels `as`, taken in order, lead from `s` to `t`. -/
inductive Run (step : σ → α → σ → Prop) : σ → List α → σ → Prop where
  | nil (s : σ) : Run step s [] s
  | cons {s t u : σ} {a : α} {as : List α} (head : step s a t) (tail : Run step t as u) :
      Run step s (a :: as) u

namespace Run

variable {step : σ → α → σ → Prop} {s t : σ} {as bs : List α}

theorem invariant_mem {I : σ → Prop} (hStep : ∀ a ∈ as, ∀ s t, I s → step s a t → I t)
    (h : Run step s as t) (hs : I s) : I t := by
  induction h with
  | nil _ => exact hs
  | cons head _ ih =>
    exact ih (fun a ha => hStep a (List.mem_cons_of_mem _ ha))
      (hStep _ List.mem_cons_self _ _ hs head)

/-- What one step preserves, a run preserves. -/
theorem invariant {I : σ → Prop} (hStep : ∀ s a t, I s → step s a t → I t) (h : Run step s as t)
    (hs : I s) : I t :=
  h.invariant_mem (fun a _ s t => hStep s a t) hs

theorem invariant_labels {I : List α → σ → Prop}
    (hStep : ∀ bs s a t, I bs s → step s a t → I (bs ++ [a]) t) (h : Run step s as t)
    (hs : I bs s) : I (bs ++ as) t := by
  induction h generalizing bs with
  | nil s =>
    rw [List.append_nil]
    exact hs
  | cons head _ ih =>
    rw [List.append_cons]
    exact ih (hStep _ _ _ _ hs head)

/-- A function taken as a step relation runs by folding. -/
theorem of_foldl (f : σ → α → σ) (s : σ) (as : List α) :
    Run (fun s a t => t = f s a) s as (as.foldl f s) := by
  induction as generalizing s with
  | nil => exact .nil s
  | cons a as ih => exact .cons rfl (ih (f s a))

/-- So does a function that gives the next state, if there is one. -/
theorem of_foldlM {f : σ → α → Option σ} (h : as.foldlM f s = some t) :
    Run (fun s a t => f s a = some t) s as t := by
  induction as generalizing s with
  | nil =>
    cases h
    exact .nil _
  | cons a as ih =>
    rw [List.foldlM_cons] at h
    obtain ⟨next, hStep, h⟩ := Option.bind_eq_some_iff.mp h
    exact .cons hStep (ih h)

/-- A run to an end as told, and what every such run has there. -/
theorem exists_and {P Q : σ → Prop} (h : ∃ t, Run step s as t ∧ P t)
    (hQ : ∀ t, Run step s as t → P t → Q t) : ∃ t, Run step s as t ∧ P t ∧ Q t := by
  obtain ⟨t, hRun, hP⟩ := h
  exact ⟨t, hRun, hP, hQ t hRun hP⟩

end Run

end RemoteTerm.Foundation
