import Mathlib.Data.List.Basic

/- Runs of a system whose steps carry labels, and how the runs of one system are followed by runs
   of another whose labels show only a part of what happens. -/
namespace Simulations
variable {σ τ α β : Type*}

inductive Run (step : σ → α → σ → Prop) : σ → List α → σ → Prop where
  | stop (s : σ) : Run step s [] s
  | next {s t u : σ} {a : α} {as : List α} (first : step s a t) (rest : Run step t as u) :
    Run step s (a :: as) u

variable {step : σ → α → σ → Prop}

theorem run_single {s t : σ} {a : α} (only : step s a t) : Run step s [a] t := .next only (.stop t)

theorem run_append {s t u : σ} {as bs : List α} (first : Run step s as t) (rest : Run step t bs u) :
    Run step s (as ++ bs) u := by
  induction first with
  | stop => exact rest
  | next one _ ih => exact .next one (ih rest)

theorem run_keeps {P : σ → Prop} (keeps : ∀ s a t, step s a t → P s → P t) {s t : σ} {as : List α}
    (run : Run step s as t) (start : P s) : P t := by
  induction run with
  | stop => exact start
  | next first _ ih => exact ih (keeps _ _ _ first start)

/-- Each step is a run of the other system on what its label shows. -/
def Follows (step : σ → α → σ → Prop) (other : τ → β → τ → Prop) (shows : α → List β)
    (rel : σ → τ → Prop) : Prop :=
  ∀ s a s' t, step s a s' → rel s t → ∃ t', Run other t (shows a) t' ∧ rel s' t'

theorem run_follows {other : τ → β → τ → Prop} {shows : α → List β} {rel : σ → τ → Prop}
    (follows : Follows step other shows rel) {s s' : σ} {as : List α} (run : Run step s as s')
    {t : τ} (start : rel s t) :
    ∃ t', Run other t (as.flatMap shows) t' ∧ rel s' t' := by
  induction run generalizing t with
  | stop => exact ⟨t, .stop t, start⟩
  | next first _ ih =>
    obtain ⟨middle, one, related⟩ := follows _ _ _ _ first start
    obtain ⟨t', rest, last⟩ := ih related
    exact ⟨t', run_append one rest, last⟩

theorem run_iff_foldlM (f : τ → β → Option τ) (t u : τ) (bs : List β) :
    Run (fun t b u => f t b = some u) t bs u ↔ bs.foldlM f t = some u := by
  constructor
  · intro run
    induction run with
    | stop => rfl
    | next first _ ih =>
      rw [List.foldlM_cons, first]
      exact ih
  · intro fold
    induction bs generalizing t with
    | nil =>
      cases fold
      exact .stop _
    | cons b bs ih =>
      rw [List.foldlM_cons] at fold
      obtain ⟨middle, first, rest⟩ := Option.bind_eq_some_iff.mp fold
      exact .next first (ih middle rest)

end Simulations
