import Mathlib.Data.List.Basic

/- Runs of a deterministic machine, one action at a time. A property is checked in every
   state a run reaches, a guard in every state a step is taken from. -/
namespace GuardedRuns
variable {σ α : Type*} (step : σ → α → σ)

/-- Every state reached after a step of the run satisfies `P`. -/
def Along (P : σ → Prop) : List α → σ → Prop
  | [], _ => True
  | a :: as, s => P (step s a) ∧ Along P as (step s a)

/-- Every step of the run is taken in a state that admits it. -/
def Guarded (ok : σ → α → Prop) : List α → σ → Prop
  | [], _ => True
  | a :: as, s => ok s a ∧ Guarded ok as (step s a)

variable {step}

theorem along_mono {P Q : σ → Prop} (imp : ∀ s, P s → Q s) (as : List α) (s : σ)
    (h : Along step P as s) : Along step Q as s := by
  induction as generalizing s with
  | nil => trivial
  | cons a as ih => exact ⟨imp _ h.1, ih _ h.2⟩

theorem guarded_of_forall {P : α → Prop} (as : List α) (s : σ) (h : ∀ a ∈ as, P a) :
    Guarded step (fun _ a => P a) as s := by
  induction as generalizing s with
  | nil => trivial
  | cons a as ih => exact ⟨h a (by simp), ih _ (fun b mem => h b (by simp [mem]))⟩

theorem guarded_of_along {P : σ → Prop} (as : List α) (s : σ) (h : Along step P as s) :
    Guarded step (fun s a => P (step s a)) as s := by
  induction as generalizing s with
  | nil => trivial
  | cons a as ih => exact ⟨h.1, ih _ h.2⟩

theorem guarded_and {ok ok' : σ → α → Prop} (as : List α) (s : σ)
    (h : Guarded step ok as s) (h' : Guarded step ok' as s) :
    Guarded step (fun s a => ok s a ∧ ok' s a) as s := by
  induction as generalizing s with
  | nil => trivial
  | cons a as ih => exact ⟨⟨h.1, h'.1⟩, ih _ h.2 h'.2⟩

/-- `Along` speaks of the state after every nonempty prefix of the run. -/
theorem along_prefixes (P : σ → Prop) (as : List α) (s : σ) :
    Along step P as s ↔ ∀ pre, pre ≠ [] → pre <+: as → P (pre.foldl step s) := by
  induction as generalizing s with
  | nil =>
    simp only [Along, true_iff]
    intro pre ne isPrefix
    exact absurd (List.prefix_nil.mp isPrefix) ne
  | cons a as ih =>
    simp only [Along, ih]
    constructor
    · rintro ⟨first, rest⟩ pre ne isPrefix
      cases pre with
      | nil => exact absurd rfl ne
      | cons b pre =>
        obtain ⟨rfl, tail⟩ := List.cons_prefix_cons.mp isPrefix
        cases pre with
        | nil => exact first
        | cons c pre => exact rest _ (by simp) tail
    · intro all
      refine ⟨all [a] (by simp) (by simp), ?_⟩
      intro pre ne isPrefix
      exact all (a :: pre) (by simp) (List.cons_prefix_cons.mpr ⟨rfl, isPrefix⟩)

/-- An invariant that every admitted step keeps holds along every guarded run. -/
theorem invariant_along {P : σ → Prop} {ok : σ → α → Prop}
    (keeps : ∀ s a, P s → ok s a → P (step s a)) (as : List α) (s : σ)
    (start : P s) (guarded : Guarded step ok as s) : Along step P as s := by
  induction as generalizing s with
  | nil => trivial
  | cons a as ih =>
    have next := keeps s a start guarded.1
    exact ⟨next, ih _ next guarded.2⟩

/-- When, under an invariant, one step keeps `P` exactly if the guard admits it, a run keeps
    `P` throughout exactly if all its steps are admitted. -/
theorem along_iff_guarded (inv : σ → Prop) (allowed : σ → α → Prop) {P : σ → Prop}
    {ok : σ → α → Prop}
    (keeps : ∀ s a, inv s → allowed s a → inv (step s a))
    (exact_step : ∀ s a, inv s → allowed s a → P s → (P (step s a) ↔ ok s a))
    (as : List α) (s : σ) (hinv : inv s) (hP : P s) (runs : Guarded step allowed as s) :
    Along step P as s ↔ Guarded step ok as s := by
  induction as generalizing s with
  | nil => simp [Along, Guarded]
  | cons a as ih =>
    have one := exact_step s a hinv runs.1 hP
    have next := keeps s a hinv runs.1
    constructor
    · rintro ⟨now, later⟩
      exact ⟨one.mp now, (ih _ next now runs.2).mp later⟩
    · rintro ⟨now, later⟩
      have now' := one.mpr now
      exact ⟨now', (ih _ next now' runs.2).mpr later⟩

end GuardedRuns
