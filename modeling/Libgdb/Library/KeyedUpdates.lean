import Mathlib.Logic.Function.Basic
import Mathlib.Data.List.Basic

/- One change made at each key of a list. When making it twice is making it once, neither the
   order of the keys nor their repetition matters. -/
namespace KeyedUpdates
variable {κ β : Type} [DecidableEq κ] {f : β → β}

def touch (f : β → β) (m : κ → β) (k : κ) : κ → β := Function.update m k (f (m k))

def touchAll (f : β → β) (ks : List κ) (m : κ → β) : κ → β := ks.foldl (touch f) m

theorem touch_same (m : κ → β) (k : κ) : touch f m k k = f (m k) := Function.update_self k _ m

theorem touch_other (m : κ → β) {k j : κ} (ne : j ≠ k) : touch f m k j = m j :=
  Function.update_of_ne ne _ m

theorem touchAll_apply (idem : ∀ b, f (f b) = f b) (ks : List κ) (m : κ → β) (k : κ) :
    touchAll f ks m k = if k ∈ ks then f (m k) else m k := by
  induction ks generalizing m with
  | nil => simp [touchAll]
  | cons j ks ih =>
    rw [show touchAll f (j :: ks) m = touchAll f ks (touch f m j) from rfl, ih]
    by_cases here : k = j
    · subst here
      simp [touch_same, idem]
    · simp [touch_other m here, here]

/- The first visit to each open key. -/

def firsts (fresh : κ → Bool) : List κ → List κ
  | [] => []
  | k :: ks =>
    if fresh k = true then k :: firsts (Function.update fresh k false) ks else firsts fresh ks

theorem mem_firsts {fresh : κ → Bool} {ks : List κ} {k : κ} :
    k ∈ firsts fresh ks ↔ fresh k = true ∧ k ∈ ks := by
  induction ks generalizing fresh with
  | nil => simp [firsts]
  | cons j ks ih =>
    unfold firsts
    by_cases here : k = j
    · subst here
      by_cases open_ : fresh k = true
      · simp [open_]
      · simp [open_, ih]
    · by_cases open_ : fresh j = true
      · simp [open_, ih, here]
      · simp [open_, ih, here]

/- The last value written at a key. -/

def lastValue (key : κ) (before : β) : List (κ × β) → β
  | [] => before
  | (k, b) :: writes => lastValue key (if k = key then b else before) writes

theorem lastValue_append (key : κ) (before : β) (first second : List (κ × β)) :
    lastValue key before (first ++ second) = lastValue key (lastValue key before first) second := by
  induction first generalizing before with
  | nil => rfl
  | cons write first ih => exact ih _

theorem lastValue_of_forall_ne {key : κ} {writes : List (κ × β)} (none : ∀ w ∈ writes, w.1 ≠ key)
    (before : β) : lastValue key before writes = before := by
  induction writes with
  | nil => rfl
  | cons write writes ih =>
    obtain ⟨k, b⟩ := write
    rw [lastValue, if_neg (none (k, b) List.mem_cons_self)]
    exact ih fun w mem => none w (List.mem_cons_of_mem _ mem)

/-- The value is that of a write with none at its key behind it, or the one from before. -/
theorem lastValue_eq_iff {key : κ} {before value : β} {writes : List (κ × β)} :
    lastValue key before writes = value ↔
      ((∀ w ∈ writes, w.1 ≠ key) ∧ before = value) ∨
      ∃ earlier later, writes = earlier ++ (key, value) :: later ∧ ∀ w ∈ later, w.1 ≠ key := by
  constructor
  · intro last
    induction writes generalizing before with
    | nil => exact Or.inl ⟨by simp, last⟩
    | cons write writes ih =>
      obtain ⟨k, b⟩ := write
      rcases ih last with ⟨none, same⟩ | ⟨earlier, later, rfl, none⟩
      · by_cases here : k = key
        · rw [if_pos here] at same
          subst here same
          exact Or.inr ⟨[], writes, rfl, none⟩
        · rw [if_neg here] at same
          exact Or.inl ⟨by simpa [here] using none, same⟩
      · exact Or.inr ⟨(k, b) :: earlier, later, rfl, none⟩
  · rintro (⟨none, rfl⟩ | ⟨earlier, later, rfl, none⟩)
    · exact lastValue_of_forall_ne none before
    · rw [lastValue_append, lastValue, if_pos rfl]
      exact lastValue_of_forall_ne none value

end KeyedUpdates
