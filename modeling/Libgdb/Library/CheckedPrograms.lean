import Mathlib.Order.Defs.Unbundled
import Mathlib.Data.List.FinRange

/- Programs with a state and faults: a run returns a value or stops at a fault, and the state
   is kept either way. The rules say what every run of a program keeps, returns or avoids. -/
namespace CheckedPrograms
variable {ε σ α β : Type}

theorem bind_ok {x : Except ε α} {f : α → Except ε β} {b : β} (h : (x >>= f) = .ok b) :
    ∃ a, x = .ok a ∧ f a = .ok b := by
  cases x with
  | error e => cases h
  | ok a => exact ⟨a, rfl, h⟩

theorem ok_bind (a : α) (f : α → Except ε β) : (Except.ok a >>= f) = f a := rfl

theorem error_bind (e : ε) (f : α → Except ε β) :
    ((Except.error e : Except ε α) >>= f) = .error e := rfl

theorem run_throw (e : ε) (s : σ) :
    EStateM.run (throw e : EStateM ε σ α) s = .error e s := rfl

/-- The state a run leaves behind, whether it returned or stopped. -/
def after (m : EStateM ε σ α) (s : σ) : σ :=
  match m.run s with
  | .ok _ t => t
  | .error _ t => t

def value (m : EStateM ε σ α) (s : σ) : Option α :=
  match m.run s with
  | .ok a _ => some a
  | .error _ _ => none

theorem after_ok {m : EStateM ε σ α} {s t : σ} {a : α} (h : m.run s = .ok a t) :
    after m s = t := by simp [after, h]

theorem after_error {m : EStateM ε σ α} {s t : σ} {e : ε} (h : m.run s = .error e t) :
    after m s = t := by simp [after, h]

theorem value_ok {m : EStateM ε σ α} {s t : σ} {a : α} (h : m.run s = .ok a t) :
    value m s = some a := by simp [value, h]

theorem run_of_some {m : EStateM ε σ α} {s : σ} {a : α} (returns : value m s = some a) :
    m.run s = .ok a (after m s) := by
  unfold value at returns
  unfold after
  cases run : m.run s with
  | error e t =>
    rw [run] at returns
    cases returns
  | ok b t =>
    rw [run] at returns
    cases returns
    rfl

theorem run_of_value {m : EStateM ε σ Unit} {s : σ} (returns : (value m s).isSome = true) :
    m.run s = .ok () (after m s) := by
  obtain ⟨_, some⟩ := Option.isSome_iff_exists.mp returns
  exact run_of_some some

theorem run_bind_ok {m : EStateM ε σ α} {s t : σ} {a : α} (h : m.run s = .ok a t)
    (f : α → EStateM ε σ β) : (m >>= f).run s = (f a).run t := by
  rw [EStateM.run_bind, h]

theorem run_bind_error {m : EStateM ε σ α} {s t : σ} {e : ε} (h : m.run s = .error e t)
    (f : α → EStateM ε σ β) : (m >>= f).run s = .error e t := by
  rw [EStateM.run_bind, h]

theorem ok_bind_run {m : EStateM ε σ α} {f : α → EStateM ε σ β} {s u : σ} {b : β}
    (run : (m >>= f).run s = .ok b u) : ∃ a t, m.run s = .ok a t ∧ (f a).run t = .ok b u := by
  rw [EStateM.run_bind] at run
  cases first : m.run s with
  | error e t =>
    rw [first] at run
    cases run
  | ok a t =>
    rw [first] at run
    exact ⟨a, t, rfl, run⟩

theorem after_bind_ok {m : EStateM ε σ α} {s t : σ} {a : α} (h : m.run s = .ok a t)
    (f : α → EStateM ε σ β) : after (m >>= f) s = after (f a) t := by
  simp only [after, run_bind_ok h]

theorem after_ignore (m : EStateM ε σ α) (b : β) (s : σ) :
    after (m >>= fun _ => pure b) s = after m s := by
  unfold after
  rw [EStateM.run_bind]
  cases m.run s <;> rfl

theorem value_ignore (m : EStateM ε σ α) (b : β) (s : σ) :
    (value (m >>= fun _ => pure b) s).isSome = (value m s).isSome := by
  unfold value
  rw [EStateM.run_bind]
  cases m.run s <;> rfl

theorem value_bind_ok {m : EStateM ε σ α} {s t : σ} {a : α} (h : m.run s = .ok a t)
    (f : α → EStateM ε σ β) : value (m >>= f) s = value (f a) t := by
  simp only [value, run_bind_ok h]

theorem forM_returns {f : β → EStateM ε σ PUnit} {P : σ → Prop}
    (round : ∀ b s, P s → ∃ t, (f b).run s = .ok ⟨⟩ t ∧ P t) (bs : List β) (s : σ) (start : P s) :
    ∃ t, (bs.forM f).run s = .ok ⟨⟩ t ∧ P t := by
  induction bs generalizing s with
  | nil => exact ⟨s, rfl, start⟩
  | cons b bs ih =>
    obtain ⟨t, run, next⟩ := round b s start
    obtain ⟨u, rest, last⟩ := ih t next
    exact ⟨u, (run_bind_ok run _).trans rest, last⟩

/-- A loop over all indices in order, with an invariant that counts the rounds. -/
theorem forM_counted {n : Nat} {f : Fin n → EStateM ε σ PUnit} {P : Nat → σ → Prop}
    (round : ∀ (j : Fin n) s, P j.val s → ∃ t, (f j).run s = .ok ⟨⟩ t ∧ P (j.val + 1) t) (s : σ)
    (start : P 0 s) : ∃ t, ((List.finRange n).forM f).run s = .ok ⟨⟩ t ∧ P n t := by
  have rest (k j : Nat) (last : j + k = n) (s : σ) (now : P j s) :
      ∃ t, (((List.finRange n).drop j).forM f).run s = .ok ⟨⟩ t ∧ P n t := by
    induction k generalizing j s with
    | zero =>
      subst last
      rw [List.drop_eq_nil_of_le (by simp)]
      exact ⟨s, rfl, now⟩
    | succ k ih =>
      have inside : j < (List.finRange n).length := by
        rw [List.length_finRange]
        omega
      rw [List.drop_eq_getElem_cons inside]
      obtain ⟨t, run, next⟩ := round ⟨j, by omega⟩ s now
      obtain ⟨u, later, done⟩ := ih (j + 1) (by omega) t next
      refine ⟨u, ?_, done⟩
      rw [List.getElem_finRange]
      exact (run_bind_ok run _).trans later
  exact rest n 0 (by omega) s start

/-- A loop that returns has done each round, and no later round undoes an earlier one. -/
theorem forM_covers {f : β → EStateM ε σ PUnit} {R : σ → σ → Prop} [Std.Refl R] [IsTrans σ R]
    {Q : β → σ → Prop} (keeps : ∀ b s t, R s t → Q b s → Q b t)
    (round : ∀ b s t, (f b).run s = .ok ⟨⟩ t → R s t ∧ Q b t) (bs : List β) {s u : σ}
    (run : (bs.forM f).run s = .ok ⟨⟩ u) : R s u ∧ ∀ b ∈ bs, Q b u := by
  induction bs generalizing s with
  | nil =>
    cases run
    exact ⟨Std.Refl.refl _, fun b mem => nomatch mem⟩
  | cons b bs ih =>
    obtain ⟨_, t, first, rest⟩ := ok_bind_run run
    obtain ⟨here, done⟩ := round b s t first
    obtain ⟨later, others⟩ := ih rest
    refine ⟨IsTrans.trans _ _ _ here later, fun c mem => ?_⟩
    rcases List.mem_cons.mp mem with rfl | mem'
    · exact keeps _ _ _ later done
    · exact others c mem'

/- What every run keeps: the states before and after are related by `R`. -/

def Stays (R : σ → σ → Prop) (m : EStateM ε σ α) : Prop := ∀ s, R s (after m s)

section Stays
variable {R : σ → σ → Prop}

theorem stays_get [Std.Refl R] : Stays R (get : EStateM ε σ σ) := fun s => Std.Refl.refl s

theorem stays_pure [Std.Refl R] (a : α) : Stays R (pure a : EStateM ε σ α) :=
  fun s => Std.Refl.refl s

theorem stays_throw [Std.Refl R] (e : ε) : Stays R (throw e : EStateM ε σ α) :=
  fun s => Std.Refl.refl s

theorem stays_modify {f : σ → σ} (h : ∀ s, R s (f s)) :
    Stays R (modify f : EStateM ε σ PUnit) := h

theorem stays_bind [IsTrans σ R] {m : EStateM ε σ α} {f : α → EStateM ε σ β}
    (hm : Stays R m) (hf : ∀ a, Stays R (f a)) : Stays R (m >>= f) := by
  intro s
  have first := hm s
  unfold after at first ⊢
  rw [EStateM.run_bind]
  cases run : m.run s with
  | error e t => simpa only [run] using first
  | ok a t =>
    simp only [run] at first
    exact IsTrans.trans _ _ _ first (hf a t)

theorem stays_cond {c : Prop} [Decidable c] {m n : EStateM ε σ α}
    (hm : c → Stays R m) (hn : ¬ c → Stays R n) : Stays R (if c then m else n) := by
  by_cases h : c
  · rw [if_pos h]
    exact hm h
  · rw [if_neg h]
    exact hn h

theorem stays_ite {c : Prop} [Decidable c] {m n : EStateM ε σ α}
    (hm : Stays R m) (hn : Stays R n) : Stays R (if c then m else n) :=
  stays_cond (fun _ => hm) (fun _ => hn)

theorem stays_branch [IsTrans σ R] {c : Prop} [Decidable c] {m n : EStateM ε σ α}
    {f : α → EStateM ε σ β} (hm : Stays R m) (hn : Stays R n) (hf : ∀ a, Stays R (f a)) :
    Stays R (if c then m >>= f else n >>= f) :=
  stays_ite (stays_bind hm hf) (stays_bind hn hf)

theorem stays_forM [Std.Refl R] [IsTrans σ R] {f : β → EStateM ε σ PUnit} (bs : List β)
    (hf : ∀ b, Stays R (f b)) : Stays R (bs.forM f) := by
  induction bs with
  | nil => exact stays_pure _
  | cons b bs ih => exact stays_bind (hf b) (fun _ => ih)

def Preserves (P : σ → Prop) (s t : σ) : Prop := P s → P t

instance (P : σ → Prop) : Std.Refl (Preserves P) := ⟨fun _ start => start⟩

instance (P : σ → Prop) : IsTrans σ (Preserves P) :=
  ⟨fun _ _ _ first second start => second (first start)⟩

theorem preserves_get_bind {P : σ → Prop} {f : σ → EStateM ε σ β}
    (h : ∀ s, P s → Stays (Preserves P) (f s)) : Stays (Preserves P) (get >>= f) :=
  fun s start => h s start s start

end Stays

/- What a run that returns can return. -/

def Yields (Q : α → Prop) (m : EStateM ε σ α) : Prop :=
  ∀ s a t, m.run s = .ok a t → Q a

/- The faults no run stops at. -/

def Avoids (bad : ε → Prop) (m : EStateM ε σ α) : Prop :=
  ∀ s e t, m.run s = .error e t → ¬ bad e

section Faults
variable {bad : ε → Prop}

theorem yields_true (m : EStateM ε σ α) : Yields (fun _ => True) m := fun _ _ _ _ => trivial

theorem yields_pure {Q : α → Prop} {a : α} (h : Q a) : Yields Q (pure a : EStateM ε σ α) := by
  intro s b t run
  cases run
  exact h

theorem yields_bind {P : α → Prop} {Q : β → Prop} {m : EStateM ε σ α} {f : α → EStateM ε σ β}
    (hm : Yields P m) (hf : ∀ a, P a → Yields Q (f a)) : Yields Q (m >>= f) := by
  intro s b t run
  rw [EStateM.run_bind] at run
  cases first : m.run s with
  | error e u => simp [first] at run
  | ok a u =>
    simp only [first] at run
    exact hf a (hm s a u first) u b t run

theorem avoids_pure (a : α) : Avoids bad (pure a : EStateM ε σ α) := by
  intro s e t run
  cases run

theorem avoids_get : Avoids bad (get : EStateM ε σ σ) := by
  intro s e t run
  cases run

theorem avoids_modify (f : σ → σ) : Avoids bad (modify f : EStateM ε σ PUnit) := by
  intro s e t run
  cases run

theorem avoids_throw {e : ε} (h : ¬ bad e) : Avoids bad (throw e : EStateM ε σ α) := by
  intro s e' t run
  cases run
  exact h

theorem avoids_bind {P : α → Prop} {m : EStateM ε σ α} {f : α → EStateM ε σ β}
    (hm : Avoids bad m) (hy : Yields P m) (hf : ∀ a, P a → Avoids bad (f a)) :
    Avoids bad (m >>= f) := by
  intro s e t run
  rw [EStateM.run_bind] at run
  cases first : m.run s with
  | error e' u =>
    simp only [first] at run
    cases run
    exact hm s _ _ first
  | ok a u =>
    simp only [first] at run
    exact hf a (hy s a u first) u e t run

theorem avoids_then {m : EStateM ε σ α} {f : α → EStateM ε σ β}
    (hm : Avoids bad m) (hf : ∀ a, Avoids bad (f a)) : Avoids bad (m >>= f) :=
  avoids_bind hm (yields_true m) (fun a _ => hf a)

theorem avoids_ite {c : Prop} [Decidable c] {m n : EStateM ε σ α}
    (hm : c → Avoids bad m) (hn : ¬ c → Avoids bad n) : Avoids bad (if c then m else n) := by
  split
  · rename_i h; exact hm h
  · rename_i h; exact hn h

end Faults

end CheckedPrograms
