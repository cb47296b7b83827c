import Libgdb.Library.CheckedPrograms

/- Two runs of one program from states that differ in one component: they go the same way as
   long as no test reads it, and the rules say what becomes of the two components. -/
namespace TwoRuns
variable {ε σ α β ρ : Type}

/-- Two runs that return the same value or stop at the same fault, which is not a bad one, in
    states that differ in the component, related by `B` when they return. -/
inductive Pairs (w : σ → ρ → σ) (bad : ε → Prop) (B : α → ρ → ρ → Prop) :
    EStateM.Result ε σ α → EStateM.Result ε σ α → Prop where
  | returns (a : α) (t : σ) (r r' : ρ) (related : B a r r') :
      Pairs w bad B (.ok a (w t r)) (.ok a (w t r'))
  | stops (e : ε) (t : σ) (r r' : ρ) (good : ¬ bad e) :
      Pairs w bad B (.error e (w t r)) (.error e (w t r'))

/-- From components related by `A` the runs go in lockstep to components related by `B`. -/
def Lockstep (w : σ → ρ → σ) (bad : ε → Prop) (A : ρ → ρ → Prop) (m : EStateM ε σ α)
    (B : α → ρ → ρ → Prop) : Prop :=
  ∀ s r r', A r r' → Pairs w bad B (m.run (w s r)) (m.run (w s r'))

/-- The program neither reads nor writes the component. -/
def Blind (w : σ → ρ → σ) (bad : ε → Prop) (m : EStateM ε σ α) : Prop :=
  ∀ s, (∃ a t, ∀ r, m.run (w s r) = .ok a (w t r)) ∨
    ∃ e t, ¬ bad e ∧ ∀ r, m.run (w s r) = .error e (w t r)

variable {w : σ → ρ → σ} {bad : ε → Prop}

/- Programs that are blind. -/

theorem blind_pure (a : α) : Blind w bad (pure a : EStateM ε σ α) :=
  fun s => Or.inl ⟨a, s, fun _ => rfl⟩

theorem blind_throw {e : ε} (good : ¬ bad e) : Blind w bad (throw e : EStateM ε σ α) :=
  fun s => Or.inr ⟨e, s, good, fun _ => rfl⟩

theorem blind_modify {f : σ → σ} (apart : ∀ s r, f (w s r) = w (f s) r) :
    Blind w bad (modify f : EStateM ε σ PUnit) :=
  fun s => Or.inl ⟨⟨⟩, f s, fun r => congrArg (EStateM.Result.ok _) (apart s r)⟩

theorem blind_bind {m : EStateM ε σ α} {f : α → EStateM ε σ β} (hm : Blind w bad m)
    (hf : ∀ a, Blind w bad (f a)) : Blind w bad (m >>= f) := by
  intro s
  rcases hm s with ⟨a, t, first⟩ | ⟨e, t, good, first⟩
  · rcases hf a t with ⟨b, u, rest⟩ | ⟨e, u, good, rest⟩
    · exact Or.inl ⟨b, u, fun r => by rw [EStateM.run_bind, first r]; exact rest r⟩
    · exact Or.inr ⟨e, u, good, fun r => by rw [EStateM.run_bind, first r]; exact rest r⟩
  · exact Or.inr ⟨e, t, good, fun r => by rw [EStateM.run_bind, first r]⟩

theorem blind_get_bind {f : σ → EStateM ε σ β} (same : ∀ s r, f (w s r) = f s)
    (hf : ∀ s, Blind w bad (f s)) : Blind w bad (get >>= f) := by
  intro s
  have start (r : ρ) : (get >>= f).run (w s r) = (f s).run (w s r) := by
    rw [EStateM.run_bind, ← same s r]
    rfl
  simp only [start]
  exact hf s s

theorem blind_ite {c : Prop} [Decidable c] {m n : EStateM ε σ α} (hm : Blind w bad m)
    (hn : Blind w bad n) : Blind w bad (if c then m else n) := by
  split
  · exact hm
  · exact hn

theorem blind_branch {c : Prop} [Decidable c] {m n : EStateM ε σ α} {f : α → EStateM ε σ β}
    (hm : Blind w bad m) (hn : Blind w bad n) (hf : ∀ a, Blind w bad (f a)) :
    Blind w bad (if c then m >>= f else n >>= f) :=
  blind_ite (blind_bind hm hf) (blind_bind hn hf)

theorem blind_forM {f : β → EStateM ε σ PUnit} (bs : List β) (hf : ∀ b, Blind w bad (f b)) :
    Blind w bad (bs.forM f) := by
  induction bs with
  | nil => exact blind_pure _
  | cons b bs ih => exact blind_bind (hf b) fun _ => ih

/- Programs in lockstep. -/

variable {A A' : ρ → ρ → Prop}

theorem lockstep_of_blind {m : EStateM ε σ α} (h : Blind w bad m) :
    Lockstep w bad A m fun _ => A := by
  intro s r r' start
  rcases h s with ⟨a, t, run⟩ | ⟨e, t, good, run⟩
  · rw [run r, run r']
    exact .returns a t r r' start
  · rw [run r, run r']
    exact .stops e t r r' good

theorem lockstep_pure {a : α} {B : α → ρ → ρ → Prop} (h : ∀ r r', A r r' → B a r r') :
    Lockstep w bad A (pure a : EStateM ε σ α) B :=
  fun s r r' start => .returns a s r r' (h r r' start)

theorem lockstep_bind {m : EStateM ε σ α} {f : α → EStateM ε σ β} {B : α → ρ → ρ → Prop}
    {C : β → ρ → ρ → Prop} (hm : Lockstep w bad A m B) (hf : ∀ a, Lockstep w bad (B a) (f a) C) :
    Lockstep w bad A (m >>= f) C := by
  intro s r r' start
  rw [EStateM.run_bind, EStateM.run_bind]
  have first := hm s r r' start
  generalize m.run (w s r) = x at first
  generalize m.run (w s r') = y at first
  cases first with
  | returns a t q q' related => exact hf a t q q' related
  | stops e t q q' good => exact .stops e t q q' good

theorem lockstep_get_bind {f : σ → EStateM ε σ β} {B : β → ρ → ρ → Prop}
    (same : ∀ s r, f (w s r) = f s) (hf : ∀ s, Lockstep w bad A (f s) B) :
    Lockstep w bad A (get >>= f) B := by
  intro s r r' start
  have read (r : ρ) : (get >>= f).run (w s r) = (f s).run (w s r) := by
    rw [EStateM.run_bind, ← same s r]
    rfl
  rw [read, read]
  exact hf s s r r' start

theorem lockstep_ite {c : Prop} [Decidable c] {m n : EStateM ε σ α} {B : α → ρ → ρ → Prop}
    (hm : c → Lockstep w bad A m B) (hn : ¬ c → Lockstep w bad A n B) :
    Lockstep w bad A (if c then m else n) B := by
  split
  · rename_i h
    exact hm h
  · rename_i h
    exact hn h

theorem lockstep_weaken {m : EStateM ε σ α} {B B' : α → ρ → ρ → Prop}
    (h : Lockstep w bad A m B) (before : ∀ r r', A' r r' → A r r')
    (later : ∀ a r r', B a r r' → B' a r r') : Lockstep w bad A' m B' := by
  intro s r r' start
  have run := h s r r' (before r r' start)
  generalize m.run (w s r) = x at run
  generalize m.run (w s r') = y at run
  cases run with
  | returns a t q q' related => exact .returns a t q q' (later a q q' related)
  | stops e t q q' good => exact .stops e t q q' good

/-- What two runs of a program in lockstep come to. -/
theorem lockstep_outcome {m : EStateM ε σ α} {B : α → ρ → ρ → Prop} (h : Lockstep w bad A m B)
    (s : σ) (r r' : ρ) (start : A r r') :
    (∃ a t q q', m.run (w s r) = .ok a (w t q) ∧ m.run (w s r') = .ok a (w t q') ∧ B a q q') ∨
    ∃ e t q q', ¬ bad e ∧ m.run (w s r) = .error e (w t q) ∧ m.run
    (w s r') = .error e (w t q') := by
  have run := h s r r' start
  generalize m.run (w s r) = x at run ⊢
  generalize m.run (w s r') = y at run ⊢
  cases run with
  | returns a t q q' related => exact Or.inl ⟨a, t, q, q', rfl, rfl, related⟩
  | stops e t q q' good => exact Or.inr ⟨e, t, q, q', good, rfl, rfl⟩

end TwoRuns
