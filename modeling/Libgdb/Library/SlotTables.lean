import Mathlib

/- Fixed tables of slots: first-match search, and allocation by a counter that only grows and
   is reduced modulo the size of the table. -/
namespace SlotTables
variable {n : Nat}

def firstSlot (p : Fin n → Bool) : Option (Fin n) := (List.finRange n).find? p

theorem firstSlot_some {p : Fin n → Bool} {i : Fin n} (h : firstSlot p = some i) :
    p i = true ∧ ∀ j, j < i → p j = false := by
  obtain ⟨pi, k, hk, eq, before⟩ := List.find?_eq_some_iff_getElem.mp h
  refine ⟨pi, ?_⟩
  intro j lt
  have ik : i.val = k := by rw [← eq]; simp
  have hj := before j.val (by omega)
  simpa using hj

theorem firstSlot_none {p : Fin n → Bool} (h : firstSlot p = none) (i : Fin n) : p i = false := by
  have hi := List.find?_eq_none.mp h i (List.mem_finRange i)
  simpa using hi

theorem firstSlot_exists {p : Fin n → Bool} {i : Fin n} (h : p i = true) :
    ∃ j, firstSlot p = some j ∧ j ≤ i := by
  cases found : firstSlot p with
  | none => simp [firstSlot_none found i] at h
  | some j =>
    refine ⟨j, rfl, ?_⟩
    by_contra lt
    have := (firstSlot_some found).2 i (by omega)
    simp [this] at h

theorem firstSlot_unique {p : Fin n → Bool} {i : Fin n} (here : p i = true)
    (only : ∀ j, p j = true → j = i) : firstSlot p = some i := by
  obtain ⟨j, found, _⟩ := firstSlot_exists here
  rw [found, only j (firstSlot_some found).1]

theorem firstSlot_of_none {p : Fin n → Bool} (off : ∀ i, p i = false) : firstSlot p = none := by
  cases found : firstSlot p with
  | none => rfl
  | some i => exact absurd (firstSlot_some found).1 (by simp [off i])

/-- Scans at most `k` slots from counter `c` for a free one, and returns the counter there. -/
def ringScan [NeZero n] (used : Fin n → Bool) : Nat → Nat → Nat × Option (Fin n)
  | 0, c => (c, none)
  | k + 1, c => if used (Fin.ofNat n c) then ringScan used k (c + 1) else (c, some (Fin.ofNat n c))

theorem ringScan_free [NeZero n] {used : Fin n → Bool} {k c : Nat} (positive : 0 < k)
    (free : used (Fin.ofNat n c) = false) : ringScan used k c = (c, some (Fin.ofNat n c)) := by
  obtain ⟨k, rfl⟩ := Nat.exists_eq_succ_of_ne_zero (Nat.ne_of_gt positive)
  rw [ringScan, free]
  rfl

theorem ringScan_some [NeZero n] {used : Fin n → Bool} {k c d : Nat} {i : Fin n}
    (h : ringScan used k c = (d, some i)) :
    i = Fin.ofNat n d ∧ used i = false ∧ c ≤ d ∧ d < c + k ∧
      ∀ j, c ≤ j → j < d → used (Fin.ofNat n j) = true := by
  induction k generalizing c with
  | zero => simp [ringScan] at h
  | succ k ih =>
    simp only [ringScan] at h
    split at h
    · rename_i first
      obtain ⟨slot, free, lower, upper, before⟩ := ih h
      refine ⟨slot, free, by omega, by omega, ?_⟩
      intro j le lt
      rcases Nat.eq_or_lt_of_le le with rfl | above
      · exact first
      · exact before j above lt
    · rename_i free
      simp only [Prod.mk.injEq, Option.some.injEq] at h
      obtain ⟨rfl, rfl⟩ := h
      exact ⟨rfl, by simpa using free, le_refl _, by omega, by intro j le lt; omega⟩

theorem ringScan_none [NeZero n] {used : Fin n → Bool} {k c d : Nat}
    (h : ringScan used k c = (d, none)) :
    d = c + k ∧ ∀ j, j < k → used (Fin.ofNat n (c + j)) = true := by
  induction k generalizing c with
  | zero =>
    simp only [ringScan, Prod.mk.injEq, and_true] at h
    exact ⟨by omega, by intro j lt; omega⟩
  | succ k ih =>
    simp only [ringScan] at h
    split at h
    · rename_i first
      obtain ⟨last, rest⟩ := ih h
      refine ⟨by omega, ?_⟩
      intro j lt
      cases j with
      | zero => exact first
      | succ j =>
        have := rest j (by omega)
        rwa [show c + (j + 1) = c + 1 + j by omega]
    · simp at h

theorem ringScan_full [NeZero n] {used : Fin n → Bool} {c d : Nat}
    (h : ringScan used n c = (d, none)) (i : Fin n) : used i = true := by
  -- the slot `i` is met after `(i - c) mod n` further increments
  have lt := Nat.mod_lt (i.val + (n - c % n)) (Nat.pos_of_neZero n)
  have met := (ringScan_none h).2 _ lt
  have hc := Nat.mod_lt c (Nat.pos_of_neZero n)
  have same : (c + (i.val + (n - c % n)) % n) % n = i.val := by
    rw [Nat.add_mod_mod, show c + (i.val + (n - c % n)) = i.val + n * (c / n + 1) by
      have := Nat.div_add_mod c n
      rw [Nat.mul_add]
      omega, Nat.add_mul_mod_self_left, Nat.mod_eq_of_lt i.isLt]
  rwa [show Fin.ofNat n (c + (i.val + (n - c % n)) % n) = i from Fin.ext same] at met

theorem ringScan_of_full [NeZero n] {used : Fin n → Bool} (full : ∀ i, used i = true) (k c : Nat) :
    ringScan used k c = (c + k, none) := by
  induction k generalizing c with
  | zero => rfl
  | succ k ih => rw [ringScan, full, if_pos rfl, ih, Nat.add_right_comm, Nat.add_assoc]

theorem take_finRange_succ (j : Fin n) :
    (List.finRange n).take (j.val + 1) = (List.finRange n).take j.val ++ [j] := by
  rw [List.take_succ_eq_append_getElem (by rw [List.length_finRange]; exact j.isLt),
    List.getElem_finRange]
  rfl

theorem mem_take_finRange {i : Fin n} {j : Nat} : i ∈ (List.finRange n).take j ↔ i.val < j := by
  rw [List.mem_take_iff_getElem]
  simp only [List.length_finRange, List.getElem_finRange]
  constructor
  · rintro ⟨k, lt, same⟩
    rw [← same]
    simp only [Fin.cast_mk]
    omega
  · intro lt
    exact ⟨i.val, by omega, rfl⟩

/- Sweeps: each slot in turn is looked up by its entry, and the first slot found is cleared. -/

section Sweep
variable {E : Type} (clear : E → E) (found : E → E → Bool)

/-- The table once the slots below `j` are cleared. -/
def swept (table : Fin n → E) (j : Nat) : Fin n → E := fun i =>
  if i.val < j then clear (table i) else table i

/-- The slot the round for slot `j` finds. -/
def hit (table : Fin n → E) (j : Fin n) : Option (Fin n) :=
  firstSlot fun i => found (swept clear table j.val i) (table j)

/-- How looking up and clearing entries go together: an entry is found by itself, a free one only
    by a free one, and clearing makes an entry free, if it is not already. -/
structure Sweepable (free : E → Prop) : Prop where
  cleared : ∀ e, free (clear e)
  kept : ∀ e, free e → clear e = e
  alike : ∀ e e', found e e' = true → (free e ↔ free e')
  self : ∀ e, found e e = true
  trans : ∀ e e' e'', found e e' = true → found e' e'' = true → found e e'' = true

variable {clear found} {free : E → Prop} (table : Fin n → E)

theorem swept_all : swept clear table n = fun i => clear (table i) := by
  funext i
  rw [swept, if_pos i.isLt]

theorem swept_zero : swept clear table 0 = table := by
  funext i
  rw [swept, if_neg (Nat.not_lt_zero _)]

theorem swept_self (j : Fin n) : swept clear table j.val j = table j := by
  rw [swept, if_neg (lt_irrefl _)]

theorem swept_succ (j : Fin n) :
    Function.update (swept clear table j.val) j (clear (table j)) = swept clear table
    (j.val + 1) := by
  funext k
  by_cases here : k = j
  · subst here
    rw [Function.update_self, swept, if_pos (by omega)]
  · have := Fin.val_ne_of_ne here
    rw [Function.update_of_ne here]
    unfold swept
    by_cases before : k.val < j.val
    · rw [if_pos before, if_pos (by omega)]
    · rw [if_neg before, if_neg (by omega)]

theorem swept_keeps {α : Type} {f : E → α} (keeps : ∀ e, f (clear e) = f e) (j : Nat) (i : Fin n) :
    f (swept clear table j i) = f (table i) := by
  unfold swept
  split
  · exact keeps _
  · rfl

section
variable (h : Sweepable clear found free)
include h

/-- A used slot is found at its own place, since the slots before it were cleared. -/
theorem hit_used {j : Fin n} (used : ¬ free (table j)) : hit clear found table j = some j := by
  have here : found (swept clear table j.val j) (table j) = true := by rw [swept_self, h.self]
  obtain ⟨i, first, le⟩ :=
    firstSlot_exists (p := fun i => found (swept clear table j.val i) (table j)) here
  have match_i := (firstSlot_some first).1
  rcases Nat.lt_or_eq_of_le (show i.val ≤ j.val from le) with lt | same
  · rw [swept, if_pos lt] at match_i
    exact absurd ((h.alike _ _ match_i).mp (h.cleared _)) used
  · rw [hit, first, Fin.ext same]

/-- A free slot is found at a slot that is free by then. -/
theorem hit_free {j : Fin n} (unused : free (table j)) :
    ∃ i, i ≤ j ∧ hit clear found table j = some i ∧ free (swept clear table j.val i) := by
  have here : found (swept clear table j.val j) (table j) = true := by rw [swept_self, h.self]
  obtain ⟨i, first, le⟩ :=
    firstSlot_exists (p := fun i => found (swept clear table j.val i) (table j)) here
  exact ⟨i, le, first, (h.alike _ _ (firstSlot_some first).1).mpr unused⟩

/-- Whatever slot a round finds, it leaves the table with one more slot cleared. -/
theorem swept_step (j : Fin n) :
    ∃ i, hit clear found table j = some i ∧
      Function.update (swept clear table j.val) i (clear (swept clear table j.val i)) =
        swept clear table (j.val + 1) := by
  by_cases unused : free (table j)
  · obtain ⟨i, _, first, free_i⟩ := hit_free table h unused
    refine ⟨i, first, ?_⟩
    rw [h.kept _ free_i, Function.update_eq_self, ← swept_succ, h.kept _ unused]
    exact (Function.update_eq_self_iff.mpr (swept_self table j).symm).symm
  · refine ⟨j, hit_used table h unused, ?_⟩
    rw [swept_self, swept_succ]

/-- The slots that are found in some round: those in use, and the first of each kind. -/
theorem hit_iff (i : Fin n) :
    (∃ j, hit clear found table j = some i) ↔
      ¬ free (table i) ∨ ∀ k, k < i → found (clear (table k)) (table i) = false := by
  constructor
  · rintro ⟨j, first⟩
    by_cases unused : free (table i)
    · obtain ⟨same, before⟩ := firstSlot_some first
      have le : i ≤ j := by
        obtain ⟨i', first', le⟩ :=
          firstSlot_exists (p := fun i => found (swept clear table j.val i) (table j))
          (show found (swept clear table j.val j) (table j) = true by rw [swept_self, h.self])
        rw [hit, first'] at first
        cases first
        exact le
      have own : swept clear table j.val i = table i := by
        unfold swept
        split
        · exact h.kept _ unused
        · rfl
      rw [own] at same
      refine Or.inr fun k lt => ?_
      have earlier := before k lt
      rw [swept, if_pos (by omega)] at earlier
      by_contra other
      rw [Bool.not_eq_false] at other
      rw [h.trans _ _ _ other same] at earlier
      contradiction
    · exact Or.inl unused
  · rintro (used | first)
    · exact ⟨i, hit_used table h used⟩
    · refine ⟨i, ?_⟩
      obtain ⟨k, found_k, le⟩ :=
        firstSlot_exists (p := fun k => found (swept clear table i.val k) (table i))
        (show found (swept clear table i.val i) (table i) = true by rw [swept_self, h.self])
      rcases Nat.lt_or_eq_of_le (show k.val ≤ i.val from le) with lt | same
      · have match_k := (firstSlot_some found_k).1
        rw [swept, if_pos lt, first k lt] at match_k
        contradiction
      · rw [hit, found_k, Fin.ext same]

end
end Sweep

end SlotTables
