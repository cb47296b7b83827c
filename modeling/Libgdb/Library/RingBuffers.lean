import Mathlib

/- Ring buffers: a stretch of a circular array, the copy of a block into it in one piece, and the
   copy of a block that may run past the end of the array in two. -/
namespace RingBuffers
variable {α : Type*} {n : Nat}

def copyAt (buf : Fin n → α) (dst : Nat) (src : Nat → α) (k : Nat) : Fin n → α := fun i =>
  if dst ≤ i.val ∧ i.val < dst + k then src (i.val - dst) else buf i

variable [NeZero n]

def window (buf : Fin n → α) (start len : Nat) : List α :=
  (List.range len).map fun i => buf (Fin.ofNat n (start + i))

theorem window_length (buf : Fin n → α) (start len : Nat) :
    (window buf start len).length = len := by
  simp [window]

theorem window_succ (buf : Fin n → α) (start len : Nat) :
    window buf start (len + 1) = buf (Fin.ofNat n start) :: window buf (start + 1) len := by
  unfold window
  rw [List.range_succ_eq_map, List.map_cons, List.map_map, Nat.add_zero]
  refine congrArg (List.cons _) (List.map_congr_left fun i _ => ?_)
  simp only [Function.comp_apply]
  congr 2
  omega

theorem window_mod {start start' : Nat} (same : start % n = start' % n)
    (buf : Fin n → α) (len : Nat) :
    window buf start len = window buf start' len := by
  refine List.map_congr_left fun i _ => congrArg buf (Fin.ext ?_)
  simp only [Fin.val_ofNat]
  rw [Nat.add_mod, same, ← Nat.add_mod]

theorem window_append {buf buf' : Fin n → α} {start len : Nat} {src : Nat → α} {k : Nat}
    (old : ∀ i, i < len → buf' (Fin.ofNat n (start + i)) = buf (Fin.ofNat n (start + i)))
    (new : ∀ i, i < k → buf' (Fin.ofNat n (start + len + i)) = src i) :
    window buf' start (len + k) = window buf start len ++ (List.range k).map src := by
  unfold window
  rw [List.range_add, List.map_append, List.map_map]
  congr 1
  · exact List.map_congr_left fun i mem => old i (List.mem_range.mp mem)
  · refine List.map_congr_left fun i mem => ?_
    rw [← new i (List.mem_range.mp mem), Nat.add_assoc]
    rfl

theorem position_add (t : Nat) {i : Nat} (lt : i < n) :
    (t + i) % n = if t % n + i < n then t % n + i else t % n + i - n := by
  have small := Nat.mod_lt t (Nat.pos_of_neZero n)
  rw [Nat.add_mod, Nat.mod_eq_of_lt lt]
  split
  · rename_i inside
    exact Nat.mod_eq_of_lt inside
  · rename_i past
    rw [Nat.mod_eq_sub_mod (by omega)]
    exact Nat.mod_eq_of_lt (by omega)

/-- The block copied in two pieces, up to the end of the array and from its start. -/
def copyWrapped (buf : Fin n → α) (t : Nat) (src : Nat → α) (pre k : Nat) : Fin n → α :=
  copyAt (copyAt buf (t % n) src pre) 0 (fun j => src (pre + j)) (k - pre)

theorem copyWrapped_new (buf : Fin n → α) (t : Nat) (src : Nat → α) {k i : Nat}
    (fits : k ≤ n) (lt : i < k) :
    copyWrapped buf t src (min k (n - t % n)) k (Fin.ofNat n (t + i)) = src i := by
  have small := Nat.mod_lt t (Nat.pos_of_neZero n)
  simp only [copyWrapped, copyAt, Fin.val_ofNat]
  rw [position_add t (by omega)]
  by_cases inside : t % n + i < n
  · rw [if_pos inside, if_neg (by omega), if_pos (by omega)]
    congr 1
    omega
  · rw [if_neg inside, if_pos (by omega)]
    congr 1
    omega

theorem copyWrapped_old (buf : Fin n → α) (t : Nat) (src : Nat → α) {k i : Nat}
    (le : k ≤ i) (lt : i < n) :
    copyWrapped buf t src (min k (n - t % n)) k (Fin.ofNat n (t + i)) = buf
    (Fin.ofNat n (t + i)) := by
  have small := Nat.mod_lt t (Nat.pos_of_neZero n)
  have place : (Fin.ofNat n (t + i)).val = if t % n + i < n then t % n + i else t % n + i - n := by
    rw [Fin.val_ofNat, position_add t lt]
  simp only [copyWrapped, copyAt, place]
  by_cases inside : t % n + i < n
  · rw [if_pos inside, if_neg (by omega), if_neg (by omega)]
  · rw [if_neg inside, if_neg (by omega), if_neg (by omega)]

def pushAll (buf : Fin n → α) (t : Nat) : List α → Fin n → α
  | [] => buf
  | c :: cs => pushAll (Function.update buf (Fin.ofNat n t) c) (t + 1) cs

theorem position_ne {t i j : Nat} (ne : i ≠ j) (lt : i < n) (lt' : j < n) :
    Fin.ofNat n (t + i) ≠ Fin.ofNat n (t + j) := by
  intro same
  have places := congrArg Fin.val same
  have small := Nat.mod_lt t (Nat.pos_of_neZero n)
  rw [Fin.val_ofNat, Fin.val_ofNat, position_add t lt, position_add t lt'] at places
  split at places <;> split at places <;> omega

theorem pushAll_old (buf : Fin n → α) (t : Nat) {cs : List α} {i : Nat}
    (le : cs.length ≤ i) (lt : i < n) :
    pushAll buf t cs (Fin.ofNat n (t + i)) = buf (Fin.ofNat n (t + i)) := by
  induction cs generalizing buf t i with
  | nil => rfl
  | cons c cs ih =>
    obtain ⟨j, rfl⟩ : ∃ j, i = j + 1 := ⟨i - 1, by rw [List.length_cons] at le; omega⟩
    rw [List.length_cons] at le
    have apart : Fin.ofNat n (t + (j + 1)) ≠ Fin.ofNat n t :=
      position_ne (j := 0) (by omega) lt (by omega)
    have later := ih (Function.update buf (Fin.ofNat n t) c) (t + 1) (i := j) (by omega) (by omega)
    rw [Nat.add_right_comm, Nat.add_assoc] at later
    rw [pushAll, later, Function.update_of_ne apart]

theorem pushAll_new (buf : Fin n → α) (t : Nat) {cs : List α} (fits : cs.length ≤ n) {i : Nat}
    (lt : i < cs.length) :
    pushAll buf t cs (Fin.ofNat n (t + i)) = cs[i] := by
  induction cs generalizing buf t i with
  | nil => cases lt
  | cons c cs ih =>
    rw [List.length_cons] at fits lt
    cases i with
    | zero =>
      -- the later elements are fewer than a full turn
      by_cases one : cs = []
      · subst one
        exact Function.update_self ..
      · have := List.length_pos_of_ne_nil one
        have turn : Fin.ofNat n (t + 0) = Fin.ofNat n (t + 1 + (n - 1)) := by
          refine Fin.ext ?_
          rw [Fin.val_ofNat, Fin.val_ofNat, show t + 1 + (n - 1) =
            t + n by omega, Nat.add_mod_right, Nat.add_zero]
        rw [pushAll, turn, pushAll_old _ _ (by omega) (by omega), ← turn]
        exact Function.update_self ..
    | succ j =>
      rw [pushAll, show t + (j + 1) = t + 1 + j by omega]
      exact ih _ _ (by omega) (by omega)

theorem exists_position (t : Nat) (j : Fin n) : ∃ i, i < n ∧ j = Fin.ofNat n (t + i) := by
  have small := Nat.mod_lt t (Nat.pos_of_neZero n)
  have here := j.isLt
  by_cases ahead : t % n ≤ j.val
  · refine ⟨j.val - t % n, by omega, Fin.ext ?_⟩
    rw [Fin.val_ofNat, position_add t (by omega), if_pos (by omega)]
    omega
  · refine ⟨n - t % n + j.val, by omega, Fin.ext ?_⟩
    rw [Fin.val_ofNat, position_add t (by omega), if_neg (by omega)]
    omega

/-- A block copied in two pieces is its elements stored one at a time. -/
theorem copyWrapped_eq_pushAll (buf : Fin n → α) (t : Nat) (src : Nat → α) {k : Nat}
    (fits : k ≤ n) :
    copyWrapped buf t src (min k (n - t % n)) k = pushAll buf t ((List.range k).map src) := by
  funext j
  obtain ⟨i, lt, rfl⟩ := exists_position t j
  have length : ((List.range k).map src).length = k := by simp
  by_cases new : i < k
  · rw [copyWrapped_new buf t src fits new, pushAll_new buf t (by omega) (by omega)]
    simp
  · rw [copyWrapped_old buf t src (by omega) lt, pushAll_old buf t (by omega) lt]

end RingBuffers
