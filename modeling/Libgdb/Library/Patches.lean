import Libgdb.Library.ByteMemory

/- Four-byte patches laid over a byte memory at aligned addresses, written and removed one
   eight-byte word at a time. -/
namespace Patches
open ByteMemory

def base4 (x : Word) : Word := x - BitVec.ofNat 64 (x.toNat % 4)

/-- `m` with the four bytes of `insn` laid over every aligned address in `laid`. -/
def overlay (insn : Nat → Byte) (m : Memory) (laid : Word → Bool) : Memory :=
  fun x => if laid (base4 x) then insn (x.toNat % 4) else m x

variable (insn : Nat → Byte) (m : Memory) (laid : Word → Bool)

theorem overlay_nothing (none_laid : ∀ a, laid a = false) : overlay insn m laid = m := by
  funext x
  simp [overlay, none_laid]

theorem base4_eq_iff {a x : Word} (aligned : a.toNat % 4 = 0) :
    base4 x = a ↔ (x - a).toNat < 4 := by
  unfold base4
  constructor
  · intro h; bv_omega
  · intro h; bv_omega

theorem mod4_of_inside {a x : Word} (aligned : a.toNat % 4 = 0) (inside : (x - a).toNat < 4) :
    x.toNat % 4 = (x - a).toNat := by
  bv_omega

theorem overlay_inside {a x : Word} (aligned : a.toNat % 4 = 0) (inside : (x - a).toNat < 4) :
    overlay insn m laid x = if laid a then insn (x - a).toNat else m x := by
  rw [overlay, (base4_eq_iff aligned).mpr inside, mod4_of_inside aligned inside]

theorem overlay_update_inside {a x : Word} {b : Bool} (aligned : a.toNat % 4 = 0)
    (inside : (x - a).toNat < 4) :
    overlay insn m (Function.update laid a b) x = if b then insn (x - a).toNat else m x := by
  rw [overlay_inside insn m _ aligned inside, Function.update_self]

theorem overlay_update_outside {a x : Word} {b : Bool} (aligned : a.toNat % 4 = 0)
    (outside : ¬ (x - a).toNat < 4) :
    overlay insn m (Function.update laid a b) x = overlay insn m laid x := by
  have ne : base4 x ≠ a := fun eq => outside ((base4_eq_iff aligned).mp eq)
  rw [overlay, overlay, Function.update_of_ne ne]

theorem overlay_update_same {a : Word} {b : Bool} (same : laid a = b) :
    overlay insn m (Function.update laid a b) = overlay insn m laid := by
  rw [← same, Function.update_eq_self]

theorem base4_upper {a : Word} (aligned : a.toNat % 4 = 0) {k : Nat} (lt : k < 8) (le : 4 ≤ k) :
    base4 (a + BitVec.ofNat 64 k) = a + 4 := by
  rw [base4_eq_iff (by bv_omega)]
  bv_omega

theorem load_overlay_clear {a : Word} (aligned : a.toNat % 4 = 0) (low : laid a = false)
    (high : laid (a + 4) = false) : load (overlay insn m laid) a = load m a := by
  apply word_ext
  intro k lt
  rw [byteOf_load _ _ lt, byteOf_load _ _ lt, overlay]
  by_cases small : k < 4
  · have off := offset_add a (k := k) (by omega)
    rw [(base4_eq_iff aligned).mpr (by omega), low]
    rfl
  · rw [base4_upper aligned lt (by omega), high]
    rfl

theorem store_lays_patch {a w : Word} (aligned : a.toNat % 4 = 0)
    (low : ∀ k < 4, byteOf w k = insn k)
    (high : ∀ k < 8, 4 ≤ k → byteOf w k = overlay insn m laid (a + BitVec.ofNat 64 k)) :
    store (overlay insn m laid) a w = overlay insn m (Function.update laid a true) := by
  funext x
  by_cases inside : (x - a).toNat < 4
  · rw [store_inside _ _ _ _ (by omega), low _ inside,
      overlay_update_inside insn m laid aligned inside,
      if_pos rfl]
  · rw [overlay_update_outside insn m laid aligned inside]
    by_cases word : (x - a).toNat < 8
    · rw [store_inside _ _ _ _ word, high _ word (by omega), add_offset]
    · exact store_outside _ _ _ _ word

/-- Writing a word back removes the patch at `a`, and nothing else, exactly when its lower half
    is the unpatched instruction and its upper half is what the memory holds there now. -/
theorem store_removes_patch_iff {a w : Word} (aligned : a.toNat % 4 = 0) :
    store (overlay insn m laid) a w = overlay insn m (Function.update laid a false) ↔
      (∀ k < 4, byteOf w k = m (a + BitVec.ofNat 64 k)) ∧
      ∀ k < 8, 4 ≤ k → byteOf w k = overlay insn m laid (a + BitVec.ofNat 64 k) := by
  rw [store_eq_iff]
  · constructor
    · rintro rfl
      constructor
      · intro k lt
        have off := offset_add a (k := k) (by omega)
        rw [byteOf_load _ _ (by omega), overlay_update_inside insn m laid aligned (by omega)]
        rfl
      · intro k lt le
        have off := offset_add a (k := k) (by omega)
        rw [byteOf_load _ _ lt, overlay_update_outside insn m laid aligned (by omega)]
    · rintro ⟨low, high⟩
      apply word_ext
      intro k lt
      have off := offset_add a (k := k) (by omega)
      rw [byteOf_load _ _ lt]
      by_cases small : k < 4
      · rw [low k small, overlay_update_inside insn m laid aligned (by omega)]
        rfl
      · rw [high k lt (by omega), overlay_update_outside insn m laid aligned (by omega)]
  · intro x outside
    exact overlay_update_outside insn m laid aligned (by omega)

/-- Dropping `a` from the patched addresses changes nothing exactly when no patch lies there or
    the memory underneath already reads as one. -/
theorem overlay_drop_iff {a : Word} (aligned : a.toNat % 4 = 0) :
    overlay insn m laid = overlay insn m (Function.update laid a false) ↔
      (laid a = true → ∀ k < 4, m (a + BitVec.ofNat 64 k) = insn k) := by
  constructor
  · intro same on k lt
    have off := offset_add a (k := k) (by omega)
    have here := congrFun same (a + BitVec.ofNat 64 k)
    rw [overlay_inside insn m laid aligned (by omega),
      overlay_update_inside insn m laid aligned (by omega), off, if_pos on] at here
    exact here.symm
  · intro reads
    by_cases on : laid a = true
    · funext x
      by_cases inside : (x - a).toNat < 4
      · have here := reads on _ inside
        rw [add_offset] at here
        rw [overlay_inside insn m laid aligned inside,
          overlay_update_inside insn m laid aligned inside, if_pos on, ← here]
        rfl
      · exact (overlay_update_outside insn m laid aligned inside).symm
    · exact (overlay_update_same insn m laid (by simpa using on)).symm

end Patches
