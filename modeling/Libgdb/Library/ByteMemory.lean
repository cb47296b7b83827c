import Mathlib

/- Byte-addressed memory with 64-bit little-endian words. Addresses wrap modulo 2^64;
   alignment and mapping are the business of whoever issues the accesses. -/
namespace ByteMemory

abbrev Byte := BitVec 8
abbrev Word := BitVec 64
abbrev Memory := Word → Byte

def byteOf (w : Word) (k : Nat) : Byte := w.extractLsb' (8 * k) 8

def digits (f : Nat → Byte) : Nat → Nat
  | 0 => 0
  | n + 1 => digits f n + 256 ^ n * (f n).toNat

/-- The word whose little-endian bytes are `f 0, …, f 7`. -/
def ofBytes (f : Nat → Byte) : Word := BitVec.ofNat 64 (digits f 8)

def setByte (w : Word) (k : Nat) (b : Byte) : Word :=
  ofBytes fun j => if j = k then b else byteOf w j

def load (m : Memory) (a : Word) : Word := ofBytes fun k => m (a + BitVec.ofNat 64 k)

def store (m : Memory) (a w : Word) : Memory :=
  fun x => if (x - a).toNat < 8 then byteOf w (x - a).toNat else m x

theorem byteOf_toNat (w : Word) (k : Nat) : (byteOf w k).toNat = w.toNat / 256 ^ k % 256 := by
  rw [byteOf, BitVec.extractLsb'_toNat, Nat.shiftRight_eq_div_pow, Nat.pow_mul]

theorem digits_lt (f : Nat → Byte) (n : Nat) : digits f n < 256 ^ n := by
  induction n with
  | zero => simp [digits]
  | succ n ih =>
    have hf := (f n).isLt
    have hm := Nat.mul_le_mul_left (256 ^ n) (Nat.le_of_lt_succ hf)
    simp only [digits, Nat.pow_succ]
    omega

theorem digits_digit (f : Nat → Byte) {k n : Nat} (h : k < n) :
    digits f n / 256 ^ k % 256 = (f k).toNat := by
  induction n with
  | zero => omega
  | succ n ih =>
    rcases Nat.lt_succ_iff_lt_or_eq.mp h with lt | rfl
    · have split : 256 ^ n = 256 ^ k * (256 * 256 ^ (n - k - 1)) := by
        rw [← Nat.pow_succ', ← Nat.pow_add]; congr 1; omega
      rw [digits, split, Nat.mul_assoc, Nat.add_mul_div_left _ _ (Nat.pow_pos (by decide)),
        Nat.mul_assoc, Nat.add_mul_mod_self_left, ih lt]
    · rw [digits, Nat.add_mul_div_left _ _ (Nat.pow_pos (by decide)),
        Nat.div_eq_of_lt (digits_lt f k), Nat.zero_add, Nat.mod_eq_of_lt (f k).isLt]

theorem digits_congr {f g : Nat → Byte} {n : Nat} (h : ∀ k < n, f k = g k) :
    digits f n = digits g n := by
  induction n with
  | zero => rfl
  | succ n ih => rw [digits, digits, h n (by omega), ih (fun k hk => h k (by omega))]

theorem digits_byteOf (w : Word) (n : Nat) : digits (byteOf w) n = w.toNat % 256 ^ n := by
  induction n with
  | zero => simp [digits, Nat.mod_one]
  | succ n ih => rw [digits, ih, byteOf_toNat, Nat.pow_succ, Nat.mod_mul]

@[simp] theorem byteOf_ofBytes (f : Nat → Byte) {k : Nat} (h : k < 8) :
    byteOf (ofBytes f) k = f k := by
  apply BitVec.eq_of_toNat_eq
  have small : digits f 8 < 2 ^ 64 := digits_lt f 8
  rw [byteOf_toNat, ofBytes, BitVec.toNat_ofNat, Nat.mod_eq_of_lt small]
  exact digits_digit f h

@[simp] theorem ofBytes_byteOf (w : Word) : ofBytes (byteOf w) = w := by
  have small : w.toNat < 256 ^ 8 := w.isLt
  rw [ofBytes, digits_byteOf, Nat.mod_eq_of_lt small, BitVec.ofNat_toNat, BitVec.setWidth_eq]

theorem ofBytes_congr {f g : Nat → Byte} (h : ∀ k < 8, f k = g k) : ofBytes f = ofBytes g := by
  rw [ofBytes, ofBytes, digits_congr h]

theorem word_ext {v w : Word} (h : ∀ k < 8, byteOf v k = byteOf w k) : v = w := by
  rw [← ofBytes_byteOf v, ← ofBytes_byteOf w]
  exact ofBytes_congr h

theorem byteOf_or_mask (low : BitVec 32) (w : Word) {k : Nat} (h : k < 8) :
    byteOf (low.setWidth 64 ||| (0xFFFFFFFF00000000#64 &&& w)) k =
      if k < 4 then byteOf (low.setWidth 64) k else byteOf w k := by
  have ones : ∀ b : Byte, 255#8 &&& b = b := by decide
  have high : k < 4 ∨ byteOf (low.setWidth 64) k = 0#8 := by
    by_cases small : k < 4
    · exact Or.inl small
    · right
      apply BitVec.eq_of_toNat_eq
      have hl := low.isLt
      have hp : 256 ^ 4 ≤ 256 ^ k := Nat.pow_le_pow_right (by decide) (by omega)
      rw [byteOf_toNat, BitVec.toNat_setWidth, Nat.div_eq_of_lt]
      · rfl
      · exact Nat.lt_of_le_of_lt (Nat.mod_le _ _) (by omega)
  have mask : byteOf 0xFFFFFFFF00000000#64 k = if k < 4 then 0#8 else 255#8 := by
    interval_cases k <;> rfl
  rw [byteOf, BitVec.extractLsb'_or, BitVec.extractLsb'_and]
  change byteOf (low.setWidth 64) k ||| (byteOf _ k &&& byteOf w k) = _
  rw [mask]
  rcases high with small | zero
  · simp [small]
  · split
    · simp
    · rw [zero, ones, BitVec.zero_or]

@[simp] theorem byteOf_setByte (w : Word) (j k : Nat) (b : Byte) (h : k < 8) :
    byteOf (setByte w j b) k = if k = j then b else byteOf w k := by
  rw [setByte, byteOf_ofBytes _ h]

/- Addresses relative to a base. -/

theorem offset_add (a : Word) {k : Nat} (h : k < 2 ^ 64) :
    (a + BitVec.ofNat 64 k - a).toNat = k := by
  rw [BitVec.add_comm, BitVec.add_sub_cancel, BitVec.toNat_ofNat, Nat.mod_eq_of_lt h]

theorem add_offset (x a : Word) : a + BitVec.ofNat 64 (x - a).toNat = x := by
  bv_omega

@[simp] theorem byteOf_load (m : Memory) (a : Word) {k : Nat} (h : k < 8) :
    byteOf (load m a) k = m (a + BitVec.ofNat 64 k) := byteOf_ofBytes _ h

theorem byteOf_load_offset (m : Memory) (a x : Word) (h : (x - a).toNat < 8) :
    byteOf (load m a) (x - a).toNat = m x := by
  rw [byteOf_load m a h, add_offset]

theorem store_inside (m : Memory) (a w x : Word) (h : (x - a).toNat < 8) :
    store m a w x = byteOf w (x - a).toNat := if_pos h

theorem store_outside (m : Memory) (a w x : Word) (h : ¬ (x - a).toNat < 8) :
    store m a w x = m x := if_neg h

theorem store_at (m : Memory) (a w : Word) {k : Nat} (h : k < 8) :
    store m a w (a + BitVec.ofNat 64 k) = byteOf w k := by
  have off := offset_add a (k := k) (by omega)
  rw [store_inside _ _ _ _ (by omega), off]

theorem load_store (m : Memory) (a w : Word) : load (store m a w) a = w := by
  apply word_ext
  intro k h
  rw [byteOf_load _ _ h, store_at m a w h]

theorem store_load (m : Memory) (a : Word) : store m a (load m a) = m := by
  funext x
  by_cases h : (x - a).toNat < 8
  · rw [store_inside _ _ _ _ h, byteOf_load_offset m a x h]
  · exact store_outside _ _ _ _ h

theorem store_store (m : Memory) (a v w : Word) : store (store m a v) a w = store m a w := by
  funext x
  by_cases h : (x - a).toNat < 8
  · rw [store_inside _ _ _ _ h, store_inside _ _ _ _ h]
  · rw [store_outside _ _ _ _ h, store_outside _ _ _ _ h, store_outside _ _ _ _ h]

theorem store_eq_iff (m n : Memory) (a w : Word)
    (frame : ∀ x, ¬ (x - a).toNat < 8 → n x = m x) : store m a w = n ↔ w = load n a := by
  constructor
  · rintro rfl
    exact (load_store m a w).symm
  · rintro rfl
    funext x
    by_cases h : (x - a).toNat < 8
    · rw [store_inside _ _ _ _ h, byteOf_load_offset n a x h]
    · rw [store_outside _ _ _ _ h, frame x h]

/- Several words stored in order. -/

def storeAll (ws : List (Word × Word)) (m : Memory) : Memory :=
  ws.foldl (fun m w => store m w.1 w.2) m

def covers (x : Word) (w : Word × Word) : Bool := decide ((x - w.1).toNat < 8)

end ByteMemory
