import Libgdb.Library.ByteMemory

/- Accesses several bytes wide that stand for accesses to single bytes: stores of one repeated
   byte, and a word tested for a zero byte. -/
namespace ByteMemory

/- Stores. -/

structure WideStore where
  address : Word
  width : Nat
  value : Word

def WideStore.run (m : Memory) (s : WideStore) : Memory := fun x =>
  if (x - s.address).toNat < s.width then byteOf s.value (x - s.address).toNat else m x

def runStores (m : Memory) (stores : List WideStore) : Memory := stores.foldl WideStore.run m

def WideStore.Repeats (b : Byte) (s : WideStore) : Prop := ∀ k < s.width, byteOf s.value k = b

theorem runStores_repeat {b : Byte} {stores : List WideStore} (repeated : ∀ s ∈ stores, s.Repeats b)
    (m : Memory)
    (x : Word) : ((∃ s ∈ stores, (x - s.address).toNat < s.width) → runStores m stores x = b) ∧
      ((∀ s ∈ stores, ¬ (x - s.address).toNat < s.width) → runStores m stores x = m x) := by
  induction stores generalizing m with
  | nil => exact ⟨(fun ⟨s, mem, _⟩ => by cases mem), fun _ => rfl⟩
  | cons s stores ih =>
    obtain ⟨covered, uncovered⟩ :=
      ih (fun t mem => repeated t (List.mem_cons_of_mem s mem)) (s.run m)
    have here := repeated s List.mem_cons_self
    constructor
    · intro some
      by_cases later : ∃ t ∈ stores, (x - t.address).toNat < t.width
      · exact covered later
      · have missed : ∀ t ∈ stores, ¬ (x - t.address).toNat < t.width :=
          fun t mem inside => later ⟨t, mem, inside⟩
        obtain ⟨t, mem, inside⟩ := some
        rcases List.mem_cons.mp mem with rfl | rest
        · exact (uncovered missed).trans ((if_pos inside).trans (here _ inside))
        · exact absurd inside (missed t rest)
    · intro none
      refine (uncovered fun t mem => none t (List.mem_cons_of_mem s mem)).trans ?_
      exact if_neg (none s List.mem_cons_self)

theorem runStores_fill {b : Byte} {stores : List WideStore} (repeated : ∀ s ∈ stores, s.Repeats b)
    {dest : Word} {n : Nat}
    (covers : ∀ x, (∃ s ∈ stores, (x - s.address).toNat < s.width) ↔ (x - dest).toNat < n)
    (m : Memory) :
    runStores m stores = fun x => if (x - dest).toNat < n then b else m x := by
  funext x
  obtain ⟨covered, uncovered⟩ := runStores_repeat repeated m x
  by_cases inside : (x - dest).toNat < n
  · rw [if_pos inside]
    exact covered ((covers x).mpr inside)
  · rw [if_neg inside]
    exact uncovered fun s mem here => inside ((covers x).mp ⟨s, mem, here⟩)

theorem inside_offset (x dest : Word) {offset width : Nat} (small : offset + width ≤ 2 ^ 64) :
    (x - (dest + BitVec.ofNat 64 offset)).toNat < width ↔
      offset ≤ (x - dest).toNat ∧ (x - dest).toNat < offset + width := by
  have moved : x - (dest + BitVec.ofNat 64 offset) = x - dest - BitVec.ofNat 64 offset := by
    bv_omega
  have lt := (x - dest).isLt
  rw [moved, BitVec.toNat_sub, BitVec.toNat_ofNat]
  generalize (x - dest).toNat = o at lt ⊢
  omega

/- Zero bytes. -/

/-- A one in each of `n` bytes. -/
def onesIn : Nat → Nat
  | 0 => 0
  | n + 1 => 1 + 256 * onesIn n

theorem onesIn_lt (n : Nat) : onesIn n < 256 ^ n := by
  induction n with
  | zero => decide
  | succ n ih =>
    rw [onesIn, Nat.pow_succ]
    omega

theorem onesIn_succ (n : Nat) : onesIn (n + 1) = onesIn n + 256 ^ n := by
  induction n with
  | zero => rfl
  | succ n ih =>
    have first : onesIn (n + 1 + 1) = 1 + 256 * onesIn (n + 1) := rfl
    have second : onesIn (n + 1) = 1 + 256 * onesIn n := rfl
    rw [first, ih, Nat.pow_succ]
    omega

theorem byteOf_repeated {w : Word} {b : Byte} {k n : Nat} (repeated : w.toNat = onesIn n * b.toNat)
    (lt : k < n) : byteOf w k = b := by
  have same : ∀ n, onesIn n * b.toNat = digits (fun _ => b) n := by
    intro n
    induction n with
    | zero => rw [onesIn, Nat.zero_mul, digits]
    | succ n ih => rw [onesIn_succ, Nat.add_mul, ih, digits]
  exact BitVec.eq_of_toNat_eq (by rw [byteOf_toNat, repeated, same, digits_digit _ lt])

theorem testBit_low {a : Nat} (small : a < 256) (t : Nat) :
    (256 * t + a).testBit 7 = a.testBit 7 := by
  have split := Nat.testBit_two_pow_mul_add t (i := 8) small 7
  rw [if_pos (by decide)] at split
  exact split

theorem testBit_high {a : Nat} (small : a < 256) (t k : Nat) :
    (256 * t + a).testBit (8 * (k + 1) + 7) =
    t.testBit (8 * k + 7) := by
  have split := Nat.testBit_two_pow_mul_add t (i := 8) small (8 * (k + 1) + 7)
  have back : 8 * (k + 1) + 7 - 8 = 8 * k + 7 := by omega
  rw [if_neg (by omega), back] at split
  exact split

theorem testBit_seven {a : Nat} (small : a < 256) : a.testBit 7 = true ↔ 128 ≤ a := by
  rw [Nat.testBit_eq_decide_div_mod_eq, decide_eq_true_eq]
  omega

/-- Taking one from each byte sets a top bit that was clear exactly when a byte is zero: a borrow
    starts at the lowest zero byte, and below it no byte gains its top bit. -/
theorem borrow_iff_zero (n x : Nat) :
    (∃ k < n, (256 ^ n + x - onesIn n).testBit (8 * k + 7) = true ∧ x.testBit (8 * k + 7) = false) ↔
      ∃ k < n, x / 256 ^ k % 256 = 0 := by
  induction n generalizing x with
  | zero => simp
  | succ n ih =>
    have ones := onesIn_lt n
    have power : 256 ^ (n + 1) = 256 * 256 ^ n := by rw [Nat.pow_succ, Nat.mul_comm]
    have split : x = 256 * (x / 256) + x % 256 := (Nat.div_add_mod x 256).symm
    have small : x % 256 < 256 := Nat.mod_lt x (by decide)
    have highBit (k : Nat) : x.testBit (8 * (k + 1) + 7) = (x / 256).testBit (8 * k + 7) := by
      rw [← testBit_high small (x / 256) k, ← split]
    have lowBit : x.testBit 7 = (x % 256).testBit 7 := by
      rw [← testBit_low small (x / 256), ← split]
    have highByte (k : Nat) : x / 256 ^ (k + 1) % 256 = x / 256 / 256 ^ k % 256 := by
      rw [Nat.div_div_eq_div_mul, Nat.pow_succ, Nat.mul_comm 256]
    by_cases zero : x % 256 = 0
    · refine iff_of_true ⟨0, Nat.succ_pos n, ?_, ?_⟩
        ⟨0, Nat.succ_pos n, by rw [Nat.pow_zero, Nat.div_one, zero]⟩
      · have borrow : 256 ^ (n + 1) + x - onesIn (n + 1) =
            256 * (256 ^ n + x / 256 - onesIn n - 1) + 255 := by
          rw [onesIn, power]
          omega
        rw [borrow]
        exact (testBit_low (by decide) _).trans (by decide)
      · rw [Nat.mul_zero, Nat.zero_add, lowBit, zero]
        decide
    · have kept : 256 ^ (n + 1) + x - onesIn (n + 1) = 256 * (256 ^ n + x / 256 - onesIn n) +
          (x % 256 - 1) := by
        rw [onesIn, power]
        omega
      have less : x % 256 - 1 < 256 := by omega
      rw [kept]
      constructor
      · rintro ⟨k, lt, set, clear⟩
        cases k with
        | zero =>
          rw [Nat.mul_zero, Nat.zero_add, testBit_low less, testBit_seven less] at set
          rw [Nat.mul_zero, Nat.zero_add, lowBit, ← Bool.not_eq_true, testBit_seven small] at clear
          omega
        | succ k =>
          rw [testBit_high less] at set
          rw [highBit] at clear
          obtain ⟨j, lt', byte⟩ := (ih (x / 256)).mp ⟨k, by omega, set, clear⟩
          exact ⟨j + 1, by omega, by rw [highByte, byte]⟩
      · rintro ⟨k, lt, byte⟩
        cases k with
        | zero =>
          rw [Nat.pow_zero, Nat.div_one] at byte
          exact absurd byte zero
        | succ k =>
          rw [highByte] at byte
          obtain ⟨j, lt', set, clear⟩ := (ih (x / 256)).mpr ⟨k, by omega, byte⟩
          exact ⟨j + 1, by omega, by rw [testBit_high less, set], by rw [highBit, clear]⟩

def ones : Word := 0x0101010101010101
def highs : Word := 0x8080808080808080

/-- The test of a word for a zero byte. -/
theorem zero_byte_iff (w : Word) : (w - ones) &&& ~~~w &&& highs ≠ 0 ↔ ∃ k < 8, byteOf w k = 0 := by
  have bytes : (∃ k < 8, byteOf w k = 0) ↔ ∃ k < 8, w.toNat / 256 ^ k % 256 = 0 := by
    refine exists_congr fun k => and_congr_right fun _ => ?_
    rw [← byteOf_toNat]
    exact ⟨fun zero => by rw [zero]; rfl, fun zero => BitVec.eq_of_toNat_eq zero⟩
  rw [bytes, ← borrow_iff_zero]
  have top : ∀ i < 64, highs.getLsbD i = decide (i % 8 = 7) := by decide
  have minus (i : Nat) (lt : i < 64) :
      (w - ones).getLsbD i = (256 ^ 8 + w.toNat - onesIn 8).testBit i := by
    have taken : (w - ones).toNat = (256 ^ 8 + w.toNat - onesIn 8) % 2 ^ 64 := by
      rw [BitVec.toNat_sub, show onesIn 8 = ones.toNat from by decide]
      have small : ones.toNat < 2 ^ 64 := ones.isLt
      rw [show 256 ^ 8 = 2 ^ 64 from by decide]
      generalize ones.toNat = o at small ⊢
      congr 1
      omega
    rw [BitVec.getLsbD, taken, Nat.testBit_mod_two_pow, decide_eq_true lt, Bool.true_and]
  have bit (i : Nat) (lt : i < 64) : ((w - ones) &&& ~~~w &&& highs).getLsbD i =
      ((256 ^ 8 + w.toNat - onesIn 8).testBit i && !w.toNat.testBit i && decide (i % 8 = 7)) := by
    rw [BitVec.getLsbD_and, BitVec.getLsbD_and, BitVec.getLsbD_not, minus i lt, top i lt,
      decide_eq_true lt, Bool.true_and]
    rfl
  constructor
  · intro some
    by_contra none
    refine some (BitVec.eq_of_getLsbD_eq fun i lt => ?_)
    rw [bit i lt, show BitVec.getLsbD (0 : Word) i = false from BitVec.getLsbD_zero]
    by_contra set
    rw [Bool.not_eq_false, Bool.and_eq_true, Bool.and_eq_true, decide_eq_true_eq,
      Bool.not_eq_true'] at set
    have index : 8 * (i / 8) + 7 = i := by omega
    exact none ⟨i / 8, by omega, by rw [index]; exact set.1.1, by rw [index]; exact set.1.2⟩
  · rintro ⟨k, lt, set, clear⟩ zero
    have none := bit (8 * k + 7) (by omega)
    rw [zero, show BitVec.getLsbD (0 : Word) (8 * k + 7) = false from BitVec.getLsbD_zero, set,
      clear,
      decide_eq_true (by omega)] at none
    cases none

end ByteMemory
