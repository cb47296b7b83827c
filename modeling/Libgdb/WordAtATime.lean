import Libgdb.Model.WideUtil

/-!
`memset` and `memchr` do what byte loops do: the stores of several bytes cover the region, no byte
outside it, and the words loaded are aligned and inside the buffer.
-/
namespace Libgdb
open ByteMemory

/- Where a list of stores reaches. -/

def Hits (x : Word) (stores : List WideStore) : Prop :=
  ∃ t ∈ stores, (x - t.address).toNat < t.width

theorem hits_nil (x : Word) : ¬ Hits x [] := fun ⟨t, mem, _⟩ => by cases mem

theorem hits_append (x : Word) (first second : List WideStore) :
    Hits x (first ++ second) ↔ Hits x first ∨ Hits x second := by
  simp only [Hits, List.mem_append, or_and_right, exists_or]

theorem ptrAdd_zero (s : Word) : ptrAdd s 0 = s := BitVec.add_zero s

theorem ptrAdd_ptrAdd (s : Word) (i j : Nat) : ptrAdd (ptrAdd s i) j = ptrAdd s (i + j) := by
  rw [ptrAdd, ptrAdd, ptrAdd, BitVec.ofNat_add, BitVec.add_assoc]

theorem hits_map (x dest : Word) (value : Word) {width : Nat} {is : List Nat} {base : Nat}
    (small : ∀ i ∈ is, base + i + width ≤ 2 ^ 64) :
    Hits x (is.map fun i => ⟨ptrAdd (ptrAdd dest base) i, width, value⟩) ↔
      ∃ i ∈ is, base + i ≤ (x - dest).toNat ∧ (x - dest).toNat < base + i + width := by
  have one (i : Nat) (mem : i ∈ is) : (x - ptrAdd (ptrAdd dest base) i).toNat < width ↔
      base + i ≤ (x - dest).toNat ∧ (x - dest).toNat < base + i + width := by
    rw [ptrAdd_ptrAdd]
    exact inside_offset x dest (small i mem)
  constructor
  · rintro ⟨t, mem, inside⟩
    obtain ⟨i, here, rfl⟩ := List.mem_map.mp mem
    exact ⟨i, here, (one i here).mp inside⟩
  · rintro ⟨i, here, inside⟩
    exact ⟨_, List.mem_map.mpr ⟨i, here, rfl⟩, (one i here).mpr inside⟩

theorem memsetLoop_hits (x dest : Word) (c64 : Word) {base n : Nat} (small : base + n ≤ 2 ^ 64) :
    Hits x (memsetLoop c64 (ptrAdd dest base) n) ↔
      base ≤ (x - dest).toNat ∧ (x - dest).toNat < base + n / 32 * 32 := by
  induction n using Nat.strongRecOn generalizing base with
  | ind n ih =>
    rw [memsetLoop]
    by_cases more : 32 ≤ n
    · have rest := @ih (n - 32) (by omega) (base + 32) (by omega)
      rw [if_pos more, hits_append, ptrAdd_ptrAdd, rest, u64Stores, hits_map _ _ _ (by simp; omega)]
      simp only [List.mem_cons, List.not_mem_nil, or_false, exists_eq_or_imp, exists_eq_left]
      omega
    · rw [if_neg more]
      exact iff_of_false (hits_nil x) (by omega)

theorem and_four (s : Word) : (s &&& 4).toNat = 4 * (s.toNat / 4 % 2) := by
  rw [BitVec.toNat_and]
  have bit := Nat.and_two_pow s.toNat 2
  rw [Nat.testBit_eq_decide_div_mod_eq] at bit
  refine bit.trans ?_
  have two : s.toNat / 2 ^ 2 % 2 < 2 := Nat.mod_lt _ (by decide)
  by_cases one : s.toNat / 2 ^ 2 % 2 = 1
  · rw [decide_eq_true one, Bool.toNat_true]
    omega
  · rw [decide_eq_false one, Bool.toNat_false]
    omega

theorem memsetAligned_hits (x dest : Word) (c : Byte) {base n : Nat} (small : base + n ≤ 2 ^ 64)
    (words : n % 4 = 0) (some : 4 ≤ n) : Hits x (memsetAligned c (ptrAdd dest base) n) ↔
      base ≤ (x - dest).toNat ∧ (x - dest).toNat < base + n := by
  have four := and_four (ptrAdd dest base)
  unfold memsetAligned
  dsimp only
  rw [hits_append, u32Stores, hits_map _ _ _ (by simp; omega)]
  by_cases eight : n ≤ 8
  · rw [if_pos eight, or_iff_left (hits_nil x)]
    simp only [List.mem_cons, List.not_mem_nil, or_false, exists_eq_or_imp, exists_eq_left]
    omega
  · rw [if_neg eight, hits_append, u32Stores, hits_map _ _ _ (by simp; omega)]
    by_cases twentyFour : n ≤ 24
    · rw [if_pos twentyFour, or_iff_left (hits_nil x)]
      simp only [List.mem_cons, List.not_mem_nil, or_false, exists_eq_or_imp, exists_eq_left]
      omega
    · rw [if_neg twentyFour, hits_append, u32Stores, hits_map _ _ _ (by simp; omega), ptrAdd_ptrAdd,
        memsetLoop_hits _ _ _ (by omega)]
      simp only [List.mem_cons, List.not_mem_nil, or_false, exists_eq_or_imp, exists_eq_left]
      omega

theorem and_three (s : Word) : (s &&& 3).toNat = s.toNat % 4 := by
  rw [BitVec.toNat_and]
  exact Nat.and_two_pow_sub_one_eq_mod s.toNat 2

theorem memsetStores_hits (x dest : Word) (c : BitVec 32) {n : Nat} (size : n < 2 ^ 64) :
    Hits x (memsetStores dest c n) ↔ (x - dest).toNat < n := by
  have zero : dest = ptrAdd dest 0 := (ptrAdd_zero dest).symm
  have bytes (is : List Nat) (within : ∀ i ∈ is, i < n) :
      Hits x (byteStores dest (c.setWidth 8) is) ↔
      ∃ i ∈ is, (x - dest).toNat = i := by
    have hits := @hits_map x dest ((c.setWidth 8).setWidth 64) 1 is 0 (fun i mem => by
      have lt := within i mem
      omega)
    rw [← zero] at hits
    refine hits.trans (exists_congr fun i => and_congr_right fun _ => ?_)
    omega
  unfold memsetStores
  dsimp only
  by_cases none : n = 0
  · rw [if_pos none]
    exact iff_of_false (hits_nil x) (by omega)
  · rw [if_neg none, hits_append, bytes _ (by simp; omega)]
    by_cases two : n ≤ 2
    · rw [if_pos two, or_iff_left (hits_nil x)]
      simp only [List.mem_cons, List.not_mem_nil, or_false, exists_eq_or_imp, exists_eq_left]
      omega
    · rw [if_neg two, hits_append, bytes _ (by simp; omega)]
      by_cases six : n ≤ 6
      · rw [if_pos six, or_iff_left (hits_nil x)]
        simp only [List.mem_cons, List.not_mem_nil, or_false, exists_eq_or_imp, exists_eq_left]
        omega
      · rw [if_neg six, hits_append, bytes _ (by simp; omega)]
        by_cases eight : n ≤ 8
        · rw [if_pos eight, or_iff_left (hits_nil x)]
          simp only [List.mem_cons, List.not_mem_nil, or_false, exists_eq_or_imp, exists_eq_left]
          omega
        · have three := and_three (-dest)
          rw [if_neg eight, memsetAligned_hits _ _ _ (by omega) (by omega) (by omega)]
          simp only [List.mem_cons, List.not_mem_nil, or_false, exists_eq_or_imp, exists_eq_left]
          omega

/- What is stored. -/

theorem u32_toNat (b : Byte) :
    ((-1 / 255 * b.setWidth 32 : BitVec 32).setWidth 64).toNat = onesIn 4 * b.toNat := by
  have lt := b.isLt
  have ones : (-1 / 255 : BitVec 32).toNat = 16843009 := by decide
  have ones' : onesIn 4 = 16843009 := by decide
  rw [BitVec.toNat_setWidth_of_le (by decide), BitVec.toNat_mul,
    BitVec.toNat_setWidth_of_le (by decide), ones, ones']
  omega

theorem u64_toNat (b : Byte) {c32 : BitVec 32}
    (repeated : (c32.setWidth 64).toNat = onesIn 4 * b.toNat) :
    (c32.setWidth 64 ||| c32.setWidth 64 <<< 32 : Word).toNat = onesIn 8 * b.toNat := by
  have lt := b.isLt
  have ones : onesIn 4 = 16843009 := by decide
  have ones' : onesIn 8 = 16843009 * 2 ^ 32 + 16843009 := by decide
  have small : (c32.setWidth 64).toNat < 2 ^ 32 := by
    rw [repeated, ones]
    omega
  have shifted : (c32.setWidth 64 <<< 32 : Word).toNat = (c32.setWidth 64).toNat <<< 32 := by
    rw [BitVec.toNat_shiftLeft, Nat.shiftLeft_eq]
    omega
  rw [BitVec.toNat_or, shifted, Nat.or_comm, ← Nat.shiftLeft_add_eq_or_of_lt small,
    Nat.shiftLeft_eq, repeated, ones, ones']
  omega

structure Proper (dest : Word) (b : Byte) (n : Nat) (t : WideStore) : Prop where
  repeats : t.Repeats b
  aligned : t.address.toNat % t.width = 0
  inside : (t.address - dest).toNat + t.width ≤ n

theorem ptrAdd_sub (dest : Word) {i : Nat} (small : i < 2 ^ 64) :
    (ptrAdd dest i - dest).toNat = i := by
  have same : ptrAdd dest i - dest = BitVec.ofNat 64 i := by
    unfold ptrAdd
    bv_omega
  rw [same, BitVec.toNat_ofNat, Nat.mod_eq_of_lt small]

theorem proper_map {dest value : Word} {b : Byte} {n width : Nat} {is : List Nat} {base : Nat}
    (size : n < 2 ^ 64) (repeated : value.toNat = onesIn width * b.toNat) (divides : width ∣ 2 ^ 64)
    (positive : 0 < width)
    (aligned : (dest.toNat + base) % width = 0) (places : ∀ i ∈ is, i % width = 0 ∧
      base + i + width ≤ n) :
    ∀ t ∈ is.map fun i => (⟨ptrAdd (ptrAdd dest base) i, width, value⟩ : WideStore),
    Proper dest b n t := by
  intro t mem
  obtain ⟨i, here, rfl⟩ := List.mem_map.mp mem
  obtain ⟨multiple, inside⟩ := places i here
  refine ⟨fun k lt => byteOf_repeated repeated lt, ?_, ?_⟩
  · dsimp only
    rw [ptrAdd_ptrAdd, ptrAdd, BitVec.toNat_add, BitVec.toNat_ofNat, Nat.add_mod_mod,
      Nat.mod_mod_of_dvd _ divides,
      ← Nat.add_assoc, Nat.add_mod, aligned, multiple]
    simp
  · dsimp only
    rw [ptrAdd_ptrAdd, ptrAdd_sub dest (by omega)]
    exact inside

theorem memsetLoop_proper {dest c64 : Word} {b : Byte} {size base n : Nat} (small : size < 2 ^ 64)
    (repeated : c64.toNat = onesIn 8 * b.toNat) (aligned : (dest.toNat + base) % 8 = 0)
    (inside : base + n ≤ size) :
    ∀ t ∈ memsetLoop c64 (ptrAdd dest base) n, Proper dest b size t := by
  induction n using Nat.strongRecOn generalizing base with
  | ind n ih =>
    rw [memsetLoop]
    by_cases more : 32 ≤ n
    · have here := @proper_map dest c64 b size 8 [0, 8, 16, 24] base small repeated (by decide)
          (by decide)
        aligned (by simp; omega)
      have rest := @ih (n - 32) (by omega) (base + 32) (by omega) (by omega)
      rw [if_pos more, ptrAdd_ptrAdd]
      intro t mem
      exact (List.mem_append.mp mem).elim (here t) (rest t)
    · rw [if_neg more]
      intro t mem
      cases mem

theorem memsetAligned_proper {dest : Word} {b : Byte} {size base n : Nat} (small : size < 2 ^ 64)
    (aligned : (dest.toNat + base) % 4 = 0) (words : n % 4 = 0) (some : 4 ≤ n)
    (inside : base + n ≤ size) :
    ∀ t ∈ memsetAligned b (ptrAdd dest base) n, Proper dest b size t := by
  have place : (ptrAdd dest base).toNat = (dest.toNat + base) % 2 ^ 64 := by
    rw [ptrAdd, BitVec.toNat_add, BitVec.toNat_ofNat, Nat.add_mod_mod]
  have four := and_four (ptrAdd dest base)
  have wide (is : List Nat) (places : ∀ i ∈ is, i % 4 = 0 ∧ base + i + 4 ≤ size) :
      ∀ t ∈ u32Stores (ptrAdd dest base) (-1 / 255 * b.setWidth 32) is, Proper dest b size t :=
    proper_map small (u32_toNat b) (by decide) (by decide) aligned places
  unfold memsetAligned
  dsimp only
  intro t mem
  rcases List.mem_append.mp mem with first | mem
  · exact wide _ (by simp; omega) t first
  · by_cases eight : n ≤ 8
    · rw [if_pos eight] at mem
      cases mem
    · rw [if_neg eight] at mem
      rcases List.mem_append.mp mem with second | mem
      · exact wide _ (by simp; omega) t second
      · by_cases twentyFour : n ≤ 24
        · rw [if_pos twentyFour] at mem
          cases mem
        · rw [if_neg twentyFour, ptrAdd_ptrAdd] at mem
          rcases List.mem_append.mp mem with third | loop
          · exact wide _ (by simp; omega) t third
          · exact memsetLoop_proper small (u64_toNat b (u32_toNat b)) (by omega) (by omega) t loop

theorem memsetStores_proper {dest : Word} (c : BitVec 32) {n : Nat} (small : n < 2 ^ 64) :
    ∀ t ∈ memsetStores dest c n, Proper dest (c.setWidth 8) n t := by
  have zero : dest = ptrAdd dest 0 := (ptrAdd_zero dest).symm
  have repeated : ((c.setWidth 8).setWidth 64 : Word).toNat =
      onesIn 1 * (c.setWidth 8 : Byte).toNat := by
    rw [BitVec.toNat_setWidth_of_le (by decide), onesIn, onesIn, Nat.mul_zero,
      Nat.add_zero, Nat.one_mul]
  have bytes (is : List Nat) (within : ∀ i ∈ is, i < n) :
      ∀ t ∈ byteStores dest (c.setWidth 8) is, Proper dest (c.setWidth 8) n t := by
    have here := @proper_map dest _ _ n 1 is 0 small repeated (by decide) (by decide)
        (Nat.mod_one _)
      (fun i mem => by
        have lt := within i mem
        omega)
    rw [← zero] at here
    exact here
  unfold memsetStores
  dsimp only
  intro t mem
  by_cases none : n = 0
  · rw [if_pos none] at mem
    cases mem
  · rw [if_neg none] at mem
    rcases List.mem_append.mp mem with first | mem
    · exact bytes _ (by simp; omega) t first
    · by_cases two : n ≤ 2
      · rw [if_pos two] at mem
        cases mem
      · rw [if_neg two] at mem
        rcases List.mem_append.mp mem with second | mem
        · exact bytes _ (by simp; omega) t second
        · by_cases six : n ≤ 6
          · rw [if_pos six] at mem
            cases mem
          · rw [if_neg six] at mem
            rcases List.mem_append.mp mem with third | mem
            · exact bytes _ (by simp; omega) t third
            · by_cases eight : n ≤ 8
              · rw [if_pos eight] at mem
                cases mem
              · rw [if_neg eight] at mem
                have three := and_three (-dest)
                have negated : (-dest).toNat = (2 ^ 64 - dest.toNat) % 2 ^ 64 :=
                  BitVec.toNat_neg dest
                have lt := dest.isLt
                exact memsetAligned_proper small (by omega) (by omega) (by omega) (by omega) t mem

/-- `memset` is the byte loop of its fallback, and every store it makes is aligned and inside the
    region. -/
theorem memset_fills (m : Memory) (dest : Word) (c : BitVec 32) (n : Word) :
    memset m dest c n = (fun x => if (x - dest).toNat < n.toNat then c.setWidth 8 else m x) ∧
      ∀ t ∈ memsetStores dest c n.toNat, t.address.toNat % t.width = 0 ∧
        (t.address - dest).toNat + t.width ≤ n.toNat := by
  have proper : ∀ t ∈ memsetStores dest c n.toNat, Proper dest (c.setWidth 8) n.toNat t :=
    memsetStores_proper c n.isLt
  constructor
  · exact runStores_fill (fun t mem => (proper t mem).repeats)
      (fun x => memsetStores_hits x dest c n.isLt) m
  · intro t mem
    exact ⟨(proper t mem).aligned, (proper t mem).inside⟩

/- The search. -/

def bytesAhead (m : Memory) (s : Word) : Nat → List Byte
  | 0 => []
  | n + 1 => m s :: bytesAhead m (s + 1) n

theorem bytesAhead_length (m : Memory) (s : Word) (n : Nat) : (bytesAhead m s n).length = n := by
  induction n generalizing s with
  | zero => rfl
  | succ n ih => rw [bytesAhead, List.length_cons, ih]

/-- Of `n` bytes from `src`, those before `p.1` are not `c`, and `p.2` are left. -/
def Scanned (m : Memory) (src : Word) (c : Byte) (n : Nat) (p : Word × Nat) : Prop :=
  ∃ i, p.1 = ptrAdd src i ∧ i + p.2 = n ∧ ∀ j < i, m (ptrAdd src j) ≠ c

theorem scanned_start (m : Memory) (src : Word) (c : Byte) (n : Nat) : Scanned m src c n (src, n) :=
  ⟨0, (ptrAdd_zero src).symm, Nat.zero_add n, fun _ lt => absurd lt (Nat.not_lt_zero _)⟩

theorem scanned_more {m : Memory} {src : Word} {c : Byte} {n : Nat} {s : Word} {left : Nat}
    (scanned : Scanned m src c n (s, left)) {more : Nat} (enough : more ≤ left)
    (others : ∀ j < more, m (ptrAdd s j) ≠ c) : Scanned m src c n (ptrAdd s more, left - more) := by
  obtain ⟨i, rfl, total, before⟩ := scanned
  refine ⟨i + more, ptrAdd_ptrAdd src i more, by dsimp only at total ⊢; omega, fun j lt => ?_⟩
  by_cases old : j < i
  · exact before j old
  · have fresh := others (j - i) (by omega)
    rw [ptrAdd_ptrAdd] at fresh
    have index : i + (j - i) = j := by omega
    rwa [index] at fresh

theorem scanned_next {m : Memory} {src : Word} {c : Byte} {n : Nat} {s : Word} {left : Nat}
    (scanned : Scanned m src c n (s, left + 1)) (other : m s ≠ c) :
    Scanned m src c n (s + 1, left) := by
  have one : 1 ≤ left + 1 := by omega
  refine @scanned_more m src c n s (left + 1) scanned 1 one fun j lt => ?_
  have first : j = 0 := by omega
  rw [first, ptrAdd_zero]
  exact other

theorem memchrHead_scanned {m : Memory} {src : Word} {c : Byte} {n : Nat} {s : Word} {left : Nat}
    (scanned : Scanned m src c n (s, left)) : Scanned m src c n (memchrHead m c s left) ∧
      ((memchrHead m c s left).2 ≠ 0 → m (memchrHead m c s left).1 ≠ c →
        (memchrHead m c s left).1.toNat % 8 = 0) := by
  induction left generalizing s with
  | zero => exact ⟨scanned, fun some => absurd rfl some⟩
  | succ left ih =>
    rw [memchrHead]
    by_cases goes : s &&& 7 ≠ 0 ∧ m s ≠ c
    · rw [if_pos goes]
      exact ih (scanned_next scanned goes.2)
    · rw [if_neg goes]
      refine ⟨scanned, fun _ other => ?_⟩
      have zero : s &&& 7 = 0 := by
        by_contra low
        exact goes ⟨low, other⟩
      have low : (s &&& 7).toNat = s.toNat % 8 := by
        rw [BitVec.toNat_and]
        exact Nat.and_two_pow_sub_one_eq_mod s.toNat 3
      rw [← low, zero]
      rfl

theorem memchrTail_scanned {m : Memory} {src : Word} {c : Byte} {n : Nat} {s : Word} {left : Nat}
    (scanned : Scanned m src c n (s, left)) : Scanned m src c n (memchrTail m c s left) ∧
      ((memchrTail m c s left).2 ≠ 0 → m (memchrTail m c s left).1 = c) := by
  induction left generalizing s with
  | zero => exact ⟨scanned, fun some => absurd rfl some⟩
  | succ left ih =>
    rw [memchrTail]
    by_cases other : m s ≠ c
    · rw [if_pos other]
      exact ih (scanned_next scanned other)
    · rw [if_neg other]
      exact ⟨scanned, fun _ => not_not.mp other⟩

theorem byteOf_xor (v w : Word) (k : Nat) : byteOf (v ^^^ w) k = byteOf v k ^^^ byteOf w k :=
  BitVec.extractLsb'_xor

theorem hasZero_iff (m : Memory) (s : Word) (c : Byte) :
    hasZero (load m s ^^^ memchrOnes * c.setWidth 64) = true ↔ ∃ j < 8, m (ptrAdd s j) = c := by
  have ones : memchrOnes = ones := by decide
  have highs : memchrHighs = highs := by decide
  have lt := c.isLt
  have repeated : (memchrOnes * c.setWidth 64).toNat = onesIn 8 * c.toNat := by
    have eight : onesIn 8 = memchrOnes.toNat := by decide
    have value : memchrOnes.toNat = 72340172838076673 := by decide
    rw [BitVec.toNat_mul, BitVec.toNat_setWidth_of_le (by decide), eight, value]
    omega
  unfold hasZero
  rw [ones] at repeated
  rw [decide_eq_true_iff, highs, ones]
  refine (zero_byte_iff _).trans (exists_congr fun j => and_congr_right fun lt => ?_)
  rw [byteOf_xor, byteOf_load m s lt, byteOf_repeated repeated lt]
  exact BitVec.xor_eq_zero_iff

/-- The words loaded begin at aligned addresses, inside the buffer and before any `c`. -/
def LoadsProper (m : Memory) (src : Word) (c : Byte) (n : Nat) (loads : List Word) : Prop :=
  ∀ a ∈ loads, a.toNat % 8 = 0 ∧ (a - src).toNat + 8 ≤ n ∧
    ∀ j < (a - src).toNat, m (ptrAdd src j) ≠ c

theorem load_proper {m : Memory} {src : Word} {c : Byte} {n : Nat} (size : n < 2 ^ 64)
    {s : Word} {left : Nat}
    (scanned : Scanned m src c n (s, left)) (aligned : s.toNat % 8 = 0) (word : 8 ≤ left) :
    s.toNat % 8 = 0 ∧ (s - src).toNat + 8 ≤ n ∧ ∀ j < (s - src).toNat, m (ptrAdd src j) ≠ c := by
  obtain ⟨i, rfl, total, before⟩ := scanned
  dsimp only at total
  rw [ptrAdd_sub src (by omega)]
  exact ⟨aligned, by omega, before⟩

theorem memchrWords_scanned {m : Memory} {src : Word} {c : Byte} {n : Nat} (size : n < 2 ^ 64)
    {s : Word} {left : Nat} (scanned : Scanned m src c n (s, left)) (aligned : s.toNat % 8 = 0) :
    Scanned m src c n (memchrWords m (memchrOnes * c.setWidth 64) s left).2 ∧
      LoadsProper m src c n (memchrWords m (memchrOnes * c.setWidth 64) s left).1 := by
  induction left using Nat.strongRecOn generalizing s with
  | ind left ih =>
    rw [memchrWords]
    by_cases word : 8 ≤ left
    · have here := load_proper size scanned aligned word
      rw [if_pos word]
      by_cases zero : hasZero (load m s ^^^ memchrOnes * c.setWidth 64) = true
      · rw [if_pos zero]
        refine ⟨scanned, fun a mem => ?_⟩
        rw [List.mem_singleton.mp mem]
        exact here
      · rw [if_neg zero]
        have others : ∀ j < 8, m (ptrAdd s j) ≠ c := by
          intro j lt same
          exact zero ((hasZero_iff m s c).mpr ⟨j, lt, same⟩)
        have next : (s + 8).toNat % 8 = 0 := by
          rw [BitVec.toNat_add, show (8 : Word).toNat = 8 from rfl]
          omega
        obtain ⟨rest, loads⟩ := ih (left - 8) (by omega) (scanned_more scanned word others) next
        refine ⟨rest, fun a mem => ?_⟩
        rcases List.mem_cons.mp mem with rfl | later
        · exact here
        · exact loads a later
    · rw [if_neg word]
      exact ⟨scanned, fun a mem => by cases mem⟩

theorem memchr_shorter {text : List Byte} {c : Byte} {n : Nat} {rest : List Byte}
    (found : memchr text c n = .ok (some rest)) : rest.length ≤ text.length := by
  induction text generalizing n with
  | nil => cases n <;> cases found
  | cons b text ih =>
    cases n with
    | zero => cases found
    | succ n =>
      rw [memchr] at found
      by_cases same : b = c
      · rw [if_pos same] at found
        cases found
        exact Nat.le_refl _
      · rw [if_neg same] at found
        exact Nat.le_succ_of_le (ih found)

theorem scanned_agrees {m : Memory} {src : Word} {c : Byte} {n : Nat} {p : Word × Nat}
    (scanned : Scanned m src c n p)
    (ends : p.2 ≠ 0 → m p.1 = c) {size : Nat} {found : Option (List Byte)}
    (searched : memchr (bytesAhead m src size) c n = .ok found) :
    (if p.2 ≠ 0 then some p.1 else none) = found.map fun rest => ptrAdd src
    (size - rest.length) := by
  obtain ⟨s, left⟩ := p
  obtain ⟨i, rfl, total, before⟩ := scanned
  dsimp only at total ends ⊢
  induction i generalizing src n size with
  | zero =>
    rw [Nat.zero_add] at total
    subst total
    cases left with
    | zero =>
      rw [memchr] at searched
      cases searched
      rfl
    | succ left =>
      cases size with
      | zero => cases searched
      | succ size =>
        have same : m src = c := by
          have last := ends (Nat.succ_ne_zero left)
          rwa [ptrAdd_zero] at last
        rw [bytesAhead, memchr, if_pos same] at searched
        cases searched
        rw [if_pos (Nat.succ_ne_zero left), Option.map_some, ← bytesAhead,
          bytesAhead_length, Nat.sub_self]
  | succ i ih =>
    obtain ⟨n, rfl⟩ : ∃ k, n = k + 1 := ⟨n - 1, by omega⟩
    cases size with
    | zero => cases searched
    | succ size =>
      have other : m src ≠ c := by
        have first := before 0 (Nat.succ_pos i)
        rwa [ptrAdd_zero] at first
      have moved (j : Nat) : ptrAdd src (j + 1) = ptrAdd (src + 1) j := by
        rw [Nat.add_comm]
        exact (ptrAdd_ptrAdd src 1 j).symm
      rw [bytesAhead, memchr, if_neg other] at searched
      rw [moved] at ends ⊢
      have later : ∀ j < i, m (ptrAdd (src + 1) j) ≠ c := by
        intro j lt
        rw [← moved]
        exact before (j + 1) (by omega)
      rw [ih searched ends (by omega) later]
      cases found with
      | none => rfl
      | some rest =>
        have shorter := memchr_shorter searched
        rw [bytesAhead_length] at shorter
        rw [Option.map_some, Option.map_some, ← moved]
        congr 2
        omega

/-- What `memchr` has scanned when it returns. -/
theorem memchrRun_scanned (m : Memory) (src : Word) (c : BitVec 32) (n : Word) :
    ∃ p, Scanned m src (c.setWidth 8) n.toNat p ∧ (p.2 ≠ 0 → m p.1 = c.setWidth 8) ∧
      (memchrRun m src c n).2 = (if p.2 ≠ 0 then some p.1 else none) ∧
      LoadsProper m src (c.setWidth 8) n.toNat (memchrRun m src c n).1 := by
  obtain ⟨head, exit⟩ := memchrHead_scanned (scanned_start m src (c.setWidth 8) n.toNat)
  unfold memchrRun
  dsimp only
  generalize memchrHead m (c.setWidth 8) src n.toNat = h at head exit ⊢
  by_cases goes : h.2 ≠ 0 ∧ m h.1 ≠ c.setWidth 8
  · obtain ⟨words, loads⟩ := memchrWords_scanned n.isLt head (exit goes.1 goes.2)
    obtain ⟨tail, ends⟩ := memchrTail_scanned words
    rw [if_pos goes]
    exact ⟨_, tail, ends, rfl, loads⟩
  · rw [if_neg goes]
    refine ⟨h, head, fun some => ?_, rfl, fun a mem => by cases mem⟩
    by_contra other
    exact goes ⟨some, other⟩

/-- Where a search byte by byte stays inside the buffer, `memchr` finds what it finds. The words
    it loads are aligned, and none begins past the byte found. -/
theorem memchr_agrees (m : Memory) (src : Word) (c : BitVec 32) (n : Word) {size : Nat}
    {found : Option (List Byte)}
    (searched : memchr (bytesAhead m src size) (c.setWidth 8) n.toNat = .ok found) :
    (memchrRun m src c n).2 = found.map (fun rest => ptrAdd src (size - rest.length)) ∧
      ∀ a ∈ (memchrRun m src c n).1, a.toNat % 8 = 0 ∧ (a - src).toNat + 8 ≤ n.toNat ∧
        ∀ j < (a - src).toNat, m (ptrAdd src j) ≠ c.setWidth 8 := by
  obtain ⟨p, scanned, ends, result, loads⟩ := memchrRun_scanned m src c n
  exact ⟨result.trans (scanned_agrees scanned ends searched), loads⟩

def colonAtTen : Memory := fun x => if x = 10 then chr ':' else chr '0'

theorem colon_found : (memchrRun colonAtTen 5 (BitVec.ofNat 32 (chr ':').toNat) 20).2 =
    some 10 := by
  have searched : memchr (bytesAhead colonAtTen 5 10) ((BitVec.ofNat 32 (chr ':').toNat).setWidth 8)
      (20 : Word).toNat =
      .ok (some (bytesAhead colonAtTen 10 5)) := by decide
  exact (memchr_agrees colonAtTen 5 (BitVec.ofNat 32 (chr ':').toNat) 20 searched).1

end Libgdb
