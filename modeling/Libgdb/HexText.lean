import Libgdb.Model.Packets

/-!
Hexadecimal texts: what the decoders of src/util.c return on texts of digits, and that the
digits written for a byte read back as that byte.
-/
namespace Libgdb
open ByteMemory

def IsHex (c : Byte) : Prop := hexcharToInt c ≠ -1

instance (c : Byte) : Decidable (IsHex c) := inferInstanceAs (Decidable (_ ≠ _))

def appendDigit (v : Nat) (c : Byte) : Nat := 16 * v + (hexcharToInt c).toNat

def hexNumber (text : List Byte) : Nat := text.foldl appendDigit 0

/-- The text is two digits for each byte, high half first. -/
def HexOf : List Byte → List Byte → Prop
  | [], [] => True
  | hi :: lo :: text, b :: data =>
      hexcharToInt hi = (b.toNat / 16 : Nat) ∧ hexcharToInt lo = (b.toNat % 16 : Nat) ∧
      HexOf text data
  | _, _ => False

def hexDigits (data : List Byte) : List Byte :=
  data.flatMap fun c => [intToHexchar (c.toNat >>> 4 : Nat), intToHexchar (c.toNat % 16 : Nat)]

/- Single characters. -/

theorem isHex_range : ∀ c : Byte, IsHex c → 0 ≤ hexcharToInt c ∧ hexcharToInt c < 16 := by decide

theorem not_isHex_zero : ¬ IsHex 0 := by decide

theorem isHex_ne {c d : Byte} (hc : IsHex c) (hd : ¬ IsHex d) : c ≠ d := by
  rintro rfl
  exact hd hc

theorem hexByte_ne : ∀ c : Byte, IsHex c →
    BitVec.ofInt 8 (hexcharToInt c) ≠ BitVec.ofInt 8 (-1) := by decide

theorem hexByte_low : ∀ c : Byte, IsHex c →
    (BitVec.ofInt 8 (hexcharToInt c) &&& 0xF#8).toNat = (hexcharToInt c).toNat := by decide

theorem hexByte_of_not : ∀ c : Byte, ¬ IsHex c →
    BitVec.ofInt 8 (hexcharToInt c) = BitVec.ofInt 8 (-1) := by decide

theorem hexcharToInt_intToHexchar :
    ∀ d : Fin 16, hexcharToInt (intToHexchar (d.val : Nat)) = d.val := by
  decide

theorem intToHexchar_isHex : ∀ d : Fin 16, IsHex (intToHexchar (d.val : Nat)) := by decide

theorem hexPair_of_halves {hi lo b : Byte} (high : hexcharToInt hi = (b.toNat / 16 : Nat))
    (low : hexcharToInt lo = (b.toNat % 16 : Nat)) : hexPair hi lo = b := by
  rw [hexPair, high, low]
  apply BitVec.eq_of_toNat_eq
  have hb := b.isLt
  have one : ((b.toNat / 16 : Nat) : Int) * 16 = ((b.toNat / 16 * 16 : Nat) : Int) := by simp
  rw [one, BitVec.ofInt_natCast, BitVec.ofInt_natCast, BitVec.toNat_add, BitVec.toNat_ofNat,
    BitVec.toNat_ofNat]
  omega

theorem shiftRight_four (n : Nat) : n >>> 4 = n / 16 := Nat.shiftRight_eq_div_pow n 4

theorem hexDigits_hexOf (data : List Byte) : HexOf (hexDigits data) data := by
  induction data with
  | nil => trivial
  | cons b data ih =>
    have hb := b.isLt
    refine ⟨?_, ?_, ih⟩
    · rw [shiftRight_four]
      exact hexcharToInt_intToHexchar ⟨b.toNat / 16, by omega⟩
    · exact hexcharToInt_intToHexchar ⟨b.toNat % 16, by omega⟩

@[simp] theorem hexDigits_length (data : List Byte) :
    (hexDigits data).length = 2 * data.length := by
  induction data with
  | nil => rfl
  | cons b data ih =>
    simp only [hexDigits, List.flatMap_cons, List.length_append, List.length_cons, List.length_nil]
      at ih ⊢
    omega

theorem hexDigits_isHex (data : List Byte) : ∀ c ∈ hexDigits data, IsHex c := by
  intro c mem
  simp only [hexDigits, List.mem_flatMap, List.mem_cons, List.not_mem_nil, or_false] at mem
  obtain ⟨b, _, here⟩ := mem
  have hb := b.isLt
  rcases here with rfl | rfl
  · rw [shiftRight_four]
    exact intToHexchar_isHex ⟨b.toNat / 16, by omega⟩
  · exact intToHexchar_isHex ⟨b.toNat % 16, by omega⟩

theorem hexDigits_ne_zero (data : List Byte) : ∀ c ∈ hexDigits data, c ≠ 0 :=
  fun c mem => isHex_ne (hexDigits_isHex data c mem) not_isHex_zero

theorem hexOf_length {text data : List Byte} (h : HexOf text data) :
    text.length = 2 * data.length := by
  induction data generalizing text with
  | nil => cases text with
    | nil => rfl
    | cons c text => cases text <;> simp [HexOf] at h
  | cons b data ih =>
    match text with
    | [] => simp [HexOf] at h
    | [c] => simp [HexOf] at h
    | hi :: lo :: text =>
      have := ih h.2.2
      simp only [List.length_cons]
      omega

/- Numbers. -/

theorem shift_or_digit (val : Word) (d : Byte) (small : d.toNat < 16) :
    (val <<< 4) ||| d.setWidth 64 = BitVec.ofNat 64 (16 * val.toNat + d.toNat) := by
  apply BitVec.eq_of_toNat_eq
  have hv := val.isLt
  rw [BitVec.toNat_or, BitVec.toNat_shiftLeft, BitVec.toNat_setWidth, BitVec.toNat_ofNat,
    Nat.shiftLeft_eq, Nat.mod_eq_of_lt (a := d.toNat) (by omega),
    show val.toNat * 2 ^ 4 % 2 ^ 64 = 2 ^ 4 * (val.toNat % 2 ^ 60) by omega,
    ← Nat.two_pow_add_eq_or_of_lt (i := 4) (by omega) (val.toNat % 2 ^ 60)]
  omega

theorem foldl_digits_mod (text : List Byte) (v w : Nat) (same : v % 2 ^ 64 = w % 2 ^ 64) :
    text.foldl appendDigit v % 2 ^ 64 =
      text.foldl appendDigit w % 2 ^ 64 := by
  induction text generalizing v w with
  | nil => exact same
  | cons c text ih =>
    apply ih
    simp only [appendDigit]
    omega

theorem hexstrToInt_step {c : Byte} (digit : IsHex c) (rest : List Byte) (n : Nat) (val : Word) :
    hexstrToInt (c :: rest) (n + 1) val = hexstrToInt rest n
    (BitVec.ofNat 64 (appendDigit val.toNat c)) := by
  have small := isHex_range c digit
  have low := hexByte_low c digit
  rw [hexstrToInt, if_neg (isHex_ne digit not_isHex_zero)]
  dsimp only
  rw [if_neg (hexByte_ne c digit), shift_or_digit _ _ (by omega), low]
  rfl

theorem foldl_digits_ofNat (text : List Byte) (v : Nat) :
    BitVec.ofNat 64 (text.foldl appendDigit (BitVec.ofNat 64 v).toNat) = BitVec.ofNat 64
    (text.foldl appendDigit v) := by
  apply BitVec.eq_of_toNat_eq
  rw [BitVec.toNat_ofNat, BitVec.toNat_ofNat]
  apply foldl_digits_mod
  exact Nat.mod_mod _ _

theorem hexstrToInt_digits (text : List Byte) (digits : ∀ c ∈ text, IsHex c) (stop : Byte)
    (ends : ¬ IsHex stop) (rest : List Byte) (maxBytes : Nat) (fits : text.length ≤ maxBytes)
    (val : Word) :
    hexstrToInt (text ++ stop :: rest) maxBytes val = .ok (stop :: rest,
      BitVec.ofNat 64 (text.foldl appendDigit val.toNat)) := by
  induction text generalizing maxBytes val with
  | nil =>
    simp only [List.nil_append, hexstrToInt, List.foldl_nil, BitVec.ofNat_toNat, BitVec.setWidth_eq]
    split
    · rfl
    · cases maxBytes with
      | zero => rfl
      | succ n => simp [hexByte_of_not stop ends]
  | cons c text ih =>
    cases maxBytes with
    | zero => simp at fits
    | succ n =>
      have rest' := ih (fun d mem => digits d (by simp [mem])) n (by simpa using fits)
        (BitVec.ofNat 64 (appendDigit val.toNat c))
      rw [List.cons_append, hexstrToInt_step (digits c (by simp)), rest', foldl_digits_ofNat,
        List.foldl_cons]

theorem hexstrToInt_number (text : List Byte) (digits : ∀ c ∈ text, IsHex c) (stop : Byte)
    (ends : ¬ IsHex stop) (rest : List Byte) (fits : text.length ≤ 16) :
    hexstrToInt (text ++ stop :: rest) 16 0 =
      .ok (stop :: rest, BitVec.ofNat 64 (hexNumber text)) :=
  hexstrToInt_digits text digits stop ends rest 16 fits 0

theorem hexNumber_lt (text : List Byte) (digits : ∀ c ∈ text, IsHex c) :
    hexNumber text < 16 ^ text.length := by
  have grows : ∀ v, text.foldl appendDigit v <
      (v + 1) * 16 ^ text.length := by
    induction text with
    | nil => simp
    | cons c text ih =>
      intro v
      have := ih (fun d mem => digits d (by simp [mem])) (appendDigit v c)
      have hc := isHex_range c (digits c (by simp))
      have wide : (appendDigit v c + 1) * 16 ^ text.length ≤
          (v + 1) * 16 ^ (text.length + 1) := by
        rw [Nat.pow_succ', ← Nat.mul_assoc]
        exact Nat.mul_le_mul_right _ (by simp only [appendDigit]; omega)
      simp only [List.foldl_cons, List.length_cons]
      omega
  simpa [hexNumber] using grows 0

/- Bytes. -/

theorem hexPair_toNat {x y : Byte} (hexX : IsHex x) (hexY : IsHex y) :
    (hexPair x y).toNat = hexNumber [x, y] := by
  have high := isHex_range x hexX
  have low := isHex_range y hexY
  have number : hexNumber [x, y] = 16 * (hexcharToInt x).toNat + (hexcharToInt y).toNat := by
    simp [hexNumber, appendDigit]
  have pair : hexPair x y = BitVec.ofNat 8 (hexNumber [x, y]) := by
    refine hexPair_of_halves ?_ ?_
    · rw [BitVec.toNat_ofNat, number]
      omega
    · rw [BitVec.toNat_ofNat, number]
      omega
  rw [pair, BitVec.toNat_ofNat, number]
  omega

theorem hex2mem_digits {text data : List Byte} (h : HexOf text data) (rest : List Byte) :
    hex2mem (text ++ rest) data.length = .ok (data, rest) := by
  induction data generalizing text with
  | nil =>
    have := hexOf_length h
    rw [List.length_nil, Nat.mul_zero, List.length_eq_zero_iff] at this
    subst this
    simp [hex2mem]
  | cons b data ih =>
    match text with
    | [] => simp [HexOf] at h
    | [c] => simp [HexOf] at h
    | hi :: lo :: text =>
      simp only [List.cons_append, List.length_cons, hex2mem, ih h.2.2, hexPair_of_halves h.1 h.2.1]
      rfl

end Libgdb
