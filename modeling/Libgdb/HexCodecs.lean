import Libgdb.Model.Registry
import Libgdb.ReplyText

/-!
The hex codecs of src/util.c on buffers of any size. They read and write `char`, which is signed on
some targets, and compute with `unsigned char`; the conversion keeps the bits.
-/
namespace Libgdb
open ByteMemory

/- Characters. -/

inductive CharSign where
  | signed
  | unsigned

def CharSign.value : CharSign → Byte → Int
  | .signed, c => c.toInt
  | .unsigned, c => c.toNat

def CharSign.load (sign : CharSign) (c : Byte) : Byte := BitVec.ofInt 8 (sign.value c)

@[simp] theorem load_bits (sign : CharSign) (c : Byte) : sign.load c = c := by
  cases sign with
  | signed => exact BitVec.ofInt_toInt
  | unsigned => rw [CharSign.load, CharSign.value, BitVec.ofInt_natCast, BitVec.ofNat_toNat,
    BitVec.setWidth_eq]

theorem value_zero (sign : CharSign) : ∀ c : Byte, sign.value c = 0 ↔ c = 0 := by
  cases sign with
  | signed => decide
  | unsigned => decide

def lowerCase (c : Byte) : Byte := if chr 'A' ≤ c ∧ c ≤ chr 'F' then c + 0x20 else c

theorem intToHexchar_lowerCase :
    ∀ c : Byte, IsHex c → intToHexchar (hexcharToInt c) = lowerCase c := by
  decide +kernel

theorem intToHexchar_hexchars : ∀ d : Fin 16, intToHexchar (d.val : Nat) ∈ hexchars := by decide

/- The loops. -/

/-- `mem2hex` on a buffer with room for the text: the pointer it returns, and the buffer. -/
def mem2hexInto (sign : CharSign) : (mem : List Byte) → (buffer : Nat → Byte) → (buf : Nat) →
    Nat × (Nat → Byte)
  | [], buffer, buf => (buf, Function.update buffer buf 0)
  | b :: mem, buffer, buf =>
      let c := sign.load b
      let buffer := Function.update buffer buf (intToHexchar (c.toNat >>> 4 : Nat))
      let buffer := Function.update buffer (buf + 1) (intToHexchar (c.toNat % 16 : Nat))
      mem2hexInto sign mem buffer (buf + 2)

def hex2memChars (sign : CharSign) : List Byte → Nat → Except Fault (List Byte × List Byte)
  | buf, 0 => .ok ([], buf)
  | hi :: lo :: buf, size + 1 => do
      let (mem, buf) ← hex2memChars sign buf size
      return (hexPair (sign.load hi) (sign.load lo) :: mem, buf)
  | _, _ + 1 => .error .inputOverread

def hexstrToIntChars (sign : CharSign) : List Byte → Nat → Word → Except Fault (List Byte × Word)
  | [], _, _ => .error .inputOverread
  | c :: hexStr, maxBytes, val =>
      if sign.value c = 0 then .ok (c :: hexStr, val)
      else match maxBytes with
        | 0 => .ok (c :: hexStr, val)
        | n + 1 =>
          let byte := BitVec.ofInt 8 (hexcharToInt (sign.load c))
          if byte = BitVec.ofInt 8 (-1) then .ok (c :: hexStr, val)
          else hexstrToIntChars sign hexStr n ((val <<< 4) ||| (byte &&& 0xF#8).setWidth 64)

theorem mem2hexInto_layText (sign : CharSign) (mem : List Byte) (buffer : Nat → Byte) (buf : Nat) :
    mem2hexInto sign mem buffer buf =
    (buf + 2 * mem.length, layText buffer buf (hexDigits mem ++ [0])) := by
  induction mem generalizing buffer buf with
  | nil =>
    rw [mem2hexInto, ← layText_single]
    rfl
  | cons b mem ih =>
    have pair : Function.update (Function.update buffer buf (intToHexchar (b.toNat >>> 4 : Nat)))
        (buf + 1)
        (intToHexchar (b.toNat % 16 : Nat)) = layText buffer buf (hexDigits [b]) := by
      rw [← layText_single, ← layText_single, layText_append buffer _ _ (by rfl)]
      rfl
    have text : hexDigits (b :: mem) ++ [0] = hexDigits [b] ++ (hexDigits mem ++ [0]) := rfl
    rw [mem2hexInto, load_bits, pair, ih, layText_append buffer (hexDigits [b])
      (hexDigits mem ++ [0]) (by simp), text, List.length_cons,
      show buf + 2 + 2 * mem.length = buf + 2 * (mem.length + 1) by omega]

theorem hex2memChars_bytes (sign : CharSign) (buf : List Byte) (size : Nat) :
    hex2memChars sign buf size = hex2mem buf size := by
  induction buf, size using hex2mem.induct with
  | case1 buf => rw [hex2memChars, hex2mem]
  | case2 hi lo buf size ih => rw [hex2memChars, hex2mem, ih, load_bits, load_bits]
  | case3 buf size short =>
    rcases buf with _ | ⟨hi, _ | ⟨lo, buf⟩⟩
    · rfl
    · rfl
    · exact (short hi lo buf rfl).elim

theorem hexstrToIntChars_bytes (sign : CharSign) (hexStr : List Byte)
    (maxBytes : Nat) (val : Word) :
    hexstrToIntChars sign hexStr maxBytes val = hexstrToInt hexStr maxBytes val := by
  induction hexStr generalizing maxBytes val with
  | nil => rfl
  | cons c hexStr ih =>
    cases maxBytes with
    | zero => simp only [hexstrToIntChars, hexstrToInt, value_zero]
    | succ n => simp only [hexstrToIntChars, hexstrToInt, value_zero, load_bits, ih]

/- Texts. -/

def bufferText (buffer : Nat → Byte) (buf n : Nat) : List Byte :=
  (List.range n).map fun k => buffer (buf + k)

theorem bufferText_layText (buffer : Nat → Byte) (buf : Nat) (text : List Byte) {n : Nat}
    (inside : n ≤ text.length) :
    bufferText (layText buffer buf text) buf n = text.take n := by
  apply List.ext_getElem
  · simp [bufferText, inside]
  · intro k lt lt'
    simp only [bufferText, List.length_map, List.length_range] at lt
    simp [bufferText, layText, show k < text.length by omega]

theorem written_text (sign : CharSign) (bs : List Byte) (buffer : Nat → Byte) (buf : Nat) :
    bufferText (mem2hexInto sign bs buffer buf).2 buf (2 * bs.length) = hexDigits bs := by
  rw [mem2hexInto_layText, bufferText_layText _ _ _ (by simp),
    List.take_left' (hexDigits_length bs)]

theorem written_end (sign : CharSign) (bs : List Byte) (buffer : Nat → Byte) (buf : Nat) :
    (mem2hexInto sign bs buffer buf).2 (buf + 2 * bs.length) = 0 := by
  rw [mem2hexInto_layText]
  simp [layText]

theorem hexDigits_hexchars (data : List Byte) : ∀ c ∈ hexDigits data, c ∈ hexchars := by
  intro c mem
  simp only [hexDigits, List.mem_flatMap, List.mem_cons, List.not_mem_nil, or_false] at mem
  obtain ⟨b, _, here⟩ := mem
  have hb := b.isLt
  rcases here with rfl | rfl
  · rw [shiftRight_four]
    exact intToHexchar_hexchars ⟨b.toNat / 16, by omega⟩
  · exact intToHexchar_hexchars ⟨b.toNat % 16, by omega⟩

theorem digits_encode {text : List Byte} (even : 2 ∣ text.length) (digits : ∀ c ∈ text, IsHex c) :
    ∃ bs, HexOf text bs ∧ hexDigits bs = text.map lowerCase := by
  match text with
  | [] => exact ⟨[], trivial, rfl⟩
  | [c] =>
    simp only [List.length_singleton] at even
    omega
  | hi :: lo :: text =>
    have hexHi := digits hi (by simp)
    have hexLo := digits lo (by simp)
    obtain ⟨bs, encodes, lower⟩ :=
      @digits_encode text (by simp only [List.length_cons] at even; omega)
      fun c mem => digits c (by simp [mem])
    have high := isHex_range hi hexHi
    have low := isHex_range lo hexLo
    have value : (hexPair hi lo).toNat = 16 * (hexcharToInt hi).toNat +
        (hexcharToInt lo).toNat := by
      rw [hexPair_toNat hexHi hexLo]
      simp [hexNumber, appendDigit]
    have upper : ((hexPair hi lo).toNat / 16 : Nat) = hexcharToInt hi := by
      rw [value]
      omega
    have lower' : ((hexPair hi lo).toNat % 16 : Nat) = hexcharToInt lo := by
      rw [value]
      omega
    refine ⟨hexPair hi lo :: bs, ⟨upper.symm, lower'.symm, encodes⟩, ?_⟩
    have pair : hexDigits [hexPair hi lo] = [lowerCase hi, lowerCase lo] := by
      rw [← intToHexchar_lowerCase hi hexHi, ← intToHexchar_lowerCase lo hexLo, ← upper, ← lower',
        ← shiftRight_four]
      rfl
    have front : hexDigits (hexPair hi lo :: bs) = hexDigits [hexPair hi lo] ++ hexDigits bs := rfl
    rw [front, pair, lower]
    rfl

/- Addresses. -/

theorem foldl_hexDigits (data : List Byte) (v : Nat) :
    (hexDigits data).foldl appendDigit v = data.foldl (fun v b => 256 * v + b.toNat) v := by
  induction data generalizing v with
  | nil => rfl
  | cons b data ih =>
    obtain ⟨high, low, _⟩ := hexDigits_hexOf (b :: data)
    have value : appendDigit (appendDigit v (intToHexchar (b.toNat >>> 4 : Nat)))
        (intToHexchar (b.toNat % 16 : Nat)) =
        256 * v + b.toNat := by
      rw [appendDigit, appendDigit, high, low]
      omega
    rw [List.foldl_cons, ← ih, ← value]
    rfl

theorem wordBytes_bigEndian (w : Word) :
    wordBytes (archToBigEndian w) = (List.range 8).map fun k => byteOf w (7 - k) := by
  apply List.map_congr_left
  intro k mem
  exact byteOf_ofBytes _ (List.mem_range.mp mem)

theorem foldl_address (w : Word) (v : Nat) :
    BitVec.ofNat 64 ((hexDigits (wordBytes (archToBigEndian w))).foldl appendDigit v) = w := by
  have number : (hexDigits (wordBytes (archToBigEndian w))).foldl appendDigit v = 2 ^ 64 * v +
      digits (byteOf w) 8 := by
    rw [foldl_hexDigits, wordBytes_bigEndian]
    simp only [List.range, List.range.loop, List.map_cons, List.map_nil, List.foldl_cons,
      List.foldl_nil, digits,
      Nat.reduceSub]
    omega
  have pushed : BitVec.ofNat 64 (2 ^ 64 * v + digits (byteOf w) 8) =
      BitVec.ofNat 64 (digits (byteOf w) 8) := by
    apply BitVec.eq_of_toNat_eq
    rw [BitVec.toNat_ofNat, BitVec.toNat_ofNat, Nat.mul_add_mod]
  rw [number, pushed]
  exact ofBytes_byteOf w

theorem hexNumber_address (w : Word) :
    BitVec.ofNat 64 (hexNumber (hexDigits (wordBytes (archToBigEndian w)))) = w :=
  foldl_address w 0

/- The laws. -/

/-- What `mem2hex` writes: as many pairs of lower-case digits as there are bytes and a NUL, from
    which `hex2mem` reads the bytes, up to the NUL. -/
def WritesDigits (sign : CharSign) (bs : List Byte) (buffer : Nat → Byte) (buf : Nat) : Prop :=
  let (ptr, written) := mem2hexInto sign bs buffer buf
  let text := bufferText written buf (2 * bs.length)
  ptr = buf + 2 * bs.length ∧ written ptr = 0 ∧ (∀ c ∈ text, c ∈ hexchars) ∧
    ∀ rest, hex2memChars sign (text ++ rest) bs.length = .ok (bs, rest)

theorem writes_digits (sign : CharSign) (bs : List Byte) (buffer : Nat → Byte) (buf : Nat) :
    WritesDigits sign bs buffer buf := by
  have text := written_text sign bs buffer buf
  have ends := written_end sign bs buffer buf
  have ptr : (mem2hexInto sign bs buffer buf).1 = buf + 2 * bs.length := by rw [mem2hexInto_layText]
  refine ⟨ptr, (congrArg _ ptr).trans ends, ?_, ?_⟩
  · rw [text]
    exact hexDigits_hexchars bs
  · intro rest
    rw [text, hex2memChars_bytes]
    exact hex2mem_digits (hexDigits_hexOf bs) rest

/-- The codecs invert each other at every length, whatever the signedness of `char`: bytes through
    digits, digits in either case through bytes but for the case, and words through the digits of
    their bytes swapped, whatever the number was before. -/
theorem hex_codecs_invert (sign : CharSign) (buffer : Nat → Byte) (buf : Nat) :
    (∀ bs, WritesDigits sign bs buffer buf) ∧
    (∀ text : List Byte, 2 ∣ text.length → (∀ c ∈ text, IsHex c) → ∀ rest, ∃ bs,
      hex2memChars sign (text ++ rest) (text.length / 2) = .ok (bs, rest) ∧
        bufferText (mem2hexInto sign bs buffer buf).2 buf text.length = text.map lowerCase) ∧
    ∀ (a val : Word) (rest : List Byte),
      let written := (mem2hexInto sign (wordBytes (archToBigEndian a)) buffer buf).2
      hexstrToIntChars sign (bufferText written buf 16 ++ written (buf + 16) :: rest) 16 val =
        .ok (0 :: rest, a) := by
  refine ⟨fun bs => writes_digits sign bs buffer buf, fun text even digits rest => ?_,
    fun a val rest => ?_⟩
  · obtain ⟨bs, encodes, lower⟩ := digits_encode even digits
    have length := hexOf_length encodes
    refine ⟨bs, ?_, ?_⟩
    · rw [hex2memChars_bytes, length, Nat.mul_div_cancel_left _ (by decide)]
      exact hex2mem_digits encodes rest
    · rw [length, written_text, lower]
  · have eight : (wordBytes (archToBigEndian a)).length = 8 := by simp [wordBytes]
    intro written
    have text : bufferText written buf (2 * (wordBytes (archToBigEndian a)).length) =
        hexDigits (wordBytes (archToBigEndian a)) := written_text sign _ buffer buf
    have ends : written (buf + 2 * (wordBytes (archToBigEndian a)).length) = 0 :=
      written_end sign _ buffer buf
    rw [eight] at text ends
    have digits := hexDigits_isHex (wordBytes (archToBigEndian a))
    have short : (hexDigits (wordBytes (archToBigEndian a))).length ≤ 16 := by
      rw [hexDigits_length, eight]
    rw [text, ends, hexstrToIntChars_bytes, hexstrToInt_digits _ digits 0 not_isHex_zero rest 16
      short val, foldl_address]

/-- Digits in both cases. -/
theorem mixed_case_inverted :
    ∃ bs, hex2memChars .signed (str "fF" ++ []) ((str "fF").length / 2) = .ok (bs, []) ∧
    bufferText (mem2hexInto .signed bs (fun _ => 0) 0).2 0 (str "fF").length =
    (str "fF").map lowerCase :=
  (hex_codecs_invert .signed (fun _ => 0) 0).2.1 (str "fF") (by decide) (by decide) []

end Libgdb
