import Mathlib.Data.Nat.Digits.Lemmas
import Libgdb.FormattedTexts

/-!
What the integer directives print, read back. The conversion buffer holds 32 characters, which
cuts long binary numbers and drops the sign of a number that the zeros fill; the prefix of `#`
takes the place of the leading digits where the number fills its field.
-/
namespace Libgdb
open ByteMemory (Byte Word)

/- Reading. -/

def readDigit (base : Nat) (c : Byte) : Option Nat :=
  if 0 ≤ hexcharToInt c ∧ hexcharToInt c < base then some (hexcharToInt c).toNat else none

/-- The value of the digits in a text that begins with the last. -/
def bufValue (base : Nat) (buf : List Byte) : Nat :=
  Nat.ofDigits base (buf.filterMap (readDigit base))

def readNumber (base : Nat) (text : List Byte) : Nat := bufValue base text.reverse

def readInt (text : List Byte) : Int :=
  if text.contains (chr '-') then -(readNumber 10 text : Int) else readNumber 10 text

theorem readInt_minus (text : List Byte) : readInt text =
    if chr '-' ∈ text then -(readNumber 10 text : Int) else readNumber 10 text := by
  simp only [readInt, List.contains_iff_mem]

theorem bufValue_append (base : Nat) (first second : List Byte) :
    bufValue base (first ++ second) =
      bufValue base first + base ^ (first.filterMap (readDigit base)).length *
        bufValue base second := by
  rw [bufValue, List.filterMap_append, Nat.ofDigits_append]
  rfl

/-- What is no digit, or a zero, counts for nothing in front of a number. -/
theorem bufValue_append_zero {base : Nat} (buf : List Byte) {text : List Byte}
    (zero : bufValue base text = 0) :
    bufValue base (buf ++ text) = bufValue base buf := by
  rw [bufValue_append, zero, Nat.mul_zero, Nat.add_zero]

theorem bufValue_none {base : Nat} {text : List Byte} (none : ∀ c ∈ text, readDigit base c = none) :
    bufValue base text = 0 := by
  have empty : text.filterMap (readDigit base) = [] := List.filterMap_eq_nil_iff.mpr none
  rw [bufValue, empty]
  rfl

theorem bufValue_zeros {base : Nat} (valid : 2 ≤ base) (n : Nat) :
    bufValue base (List.replicate n (chr '0')) = 0 := by
  have digit : readDigit base (chr '0') = some 0 := if_pos ⟨by decide, by
    show (0 : Int) < base
    omega⟩
  have zeros : (List.replicate n (chr '0')).filterMap (readDigit base) = List.replicate n 0 := by
    rw [List.filterMap_replicate_of_some digit]
  rw [bufValue, zeros, Nat.ofDigits_replicate_zero]

theorem readDigit_ntoaDigit {base digit : Nat} (small : base ≤ 16) (lt : digit < base)
    (uppercase : Bool) :
    readDigit base (ntoaDigit uppercase digit) = some digit := by
  have read : ∀ d < 16, ∀ u, hexcharToInt (ntoaDigit u d) = d := by decide
  have value := read digit (by omega) uppercase
  rw [readDigit, value, if_pos ⟨by omega, by omega⟩]
  rfl

/- The digits. -/

theorem ntoaDigits_digits {base : Nat} (valid : 2 ≤ base) (uppercase : Bool)
    (room : Nat) {value : Nat} (positive : 0 < value) : ntoaDigits base uppercase room value =
      ((base.digits value).take room).map (ntoaDigit uppercase) := by
  induction room generalizing value with
  | zero => rfl
  | succ room ih =>
    rw [ntoaDigits, Nat.digits_def' valid positive, List.take_succ_cons, List.map_cons]
    by_cases last : value / base = 0
    · rw [if_neg (by simp [last]), last, Nat.digits_zero, List.take_nil, List.map_nil]
    · rw [if_pos last, ih (Nat.pos_of_ne_zero last)]

theorem numberDigits_value {base : Nat} (valid : 2 ≤ base) (small : base ≤ 16) (value : Nat)
    (flags : PrintfFlags) (places : Nat) :
    bufValue base ((numberDigits value base flags).take places) =
      value % base ^ min places 32 := by
  unfold numberDigits
  rcases Nat.eq_zero_or_pos value with rfl | positive
  · rw [Nat.zero_mod]
    cases flags.precision with
    | true => simp [bufValue]
    | false =>
      have one : ntoaDigits base flags.uppercase ntoaBufferSize 0 = List.replicate 1 (chr '0') := by
        rw [show ntoaBufferSize = 31 + 1 from rfl, ntoaDigits, Nat.zero_mod, Nat.zero_div,
          if_neg (by simp)]
        rfl
      rw [if_pos (by simp), one, List.take_replicate]
      exact bufValue_zeros valid _
  · rw [if_pos (by simp [Nat.ne_of_gt positive]), ntoaDigits_digits valid _ _ positive,
      ← List.map_take, List.take_take]
    have read : (((base.digits value).take (min places ntoaBufferSize)).map
        (ntoaDigit flags.uppercase)).filterMap
        (readDigit base) = (base.digits value).take (min places ntoaBufferSize) := by
      rw [List.filterMap_map]
      refine (List.filterMap_congr fun d mem => ?_).trans List.filterMap_some
      exact readDigit_ntoaDigit small (Nat.digits_lt_base valid (List.mem_of_mem_take mem)) _
    rw [bufValue, read, ← Nat.self_mod_pow_eq_ofDigits_take _ _ valid]
    rfl

def digitCount (value base : Nat) (flags : PrintfFlags) : Nat :=
  if value = 0 then if flags.precision then 0 else 1
  else min (base.digits value).length ntoaBufferSize

theorem numberDigits_length {base : Nat} (valid : 2 ≤ base) (value : Nat) (flags : PrintfFlags) :
    (numberDigits value base flags).length = digitCount value base flags := by
  unfold numberDigits digitCount
  rcases Nat.eq_zero_or_pos value with rfl | positive
  · cases flags.precision with
    | true => rfl
    | false =>
      rw [if_pos (by simp), show ntoaBufferSize = 31 + 1 from rfl, ntoaDigits, Nat.zero_div]
      rfl
  · rw [if_pos (by simp [Nat.ne_of_gt positive]), if_neg (Nat.ne_of_gt positive),
      ntoaDigits_digits valid _ _ positive,
      List.length_map, List.length_take, Nat.min_comm]

theorem digitCount_le (value base : Nat) (flags : PrintfFlags) :
    digitCount value base flags ≤ 32 := by
  have size : ntoaBufferSize = 32 := rfl
  unfold digitCount
  split_ifs <;> omega

/- Zeros, prefix and sign. -/

def paddedLength (count prec width : Nat) (flags : PrintfFlags) : Nat :=
  if flags.left then count
  else max count (min (max prec (if flags.zeropad then width else 0)) ntoaBufferSize)

theorem ntoaPad_zeros (buf : List Byte) (prec width : Nat) (flags : PrintfFlags) :
    ∃ zeros, ntoaPad buf prec width flags = buf ++ List.replicate zeros (chr '0') ∧
      buf.length + zeros = paddedLength buf.length prec width flags := by
  unfold ntoaPad paddedLength
  cases flags.left with
  | true => exact ⟨0, (List.append_nil _).symm, rfl⟩
  | false =>
    cases flags.zeropad with
    | false =>
      refine ⟨_, rfl, ?_⟩
      simp only [Bool.false_eq_true, if_false]
      omega
    | true =>
      refine ⟨(min prec ntoaBufferSize - buf.length) +
        (min width ntoaBufferSize - max buf.length (min prec ntoaBufferSize)),
        ?_, ?_⟩
      · have first : buf.length + (min prec ntoaBufferSize - buf.length) =
            max buf.length (min prec ntoaBufferSize) := by
          omega
        simp only [Bool.false_eq_true, if_false, if_true, ntoaZeros]
        rw [List.length_append, List.length_replicate, first, List.append_assoc,
          List.replicate_append_replicate]
      · simp only [Bool.false_eq_true, if_false, if_true]
        omega

def shortenedLength (count base prec width : Nat) (flags : PrintfFlags) : Nat :=
  if !flags.precision && (count ≠ 0 && (count = prec || count = width)) then
    if base = 16 ∧ count ≠ 1 then count - 2 else count - 1
  else count

theorem ntoaShorten_take (buf : List Byte) (base prec width : Nat) (flags : PrintfFlags) :
    ntoaShorten buf base prec width flags = buf.take
    (shortenedLength buf.length base prec width flags) := by
  unfold ntoaShorten shortenedLength
  by_cases fills : (!flags.precision && (buf.length ≠ 0 && (buf.length = prec || buf.length =
    width))) = true
  · rw [if_pos fills, if_pos fills]
    have nonempty : buf.length ≠ 0 := by
      simp only [Bool.and_eq_true, decide_eq_true_eq] at fills
      exact fills.2.1
    have second : (buf.dropLast.length ≠ 0 && base = 16) = true ↔ base = 16 ∧ buf.length ≠ 1 := by
      rw [List.length_dropLast, Bool.and_eq_true, decide_eq_true_eq, decide_eq_true_eq]
      omega
    dsimp only
    by_cases sixteen : base = 16 ∧ buf.length ≠ 1
    · rw [if_pos (second.mpr sixteen), if_pos sixteen, List.dropLast_eq_take, List.dropLast_eq_take,
        List.length_take,
        List.take_take]
      congr 1
      omega
    · rw [if_neg (fun both => sixteen (second.mp both)), if_neg sixteen, List.dropLast_eq_take]
  · rw [if_neg fills, if_neg fills, List.take_length]

theorem bufValue_put {base : Nat} (buf : List Byte) {c : Byte} (zero : bufValue base [c] = 0) :
    bufValue base (ntoaPut buf c) = bufValue base buf := by
  unfold ntoaPut
  split
  · exact bufValue_append_zero buf zero
  · rfl

theorem bufValue_mark {base : Nat} {c : Byte} (mark : hexcharToInt c = -1) :
    bufValue base [c] = 0 := by
  refine bufValue_none fun d mem => ?_
  rw [List.mem_singleton.mp mem, readDigit, mark]
  rfl

theorem bufValue_sign (base : Nat) (buf : List Byte) (negative : Bool) (flags : PrintfFlags) :
    bufValue base (ntoaSign buf negative flags) = bufValue base buf := by
  unfold ntoaSign
  split_ifs
  · exact bufValue_put buf (bufValue_mark (by decide))
  · exact bufValue_put buf (bufValue_mark (by decide))
  · exact bufValue_put buf (bufValue_mark (by decide))
  · rfl

theorem bufValue_hash {base : Nat} (valid : 2 ≤ base) (buf : List Byte) (prec width : Nat)
    {flags : PrintfFlags} (hash : flags.hash = true) :
    bufValue base (ntoaHash buf base prec width flags) = bufValue base
    (ntoaShorten buf base prec width flags) := by
  have zero : bufValue base [chr '0'] = 0 := bufValue_zeros valid 1
  unfold ntoaHash
  rw [if_pos hash, bufValue_put _ zero]
  split_ifs with lower upper binary
  · exact bufValue_put _ (bufValue_mark (by decide))
  · exact bufValue_put _ (bufValue_mark (by decide))
  · refine bufValue_put _ (bufValue_none fun c mem => ?_)
    rw [List.mem_singleton.mp mem, binary]
    decide
  · rfl

theorem readNumber_revText (base : Nat) (buf : List Byte) (width : Nat) (flags : PrintfFlags) :
    readNumber base (revText buf width flags) = bufValue base buf := by
  have spaces (n : Nat) : (List.replicate n (chr ' ')).filterMap (readDigit base) = [] := by
    refine List.filterMap_eq_nil_iff.mpr fun c mem => ?_
    have mark : hexcharToInt (chr ' ') = -1 := by decide
    rw [(List.mem_replicate.mp mem).2, readDigit, mark]
    rfl
  unfold readNumber revText padded
  split_ifs with zeros left
  · rw [List.reverse_reverse]
  · rw [List.reverse_append, List.reverse_reverse, List.reverse_replicate, bufValue_append, spaces]
    simp [bufValue, spaces]
  · rw [List.reverse_append, List.reverse_reverse, List.reverse_replicate, bufValue_append,
      bufValue, bufValue, spaces]
    simp

/- Reading a number back. -/

def placesShown (value : Nat) (negative : Bool) (base prec width : Nat) (flags : PrintfFlags) :
    Nat :=
  let width := ntoaWidth negative width flags
  let length := paddedLength (digitCount value base flags) prec width flags
  min ntoaBufferSize (if flags.hash then shortenedLength length base prec width flags else length)

theorem numberBuf_value {base : Nat} (valid : 2 ≤ base) (small : base ≤ 16) (value : Nat)
    (negative : Bool) (prec width : Nat) (flags : PrintfFlags) :
    bufValue base (numberBuf value negative base prec width flags) =
      value % base ^ placesShown value negative base prec width flags := by
  have limit (places : Nat) : min ntoaBufferSize places = min places 32 := Nat.min_comm _ _
  unfold numberBuf placesShown
  dsimp only
  rw [bufValue_sign, limit]
  obtain ⟨zeros, pad, length⟩ :=
    ntoaPad_zeros (numberDigits value base flags) prec (ntoaWidth negative width flags) flags
  have taken (places : Nat) :
      bufValue base ((ntoaPad (numberDigits value base flags) prec (ntoaWidth negative width flags)
      flags).take places) = value % base ^ min places 32 := by
    rw [pad, List.take_append, List.take_replicate, bufValue_append_zero _ (bufValue_zeros valid _),
      numberDigits_value valid small]
  have padLength := congrArg List.length pad
  rw [List.length_append, List.length_replicate, length, numberDigits_length valid] at padLength
  cases hash : flags.hash with
  | true => rw [bufValue_hash valid _ _ _ hash, ntoaShorten_take, taken, padLength, if_pos rfl]
  | false =>
    rw [if_neg (by decide), ← taken, ← padLength, List.take_length, ntoaHash,
      if_neg (by rw [hash]; decide)]

/-- Read back, a number is its value modulo a power of the base: as many places are shown as the
    conversion buffer has room for, less those that gave way to the prefix. -/
theorem number_reads_back {base : Nat} (valid : 2 ≤ base) (small : base ≤ 16) (value : Nat)
    (negative : Bool) (prec width : Nat) (flags : PrintfFlags) :
    readNumber base (ntoaText value negative base prec width flags) =
      value % base ^ placesShown value negative base prec width flags := by
  unfold ntoaText
  rw [readNumber_revText, numberBuf_value valid small]
  by_cases zero : value = 0
  · rw [zero, Nat.zero_mod, Nat.zero_mod]
  · rw [if_neg zero]

/- Numbers that lose nothing. -/

/-- The prefix takes the place of a leading digit. -/
def Crowded (value : Nat) (negative : Bool) (base prec width : Nat) (flags : PrintfFlags) : Prop :=
  let width := ntoaWidth negative width flags
  let length := paddedLength (digitCount value base flags) prec width flags
  flags.hash ∧ !flags.precision ∧ (length = prec ∨ length = width) ∧
    length < digitCount value base flags + if base = 16 then 2 else 1

theorem paddedLength_bounds {count : Nat} (le : count ≤ 32) (prec width : Nat)
    (flags : PrintfFlags) :
    count ≤ paddedLength count prec width flags ∧ paddedLength count prec width flags ≤ 32 := by
  have size : ntoaBufferSize = 32 := rfl
  unfold paddedLength
  split <;> omega

theorem placesShown_whole {base : Nat} (valid : 2 ≤ base) {value : Nat} (positive : 0 < value)
    (negative : Bool) (prec width : Nat) (flags : PrintfFlags) :
    value < base ^ placesShown value negative base prec width flags ↔
      value < base ^ 32 ∧ ¬ Crowded value negative base prec width flags := by
  have size : ntoaBufferSize = 32 := rfl
  have count : digitCount value base flags = min (base.digits value).length 32 :=
    if_neg (Nat.ne_of_gt positive)
  have some : 0 < (base.digits value).length :=
    List.length_pos_iff.mpr (Nat.digits_ne_nil_iff_ne_zero.mpr (by omega))
  obtain ⟨low, high⟩ := paddedLength_bounds (digitCount_le value base flags) prec
      (ntoaWidth negative width flags) flags
  rw [← Nat.digits_length_le_iff valid, ← Nat.digits_length_le_iff valid]
  unfold placesShown Crowded shortenedLength
  dsimp only
  generalize paddedLength (digitCount value base flags) prec (ntoaWidth negative width flags)
    flags = m at low high ⊢
  generalize ntoaWidth negative width flags = width'
  rw [count] at low ⊢
  cases flags.hash with
  | false =>
    simp only [Bool.false_eq_true, if_false, false_and, not_false_eq_true, and_true]
    omega
  | true =>
    cases flags.precision with
    | true =>
      simp only [Bool.not_true, Bool.false_and, Bool.false_eq_true, if_false, if_true, false_and,
        and_false, not_false_eq_true,
        and_true]
      omega
    | false =>
      simp only [Bool.not_false, Bool.true_and, Bool.and_eq_true, Bool.or_eq_true,
        decide_eq_true_eq, if_true, true_and]
      split_ifs <;> omega

theorem baseOf_cases (specifier : Byte) :
    baseOf specifier = 2 ∨ 8 ≤ baseOf specifier ∧ baseOf specifier ≤ 16 := by
  unfold baseOf
  split_ifs <;> simp

theorem unsignedValue_lt (flags : PrintfFlags) (a : Word) : unsignedValue flags a < 2 ^ 64 := by
  have wide := a.isLt
  have byte := (a.setWidth 8).isLt
  have half := (a.setWidth 16).isLt
  have int := (a.setWidth 32).isLt
  unfold unsignedValue
  split_ifs <;> omega

/-- What an unsigned directive prints reads back as the argument exactly when it is no binary number
    of more than 32 digits and does not fill its field behind a prefix. -/
theorem unsigned_reads_back_iff (d : Directive) {specifier : Byte}
    (unsigned : isSigned specifier = false) (a : PrintfArg) :
    ∃ text, integerText d specifier a = .ok text ∧
      (readNumber (baseOf specifier) text = unsignedValue (integerFlags d.flags specifier) a.word ↔
        unsignedValue (integerFlags d.flags specifier) a.word = 0 ∨
          (baseOf specifier = 2 → unsignedValue (integerFlags d.flags specifier) a.word < 2 ^ 32) ∧
            ¬ Crowded (unsignedValue (integerFlags d.flags specifier) a.word) false
              (baseOf specifier) d.precision
              d.width (integerFlags d.flags specifier)) := by
  have returns : integerText d specifier a =
      .ok (ntoaText (unsignedValue (integerFlags d.flags specifier) a.word) false
      (baseOf specifier) d.precision d.width (integerFlags d.flags specifier)) :=
    if_neg (by rw [unsigned]; decide)
  refine ⟨_, returns, ?_⟩
  have base := baseOf_cases specifier
  have valid : 2 ≤ baseOf specifier := by omega
  have positive : 0 < baseOf specifier := by omega
  have lt := unsignedValue_lt (integerFlags d.flags specifier) a.word
  rw [number_reads_back valid (by omega)]
  generalize unsignedValue (integerFlags d.flags specifier) a.word = value at lt ⊢
  rw [Nat.mod_eq_iff_lt (Nat.ne_of_gt (Nat.pow_pos positive))]
  rcases Nat.eq_zero_or_pos value with rfl | some
  · exact iff_of_true (Nat.pow_pos positive) (Or.inl rfl)
  · have short : value < baseOf specifier ^ 32 ↔ (baseOf specifier = 2 → value < 2 ^ 32) := by
      rcases base with two | ⟨eight, _⟩
      · rw [two]
        exact ⟨fun lt _ => lt, fun lt => lt rfl⟩
      · have large : 8 ^ 32 ≤ baseOf specifier ^ 32 := Nat.pow_le_pow_left eight 32
        exact iff_of_true (by omega) (fun two => by omega)
    rw [placesShown_whole valid some, short]
    exact ⟨Or.inr, fun either => either.resolve_left (Nat.ne_of_gt some)⟩

/-- `%#4x` of 0x1234. -/
theorem crowded_not_read_back :
    integerText ⟨{ hash := true }, 4, 0⟩ (chr 'x') ⟨0x1234, []⟩ = .ok (str "0x34") ∧
    readNumber 16 (str "0x34") ≠ 0x1234 := by
  have shown : integerText ⟨{ hash := true }, 4, 0⟩ (chr 'x') ⟨0x1234, []⟩ = .ok (str "0x34") := by
    decide
  refine ⟨shown, fun read => ?_⟩
  obtain ⟨text, shown', same⟩ :=
    @unsigned_reads_back_iff ⟨{ hash := true }, 4, 0⟩ (chr 'x') (by decide) ⟨0x1234, []⟩
  cases shown.symm.trans shown'
  have crowded : Crowded 0x1234 false 16 0 4 { hash := true } := by
    unfold Crowded
    decide
  exact (same.mp read).elim (by decide) fun room => room.2 crowded

/- Signs. -/

theorem put_mem (buf : List Byte) (c mark : Byte) :
    mark ∈ ntoaPut buf c ↔ mark ∈ buf ∨ mark = c ∧ buf.length < 32 := by
  unfold ntoaPut
  have size : ntoaBufferSize = 32 := rfl
  rw [size]
  split <;> simp_all

def signedArg (flags : PrintfFlags) (a : Word) : Int :=
  if flags.longLong || flags.long then a.toInt
  else if flags.char then (a.setWidth 8).toNat
  else if flags.short then (a.setWidth 16).toInt
  else (a.setWidth 32).toInt

/-- The least argument, whose negation overflows. -/
def leastArg (flags : PrintfFlags) : Int :=
  if flags.longLong || flags.long then -2 ^ 63 else -2 ^ 31

theorem magnitude_eq {n : Nat} (positive : 0 < n) (value : BitVec n) :
    (if 0 < value.toInt then .ok (false, value.toNat)
      else (negated value).map fun magnitude => (decide (value.toInt < 0), magnitude)) =
      if value.toInt = -2 ^ (n - 1) then .error Fault.intOverflow
      else .ok (decide (value.toInt < 0), value.toInt.natAbs) := by
  have cond := BitVec.toInt_eq_toNat_cond value
  have lt := value.isLt
  have half : (0 : Int) < 2 ^ (n - 1) := by positivity
  by_cases above : 0 < value.toInt
  · rw [if_pos above, if_neg (by omega), decide_eq_false (by omega)]
    refine congrArg (fun m => Except.ok (false, m)) ?_
    split at cond <;> omega
  · rw [if_neg above]
    have least : value = BitVec.intMin n ↔ value.toInt = -2 ^ (n - 1) := by
      rw [← BitVec.toInt_inj, BitVec.toInt_intMin_of_pos positive]
    unfold negated
    by_cases overflow : value.toInt = -2 ^ (n - 1)
    · rw [if_pos overflow, if_pos (least.mpr overflow)]
      rfl
    · rw [if_neg overflow, if_neg (fun same => overflow (least.mp same))]
      refine congrArg (fun m => Except.ok (decide (value.toInt < 0), m)) ?_
      rw [BitVec.toNat_neg]
      rcases Nat.eq_zero_or_pos value.toNat with zero | some
      · rw [zero, Nat.sub_zero, Nat.mod_self]
        split at cond <;> omega
      · rw [Nat.mod_eq_of_lt (by omega)]
        split at cond <;> omega

theorem signedValue_eq (flags : PrintfFlags) (a : Word) : signedValue flags a =
    if signedArg flags a = leastArg flags then .error .intOverflow
    else .ok (signedArg flags a < 0, (signedArg flags a).natAbs) := by
  unfold signedValue signedArg leastArg
  by_cases long : (flags.longLong || flags.long) = true
  · rw [if_pos long, if_pos long, if_pos long]
    exact magnitude_eq (by decide) a
  · rw [if_neg long, if_neg long, if_neg long]
    have same : (if flags.char then (a.setWidth 8).setWidth 32
        else if flags.short then (a.setWidth 16).signExtend 32 else a.setWidth 32 :
          BitVec 32).toInt =
        if flags.char then ((a.setWidth 8).toNat : Int)
        else if flags.short then (a.setWidth 16).toInt else (a.setWidth 32).toInt := by
      cases flags.char with
      | true =>
        have lt := (a.setWidth 8).isLt
        have wide : ((a.setWidth 8).setWidth 32).toNat = (a.setWidth 8).toNat :=
          BitVec.toNat_setWidth_of_le (by decide)
        rw [if_pos rfl, if_pos rfl, BitVec.toInt_eq_toNat_of_lt (by omega), wide]
      | false =>
        cases flags.short with
        | true => exact BitVec.toInt_signExtend_of_le (by decide)
        | false => rfl
    dsimp only
    rw [magnitude_eq (by decide), same]

theorem ntoaDigits_digit {base : Nat} (valid : 2 ≤ base) (uppercase : Bool) (room value : Nat) :
    ∀ c ∈ ntoaDigits base uppercase room value, ∃ digit < base, c = ntoaDigit uppercase digit := by
  induction room generalizing value with
  | zero => exact fun c mem => by cases mem
  | succ room ih =>
    intro c mem
    rw [ntoaDigits] at mem
    rcases List.mem_cons.mp mem with first | rest
    · exact ⟨value % base, Nat.mod_lt _ (by omega), first⟩
    · split at rest
      · exact ih _ c rest
      · cases rest

theorem minus_shown {base : Nat} (valid : 2 ≤ base) (small : base ≤ 16) (value : Nat)
    (negative : Bool) (prec width : Nat) {flags : PrintfFlags} (hash : flags.hash = false) :
    chr '-' ∈ ntoaText value negative base prec width flags ↔
      negative = true ∧ paddedLength (digitCount value base flags) prec
        (ntoaWidth negative width flags) flags < 32 := by
  have same : (if value = 0 then { flags with hash := false } else flags) = flags := by
    rw [← hash]
    exact ite_self _
  have spaces (n : Nat) : chr '-' ∉ List.replicate n (chr ' ') := fun mem => by
    have bad := (List.mem_replicate.mp mem).2
    revert bad
    decide
  have reversed (buf : List Byte) (width : Nat) : chr '-' ∈ revText buf width flags ↔
      chr '-' ∈ buf := by
    unfold revText padded
    split_ifs <;> simp [spaces]
  obtain ⟨zeros, pad, length⟩ :=
    ntoaPad_zeros (numberDigits value base flags) prec (ntoaWidth negative width flags) flags
  rw [numberDigits_length valid] at length
  have digits : chr '-' ∉ ntoaPad (numberDigits value base flags) prec
      (ntoaWidth negative width flags) flags := by
    rw [pad, List.mem_append, not_or]
    constructor
    · intro mem
      unfold numberDigits at mem
      split at mem
      · obtain ⟨digit, lt, same⟩ := ntoaDigits_digit valid _ _ _ _ mem
        have other : ∀ d < 16, ∀ u, chr '-' ≠ ntoaDigit u d := by decide
        exact other digit (by omega) _ same
      · cases mem
    · intro mem
      have bad := (List.mem_replicate.mp mem).2
      revert bad
      decide
  have padLength := congrArg List.length pad
  rw [List.length_append, List.length_replicate, numberDigits_length valid, length] at padLength
  have plus : chr '-' ≠ chr '+' := by decide
  have space : chr '-' ≠ chr ' ' := by decide
  unfold ntoaText
  rw [same, reversed]
  unfold numberBuf ntoaHash
  dsimp only
  rw [if_neg (by rw [hash]; decide), ntoaSign]
  cases negative with
  | true =>
    rw [if_pos rfl, put_mem, padLength]
    exact ⟨fun either => ⟨rfl, (either.resolve_left digits).2⟩, fun room => Or.inr ⟨rfl, room.2⟩⟩
  | false =>
    refine iff_of_false ?_ (fun bad => by cases bad.1)
    rw [if_neg (by decide)]
    split_ifs
    · rw [put_mem]
      exact fun either => either.elim digits fun here => plus here.1
    · rw [put_mem]
      exact fun either => either.elim digits fun here => space here.1
    · exact digits

theorem integerFlags_signed (flags : PrintfFlags) {specifier : Byte}
    (signed : isSigned specifier = true) :
    baseOf specifier = 10 ∧ integerFlags flags specifier =
      { flags with hash := false, zeropad := flags.zeropad && !flags.precision } := by
  have either : specifier = chr 'i' ∨ specifier = chr 'd' := by simpa [isSigned] using signed
  obtain ⟨zeropad, left, plus, space, hash, uppercase, char, short, long, longLong, precision,
      adaptExp⟩ := flags
  rcases either with rfl | rfl
  · cases precision with
    | true => cases zeropad <;> exact ⟨rfl, rfl⟩
    | false => cases zeropad <;> exact ⟨rfl, rfl⟩
  · cases precision with
    | true => cases zeropad <;> exact ⟨rfl, rfl⟩
    | false => cases zeropad <;> exact ⟨rfl, rfl⟩

theorem signed_text_iff {value : Int} (small : value.natAbs < 10 ^ 20) (prec width : Nat)
    {flags : PrintfFlags} (hash : flags.hash = false) :
    readInt (ntoaText value.natAbs (value < 0) 10 prec width flags) = value ↔
      0 ≤ value ∨ flags.left = true ∨ prec < 32 ∧ (flags.zeropad = true → width ≤ 32) := by
  have number : readNumber 10 (ntoaText value.natAbs (value < 0) 10 prec width flags) =
      value.natAbs := by
    rw [number_reads_back (by decide) (by decide)]
    rcases Nat.eq_zero_or_pos value.natAbs with zero | positive
    · rw [zero, Nat.zero_mod]
    · refine Nat.mod_eq_of_lt ((placesShown_whole (by decide) positive _ _ _ _).mpr
        ⟨by omega, fun crowded => ?_⟩)
      have bad := crowded.1
      rw [hash] at bad
      cases bad
  have minus := @minus_shown 10 (by decide)
      (by decide) value.natAbs (value < 0) prec width flags hash
  by_cases negative : value < 0
  · have room : paddedLength (digitCount value.natAbs 10 flags) prec
        (ntoaWidth (value < 0) width flags) flags < 32 ↔
        flags.left = true ∨ prec < 32 ∧ (flags.zeropad = true → width ≤ 32) := by
      have size : ntoaBufferSize = 32 := rfl
      have count : digitCount value.natAbs 10 flags ≤ 20 := by
        have digits := (Nat.digits_length_le_iff (by decide) value.natAbs).mpr small
        unfold digitCount
        split_ifs <;> omega
      unfold paddedLength ntoaWidth
      rw [decide_eq_true negative]
      cases flags.left with
      | true => exact iff_of_true (by rw [if_pos rfl]; omega) (Or.inl rfl)
      | false =>
        cases flags.zeropad with
        | false => simp only [Bool.false_eq_true, if_false, false_or, false_imp_iff,
          and_true]; omega
        | true =>
          simp only [Bool.false_eq_true, if_false, if_true, false_or, Bool.not_false,
            Bool.true_and, Bool.true_or,
            Bool.and_true, decide_eq_true_eq, forall_const]
          split <;> omega
    rw [← room, readInt_minus, number]
    by_cases shown : paddedLength (digitCount value.natAbs 10 flags) prec
      (ntoaWidth (value < 0) width flags) flags < 32
    · rw [if_pos (minus.mpr ⟨decide_eq_true negative, shown⟩)]
      exact iff_of_true (by omega) (Or.inr shown)
    · rw [if_neg (fun mem => shown (minus.mp mem).2)]
      exact iff_of_false (by omega) (fun either => either.elim (by omega) shown)
  · rw [readInt_minus, number, if_neg (fun mem => negative (of_decide_eq_true (minus.mp mem).1))]
    exact iff_of_true (by omega) (Or.inl (by omega))

theorem signedArg_small (flags : PrintfFlags) (a : Word) :
    (signedArg flags a).natAbs < 10 ^ 20 := by
  have long := BitVec.toInt_lt (x := a)
  have long' := BitVec.le_toInt a
  have int := BitVec.toInt_lt (x := a.setWidth 32)
  have int' := BitVec.le_toInt (a.setWidth 32)
  have half := BitVec.toInt_lt (x := a.setWidth 16)
  have half' := BitVec.le_toInt (a.setWidth 16)
  have byte := (a.setWidth 8).isLt
  unfold signedArg
  split_ifs <;> omega

/-- What a signed directive prints reads back as the argument exactly when it is not negative or
    the zeros leave room for its sign; the least argument overflows. -/
theorem signed_reads_back_iff (d : Directive) {specifier : Byte}
    (signed : isSigned specifier = true) (a : PrintfArg) :
    (integerText d specifier a = .error .intOverflow ↔ signedArg d.flags a.word =
      leastArg d.flags) ∧
      ∀ text, integerText d specifier a = .ok text → (readInt text = signedArg d.flags a.word ↔
        0 ≤ signedArg d.flags a.word ∨ d.flags.left = true ∨
          d.precision < 32 ∧ (d.flags.zeropad = true → d.flags.precision = false →
            d.width ≤ 32)) := by
  obtain ⟨base, flags⟩ := integerFlags_signed d.flags signed
  have printed : integerText d specifier a =
      (signedValue (integerFlags d.flags specifier) a.word).map fun value =>
      ntoaText value.2 value.1 (baseOf specifier) d.precision d.width
        (integerFlags d.flags specifier) := if_pos signed
  have arg : signedArg (integerFlags d.flags specifier) a.word = signedArg d.flags a.word := by
    rw [flags]; rfl
  have least : leastArg (integerFlags d.flags specifier) = leastArg d.flags := by rw [flags]; rfl
  rw [printed, signedValue_eq, arg, least, base]
  by_cases overflow : signedArg d.flags a.word = leastArg d.flags
  · rw [if_pos overflow]
    exact ⟨iff_of_true rfl overflow, fun text bad => by cases bad⟩
  · rw [if_neg overflow]
    refine ⟨iff_of_false (fun bad => by cases bad) overflow, fun text returns => ?_⟩
    cases returns
    refine (signed_text_iff (signedArg_small d.flags a.word) d.precision d.width
      (by rw [flags])).trans ?_
    rw [flags]
    simp only [Bool.and_eq_true, Bool.not_eq_true', and_imp]

/-- `%033d` of -5 and `%d` of the least int. -/
theorem minus_not_read_back :
    integerText ⟨{ zeropad := true }, 33, 0⟩ (chr 'd') ⟨-5, []⟩ =
    .ok (List.replicate 31 (chr '0') ++ [chr '5']) ∧
      readInt (List.replicate 31 (chr '0') ++ [chr '5']) ≠ -5 ∧
      integerText ⟨{}, 0, 0⟩ (chr 'd') ⟨0x80000000, []⟩ = .error .intOverflow := by
  have shown : integerText ⟨{ zeropad := true }, 33, 0⟩ (chr 'd') ⟨-5, []⟩ =
      .ok (List.replicate 31 (chr '0') ++ [chr '5']) := by decide
  have same := (@signed_reads_back_iff ⟨{ zeropad := true }, 33, 0⟩ (chr 'd')
      (by decide) ⟨-5, []⟩).2 _ shown
  refine ⟨shown, fun read => absurd (same.mp read) (by decide), ?_⟩
  exact (@signed_reads_back_iff ⟨{}, 0, 0⟩ (chr 'd') (by decide) ⟨0x80000000, []⟩).1.mpr (by decide)

/- Fields. -/

theorem put_length {buf : List Byte} (le : buf.length ≤ 32) (c : Byte) :
    (ntoaPut buf c).length = min (buf.length + 1) 32 := by
  unfold ntoaPut
  rw [show ntoaBufferSize = 32 from rfl]
  split
  · rw [List.length_append, List.length_singleton]
    omega
  · omega

theorem hash_length {buf : List Byte} (le : buf.length ≤ 32) (base prec width : Nat)
    (flags : PrintfFlags) :
    buf.length ≤ (ntoaHash buf base prec width flags).length ∧
    (ntoaHash buf base prec width flags).length ≤ 32 := by
  unfold ntoaHash
  cases hash : flags.hash with
  | false => exact ⟨Nat.le_refl _, le⟩
  | true =>
    have shortened := congrArg List.length (ntoaShorten_take buf base prec width flags)
    rw [List.length_take] at shortened
    have lost : buf.length ≤ (ntoaShorten buf base prec width flags).length +
        if base = 16 then 2 else 1 := by
      rw [shortened]
      unfold shortenedLength
      split_ifs <;> omega
    have short : (ntoaShorten buf base prec width flags).length ≤ 32 := by omega
    generalize ntoaShorten buf base prec width flags = s at lost short
    rw [if_pos rfl]
    dsimp only
    split_ifs with lower upper binary
    · have marked := put_length short (chr 'x')
      rw [put_length (by omega)]
      rw [if_pos lower.1] at lost
      omega
    · have marked := put_length short (chr 'X')
      rw [put_length (by omega)]
      rw [if_pos upper.1] at lost
      omega
    · have marked := put_length short (chr 'b')
      rw [put_length (by omega)]
      rw [if_neg (by omega)] at lost
      omega
    · have other : base ≠ 16 := by
        intro sixteen
        cases uppercase : flags.uppercase with
        | true => exact upper ⟨sixteen, uppercase⟩
        | false => exact lower ⟨sixteen, by rw [uppercase]; rfl⟩
      rw [put_length short]
      rw [if_neg other] at lost
      omega

theorem numberBuf_length {base : Nat} (valid : 2 ≤ base) (value : Nat) (negative : Bool)
    (prec width : Nat)
    (flags : PrintfFlags) : (numberBuf value negative base prec width flags).length ≤ 32 ∧
      (flags.left = false → flags.zeropad = true → width ≤ 32 →
        width ≤ (numberBuf value negative base prec width flags).length) := by
  obtain ⟨zeros, pad, length⟩ :=
    ntoaPad_zeros (numberDigits value base flags) prec (ntoaWidth negative width flags) flags
  rw [numberDigits_length valid] at length
  have padLength := congrArg List.length pad
  rw [List.length_append, List.length_replicate, numberDigits_length valid, length] at padLength
  obtain ⟨_, high⟩ := paddedLength_bounds (digitCount_le value base flags) prec
      (ntoaWidth negative width flags) flags
  obtain ⟨more, room⟩ := @hash_length (ntoaPad (numberDigits value base flags) prec
      (ntoaWidth negative width flags)
    flags) (by omega) base prec (ntoaWidth negative width flags) flags
  unfold numberBuf
  dsimp only
  generalize ntoaHash _ base prec (ntoaWidth negative width flags) flags = buf at more room ⊢
  have signed : (ntoaSign buf negative flags).length =
      if negative || (flags.plus || flags.space) then min (buf.length + 1) 32 else buf.length := by
    unfold ntoaSign
    cases negative with
    | true => exact put_length room _
    | false =>
      cases flags.plus with
      | true => exact put_length room _
      | false =>
        cases flags.space with
        | true => exact put_length room _
        | false => rfl
  rw [signed]
  constructor
  · split <;> omega
  · intro left zeropad fits
    have narrower : ntoaWidth negative width flags =
        if negative || (flags.plus || flags.space) then width - 1 else width := by
      unfold ntoaWidth
      rw [left, zeropad]
      cases width with
      | zero => simp
      | succ width => simp
    have filled : ntoaWidth negative width flags ≤ paddedLength (digitCount value base flags) prec
        (ntoaWidth negative width flags) flags := by
      have small : ntoaWidth negative width flags ≤ 32 := by
        rw [narrower]
        split <;> omega
      unfold paddedLength
      rw [left, zeropad, if_neg (by decide), if_pos rfl, show ntoaBufferSize = 32 from rfl]
      omega
    rw [← padLength] at filled
    have reach := filled.trans more
    rw [narrower] at reach
    split at reach
    · rename_i sign
      rw [if_pos sign]
      omega
    · rename_i none
      rw [if_neg none]
      omega

theorem ntoaText_width_iff {base : Nat} (valid : 2 ≤ base) (value : Nat) (negative : Bool)
    (prec width : Nat)
    (flags : PrintfFlags) : width ≤ (ntoaText value negative base prec width flags).length ↔
      flags.left = true ∨ flags.zeropad = false ∨ width ≤ 32 := by
  have counted (flags' : PrintfFlags) (left : flags'.left = flags.left)
      (zeropad : flags'.zeropad = flags.zeropad) :
      width ≤ (revText (numberBuf value negative base prec width flags')
        (ntoaWidth negative width flags') flags').length ↔
        flags.left = true ∨ flags.zeropad = false ∨ width ≤ 32 := by
    obtain ⟨room, filled⟩ := numberBuf_length valid value negative prec width flags'
    rw [left, zeropad] at filled
    unfold revText padded ntoaWidth
    rw [left, zeropad]
    cases isLeft : flags.left with
    | true =>
      refine iff_of_true ?_ (Or.inl rfl)
      simp
      omega
    | false =>
      cases isZeropad : flags.zeropad with
      | false =>
        refine iff_of_true ?_ (Or.inr (Or.inl rfl))
        simp
        omega
      | true =>
        have fits := filled isLeft isZeropad
        simp
        omega
  unfold ntoaText
  dsimp only
  split
  · exact counted _ rfl rfl
  · exact counted _ rfl rfl

/-- An integer directive fills its field exactly when the field is not wider than the conversion
    buffer or is filled with spaces. -/
theorem field_filled_iff (d : Directive) (specifier : Byte) (a : PrintfArg) {text : List Byte}
    (returns : integerText d specifier a = .ok text) : d.width ≤ text.length ↔
      d.flags.left = true ∨ d.flags.zeropad = false ∨ d.flags.precision = true ∨ d.width ≤ 32 := by
  have valid : 2 ≤ baseOf specifier := by
    have base := baseOf_cases specifier
    omega
  have flags : (integerFlags d.flags specifier).left = d.flags.left ∧
      (integerFlags d.flags specifier).zeropad = (d.flags.zeropad && !d.flags.precision) := by
    obtain ⟨zeropad, left, plus, space, hash, uppercase, char, short, long, longLong, precision,
        adaptExp⟩ := d.flags
    unfold integerFlags
    cases precision with
    | true => split_ifs <;> simp
    | false => split_ifs <;> simp
  have filled (value : Nat) (negative : Bool) :
      d.width ≤ (ntoaText value negative (baseOf specifier) d.precision d.width
      (integerFlags d.flags specifier)).length ↔
        d.flags.left = true ∨ d.flags.zeropad = false ∨ d.flags.precision = true ∨
        d.width ≤ 32 := by
    refine (ntoaText_width_iff valid value negative d.precision d.width _).trans ?_
    rw [flags.1, flags.2, Bool.and_eq_false_iff, Bool.not_eq_false', or_assoc]
  unfold integerText at returns
  dsimp only at returns
  split at returns
  · rw [signedValue_eq] at returns
    split at returns
    · cases returns
    · cases returns
      exact filled _ _
  · cases returns
    exact filled _ _

/-- `%040x` of 255. -/
theorem field_not_filled :
    integerText ⟨{ zeropad := true }, 40, 0⟩ (chr 'x') ⟨255, []⟩ =
    .ok (List.replicate 30 (chr '0') ++ str "ff") ∧
      ¬ 40 ≤ (List.replicate 30 (chr '0') ++ str "ff").length := by
  have shown : integerText ⟨{ zeropad := true }, 40, 0⟩ (chr 'x') ⟨255, []⟩ =
      .ok (List.replicate 30 (chr '0') ++ str "ff") := by decide
  exact ⟨shown, fun filled => absurd ((field_filled_iff _ _ _ shown).mp filled) (by decide)⟩

end Libgdb
