import Libgdb.ThreadIds

/-!
What `parse_thread_id` stores for a number. One digit is stored as its value; of a longer text
each pair of digits goes to a byte of the int, the first pair to the lowest, an odd last digit
is dropped, and the bytes that no pair reaches stay as they were.
-/
namespace Libgdb
open ByteMemory CheckedPrograms

/- The texts of the two parts. -/

/-- All of them, or a number of at most sixteen bits in digits. -/
def IsIdText (text : List Byte) : Prop :=
  text = str "-1" ∨ (text ≠ [] ∧ (∀ c ∈ text, IsHex c) ∧ hexNumber text ≤ 0xFFFF)

def idNumber (text : List Byte) : Int := if text = str "-1" then -1 else hexNumber text

theorem digits_not_all {text : List Byte} (digits : ∀ c ∈ text, IsHex c) : text ≠ str "-1" := by
  rintro rfl
  exact absurd (digits (chr '-') (by decide)) (by decide)

def idByte (old : BitVec 32) (text : List Byte) (k : Nat) : Nat :=
  if k < text.length / 2 then hexNumber ((text.drop (2 * k)).take 2)
  else (old.extractLsb' (8 * k) 8).toNat

/-- The text is one digit, or its pairs and the bytes left of the int happen to be the bytes of
    its number, lowest first. -/
def StoresNumber (old : BitVec 32) (text : List Byte) : Prop :=
  text.length = 1 ∨
    (text.length < 10 ∧ 2 ≤ text.length ∧
      ∀ k < 4, idByte old text k = hexNumber text / 256 ^ k % 256)

/- Bytes from pairs of digits. -/

def pairBytes : List Byte → List Byte
  | hi :: lo :: text => hexPair hi lo :: pairBytes text
  | _ => []

theorem half_eq_zero {text : List Byte}
    (short : ∀ (hi lo : Byte) (rest : List Byte), text = hi :: lo :: rest → False) :
    text.length / 2 = 0 := by
  match text with
  | [] => rfl
  | [_] => simp
  | hi :: lo :: rest => exact absurd rfl (short hi lo rest)

theorem hex2mem_pairs (text rest : List Byte) :
    ∃ left, hex2mem (text ++ rest) (text.length / 2) = .ok (pairBytes text, left) := by
  induction text using pairBytes.induct with
  | case1 hi lo text ih =>
    obtain ⟨left, read⟩ := ih
    have half : (hi :: lo :: text).length / 2 = text.length / 2 + 1 := by
      simp only [List.length_cons]
      omega
    rw [half, List.cons_append, List.cons_append, hex2mem, read]
    exact ⟨left, rfl⟩
  | case2 text short =>
    have none : text.length / 2 = 0 := half_eq_zero short
    rw [none]
    refine ⟨text ++ rest, ?_⟩
    rw [hex2mem, pairBytes]
    exact short

theorem pairBytes_getD {text : List Byte} (digits : ∀ c ∈ text, IsHex c) (k : Nat) (d : Byte) :
    ((pairBytes text).getD k d).toNat =
      if k < text.length / 2 then hexNumber ((text.drop (2 * k)).take 2) else d.toNat := by
  induction text using pairBytes.induct generalizing k with
  | case1 hi lo text ih =>
    have half : (hi :: lo :: text).length / 2 = text.length / 2 + 1 := by
      simp only [List.length_cons]
      omega
    rw [half, pairBytes]
    cases k with
    | zero =>
      rw [if_pos (by omega)]
      exact hexPair_toNat (digits hi (by simp)) (digits lo (by simp))
    | succ k =>
      rw [List.getD_cons_succ, ih (fun c mem => digits c (by simp [mem])), show 2 * (k + 1) =
        2 * k + 1 + 1 by omega,
        List.drop_succ_cons, List.drop_succ_cons]
      simp only [Nat.add_lt_add_iff_right]
  | case2 text short =>
    have none : text.length / 2 = 0 := half_eq_zero short
    rw [none, if_neg (by omega), pairBytes]
    · rfl
    · exact short

theorem digits_eq_iff (f : Nat → Byte) {n size : Nat} (small : n < 256 ^ size) (word : size ≤ 8) :
    digits f size = n ↔ ∀ k < size, (f k).toNat = n / 256 ^ k % 256 := by
  constructor
  · rintro rfl k lt
    exact (digits_digit f lt).symm
  · intro each
    have wide : n < 2 ^ 64 := by
      have : 256 ^ size ≤ 256 ^ 8 := Nat.pow_le_pow_right (by decide) word
      omega
    have toNat : (BitVec.ofNat 64 n).toNat = n := by rw [BitVec.toNat_ofNat, Nat.mod_eq_of_lt wide]
    have bytes : ∀ k < size, f k = byteOf (BitVec.ofNat 64 n) k := by
      intro k lt
      apply BitVec.eq_of_toNat_eq
      rw [each k lt, byteOf_toNat, toNat]
    rw [digits_congr bytes, digits_byteOf, toNat, Nat.mod_eq_of_lt small]

/- What is stored. -/

theorem hexNumber_single {c : Byte} (hex : IsHex c) : (hexNumber [c] : Int) = hexcharToInt c := by
  have range := isHex_range c hex
  simp only [hexNumber, List.foldl_cons, List.foldl_nil, appendDigit]
  omega

theorem overwriteInt_toNat (old : BitVec 32) (mem : List Byte) :
    (overwriteInt old mem).toNat = digits (fun k => mem.getD k (old.extractLsb' (8 * k) 8)) 4 := by
  rw [overwriteInt, BitVec.toNat_ofNat]
  exact Nat.mod_eq_of_lt (digits_lt _ 4)

def ReadAs (old : BitVec 32) (text : List Byte) (n : Nat) : Prop :=
  (text.length = 1 ∧ n = hexNumber text) ∨
    (text.length < 10 ∧ 2 ≤ text.length ∧ n < 2 ^ 32 ∧
      ∀ k < 4, idByte old text k = n / 256 ^ k % 256)

theorem storeId_readAs {text : List Byte} (nonempty : text ≠ []) (hex : ∀ c ∈ text, IsHex c)
    (rest : List Byte) (old : BitVec 32) (n : Nat) :
    (∃ v, storeId (text ++ rest) text.length old = .ok v ∧ v.toNat = n) ↔ ReadAs old text n := by
  have positive : 0 < text.length := List.length_pos_of_ne_nil nonempty
  by_cases one : text.length = 1
  · obtain ⟨c, rfl⟩ := List.length_eq_one_iff.mp one
    have read : storeId ([c] ++ rest) [c].length old = .ok (BitVec.ofInt 32 (hexcharToInt c)) := by
      rw [storeId, if_pos (by simp)]
      rfl
    have range := isHex_range c (hex c (by simp))
    have stored : (BitVec.ofInt 32 (hexcharToInt c)).toNat = hexNumber [c] := by
      have same := hexNumber_single (hex c (by simp))
      rw [BitVec.toNat_ofInt]
      omega
    constructor
    · rintro ⟨v, same, value⟩
      cases read.symm.trans same
      exact Or.inl ⟨one, value.symm.trans stored⟩
    · rintro (⟨_, rfl⟩ | ⟨_, two, _⟩)
      · exact ⟨_, read, stored⟩
      · omega
  · obtain ⟨left, read⟩ := hex2mem_pairs text rest
    rw [storeId, if_neg (by omega), read, ok_bind]
    dsimp only
    have bytes (k : Nat) := pairBytes_getD hex k (old.extractLsb' (8 * k) 8)
    by_cases fits : text.length / 2 ≤ 4
    · rw [if_pos fits]
      constructor
      · rintro ⟨v, same, value⟩
        cases same
        have small : n < 2 ^ 32 := value ▸ BitVec.isLt _
        rw [overwriteInt_toNat, digits_eq_iff _ small (by decide)] at value
        refine Or.inr ⟨by omega, by omega, small, fun k lt => ?_⟩
        rw [← value k lt, bytes, idByte]
      · rintro (single | ⟨_, _, small, each⟩)
        · exact absurd single.1 one
        · refine ⟨_, rfl, ?_⟩
          rw [overwriteInt_toNat, digits_eq_iff _ small (by decide)]
          intro k lt
          rw [← each k lt, bytes, idByte]
    · rw [if_neg fits]
      refine iff_of_false ?_ ?_
      · rintro ⟨v, no, _⟩
        cases no
      · rintro (single | ⟨_, _, _⟩) <;> omega

theorem readAs_number_iff {old : BitVec 32} {text : List Byte} (small : hexNumber text ≤ 0xFFFF) :
    ReadAs old text (hexNumber text) ↔ StoresNumber old text := by
  have range : hexNumber text < 2 ^ 32 := by omega
  unfold ReadAs StoresNumber
  simp only [range, and_true, true_and]

theorem storeId_number_iff {text : List Byte} (nonempty : text ≠ []) (hex : ∀ c ∈ text, IsHex c)
    (small : hexNumber text ≤ 0xFFFF) (rest : List Byte) (old : BitVec 32) :
    (∃ v, storeId (text ++ rest) text.length old = .ok v ∧ v.toInt = hexNumber text) ↔
      StoresNumber old text := by
  rw [← readAs_number_iff small, ← storeId_readAs nonempty hex rest old]
  refine exists_congr fun v => and_congr_right fun _ => ?_
  have lt := v.isLt
  rw [BitVec.toInt_eq_toNat_cond]
  split <;> omega

/- The whole id. -/

def parseThread (tail : List Byte) (procId threadId : BitVec 32) : Except Fault ParsedId := do
  if ← minusOne tail then
    return ⟨some (tail.drop 2), procId, -1⟩
  else
    let (size, rest) ← spanHex tail
    let threadId ← storeId tail size threadId
    return ⟨some rest, procId, threadId⟩

theorem parseThreadId_parts {proc tail : List Byte} (nodot : ∀ c ∈ proc, c ≠ chr '.')
    (plain : minusOne (proc ++ chr '.' :: tail) = .ok false) (procOld threadOld : BitVec 32) :
    parseThreadId (chr 'p' :: (proc ++ chr '.' :: tail)) procOld threadOld = (do
      let procId ← storeId (proc ++ chr '.' :: tail) proc.length procOld
      parseThread tail procId threadOld) := by
  unfold parseThreadId
  simp only [peek, List.tail_cons, bind, Except.bind, ne_eq, not_true_eq_false, if_false, plain,
    spanDot_text proc tail nodot]
  rfl

theorem parseThread_digits {thread : List Byte} (nonempty : thread ≠ [])
    (hex : ∀ c ∈ thread, IsHex c)
    {stop : Byte} (ends : ¬ IsHex stop) (rest : List Byte) (procId old : BitVec 32) :
    parseThread (thread ++ stop :: rest) procId old = (do
      let threadId ← storeId (thread ++ stop :: rest) thread.length old
      return ⟨some (stop :: rest), procId, threadId⟩) := by
  have plain : minusOne (thread ++ stop :: rest) = .ok false := by
    cases thread with
    | nil => exact absurd rfl nonempty
    | cons c thread => exact minusOne_other (isHex_ne (hex c (by simp)) (by decide)) _
  unfold parseThread
  rw [plain, spanHex_digits thread hex ends]
  rfl

/-- `-1` is recognised at the end of the text only. Before another character it is stored all
    the same, but the text is not read. -/
theorem parseThread_all (stop : Byte) (rest : List Byte) (procId old : BitVec 32) :
    parseThread (str "-1" ++ stop :: rest) procId old =
      .ok ⟨some (if stop = 0 then stop :: rest else str "-1" ++ stop :: rest), procId, -1⟩ := by
  by_cases last : stop = 0
  · subst last
    rfl
  · have diff : ((stop.toNat : Int) - (0 : Byte).toNat ≠ 0) := by
      intro zero
      exact last (BitVec.eq_of_toNat_eq (Int.ofNat.inj (Int.sub_eq_zero.mp zero)))
    have plain : minusOne (str "-1" ++ stop :: rest) = .ok false := by
      have compared : strncmp (str "-1" ++ stop :: rest) (str "-1" ++ [0]) 3 =
          strncmp (stop :: rest) [0] 1 := rfl
      rw [minusOne, compared, strncmp, if_pos (Or.inl diff), ok_bind, decide_eq_false diff]
      rfl
    have stays : spanHex (str "-1" ++ stop :: rest) = .ok (0, str "-1" ++ stop :: rest) := rfl
    unfold parseThread
    rw [plain, ok_bind, if_neg (by decide), stays, if_neg last]
    rfl

def ParsesNumerically (proc thread : List Byte) (stop : Byte) (rest : List Byte)
    (procOld threadOld : BitVec 32) : Prop :=
  ∃ id, parseThreadId (chr 'p' :: (proc ++ chr '.' :: (thread ++ stop :: rest))) procOld threadOld =
      .ok id ∧
    id.ptr = some (stop :: rest) ∧ id.procId.toInt = idNumber proc ∧
    id.threadId.toInt = idNumber thread

/-- The first number is written in digits that come out right, and so is the second, or it is
    `-1` at the end of the packet. -/
structure ReadsRight (proc thread : List Byte) (stop : Byte) (procOld threadOld : BitVec 32) :
    Prop where
  notAll : proc ≠ str "-1"
  proc : StoresNumber procOld proc
  thread : if thread = str "-1" then stop = 0 else StoresNumber threadOld thread

theorem parseThread_iff {thread : List Byte} (text : IsIdText thread) {stop : Byte}
    (ends : ¬ IsHex stop) (rest : List Byte) (procId old : BitVec 32) :
    (∃ id, parseThread (thread ++ stop :: rest) procId old = .ok id ∧ id.ptr = some (stop :: rest) ∧
      id.procId = procId ∧ id.threadId.toInt = idNumber thread) ↔
    if thread = str "-1" then stop = 0 else StoresNumber old thread := by
  rcases text with rfl | ⟨nonempty, hex, small⟩
  · rw [if_pos rfl, parseThread_all]
    constructor
    · rintro ⟨id, same, ptr, _⟩
      cases same
      by_contra other
      rw [if_neg other] at ptr
      have lengths := congrArg List.length (Option.some.inj ptr)
      rw [List.length_append, show (str "-1").length = 2 from rfl] at lengths
      omega
    · rintro rfl
      exact ⟨_, rfl, rfl, rfl, rfl⟩
  · rw [if_neg (digits_not_all hex), parseThread_digits nonempty hex ends,
      ← storeId_number_iff nonempty hex small (stop :: rest), idNumber, if_neg (digits_not_all hex)]
    constructor
    · rintro ⟨id, same, _, _, value⟩
      obtain ⟨v, stored, made⟩ := bind_ok same
      cases made
      exact ⟨v, stored, value⟩
    · rintro ⟨v, stored, value⟩
      rw [stored]
      exact ⟨_, rfl, rfl, rfl, value⟩

theorem parseThread_procId {tail : List Byte} {procId old : BitVec 32} {id : ParsedId}
    (parsed : parseThread tail procId old = .ok id) : id.procId = procId := by
  unfold parseThread at parsed
  obtain ⟨all, _, parsed⟩ := bind_ok parsed
  cases all with
  | true =>
    cases parsed
    rfl
  | false =>
    obtain ⟨span, _, parsed⟩ := bind_ok parsed
    obtain ⟨v, _, parsed⟩ := bind_ok parsed
    cases parsed
    rfl

theorem all_processes_misread (tail : List Byte) (procOld threadOld : BitVec 32) {id : ParsedId}
    (parsed : parseThreadId (chr 'p' :: (str "-1" ++ chr '.' :: tail)) procOld threadOld = .ok id) :
    id.procId.toInt ≠ -1 := by
  rw [parseThreadId_parts (by decide) rfl] at parsed
  obtain ⟨v, stored, parsed⟩ := bind_ok parsed
  have pair : storeId (str "-1" ++ chr '.' :: tail) (str "-1").length procOld =
      .ok (overwriteInt procOld [0xF1]) := rfl
  rw [pair] at stored
  cases stored
  rw [parseThread_procId parsed]
  intro all
  have ones : overwriteInt procOld [0xF1] = -1 := BitVec.eq_of_toInt_eq all
  have low := digits_digit (fun k => [0xF1#8].getD k (procOld.extractLsb' (8 * k) 8))
      (k := 0) (n := 4)
    (by decide)
  rw [← overwriteInt_toNat, show overwriteInt procOld [0xF1#8] = -1 from ones] at low
  have clash : (-1 : BitVec 32).toNat / 256 ^ 0 % 256 = (0xF1#8).toNat := low
  exact absurd clash (by decide)

/-- A thread id is parsed numerically exactly when both texts are of a form that the stores into
    the two ints happen to serve. -/
theorem parses_numerically_iff {proc thread : List Byte} (procText : IsIdText proc)
    (threadText : IsIdText thread) {stop : Byte} (ends : ¬ IsHex stop) (rest : List Byte)
    (procOld threadOld : BitVec 32) :
    ParsesNumerically proc thread stop rest procOld threadOld ↔
      ReadsRight proc thread stop procOld threadOld := by
  rcases procText with rfl | ⟨nonempty, hex, small⟩
  · refine iff_of_false ?_ fun right => right.notAll rfl
    rintro ⟨id, parsed, _, procId, _⟩
    exact all_processes_misread _ procOld threadOld parsed procId
  · let tail := thread ++ stop :: rest
    have plain : minusOne (proc ++ chr '.' :: tail) = .ok false :=
      minusOne_digits proc hex (chr '.') (by decide) tail
    have number : idNumber proc = hexNumber proc := if_neg (digits_not_all hex)
    have stores := storeId_number_iff nonempty hex small (chr '.' :: tail) procOld
    unfold ParsesNumerically
    rw [parseThreadId_parts (fun c mem => isHex_ne (hex c mem) (by decide)) plain, number]
    constructor
    · rintro ⟨id, parsed, ptr, procId, threadId⟩
      obtain ⟨v, stored, parsed⟩ := bind_ok parsed
      have kept := parseThread_procId parsed
      rw [kept] at procId
      exact ⟨digits_not_all hex, stores.mp ⟨v, stored, procId⟩,
        (parseThread_iff threadText ends rest v threadOld).mp ⟨id, parsed, ptr, kept, threadId⟩⟩
    · rintro ⟨_, procRight, threadRight⟩
      obtain ⟨v, stored, value⟩ := stores.mpr procRight
      obtain ⟨id, parsed, ptr, kept, threadId⟩ :=
        (parseThread_iff threadText ends rest v threadOld).mpr threadRight
      rw [stored]
      refine ⟨id, parsed, ptr, ?_, threadId⟩
      rw [kept]
      exact value

theorem two_digit_ids_parse : ParsesNumerically (str "1f") (str "0A") (chr ';') [] 0 0 := by
  refine (parses_numerically_iff (Or.inr ⟨by decide, by decide, by decide⟩)
    (Or.inr ⟨by decide, by decide, by decide⟩) (by decide) [] 0 0).mpr ⟨by decide, ?_, ?_⟩
  · exact Or.inr ⟨by decide, by decide, by decide⟩
  · rw [if_neg (by decide)]
    exact Or.inr ⟨by decide, by decide, by decide⟩

/-- Thread 256 in hexadecimal is stored as 16. -/
theorem odd_digits_misread : ¬ ∀ (proc thread : List Byte) (stop : Byte) (rest : List Byte)
    (procOld threadOld : BitVec 32), IsIdText proc → IsIdText thread → ¬ IsHex stop →
    ParsesNumerically proc thread stop rest procOld threadOld := by
  intro all
  obtain ⟨id, parsed, _, _, threadId⟩ := all (str "1") (str "100") 0 [] 0 0
    (Or.inr ⟨by decide, by decide, by decide⟩) (Or.inr ⟨by decide, by decide, by decide⟩)
      (by decide)
  have stored : parseThreadId (str "p1.100" ++ [0]) 0 0 = .ok ⟨some [0], 1, 16⟩ := by decide +kernel
  rw [show str "p1.100" ++ [0] = chr 'p' :: (str "1" ++ chr '.' :: (str "100" ++ 0 :: [])) from rfl,
    parsed] at stored
  cases stored
  exact absurd threadId (by decide)

end Libgdb
