import Libgdb.NumberTexts

/-!
Formats by their pieces. A directive is read as it is spelled, a format prints what its pieces
print in order, and nothing behind its NUL is read; a format that ends inside a directive is read
past its NUL.
-/
namespace Libgdb
open ByteMemory (Byte Word)

/- Spelling. -/

/-- What may stand for a width or behind the point of a precision. -/
inductive Amount where
  | none
  | digits (first : Byte) (rest : List Byte)
  | star

def Amount.text : Amount → List Byte
  | .none => []
  | .digits first rest => first :: rest
  | .star => [chr '*']

def Amount.Valid : Amount → Prop
  | .digits first rest => ∀ c ∈ first :: rest, isDigit c = true
  | _ => True

structure Spelling where
  flags : List Byte
  width : Amount
  precision : Option Amount
  length : List Byte

def precisionText : Option Amount → List Byte
  | none => []
  | some amount => chr '.' :: amount.text

def Spelling.text (s : Spelling) : List Byte :=
  s.flags ++ (s.width.text ++ (precisionText s.precision ++ s.length))

/-- A width does not begin with 0, which is a flag. -/
structure Spelling.Valid (s : Spelling) : Prop where
  flags : ∀ c ∈ s.flags, c ∈ str "0-+ #"
  width : s.width.Valid ∧ ∀ rest, s.width ≠ .digits (chr '0') rest
  precision : ∀ amount, s.precision = some amount → amount.Valid
  length : s.length ∈ [str "", str "l", str "ll", str "h", str "hh", str "t", str "j", str "z"]

def PastFlags (c : Byte) : Prop := c ∉ str "0-+ #"

def PastWidth (c : Byte) : Prop := PastFlags c ∧ isDigit c = false ∧ c ≠ chr '*'

def PastPrecision (c : Byte) : Prop := PastWidth c ∧ c ≠ chr '.'

def Closes (specifier : Byte) : Prop := PastPrecision specifier ∧ specifier ∉ str "lhtjz"

instance (c : Byte) : Decidable (PastFlags c) := inferInstanceAs (Decidable (_ ∉ _))
instance (c : Byte) : Decidable (PastWidth c) := inferInstanceAs (Decidable (_ ∧ _))
instance (c : Byte) : Decidable (PastPrecision c) := inferInstanceAs (Decidable (_ ∧ _))
instance (c : Byte) : Decidable (Closes c) := inferInstanceAs (Decidable (_ ∧ _))

/- Meaning. -/

def setFlag (flags : PrintfFlags) (c : Byte) : PrintfFlags :=
  if c = chr '0' then { flags with zeropad := true }
  else if c = chr '-' then { flags with left := true }
  else if c = chr '+' then { flags with plus := true }
  else if c = chr ' ' then { flags with space := true }
  else { flags with hash := true }

def atoiValue (i : Nat) (digits : List Byte) : Nat :=
  digits.foldl (fun i c => (i * 10 + (c - chr '0').toNat) % 2 ^ 32) i

def Amount.asWidth (flags : PrintfFlags) (args : List PrintfArg) :
    Amount → Except Fault (PrintfFlags × Nat × List PrintfArg)
  | .none => .ok (flags, 0, args)
  | .digits first rest => .ok (flags, atoiValue 0 (first :: rest), args)
  | .star => do
    let (a, args) ← vaArg args
    let w : BitVec 32 := a.word.setWidth 32
    if w.toInt < 0 then
      let width ← negated w
      return ({ flags with left := true }, width, args)
    else
      return (flags, w.toNat, args)

def Amount.asPrecision (args : List PrintfArg) : Amount → Except Fault (Nat × List PrintfArg)
  | .none => .ok (0, args)
  | .digits first rest => .ok (atoiValue 0 (first :: rest), args)
  | .star => do
    let (a, args) ← vaArg args
    let prec : BitVec 32 := a.word.setWidth 32
    return (if 0 < prec.toInt then prec.toNat else 0, args)

def readPrecision (flags : PrintfFlags) (args : List PrintfArg) :
    Option Amount → Except Fault (PrintfFlags × Nat × List PrintfArg)
  | none => .ok (flags, 0, args)
  | some amount => (amount.asPrecision args).map fun found =>
    ({ flags with precision := true }, found.1, found.2)

def setLength (flags : PrintfFlags) (length : List Byte) : PrintfFlags :=
  if length = str "l" then { flags with long := true }
  else if length = str "ll" then { flags with long := true, longLong := true }
  else if length = str "h" then { flags with short := true }
  else if length = str "hh" then { flags with short := true, char := true }
  else if length = [] then flags
  else { flags with long := true }

def Spelling.read (s : Spelling) (args : List PrintfArg) :
    Except Fault (Directive × List PrintfArg) := do
  let (flags, width, args) ← s.width.asWidth (s.flags.foldl setFlag {}) args
  let (flags, precision, args) ← readPrecision flags args s.precision
  return (⟨setLength flags s.length, width, precision⟩, args)

/- Reading what is spelled. -/

def Starts (p : Byte → Prop) (text : List Byte) : Prop := ∃ c rest, text = c :: rest ∧ p c

theorem Starts.mono {p q : Byte → Prop} {text : List Byte} (starts : Starts p text)
    (weaker : ∀ c, p c → q c) : Starts q text := by
  obtain ⟨c, rest, split, holds⟩ := starts
  exact ⟨c, rest, split, weaker c holds⟩

theorem parseFlags_text (flags : PrintfFlags) {text : List Byte}
    (valid : ∀ c ∈ text, c ∈ str "0-+ #") {behind : List Byte} (ends : Starts PastFlags behind) :
    parseFlags flags (text ++ behind) = .ok (text.foldl setFlag flags, behind) := by
  induction text generalizing flags with
  | nil =>
    obtain ⟨c, rest, rfl, other⟩ := ends
    unfold PastFlags at other
    have none : c ≠ chr '0' ∧ c ≠ chr '-' ∧ c ≠ chr '+' ∧ c ≠ chr ' ' ∧ c ≠ chr '#' := by
      refine ⟨?_, ?_, ?_, ?_, ?_⟩ <;> (rintro rfl; exact other (by decide))
    rw [List.nil_append, parseFlags, if_neg none.1, if_neg none.2.1, if_neg none.2.2.1,
      if_neg none.2.2.2.1,
      if_neg none.2.2.2.2]
    rfl
  | cons c text ih =>
    have rest := fun flags => ih flags fun d mem => valid d (List.mem_cons_of_mem c mem)
    have which : c = chr '0' ∨ c = chr '-' ∨ c = chr '+' ∨ c = chr ' ' ∨ c = chr '#' := by
      simpa [str] using valid c List.mem_cons_self
    rw [List.cons_append, parseFlags, List.foldl_cons]
    rcases which with rfl | rfl | rfl | rfl | rfl
    · exact rest _
    · exact rest _
    · exact rest _
    · exact rest _
    · exact rest _

theorem atoi_text (i : Nat) {digits : List Byte} (valid : ∀ c ∈ digits, isDigit c = true)
    {behind : List Byte} (ends : Starts PastWidth behind) :
    atoi i (digits ++ behind) = .ok (atoiValue i digits, behind) := by
  induction digits generalizing i with
  | nil =>
    obtain ⟨c, rest, rfl, other⟩ := ends
    rw [List.nil_append, atoi, other.2.1]
    rfl
  | cons c digits ih =>
    rw [List.cons_append, atoi, if_pos (valid c List.mem_cons_self), ih _ fun d mem =>
      valid d (List.mem_cons_of_mem c mem)]
    rfl

theorem parseWidth_text (flags : PrintfFlags) {amount : Amount} (valid : amount.Valid)
    {behind : List Byte} (ends : Starts PastWidth behind) (args : List PrintfArg) :
    parseWidth flags (amount.text ++ behind) args =
      (amount.asWidth flags args).map fun found => (found.1, found.2.1, behind, found.2.2) := by
  cases amount with
  | none =>
    obtain ⟨c, rest, rfl, other⟩ := ends
    show parseWidth flags (c :: rest) args = _
    unfold parseWidth
    show (if isDigit c then _ else if c = chr '*' then _ else _) = _
    rw [other.2.1, if_neg (by decide), if_neg other.2.2]
    rfl
  | digits first rest =>
    show parseWidth flags (first :: (rest ++ behind)) args = _
    unfold parseWidth
    show (if isDigit first then (atoi 0 ((first :: rest) ++ behind) >>= _) else _) = _
    rw [if_pos (valid first List.mem_cons_self), atoi_text 0 valid ends]
    rfl
  | star =>
    show (vaArg args >>= _) = Except.map _ (vaArg args >>= _)
    cases vaArg args with
    | error e => rfl
    | ok found =>
      obtain ⟨a, args⟩ := found
      show (if (a.word.setWidth 32 : BitVec 32).toInt < 0 then (negated _ >>= _) else _) =
        Except.map _ (if (a.word.setWidth 32 : BitVec 32).toInt < 0 then (negated _ >>= _) else _)
      split
      · cases negated (a.word.setWidth 32 : BitVec 32) <;> rfl
      · rfl

theorem parsePrecision_text (flags : PrintfFlags) {precision : Option Amount}
    (valid : ∀ amount, precision = some amount → amount.Valid) {behind : List Byte}
    (ends : Starts PastPrecision behind) (args : List PrintfArg) :
    parsePrecision flags (precisionText precision ++ behind) args =
      (readPrecision flags args precision).map fun found =>
        (found.1, found.2.1, behind, found.2.2) := by
  have past : Starts PastWidth behind := ends.mono fun c other => other.1
  cases precision with
  | none =>
    obtain ⟨c, rest, rfl, other⟩ := ends
    exact if_neg other.2
  | some amount =>
    have valid := valid amount rfl
    show parsePrecision flags (chr '.' :: (amount.text ++ behind)) args = _
    cases amount with
    | none =>
      obtain ⟨c, rest, rfl, other⟩ := past
      show (if isDigit c then _ else if c = chr '*' then _ else _) = _
      rw [other.2.1, if_neg (by decide), if_neg other.2.2]
      rfl
    | digits first rest =>
      show (if isDigit first then (atoi 0 ((first :: rest) ++ behind) >>= _) else _) = _
      rw [if_pos (valid first List.mem_cons_self), atoi_text 0 valid past]
      rfl
    | star =>
      show (vaArg args >>= _) = Except.map _ (Except.map _ (vaArg args >>= _))
      cases vaArg args <;> rfl

theorem parseLength_text (flags : PrintfFlags) {length : List Byte}
    (valid : length ∈ [str "", str "l", str "ll", str "h", str "hh", str "t", str "j", str "z"])
    {specifier : Byte} (ends : Closes specifier) (behind : List Byte) :
    parseLength flags (length ++ specifier :: behind) =
      .ok (setLength flags length, specifier :: behind) := by
  have other (c : Byte) (mem : c ∈ str "lhtjz") : specifier ≠ c := by
    rintro rfl
    exact ends.2 mem
  have l := other (chr 'l') (by decide)
  have h := other (chr 'h') (by decide)
  have t := other (chr 't') (by decide)
  have j := other (chr 'j') (by decide)
  have z := other (chr 'z') (by decide)
  simp only [List.mem_cons, List.not_mem_nil, or_false] at valid
  rcases valid with rfl | rfl | rfl | rfl | rfl | rfl | rfl | rfl
  · refine (if_neg l).trans ((if_neg h).trans (if_neg ?_))
    exact fun either => either.elim t fun either => either.elim j z
  · exact if_neg l
  · rfl
  · exact if_neg h
  · rfl
  · rfl
  · rfl
  · rfl

/-- A directive is read as it is spelled, and no further than its specifier. -/
theorem parseDirective_text {s : Spelling} (valid : s.Valid) {specifier : Byte}
    (ends : Closes specifier) (behind : List Byte) (args : List PrintfArg) :
    parseDirective (s.text ++ specifier :: behind) args =
      (s.read args).map fun found => (found.1, specifier :: behind, found.2) := by
  have past : Starts PastPrecision (s.length ++ specifier :: behind) := by
    have lengths : ∀ l ∈ [str "l", str "ll", str "h", str "hh", str "t", str "j", str "z"],
        Starts PastPrecision (l ++ specifier :: behind) := by
      intro l mem
      simp only [List.mem_cons, List.not_mem_nil, or_false] at mem
      rcases mem with rfl | rfl | rfl | rfl | rfl | rfl | rfl <;>
        exact ⟨_, _, rfl, (by decide)⟩
    rcases List.mem_cons.mp valid.length with empty | other
    · rw [empty]
      exact ⟨specifier, behind, rfl, ends.1⟩
    · exact lengths _ other
  have pastWidth : Starts PastWidth (precisionText s.precision ++
      (s.length ++ specifier :: behind)) := by
    cases s.precision with
    | none => exact past.mono fun c other => other.1
    | some amount => exact ⟨chr '.', _, rfl, (by decide)⟩
  have pastFlags : Starts PastFlags (s.width.text ++
      (precisionText s.precision ++ (s.length ++ specifier :: behind))) := by
    have width := valid.width
    cases amount : s.width with
    | none => exact pastWidth.mono fun c other => other.1
    | digits first rest =>
      rw [amount] at width
      refine ⟨first, _, rfl, fun mem => ?_⟩
      have zero : ∀ d ∈ str "0-+ #", isDigit d = true → d = chr '0' := by decide
      exact width.2 rest (by rw [zero first mem (width.1 first List.mem_cons_self)])
    | star => exact ⟨chr '*', _, rfl, (by decide)⟩
  have split : s.text ++ specifier :: behind =
      s.flags ++ (s.width.text ++
        (precisionText s.precision ++ (s.length ++ specifier :: behind))) := by
    simp [Spelling.text]
  unfold parseDirective Spelling.read
  rw [split, parseFlags_text _ valid.flags pastFlags]
  show (parseWidth (s.flags.foldl setFlag {}) _ args >>= _) =
      Except.map _ (s.width.asWidth (s.flags.foldl setFlag {}) args >>= _)
  rw [parseWidth_text _ valid.width.1 pastWidth]
  cases s.width.asWidth (s.flags.foldl setFlag {}) args with
  | error e => rfl
  | ok found =>
    obtain ⟨flags, width, args⟩ := found
    show (parsePrecision flags _ args >>= _) =
        Except.map _ (readPrecision flags args s.precision >>= _)
    rw [parsePrecision_text flags valid.precision past]
    cases readPrecision flags args s.precision with
    | error e => rfl
    | ok found =>
      obtain ⟨flags, precision, args⟩ := found
      show (parseLength flags _ >>= _) = _
      rw [parseLength_text flags valid.length ends]
      rfl

/- Pieces. -/

inductive Piece where
  | char (c : Byte)
  | directive (s : Spelling) (specifier : Byte)

def Piece.text : Piece → List Byte
  | .char c => [c]
  | .directive s specifier => chr '%' :: s.text ++ [specifier]

def Piece.Valid : Piece → Prop
  | .char c => c ≠ 0 ∧ c ≠ chr '%'
  | .directive s specifier => s.Valid ∧ Closes specifier

def spelled (pieces : List Piece) : List Byte := pieces.flatMap Piece.text

section
variable [FloatTexts]

def Piece.printed (args : List PrintfArg) : Piece → Except Fault (List Byte × List PrintfArg)
  | .char c => .ok ([c], args)
  | .directive s specifier => do
    let (d, args) ← s.read args
    directiveText d specifier args

def printed : List Piece → List PrintfArg → Except Fault (List Byte × List PrintfArg)
  | [], args => .ok ([], args)
  | p :: pieces, args => do
    let (first, args) ← p.printed args
    let (rest, args) ← printed pieces args
    return (first ++ rest, args)

theorem loopText_piece {p : Piece} (valid : p.Valid) (n : Nat) (behind : List Byte)
    (args : List PrintfArg) :
    loopText (n + 1) (p.text ++ behind) args = (do
      let (first, args) ← p.printed args
      let rest ← loopText n behind args
      return first ++ rest) := by
  cases p with
  | char c =>
    show loopText (n + 1) (c :: behind) args = _
    rw [loopText]
    show (if c = 0 then _ else if c ≠ chr '%' then _ else _) = _
    rw [if_neg valid.1, if_pos valid.2]
    rfl
  | directive s specifier =>
    have text : (Piece.directive s specifier).text ++ behind = chr '%' ::
        (s.text ++ specifier :: behind) := by
      simp [Piece.text]
    rw [text, loopText]
    show (parseDirective (s.text ++ specifier :: behind) args >>= _) = ((s.read args >>= _) >>= _)
    rw [parseDirective_text valid.1 valid.2]
    cases s.read args with
    | error e => rfl
    | ok found => rfl

theorem loopText_pieces {pieces : List Piece} (valid : ∀ p ∈ pieces, p.Valid) (n : Nat)
    (behind : List Byte)
    (args : List PrintfArg) : loopText (pieces.length + n) (spelled pieces ++ behind) args = (do
      let (first, args) ← printed pieces args
      let rest ← loopText n behind args
      return first ++ rest) := by
  induction pieces generalizing args with
  | nil =>
    rw [List.length_nil, Nat.zero_add]
    show loopText n behind args = (loopText n behind args >>= fun rest => Except.ok rest)
    cases loopText n behind args <;> rfl
  | cons p pieces ih =>
    have length : (p :: pieces).length + n = pieces.length + n + 1 := by
      rw [List.length_cons]
      omega
    have text : spelled (p :: pieces) ++ behind = p.text ++ (spelled pieces ++ behind) := by
      simp [spelled]
    rw [length, text, loopText_piece (valid p List.mem_cons_self)]
    show (p.printed args >>= _) = ((p.printed args >>= _) >>= _)
    cases p.printed args with
    | error e => rfl
    | ok found =>
      obtain ⟨first, args⟩ := found
      show (loopText (pieces.length + n) (spelled pieces ++ behind) args >>= _) =
          ((printed pieces args >>= _) >>= _)
      rw [ih fun q mem => valid q (List.mem_cons_of_mem p mem)]
      cases printed pieces args with
      | error e => rfl
      | ok found =>
        obtain ⟨second, args⟩ := found
        show ((loopText n behind args >>= _) >>= _) = (loopText n behind args >>= _)
        cases loopText n behind args with
        | error e => rfl
        | ok rest => exact congrArg Except.ok (List.append_assoc first second rest).symm

omit [FloatTexts] in
theorem spelled_length (pieces : List Piece) : pieces.length ≤ (spelled pieces).length := by
  induction pieces with
  | nil => exact Nat.zero_le _
  | cons p pieces ih =>
    have positive : 0 < p.text.length := by
      cases p with
      | char c => exact Nat.one_pos
      | directive s specifier => exact Nat.succ_pos _
    have split : spelled (p :: pieces) = p.text ++ spelled pieces := by simp [spelled]
    rw [split, List.length_append, List.length_cons]
    omega

theorem formatText_pieces {pieces : List Piece} (valid : ∀ p ∈ pieces, p.Valid) (behind : List Byte)
    (args : List PrintfArg) :
    formatText (spelled pieces ++ 0 :: behind) args = (printed pieces args).map Prod.fst := by
  have enough := spelled_length pieces
  obtain ⟨n, fuel⟩ : ∃ n, (spelled pieces ++ 0 :: behind).length = pieces.length + (n + 1) := by
    refine ⟨(spelled pieces).length - pieces.length + behind.length, ?_⟩
    rw [List.length_append, List.length_cons]
    omega
  unfold formatText
  rw [fuel, loopText_pieces valid]
  show (printed pieces args >>= _) = _
  cases printed pieces args with
  | error e => rfl
  | ok found =>
    obtain ⟨text, args⟩ := found
    have nul : loopText (n + 1) (0 :: behind) args = .ok [] := rfl
    show (loopText (n + 1) (0 :: behind) args >>= fun rest => Except.ok (text ++ rest)) = Except.ok text
    rw [nul]
    exact congrArg Except.ok (List.append_nil text)

theorem printed_append (first second : List Piece) (args : List PrintfArg) :
    printed (first ++ second) args = (do
      let (text, args) ← printed first args
      let (more, args) ← printed second args
      return (text ++ more, args)) := by
  induction first generalizing args with
  | nil =>
    show printed second args = (printed second args >>= fun found => Except.ok ([] ++ found.1, found.2))
    cases printed second args <;> rfl
  | cons p first ih =>
    show (p.printed args >>= _) = ((p.printed args >>= _) >>= _)
    cases p.printed args with
    | error e => rfl
    | ok found =>
      obtain ⟨text, args⟩ := found
      show (printed (first ++ second) args >>= _) = ((printed first args >>= _) >>= _)
      rw [ih]
      cases printed first args with
      | error e => rfl
      | ok found =>
        obtain ⟨more, args⟩ := found
        show ((printed second args >>= _) >>= _) = (printed second args >>= _)
        cases printed second args with
        | error e => rfl
        | ok found => exact congrArg (fun text => Except.ok (text, found.2)) (List.append_assoc _ _ _).symm

/-- A format prints what its first pieces print, and then what the others print for the arguments
    that are left, whatever there is behind its NUL. -/
theorem format_by_pieces {first second : List Piece} (valid : ∀ p ∈ first, p.Valid)
    (valid' : ∀ p ∈ second, p.Valid) (behind behind' : List Byte) (args : List PrintfArg) :
    formatText (spelled (first ++ second) ++ 0 :: behind) args = (do
      let (text, args) ← printed first args
      let more ← formatText (spelled second ++ 0 :: behind') args
      return text ++ more) := by
  have all : ∀ p ∈ first ++ second, p.Valid := by
    intro p mem
    rcases List.mem_append.mp mem with before | after
    · exact valid p before
    · exact valid' p after
  rw [formatText_pieces all, printed_append]
  cases printed first args with
  | error e => rfl
  | ok found =>
    obtain ⟨text, args⟩ := found
    show Except.map _ (printed second args >>= _) =
        (formatText (spelled second ++ 0 :: behind') args >>= _)
    rw [formatText_pieces valid']
    cases printed second args <;> rfl

def hexArgs : List PrintfArg := [⟨0xabc, []⟩, ⟨5, []⟩]

omit [FloatTexts] in
/-- `=%lx` before `,%d`. -/
theorem hex_by_pieces : letI : FloatTexts := ⟨fun _ _ _ _ => .ok [], fun _ _ _ _ => .ok []⟩
    formatText (str "=%lx,%d" ++ [0]) hexArgs = .ok (str "=abc" ++ str ",5") := by
  let _ : FloatTexts := ⟨fun _ _ _ _ => .ok [], fun _ _ _ _ => .ok []⟩
  have spelling : ∀ length ∈ [str "l", []], Spelling.Valid ⟨[], .none, none, length⟩ := by
    intro length mem
    refine ⟨(fun c none => by cases none), ⟨trivial, (fun rest same => by cases same)⟩,
      (fun amount some => by cases some), ?_⟩
    revert length
    decide
  have pair (c specifier : Byte) {length : List Byte} (char : c ≠ 0 ∧ c ≠ chr '%')
      (directive : Spelling.Valid ⟨[], .none, none, length⟩ ∧ Closes specifier) :
      ∀ p ∈ [Piece.char c, .directive ⟨[], .none, none, length⟩ specifier], p.Valid := by
    intro p mem
    rcases List.mem_cons.mp mem with rfl | last
    · exact char
    · rw [List.mem_singleton.mp last]
      exact directive
  have pieces := format_by_pieces
    (pair (chr '=') (chr 'x') ⟨by decide, by decide⟩ ⟨spelling (str "l") (by decide), by decide⟩)
    (pair (chr ',') (chr 'd') ⟨by decide, by decide⟩ ⟨spelling [] (by decide), by decide⟩) []
      [7] hexArgs
  exact pieces.trans rfl

theorem loopText_nil (n : Nat) (args : List PrintfArg) :
    loopText n [] args = .error .inputOverread := by
  cases n <;> rfl

/-- A format that ends inside a directive: the NUL is printed in the directive's place, and
    reading goes on behind it. Where nothing is there the read is out of bounds, unless the
    arguments gave out before. -/
theorem unfinished_read_past {pieces : List Piece} (valid : ∀ p ∈ pieces, p.Valid) {s : Spelling}
    (spelling : s.Valid) :
    (∀ args, formatText (spelled pieces ++ (chr '%' :: s.text ++ [0])) args =
      (printed (pieces ++ [.directive s 0]) args).bind fun _ => .error .inputOverread) ∧
      ∀ more : List Piece, (∀ p ∈ more, p.Valid) → ∀ behind args,
        formatText (spelled pieces ++ (chr '%' :: s.text ++ 0 :: (spelled more ++ 0 :: behind)))
          args =
          (printed (pieces ++ .directive s 0 :: more) args).map Prod.fst := by
  have last : (Piece.directive s 0).Valid := ⟨spelling, by decide⟩
  constructor
  · intro args
    have all : ∀ p ∈ pieces ++ [.directive s 0], p.Valid := by
      intro p mem
      rcases List.mem_append.mp mem with before | here
      · exact valid p before
      · rw [List.mem_singleton.mp here]
        exact last
    have text : spelled pieces ++ (chr '%' :: s.text ++ [0]) =
        spelled (pieces ++ [Piece.directive s 0]) ++ [] := by
      simp [spelled, Piece.text]
    have enough := spelled_length (pieces ++ [.directive s 0])
    obtain ⟨n, fuel⟩ : ∃ n, (spelled (pieces ++ [Piece.directive s 0]) ++ []).length =
        (pieces ++ [Piece.directive s 0]).length + n :=
      ⟨(spelled (pieces ++ [Piece.directive s 0])).length -
        (pieces ++ [Piece.directive s 0]).length, by
        rw [List.append_nil]
        omega⟩
    unfold formatText
    rw [text, fuel, loopText_pieces all]
    show (printed _ args >>= _) = _
    cases printed (pieces ++ [.directive s 0]) args with
    | error e => rfl
    | ok found =>
      show (loopText n [] found.2 >>= fun rest => Except.ok (found.1 ++ rest)) = _
      rw [loopText_nil]
      rfl
  · intro more valid' behind args
    have all : ∀ p ∈ pieces ++ .directive s 0 :: more, p.Valid := by
      intro p mem
      rcases List.mem_append.mp mem with before | here
      · exact valid p before
      · rcases List.mem_cons.mp here with rfl | after
        · exact last
        · exact valid' p after
    rw [← formatText_pieces all behind args]
    simp [spelled, Piece.text]

omit [FloatTexts] in
/-- The width `5` and no specifier, and `ok` behind the NUL. -/
theorem five_read_past : letI : FloatTexts := ⟨fun _ _ _ _ => .ok [], fun _ _ _ _ => .ok []⟩
    formatText (str "%5" ++ [0]) [] = .error .inputOverread ∧
      formatText (str "%5" ++ 0 :: (str "ok" ++ [0])) [] = .ok (0 :: str "ok") := by
  let _ : FloatTexts := ⟨fun _ _ _ _ => .ok [], fun _ _ _ _ => .ok []⟩
  have five : ∀ c ∈ [chr '5'], isDigit c = true := by decide
  have spelling : Spelling.Valid ⟨[], .digits (chr '5') [], none, []⟩ :=
    ⟨by decide, ⟨five, (fun rest same => by cases same)⟩, (fun amount some => by cases some), by decide⟩
  have none : ∀ p ∈ ([] : List Piece), p.Valid := fun p mem => by cases mem
  have chars : ∀ p ∈ [Piece.char (chr 'o'), .char (chr 'k')], p.Valid := by
    intro p mem
    rcases List.mem_cons.mp mem with rfl | last
    · exact ⟨by decide, by decide⟩
    · rw [List.mem_singleton.mp last]
      exact ⟨by decide, by decide⟩
  have read := unfinished_read_past none spelling
  exact ⟨(read.1 []).trans rfl, (read.2 _ chars [] []).trans rfl⟩

end

end Libgdb
