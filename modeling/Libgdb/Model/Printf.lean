import Libgdb.Model.Util

/-!
src/printf.c on LP64 with an unsigned char. The arguments and strings read, and the format, are
lists whose end is a fault; `_ftoa` and `_etoa` are known by the texts they print.
-/
namespace Libgdb
open ByteMemory (Byte Word)

structure PrintfFlags where
  zeropad : Bool := false
  left : Bool := false
  plus : Bool := false
  space : Bool := false
  hash : Bool := false
  uppercase : Bool := false
  char : Bool := false
  short : Bool := false
  long : Bool := false
  longLong : Bool := false
  precision : Bool := false
  adaptExp : Bool := false
  deriving DecidableEq, Repr

/-- A word of the `va_list`, and the bytes found from there on where it is a pointer. -/
structure PrintfArg where
  word : Word
  text : List Byte := []

/-- What `_ftoa` and `_etoa` print for the bits of a value with a precision and a width, unless the
    precision leads out of the table `pow10`. -/
class FloatTexts where
  ftoa : Word → Nat → Nat → PrintfFlags → Except Fault (List Byte)
  etoa : Word → Nat → Nat → PrintfFlags → Except Fault (List Byte)

/- Output functions. -/

/-- `out_fct_type`: what is made of the buffer by a character at `idx` of `maxlen`. -/
abbrev OutFct (σ : Type) := Byte → σ → Nat → Nat → σ

def outBuffer : OutFct (Nat → Byte) := fun character buffer idx maxlen =>
  if idx < maxlen then Function.update buffer idx character else buffer

def outNull {σ : Type} : OutFct σ := fun _ buffer _ _ => buffer

/-- The buffer is what `_putchar` has been called on. -/
def outChar : OutFct (List Byte) := fun character shown _ _ =>
  if character ≠ 0 then shown ++ [character] else shown

/-- The buffer is what `arg` points to. -/
def outFct {τ : Type} (fct : Byte → τ → τ) : OutFct τ := fun character arg _ _ =>
  if character ≠ 0 then fct character arg else arg

structure Written (σ : Type) where
  buffer : σ
  idx : Nat

section
variable {σ : Type} (out : OutFct σ) (maxlen : Nat)

def Written.next (w : Written σ) (character : Byte) : Written σ :=
  ⟨out character w.buffer w.idx maxlen, w.idx + 1⟩

def Written.all (w : Written σ) (text : List Byte) : Written σ :=
  text.foldl (Written.next out maxlen) w

def Written.spaces (w : Written σ) (n : Nat) : Written σ :=
  w.all out maxlen (List.replicate n (chr ' '))

/- Numbers. The conversion buffer is the list of its `len` characters, the last digit first. -/

def ntoaBufferSize := 32

def outRev (w : Written σ) (buf : List Byte) (width : Nat) (flags : PrintfFlags) : Written σ :=
  let startIdx := w.idx
  let w := if !flags.left && !flags.zeropad then w.spaces out maxlen (width - buf.length) else w
  let w := w.all out maxlen buf.reverse
  if flags.left then w.spaces out maxlen (width - (w.idx - startIdx)) else w

def ntoaZeros (buf : List Byte) (n : Nat) : List Byte :=
  buf ++ List.replicate (min n ntoaBufferSize - buf.length) (chr '0')

def ntoaPut (buf : List Byte) (character : Byte) : List Byte :=
  if buf.length < ntoaBufferSize then buf ++ [character] else buf

def ntoaWidth (negative : Bool) (width : Nat) (flags : PrintfFlags) : Nat :=
  if !flags.left && (width ≠ 0 && flags.zeropad && (negative || (flags.plus || flags.space))) then
    width - 1
  else width

def ntoaPad (buf : List Byte) (prec width : Nat) (flags : PrintfFlags) : List Byte :=
  if flags.left then buf
  else
    let buf := ntoaZeros buf prec
    if flags.zeropad then ntoaZeros buf width else buf

/-- Room is made for the prefix where the number fills its field. -/
def ntoaShorten (buf : List Byte) (base prec width : Nat) (flags : PrintfFlags) : List Byte :=
  if !flags.precision && (buf.length ≠ 0 && (buf.length = prec || buf.length = width)) then
    let buf := buf.dropLast
    if buf.length ≠ 0 && base = 16 then buf.dropLast else buf
  else buf

def ntoaHash (buf : List Byte) (base prec width : Nat) (flags : PrintfFlags) : List Byte :=
  if flags.hash then
    let buf := ntoaShorten buf base prec width flags
    let buf :=
      if base = 16 ∧ !flags.uppercase then ntoaPut buf (chr 'x')
      else if base = 16 ∧ flags.uppercase then ntoaPut buf (chr 'X')
      else if base = 2 then ntoaPut buf (chr 'b')
      else buf
    ntoaPut buf (chr '0')
  else buf

def ntoaSign (buf : List Byte) (negative : Bool) (flags : PrintfFlags) : List Byte :=
  if negative then ntoaPut buf (chr '-')
  else if flags.plus then ntoaPut buf (chr '+')
  else if flags.space then ntoaPut buf (chr ' ')
  else buf

def ntoaFormat (w : Written σ) (buf : List Byte) (negative : Bool) (base prec width : Nat)
    (flags : PrintfFlags) : Written σ :=
  let width := ntoaWidth negative width flags
  let buf := ntoaPad buf prec width flags
  let buf := ntoaHash buf base prec width flags
  let buf := ntoaSign buf negative flags
  outRev out maxlen w buf width flags

def ntoaDigit (uppercase : Bool) (digit : Nat) : Byte :=
  if digit < 10 then chr '0' + BitVec.ofNat 8 digit
  else (if uppercase then chr 'A' else chr 'a') + BitVec.ofNat 8 digit - 10

def ntoaDigits (base : Nat) (uppercase : Bool) : Nat → Nat → List Byte
  | 0, _ => []
  | room + 1, value =>
    ntoaDigit uppercase (value % base) ::
      if value / base ≠ 0 then ntoaDigits base uppercase room (value / base) else []

/-- `_ntoa_long` and `_ntoa_long_long`, both of 64 bits. -/
def ntoaLong (w : Written σ) (value : Nat) (negative : Bool) (base prec width : Nat)
    (flags : PrintfFlags) : Written σ :=
  let flags := if value = 0 then { flags with hash := false } else flags
  let buf :=
    if !flags.precision || value ≠ 0 then ntoaDigits base flags.uppercase ntoaBufferSize value
    else []
  ntoaFormat out maxlen w buf negative base prec width flags

end

/- Directives. -/

def isDigit (ch : Byte) : Bool := chr '0' ≤ ch && ch ≤ chr '9'

def atoi (i : Nat) : List Byte → Except Fault (Nat × List Byte)
  | [] => .error .inputOverread
  | c :: format =>
    if isDigit c then atoi ((i * 10 + (c - chr '0').toNat) % 2 ^ 32) format
    else .ok (i, c :: format)

def vaArg : List PrintfArg → Except Fault (PrintfArg × List PrintfArg)
  | [] => .error .indexOutOfBounds
  | a :: args => .ok (a, args)

/-- `-value` of a signed type, as unsigned. -/
def negated {n : Nat} (value : BitVec n) : Except Fault Nat :=
  if value = BitVec.intMin n then .error .intOverflow else .ok (-value).toNat

def parseFlags (flags : PrintfFlags) : List Byte → Except Fault (PrintfFlags × List Byte)
  | [] => .error .inputOverread
  | c :: format =>
    if c = chr '0' then parseFlags { flags with zeropad := true } format
    else if c = chr '-' then parseFlags { flags with left := true } format
    else if c = chr '+' then parseFlags { flags with plus := true } format
    else if c = chr ' ' then parseFlags { flags with space := true } format
    else if c = chr '#' then parseFlags { flags with hash := true } format
    else .ok (flags, c :: format)

def parseWidth (flags : PrintfFlags) (format : List Byte) (args : List PrintfArg) :
    Except Fault (PrintfFlags × Nat × List Byte × List PrintfArg) := do
  let c ← peek format
  if isDigit c then
    let (width, format) ← atoi 0 format
    return (flags, width, format, args)
  else if c = chr '*' then
    let (a, args) ← vaArg args
    let w : BitVec 32 := a.word.setWidth 32
    if w.toInt < 0 then
      let width ← negated w
      return ({ flags with left := true }, width, format.tail, args)
    else
      return (flags, w.toNat, format.tail, args)
  else
    return (flags, 0, format, args)

def parsePrecision (flags : PrintfFlags) (format : List Byte) (args : List PrintfArg) :
    Except Fault (PrintfFlags × Nat × List Byte × List PrintfArg) := do
  let c ← peek format
  if c = chr '.' then
    let flags := { flags with precision := true }
    let format := format.tail
    let c ← peek format
    if isDigit c then
      let (precision, format) ← atoi 0 format
      return (flags, precision, format, args)
    else if c = chr '*' then
      let (a, args) ← vaArg args
      let prec : BitVec 32 := a.word.setWidth 32
      return (flags, if 0 < prec.toInt then prec.toNat else 0, format.tail, args)
    else
      return (flags, 0, format, args)
  else
    return (flags, 0, format, args)

def parseLength (flags : PrintfFlags) (format : List Byte) :
    Except Fault (PrintfFlags × List Byte) := do
  let c ← peek format
  if c = chr 'l' then
    let flags := { flags with long := true }
    let format := format.tail
    if (← peek format) = chr 'l' then
      return ({ flags with longLong := true }, format.tail)
    else
      return (flags, format)
  else if c = chr 'h' then
    let flags := { flags with short := true }
    let format := format.tail
    if (← peek format) = chr 'h' then
      return ({ flags with char := true }, format.tail)
    else
      return (flags, format)
  else if c = chr 't' ∨ c = chr 'j' ∨ c = chr 'z' then
    return ({ flags with long := true }, format.tail)
  else
    return (flags, format)

/-- A directive up to its specifier. -/
structure Directive where
  flags : PrintfFlags
  width : Nat
  precision : Nat
  deriving DecidableEq, Repr

/-- `%[flags][width][.precision][length]`, read behind the `%`. -/
def parseDirective (format : List Byte) (args : List PrintfArg) :
    Except Fault (Directive × List Byte × List PrintfArg) := do
  let (flags, format) ← parseFlags {} format
  let (flags, width, format, args) ← parseWidth flags format args
  let (flags, precision, format, args) ← parsePrecision flags format args
  let (flags, format) ← parseLength flags format
  return (⟨flags, width, precision⟩, format, args)

/- Conversions. -/

section
variable {σ : Type} (out : OutFct σ) (maxlen : Nat)

def isSigned (specifier : Byte) : Bool := specifier = chr 'i' || specifier = chr 'd'

def baseOf (specifier : Byte) : Nat :=
  if specifier = chr 'x' ∨ specifier = chr 'X' then 16
  else if specifier = chr 'o' then 8
  else if specifier = chr 'b' then 2
  else 10

def integerFlags (flags : PrintfFlags) (specifier : Byte) : PrintfFlags :=
  let flags := if baseOf specifier = 10 then { flags with hash := false } else flags
  let flags := if specifier = chr 'X' then { flags with uppercase := true } else flags
  let flags := if !isSigned specifier then { flags with plus := false, space := false } else flags
  if flags.precision then { flags with zeropad := false } else flags

def signedValue (flags : PrintfFlags) (a : Word) : Except Fault (Bool × Nat) :=
  if flags.longLong || flags.long then
    if 0 < a.toInt then .ok (false, a.toNat)
    else (negated a).map fun value => (a.toInt < 0, value)
  else
    let value : BitVec 32 :=
      if flags.char then (a.setWidth 8).setWidth 32
      else if flags.short then (a.setWidth 16).signExtend 32
      else a.setWidth 32
    if 0 < value.toInt then .ok (false, value.toNat)
    else (negated value).map fun magnitude => (value.toInt < 0, magnitude)

def unsignedValue (flags : PrintfFlags) (a : Word) : Nat :=
  if flags.longLong || flags.long then a.toNat
  else if flags.char then (a.setWidth 8).toNat
  else if flags.short then (a.setWidth 16).toNat
  else (a.setWidth 32).toNat

def convertInteger (w : Written σ) (d : Directive) (specifier : Byte) (args : List PrintfArg) :
    Except Fault (Written σ × List PrintfArg) := do
  let base := baseOf specifier
  let flags := integerFlags d.flags specifier
  let (a, args) ← vaArg args
  if isSigned specifier then
    let (negative, value) ← signedValue flags a.word
    return (ntoaLong out maxlen w value negative base d.precision d.width flags, args)
  else
    return (ntoaLong out maxlen w (unsignedValue flags a.word) false base d.precision d.width flags,
      args)

def convertChar (w : Written σ) (d : Directive) (args : List PrintfArg) :
    Except Fault (Written σ × List PrintfArg) := do
  let w := if !d.flags.left then w.spaces out maxlen (d.width - 1) else w
  let (a, args) ← vaArg args
  let w := w.next out maxlen (a.word.setWidth 8)
  return (if d.flags.left then w.spaces out maxlen (d.width - 1) else w, args)

/-- `for (s = str; *s && maxsize--; ++s)`, as a length. -/
def strnlenS : List Byte → Nat → Except Fault Nat
  | [], _ => .error .inputOverread
  | c :: s, maxsize =>
    if c = 0 then .ok 0
    else match maxsize with
      | 0 => .ok 0
      | n + 1 => (strnlenS s n).map (· + 1)

/-- The output loop of `%s`, with the precision where it counts. -/
def outString (w : Written σ) : List Byte → Option Nat → Except Fault (Written σ)
  | [], _ => .error .inputOverread
  | c :: p, limit =>
    if c = 0 then .ok w
    else match limit with
      | some 0 => .ok w
      | some (n + 1) => outString (w.next out maxlen c) p (some n)
      | none => outString (w.next out maxlen c) p none

def stringLength (d : Directive) (p : List Byte) : Except Fault Nat := do
  let l ← strnlenS p (if d.precision ≠ 0 then d.precision else 2 ^ 64 - 1)
  let l := l % 2 ^ 32
  return if d.flags.precision then min l d.precision else l

def convertString (w : Written σ) (d : Directive) (args : List PrintfArg) :
    Except Fault (Written σ × List PrintfArg) := do
  let (a, args) ← vaArg args
  let l ← stringLength d a.text
  let w := if !d.flags.left then w.spaces out maxlen (d.width - l) else w
  let w ← outString out maxlen w a.text (if d.flags.precision then some d.precision else none)
  return (if d.flags.left then w.spaces out maxlen (d.width - l) else w, args)

def convertPointer (w : Written σ) (d : Directive) (args : List PrintfArg) :
    Except Fault (Written σ × List PrintfArg) := do
  let (a, args) ← vaArg args
  let flags := { d.flags with zeropad := true, uppercase := true }
  return (ntoaLong out maxlen w a.word.toNat false 16 d.precision 16 flags, args)

variable [FloatTexts]

def convertFloat (w : Written σ) (d : Directive) (specifier : Byte) (args : List PrintfArg) :
    Except Fault (Written σ × List PrintfArg) := do
  let (a, args) ← vaArg args
  if specifier = chr 'f' ∨ specifier = chr 'F' then
    let flags := if specifier = chr 'F' then { d.flags with uppercase := true } else d.flags
    let text ← FloatTexts.ftoa a.word d.precision d.width flags
    return (w.all out maxlen text, args)
  else
    let flags := if specifier = chr 'g' ∨ specifier = chr 'G' then { d.flags with adaptExp := true }
        else d.flags
    let flags := if specifier = chr 'E' ∨ specifier = chr 'G' then { flags with uppercase := true }
        else flags
    let text ← FloatTexts.etoa a.word d.precision d.width flags
    return (w.all out maxlen text, args)

def convert (w : Written σ) (d : Directive) (specifier : Byte) (args : List PrintfArg) :
    Except Fault (Written σ × List PrintfArg) :=
  if specifier ∈ str "diuxXob" then convertInteger out maxlen w d specifier args
  else if specifier ∈ str "fFeEgG" then convertFloat out maxlen w d specifier args
  else if specifier = chr 'c' then convertChar out maxlen w d args
  else if specifier = chr 's' then convertString out maxlen w d args
  else if specifier = chr 'p' then convertPointer out maxlen w d args
  else .ok (w.next out maxlen specifier, args)

/-- The `while` loop. Each pass reads a character at least, so that with as many passes as there
    are characters it only stops short where the format has no end. -/
def vsnprintfLoop : Nat → Written σ → List Byte → List PrintfArg → Except Fault (Written σ)
  | 0, _, _, _ => .error .inputOverread
  | n + 1, w, format, args => do
    let c ← peek format
    if c = 0 then
      return w
    else if c ≠ chr '%' then
      vsnprintfLoop n (w.next out maxlen c) format.tail args
    else
      let (d, format, args) ← parseDirective format.tail args
      let specifier ← peek format
      let (w, args) ← convert out maxlen w d specifier args
      vsnprintfLoop n w format.tail args

structure PrintfResult (σ : Type) where
  returned : Int
  buffer : σ

def vsnprintf (out : OutFct σ) (null : Bool) (buffer : σ) (maxlen : Word) (format : List Byte)
    (args : List PrintfArg) :
    Except Fault (PrintfResult σ) := do
  let out := if null then outNull else out
  let w ← vsnprintfLoop out maxlen.toNat format.length ⟨buffer, 0⟩ format args
  let last := if w.idx < maxlen.toNat then w.idx else (maxlen - 1).toNat
  return ⟨(BitVec.ofNat 32 w.idx).toInt, out 0 w.buffer last maxlen.toNat⟩

end

section
variable [FloatTexts]

def printf (format : List Byte) (args : List PrintfArg) : Except Fault (PrintfResult (List Byte)) :=
  vsnprintf outChar false [] (-1) format args

def snprintf (null : Bool) (buffer : Nat → Byte) (count : Word) (format : List Byte)
    (args : List PrintfArg) :
    Except Fault (PrintfResult (Nat → Byte)) := vsnprintf outBuffer null buffer count format args

def sprintf (null : Bool) (buffer : Nat → Byte) (format : List Byte) (args : List PrintfArg) :
    Except Fault (PrintfResult (Nat → Byte)) := vsnprintf outBuffer null buffer (-1) format args

def fctprintf {τ : Type} (fct : Byte → τ → τ) (arg : τ) (format : List Byte)
    (args : List PrintfArg) :
    Except Fault (PrintfResult τ) := vsnprintf (outFct fct) false arg (-1) format args

end

end Libgdb
