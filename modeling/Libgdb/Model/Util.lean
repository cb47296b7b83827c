import Libgdb.Model.Kernel

/-!
src/util.c. A read past the last byte of the input buffer and a write past the last byte of
the reply buffer are faults; every other access is in bounds by construction.
-/
namespace Libgdb
open ByteMemory (Byte Word)

/- Characters. -/

def hexchars : List Byte := str "0123456789abcdef"

def hexcharToInt (c : Byte) : Int :=
  if chr '0' ≤ c ∧ c ≤ chr '9' then c.toNat - (chr '0').toNat
  else if chr 'a' ≤ c ∧ c ≤ chr 'f' then c.toNat - (chr 'a').toNat + 10
  else if chr 'A' ≤ c ∧ c ≤ chr 'F' then c.toNat - (chr 'A').toNat + 10
  else -1

def intToHexchar (i : Int) : Byte :=
  if i < 0 ∨ 15 < i then BitVec.ofInt 8 (-1) else hexchars.getD i.toNat 0

/-- `c = hexchar_to_int(hi) << 4; c += hexchar_to_int(lo)` on an unsigned char `c`. -/
def hexPair (hi lo : Byte) : Byte :=
  BitVec.ofInt 8 (hexcharToInt hi * 16) + BitVec.ofInt 8 (hexcharToInt lo)

/- Reading the input buffer. -/

def peek : List Byte → Except Fault Byte
  | [] => .error .inputOverread
  | b :: _ => .ok b

/-- The second operand is a string literal with its NUL. -/
def strncmp : List Byte → List Byte → Nat → Except Fault Int
  | _, _, 0 => .ok 0
  | a :: s1, b :: s2, n + 1 =>
      let diff : Int := a.toNat - b.toNat
      if diff ≠ 0 ∨ a = 0 then .ok diff else strncmp s1 s2 n
  | _, _, _ => .error .inputOverread

def memchr : List Byte → Byte → Nat → Except Fault (Option (List Byte))
  | _, _, 0 => .ok none
  | [], _, _ + 1 => .error .inputOverread
  | b :: src, c, n + 1 => if b = c then .ok (some (b :: src)) else memchr src c n

def hexstrToInt : List Byte → Nat → Word → Except Fault (List Byte × Word)
  | [], _, _ => .error .inputOverread
  | c :: hexStr, maxBytes, val =>
      if c = 0 then .ok (c :: hexStr, val)
      else match maxBytes with
        | 0 => .ok (c :: hexStr, val)
        | n + 1 =>
          let byte := BitVec.ofInt 8 (hexcharToInt c)
          if byte = BitVec.ofInt 8 (-1) then .ok (c :: hexStr, val)
          else hexstrToInt hexStr n ((val <<< 4) ||| (byte &&& 0xF#8).setWidth 64)

/-- The bytes stored to `mem`, and `buf` past the digits read. -/
def hex2mem : List Byte → Nat → Except Fault (List Byte × List Byte)
  | buf, 0 => .ok ([], buf)
  | hi :: lo :: buf, size + 1 => do
      let (mem, buf) ← hex2mem buf size
      return (hexPair hi lo :: mem, buf)
  | _, _ + 1 => .error .inputOverread

/- The reply buffer. -/

def strnlen (s : Nat → Byte) : Nat → Nat
  | 0 => 0
  | maxlen + 1 => if s 0 = 0 then 0 else strnlen (fun i => s (i + 1)) maxlen + 1

def cstring (s : Nat → Byte) : Nat → List Byte
  | 0 => []
  | maxlen + 1 => if s 0 = 0 then [] else s 0 :: cstring (fun i => s (i + 1)) maxlen

section
variable [Machine]

def put (ptr : Nat) (b : Byte) : Stub Unit := do
  if ptr < bufsize then
    modify fun s => s.withOutput (Function.update s.output ptr b)
  else
    throw .outputOverflow

def strlcpyFrom (dest len size : Nat) : List Byte → Stub Unit
  | [] => put (dest + len) 0
  | b :: src =>
      if len + 1 < size then do
        put (dest + len) b
        strlcpyFrom dest (len + 1) size src
      else
        put (dest + len) 0

def strlcpy (dest : Nat) (src : List Byte) (size : Nat) : Stub Unit := strlcpyFrom dest 0 size src

def outputLen : Stub Nat := do
  let s ← get
  return strnlen s.output bufsize

/-- Writes to `output + buf` and returns the position of the NUL it ends with. -/
def mem2hex : List Byte → Nat → Stub Nat
  | [], buf => do
      put buf 0
      return buf
  | c :: mem, buf => do
      put buf (intToHexchar (c.toNat >>> 4 : Nat))
      put (buf + 1) (intToHexchar (c.toNat % 16 : Nat))
      mem2hex mem (buf + 2)

end
end Libgdb
