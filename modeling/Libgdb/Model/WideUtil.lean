import Libgdb.Library.WideAccesses
import Libgdb.Model.Util

/-!
`memset` and `memchr` of src/util.c, which store and load several bytes at a time. The stores and
the loads of words are listed, for their places.
-/
namespace Libgdb
open ByteMemory

/- memset. -/

def ptrAdd (s : Word) (i : Nat) : Word := s + BitVec.ofNat 64 i

def byteStores (s : Word) (c : Byte) (is : List Nat) : List WideStore :=
  is.map fun i => ⟨ptrAdd s i, 1, c.setWidth 64⟩

/-- `*(u32 *)(s+i) = c32` for these `i` -/
def u32Stores (s : Word) (c32 : BitVec 32) (is : List Nat) : List WideStore :=
  is.map fun i => ⟨ptrAdd s i, 4, c32.setWidth 64⟩

/-- `*(u64 *)(s+i) = c64` for these `i` -/
def u64Stores (s c64 : Word) (is : List Nat) : List WideStore :=
  is.map fun i => ⟨ptrAdd s i, 8, c64⟩

def memsetLoop (c64 : Word) (s : Word) (n : Nat) : List WideStore :=
  if 32 ≤ n then u64Stores s c64 [0, 8, 16, 24] ++ memsetLoop c64 (ptrAdd s 32) (n - 32) else []
termination_by n

/-- `memset` once the pointer is aligned to 4 bytes. -/
def memsetAligned (c : Byte) (s : Word) (n : Nat) : List WideStore :=
  let c32 : BitVec 32 := -1 / 255 * c.setWidth 32
  u32Stores s c32 [0, n - 4] ++
  if n ≤ 8 then []
  else
    u32Stores s c32 [4, 8, n - 12, n - 8] ++
    if n ≤ 24 then []
    else
      u32Stores s c32 [12, 16, 20, 24, n - 28, n - 24, n - 20, n - 16] ++
      let k := 24 + (s &&& 4).toNat
      let s := ptrAdd s k
      let n := n - k
      let c64 : Word := c32.setWidth 64 ||| c32.setWidth 64 <<< 32
      memsetLoop c64 s n

def memsetStores (dest : Word) (c : BitVec 32) (n : Nat) : List WideStore :=
  let s := dest
  let c : Byte := c.setWidth 8
  if n = 0 then []
  else
    byteStores s c [n - 1, 0] ++
    if n ≤ 2 then []
    else
      byteStores s c [n - 2, 1, n - 3, 2] ++
      if n ≤ 6 then []
      else
        byteStores s c [n - 4, 3] ++
        if n ≤ 8 then []
        else
          let k := (-s &&& 3).toNat
          let s := ptrAdd s k
          let n := n - k
          let n := n / 4 * 4
          memsetAligned c s n

def memset (m : Memory) (dest : Word) (c : BitVec 32) (n : Word) : Memory :=
  runStores m (memsetStores dest c n.toNat)

/- memchr. -/

def memchrOnes : Word := -1 / 255
def memchrHighs : Word := memchrOnes * (255 / 2 + 1)

/-- `HASZERO(x)` -/
def hasZero (x : Word) : Bool := (x - memchrOnes) &&& ~~~x &&& memchrHighs ≠ 0

def memchrHead (m : Memory) (c : Byte) (s : Word) : Nat → Word × Nat
  | 0 => (s, 0)
  | n + 1 => if s &&& 7 ≠ 0 ∧ m s ≠ c then memchrHead m c (s + 1) n else (s, n + 1)

/-- The word loop, with the addresses loaded from. -/
def memchrWords (m : Memory) (k : Word) (s : Word) (n : Nat) : List Word × Word × Nat :=
  if 8 ≤ n then
    if hasZero (load m s ^^^ k) then ([s], s, n)
    else
      let (loads, s', n') := memchrWords m k (s + 8) (n - 8)
      (s :: loads, s', n')
  else ([], s, n)
termination_by n

def memchrTail (m : Memory) (c : Byte) (s : Word) : Nat → Word × Nat
  | 0 => (s, 0)
  | n + 1 => if m s ≠ c then memchrTail m c (s + 1) n else (s, n + 1)

/-- The words `memchr` loads, and what it returns. -/
def memchrRun (m : Memory) (src : Word) (c : BitVec 32) (n : Word) : List Word × Option Word :=
  let c : Byte := c.setWidth 8
  let (s, n) := memchrHead m c src n.toNat
  let (loads, s, n) :=
    if n ≠ 0 ∧ m s ≠ c then
      let k := memchrOnes * c.setWidth 64
      let (loads, s, n) := memchrWords m k s n
      (loads, memchrTail m c s n)
    else ([], s, n)
  (loads, if n ≠ 0 then some s else none)

end Libgdb
