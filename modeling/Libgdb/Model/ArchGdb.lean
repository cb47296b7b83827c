import Libgdb.Library.SlotTables
import Libgdb.Model.Util

/-!
src/arch/arm/64/gdb.c: register texts, breakpoints and watchpoints, single stepping, and
memory transfers between the reply or input buffer and an inferior's vspace.
-/
namespace Libgdb
open ByteMemory SlotTables
variable [Machine]

/- Registers. -/

def wordBytes (w : Word) : List Byte := (List.range 8).map (byteOf w)

/-- The fields sent on the wire, in order: of `spsr` only the lower half. -/
def UserContext.wire (regs : UserContext) : List (List Byte) :=
  (List.finRange 31).map (fun i => wordBytes (regs.x i)) ++
    [wordBytes regs.sp, wordBytes regs.pc, (wordBytes regs.spsr).take 4]

def mem2hexFields : List (List Byte) → Nat → Stub Nat
  | [], buf => return buf
  | mem :: fields, buf => do
      let buf ← mem2hex mem buf
      mem2hexFields fields buf

def regs2hex (regs : UserContext) (buf : Nat) : Stub Nat := mem2hexFields regs.wire buf

def hex2word (buf : List Byte) : Except Fault (Word × List Byte) := do
  let (mem, buf) ← hex2mem buf 8
  return (ofBytes fun k => mem.getD k 0, buf)

def hex2general : List (Fin 31) → UserContext → List Byte → Except Fault (UserContext × List Byte)
  | [], regs, buf => return (regs, buf)
  | i :: is, regs, buf => do
      let (w, buf) ← hex2word buf
      hex2general is { regs with x := Function.update regs.x i w } buf

def hex2regs (regs : UserContext) (buf : List Byte) : Except Fault (UserContext × List Byte) := do
  let (regs, buf) ← hex2general (List.finRange 31) regs buf
  let (sp, buf) ← hex2word buf
  let (pc, buf) ← hex2word buf
  let (low, buf) ← hex2mem buf 4
  let spsr := ofBytes fun k => low.getD k (byteOf regs.spsr k)
  return ({ regs with sp := sp, pc := pc, spsr := spsr }, buf)

/- Software breakpoints. -/

def aarch64BreakMon : BitVec 32 := 0xd4200000
def kgdbDynDbgBrkImm : BitVec 32 := 0x400
def aarch64BreakKgdbDynDbg : BitVec 32 := aarch64BreakMon ||| (kgdbDynDbgBrkImm <<< 5)

def Inferior.setSwBreak (i : Inferior) (slot : Fin maxSwBreaks) (entry : SwBreak) : Inferior :=
  { i with softwareBreakpoints := Function.update i.softwareBreakpoints slot entry }

/-- The instruction overwritten, the upper half of the word preserved. -/
def brkWord (value : Word) : Word :=
  aarch64BreakKgdbDynDbg.setWidth 64 ||| (0xFFFFFFFF00000000#64 &&& value)

def setSoftwareBreakpoint (pd : Fin maxPds) (address : Word) : Stub Bool := do
  let s ← get
  let vspace := (s.inferiors pd).vspace
  match ← vspaceReadWord vspace address with
  | none => return false
  | some value =>
    let tmp : SwBreak := { addr := address, origWord := value }
    let err ← vspaceWriteWord vspace address (brkWord value)
    if err then
      return false
    else
      match firstSlot (fun i => ((s.inferiors pd).softwareBreakpoints i).addr == 0) with
      | some i =>
        modify fun s : State => s.setInferior pd ((s.inferiors pd).setSwBreak i tmp)
        return true
      | none =>
        let _ ← vspaceWriteWord vspace address tmp.origWord
        return false

def unsetSoftwareBreakpoint (pd : Fin maxPds) (address : Word) : Stub Bool := do
  let s ← get
  match firstSlot (fun i => ((s.inferiors pd).softwareBreakpoints i).addr == address) with
  | some i =>
    let entry := (s.inferiors pd).softwareBreakpoints i
    let err ← vspaceWriteWord (s.inferiors pd).vspace address entry.origWord
    if err then
      return false
    else
      modify fun s : State => s.setInferior pd
        ((s.inferiors pd).setSwBreak i { entry with addr := 0 })
      return true
  | none => return true

/- Hardware breakpoints and watchpoints. -/

/-- `seL4_TCB_SetBreakpoint` on every enabled thread; stops at the first failure. -/
def armThreads (pd : Fin maxPds) (bpNum : Nat) (setting : DebugSetting) :
    List (Fin maxThreads) → Stub Bool
  | [] => return true
  | j :: js => do
      let s ← get
      let thread := (s.inferiors pd).threads j
      if thread.enabled then
        let err ← tcbSetBreakpoint thread.tcb bpNum setting
        if err then
          return false
        else
          armThreads pd bpNum setting js
      else
        armThreads pd bpNum setting js

/-- `seL4_TCB_UnsetBreakpoint` on every enabled thread; failures are ignored. -/
def disarmThreads (pd : Fin maxPds) (bpNum : Nat) : List (Fin maxThreads) → Stub Unit
  | [] => return ()
  | j :: js => do
      let s ← get
      let thread := (s.inferiors pd).threads j
      if thread.enabled then
        let _ ← tcbUnsetBreakpoint thread.tcb bpNum
        disarmThreads pd bpNum js
      else
        disarmThreads pd bpNum js

def HwBreak.setting (bp : HwBreak) : DebugSetting :=
  ⟨bp.addr, .instructionBreakpoint, 0, .breakOnRead⟩
def HwWatch.setting (wp : HwWatch) : DebugSetting := ⟨wp.addr, .dataBreakpoint, wp.size, wp.type⟩

def Inferior.setHwBreak (i : Inferior) (n : Fin numExclusiveBreakpoints) (bp : HwBreak) :
    Inferior :=
  { i with hardwareBreakpoints := Function.update i.hardwareBreakpoints n bp }

def Inferior.setHwWatch (i : Inferior) (n : Fin numExclusiveWatchpoints) (wp : HwWatch) :
    Inferior :=
  { i with hardwareWatchpoints := Function.update i.hardwareWatchpoints n wp }

def setHardwareBreakpoint (pd : Fin maxPds) (address : Word) : Stub Bool := do
  let s ← get
  match firstSlot (fun i => ((s.inferiors pd).hardwareBreakpoints i).addr == 0) with
  | none => return false
  | some i =>
    let bp : HwBreak := { addr := address }
    let armed ← armThreads pd (firstBreakpoint + i) bp.setting (List.finRange maxThreads)
    if armed then
      modify fun s : State => s.setInferior pd ((s.inferiors pd).setHwBreak i bp)
      return true
    else
      return false

/-- `thread_enable_nth_hw_breakpoint`; its assertion on `n` is the type of `n`. -/
def threadEnableNthHwBreakpoint (t : ThreadRef) (n : Fin numExclusiveBreakpoints) : Stub Bool := do
  let s ← get
  let pd ← deref (s.thread t).inferior
  let bp := (s.inferiors pd).hardwareBreakpoints n
  if bp.addr = 0 then
    return true
  else
    let err ← tcbSetBreakpoint (s.thread t).tcb (firstBreakpoint + n) bp.setting
    return !err

def unsetHardwareBreakpoint (pd : Fin maxPds) (address : Word) : Stub Bool := do
  let s ← get
  match firstSlot (fun i => ((s.inferiors pd).hardwareBreakpoints i).addr == address) with
  | none => return false
  | some i =>
    modify fun s : State => s.setInferior pd ((s.inferiors pd).setHwBreak i { addr := 0 })
    disarmThreads pd (firstBreakpoint + i) (List.finRange maxThreads)
    return true

def setHardwareWatchpoint (pd : Fin maxPds) (address : Word) (type : BreakpointAccess)
    (size : Word) : Stub Bool := do
  let s ← get
  match firstSlot (fun i => ((s.inferiors pd).hardwareWatchpoints i).addr == 0) with
  | none => return false
  | some i =>
    let wp : HwWatch := { addr := address, size := size, type := type }
    let armed ← armThreads pd (firstWatchpoint + i) wp.setting (List.finRange maxThreads)
    if armed then
      modify fun s : State => s.setInferior pd ((s.inferiors pd).setHwWatch i wp)
      return true
    else
      return false

def threadEnableNthHwWatchpoint (t : ThreadRef) (n : Fin numExclusiveWatchpoints) : Stub Bool := do
  let s ← get
  let pd ← deref (s.thread t).inferior
  let wp := (s.inferiors pd).hardwareWatchpoints n
  if wp.addr = 0 then
    return true
  else
    let err ← tcbSetBreakpoint (s.thread t).tcb (firstWatchpoint + n) wp.setting
    return !err

def unsetHardwareWatchpoint (pd : Fin maxPds) (address : Word) (type : BreakpointAccess)
    (size : Word) : Stub Bool := do
  let s ← get
  match firstSlot (fun i => (s.inferiors pd).hardwareWatchpoints i == ⟨address, size, type⟩) with
  | none => return false
  | some i =>
    modify fun s : State =>
      s.setInferior pd ((s.inferiors pd).setHwWatch i { addr := 0, size := size, type := type })
    disarmThreads pd (firstWatchpoint + i) (List.finRange maxThreads)
    return true

/- Single stepping. -/

def enableSingleStep (t : ThreadRef) : Stub Bool := do
  modify fun s : State => s.setThread t { s.thread t with ssEnabled := true }
  let s ← get
  let _ ← tcbConfigureSingleStepping (s.thread t).tcb 1
  return true

def disableSingleStep (t : ThreadRef) : Stub Bool := do
  let s ← get
  let _ ← tcbConfigureSingleStepping (s.thread t).tcb 0
  return true

/- Memory transfers. -/

def readInferiorWord (thread : Option ThreadRef) (mem : Word) : Stub (Option Word) := do
  let s ← get
  let t ← deref thread
  let pd ← deref (s.thread t).inferior
  vspaceReadWord (s.inferiors pd).vspace mem

def writeInferiorWord (thread : Option ThreadRef) (mem value : Word) : Stub Bool := do
  let s ← get
  let t ← deref thread
  let pd ← deref (s.thread t).inferior
  vspaceWriteWord (s.inferiors pd).vspace mem value

def infMem2hexLoop (thread : Option ThreadRef) :
    (n i : Nat) → (mem currWord : Word) → (buf : Nat) → Stub (Option Nat)
  | 0, _, _, _, buf => do
      put buf 0
      return some buf
  | n + 1, i, mem, currWord, buf => do
      let word ← if i % 8 = 0 then readInferiorWord thread mem else pure (some currWord)
      match word with
      | none => return none
      | some currWord =>
        let c := byteOf currWord (i % 8)
        put buf (intToHexchar (c.toNat >>> 4 : Nat))
        put (buf + 1) (intToHexchar (c.toNat % 16 : Nat))
        infMem2hexLoop thread n (i + 1) (if i % 8 = 0 then mem + 8 else mem) currWord (buf + 2)

/-- NULL is `none`: a word could not be read. -/
def infMem2hex (thread : Option ThreadRef) (mem : Word) (buf : Nat) (size : Int) :
    Stub (Option Nat) := infMem2hexLoop thread size.toNat 0 mem 0 buf

def infHex2memLoop (thread : Option ThreadRef) :
    (n i : Nat) → List Byte → (mem currWord : Word) → Stub Word
  | 0, i, _, mem, _ => return mem + BitVec.ofNat 64 i
  | n + 1, i, buf, mem, currWord => do
      let word ← if i % 8 = 0 then readInferiorWord thread mem else pure (some currWord)
      match word with
      | none => return mem + BitVec.ofNat 64 i
      | some currWord =>
        match buf with
        | hi :: lo :: buf =>
          let currWord := setByte currWord (i % 8) (hexPair hi lo)
          -- the last byte of a word, or of the data: `i == size - 1`
          if i % 8 = 7 ∨ n = 0 then
            let err ← writeInferiorWord thread (mem + BitVec.ofNat 64 (i / 8)) currWord
            if err then
              return mem + BitVec.ofNat 64 i
            else
              infHex2memLoop thread n (i + 1) buf (mem + 8 + 1) currWord
          else
            infHex2memLoop thread n (i + 1) buf (mem + 1) currWord
        | _ => throw .inputOverread

def infHex2mem (thread : Option ThreadRef) (buf : List Byte) (mem : Word) (size : Int) :
    Stub Word := infHex2memLoop thread size.toNat 0 buf mem 0

end Libgdb
