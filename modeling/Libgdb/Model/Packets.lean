import Libgdb.Model.Registry

/-!
src/gdb.c, the packet handlers other than vCont, and the parsers they read packets with. The
input is the buffer from the packet's first character to the buffer's end.
-/
namespace Libgdb
open ByteMemory SlotTables
variable [Machine]

/- Registers. -/

def handleReadRegs : Stub Unit := do
  let context ← freshContext
  let s ← get
  let t ← deref s.targetThread
  let context ← tcbReadRegisters (s.thread t).tcb true context
  let _ ← regs2hex context 0

def handleWriteRegs (ptr : List Byte) : Stub Unit := do
  assert ((← liftParse (peek ptr)) = chr 'G')
  let context ← freshContext
  let (context, _) ← liftParse (hex2regs context ptr.tail)
  let s ← get
  let t ← deref s.targetThread
  let _ ← tcbWriteRegisters (s.thread t).tcb true context
  strlcpy 0 (str "OK") bufsize

/- Queries. -/

def textIs (ptr : List Byte) (literal : String) (n : Nat) : Stub Bool := do
  let diff ← liftParse (strncmp ptr (str literal ++ [0]) n)
  return diff = 0

def qSupportedReply : List Byte :=
  str "qSupported:PacketSize=" ++ (Nat.toDigits 16 bufsize).map chr ++
    str ";QThreadEvents+;swbreak+;hwbreak+;vContSupported+;fork-events+;exec-events+;" ++
    str "multiprocess+;"

/-- The nested loops over inferiors and threads, with `num_printed` and `out_ptr`. -/
def listThreads : List ThreadRef → (numPrinted outPtr : Nat) → Stub Unit
  | [], _, _ => return ()
  | t :: ts, numPrinted, outPtr => do
      let s ← get
      if s.live t then
        if 0 < numPrinted then
          put outPtr (chr ',')
          let outPtr ← writeThreadId t (outPtr + 1)
          listThreads ts (numPrinted + 1) outPtr
        else
          let outPtr ← writeThreadId t outPtr
          listThreads ts (numPrinted + 1) outPtr
      else
        listThreads ts numPrinted outPtr

def handleQuery (ptr : List Byte) : Stub Unit := do
  if ← textIs ptr "qSupported" 10 then
    strlcpy 0 qSupportedReply bufsize
  else if ← textIs ptr "qfThreadInfo" 12 then
    put 0 (chr 'm')
    listThreads threadRefs 0 1
  else if ← textIs ptr "qsThreadInfo" 12 then
    strlcpy 0 (str "l") bufsize
  else if ← textIs ptr "qC" 2 then
    strlcpy 0 (str "QCp1.1") bufsize
  else if ← textIs ptr "qSymbol" 7 then
    strlcpy 0 (str "OK") bufsize
  else if ← textIs ptr "qTStatus" 8 then
    strlcpy 0 (str "T0") bufsize
  else if ← textIs ptr "qAttached" 9 then
    strlcpy 0 (str "1") bufsize
  else if ← textIs ptr "QThreadEvents:1" 15 then
    strlcpy 0 (str "OK") bufsize
  else if ← textIs ptr "QThreadEvents:0" 15 then
    strlcpy 0 (str "OK") bufsize

/- Memory. -/

def parseMemFormat (ptr : List Byte) : Except Fault (Option (Word × Word)) := do
  let first ← peek ptr
  let (ptr, addr) ← hexstrToInt ptr.tail 16 0
  if (← peek ptr) ≠ chr ',' then
    return none
  else
    let (ptr, size) ← hexstrToInt ptr.tail 16 0
    let last ← peek ptr
    if last = 0 ∨ (first = chr 'M' ∧ last = chr ':') then
      return some (addr, size)
    else
      return none

/-- A 64-bit size passed to an `int` parameter. -/
def intOfWord (w : Word) : Int := (w.setWidth 32).toInt

def handleReadMem (ptr : List Byte) : Stub Unit := do
  match ← liftParse (parseMemFormat ptr) with
  | none => strlcpy 0 (str "E01") bufsize
  | some (addr, size) =>
    if BitVec.ofNat 64 (bufsize - 1) < size * 2 then
      strlcpy 0 (str "E01") bufsize
    else
      let s ← get
      match ← infMem2hex s.targetThread addr 0 (intOfWord size) with
      | none => strlcpy 0 (str "E04") bufsize
      | some _ => return ()

def handleWriteMem (ptr : List Byte) : Stub Unit := do
  match ← liftParse (parseMemFormat ptr) with
  | none => strlcpy 0 (str "E02") bufsize
  | some (addr, size) =>
    match ← liftParse (memchr ptr (chr ':') bufsize) with
    | none => return ()
    | some ptr =>
      let s ← get
      let mem ← infHex2mem s.targetThread ptr.tail addr (intOfWord size)
      if mem = 0 then
        strlcpy 0 (str "E03") bufsize
      else
        strlcpy 0 (str "OK") bufsize

/- Breakpoint and watchpoint packets. -/

def assertParse (c : Prop) [Decidable c] : Except Fault Unit :=
  if c then .ok () else .error .assertFail

def parseBreakpointFormat (ptr : List Byte) : Except Fault (Option (Word × Word)) := do
  let c ← peek ptr
  assertParse (c = chr 'Z' ∨ c = chr 'z')
  let c ← peek ptr.tail
  assertParse (chr '0' ≤ c ∧ c ≤ chr '4')
  let c ← peek ptr.tail.tail
  assertParse (c = chr ',')
  let (ptr, addr) ← hexstrToInt ptr.tail.tail.tail 16 0
  if (← peek ptr) ≠ chr ',' then
    return none
  else
    let (_, kind) ← hexstrToInt ptr.tail 16 0
    if kind ≠ 1 ∧ kind ≠ 2 ∧ kind ≠ 4 ∧ kind ≠ 8 then
      return none
    else
      return some (addr, kind)

/-- `target_thread->inferior`, dereferenced by every function it is passed to. -/
def targetInferior : Stub (Fin maxPds) := do
  let s ← get
  let t ← deref s.targetThread
  deref (s.thread t).inferior

def watchpointAccess (c : Byte) : Option BreakpointAccess :=
  if c = chr '2' then some .breakOnWrite
  else if c = chr '3' then some .breakOnRead
  else if c = chr '4' then some .breakOnReadWrite
  else none

def handleConfigureDebugEvents (ptr : List Byte) : Stub Unit := do
  match ← liftParse (parseBreakpointFormat ptr) with
  | none => strlcpy 0 (str "E01") bufsize
  | some (addr, size) =>
    let reply (success : Bool) : Stub Unit :=
      strlcpy 0 (if success then str "OK" else str "E01") bufsize
    if ← textIs ptr "Z0" 2 then
      reply (← setSoftwareBreakpoint (← targetInferior) addr)
    else if ← textIs ptr "z0" 2 then
      reply (← unsetSoftwareBreakpoint (← targetInferior) addr)
    else if ← textIs ptr "Z1" 2 then
      reply (← setHardwareBreakpoint (← targetInferior) addr)
    else if ← textIs ptr "z1" 2 then
      reply (← unsetHardwareBreakpoint (← targetInferior) addr)
    else
      match watchpointAccess (← liftParse (peek ptr.tail)) with
      | none => strlcpy 0 (str "E01") bufsize
      | some access =>
        if (← liftParse (peek ptr)) = chr 'Z' then
          reply (← setHardwareWatchpoint (← targetInferior) addr access size)
        else
          reply (← unsetHardwareWatchpoint (← targetInferior) addr access size)

/- Thread ids. -/

/-- What `parse_thread_id` returns (`none` is NULL) and leaves in the two ints. -/
structure ParsedId where
  ptr : Option (List Byte)
  procId : BitVec 32
  threadId : BitVec 32
  deriving DecidableEq, Repr

/-- `while (*ptr_tmp++ != '.') size++`: the count, and the pointer past the dot. -/
def spanDot : List Byte → Except Fault (Nat × List Byte)
  | [] => .error .inputOverread
  | c :: s =>
      if c = chr '.' then .ok (0, s)
      else do
        let (size, s) ← spanDot s
        return (size + 1, s)

/-- `while (hexchar_to_int(*ptr_tmp++) != -1) size++`: the count, and `ptr_tmp - 1`. -/
def spanHex : List Byte → Except Fault (Nat × List Byte)
  | [] => .error .inputOverread
  | c :: s =>
      if hexcharToInt c = -1 then .ok (0, c :: s)
      else do
        let (size, s) ← spanHex s
        return (size + 1, s)

def overwriteInt (old : BitVec 32) (mem : List Byte) : BitVec 32 :=
  BitVec.ofNat 32 (digits (fun k => mem.getD k (old.extractLsb' (8 * k) 8)) 4)

/-- Stores the number whose text is `chars` characters at `ptr` to an int holding `old`. -/
def storeId (ptr : List Byte) (chars : Nat) (old : BitVec 32) : Except Fault (BitVec 32) := do
  let size := chars / 2
  if size = 0 then
    let c ← peek ptr
    return BitVec.ofInt 32 (hexcharToInt c)
  else
    let (mem, _) ← hex2mem ptr size
    if size ≤ 4 then
      return overwriteInt old mem
    else
      .error .localOverwrite

def minusOne (ptr : List Byte) : Except Fault Bool := do
  let diff ← strncmp ptr (str "-1" ++ [0]) 3
  return diff = 0

def parseThreadId (ptr : List Byte) (procId threadId : BitVec 32) : Except Fault ParsedId := do
  if (← peek ptr) ≠ chr 'p' then
    return ⟨none, procId, threadId⟩
  else
    let ptr := ptr.tail
    if ← minusOne ptr then
      return ⟨some (ptr.drop 2), -1, threadId⟩
    else
      let (size, ptrTmp) ← spanDot ptr
      let procId ← storeId ptr size procId
      if ← minusOne ptrTmp then
        return ⟨some (ptrTmp.drop 2), procId, -1⟩
      else
        let (size, rest) ← spanHex ptrTmp
        let threadId ← storeId ptrTmp size threadId
        return ⟨some rest, procId, threadId⟩

/-- `(x - 1) % n` on ints -/
def idToIdx (x : Int) (n : Nat) : Except Fault Int :=
  if x = -2 ^ 31 then .error .intOverflow else .ok ((x - 1).tmod n)

def tableIndex (n : Nat) (i : Int) : Except Fault (Fin n) :=
  if h : 0 ≤ i ∧ i < n then .ok ⟨i.toNat, by omega⟩ else .error .indexOutOfBounds

def lookupInferiorFromGdbId (s : State) (procId : Int) : Except Fault (Option (Fin maxPds)) := do
  let pd ← tableIndex maxPds (← idToIdx procId maxPds)
  return if (s.inferiors pd).gdbId.toNat ≠ procId then none else some pd

def lookupThreadFromGdbId (s : State) (procId threadId : Int) :
    Except Fault (Option ThreadRef) := do
  let pd ← tableIndex maxPds (← idToIdx procId maxPds)
  if (s.inferiors pd).gdbId.toNat ≠ procId then
    return none
  else
    let slot ← tableIndex maxThreads (← idToIdx threadId maxThreads)
    return if ((s.inferiors pd).threads slot).gdbId.toNat ≠ threadId then none else some ⟨pd, slot⟩

def handleCheckThreadAlive (ptr : List Byte) : Stub Unit := do
  assert ((← liftParse (peek ptr)) = chr 'T')
  let procId ← freshInt
  let id ← liftParse (parseThreadId ptr.tail procId 0)
  match id.ptr with
  | none => strlcpy 0 (str "E02") bufsize
  | some _ =>
    let s ← get
    let t ← deref (← liftParse (lookupThreadFromGdbId s id.procId.toInt id.threadId.toInt))
    if (s.thread t).gdbId.toNat = id.threadId.toInt ∧ (s.thread t).enabled then
      strlcpy 0 (str "OK") bufsize

/-- `assert(target_thread->enabled && target_thread->tcb != 0)`, then the reply. -/
def confirmTarget : Stub Unit := do
  let s ← get
  let t ← deref s.targetThread
  assert ((s.thread t).enabled = true ∧ (s.thread t).tcb ≠ 0)
  strlcpy 0 (str "OK") bufsize

def dashOne (ptr : List Byte) : Except Fault Bool := do
  if (← peek ptr) = chr '-' then
    return (← peek ptr.tail) = chr '1'
  else
    return false

/-- The first assertion of the source assigns to its argument and always holds. -/
def handleSetInferior (ptr : List Byte) : Stub Unit := do
  let procId ← freshInt
  let c ← liftParse (peek ptr.tail)
  if c ≠ chr 'g' ∧ c ≠ chr 'c' then
    strlcpy 0 (str "E01") bufsize
  else
    let ptr := ptr.tail.tail
    if ← liftParse (dashOne ptr) then
      let s ← get
      assert (s.targetThread ≠ none)
      strlcpy 0 (str "OK") bufsize
    else
      let id ← liftParse (parseThreadId ptr procId 0)
      match id.ptr with
      | none => strlcpy 0 (str "E02") bufsize
      | some _ =>
        let procId := id.procId.toInt
        let threadId := id.threadId.toInt
        assert (procId ≠ -1)
        if procId = 0 then
          confirmTarget
        else
          let s ← get
          match ← liftParse (lookupInferiorFromGdbId s procId) with
          | none => strlcpy 0 (str "E02") bufsize
          | some _ =>
            if threadId = -1 then
              confirmTarget
            else
              let t ← liftParse
                (lookupThreadFromGdbId s procId (if threadId = 0 then 1 else threadId))
              modify fun s : State => { s with targetThread := t }
              confirmTarget

def handleSigInterrupt : Stub Unit := strlcpy 0 (str "S02") bufsize

/- Detaching. -/

def detachThread (t : ThreadRef) : Stub Unit := do
  let s ← get
  if (s.thread t).enabled then
    if (s.thread t).ssEnabled then
      let _ ← disableSingleStep t
    modify fun s : State => s.setThread t { s.thread t with ssEnabled := false, wakeup := true }

def detachInferior (pd : Fin maxPds) : Stub Unit := do
  (List.finRange maxSwBreaks).forM fun i => do
    let s ← get
    let _ ← unsetSoftwareBreakpoint pd ((s.inferiors pd).softwareBreakpoints i).addr
  (List.finRange numExclusiveBreakpoints).forM fun i => do
    let s ← get
    let _ ← unsetHardwareBreakpoint pd ((s.inferiors pd).hardwareBreakpoints i).addr
  (List.finRange numExclusiveWatchpoints).forM fun i => do
    let s ← get
    let wp := (s.inferiors pd).hardwareWatchpoints i
    let _ ← unsetHardwareWatchpoint pd wp.addr wp.type wp.size
  modify fun s : State => s.setInferior pd
    { s.inferiors pd with
      softwareBreakpoints := fun _ => .zero
      hardwareBreakpoints := fun _ => .zero
      hardwareWatchpoints := fun _ => .zero }
  (List.finRange maxThreads).forM fun slot => detachThread ⟨pd, slot⟩

def handleDetach : Stub Unit := do
  strlcpy 0 (str "OK") bufsize
  (List.finRange maxPds).forM fun pd => do
    let s ← get
    if (s.inferiors pd).enabled then
      detachInferior pd

end Libgdb
