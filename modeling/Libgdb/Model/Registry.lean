import Libgdb.Model.ArchGdb

/-!
src/gdb.c, the registry: lookups by id, registration and exit of inferiors and threads, the
event texts, faults, and suspending and resuming the system.
-/
namespace Libgdb
open ByteMemory SlotTables

inductive DebuggerError where
  | noError
  | alreadyRegistered
  | insufficientResources
  | invalidArguments
  deriving DecidableEq, Repr

abbrev intMax : Nat := 2 ^ 31 - 1

variable [Machine]

/-- Writes `p<low byte>.<low byte>` to `output + ptr`. -/
def writeThreadId (t : ThreadRef) (ptr : Nat) : Stub Nat := do
  put ptr (chr 'p')
  let s ← get
  let pd ← deref (s.thread t).inferior
  let ptr ← mem2hex [(s.inferiors pd).gdbId.setWidth 8] (ptr + 1)
  put ptr (chr '.')
  mem2hex [(s.thread t).gdbId.setWidth 8] (ptr + 1)

def lookupInferiorFromId (s : State) (inferiorId : Word) : Option (Fin maxPds) :=
  firstSlot fun i => (s.inferiors i).enabled && (s.inferiors i).id == inferiorId

def lookupThreadFromId (inferior : Inferior) (threadId : Word) : Option (Fin maxThreads) :=
  firstSlot fun i => (inferior.threads i).enabled && (inferior.threads i).id == threadId

def gdbRegisterInferior (inferiorId vspace : Word) : Stub DebuggerError := do
  let s ← get
  match lookupInferiorFromId s inferiorId with
  | some pd =>
    if (s.inferiors pd).vspace = vspace then
      return .alreadyRegistered
    else
      return .invalidArguments
  | none =>
    if intMax < s.currInferiorIdx + maxPds then
      throw .intOverflow
    else
      match ringScan (fun i => (s.inferiors i).enabled) maxPds s.currInferiorIdx with
      | (idx, none) =>
        modify fun s : State => { s with currInferiorIdx := idx }
        return .insufficientResources
      | (idx, some pd) =>
        let inferior : Inferior :=
          { Inferior.zero with
            enabled := true
            id := inferiorId
            gdbId := BitVec.ofNat 16 (idx + 1)
            vspace := vspace }
        modify fun s : State => { s with currInferiorIdx := idx + 1 }.setInferior pd inferior
        return .noError

/-- The thread becomes the target if there is none, else the clone event text is written. -/
def announceThread (t : ThreadRef) : Stub Unit := do
  let s ← get
  match s.targetThread with
  | none => modify fun s : State => { s with targetThread := some t }
  | some target =>
    strlcpy 0 (str "T05clone:") bufsize
    let ptr ← writeThreadId t (← outputLen)
    strlcpy ptr (str ";thread:") bufsize
    let ptr ← writeThreadId target (← outputLen)
    strlcpy ptr (str ";") bufsize

def gdbRegisterThread (inferiorId threadId tcb : Word) : Stub DebuggerError := do
  let s ← get
  match lookupInferiorFromId s inferiorId with
  | none => return .invalidArguments
  | some pd =>
    let inferior := s.inferiors pd
    match lookupThreadFromId inferior threadId with
    | some j =>
      if (inferior.threads j).tcb = tcb then
        return .alreadyRegistered
      else
        return .invalidArguments
    | none =>
      if intMax < inferior.currThreadIdx + maxThreads then
        throw .intOverflow
      else
        match ringScan (fun j => (inferior.threads j).enabled) maxThreads
          inferior.currThreadIdx with
        | (idx, none) =>
          modify fun s : State => s.setInferior pd { inferior with currThreadIdx := idx }
          return .insufficientResources
        | (idx, some slot) =>
          let thread : Thread :=
            { enabled := true
              wakeup := false
              ssEnabled := false
              inferior := some pd
              id := threadId
              gdbId := BitVec.ofNat 16 (idx + 1)
              tcb := tcb }
          modify fun s : State =>
            s.setInferior pd ({ inferior with currThreadIdx := idx + 1 }.setThread slot thread)
          -- the registers already set for this inferior; failures are ignored
          (List.finRange numExclusiveBreakpoints).forM fun i => do
            let _ ← threadEnableNthHwBreakpoint ⟨pd, slot⟩ i
          (List.finRange numExclusiveWatchpoints).forM fun i => do
            let _ ← threadEnableNthHwWatchpoint ⟨pd, slot⟩ i
          announceThread ⟨pd, slot⟩
          return .noError

def gdbThreadExit (inferiorId threadId : Word) : Stub DebuggerError := do
  let s ← get
  match lookupInferiorFromId s inferiorId with
  | none => return .invalidArguments
  | some pd =>
    match lookupThreadFromId (s.inferiors pd) threadId with
    | none => return .invalidArguments
    | some slot =>
      let t : ThreadRef := ⟨pd, slot⟩
      modify fun s : State => s.setThread t { s.thread t with enabled := false }
      strlcpy 0 (str "w00;") bufsize
      let _ ← writeThreadId t (← outputLen)
      return .noError

/- Faults. -/

/-- What the fault message carries: a debug exception with its message registers, or another
    fault. -/
inductive FaultMessage where
  | debugException (reason : ExceptionReason) (triggerAddress bpNum : Word)
  | other
  deriving DecidableEq, Repr

def archToBigEndian (vaddr : Word) : Word := ofBytes fun k => byteOf vaddr (7 - k)

def handleSsHwbreakSwbreakException (t : ThreadRef) (reason : ExceptionReason) : Stub Unit := do
  strlcpy 0 (str "T05thread:") bufsize
  let ptr ← writeThreadId t (← outputLen)
  if reason = .softwareBreakRequest then
    strlcpy ptr (str ";swbreak:;") bufsize
  else
    strlcpy ptr (str ";hwbreak:;") bufsize
  modify fun s : State => { s with targetThread := some t }

def watchpointType (t : ThreadRef) (bpNum : Word) : Stub BreakpointAccess := do
  let s ← get
  let pd ← deref (s.thread t).inferior
  let n := (bpNum - BitVec.ofNat 64 firstWatchpoint).toNat
  if h : n < numExclusiveWatchpoints then
    return ((s.inferiors pd).hardwareWatchpoints ⟨n, h⟩).type
  else
    throw .indexOutOfBounds

def handleWatchpointException (t : ThreadRef) (bpNum triggerAddress : Word) : Stub Unit := do
  strlcpy 0 (str "T05thread:") bufsize
  let ptr ← writeThreadId t (← outputLen)
  match ← watchpointType t bpNum with
  | .breakOnWrite => strlcpy ptr (str ";watch:") bufsize
  | .breakOnRead => strlcpy ptr (str ";rwatch:") bufsize
  | .breakOnReadWrite => strlcpy ptr (str ";awatch:") bufsize
  let ptr ← mem2hex (wordBytes (archToBigEndian triggerAddress)) (← outputLen)
  strlcpy ptr (str ";") bufsize
  modify fun s : State => { s with targetThread := some t }

def handleDebugException (t : ThreadRef) (reason : ExceptionReason)
    (triggerAddress bpNum : Word) : Stub Bool := do
  match reason with
  | .instructionBreakpoint => handleSsHwbreakSwbreakException t reason
  | .singleStep => handleSsHwbreakSwbreakException t reason
  | .softwareBreakRequest => handleSsHwbreakSwbreakException t reason
  | .dataBreakpoint => handleWatchpointException t bpNum triggerAddress
  | .other => pure ()
  return true

def handleFault (t : ThreadRef) : Stub Bool := do
  strlcpy 0 (str "T06thread:") bufsize
  let ptr ← writeThreadId t (← outputLen)
  strlcpy ptr (str ";") bufsize
  modify fun s : State => { s with targetThread := some t }
  return false

/-- The error code, and `*have_reply` where it is set. -/
def gdbHandleFault (inferiorId threadId : Word) (message : FaultMessage) :
    Stub (DebuggerError × Option Bool) := do
  let s ← get
  match lookupInferiorFromId s inferiorId with
  | none => return (.invalidArguments, none)
  | some pd =>
    match lookupThreadFromId (s.inferiors pd) threadId with
    | none => return (.invalidArguments, none)
    | some slot =>
      let haveReply ← match message with
        | .debugException reason triggerAddress bpNum =>
          handleDebugException ⟨pd, slot⟩ reason triggerAddress bpNum
        | .other => handleFault ⟨pd, slot⟩
      return (.noError, some haveReply)

/- Stopping and starting all threads. -/

def suspendSystem : Stub Unit :=
  threadRefs.forM fun t => do
    let s ← get
    if s.live t then
      let _ ← tcbSuspend (s.thread t).tcb

def resumeSystem : Stub Unit :=
  threadRefs.forM fun t => do
    let s ← get
    if s.live t && (s.thread t).wakeup then
      let _ ← tcbResume (s.thread t).tcb

end Libgdb
