import Libgdb.Library.CheckedPrograms
import Libgdb.Model.Packets

/-!
src/gdb.c, vCont, and the packet dispatcher. The two nested loops of `handle_vcont` move one
pointer forward; `fuel` bounds their rounds and is at least the length of what is left.
-/
namespace Libgdb
open ByteMemory SlotTables
variable [Machine]

def setAllWakeup (s : State) (wakeup : Bool) : State :=
  { s with inferiors := fun pd =>
      if (s.inferiors pd).enabled then
        { s.inferiors pd with threads := fun slot =>
            if ((s.inferiors pd).threads slot).enabled then
              { (s.inferiors pd).threads slot with wakeup := wakeup }
            else (s.inferiors pd).threads slot }
      else s.inferiors pd }

/-- `for (; i < n; i++)` with `count` rounds to go. -/
def vcontThreads (stepping : Bool) (inferior : Option (Fin maxPds)) (procId : Int) :
    (count : Nat) → (i : Int) → Stub Unit
  | 0, _ => return ()
  | count + 1, i => do
      let pd ← deref inferior
      let slot ← liftParse (tableIndex maxThreads i)
      let t : ThreadRef := ⟨pd, slot⟩
      let s ← get
      if (s.thread t).enabled then
        let row ← liftParse (tableIndex maxPds (← liftParse (idToIdx procId maxPds)))
        if s.handled row slot then
          vcontThreads stepping inferior procId count (i + 1)
        else
          let _ ← if stepping then enableSingleStep t else disableSingleStep t
          modify fun s : State =>
            { s with handled := Function.update s.handled row (Function.update (s.handled row) slot true) }
          modify fun s : State => s.setThread t { s.thread t with wakeup := true }
          vcontThreads stepping inferior procId count (i + 1)
      else
        vcontThreads stepping inferior procId count (i + 1)

def vcontApply (stepping : Bool) (procId threadId : Int) : Stub Unit := do
  let s ← get
  let inferior ← liftParse (lookupInferiorFromGdbId s procId)
  if threadId = -1 then
    vcontThreads stepping inferior procId maxThreads 0
  else
    let i ← liftParse (idToIdx threadId maxThreads)
    vcontThreads stepping inferior procId (threadId - i).toNat i

/-- The inner loop: one or more `:thread-id`, and the pointer past them. -/
def vcontIds (stepping : Bool) : (fuel : Nat) → List Byte → Stub (List Byte)
  | 0, _ => throw .fuel
  | fuel + 1, input => do
      assert ((← liftParse (peek input)) = chr ':')
      let procId ← freshInt
      let threadId ← freshInt
      let id ← liftParse (parseThreadId input.tail procId threadId)
      -- `continue` on PROC_ID_ALL goes to the loop's test as well
      if id.procId.toInt ≠ -1 then
        vcontApply stepping id.procId.toInt id.threadId.toInt
      let input ← deref id.ptr
      if (← liftParse (peek input)) = chr ':' then
        vcontIds stepping fuel input
      else
        return input

/-- The outer loop: actions until the terminating NUL or an action that is not supported. -/
def vcontActions : (fuel : Nat) → List Byte → Stub Unit
  | 0, _ => throw .fuel
  | fuel + 1, input => do
      let c ← liftParse (peek input)
      if c = 0 then
        return ()
      else
        assert (c = chr ';')
        let action ← liftParse (peek input.tail)
        if action = chr 's' then
          modify fun s : State => setAllWakeup s false
          let input ← vcontIds true fuel input.tail.tail
          vcontActions fuel input
        else if action = chr 'c' then
          modify fun s : State => setAllWakeup s true
          let input ← vcontIds false fuel input.tail.tail
          vcontActions fuel input
        else
          strlcpy 0 (str "E04") bufsize

def handleVcont (input : List Byte) : Stub Unit := do
  modify fun s : State => { s with handled := fun _ _ => false }
  vcontActions (input.length + 1) (input.drop 5)

/-- Returns whether the system is to be resumed; `*detached` is a field of the state. -/
def gdbHandlePacket (input : List Byte) : Stub Bool := do
  put 0 0
  let c ← liftParse (peek input)
  if c = chr 'g' then
    handleReadRegs
    return false
  else if c = chr 'G' then
    handleWriteRegs input
    return false
  else if c = chr 'm' then
    handleReadMem input
    return false
  else if c = chr 'M' then
    handleWriteMem input
    return false
  else if c = chr 'q' ∨ c = chr 'Q' then
    handleQuery input
    return false
  else if c = chr 'H' then
    handleSetInferior input
    return false
  else if c = chr 'D' then
    handleDetach
    modify fun s : State => { s with detached := true }
    return true
  else if c = chr 'T' then
    handleCheckThreadAlive input
    return false
  else if c = chr '?' then
    strlcpy 0 (str "T05swbreak:;") bufsize
    return false
  else if c = chr 'v' then
    if ← textIs input "vCont?" 7 then
      strlcpy 0 (str "vCont;c;C;s;S") bufsize
      return false
    else if ← textIs input "vCont;" 6 then
      handleVcont input
      return true
    else
      return false
  else if c = chr 'z' ∨ c = chr 'Z' then
    handleConfigureDebugEvents input
    return false
  else if c = 3 then
    handleSigInterrupt
    return false
  else
    return false

/- Where the dispatcher leads, by first character. -/

theorem dispatch_readRegs (rest : List Byte) : gdbHandlePacket (chr 'g' :: rest) = (do
    put 0 0
    handleReadRegs
    return false) := rfl

theorem dispatch_writeRegs (rest : List Byte) : gdbHandlePacket (chr 'G' :: rest) = (do
    put 0 0
    handleWriteRegs (chr 'G' :: rest)
    return false) := rfl

theorem dispatch_readMem (rest : List Byte) : gdbHandlePacket (chr 'm' :: rest) = (do
    put 0 0
    handleReadMem (chr 'm' :: rest)
    return false) := rfl

theorem dispatch_writeMem (rest : List Byte) : gdbHandlePacket (chr 'M' :: rest) = (do
    put 0 0
    handleWriteMem (chr 'M' :: rest)
    return false) := rfl

theorem dispatch_debugEvents {c : Byte} (kind : c = chr 'Z' ∨ c = chr 'z') (rest : List Byte) :
    gdbHandlePacket (c :: rest) = (do
      put 0 0
      handleConfigureDebugEvents (c :: rest)
      return false) := by
  rcases kind with rfl | rfl <;> rfl

theorem dispatch_setInferior (rest : List Byte) : gdbHandlePacket (chr 'H' :: rest) = (do
    put 0 0
    handleSetInferior (chr 'H' :: rest)
    return false) := rfl

/- The calls a debugger component makes. -/

inductive Event where
  | registerInferior (inferiorId vspace : Word)
  | registerThread (inferiorId threadId tcb : Word)
  | threadExit (inferiorId threadId : Word)
  | fault (inferiorId threadId : Word) (message : FaultMessage)
  | packet (input : List Byte)
  | suspend
  | resume

def Event.run : Event → Stub Unit
  | .registerInferior inferiorId vspace => do let _ ← gdbRegisterInferior inferiorId vspace
  | .registerThread inferiorId threadId tcb => do let _ ← gdbRegisterThread inferiorId threadId tcb
  | .threadExit inferiorId threadId => do let _ ← gdbThreadExit inferiorId threadId
  | .fault inferiorId threadId message => do let _ ← gdbHandleFault inferiorId threadId message
  | .packet input => do let _ ← gdbHandlePacket input
  | .suspend => suspendSystem
  | .resume => resumeSystem

/-- States reached from start-up by calls that return, in any order. Between calls the
    inferiors run and other components act, which may leave the kernel in any state. -/
inductive Reachable : State → Prop where
  | boot (output : Nat → Byte) (kernel : Kernel) : Reachable (.boot output kernel)
  | step {s t : State} (e : Event) (earlier : Reachable s) (returns : e.run.run s = .ok () t) :
      Reachable t
  | outside {s : State} (kernel : Kernel) (earlier : Reachable s) : Reachable (s.withKernel kernel)

inductive Registered : State → Prop where
  | boot (output : Nat → Byte) (kernel : Kernel) : Registered (.boot output kernel)
  | inferior {s t : State} (inferiorId vspace : Word) (earlier : Registered s)
      (returns : (Event.registerInferior inferiorId vspace).run.run s = .ok () t) : Registered t
  | thread {s t : State} (inferiorId threadId tcb : Word) (earlier : Registered s)
      (returns : (Event.registerThread inferiorId threadId tcb).run.run s = .ok () t) : Registered t
  | exit {s t : State} (inferiorId threadId : Word) (earlier : Registered s)
      (returns : (Event.threadExit inferiorId threadId).run.run s = .ok () t) : Registered t

theorem Registered.reachable {s : State} (registered : Registered s) : Reachable s := by
  induction registered with
  | boot output kernel => exact .boot output kernel
  | inferior _ _ _ returns ih => exact .step _ ih returns
  | thread _ _ _ _ returns ih => exact .step _ ih returns
  | exit _ _ _ returns ih => exact .step _ ih returns

/-- Start-up on the obliging board, then one inferior with one thread registered. -/
def soloState : @State obligingBoard :=
  let _ := obligingBoard
  CheckedPrograms.after (gdbRegisterThread 1 1 5)
    (CheckedPrograms.after (gdbRegisterInferior 1 7) blankState)

omit [Machine] in
theorem solo_registered : letI := obligingBoard
    Registered soloState := by
  let _ := obligingBoard
  exact .thread 1 1 5 (.inferior 1 7 (.boot (fun _ => 0) blankKernel) rfl) rfl

/-- A second inferior with a thread beside it. -/
def duoState : @State obligingBoard :=
  let _ := obligingBoard
  CheckedPrograms.after (Event.registerThread 2 1 6).run
    (CheckedPrograms.after (Event.registerInferior 2 8).run soloState)

omit [Machine] in
theorem duo_registered : letI := obligingBoard
    Registered duoState := by
  let _ := obligingBoard
  have inferior : (Event.registerInferior 2 8).run.run soloState = .ok () _ :=
    CheckedPrograms.run_of_value (by decide +kernel)
  exact .thread 2 1 6 (.inferior 2 8 solo_registered inferior)
    (CheckedPrograms.run_of_value (by decide +kernel))

omit [Machine] in
theorem solo_kernel : letI := obligingBoard
    soloState.kernel = blankKernel := by
  let _ := obligingBoard
  rfl

end Libgdb
