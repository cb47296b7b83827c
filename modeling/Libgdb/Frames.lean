import Libgdb.Library.CheckedPrograms
import Libgdb.Model.Dispatch

/-!
What packet handling leaves alone. A relation between states that a few kinds of update
respect is respected by every handler built from them.
-/
namespace Libgdb
open ByteMemory SlotTables CheckedPrograms
variable [Machine]

/-- `R` looks neither at the reply buffer nor at what uninitialised locals hold. -/
class Frame (R : State → State → Prop) : Prop extends Std.Refl R, IsTrans State R where
  output : ∀ s o, R s (s.withOutput o)
  drawn : ∀ s n, R s { s with drawn := n }

/-- The kernel calls of `gdb_handle_packet`, less the one that writes registers. -/
def KernelCall.harmless : KernelCall → Prop
  | .tcbWriteRegisters _ _ _ | .tcbSuspend _ | .tcbResume _ => False
  | _ => True

def SameButTables (i i' : Inferior) : Prop :=
  ∃ sw hb hw, i' = { i with
    softwareBreakpoints := sw, hardwareBreakpoints := hb, hardwareWatchpoints := hw }

/-- `R` also respects what packets other than `G` and `H` do to the tables and the kernel. -/
class PacketFrame (R : State → State → Prop) : Prop extends Frame R where
  call : ∀ s (c : KernelCall), c.harmless → R s (s.withKernel (s.kernel.record c))
  handled : ∀ s h, R s { s with handled := h }
  detached : ∀ s, R s { s with detached := true }
  flags : ∀ s t wakeup ss, R s (s.setThread t { s.thread t with wakeup := wakeup, ssEnabled := ss })
  allWakeup : ∀ s wakeup, R s (setAllWakeup s wakeup)
  tables : ∀ s pd i, SameButTables (s.inferiors pd) i → R s (s.setInferior pd i)

variable {R : State → State → Prop}

/- Texts and parsers. -/

section
variable [Frame R]

theorem stays_liftParse {α : Type} (p : Except Fault α) : Stays R (liftParse p) := by
  cases p with
  | ok a => exact stays_pure a
  | error e => exact stays_throw e

theorem stays_assert (c : Prop) [Decidable c] : Stays R (assert c) :=
  stays_ite (stays_pure _) (stays_throw _)

theorem stays_deref {α : Type} (p : Option α) : Stays R (deref p) := by
  cases p with
  | some a => exact stays_pure a
  | none => exact stays_throw _

theorem stays_put (ptr : Nat) (b : Byte) : Stays R (put ptr b) :=
  stays_ite (stays_modify fun s => Frame.output s _) (stays_throw _)

theorem stays_strlcpy (dest : Nat) (src : List Byte) (size : Nat) :
    Stays R (strlcpy dest src size) := by
  have from_len : ∀ len, Stays R (strlcpyFrom dest len size src) := by
    induction src with
    | nil => exact fun len => stays_put _ _
    | cons b src ih =>
      exact fun len => stays_ite (stays_bind (stays_put _ _) fun _ => ih _) (stays_put _ _)
  exact from_len 0

theorem stays_outputLen : Stays R outputLen := stays_bind stays_get fun _ => stays_pure _

theorem stays_mem2hex (mem : List Byte) (buf : Nat) : Stays R (mem2hex mem buf) := by
  induction mem generalizing buf with
  | nil => exact stays_bind (stays_put _ _) fun _ => stays_pure _
  | cons c mem ih =>
    exact stays_bind (stays_put _ _) fun _ => stays_bind (stays_put _ _) fun _ => ih _

theorem stays_regs2hex (regs : UserContext) (buf : Nat) : Stays R (regs2hex regs buf) := by
  unfold regs2hex
  generalize regs.wire = fields
  induction fields generalizing buf with
  | nil => exact stays_pure _
  | cons mem fields ih => exact stays_bind (stays_mem2hex _ _) fun _ => ih _

theorem stays_freshInt : Stays R freshInt := fun s => Frame.drawn s _

theorem stays_freshContext : Stays R freshContext := fun s => Frame.drawn s _

theorem stays_writeThreadId (t : ThreadRef) (ptr : Nat) : Stays R (writeThreadId t ptr) :=
  stays_bind (stays_put _ _) fun _ => stays_bind stays_get fun _ =>
    stays_bind (stays_deref _) fun _ =>
    stays_bind (stays_mem2hex _ _) fun _ => stays_bind (stays_put _ _) fun _ => stays_mem2hex _ _

theorem stays_textIs (ptr : List Byte) (literal : String) (n : Nat) :
    Stays R (textIs ptr literal n) := stays_bind (stays_liftParse _) fun _ => stays_pure _

/- Memory transfers, for a relation that admits reads of words. -/

theorem stays_readInferiorWord
    (read : ∀ s v a, R s (s.withKernel (s.kernel.record (.vspaceReadWord v a))))
    (thread : Option ThreadRef) (mem : Word) : Stays R (readInferiorWord thread mem) :=
  stays_bind stays_get fun _ => stays_bind (stays_deref _) fun _ =>
    stays_bind (stays_deref _) fun _ =>
    stays_bind (fun s => read s _ _) fun _ => stays_bind stays_get fun _ => stays_pure _

section
variable {thread : Option ThreadRef} (read : ∀ mem, Stays R (readInferiorWord thread mem))
include read

theorem stays_infMem2hex (mem : Word) (buf : Nat) (size : Int) :
    Stays R (infMem2hex thread mem buf size) := by
  have loop : ∀ n i mem word buf, Stays R (infMem2hexLoop thread n i mem word buf) := by
    intro n
    induction n with
    | zero => exact fun i mem word buf => stays_bind (stays_put _ _) fun _ => stays_pure _
    | succ n ih =>
      intro i mem word buf
      refine stays_branch (read _) (stays_pure _) fun word => ?_
      cases word with
      | none => exact stays_pure _
      | some word =>
        exact stays_bind (stays_put _ _) fun _ => stays_bind (stays_put _ _) fun _ => ih _ _ _ _
  exact loop _ _ _ _ _

theorem stays_infHex2mem
    (write : ∀ mem value, Stays R (writeInferiorWord thread mem value)) (buf : List Byte)
    (mem : Word) (size : Int) : Stays R (infHex2mem thread buf mem size) := by
  have loop : ∀ n i buf mem word, Stays R (infHex2memLoop thread n i buf mem word) := by
    intro n
    induction n with
    | zero => exact fun i buf mem word => stays_pure _
    | succ n ih =>
      intro i buf mem word
      refine stays_branch (read _) (stays_pure _) fun word => ?_
      match word, buf with
      | none, _ => exact stays_pure _
      | some word, [] => exact stays_throw _
      | some word, [hi] => exact stays_throw _
      | some word, hi :: lo :: buf =>
        refine stays_ite (stays_bind (write _ _) fun err => ?_) (ih _ _ _ _)
        exact stays_ite (stays_pure _) (ih _ _ _ _)
  exact loop _ _ _ _ _

end

theorem stays_handleReadMem
    (read : ∀ thread mem buf size, Stays R (infMem2hex thread mem buf size)) (ptr : List Byte) :
    Stays R (handleReadMem ptr) := by
  refine stays_bind (stays_liftParse _) fun parsed => ?_
  cases parsed with
  | none => exact stays_strlcpy _ _ _
  | some parsed =>
    refine stays_ite (stays_strlcpy _ _ _) (stays_bind stays_get fun s => ?_)
    refine stays_bind (read _ _ _ _) fun last => ?_
    cases last with
    | none => exact stays_strlcpy _ _ _
    | some last => exact stays_pure _

theorem stays_handleWriteMem (ptr : List Byte)
    (write : ∀ thread buf mem size, Stays R (infHex2mem thread buf mem size)) :
    Stays R (handleWriteMem ptr) := by
  refine stays_bind (stays_liftParse _) fun parsed => ?_
  cases parsed with
  | none => exact stays_strlcpy _ _ _
  | some parsed =>
    refine stays_bind (stays_liftParse _) fun found => ?_
    cases found with
    | none => exact stays_pure _
    | some found =>
      refine stays_bind stays_get fun s => stays_bind (write _ _ _ _) fun mem => ?_
      exact stays_ite (stays_strlcpy _ _ _) (stays_strlcpy _ _ _)

/- Queries, and the thread the packets address. -/

theorem stays_listThreads (ts : List ThreadRef) (numPrinted outPtr : Nat) :
    Stays R (listThreads ts numPrinted outPtr) := by
  induction ts generalizing numPrinted outPtr with
  | nil => exact stays_pure _
  | cons t ts ih =>
    refine stays_bind stays_get fun s => stays_ite (stays_ite ?_ ?_) (ih _ _)
    · exact stays_bind (stays_put _ _) fun _ => stays_bind (stays_writeThreadId _ _) fun _ => ih _ _
    · exact stays_bind (stays_writeThreadId _ _) fun _ => ih _ _

theorem stays_handleQuery (ptr : List Byte) : Stays R (handleQuery ptr) := by
  have reply (src : List Byte) : Stays R (strlcpy 0 src bufsize) := stays_strlcpy _ _ _
  have threads : Stays R (do put 0 (chr 'm'); listThreads threadRefs 0 1) :=
    stays_bind (stays_put _ _) fun _ => stays_listThreads _ _ _
  have test {literal : String} {n : Nat} {yes no : Stub Unit} (hy : Stays R yes) (hn : Stays R no) :
      Stays R (do if ← textIs ptr literal n then yes else no) :=
    stays_bind (stays_textIs _ _ _) fun _ => stays_ite hy hn
  exact test (reply _) <| test threads <| test (reply _) <| test (reply _) <| test (reply _) <|
    test (reply _) <| test (reply _) <| test (reply _) <| test (reply _) <| stays_pure _

theorem stays_targetInferior : Stays R targetInferior :=
  stays_bind stays_get fun _ => stays_bind (stays_deref _) fun _ => stays_deref _

theorem stays_confirmTarget : Stays R confirmTarget :=
  stays_bind stays_get fun _ => stays_bind (stays_deref _) fun _ =>
    stays_bind (stays_assert _) fun _ =>
    stays_strlcpy _ _ _

theorem stays_handleCheckThreadAlive (ptr : List Byte) : Stays R (handleCheckThreadAlive ptr) := by
  refine stays_bind (stays_liftParse _) fun _ => stays_bind (stays_assert _) fun _ =>
    stays_bind stays_freshInt fun _ => stays_bind (stays_liftParse _) fun id => ?_
  cases id.ptr with
  | none => exact stays_strlcpy _ _ _
  | some rest =>
    exact stays_bind stays_get fun _ => stays_bind (stays_liftParse _) fun _ =>
      stays_bind (stays_deref _) fun _ => stays_ite (stays_strlcpy _ _ _) (stays_pure _)

theorem stays_handleSetInferior (ptr : List Byte)
    (target : ∀ s t, R s { s with targetThread := t }) : Stays R (handleSetInferior ptr) := by
  refine stays_bind stays_freshInt fun _ => stays_bind (stays_liftParse _) fun c =>
    stays_ite (stays_strlcpy _ _ _) (stays_bind (stays_liftParse _) fun dash => stays_ite ?_ ?_)
  · exact stays_bind stays_get fun _ => stays_bind (stays_assert _) fun _ => stays_strlcpy _ _ _
  · refine stays_bind (stays_liftParse _) fun id => ?_
    cases id.ptr with
    | none => exact stays_strlcpy _ _ _
    | some rest =>
      refine stays_bind (stays_assert _) fun _ => stays_ite stays_confirmTarget
        (stays_bind stays_get fun s => stays_bind (stays_liftParse _) fun pd => ?_)
      cases pd with
      | none => exact stays_strlcpy _ _ _
      | some pd =>
        exact stays_ite stays_confirmTarget (stays_bind (stays_liftParse _) fun t =>
          stays_bind (stays_modify fun s => target s t) fun _ => stays_confirmTarget)

end

/- Taking breakpoints out, for a relation that admits the one kind of call this makes. -/

section
variable [Frame R]

theorem frame_unsetSoftwareBreakpoint
    (write : ∀ vspace address value, Stays R (vspaceWriteWord vspace address value))
    (tables : ∀ s pd i, SameButTables (s.inferiors pd) i → R s (s.setInferior pd i))
    (pd : Fin maxPds) (address : Word) : Stays R (unsetSoftwareBreakpoint pd address) := by
  refine stays_bind stays_get fun s => ?_
  cases firstSlot (fun i => ((s.inferiors pd).softwareBreakpoints i).addr == address) with
  | none => exact stays_pure _
  | some i =>
    refine stays_bind (write _ _ _) fun err => stays_ite (stays_pure _) ?_
    exact stays_bind (stays_modify fun s => tables s pd _ ⟨_, _, _, rfl⟩) fun _ => stays_pure _

variable (disarm : ∀ tcb bpNum, Stays R (tcbUnsetBreakpoint tcb bpNum))
include disarm

theorem frame_disarmThreads (pd : Fin maxPds) (bpNum : Nat) (js : List (Fin maxThreads)) :
    Stays R (disarmThreads pd bpNum js) := by
  induction js with
  | nil => exact stays_pure _
  | cons j js ih =>
    exact stays_bind stays_get fun s => stays_ite (stays_bind (disarm _ _) fun _ => ih) ih

variable (tables : ∀ s pd i, SameButTables (s.inferiors pd) i → R s (s.setInferior pd i))
include tables

theorem frame_unsetHardwareBreakpoint (pd : Fin maxPds) (address : Word) :
    Stays R (unsetHardwareBreakpoint pd address) := by
  refine stays_bind stays_get fun s => ?_
  cases firstSlot (fun i => ((s.inferiors pd).hardwareBreakpoints i).addr == address) with
  | none => exact stays_pure _
  | some i =>
    exact stays_bind (stays_modify fun s => tables s pd _ ⟨_, _, _, rfl⟩) fun _ =>
      stays_bind (frame_disarmThreads disarm _ _ _) fun _ => stays_pure _

theorem frame_unsetHardwareWatchpoint (pd : Fin maxPds) (address : Word) (type : BreakpointAccess)
    (size : Word) : Stays R (unsetHardwareWatchpoint pd address type size) := by
  refine stays_bind stays_get fun s => ?_
  cases firstSlot (fun i => (s.inferiors pd).hardwareWatchpoints i == ⟨address, size, type⟩) with
  | none => exact stays_pure _
  | some i =>
    exact stays_bind (stays_modify fun s => tables s pd _ ⟨_, _, _, rfl⟩) fun _ =>
      stays_bind (frame_disarmThreads disarm _ _ _) fun _ => stays_pure _

end

/- The handlers that change tables and make kernel calls. -/

section
variable [PacketFrame R]

theorem stays_call {call : KernelCall} (admits : call.harmless) : Stays R (invoke call) :=
  fun s => PacketFrame.call s call admits

theorem stays_vspaceReadWord (vspace address : Word) : Stays R (vspaceReadWord vspace address) :=
  stays_bind (stays_call trivial) fun _ => stays_bind stays_get fun _ => stays_pure _

theorem stays_vspaceWriteWord (vspace address value : Word) :
    Stays R (vspaceWriteWord vspace address value) := stays_call trivial

theorem stays_handleReadRegs : Stays R handleReadRegs :=
  stays_bind stays_freshContext fun _ => stays_bind stays_get fun _ =>
    stays_bind (stays_deref _) fun _ =>
    stays_bind (stays_bind (stays_call trivial) fun _ => stays_bind stays_get fun _ => stays_pure _)
      fun _ => stays_bind (stays_regs2hex _ _) fun _ => stays_pure _

theorem stays_setSoftwareBreakpoint (pd : Fin maxPds) (address : Word) :
    Stays R (setSoftwareBreakpoint pd address) := by
  refine stays_bind stays_get fun s => stays_bind (stays_vspaceReadWord _ _) fun word => ?_
  cases word with
  | none => exact stays_pure _
  | some word =>
    refine stays_bind (stays_vspaceWriteWord _ _ _) fun err => stays_ite (stays_pure _) ?_
    cases firstSlot (fun i => ((s.inferiors pd).softwareBreakpoints i).addr == 0) with
    | none => exact stays_bind (stays_vspaceWriteWord _ _ _) fun _ => stays_pure _
    | some i =>
      exact stays_bind (stays_modify fun s => PacketFrame.tables s pd _ ⟨_, _, _, rfl⟩) fun _ =>
        stays_pure _

theorem stays_unsetSoftwareBreakpoint (pd : Fin maxPds) (address : Word) :
    Stays R (unsetSoftwareBreakpoint pd address) :=
  frame_unsetSoftwareBreakpoint (fun _ _ _ => stays_call trivial) PacketFrame.tables pd address

theorem stays_armThreads (pd : Fin maxPds) (bpNum : Nat) (setting : DebugSetting)
    (js : List (Fin maxThreads)) : Stays R (armThreads pd bpNum setting js) := by
  induction js with
  | nil => exact stays_pure _
  | cons j js ih =>
    exact stays_bind stays_get fun s => stays_ite
      (stays_bind (stays_call trivial) fun _ => stays_ite (stays_pure _) ih) ih

theorem stays_setHardwareBreakpoint (pd : Fin maxPds) (address : Word) :
    Stays R (setHardwareBreakpoint pd address) := by
  refine stays_bind stays_get fun s => ?_
  cases firstSlot (fun i => ((s.inferiors pd).hardwareBreakpoints i).addr == 0) with
  | none => exact stays_pure _
  | some i =>
    exact stays_bind (stays_armThreads _ _ _ _) fun armed => stays_ite
      (stays_bind (stays_modify fun s => PacketFrame.tables s pd _ ⟨_, _, _, rfl⟩) fun _ =>
        stays_pure _) (stays_pure _)

theorem stays_unsetHardwareBreakpoint (pd : Fin maxPds) (address : Word) :
    Stays R (unsetHardwareBreakpoint pd address) :=
  frame_unsetHardwareBreakpoint (fun _ _ => stays_call trivial) PacketFrame.tables pd address

theorem stays_setHardwareWatchpoint (pd : Fin maxPds) (address : Word) (type : BreakpointAccess)
    (size : Word) : Stays R (setHardwareWatchpoint pd address type size) := by
  refine stays_bind stays_get fun s => ?_
  cases firstSlot (fun i => ((s.inferiors pd).hardwareWatchpoints i).addr == 0) with
  | none => exact stays_pure _
  | some i =>
    exact stays_bind (stays_armThreads _ _ _ _) fun armed => stays_ite
      (stays_bind (stays_modify fun s => PacketFrame.tables s pd _ ⟨_, _, _, rfl⟩) fun _ =>
        stays_pure _) (stays_pure _)

theorem stays_unsetHardwareWatchpoint (pd : Fin maxPds) (address : Word) (type : BreakpointAccess)
    (size : Word) : Stays R (unsetHardwareWatchpoint pd address type size) :=
  frame_unsetHardwareWatchpoint (fun _ _ => stays_call trivial) PacketFrame.tables pd
    address type size

theorem stays_handleConfigureDebugEvents (ptr : List Byte) :
    Stays R (handleConfigureDebugEvents ptr) := by
  refine stays_bind (stays_liftParse _) fun parsed => ?_
  cases parsed with
  | none => exact stays_strlcpy _ _ _
  | some parsed =>
    have answer {op : Fin maxPds → Stub Bool} (h : ∀ pd, Stays R (op pd)) : Stays R (do
        let success ← op (← targetInferior)
        strlcpy 0 (if success then str "OK" else str "E01") bufsize) :=
      stays_bind stays_targetInferior fun pd => stays_bind (h pd) fun _ => stays_strlcpy _ _ _
    refine stays_bind (stays_textIs _ _ _) fun _ => stays_ite
      (answer fun pd => stays_setSoftwareBreakpoint pd _) ?_
    refine stays_bind (stays_textIs _ _ _) fun _ => stays_ite
      (answer fun pd => stays_unsetSoftwareBreakpoint pd _) ?_
    refine stays_bind (stays_textIs _ _ _) fun _ => stays_ite
      (answer fun pd => stays_setHardwareBreakpoint pd _) ?_
    refine stays_bind (stays_textIs _ _ _) fun _ => stays_ite
      (answer fun pd => stays_unsetHardwareBreakpoint pd _) ?_
    refine stays_bind (stays_liftParse _) fun c => ?_
    cases watchpointAccess c with
    | none => exact stays_strlcpy _ _ _
    | some access =>
      exact stays_bind (stays_liftParse _) fun _ => stays_ite
        (answer fun pd => stays_setHardwareWatchpoint pd _ _ _)
        (answer fun pd => stays_unsetHardwareWatchpoint pd _ _ _)

theorem stays_writeInferiorWord (thread : Option ThreadRef) (mem value : Word) :
    Stays R (writeInferiorWord thread mem value) :=
  stays_bind stays_get fun _ => stays_bind (stays_deref _) fun _ =>
    stays_bind (stays_deref _) fun _ =>
    stays_vspaceWriteWord _ _ _

theorem stays_disableSingleStep (t : ThreadRef) : Stays R (disableSingleStep t) :=
  stays_bind stays_get fun _ => stays_bind (stays_call trivial) fun _ => stays_pure _

theorem stays_enableSingleStep (t : ThreadRef) : Stays R (enableSingleStep t) :=
  stays_bind (stays_modify fun s => PacketFrame.flags s t _ _) fun _ =>
    stays_bind stays_get fun _ =>
    stays_bind (stays_call trivial) fun _ => stays_pure _

theorem stays_detachThread (t : ThreadRef) : Stays R (detachThread t) := by
  have clear : Stays R (modify fun s : State =>
      s.setThread t { s.thread t with ssEnabled := false, wakeup := true } : Stub Unit) :=
    stays_modify fun s => PacketFrame.flags s t _ _
  exact stays_bind stays_get fun s => stays_ite (stays_ite
    (stays_bind (stays_disableSingleStep t) fun _ => clear) clear) (stays_pure _)

theorem stays_detachInferior (pd : Fin maxPds) : Stays R (detachInferior pd) := by
  refine stays_bind (stays_forM _ fun i => ?_) fun _ =>
    stays_bind (stays_forM _ fun i => ?_) fun _ =>
    stays_bind (stays_forM _ fun i => ?_) fun _ =>
    stays_bind (stays_modify fun s => PacketFrame.tables s pd _ ⟨_, _, _, rfl⟩) fun _ =>
    stays_forM _ fun slot => stays_detachThread _
  · exact stays_bind stays_get fun _ => stays_bind (stays_unsetSoftwareBreakpoint _ _) fun _ =>
      stays_pure _
  · exact stays_bind stays_get fun _ => stays_bind (stays_unsetHardwareBreakpoint _ _) fun _ =>
      stays_pure _
  · exact stays_bind stays_get fun _ => stays_bind (stays_unsetHardwareWatchpoint _ _ _ _) fun _ =>
      stays_pure _

theorem stays_handleDetach : Stays R handleDetach :=
  stays_bind (stays_strlcpy _ _ _) fun _ => stays_forM _ fun pd =>
    stays_bind stays_get fun _ => stays_ite (stays_detachInferior pd) (stays_pure _)

theorem stays_vcontThreads (stepping : Bool) (inferior : Option (Fin maxPds)) (procId : Int)
    (count : Nat) (i : Int) : Stays R (vcontThreads stepping inferior procId count i) := by
  induction count generalizing i with
  | zero => exact stays_pure _
  | succ count ih =>
    refine stays_bind (stays_deref _) fun pd => stays_bind (stays_liftParse _) fun slot =>
      stays_bind stays_get fun _ => stays_ite ?_ (ih _)
    refine stays_bind (stays_liftParse _) fun _ => stays_bind (stays_liftParse _) fun row =>
      stays_ite (ih _) ?_
    refine stays_branch (stays_enableSingleStep _) (stays_disableSingleStep _) fun _ =>
      stays_bind (stays_modify fun s => PacketFrame.handled s _) fun _ =>
        stays_bind ?_ fun _ => ih _
    exact stays_modify fun s => PacketFrame.flags s ⟨pd, slot⟩ true _

theorem stays_vcontApply (stepping : Bool) (procId threadId : Int) :
    Stays R (vcontApply stepping procId threadId) :=
  stays_bind stays_get fun _ => stays_bind (stays_liftParse _) fun _ => stays_ite
    (stays_vcontThreads _ _ _ _ _)
    (stays_bind (stays_liftParse _) fun _ => stays_vcontThreads _ _ _ _ _)

theorem stays_vcontIds (stepping : Bool) (fuel : Nat) (input : List Byte) :
    Stays R (vcontIds stepping fuel input) := by
  induction fuel generalizing input with
  | zero => exact stays_throw _
  | succ fuel ih =>
    have next (id : ParsedId) : Stays R (do
        let input ← deref id.ptr
        if (← liftParse (peek input)) = chr ':' then vcontIds stepping fuel input
        else return input) :=
      stays_bind (stays_deref _) fun _ => stays_bind (stays_liftParse _) fun _ =>
        stays_ite (ih _) (stays_pure _)
    refine stays_bind (stays_liftParse _) fun _ => stays_bind (stays_assert _) fun _ =>
      stays_bind stays_freshInt fun _ => stays_bind stays_freshInt fun _ =>
      stays_bind (stays_liftParse _) fun id => stays_ite ?_ (next id)
    exact stays_bind (stays_vcontApply _ _ _) fun _ => next id

theorem stays_vcontActions (fuel : Nat) (input : List Byte) :
    Stays R (vcontActions fuel input) := by
  induction fuel generalizing input with
  | zero => exact stays_throw _
  | succ fuel ih =>
    have act (stepping wakeup : Bool) : Stays R (do
        modify fun s : State => setAllWakeup s wakeup
        let input ← vcontIds stepping fuel input.tail.tail
        vcontActions fuel input) :=
      stays_bind (stays_modify fun s => PacketFrame.allWakeup s _) fun _ =>
        stays_bind (stays_vcontIds _ _ _) fun _ => ih _
    exact stays_bind (stays_liftParse _) fun c => stays_ite (stays_pure _)
      (stays_bind (stays_assert _) fun _ => stays_bind (stays_liftParse _) fun action =>
        stays_ite (act true false) (stays_ite (act false true) (stays_strlcpy _ _ _)))

theorem stays_handleVcont (input : List Byte) : Stays R (handleVcont input) :=
  stays_bind (stays_modify fun s => PacketFrame.handled s _) fun _ => stays_vcontActions _ _

/-- A packet respects `R` when the registers it writes and the target it selects do. -/
theorem stays_gdbHandlePacket (input : List Byte)
    (registers : input.head? = some (chr 'G') → Stays R (handleWriteRegs input))
    (target : input.head? = some (chr 'H') → Stays R (handleSetInferior input)) :
    Stays R (gdbHandlePacket input) := by
  have word (thread : Option ThreadRef) (mem : Word) : Stays R (readInferiorWord thread mem) :=
    stays_readInferiorWord (fun s v a => PacketFrame.call s _ trivial) thread mem
  have read (thread : Option ThreadRef) (mem : Word) (buf : Nat) (size : Int) :
      Stays R (infMem2hex thread mem buf size) := stays_infMem2hex (word thread) mem buf size
  have write (thread : Option ThreadRef) (buf : List Byte) (mem : Word) (size : Int) :
      Stays R (infHex2mem thread buf mem size) :=
    stays_infHex2mem (word thread) (stays_writeInferiorWord thread) buf mem size
  have reply {m : Stub Unit} {b : Bool} (h : Stays R m) : Stays R (do m; return b) :=
    stays_bind h fun _ => stays_pure _
  refine stays_bind (stays_put _ _) fun _ => ?_
  cases input with
  | nil => exact stays_throw _
  | cons c rest =>
    change Stays R (pure c >>= _)
    rw [pure_bind]
    refine stays_ite (reply stays_handleReadRegs) ?_
    refine stays_cond (fun h => reply (registers (by rw [List.head?_cons, h]))) fun _ => ?_
    refine stays_ite (reply (stays_handleReadMem read _)) ?_
    refine stays_ite (reply (stays_handleWriteMem _ write)) ?_
    refine stays_ite (reply (stays_handleQuery _)) ?_
    refine stays_cond (fun h => reply (target (by rw [List.head?_cons, h]))) fun _ => ?_
    refine stays_ite (stays_bind stays_handleDetach fun _ =>
      reply (stays_modify fun s => PacketFrame.detached s)) ?_
    refine stays_ite (reply (stays_handleCheckThreadAlive _)) ?_
    refine stays_ite (reply (stays_strlcpy _ _ _)) (stays_ite ?_ ?_)
    · exact stays_bind (stays_textIs _ _ _) fun _ => stays_ite (reply (stays_strlcpy _ _ _))
        (stays_bind (stays_textIs _ _ _) fun _ => stays_ite (reply (stays_handleVcont _))
          (stays_pure _))
    · exact stays_ite (reply (stays_handleConfigureDebugEvents _))
        (stays_ite (reply (stays_strlcpy _ _ _)) (stays_pure _))

end
theorem stays_handleWriteRegs [Frame R]
    (write : ∀ s tcb context,
      R s (s.withKernel (s.kernel.record (.tcbWriteRegisters tcb true context))))
    (ptr : List Byte) : Stays R (handleWriteRegs ptr) :=
  stays_bind (stays_liftParse _) fun _ => stays_bind (stays_assert _) fun _ =>
    stays_bind stays_freshContext fun _ => stays_bind (stays_liftParse _) fun _ =>
    stays_bind stays_get fun _ => stays_bind (stays_deref _) fun _ =>
    stays_bind (fun s => write s _ _) fun _ => stays_strlcpy _ _ _

theorem stays_suspendSystem [Frame R]
    (suspend : ∀ s tcb, R s (s.withKernel (s.kernel.record (.tcbSuspend tcb)))) :
    Stays R suspendSystem :=
  stays_forM _ fun _ => stays_bind stays_get fun _ => stays_ite
    (stays_bind (fun s => suspend s _) fun _ => stays_pure _) (stays_pure _)

theorem stays_resumeSystem [Frame R]
    (resume : ∀ s tcb, R s (s.withKernel (s.kernel.record (.tcbResume tcb)))) :
    Stays R resumeSystem :=
  stays_forM _ fun _ => stays_bind stays_get fun _ => stays_ite
    (stays_bind (fun s => resume s _) fun _ => stays_pure _) (stays_pure _)

/- Faults change the target and the reply. -/

section
variable [Frame R] {t : ThreadRef}
variable (target : ∀ s, R s { s with targetThread := some t })
include target

theorem stays_handleFault : Stays R (handleFault t) :=
  stays_bind (stays_strlcpy _ _ _) fun _ => stays_bind stays_outputLen fun _ =>
    stays_bind (stays_writeThreadId _ _) fun _ => stays_bind (stays_strlcpy _ _ _) fun _ =>
    stays_bind (stays_modify target) fun _ => stays_pure _

theorem stays_handleSsHwbreakSwbreakException (reason : ExceptionReason) :
    Stays R (handleSsHwbreakSwbreakException t reason) :=
  stays_bind (stays_strlcpy _ _ _) fun _ => stays_bind stays_outputLen fun _ =>
    stays_bind (stays_writeThreadId _ _) fun _ => stays_branch (stays_strlcpy _ _ _)
      (stays_strlcpy _ _ _) fun _ => stays_modify target

theorem stays_handleWatchpointException (bpNum triggerAddress : Word) :
    Stays R (handleWatchpointException t bpNum triggerAddress) := by
  have access : Stays R (watchpointType t bpNum) := by
    refine stays_bind stays_get fun s => stays_bind (stays_deref _) fun pd => ?_
    dsimp only
    split
    · exact stays_pure _
    · exact stays_throw _
  have rest (ptr : Nat) : Stays R (do
      let ptr ← mem2hex (wordBytes (archToBigEndian triggerAddress)) (← outputLen)
      strlcpy ptr (str ";") bufsize
      modify fun s : State => { s with targetThread := some t }) :=
    stays_bind stays_outputLen fun _ => stays_bind (stays_mem2hex _ _) fun _ =>
      stays_bind (stays_strlcpy _ _ _) fun _ => stays_modify target
  refine stays_bind (stays_strlcpy _ _ _) fun _ => stays_bind stays_outputLen fun _ =>
    stays_bind (stays_writeThreadId _ _) fun ptr => stays_bind access fun type => ?_
  cases type <;> exact stays_bind (stays_strlcpy _ _ _) fun _ => rest ptr

theorem stays_handleDebugException (reason : ExceptionReason) (triggerAddress bpNum : Word) :
    Stays R (handleDebugException t reason triggerAddress bpNum) := by
  have step := stays_handleSsHwbreakSwbreakException target
  unfold handleDebugException
  cases reason with
  | instructionBreakpoint => exact stays_bind (step _) fun _ => stays_pure _
  | singleStep => exact stays_bind (step _) fun _ => stays_pure _
  | softwareBreakRequest => exact stays_bind (step _) fun _ => stays_pure _
  | dataBreakpoint =>
    exact stays_bind (stays_handleWatchpointException target _ _) fun _ => stays_pure _
  | other => exact stays_pure _

end

/- Registers armed for a new thread. -/

theorem frame_threadEnableNthHwBreakpoint [Frame R]
    (arm : ∀ tcb bpNum setting, Stays R (tcbSetBreakpoint tcb bpNum setting)) (t : ThreadRef)
    (n : Fin numExclusiveBreakpoints) : Stays R (threadEnableNthHwBreakpoint t n) :=
  stays_bind stays_get fun _ => stays_bind (stays_deref _) fun _ => stays_ite (stays_pure _)
    (stays_bind (arm _ _ _) fun _ => stays_pure _)

theorem frame_threadEnableNthHwWatchpoint [Frame R]
    (arm : ∀ tcb bpNum setting, Stays R (tcbSetBreakpoint tcb bpNum setting)) (t : ThreadRef)
    (n : Fin numExclusiveWatchpoints) : Stays R (threadEnableNthHwWatchpoint t n) :=
  stays_bind stays_get fun _ => stays_bind (stays_deref _) fun _ => stays_ite (stays_pure _)
    (stays_bind (arm _ _ _) fun _ => stays_pure _)

theorem stays_announceThread [Frame R] {t : ThreadRef}
    (target : ∀ s, s.targetThread = none → R s { s with targetThread := some t }) :
    Stays R (announceThread t) := by
  intro s
  unfold announceThread
  rw [after_bind_ok (EStateM.run_get s)]
  cases known : s.targetThread with
  | none => exact target s known
  | some target =>
    have rest : Stays R (do
        strlcpy 0 (str "T05clone:") bufsize
        let ptr ← writeThreadId t (← outputLen)
        strlcpy ptr (str ";thread:") bufsize
        let ptr ← writeThreadId target (← outputLen)
        strlcpy ptr (str ";") bufsize) :=
      stays_bind (stays_strlcpy _ _ _) fun _ => stays_bind stays_outputLen fun _ =>
        stays_bind (stays_writeThreadId _ _) fun _ => stays_bind (stays_strlcpy _ _ _) fun _ =>
        stays_bind stays_outputLen fun _ => stays_bind (stays_writeThreadId _ _) fun _ =>
        stays_strlcpy _ _ _
    exact rest s

end Libgdb
