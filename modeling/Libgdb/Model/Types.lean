import Mathlib
import Libgdb.Library.ByteMemory

/-!
Records of include/gdb.h, the part of seL4 the stub talks to, and the state its functions
run on. A C pointer into a table is a slot reference, NULL is `none`; a pointer into a
buffer is the list of bytes from there to the end of the buffer.
-/
namespace Libgdb
open ByteMemory (Byte Word Memory)

abbrev maxPds := 64
abbrev maxThreads := 256
abbrev maxSwBreaks := 32
abbrev bufsize := 2048

instance : NeZero maxPds := ⟨by decide⟩

def chr (c : Char) : Byte := BitVec.ofNat 8 c.toNat

def str (s : String) : List Byte := s.toList.map chr

/- seL4 constants and records. -/

/-- `seL4_BreakpointAccess`; the zero value of the enumeration is `breakOnRead`. -/
inductive BreakpointAccess where
  | breakOnRead
  | breakOnWrite
  | breakOnReadWrite
  deriving DecidableEq, Repr

inductive BreakpointType where
  | dataBreakpoint
  | instructionBreakpoint
  deriving DecidableEq, Repr

/-- Exception reasons of a debug fault message; `other` is any code the stub has no case for. -/
inductive ExceptionReason where
  | dataBreakpoint
  | instructionBreakpoint
  | singleStep
  | softwareBreakRequest
  | other
  deriving DecidableEq, Repr

/-- One armed breakpoint or watchpoint register of a TCB. -/
structure DebugSetting where
  address : Word
  type : BreakpointType
  size : Word
  access : BreakpointAccess
  deriving DecidableEq, Repr

/-- `seL4_UserContext`: the registers sent on the wire and the two that are not. -/
structure UserContext where
  x : Fin 31 → Word
  sp : Word
  pc : Word
  spsr : Word
  tpidrEl0 : Word
  tpidrroEl0 : Word

inductive KernelCall where
  | tcbReadRegisters (tcb : Word) (suspendSource : Bool)
  | tcbWriteRegisters (tcb : Word) (resumeTarget : Bool) (context : UserContext)
  | vspaceReadWord (vspace address : Word)
  | vspaceWriteWord (vspace address value : Word)
  | tcbSetBreakpoint (tcb : Word) (bpNum : Nat) (setting : DebugSetting)
  | tcbUnsetBreakpoint (tcb : Word) (bpNum : Nat)
  | tcbConfigureSingleStepping (tcb : Word) (numInstructions : Nat)
  | tcbSuspend (tcb : Word)
  | tcbResume (tcb : Word)

/-- What the stub's source leaves open: the debug registers of the board, which kernel calls
    fail after a given history of calls, and what uninitialised locals hold. -/
class Machine where
  numExclusiveBreakpoints : Nat
  numExclusiveWatchpoints : Nat
  firstBreakpoint : Nat
  firstWatchpoint : Nat
  apart : firstBreakpoint + numExclusiveBreakpoints ≤ firstWatchpoint ∨
    firstWatchpoint + numExclusiveWatchpoints ≤ firstBreakpoint
  fails : List KernelCall → KernelCall → Bool
  junkInt : Nat → BitVec 32
  junkContext : Nat → UserContext

export Machine (numExclusiveBreakpoints numExclusiveWatchpoints firstBreakpoint firstWatchpoint)

structure Tcb where
  registers : UserContext
  running : Bool
  singleStepping : Bool
  debug : Nat → Option DebugSetting

/-- Kernel objects by capability, and the calls made so far, latest first. -/
structure Kernel where
  memory : Word → Memory
  tcb : Word → Tcb
  calls : List KernelCall

/- include/gdb.h. -/

structure HwWatch where
  addr : Word
  size : Word
  type : BreakpointAccess
  deriving DecidableEq, Repr

structure HwBreak where
  addr : Word
  deriving DecidableEq, Repr

structure SwBreak where
  addr : Word
  origWord : Word
  deriving DecidableEq, Repr

structure Thread where
  enabled : Bool
  wakeup : Bool
  ssEnabled : Bool
  inferior : Option (Fin maxPds)
  id : Word
  gdbId : BitVec 16
  tcb : Word
  deriving DecidableEq, Repr

section
variable [Machine]

structure Inferior where
  enabled : Bool
  id : Word
  gdbId : BitVec 16
  vspace : Word
  currThreadIdx : Nat
  threads : Fin maxThreads → Thread
  softwareBreakpoints : Fin maxSwBreaks → SwBreak
  hardwareBreakpoints : Fin numExclusiveBreakpoints → HwBreak
  hardwareWatchpoints : Fin numExclusiveWatchpoints → HwWatch

/- All-zero records, as `memset` and static storage leave them. -/

def HwWatch.zero : HwWatch := ⟨0, 0, .breakOnRead⟩
def HwBreak.zero : HwBreak := ⟨0⟩
def SwBreak.zero : SwBreak := ⟨0, 0⟩
def Thread.zero : Thread := ⟨false, false, false, none, 0, 0, 0⟩

def Inferior.zero : Inferior where
  enabled := false
  id := 0
  gdbId := 0
  vspace := 0
  currThreadIdx := 0
  threads := fun _ => .zero
  softwareBreakpoints := fun _ => .zero
  hardwareBreakpoints := fun _ => .zero
  hardwareWatchpoints := fun _ => .zero

/-- `&inferiors[pd].threads[slot]` -/
structure ThreadRef where
  pd : Fin maxPds
  slot : Fin maxThreads
  deriving DecidableEq, Repr

/-- The globals of the stub, the reply buffer its caller passes, and the kernel. `drawn`
    counts the uninitialised locals read so far. -/
structure State where
  currInferiorIdx : Nat
  inferiors : Fin maxPds → Inferior
  targetThread : Option ThreadRef
  handled : Fin maxPds → Fin maxThreads → Bool
  output : Nat → Byte
  detached : Bool
  drawn : Nat
  kernel : Kernel

/-- Globals as the program starts with them; the reply buffer and the kernel are arbitrary. -/
def State.boot (output : Nat → Byte) (kernel : Kernel) : State where
  currInferiorIdx := 0
  inferiors := fun _ => .zero
  targetThread := none
  handled := fun _ _ => false
  output := output
  detached := false
  drawn := 0
  kernel := kernel

/-- Ways a function does not return: a failed assertion (the stub spins) and undefined
    behaviour, by kind. -/
inductive Fault where
  | assertFail
  | nullDereference
  | indexOutOfBounds
  | inputOverread
  | outputOverflow
  | localOverwrite
  | intOverflow
  | fuel
  deriving DecidableEq, Repr

abbrev Stub := EStateM Fault State

def liftParse {α : Type} (p : Except Fault α) : Stub α :=
  match p with
  | .ok a => pure a
  | .error f => throw f

def assert (c : Prop) [Decidable c] : Stub Unit := if c then pure () else throw .assertFail

def deref {α : Type} (p : Option α) : Stub α :=
  match p with
  | some a => pure a
  | none => throw .nullDereference

theorem deref_some {α : Type} (a : α) : deref (some a) = pure a := rfl

theorem liftParse_run {α : Type} {p : Except Fault α} {a : α} (h : p = .ok a) (s : State) :
    (liftParse p).run s = .ok a s := by
  subst h
  rfl

theorem assert_run {c : Prop} [Decidable c] (h : c) (s : State) :
    (assert c).run s = .ok () s := by
  simp only [assert, if_pos h]
  rfl

theorem deref_run {α : Type} {p : Option α} {a : α} (h : p = some a) (s : State) :
    (deref p).run s = .ok a s := by
  subst h
  rfl

/- Reads and writes of the tables. -/

def State.thread (s : State) (t : ThreadRef) : Thread := (s.inferiors t.pd).threads t.slot

def State.setInferior (s : State) (pd : Fin maxPds) (inferior : Inferior) : State :=
  { s with inferiors := Function.update s.inferiors pd inferior }

def Inferior.setThread (i : Inferior) (slot : Fin maxThreads) (thread : Thread) : Inferior :=
  { i with threads := Function.update i.threads slot thread }

def State.setThread (s : State) (t : ThreadRef) (thread : Thread) : State :=
  s.setInferior t.pd ((s.inferiors t.pd).setThread t.slot thread)

def State.withKernel (s : State) (k : Kernel) : State := { s with kernel := k }

def State.withOutput (s : State) (output : Nat → Byte) : State := { s with output := output }

section
variable (s : State) (k : Kernel) (o : Nat → Byte)

@[simp] theorem withKernel_kernel : (s.withKernel k).kernel = k := rfl
@[simp] theorem withKernel_inferiors : (s.withKernel k).inferiors = s.inferiors := rfl
@[simp] theorem withKernel_targetThread : (s.withKernel k).targetThread = s.targetThread := rfl
@[simp] theorem withKernel_handled : (s.withKernel k).handled = s.handled := rfl
@[simp] theorem withKernel_output : (s.withKernel k).output = s.output := rfl
@[simp] theorem withKernel_withKernel (k' : Kernel) :
    (s.withKernel k).withKernel k' = s.withKernel k' := rfl
@[simp] theorem withOutput_kernel : (s.withOutput o).kernel = s.kernel := rfl
@[simp] theorem withOutput_inferiors : (s.withOutput o).inferiors = s.inferiors := rfl
@[simp] theorem withOutput_targetThread : (s.withOutput o).targetThread = s.targetThread := rfl
@[simp] theorem withOutput_output : (s.withOutput o).output = o := rfl
@[simp] theorem withKernel_thread (t : ThreadRef) :
    (s.withKernel k).thread t = s.thread t := rfl
@[simp] theorem withOutput_thread (t : ThreadRef) :
    (s.withOutput o).thread t = s.thread t := rfl
@[simp] theorem withOutput_withOutput (o' : Nat → Byte) :
    (s.withOutput o).withOutput o' = s.withOutput o' := rfl

variable (pd : Fin maxPds) (i : Inferior)

@[simp] theorem setInferior_kernel : (s.setInferior pd i).kernel = s.kernel := rfl
@[simp] theorem setInferior_targetThread : (s.setInferior pd i).targetThread = s.targetThread := rfl
@[simp] theorem setInferior_handled : (s.setInferior pd i).handled = s.handled := rfl
@[simp] theorem setInferior_output : (s.setInferior pd i).output = s.output := rfl
@[simp] theorem setInferior_inferiors :
    (s.setInferior pd i).inferiors = Function.update s.inferiors pd i := rfl

end

/- One thread of the tables replaced. -/

section
variable (s : State) (t : ThreadRef) (thread : Thread)

@[simp] theorem setThread_kernel : (s.setThread t thread).kernel = s.kernel := rfl
@[simp] theorem setThread_targetThread :
    (s.setThread t thread).targetThread = s.targetThread := rfl
@[simp] theorem setThread_handled : (s.setThread t thread).handled = s.handled := rfl

@[simp] theorem setThread_thread : (s.setThread t thread).thread t = thread := by
  simp [State.thread, State.setThread, Inferior.setThread]

theorem setThread_other {r : ThreadRef} (ne : r ≠ t) :
    (s.setThread t thread).thread r = s.thread r := by
  obtain ⟨pd, slot⟩ := t
  obtain ⟨pd', slot'⟩ := r
  by_cases here : pd' = pd
  · subst here
    have other : slot' ≠ slot := by
      rintro rfl
      exact ne rfl
    simp [State.thread, State.setThread, Inferior.setThread, Function.update_of_ne other]
  · simp [State.thread, State.setThread, Function.update_of_ne here]

theorem setThread_inferior (pd : Fin maxPds) :
    (s.setThread t thread).inferiors pd =
      { s.inferiors pd with threads := ((s.setThread t thread).inferiors pd).threads } := by
  by_cases here : pd = t.pd
  · subst here
    simp [State.setThread, Inferior.setThread]
  · simp [State.setThread, Function.update_of_ne here]

@[simp] theorem setThread_enabled (pd : Fin maxPds) :
    ((s.setThread t thread).inferiors pd).enabled = (s.inferiors pd).enabled := by
  rw [setThread_inferior]

@[simp] theorem setThread_gdbId (pd : Fin maxPds) :
    ((s.setThread t thread).inferiors pd).gdbId = (s.inferiors pd).gdbId := by
  rw [setThread_inferior]

end

/-- A live thread: an enabled thread of an enabled inferior. -/
def State.live (s : State) (t : ThreadRef) : Bool :=
  (s.inferiors t.pd).enabled && (s.thread t).enabled

def threadRefs : List ThreadRef :=
  (List.finRange maxPds).flatMap fun pd => (List.finRange maxThreads).map fun slot => ⟨pd, slot⟩

end
end Libgdb
