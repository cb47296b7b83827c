import Libgdb.Model.Types

/-!
The seL4 invocations the stub makes. A call that fails changes nothing but the record of
calls. The flags of ReadRegisters and WriteRegisters stop and start the thread.
-/
namespace Libgdb
open ByteMemory
variable [Machine]

def Kernel.updateTcb (k : Kernel) (tcb : Word) (f : Tcb → Tcb) : Kernel :=
  { k with tcb := Function.update k.tcb tcb (f (k.tcb tcb)) }

def Kernel.storeWord (k : Kernel) (vspace address value : Word) : Kernel :=
  { k with memory := Function.update k.memory vspace (store (k.memory vspace) address value) }

def KernelCall.effect : KernelCall → Kernel → Kernel
  | .tcbReadRegisters tcb suspendSource, k =>
      k.updateTcb tcb fun t => { t with running := t.running && !suspendSource }
  | .tcbWriteRegisters tcb resumeTarget context, k =>
      k.updateTcb tcb fun t => { t with registers := context, running := t.running || resumeTarget }
  | .vspaceReadWord _ _, k => k
  | .vspaceWriteWord vspace address value, k => k.storeWord vspace address value
  | .tcbSetBreakpoint tcb bpNum setting, k =>
      k.updateTcb tcb fun t => { t with debug := Function.update t.debug bpNum (some setting) }
  | .tcbUnsetBreakpoint tcb bpNum, k =>
      k.updateTcb tcb fun t => { t with debug := Function.update t.debug bpNum none }
  | .tcbConfigureSingleStepping tcb numInstructions, k =>
      k.updateTcb tcb fun t => { t with singleStepping := decide (numInstructions ≠ 0) }
  | .tcbSuspend tcb, k => k.updateTcb tcb fun t => { t with running := false }
  | .tcbResume tcb, k => k.updateTcb tcb fun t => { t with running := true }

/-- The kernel after a call: its effect unless it failed, and one more call on record. -/
def Kernel.record (k : Kernel) (call : KernelCall) : Kernel :=
  let k' := if Machine.fails k.calls call then k else call.effect k
  { k' with calls := call :: k.calls }

def invoke (call : KernelCall) : Stub Bool := do
  let s ← get
  set (s.withKernel (s.kernel.record call))
  return Machine.fails s.kernel.calls call

/-- The context of a failed read is left as the caller's local had it. -/
def tcbReadRegisters (tcb : Word) (suspendSource : Bool) (context : UserContext) :
    Stub UserContext := do
  let err ← invoke (.tcbReadRegisters tcb suspendSource)
  let s ← get
  return if err then context else (s.kernel.tcb tcb).registers

def tcbWriteRegisters (tcb : Word) (resumeTarget : Bool) (context : UserContext) : Stub Bool :=
  invoke (.tcbWriteRegisters tcb resumeTarget context)

def vspaceReadWord (vspace address : Word) : Stub (Option Word) := do
  let err ← invoke (.vspaceReadWord vspace address)
  let s ← get
  return if err then none else some (load (s.kernel.memory vspace) address)

def vspaceWriteWord (vspace address value : Word) : Stub Bool :=
  invoke (.vspaceWriteWord vspace address value)

def tcbSetBreakpoint (tcb : Word) (bpNum : Nat) (setting : DebugSetting) : Stub Bool :=
  invoke (.tcbSetBreakpoint tcb bpNum setting)

def tcbUnsetBreakpoint (tcb : Word) (bpNum : Nat) : Stub Bool :=
  invoke (.tcbUnsetBreakpoint tcb bpNum)

def tcbConfigureSingleStepping (tcb : Word) (numInstructions : Nat) : Stub Bool :=
  invoke (.tcbConfigureSingleStepping tcb numInstructions)

def tcbSuspend (tcb : Word) : Stub Bool := invoke (.tcbSuspend tcb)

def tcbResume (tcb : Word) : Stub Bool := invoke (.tcbResume tcb)

/- Uninitialised locals. -/

def freshInt : Stub (BitVec 32) := do
  let s ← get
  set { s with drawn := s.drawn + 1 }
  return Machine.junkInt s.drawn

def freshContext : Stub UserContext := do
  let s ← get
  set { s with drawn := s.drawn + 1 }
  return Machine.junkContext s.drawn

def State.draw (s : State) (n : Nat) : State := { s with drawn := s.drawn + n }

/- Runs of the calls. -/

@[simp] theorem invoke_run (call : KernelCall) (s : State) :
    (invoke call).run s =
      .ok (Machine.fails s.kernel.calls call) (s.withKernel (s.kernel.record call)) := rfl

theorem freshInt_run (s : State) : freshInt.run s = .ok (Machine.junkInt s.drawn) (s.draw 1) := rfl

@[simp] theorem record_calls (k : Kernel) (call : KernelCall) :
    (k.record call).calls = call :: k.calls := rfl

theorem record_of_ok {k : Kernel} {call : KernelCall}
    (ok : Machine.fails k.calls call = false) :
    k.record call = { call.effect k with calls := call :: k.calls } := by
  simp [Kernel.record, ok]

theorem record_of_fail {k : Kernel} {call : KernelCall}
    (fail : Machine.fails k.calls call = true) :
    k.record call = { k with calls := call :: k.calls } := by
  simp [Kernel.record, fail]

structure MemoryCallsSucceed : Prop where
  read : ∀ calls vspace address, Machine.fails calls (.vspaceReadWord vspace address) = false
  write : ∀ calls vspace address value,
    Machine.fails calls (.vspaceWriteWord vspace address value) = false

theorem vspaceReadWord_run (ok : MemoryCallsSucceed) (vspace address : Word) (s : State) :
    ∃ k : Kernel, k.memory = s.kernel.memory ∧ k.tcb = s.kernel.tcb ∧
      (vspaceReadWord vspace address).run s =
        .ok (some (load (s.kernel.memory vspace) address)) (s.withKernel k) := by
  refine ⟨s.kernel.record (.vspaceReadWord vspace address), ?_, ?_, ?_⟩
  · simp [record_of_ok, ok.read, KernelCall.effect]
  · simp [record_of_ok, ok.read, KernelCall.effect]
  · simp [vspaceReadWord, ok.read, record_of_ok, KernelCall.effect]

theorem vspaceWriteWord_run (ok : MemoryCallsSucceed) (vspace address value : Word) (s : State) :
    ∃ k : Kernel,
      k.memory = Function.update s.kernel.memory vspace
        (store (s.kernel.memory vspace) address value) ∧ k.tcb = s.kernel.tcb ∧
      (vspaceWriteWord vspace address value).run s = .ok false (s.withKernel k) := by
  refine ⟨s.kernel.record (.vspaceWriteWord vspace address value), ?_, ?_, ?_⟩
  · simp [record_of_ok, ok.write, KernelCall.effect, Kernel.storeWord]
  · simp [record_of_ok, ok.write, KernelCall.effect, Kernel.storeWord]
  · simp [vspaceWriteWord, ok.write]

/-- A board with six breakpoint and four watchpoint registers on which no call fails. -/
@[reducible] def obligingBoard : Machine where
  numExclusiveBreakpoints := 6
  numExclusiveWatchpoints := 4
  firstBreakpoint := 0
  firstWatchpoint := 6
  apart := by decide
  fails := fun _ _ => false
  junkInt := fun _ => 0
  junkContext := fun _ => ⟨fun _ => 0, 0, 0, 0, 0, 0⟩

def blankKernel : Kernel where
  memory := fun _ _ => 0
  tcb := fun _ => ⟨⟨fun _ => 0, 0, 0, 0, 0, 0⟩, false, false, fun _ => none⟩
  calls := []

def blankState : @State obligingBoard := @State.boot obligingBoard (fun _ => 0) blankKernel

end Libgdb
