import Libgdb.RegistryInvariant

/-!
Packets that act on the target's inferior leave the others alone: every kernel call names the
inferior's vspace or a TCB of one of its threads, whatever the calls return.
-/
namespace Libgdb
open ByteMemory SlotTables CheckedPrograms
variable [Machine]

def KernelCall.within (inferior : Inferior) : KernelCall → Prop
  | .vspaceReadWord vspace _ | .vspaceWriteWord vspace _ _ => vspace = inferior.vspace
  | .tcbReadRegisters tcb _ | .tcbWriteRegisters tcb _ _ | .tcbSetBreakpoint tcb _ _
  | .tcbUnsetBreakpoint tcb _ | .tcbConfigureSingleStepping tcb _ | .tcbSuspend tcb
  | .tcbResume tcb => ∃ slot, (inferior.threads slot).enabled = true ∧
    (inferior.threads slot).tcb = tcb

/-- From `s` to `u` only calls within the inferior in slot `pd` were made and only its tables of
    breakpoints and watchpoints changed. -/
structure Confined (s : State) (pd : Fin maxPds) (u : State) : Prop where
  calls : ∃ new, u.kernel.calls = new ++ s.kernel.calls ∧ ∀ c ∈ new, c.within (s.inferiors pd)
  counter : u.currInferiorIdx = s.currInferiorIdx
  target : u.targetThread = s.targetThread
  others : ∀ pd', pd' ≠ pd → u.inferiors pd' = s.inferiors pd'
  own : SameButTables (s.inferiors pd) (u.inferiors pd)

section
variable {s : State} {pd : Fin maxPds}

theorem confined_refl (s : State) (pd : Fin maxPds) : Confined s pd s :=
  ⟨⟨[], rfl, fun _ mem => absurd mem (by simp)⟩, rfl, rfl, fun _ _ => rfl, ⟨_, _, _, rfl⟩⟩

instance : Frame (Preserves (Confined s pd)) where
  output _ _ inside := ⟨inside.calls, inside.counter, inside.target, inside.others, inside.own⟩
  drawn _ _ inside := ⟨inside.calls, inside.counter, inside.target, inside.others, inside.own⟩

theorem Confined.vspace {u : State} (inside : Confined s pd u) :
    (u.inferiors pd).vspace = (s.inferiors pd).vspace := by
  obtain ⟨_, _, _, same⟩ := inside.own
  rw [same]

theorem Confined.threads {u : State} (inside : Confined s pd u) :
    (u.inferiors pd).threads = (s.inferiors pd).threads := by
  obtain ⟨_, _, _, same⟩ := inside.own
  rw [same]

theorem Confined.thread {u : State} (inside : Confined s pd u) (t : ThreadRef) :
    u.thread t = s.thread t := by
  by_cases here : t.pd = pd
  · subst here
    rw [State.thread, inside.threads]
    rfl
  · rw [State.thread, inside.others _ here]
    rfl

theorem stays_within {call : KernelCall} (named : call.within (s.inferiors pd)) :
    Stays (Preserves (Confined s pd)) (invoke call) := by
  intro u inside
  obtain ⟨new, calls, within⟩ := inside.calls
  refine ⟨⟨call :: new, ?_, ?_⟩, inside.counter, inside.target, inside.others, inside.own⟩
  · exact congrArg (call :: ·) calls
  · intro c mem
    rcases List.mem_cons.mp mem with rfl | mem
    · exact named
    · exact within c mem

theorem stays_ownTables (f : State → Inferior)
    (tables : ∀ u, SameButTables (u.inferiors pd) (f u)) :
    Stays (Preserves (Confined s pd))
      (modify fun u : State => u.setInferior pd (f u) : Stub Unit) := by
  refine stays_modify fun u inside => ⟨inside.calls, inside.counter, inside.target, ?_, ?_⟩
  · intro pd' ne
    rw [setInferior_inferiors, Function.update_of_ne ne]
    exact inside.others pd' ne
  · rw [setInferior_inferiors, Function.update_self]
    obtain ⟨_, _, _, old⟩ := inside.own
    obtain ⟨sw, hb, hw, new⟩ := tables u
    exact ⟨sw, hb, hw, by rw [new, old]⟩

/- Words of the inferior. -/

theorem confined_vspaceReadWord (address : Word) :
    Stays (Preserves (Confined s pd)) (vspaceReadWord (s.inferiors pd).vspace address) :=
  stays_bind (stays_within rfl) fun _ => stays_bind stays_get fun _ => stays_pure _

theorem confined_vspaceWriteWord (address value : Word) :
    Stays (Preserves (Confined s pd)) (vspaceWriteWord (s.inferiors pd).vspace address value) :=
  stays_within rfl

def ActsOn (s : State) (pd : Fin maxPds) (thread : Option ThreadRef) : Prop :=
  ∀ t, thread = some t → (s.thread t).inferior = some pd

theorem confined_inferiorWord {α : Type} {thread : Option ThreadRef} (acts : ActsOn s pd thread)
    (access : Word → Stub α)
    (h : Stays (Preserves (Confined s pd)) (access (s.inferiors pd).vspace)) :
    Stays (Preserves (Confined s pd)) (do
      let u ← get
      let t ← deref thread
      let pd ← deref (u.thread t).inferior
      access (u.inferiors pd).vspace : Stub α) := by
  refine preserves_get_bind fun u inside => ?_
  cases thread with
  | none => exact stays_throw _
  | some t =>
    have owner : (u.thread t).inferior = some pd := by
      rw [inside.thread]
      exact acts t rfl
    rw [deref_some, pure_bind, owner, deref_some, pure_bind, inside.vspace]
    exact h

theorem confined_readInferiorWord {thread : Option ThreadRef} (acts : ActsOn s pd thread)
    (mem : Word) : Stays (Preserves (Confined s pd)) (readInferiorWord thread mem) :=
  confined_inferiorWord acts (vspaceReadWord · mem) (confined_vspaceReadWord mem)

theorem confined_writeInferiorWord {thread : Option ThreadRef} (acts : ActsOn s pd thread)
    (mem value : Word) : Stays (Preserves (Confined s pd)) (writeInferiorWord thread mem value) :=
  confined_inferiorWord acts (vspaceWriteWord · mem value) (confined_vspaceWriteWord mem value)

/- Breakpoints and watchpoints of the inferior. -/

theorem confined_setSoftwareBreakpoint (address : Word) :
    Stays (Preserves (Confined s pd)) (setSoftwareBreakpoint pd address) := by
  refine preserves_get_bind fun u inside => ?_
  dsimp only
  rw [inside.vspace]
  refine stays_bind (confined_vspaceReadWord address) fun word => ?_
  cases word with
  | none => exact stays_pure _
  | some word =>
    refine stays_bind (confined_vspaceWriteWord _ _) fun err => stays_ite (stays_pure _) ?_
    cases firstSlot (fun i => ((u.inferiors pd).softwareBreakpoints i).addr == 0) with
    | none => exact stays_bind (confined_vspaceWriteWord _ _) fun _ => stays_pure _
    | some i =>
      exact stays_bind (stays_ownTables _ fun _ => ⟨_, _, _, rfl⟩) fun _ => stays_pure _

theorem confined_unsetSoftwareBreakpoint (address : Word) :
    Stays (Preserves (Confined s pd)) (unsetSoftwareBreakpoint pd address) := by
  refine preserves_get_bind fun u inside => ?_
  cases firstSlot (fun i => ((u.inferiors pd).softwareBreakpoints i).addr == address) with
  | none => exact stays_pure _
  | some i =>
    dsimp only
    rw [inside.vspace]
    refine stays_bind (confined_vspaceWriteWord _ _) fun err => stays_ite (stays_pure _) ?_
    exact stays_bind (stays_ownTables _ fun _ => ⟨_, _, _, rfl⟩) fun _ => stays_pure _

theorem confined_armThreads (bpNum : Nat) (setting : DebugSetting) (js : List (Fin maxThreads)) :
    Stays (Preserves (Confined s pd)) (armThreads pd bpNum setting js) := by
  induction js with
  | nil => exact stays_pure _
  | cons j js ih =>
    refine preserves_get_bind fun u inside => ?_
    dsimp only
    rw [inside.threads]
    exact stays_cond (fun on => stays_bind (stays_within ⟨j, on, rfl⟩) fun _ =>
      stays_ite (stays_pure _) ih) fun _ => ih

theorem confined_disarmThreads (bpNum : Nat) (js : List (Fin maxThreads)) :
    Stays (Preserves (Confined s pd)) (disarmThreads pd bpNum js) := by
  induction js with
  | nil => exact stays_pure _
  | cons j js ih =>
    refine preserves_get_bind fun u inside => ?_
    dsimp only
    rw [inside.threads]
    exact stays_cond (fun on => stays_bind (stays_within ⟨j, on, rfl⟩) fun _ => ih) fun _ => ih

theorem confined_setHardwareBreakpoint (address : Word) :
    Stays (Preserves (Confined s pd)) (setHardwareBreakpoint pd address) := by
  refine stays_bind stays_get fun u => ?_
  cases firstSlot (fun i => ((u.inferiors pd).hardwareBreakpoints i).addr == 0) with
  | none => exact stays_pure _
  | some i =>
    exact stays_bind (confined_armThreads _ _ _) fun armed => stays_ite
      (stays_bind (stays_ownTables _ fun _ => ⟨_, _, _, rfl⟩) fun _ => stays_pure _) (stays_pure _)

theorem confined_unsetHardwareBreakpoint (address : Word) :
    Stays (Preserves (Confined s pd)) (unsetHardwareBreakpoint pd address) := by
  refine stays_bind stays_get fun u => ?_
  cases firstSlot (fun i => ((u.inferiors pd).hardwareBreakpoints i).addr == address) with
  | none => exact stays_pure _
  | some i =>
    exact stays_bind (stays_ownTables _ fun _ => ⟨_, _, _, rfl⟩) fun _ =>
      stays_bind (confined_disarmThreads _ _) fun _ => stays_pure _

theorem confined_setHardwareWatchpoint (address : Word) (type : BreakpointAccess) (size : Word) :
    Stays (Preserves (Confined s pd)) (setHardwareWatchpoint pd address type size) := by
  refine stays_bind stays_get fun u => ?_
  cases firstSlot (fun i => ((u.inferiors pd).hardwareWatchpoints i).addr == 0) with
  | none => exact stays_pure _
  | some i =>
    exact stays_bind (confined_armThreads _ _ _) fun armed => stays_ite
      (stays_bind (stays_ownTables _ fun _ => ⟨_, _, _, rfl⟩) fun _ => stays_pure _) (stays_pure _)

theorem confined_unsetHardwareWatchpoint (address : Word) (type : BreakpointAccess) (size : Word) :
    Stays (Preserves (Confined s pd)) (unsetHardwareWatchpoint pd address type size) := by
  refine stays_bind stays_get fun u => ?_
  cases firstSlot (fun i => (u.inferiors pd).hardwareWatchpoints i == ⟨address, size, type⟩) with
  | none => exact stays_pure _
  | some i =>
    exact stays_bind (stays_ownTables _ fun _ => ⟨_, _, _, rfl⟩) fun _ =>
      stays_bind (confined_disarmThreads _ _) fun _ => stays_pure _

/- The handlers. -/

section
variable {t : ThreadRef} (target : s.targetThread = some t)
include target

theorem confined_handleReadRegs (enabled : (s.thread t).enabled = true) :
    Stays (Preserves (Confined s t.pd)) handleReadRegs := by
  refine stays_bind stays_freshContext fun context => preserves_get_bind fun u inside => ?_
  rw [inside.target, target, deref_some, pure_bind, inside.thread]
  refine stays_bind (stays_bind (stays_within ⟨t.slot, enabled, rfl⟩) fun _ =>
    stays_bind stays_get fun _ => stays_pure _) fun _ => ?_
  exact stays_bind (stays_regs2hex _ _) fun _ => stays_pure _

theorem confined_handleWriteRegs (enabled : (s.thread t).enabled = true) (ptr : List Byte) :
    Stays (Preserves (Confined s t.pd)) (handleWriteRegs ptr) := by
  refine stays_bind (stays_liftParse _) fun _ => stays_bind (stays_assert _) fun _ =>
    stays_bind stays_freshContext fun _ => stays_bind (stays_liftParse _) fun parsed =>
    preserves_get_bind fun u inside => ?_
  rw [inside.target, target, deref_some, pure_bind, inside.thread]
  exact stays_bind (stays_within ⟨t.slot, enabled, rfl⟩) fun _ => stays_strlcpy _ _ _

theorem actsOn_target {u : State} (owner : (s.thread t).inferior = some t.pd)
    (inside : Confined s t.pd u) : ActsOn s t.pd u.targetThread := by
  intro r known
  rw [inside.target, target] at known
  cases known
  exact owner

theorem confined_handleReadMem (owner : (s.thread t).inferior = some t.pd) (ptr : List Byte) :
    Stays (Preserves (Confined s t.pd)) (handleReadMem ptr) := by
  refine stays_bind (stays_liftParse _) fun parsed => ?_
  cases parsed with
  | none => exact stays_strlcpy _ _ _
  | some parsed =>
    refine stays_ite (stays_strlcpy _ _ _) (preserves_get_bind fun u inside => ?_)
    refine stays_bind (stays_infMem2hex
      (confined_readInferiorWord (actsOn_target target owner inside)) _ _ _) fun last => ?_
    cases last with
    | none => exact stays_strlcpy _ _ _
    | some last => exact stays_pure _

theorem confined_handleWriteMem (owner : (s.thread t).inferior = some t.pd) (ptr : List Byte) :
    Stays (Preserves (Confined s t.pd)) (handleWriteMem ptr) := by
  refine stays_bind (stays_liftParse _) fun parsed => ?_
  cases parsed with
  | none => exact stays_strlcpy _ _ _
  | some parsed =>
    refine stays_bind (stays_liftParse _) fun found => ?_
    cases found with
    | none => exact stays_pure _
    | some found =>
      refine preserves_get_bind fun u inside => ?_
      have acts := actsOn_target target owner inside
      refine stays_bind (stays_infHex2mem (confined_readInferiorWord acts)
        (confined_writeInferiorWord acts) _ _ _) fun mem => ?_
      exact stays_ite (stays_strlcpy _ _ _) (stays_strlcpy _ _ _)

theorem confined_onTarget (owner : (s.thread t).inferior = some t.pd) {f : Fin maxPds → Stub Bool}
    (h : Stays (Preserves (Confined s t.pd)) (f t.pd)) :
    Stays (Preserves (Confined s t.pd)) (do
      let success ← f (← targetInferior)
      strlcpy 0 (if success then str "OK" else str "E01") bufsize) := by
  have found : Stays (Preserves (Confined s t.pd)) (targetInferior >>= f) := by
    unfold targetInferior
    rw [bind_assoc]
    refine preserves_get_bind fun u inside => ?_
    rw [inside.target, target, deref_some, pure_bind, inside.thread, owner, deref_some, pure_bind]
    exact h
  have whole := stays_bind found fun success =>
    stays_strlcpy (R := Preserves (Confined s t.pd)) 0 (if success then str "OK"
      else str "E01") bufsize
  rwa [bind_assoc] at whole

theorem confined_handleConfigureDebugEvents (owner : (s.thread t).inferior = some t.pd)
    (ptr : List Byte) : Stays (Preserves (Confined s t.pd)) (handleConfigureDebugEvents ptr) := by
  have answer {f : Fin maxPds → Stub Bool} := confined_onTarget target owner (f := f)
  refine stays_bind (stays_liftParse _) fun parsed => ?_
  cases parsed with
  | none => exact stays_strlcpy _ _ _
  | some parsed =>
    refine stays_bind (stays_textIs _ _ _) fun _ => stays_ite
      (answer (confined_setSoftwareBreakpoint _)) ?_
    refine stays_bind (stays_textIs _ _ _) fun _ => stays_ite
      (answer (confined_unsetSoftwareBreakpoint _)) ?_
    refine stays_bind (stays_textIs _ _ _) fun _ => stays_ite
      (answer (confined_setHardwareBreakpoint _)) ?_
    refine stays_bind (stays_textIs _ _ _) fun _ => stays_ite
      (answer (confined_unsetHardwareBreakpoint _)) ?_
    refine stays_bind (stays_liftParse _) fun c => ?_
    cases watchpointAccess c with
    | none => exact stays_strlcpy _ _ _
    | some access =>
      exact stays_bind (stays_liftParse _) fun _ => stays_ite
        (answer (confined_setHardwareWatchpoint _ _ _))
        (answer (confined_unsetHardwareWatchpoint _ _ _))

end
end
/-- A packet that reads or writes registers, memory, breakpoints or watchpoints. -/
def ActsOnTarget (input : List Byte) : Prop :=
  ∃ c rest, input = c :: rest ∧ c ∈ str "gGmMZz"

/-- Such a packet stays within the inferior of a live target, whichever kernel calls fail and
    also when it stops at a fault. -/
theorem packet_confined {s : State} (reachable : Reachable s) {t : ThreadRef}
    (target : s.targetThread = some t) (live : s.live t = true) {input : List Byte}
    (acts : ActsOnTarget input) : Confined s t.pd (after (gdbHandlePacket input) s) := by
  have enabled : (s.thread t).enabled = true := by
    simp only [State.live, Bool.and_eq_true] at live
    exact live.2
  have owner := (reachable_ok reachable).owner enabled
  have whole {handler : Stub Unit} (h : Stays (Preserves (Confined s t.pd)) handler) :
      Confined s t.pd (after (do put 0 0; handler; return false : Stub Bool) s) :=
    stays_bind (stays_put _ _) (fun _ => stays_bind h fun _ => stays_pure false) s
      (confined_refl s t.pd)
  obtain ⟨c, rest, rfl, kind⟩ := acts
  have kinds : str "gGmMZz" = [chr 'g', chr 'G', chr 'm', chr 'M', chr 'Z', chr 'z'] := rfl
  simp only [kinds, List.mem_cons, List.not_mem_nil, or_false] at kind
  rcases kind with rfl | rfl | rfl | rfl | kind
  · rw [dispatch_readRegs]
    exact whole (confined_handleReadRegs target enabled)
  · rw [dispatch_writeRegs]
    exact whole (confined_handleWriteRegs target enabled _)
  · rw [dispatch_readMem]
    exact whole (confined_handleReadMem target owner _)
  · rw [dispatch_writeMem]
    exact whole (confined_handleWriteMem target owner _)
  · rw [dispatch_debugEvents kind]
    exact whole (confined_handleConfigureDebugEvents target owner _)

omit [Machine] in
/-- `Z1,1000,4` with two inferiors. -/
theorem duo_packet_confined : letI := obligingBoard
    duoState.live ⟨1, 0⟩ = true ∧
      Confined duoState 0 (after (gdbHandlePacket (str "Z1,1000,4" ++ [0])) duoState) := by
  let _ := obligingBoard
  have other : duoState.live ⟨1, 0⟩ = true := by decide +kernel
  have target : duoState.targetThread = some ⟨0, 0⟩ := by decide +kernel
  have live : duoState.live ⟨0, 0⟩ = true := by decide +kernel
  exact ⟨other, packet_confined duo_registered.reachable target live ⟨_, _, rfl, by decide⟩⟩

end Libgdb
