import Libgdb.Library.RefusedCalls
import Libgdb.RegisterMirror

/-!
Setting a hardware breakpoint or watchpoint when the kernel may refuse it for some threads. The
loop over the threads stops at the first refusal and takes nothing back, and the table entry
stays free.
-/
namespace Libgdb
open ByteMemory SlotTables CheckedPrograms KeyedUpdates RefusedCalls
variable [Machine]

/- What a set that fails leaves behind. -/

/-- The operation returns, and when it returns false the inferior's tables and the debug
    registers of its threads are as they were. -/
def RefusedUnchanged (op : Stub Bool) (pd : Fin maxPds) (s : State) : Prop :=
  ∃ done t, op.run s = .ok done t ∧ (done = false → t.inferiors pd = s.inferiors pd ∧
    ∀ x ∈ (s.inferiors pd).allTcbs, (t.kernel.tcb x).debug = (s.kernel.tcb x).debug)

/-- Whoever is armed before a refusal had the register set that way before. -/
def RefusalHarmless (bpNum : Nat) (setting : DebugSetting) (pd : Fin maxPds) (s : State) : Prop :=
  ∀ armed refused, StoppedAfter Machine.fails (armCall bpNum setting) s.kernel.calls
    (s.inferiors pd).allTcbs armed refused →
    ∀ x ∈ armed, (s.kernel.tcb x).debug bpNum = some setting

theorem armRound_unchanged_iff (bpNum : Nat) (setting : DebugSetting) (pd : Fin maxPds)
    (f : State → State) (s : State) :
    RefusedUnchanged (do
      let armed ← armThreads pd bpNum setting (List.finRange maxThreads)
      if armed then
        modify f
        return true
      else
        return false) pd s ↔ RefusalHarmless bpNum setting pd s := by
  rcases armThreads_cases pd (List.finRange maxThreads) s with
    ⟨accepted, k, run, _⟩ | ⟨armed, refused, k, stopped, run, rewired⟩
  · refine iff_of_true ⟨true, f (s.withKernel k), run_bind_ok run _, fun no => by cases no⟩ ?_
    intro armed refused stopped
    exact absurd stopped (accepted_not_stopped accepted)
  · have returns := run_bind_ok run fun armed => do
      if armed then
        modify f
        return true
      else
        return false
    constructor
    · rintro ⟨done, t, run', unchanged⟩ armed' refused' stopped' x mem
      cases run'.symm.trans returns
      obtain ⟨rfl, _⟩ := stoppedAfter_unique stopped stopped'
      have inside : x ∈ (s.inferiors pd).allTcbs :=
        ((List.prefix_append armed [refused]).trans stopped.order).subset mem
      have same := congrFun ((unchanged rfl).2 x inside) bpNum
      rw [← same]
      exact (rewired.debug x bpNum).trans (if_pos ⟨mem, rfl⟩)
    · intro harmless
      refine ⟨false, s.withKernel k, returns, fun _ => ⟨rfl, fun x _ => ?_⟩⟩
      funext m
      refine (rewired.debug x m).trans ?_
      by_cases hit : x ∈ armed ∧ m = bpNum
      · rw [if_pos hit, hit.2]
        exact (harmless armed refused stopped x hit.1).symm
      · rw [if_neg hit]

theorem breakpoint_unchanged_iff (pd : Fin maxPds) (address : Word) (s : State) :
    RefusedUnchanged (setHardwareBreakpoint pd address) pd s ↔
      ∀ n, firstSlot (fun i => ((s.inferiors pd).hardwareBreakpoints i).addr == 0) = some n →
        RefusalHarmless (firstBreakpoint + n) (HwBreak.mk address).setting pd s := by
  unfold setHardwareBreakpoint RefusedUnchanged
  rw [run_bind_ok (EStateM.run_get s)]
  cases firstSlot (fun i => ((s.inferiors pd).hardwareBreakpoints i).addr == 0) with
  | none => exact iff_of_true ⟨false, s, rfl, fun _ => ⟨rfl, fun _ _ => rfl⟩⟩ fun _ no => by cases no
  | some n =>
    apply (armRound_unchanged_iff (firstBreakpoint + n) (HwBreak.mk address).setting pd _ s).trans
    simp only [Option.some.injEq, forall_eq']

theorem watchpoint_unchanged_iff (pd : Fin maxPds) (wp : HwWatch) (s : State) :
    RefusedUnchanged (setHardwareWatchpoint pd wp.addr wp.type wp.size) pd s ↔
      ∀ n, firstSlot (fun i => ((s.inferiors pd).hardwareWatchpoints i).addr == 0) = some n →
        RefusalHarmless (firstWatchpoint + n) wp.setting pd s := by
  unfold setHardwareWatchpoint RefusedUnchanged
  rw [run_bind_ok (EStateM.run_get s)]
  cases firstSlot (fun i => ((s.inferiors pd).hardwareWatchpoints i).addr == 0) with
  | none => exact iff_of_true ⟨false, s, rfl, fun _ => ⟨rfl, fun _ _ => rfl⟩⟩ fun _ no => by cases no
  | some n =>
    apply (armRound_unchanged_iff (firstWatchpoint + n) wp.setting pd _ s).trans
    simp only [Option.some.injEq, forall_eq']

/-- Both sets change nothing when they return false exactly when no slot is free or a refusal of
    the kernel is harmless. -/
theorem refused_set_unchanged_iff (pd : Fin maxPds) (address : Word) (wp : HwWatch) (s : State) :
    (RefusedUnchanged (setHardwareBreakpoint pd address) pd s ↔
      ∀ n, firstSlot (fun i => ((s.inferiors pd).hardwareBreakpoints i).addr == 0) = some n →
        RefusalHarmless (firstBreakpoint + n) (HwBreak.mk address).setting pd s) ∧
    (RefusedUnchanged (setHardwareWatchpoint pd wp.addr wp.type wp.size) pd s ↔
      ∀ n, firstSlot (fun i => ((s.inferiors pd).hardwareWatchpoints i).addr == 0) = some n →
        RefusalHarmless (firstWatchpoint + n) wp.setting pd s) :=
  ⟨breakpoint_unchanged_iff pd address s, watchpoint_unchanged_iff pd wp s⟩

/- Two threads, of which the kernel refuses the second. -/

/-- A board whose kernel arms no register of the TCB with capability 6. -/
@[reducible] def refusingBoard : Machine where
  numExclusiveBreakpoints := 6
  numExclusiveWatchpoints := 4
  firstBreakpoint := 0
  firstWatchpoint := 6
  apart := obligingBoard.apart
  fails := fun _ call =>
    match call with
    | .tcbSetBreakpoint tcb _ _ => tcb == 6
    | _ => false
  junkInt := fun _ => 0
  junkContext := fun _ => ⟨fun _ => 0, 0, 0, 0, 0, 0⟩

def pairState : @State refusingBoard :=
  let _ := refusingBoard
  after (gdbRegisterThread 1 2 6) (after (gdbRegisterThread 1 1 5)
    (after (gdbRegisterInferior 1 7) (.boot (fun _ => 0) blankKernel)))

omit [Machine] in
theorem pair_registered : letI := refusingBoard
    Registered pairState := by
  let _ := refusingBoard
  let s := after (gdbRegisterInferior 1 7) (State.boot (fun _ => 0) blankKernel)
  have first : (Event.registerThread 1 1 5).run.run s = .ok () _ := run_of_value (by decide +kernel)
  have second : (Event.registerThread 1 2 6).run.run (after (gdbRegisterThread 1 1 5) s) =
      .ok () _ :=
    run_of_value (by decide +kernel)
  rw [Event.run, after_ignore] at first second
  exact .thread 1 2 6 (.thread 1 1 5 (.inferior 1 7 (.boot (fun _ => 0) blankKernel) rfl) first)
    second

omit [Machine] in
theorem refusing_harms : letI := refusingBoard
    ∀ s : State, (s.inferiors 0).allTcbs = [5, 6] → ∀ (n : Nat) (setting : DebugSetting),
      (s.kernel.tcb 5).debug n = none → ¬ RefusalHarmless n setting 0 s := by
  let _ := refusingBoard
  intro s tcbs n setting blank harmless
  have stopped : StoppedAfter Machine.fails (armCall n setting) s.kernel.calls
      (s.inferiors 0).allTcbs [5] 6 := by
    rw [tcbs]
    exact ⟨List.prefix_refl _, ⟨rfl, trivial⟩, rfl⟩
  have armed := harmless [5] 6 stopped 5 (List.mem_singleton.mpr rfl)
  rw [blank] at armed
  cases armed

omit [Machine] in
/-- The first thread keeps the breakpoint whose set was answered with false. -/
theorem refused_set_arms_first_thread : letI := refusingBoard
    ¬ ∀ s, Reachable s → ∀ pd address,
      RefusedUnchanged (setHardwareBreakpoint pd address) pd s := by
  let _ := refusingBoard
  intro all
  have unchanged := all pairState pair_registered.reachable 0 0x1000
  have free : firstSlot (fun i => ((pairState.inferiors 0).hardwareBreakpoints i).addr == 0) =
      some 0 := by
    decide +kernel
  have tcbs : (pairState.inferiors 0).allTcbs = [5, 6] := by decide +kernel
  have blank : (pairState.kernel.tcb 5).debug 0 = none := by decide +kernel
  have harmless := (breakpoint_unchanged_iff 0 0x1000 pairState).mp unchanged 0 free
  exact refusing_harms pairState tcbs 0 _ blank harmless

end Libgdb
