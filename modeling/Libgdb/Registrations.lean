import Libgdb.Frames
import Libgdb.ReplyText

/-!
The registry: what registration, exit and everything else do to the tables of inferiors and
threads, and what holds of the ids in every reachable state.
-/
namespace Libgdb
open ByteMemory SlotTables CheckedPrograms
variable [Machine]

/- The part of the state only registration and exit change. -/

omit [Machine] in
def Thread.core (thread : Thread) : Thread := { thread with wakeup := false, ssEnabled := false }

def Inferior.core (i : Inferior) : Inferior :=
  { i with
    threads := fun slot => (i.threads slot).core
    softwareBreakpoints := fun _ => .zero
    hardwareBreakpoints := fun _ => .zero
    hardwareWatchpoints := fun _ => .zero }

structure SameRegistry (s t : State) : Prop where
  counter : t.currInferiorIdx = s.currInferiorIdx
  inferiors : ∀ pd, (t.inferiors pd).core = (s.inferiors pd).core

section
variable {s t : State} (same : SameRegistry s t) (pd : Fin maxPds)
include same

theorem SameRegistry.enabled : (t.inferiors pd).enabled = (s.inferiors pd).enabled :=
  (congrArg Inferior.enabled (same.inferiors pd) :)

theorem SameRegistry.id : (t.inferiors pd).id = (s.inferiors pd).id :=
  (congrArg Inferior.id (same.inferiors pd) :)

theorem SameRegistry.gdbId : (t.inferiors pd).gdbId = (s.inferiors pd).gdbId :=
  (congrArg Inferior.gdbId (same.inferiors pd) :)

theorem SameRegistry.currThreadIdx :
    (t.inferiors pd).currThreadIdx = (s.inferiors pd).currThreadIdx :=
  (congrArg Inferior.currThreadIdx (same.inferiors pd) :)

theorem SameRegistry.thread (r : ThreadRef) : (t.thread r).core = (s.thread r).core :=
  congrFun (congrArg Inferior.threads (same.inferiors r.pd)) r.slot

theorem SameRegistry.threadEnabled (r : ThreadRef) : (t.thread r).enabled = (s.thread r).enabled :=
  (congrArg Thread.enabled (same.thread r) :)

theorem SameRegistry.owner (r : ThreadRef) : (t.thread r).inferior = (s.thread r).inferior :=
  (congrArg Thread.inferior (same.thread r) :)

theorem SameRegistry.threadId (r : ThreadRef) : (t.thread r).id = (s.thread r).id :=
  (congrArg Thread.id (same.thread r) :)

theorem SameRegistry.threadGdbId (r : ThreadRef) : (t.thread r).gdbId = (s.thread r).gdbId :=
  (congrArg Thread.gdbId (same.thread r) :)

theorem SameRegistry.tcb (r : ThreadRef) : (t.thread r).tcb = (s.thread r).tcb :=
  (congrArg Thread.tcb (same.thread r) :)

theorem SameRegistry.live (r : ThreadRef) : t.live r = s.live r := by
  rw [State.live, State.live, same.enabled, same.threadEnabled]

end

theorem sameRegistry_of_eq {s t : State} (counter : t.currInferiorIdx = s.currInferiorIdx)
    (inferiors : t.inferiors = s.inferiors) : SameRegistry s t :=
  ⟨counter, fun pd => by rw [inferiors]⟩

theorem sameRegistry_setInferior {s : State} {pd : Fin maxPds} {i : Inferior}
    (core : i.core = (s.inferiors pd).core) : SameRegistry s (s.setInferior pd i) := by
  refine ⟨rfl, fun pd' => ?_⟩
  by_cases here : pd' = pd
  · subst here
    rw [setInferior_inferiors, Function.update_self, core]
  · rw [setInferior_inferiors, Function.update_of_ne here]

theorem setThread_core {i : Inferior} {slot : Fin maxThreads} {thread : Thread}
    (core : thread.core = (i.threads slot).core) : (i.setThread slot thread).core = i.core := by
  have threads : (fun j => (Function.update i.threads slot thread j).core) =
      fun j => (i.threads j).core := by
    funext j
    by_cases here : j = slot
    · subst here
      rw [Function.update_self, core]
    · rw [Function.update_of_ne here]
  simp only [Inferior.core, Inferior.setThread, threads]

theorem setAllWakeup_core (s : State) (wakeup : Bool) (pd : Fin maxPds) :
    ((setAllWakeup s wakeup).inferiors pd).core = (s.inferiors pd).core := by
  simp only [setAllWakeup]
  split
  · simp only [Inferior.core]
    congr 1
    funext slot
    split <;> rfl
  · rfl

instance : PacketFrame SameRegistry where
  refl _ := ⟨rfl, fun _ => rfl⟩
  trans _ _ _ first second :=
    ⟨second.counter.trans first.counter, fun pd => (second.inferiors pd).trans (first.inferiors pd)⟩
  output _ _ := sameRegistry_of_eq rfl rfl
  drawn _ _ := sameRegistry_of_eq rfl rfl
  call _ _ _ := sameRegistry_of_eq rfl rfl
  handled _ _ := sameRegistry_of_eq rfl rfl
  detached _ := sameRegistry_of_eq rfl rfl
  flags _ _ _ _ := sameRegistry_setInferior (setThread_core rfl)
  allWakeup s wakeup := ⟨rfl, setAllWakeup_core s wakeup⟩
  tables _ _ _ same := by
    obtain ⟨_, _, _, rfl⟩ := same
    exact sameRegistry_setInferior rfl

theorem packet_sameRegistry (input : List Byte) : Stays SameRegistry (gdbHandlePacket input) :=
  stays_gdbHandlePacket input
    (fun _ => stays_handleWriteRegs (fun _ _ _ => sameRegistry_of_eq rfl rfl) input)
    (fun _ => stays_handleSetInferior input fun _ _ => sameRegistry_of_eq rfl rfl)

/- Registration and exit. -/

theorem lookupInferiorFromId_some {s : State} {id : Word} {pd : Fin maxPds}
    (found : lookupInferiorFromId s id = some pd) :
    (s.inferiors pd).enabled = true ∧ (s.inferiors pd).id = id := by
  simpa using (firstSlot_some found).1

theorem lookupThreadFromId_some {i : Inferior} {id : Word} {slot : Fin maxThreads}
    (found : lookupThreadFromId i id = some slot) :
    (i.threads slot).enabled = true ∧ (i.threads slot).id = id := by
  simpa using (firstSlot_some found).1

/-- The tables with an inferior in the slot its counter stopped at. -/
def withInferior (s : State) (idx : Nat) (pd : Fin maxPds) (inferiorId vspace : Word) : State :=
  { s with currInferiorIdx := idx + 1 }.setInferior pd
    { Inferior.zero with
      enabled := true
      id := inferiorId
      gdbId := BitVec.ofNat 16 (idx + 1)
      vspace := vspace }

theorem gdbRegisterInferior_cases (s : State) (inferiorId vspace : Word) :
    after (gdbRegisterInferior inferiorId vspace) s = s ∨
    (∃ idx, ringScan (fun i => (s.inferiors i).enabled) maxPds s.currInferiorIdx = (idx, none) ∧
      after (gdbRegisterInferior inferiorId vspace) s = { s with currInferiorIdx := idx }) ∨
    (∃ idx pd,
      ringScan (fun i => (s.inferiors i).enabled) maxPds s.currInferiorIdx = (idx, some pd) ∧
      after (gdbRegisterInferior inferiorId vspace) s =
        withInferior s idx pd inferiorId vspace) := by
  unfold gdbRegisterInferior
  rw [after_bind_ok (EStateM.run_get s)]
  cases lookupInferiorFromId s inferiorId with
  | some pd =>
    left
    dsimp only
    split <;> rfl
  | none =>
    dsimp only
    split
    · exact Or.inl rfl
    · rcases scan : ringScan (fun i => (s.inferiors i).enabled) maxPds s.currInferiorIdx with
        ⟨idx, _ | pd⟩
      · exact Or.inr (Or.inl ⟨idx, rfl, rfl⟩)
      · exact Or.inr (Or.inr ⟨idx, pd, rfl, rfl⟩)

def withThread (s : State) (pd : Fin maxPds) (idx : Nat) (slot : Fin maxThreads)
    (threadId tcb : Word) : State :=
  s.setInferior pd ({ s.inferiors pd with currThreadIdx := idx + 1 }.setThread slot
    { enabled := true
      wakeup := false
      ssEnabled := false
      inferior := some pd
      id := threadId
      gdbId := BitVec.ofNat 16 (idx + 1)
      tcb := tcb })

def introduceThread (t : ThreadRef) : Stub DebuggerError := do
  (List.finRange numExclusiveBreakpoints).forM fun i => do
    let _ ← threadEnableNthHwBreakpoint t i
  (List.finRange numExclusiveWatchpoints).forM fun i => do
    let _ ← threadEnableNthHwWatchpoint t i
  announceThread t
  return .noError

theorem gdbRegisterThread_cases (s : State) (inferiorId threadId tcb : Word) :
    (after (gdbRegisterThread inferiorId threadId tcb) s = s ∧
      value (gdbRegisterThread inferiorId threadId tcb) s ≠ some .noError) ∨
    (∃ pd idx, lookupInferiorFromId s inferiorId = some pd ∧
      ringScan (fun j => ((s.inferiors pd).threads j).enabled) maxThreads
        (s.inferiors pd).currThreadIdx = (idx, none) ∧
      (gdbRegisterThread inferiorId threadId tcb).run s =
        .ok .insufficientResources
          (s.setInferior pd { s.inferiors pd with currThreadIdx := idx })) ∨
    (∃ pd idx slot, lookupInferiorFromId s inferiorId = some pd ∧
      ringScan (fun j => ((s.inferiors pd).threads j).enabled) maxThreads
        (s.inferiors pd).currThreadIdx = (idx, some slot) ∧
      (gdbRegisterThread inferiorId threadId tcb).run s =
        (introduceThread ⟨pd, slot⟩).run (withThread s pd idx slot threadId tcb)) := by
  unfold gdbRegisterThread
  rw [after_bind_ok (EStateM.run_get s), value_bind_ok (EStateM.run_get s),
    run_bind_ok (EStateM.run_get s)]
  cases lookup : lookupInferiorFromId s inferiorId with
  | none => exact Or.inl ⟨rfl, by simp [value]⟩
  | some pd =>
    dsimp only
    cases lookupThreadFromId (s.inferiors pd) threadId with
    | some slot =>
      left
      dsimp only
      split
      · exact ⟨rfl, by simp [value]⟩
      · exact ⟨rfl, by simp [value]⟩
    | none =>
      dsimp only
      split
      · exact Or.inl ⟨rfl, by simp [value, run_throw]⟩
      · rcases scan : ringScan (fun j => ((s.inferiors pd).threads j).enabled) maxThreads
          (s.inferiors pd).currThreadIdx with ⟨idx, _ | slot⟩
        · exact Or.inr (Or.inl ⟨pd, idx, rfl, scan, rfl⟩)
        · exact Or.inr (Or.inr ⟨pd, idx, slot, rfl, scan, rfl⟩)

def announceExit (t : ThreadRef) : Stub DebuggerError := do
  strlcpy 0 (str "w00;") bufsize
  let _ ← writeThreadId t (← outputLen)
  return .noError

theorem stays_announceExit {R : State → State → Prop} [Frame R] (t : ThreadRef) :
    Stays R (announceExit t) :=
  stays_bind (stays_strlcpy _ _ _) fun _ => stays_bind stays_outputLen fun _ =>
    stays_bind (stays_writeThreadId _ _) fun _ => stays_pure _

theorem gdbThreadExit_cases (s : State) (inferiorId threadId : Word) :
    (after (gdbThreadExit inferiorId threadId) s = s ∧
      ∀ pd slot, lookupInferiorFromId s inferiorId = some pd →
        lookupThreadFromId (s.inferiors pd) threadId ≠ some slot) ∨
    (∃ pd slot, lookupInferiorFromId s inferiorId = some pd ∧
      lookupThreadFromId (s.inferiors pd) threadId = some slot ∧
      (gdbThreadExit inferiorId threadId).run s = (announceExit ⟨pd, slot⟩).run
        (s.setThread ⟨pd, slot⟩ { s.thread ⟨pd, slot⟩ with enabled := false })) := by
  unfold gdbThreadExit
  rw [after_bind_ok (EStateM.run_get s), run_bind_ok (EStateM.run_get s)]
  cases lookup : lookupInferiorFromId s inferiorId with
  | none =>
    refine Or.inl ⟨rfl, ?_⟩
    rintro pd slot ⟨⟩
  | some pd =>
    dsimp only
    cases found : lookupThreadFromId (s.inferiors pd) threadId with
    | none =>
      refine Or.inl ⟨rfl, ?_⟩
      rintro pd slot ⟨⟩
      rw [found]
      simp
    | some slot => exact Or.inr ⟨pd, slot, rfl, found, rfl⟩

theorem frame_introduceThread {R : State → State → Prop} [Frame R] {t : ThreadRef}
    (arm : ∀ tcb bpNum setting, Stays R (tcbSetBreakpoint tcb bpNum setting))
    (target : ∀ s, s.targetThread = none → R s { s with targetThread := some t }) :
    Stays R (introduceThread t) :=
  stays_bind (stays_forM _ fun i => stays_bind (frame_threadEnableNthHwBreakpoint arm t i) fun _ =>
      stays_pure _) fun _ =>
    stays_bind (stays_forM _ fun i =>
      stays_bind (frame_threadEnableNthHwWatchpoint arm t i) fun _ =>
      stays_pure _) fun _ =>
    stays_bind (stays_announceThread target) fun _ => stays_pure _

theorem stays_introduceThread {R : State → State → Prop} [PacketFrame R] {t : ThreadRef}
    (target : ∀ s, s.targetThread = none → R s { s with targetThread := some t }) :
    Stays R (introduceThread t) := frame_introduceThread (fun _ _ _ => stays_call trivial) target

/- The invariant. -/

/-- A slot never used, or one that belongs to its inferior and whose gdb id is the slot's
    number up to the table size: ids grow past the size of the table. -/
def ThreadOk (s : State) (t : ThreadRef) : Prop :=
  (s.thread t).inferior = none ∧ (s.thread t).enabled = false ∧ (s.thread t).gdbId = 0 ∨
  (s.thread t).inferior = some t.pd ∧ (s.inferiors t.pd).enabled = true ∧
    (s.thread t).gdbId.toNat % maxThreads = (t.slot.val + 1) % maxThreads

structure RegistryOk (s : State) : Prop where
  inOrder : ∀ pd, (s.inferiors pd).enabled = true ↔ pd.val < s.currInferiorIdx
  inferiorId : ∀ pd, (s.inferiors pd).gdbId.toNat =
    if (s.inferiors pd).enabled = true then pd.val + 1 else 0
  threads : ∀ t, ThreadOk s t

theorem RegistryOk.owner {s : State} (ok : RegistryOk s) {t : ThreadRef}
    (enabled : (s.thread t).enabled = true) : (s.thread t).inferior = some t.pd := by
  rcases ok.threads t with ⟨_, off, _⟩ | ⟨owner, _⟩
  · simp [off] at enabled
  · exact owner

theorem RegistryOk.live {s : State} (ok : RegistryOk s) {t : ThreadRef}
    (enabled : (s.thread t).enabled = true) : s.live t = true := by
  rcases ok.threads t with ⟨_, off, _⟩ | ⟨_, inferior, _⟩
  · simp [off] at enabled
  · simp [State.live, inferior, enabled]

theorem registryOk_boot (output : Nat → Byte) (kernel : Kernel) :
    RegistryOk (.boot output kernel) := by
  refine ⟨?_, ?_, ?_⟩
  · intro pd
    simp [State.boot, Inferior.zero]
  · intro pd
    simp [State.boot, Inferior.zero]
  · intro t
    exact Or.inl ⟨rfl, rfl, rfl⟩

theorem registryOk_of_same {s t : State} (same : SameRegistry s t) (ok : RegistryOk s) :
    RegistryOk t := by
  refine ⟨?_, ?_, ?_⟩
  · intro pd
    rw [same.enabled, same.counter]
    exact ok.inOrder pd
  · intro pd
    rw [same.gdbId, same.enabled]
    exact ok.inferiorId pd
  · intro r
    unfold ThreadOk
    rw [same.owner, same.threadEnabled, same.threadGdbId, same.enabled]
    exact ok.threads r

theorem registryOk_withInferior {s : State} (ok : RegistryOk s) {idx : Nat} {pd : Fin maxPds}
    (scan : ringScan (fun i => (s.inferiors i).enabled) maxPds s.currInferiorIdx = (idx, some pd))
    (inferiorId vspace : Word) : RegistryOk (withInferior s idx pd inferiorId vspace) := by
  obtain ⟨slot, free, lower, upper, before⟩ := ringScan_some scan
  have counter : ¬ pd.val < s.currInferiorIdx := by
    rw [← ok.inOrder, free]
    decide
  have place : pd.val = idx % 64 := by rw [slot]; rfl
  have small := pd.isLt
  simp only [maxPds] at small upper
  have here : idx = pd.val := by omega
  -- the slots below the counter are in use and no other, so the scan stops at once
  have next : s.currInferiorIdx = idx := by
    by_contra ne
    have used := (ok.inOrder _).mp (before s.currInferiorIdx (by omega) (by omega))
    rw [Fin.val_ofNat] at used
    simp only [maxPds] at used
    omega
  have inferiors (pd' : Fin maxPds) (ne : pd' ≠ pd) :
      (withInferior s idx pd inferiorId vspace).inferiors pd' = s.inferiors pd' := by
    simp [withInferior, Function.update_of_ne ne]
  refine ⟨?_, ?_, ?_⟩
  · intro pd'
    by_cases ne : pd' = pd
    · subst ne
      simp [withInferior, State.setInferior, here]
    · rw [inferiors pd' ne, ok.inOrder, next]
      simp only [withInferior, State.setInferior]
      have := Fin.val_ne_of_ne ne
      omega
  · intro pd'
    by_cases ne : pd' = pd
    · subst ne
      simp only [withInferior, setInferior_inferiors, Function.update_self, if_true,
        BitVec.toNat_ofNat]
      omega
    · rw [inferiors pd' ne]
      exact ok.inferiorId pd'
  · intro t
    by_cases ne : t.pd = pd
    · left
      simp [State.thread, ne, withInferior, Inferior.zero, Thread.zero]
    · have old := ok.threads t
      unfold ThreadOk State.thread at old ⊢
      rw [inferiors t.pd ne]
      exact old

theorem registryOk_counter {s : State} (ok : RegistryOk s) {idx : Nat}
    (scan : ringScan (fun i => (s.inferiors i).enabled) maxPds s.currInferiorIdx = (idx, none)) :
    RegistryOk { s with currInferiorIdx := idx } := by
  refine ⟨?_, ok.inferiorId, ok.threads⟩
  intro pd
  have full := ringScan_full scan pd
  have last := (ringScan_none scan).1
  have := pd.isLt
  exact iff_of_true full (by dsimp only; omega)

theorem registryOk_setInferior {s : State} (ok : RegistryOk s) {pd : Fin maxPds} {i : Inferior}
    (enabled : i.enabled = (s.inferiors pd).enabled) (gdbId : i.gdbId = (s.inferiors pd).gdbId)
    (threads : ∀ slot, i.threads slot = (s.inferiors pd).threads slot ∨
      ThreadOk (s.setInferior pd i) ⟨pd, slot⟩) : RegistryOk (s.setInferior pd i) := by
  have same (pd' : Fin maxPds) : ((s.setInferior pd i).inferiors pd').enabled =
      (s.inferiors pd').enabled := by
    by_cases ne : pd' = pd
    · subst ne
      rw [setInferior_inferiors, Function.update_self, enabled]
    · rw [setInferior_inferiors, Function.update_of_ne ne]
  refine ⟨?_, ?_, ?_⟩
  · intro pd'
    rw [same]
    exact ok.inOrder pd'
  · intro pd'
    rw [same, ← ok.inferiorId]
    by_cases ne : pd' = pd
    · subst ne
      rw [setInferior_inferiors, Function.update_self, gdbId]
    · rw [setInferior_inferiors, Function.update_of_ne ne]
  · rintro ⟨pd', slot⟩
    have old := ok.threads ⟨pd', slot⟩
    by_cases ne : pd' = pd
    · subst ne
      rcases threads slot with unchanged | new
      · unfold ThreadOk at old ⊢
        rw [same]
        simpa only [State.thread, setInferior_inferiors, Function.update_self, unchanged] using old
      · exact new
    · unfold ThreadOk at old ⊢
      rw [same]
      simpa only [State.thread, setInferior_inferiors, Function.update_of_ne ne] using old

theorem registryOk_withThread {s : State} (ok : RegistryOk s) {pd : Fin maxPds} {idx : Nat}
    {slot : Fin maxThreads} (enabled : (s.inferiors pd).enabled = true)
    (place : slot = Fin.ofNat maxThreads idx) (threadId tcb : Word) :
    RegistryOk (withThread s pd idx slot threadId tcb) := by
  refine registryOk_setInferior ok rfl rfl fun slot' => ?_
  by_cases ne : slot' = slot
  · subst ne
    right
    refine Or.inr ⟨by simp [State.thread, Inferior.setThread], ?_, ?_⟩
    · simpa [Inferior.setThread] using enabled
    · simp only [State.thread, setInferior_inferiors, Function.update_self, Inferior.setThread,
        BitVec.toNat_ofNat, place, Fin.val_ofNat]
      change (idx + 1) % 2 ^ 16 % 256 = (idx % 256 + 1) % 256
      omega
  · left
    simp [Inferior.setThread, Function.update_of_ne ne]

theorem registryOk_disabled {s : State} (ok : RegistryOk s) {t : ThreadRef}
    (enabled : (s.thread t).enabled = true) :
    RegistryOk (s.setThread t { s.thread t with enabled := false }) := by
  refine registryOk_setInferior ok rfl rfl fun slot => ?_
  by_cases ne : slot = t.slot
  · subst ne
    right
    rcases ok.threads t with ⟨_, off, _⟩ | ⟨owner, inferior, place⟩
    · simp [off] at enabled
    · refine Or.inr ⟨?_, ?_, ?_⟩
      · simpa [State.thread, Inferior.setThread] using owner
      · simpa [Inferior.setThread] using inferior
      · simpa [State.thread, Inferior.setThread] using place
  · left
    simp [Inferior.setThread, Function.update_of_ne ne]

theorem registration_keeps_ok {s : State} (ok : RegistryOk s) (inferiorId vspace : Word) :
    RegistryOk (after (gdbRegisterInferior inferiorId vspace) s) := by
  rcases gdbRegisterInferior_cases s inferiorId vspace with same | ⟨idx, scan, full⟩ |
    ⟨idx, pd, scan, placed⟩
  · rwa [same]
  · rw [full]
    exact registryOk_counter ok scan
  · rw [placed]
    exact registryOk_withInferior ok scan inferiorId vspace

theorem threadRegistration_keeps_ok {s : State} (ok : RegistryOk s)
    (inferiorId threadId tcb : Word) :
    RegistryOk (after (gdbRegisterThread inferiorId threadId tcb) s) := by
  rcases gdbRegisterThread_cases s inferiorId threadId tcb with ⟨same, _⟩ | ⟨pd, idx, _, _, full⟩ |
    ⟨pd, idx, slot, lookup, scan, run⟩
  · rwa [same]
  · rw [after_ok full]
    exact registryOk_setInferior ok rfl rfl fun slot => Or.inl rfl
  · have placed := registryOk_withThread ok (lookupInferiorFromId_some lookup).1
        (ringScan_some scan).1
      threadId tcb
    have rest : Stays SameRegistry (introduceThread ⟨pd, slot⟩) :=
      stays_introduceThread fun _ _ => sameRegistry_of_eq rfl rfl
    rw [show after (gdbRegisterThread inferiorId threadId tcb) s =
      after (introduceThread ⟨pd, slot⟩)
      (withThread s pd idx slot threadId tcb) by simp only [after, run]]
    exact registryOk_of_same (rest _) placed

theorem exit_keeps_ok {s : State} (ok : RegistryOk s) (inferiorId threadId : Word) :
    RegistryOk (after (gdbThreadExit inferiorId threadId) s) := by
  rcases gdbThreadExit_cases s inferiorId threadId with ⟨same, _⟩ | ⟨pd, slot, _, found, run⟩
  · rwa [same]
  · have disabled := registryOk_disabled ok (t := ⟨pd, slot⟩) (lookupThreadFromId_some found).1
    have := registryOk_of_same (stays_announceExit ⟨pd, slot⟩ _) disabled
    simpa only [after, run] using this

theorem stays_gdbHandleFault {R : State → State → Prop} [Frame R] (inferiorId threadId : Word)
    (message : FaultMessage) (s : State)
    (target : ∀ pd slot, lookupInferiorFromId s inferiorId = some pd →
      lookupThreadFromId (s.inferiors pd) threadId = some slot →
      ∀ u, R u { u with targetThread := some ⟨pd, slot⟩ }) :
    R s (after (gdbHandleFault inferiorId threadId message) s) := by
  unfold gdbHandleFault
  rw [after_bind_ok (EStateM.run_get s)]
  cases lookup : lookupInferiorFromId s inferiorId with
  | none => exact Std.Refl.refl s
  | some pd =>
    dsimp only
    cases found : lookupThreadFromId (s.inferiors pd) threadId with
    | none => exact Std.Refl.refl s
    | some slot =>
      have here := target pd slot lookup found
      cases message with
      | debugException reason triggerAddress bpNum =>
        exact stays_bind (stays_handleDebugException here reason triggerAddress bpNum)
          (fun _ => stays_pure _) s
      | other => exact stays_bind (stays_handleFault here) (fun _ => stays_pure _) s

/-- Every call keeps the invariant, whether it returns or stops at a fault. -/
theorem event_keeps_ok {s : State} (ok : RegistryOk s) (e : Event) :
    RegistryOk (after e.run s) := by
  cases e with
  | registerInferior inferiorId vspace =>
    rw [Event.run, after_ignore]
    exact registration_keeps_ok ok inferiorId vspace
  | registerThread inferiorId threadId tcb =>
    rw [Event.run, after_ignore]
    exact threadRegistration_keeps_ok ok inferiorId threadId tcb
  | threadExit inferiorId threadId =>
    rw [Event.run, after_ignore]
    exact exit_keeps_ok ok inferiorId threadId
  | fault inferiorId threadId message =>
    rw [Event.run, after_ignore]
    exact registryOk_of_same (stays_gdbHandleFault inferiorId threadId message s
      fun _ _ _ _ _ => sameRegistry_of_eq rfl rfl) ok
  | packet input =>
    rw [Event.run, after_ignore]
    exact registryOk_of_same (packet_sameRegistry input s) ok
  | suspend =>
    exact registryOk_of_same (stays_suspendSystem (R := SameRegistry)
      (fun _ _ => sameRegistry_of_eq rfl rfl) s) ok
  | resume =>
    exact registryOk_of_same (stays_resumeSystem (R := SameRegistry)
      (fun _ _ => sameRegistry_of_eq rfl rfl) s) ok

theorem reachable_ok {s : State} (reachable : Reachable s) : RegistryOk s := by
  induction reachable with
  | boot output kernel => exact registryOk_boot output kernel
  | step e earlier returns ih =>
    have := event_keeps_ok ih e
    rwa [after_ok returns] at this
  | @outside s kernel earlier ih =>
    have same : SameRegistry s (s.withKernel kernel) := sameRegistry_of_eq rfl rfl
    exact registryOk_of_same same ih

/- Live threads. -/

/-- A registration brings no thread to life but the one in the slot its scan stops at. -/
theorem registerThread_live {s : State} {inferiorId threadId tcb : Word} {pd : Fin maxPds}
    {slot : Fin maxThreads} (found : lookupInferiorFromId s inferiorId = some pd)
    (scan : (ringScan (fun j => ((s.inferiors pd).threads j).enabled) maxThreads
      (s.inferiors pd).currThreadIdx).2 = some slot) {t : ThreadRef}
    (live : (after (gdbRegisterThread inferiorId threadId tcb) s).live t = true) :
    t = ⟨pd, slot⟩ ∨ s.live t = true := by
  rcases gdbRegisterThread_cases s inferiorId threadId tcb with
    ⟨kept, _⟩ | ⟨pd', idx', found', scan', _⟩ | ⟨pd', idx', slot', found', scan', run⟩
  · rw [kept] at live
    exact Or.inr live
  · cases found.symm.trans found'
    rw [scan'] at scan
    cases scan
  · cases found.symm.trans found'
    rw [scan'] at scan
    cases scan
    have rest : Stays SameRegistry (introduceThread ⟨pd, slot⟩) :=
      stays_introduceThread fun _ _ => sameRegistry_of_eq rfl rfl
    have same := rest (withThread s pd idx' slot threadId tcb)
    rw [show after (gdbRegisterThread inferiorId threadId tcb) s =
      after (introduceThread ⟨pd, slot⟩)
      (withThread s pd idx' slot threadId tcb) by simp only [after, run], same.live] at live
    obtain ⟨pd', slot'⟩ := t
    by_cases here : pd' = pd
    · subst here
      by_cases own : slot' = slot
      · exact Or.inl (by rw [own])
      · refine Or.inr ?_
        simpa [State.live, State.thread, withThread, Inferior.setThread,
          Function.update_of_ne own] using live
    · refine Or.inr ?_
      simpa [State.live, State.thread, withThread, Function.update_of_ne here] using live

theorem registerInferior_live {s : State} {inferiorId vspace : Word} {t : ThreadRef}
    (live : (after (gdbRegisterInferior inferiorId vspace) s).live t = true) : s.live t = true := by
  rcases gdbRegisterInferior_cases s inferiorId vspace with kept | ⟨_, _, kept⟩ |
    ⟨_, pd, _, entered⟩
  · rwa [kept] at live
  · rwa [kept] at live
  · rw [entered] at live
    by_cases here : t.pd = pd
    · simp [State.live, State.thread, withInferior, here, Inferior.zero, Thread.zero] at live
    · simpa [State.live, State.thread, withInferior, Function.update_of_ne here] using live

omit [Machine] in
theorem solo_live : letI := obligingBoard
    ∀ t, soloState.live t = true → t = ⟨0, 0⟩ := by
  let _ := obligingBoard
  intro t live
  have found : lookupInferiorFromId (after (gdbRegisterInferior 1 7) blankState) 1 = some 0 := by
    decide +kernel
  refine (registerThread_live found (by decide +kernel) live).resolve_right fun before => ?_
  cases registerInferior_live before

omit [Machine] in
theorem duo_live : letI := obligingBoard
    ∀ t, duoState.live t = true → t = ⟨1, 0⟩ ∨ t = ⟨0, 0⟩ := by
  let _ := obligingBoard
  intro t live
  have found : lookupInferiorFromId (after (gdbRegisterInferior 2 8) soloState) 2 = some 1 := by
    decide +kernel
  rw [duoState, Event.run, Event.run, after_ignore, after_ignore] at live
  exact (registerThread_live found (by decide +kernel) live).imp_right fun before =>
    solo_live t (registerInferior_live before)

end Libgdb
