import Libgdb.Crowds
import Libgdb.Library.GuardedRuns

/-!
Registry calls that report an error. All but one leave the state alone: the scan for a free slot
moves the persistent counter, so a call on a full table shows in the ids given later.
-/
namespace Libgdb
open SlotTables GuardedRuns CheckedPrograms
variable [Machine]

inductive RegistryCall where
  | registerInferior (inferiorId vspace : ByteMemory.Word)
  | registerThread (inferiorId threadId tcb : ByteMemory.Word)
  | threadExit (inferiorId threadId : ByteMemory.Word)

def RegistryCall.run : RegistryCall → Stub DebuggerError
  | .registerInferior inferiorId vspace => gdbRegisterInferior inferiorId vspace
  | .registerThread inferiorId threadId tcb => gdbRegisterThread inferiorId threadId tcb
  | .threadExit inferiorId threadId => gdbThreadExit inferiorId threadId

def FailureUnchanged (s : State) (call : RegistryCall) : Prop :=
  ∀ e t, call.run.run s = .ok e t → e ≠ .noError → t = s

/-- A new id is to be registered, no slot is free, and the counter has room for the scan. -/
def TableFull (s : State) : RegistryCall → Prop
  | .registerInferior inferiorId _ => lookupInferiorFromId s inferiorId = none ∧
      s.currInferiorIdx + maxPds ≤ intMax ∧ ∀ pd, (s.inferiors pd).enabled = true
  | .registerThread inferiorId threadId _ => ∃ pd, lookupInferiorFromId s inferiorId = some pd ∧
      lookupThreadFromId (s.inferiors pd) threadId = none ∧
      (s.inferiors pd).currThreadIdx + maxThreads ≤ intMax ∧
      ∀ slot, ((s.inferiors pd).threads slot).enabled = true
  | .threadExit _ _ => False

/- Runs of calls. -/

def registryStep (s : State) (call : RegistryCall) : State := after call.run s

def givenId (s : State) (call : RegistryCall) : Option (BitVec 16) :=
  if value call.run s = some .noError then
    match call with
    | .registerInferior inferiorId _ =>
      (lookupInferiorFromId (registryStep s call) inferiorId).map fun pd =>
        ((registryStep s call).inferiors pd).gdbId
    | .registerThread inferiorId threadId _ => do
      let pd ← lookupInferiorFromId (registryStep s call) inferiorId
      let slot ← lookupThreadFromId ((registryStep s call).inferiors pd) threadId
      return (((registryStep s call).inferiors pd).threads slot).gdbId
    | .threadExit _ _ => none
  else none

def givenIds : List RegistryCall → State → List (BitVec 16)
  | [], _ => []
  | call :: calls, s => (givenId s call).toList ++ givenIds calls (registryStep s call)

def callFails (s : State) (call : RegistryCall) : Bool :=
  match value call.run s with
  | some e => e != .noError
  | none => false

def withoutFailed : List RegistryCall → State → List RegistryCall
  | [], _ => []
  | call :: calls, s =>
    if callFails s call then withoutFailed calls (registryStep s call)
    else call :: withoutFailed calls (registryStep s call)

/- One call. -/

theorem introduceThread_noError (t : ThreadRef) :
    Yields (· = DebuggerError.noError) (introduceThread t) :=
  yields_bind (yields_true _) fun _ _ => yields_bind (yields_true _) fun _ _ =>
    yields_bind (yields_true _) fun _ _ => yields_pure rfl

theorem announceExit_noError (t : ThreadRef) :
    Yields (· = DebuggerError.noError) (announceExit t) :=
  yields_bind (yields_true _) fun _ _ => yields_bind (yields_true _) fun _ _ =>
    yields_bind (yields_true _) fun _ _ => yields_pure rfl

theorem registerInferior_failure_iff (s : State) (inferiorId vspace : ByteMemory.Word) :
    FailureUnchanged s (.registerInferior inferiorId vspace) ↔ ¬ TableFull s
    (.registerInferior inferiorId vspace) := by
  unfold FailureUnchanged RegistryCall.run gdbRegisterInferior
  simp only [run_bind_ok (EStateM.run_get s)]
  cases lookup : lookupInferiorFromId s inferiorId with
  | some pd =>
    refine iff_of_true (fun e t run _ => ?_) fun full => by
      rw [TableFull, lookup] at full; cases full.1
    dsimp only at run
    split at run <;> cases run <;> rfl
  | none =>
    by_cases overflow : intMax < s.currInferiorIdx + maxPds
    · refine iff_of_true (fun e t run _ => ?_) fun full => by have := full.2.1; omega
      dsimp only at run
      rw [if_pos overflow] at run
      cases run
    · dsimp only
      rw [if_neg overflow]
      by_cases all : ∀ pd, (s.inferiors pd).enabled = true
      · refine iff_of_false (fun unchanged => ?_) fun room => room ⟨lookup, by omega, all⟩
        have moved := unchanged .insufficientResources
            { s with currInferiorIdx := s.currInferiorIdx + maxPds }
          (by rw [ringScan_of_full all]; rfl) (by decide)
        have counters := congrArg State.currInferiorIdx moved
        simp only [maxPds] at counters
        omega
      · refine iff_of_true (fun e t run failed => ?_) fun full => all full.2.2
        rcases scan : ringScan (fun i => (s.inferiors i).enabled) maxPds
          s.currInferiorIdx with ⟨idx, _ | pd⟩
        · exact absurd (ringScan_full scan) all
        · rw [scan] at run
          cases run
          exact absurd rfl failed

theorem registerThread_failure_iff (s : State) (inferiorId threadId tcb : ByteMemory.Word) :
    FailureUnchanged s (.registerThread inferiorId threadId tcb) ↔
      ¬ TableFull s (.registerThread inferiorId threadId tcb) := by
  unfold FailureUnchanged RegistryCall.run gdbRegisterThread
  simp only [run_bind_ok (EStateM.run_get s)]
  cases lookup : lookupInferiorFromId s inferiorId with
  | none =>
    refine iff_of_true (fun e t run _ => by cases run; rfl) ?_
    rintro ⟨pd, found, _⟩
    cases lookup.symm.trans found
  | some pd =>
    have only {pd' : Fin maxPds} (found : lookupInferiorFromId s inferiorId = some pd') :
        pd' = pd :=
      Option.some_inj.mp (found.symm.trans lookup)
    cases lookup' : lookupThreadFromId (s.inferiors pd) threadId with
    | some slot =>
      refine iff_of_true (fun e t run _ => ?_) ?_
      · dsimp only at run
        rw [lookup'] at run
        dsimp only at run
        split at run <;> cases run <;> rfl
      · rintro ⟨pd', found, fresh, _⟩
        rw [only found, lookup'] at fresh
        cases fresh
    | none =>
      dsimp only
      rw [lookup']
      dsimp only
      by_cases overflow : intMax < (s.inferiors pd).currThreadIdx + maxThreads
      · rw [if_pos overflow]
        refine iff_of_true (fun e t run _ => by cases run) ?_
        rintro ⟨pd', found, _, room, _⟩
        rw [only found] at room
        omega
      · rw [if_neg overflow]
        by_cases all : ∀ slot, ((s.inferiors pd).threads slot).enabled = true
        · refine iff_of_false (fun unchanged => ?_) fun room =>
            room ⟨pd, lookup, lookup', by omega, all⟩
          have moved := unchanged .insufficientResources (s.setInferior pd
            { s.inferiors pd with currThreadIdx := (s.inferiors pd).currThreadIdx + maxThreads })
            (by rw [ringScan_of_full all]; rfl) (by decide)
          have counters := congrArg (fun u : State => (u.inferiors pd).currThreadIdx) moved
          simp only [setInferior_inferiors, Function.update_self, maxThreads] at counters
          omega
        · refine iff_of_true (fun e t run failed => ?_) ?_
          · rcases scan : ringScan (fun j => ((s.inferiors pd).threads j).enabled) maxThreads
              (s.inferiors pd).currThreadIdx with ⟨idx, _ | slot⟩
            · exact absurd (ringScan_full scan) all
            · rw [scan] at run
              obtain ⟨_, u, _, introduced⟩ := ok_bind_run run
              exact absurd (introduceThread_noError ⟨pd, slot⟩ u e t introduced) failed
          · rintro ⟨pd', found, _, _, full⟩
            rw [only found] at full
            exact all full

theorem threadExit_failure (s : State) (inferiorId threadId : ByteMemory.Word) :
    FailureUnchanged s (.threadExit inferiorId threadId) := by
  unfold FailureUnchanged RegistryCall.run gdbThreadExit
  simp only [run_bind_ok (EStateM.run_get s)]
  intro e t run failed
  cases lookup : lookupInferiorFromId s inferiorId with
  | none =>
    rw [lookup] at run
    cases run
    rfl
  | some pd =>
    rw [lookup] at run
    dsimp only at run
    cases lookup' : lookupThreadFromId (s.inferiors pd) threadId with
    | none =>
      rw [lookup'] at run
      cases run
      rfl
    | some slot =>
      rw [lookup'] at run
      obtain ⟨_, u, _, announced⟩ := ok_bind_run run
      exact absurd (announceExit_noError ⟨pd, slot⟩ u e t announced) failed

theorem failure_unchanged_iff (s : State) (call : RegistryCall) :
    FailureUnchanged s call ↔ ¬ TableFull s call := by
  cases call with
  | registerInferior inferiorId vspace => exact registerInferior_failure_iff s inferiorId vspace
  | registerThread inferiorId threadId tcb =>
    exact registerThread_failure_iff s inferiorId threadId tcb
  | threadExit inferiorId threadId =>
    exact iff_of_true (threadExit_failure s inferiorId threadId) id

/- Runs. -/

theorem failed_step {s : State} {call : RegistryCall} (unchanged : FailureUnchanged s call)
    (fails : callFails s call = true) : registryStep s call = s ∧ givenId s call = none := by
  unfold callFails at fails
  cases returned : value call.run s with
  | none =>
    rw [returned] at fails
    cases fails
  | some e =>
    rw [returned] at fails
    have failed : e ≠ .noError := by simpa using fails
    refine ⟨unchanged e _ (run_of_some returned) failed, ?_⟩
    unfold givenId
    rw [returned, if_neg (by simpa using failed)]

theorem failed_calls_drop {calls : List RegistryCall} {s : State}
    (room : Guarded registryStep (fun s call => ¬ TableFull s call) calls s) :
    givenIds calls s = givenIds (withoutFailed calls s) s := by
  induction calls generalizing s with
  | nil => rfl
  | cons call calls ih =>
    have unchanged := (failure_unchanged_iff s call).mpr room.1
    rw [withoutFailed, givenIds, ih room.2]
    cases fails : callFails s call with
    | true =>
      obtain ⟨same, none⟩ := failed_step unchanged fails
      rw [same, none, if_pos rfl]
      rfl
    | false =>
      rw [if_neg Bool.false_ne_true]
      rfl

/-- A call that fails changes nothing exactly when it does not meet a full table, and then the
    ids given by later registrations do not depend on it. -/
theorem failed_call_unchanged_iff :
    (∀ s call, FailureUnchanged s call ↔ ¬ TableFull s call) ∧
    ∀ calls s, Guarded registryStep (fun s call => ¬ TableFull s call) calls s →
      givenIds calls s = givenIds (withoutFailed calls s) s :=
  ⟨failure_unchanged_iff, fun _ _ room => failed_calls_drop room⟩

def lateThread : List RegistryCall := [.threadExit 9 9, .registerThread 1 2 6]

omit [Machine] in
theorem late_thread_id : letI := obligingBoard
    givenIds lateThread soloState = givenIds (withoutFailed lateThread soloState) soloState := by
  let _ := obligingBoard
  refine failed_call_unchanged_iff.2 lateThread soloState ⟨id, ?_, trivial⟩
  rintro ⟨pd, found, _, _, full⟩
  have known : lookupInferiorFromId (registryStep soloState (.threadExit 9 9)) 1 = some 0 := by
    decide +kernel
  have free : (((registryStep soloState (.threadExit 9 9)).inferiors 0).threads 1).enabled =
      false := by decide +kernel
  cases known.symm.trans found
  rw [full 1] at free
  cases free

omit [Machine] in
/-- An inferior whose thread table is full: a registration that fails moves its counter. -/
theorem full_table_counts : letI := obligingBoard
    ¬ ∀ s, Reachable s → ∀ call, FailureUnchanged s call := by
  let _ := obligingBoard
  intro all
  obtain ⟨s, registered, crowd⟩ := crowd_registered (fun _ => 0) blankKernel 1 (by decide)
    (fun pd => if pd = 0 then maxThreads else 0) (by decide) (by decide)
  have found : lookupInferiorFromId s 0 = some 0 := crowd_lookup crowd 0
  have core := crowd.inferiors 0
  have thread (slot : Fin maxThreads) : (s.thread ⟨0, slot⟩).core = crowdThread 0 slot :=
    crowd_thread crowd (t := ⟨0, slot⟩) Nat.zero_lt_one slot.isLt
  have enabled (slot : Fin maxThreads) : ((s.inferiors 0).threads slot).enabled = true :=
    congrArg Thread.enabled (thread slot)
  have fresh : lookupThreadFromId (s.inferiors 0) 999 = none := by
    refine firstSlot_of_none fun slot => ?_
    have id : ((s.inferiors 0).threads slot).id = BitVec.ofNat 64 slot :=
      congrArg Thread.id (thread slot)
    have small := slot.isLt
    rw [enabled, id, Bool.true_and, beq_eq_false_iff_ne]
    simp only [maxThreads] at small
    bv_omega
  have counter : (s.inferiors 0).currThreadIdx = maxThreads := congrArg Inferior.currThreadIdx core
  exact (registerThread_failure_iff s 0 999 5).mp
    (all s registered.reachable (.registerThread 0 999 5))
    ⟨0, found, fresh, by rw [counter]; decide, enabled⟩

end Libgdb
