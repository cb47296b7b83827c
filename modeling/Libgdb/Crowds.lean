import Libgdb.EventTexts

/-!
Registries of every shape are reachable: any number of inferiors up to the table size, with
any number of threads each up to theirs. Registration of a new id into a free slot returns.
-/
namespace Libgdb
open ByteMemory SlotTables CheckedPrograms
variable [Machine]

/- Registration returns. -/

def TargetOwned (s : State) : Prop :=
  ∀ target, s.targetThread = some target → ∃ pd, (s.thread target).inferior = some pd

theorem armed_run {s : State} {t : ThreadRef} {pd : Fin maxPds}
    (owner : (s.thread t).inferior = some pd) (n : Fin numExclusiveBreakpoints) :
    ∃ k, (do let _ ← threadEnableNthHwBreakpoint t n : Stub Unit).run s = .ok ()
    (s.withKernel k) := by
  unfold threadEnableNthHwBreakpoint
  rw [bind_assoc, run_bind_ok (EStateM.run_get s), bind_assoc, run_bind_ok (deref_run owner s)]
  by_cases zero : ((s.inferiors pd).hardwareBreakpoints n).addr = 0
  · rw [if_pos zero]
    exact ⟨s.kernel, rfl⟩
  · rw [if_neg zero]
    exact ⟨_, rfl⟩

theorem watched_run {s : State} {t : ThreadRef} {pd : Fin maxPds}
    (owner : (s.thread t).inferior = some pd) (n : Fin numExclusiveWatchpoints) :
    ∃ k, (do let _ ← threadEnableNthHwWatchpoint t n : Stub Unit).run s = .ok ()
    (s.withKernel k) := by
  unfold threadEnableNthHwWatchpoint
  rw [bind_assoc, run_bind_ok (EStateM.run_get s), bind_assoc, run_bind_ok (deref_run owner s)]
  by_cases zero : ((s.inferiors pd).hardwareWatchpoints n).addr = 0
  · rw [if_pos zero]
    exact ⟨s.kernel, rfl⟩
  · rw [if_neg zero]
    exact ⟨_, rfl⟩

theorem kernelLoop_run {α : Type} {f : α → Stub Unit} {s : State}
    (round : ∀ a k, ∃ k', (f a).run (s.withKernel k) = .ok () ((s.withKernel k).withKernel k'))
    (as : List α) (k : Kernel) :
    ∃ k', (as.forM f).run (s.withKernel k) = .ok () (s.withKernel k') := by
  obtain ⟨_, run, k', rfl⟩ := forM_returns (P := fun u => ∃ k, u = s.withKernel k)
    (by
      rintro a _ ⟨k, rfl⟩
      obtain ⟨k', run⟩ := round a k
      exact ⟨_, run, k', rfl⟩) as (s.withKernel k) ⟨k, rfl⟩
  exact ⟨k', run⟩

theorem introduceThread_run {s : State} {t : ThreadRef} {pd : Fin maxPds}
    (owner : (s.thread t).inferior = some pd) :
    ∃ k, (introduceThread t).run s = (do
      announceThread t
      return DebuggerError.noError).run (s.withKernel k) := by
  obtain ⟨k, run⟩ := kernelLoop_run (s := s) (fun n k => armed_run (s := s.withKernel k) owner n)
    (List.finRange numExclusiveBreakpoints) s.kernel
  obtain ⟨k', run'⟩ := kernelLoop_run (s := s)
      (fun n k => watched_run (s := s.withKernel k) owner n)
    (List.finRange numExclusiveWatchpoints) k
  refine ⟨k', ?_⟩
  unfold introduceThread
  rw [show s.withKernel s.kernel = s from rfl] at run
  rw [run_bind_ok run, run_bind_ok run']

theorem introduceThread_first {s : State} {t : ThreadRef} {pd : Fin maxPds}
    (owner : (s.thread t).inferior = some pd) (none : s.targetThread = none) :
    ∃ k, (introduceThread t).run s = .ok .noError
    { s.withKernel k with targetThread := some t } := by
  obtain ⟨k, run⟩ := introduceThread_run owner
  refine ⟨k, run.trans ?_⟩
  unfold announceThread
  rw [bind_assoc, run_bind_ok (EStateM.run_get _), withKernel_targetThread, none]
  rfl

theorem introduceThread_text {s : State} {t target : ThreadRef} {pd targetPd : Fin maxPds}
    (owner : (s.thread t).inferior = some pd) (known : s.targetThread = some target)
    (targetOwner : (s.thread target).inferior = some targetPd) :
    ∃ k, (introduceThread t).run s =
      .ok .noError ((s.withKernel k).lay 0 (cloneText s t target pd targetPd)) := by
  obtain ⟨k, run⟩ := introduceThread_run owner
  refine ⟨k, run.trans ?_⟩
  rw [run_bind_ok (announceThread_run (s := s.withKernel k) known owner targetOwner)]
  rfl

theorem introduceThread_returns {s : State} {t : ThreadRef} {pd : Fin maxPds}
    (owner : (s.thread t).inferior = some pd) (owned : TargetOwned s) :
    ∃ u, (introduceThread t).run s = .ok .noError u ∧ u.inferiors = s.inferiors ∧
      u.currInferiorIdx = s.currInferiorIdx ∧ u.targetThread = some (s.targetThread.getD t) ∧
      TargetOwned u := by
  cases known : s.targetThread with
  | none =>
    obtain ⟨k, run⟩ := introduceThread_first owner known
    refine ⟨_, run, rfl, rfl, rfl, ?_⟩
    rintro target ⟨⟩
    exact ⟨pd, owner⟩
  | some target =>
    obtain ⟨targetPd, targetOwner⟩ := owned target known
    obtain ⟨k, run⟩ := introduceThread_text owner known targetOwner
    refine ⟨_, run, rfl, rfl, known, ?_⟩
    intro target' known'
    rw [lay_targetThread, withKernel_targetThread, known] at known'
    cases known'
    exact ⟨targetPd, targetOwner⟩

/- Registries by shape. -/

omit [Machine] in
def crowdThread (pd : Fin maxPds) (slot : Fin maxThreads) : Thread where
  enabled := true
  wakeup := false
  ssEnabled := false
  inferior := some pd
  id := BitVec.ofNat 64 slot
  gdbId := BitVec.ofNat 16 (slot + 1)
  tcb := 5

def crowdInferior (pd : Fin maxPds) (n : Nat) : Inferior :=
  { Inferior.zero with
    enabled := true
    id := BitVec.ofNat 64 pd
    gdbId := BitVec.ofNat 16 (pd + 1)
    currThreadIdx := n
    threads := fun slot => if slot.val < n then crowdThread pd slot else .zero }

/-- The first `k` inferiors are registered, each with its number of threads. -/
structure Crowd (k : Nat) (sizes : Fin maxPds → Nat) (s : State) : Prop where
  counter : s.currInferiorIdx = k
  inferiors : ∀ pd, (s.inferiors pd).core =
    if pd.val < k then crowdInferior pd (sizes pd) else .zero
  owned : TargetOwned s

theorem Crowd.enabled {k : Nat} {sizes : Fin maxPds → Nat} {s : State} (crowd : Crowd k sizes s)
    (pd : Fin maxPds) : (s.inferiors pd).enabled = decide (pd.val < k) := by
  have core : (s.inferiors pd).enabled = (s.inferiors pd).core.enabled := rfl
  rw [core, crowd.inferiors]
  by_cases lt : pd.val < k
  · simp [lt, crowdInferior]
  · simp [lt, Inferior.zero]

theorem Crowd.id {k : Nat} {sizes : Fin maxPds → Nat} {s : State} (crowd : Crowd k sizes s)
    {pd : Fin maxPds} (lt : pd.val < k) : (s.inferiors pd).id = BitVec.ofNat 64 pd := by
  have core : (s.inferiors pd).id = (s.inferiors pd).core.id := rfl
  rw [core, crowd.inferiors, if_pos lt]
  rfl

theorem crowd_lookup {k : Nat} {sizes : Fin maxPds → Nat} {s : State} (crowd : Crowd k sizes s)
    (pd : Fin maxPds) :
    lookupInferiorFromId s (BitVec.ofNat 64 pd) = if pd.val < k then some pd else none := by
  have only (pd' : Fin maxPds) (found : ((s.inferiors pd').enabled &&
      (s.inferiors pd').id == BitVec.ofNat 64 pd) = true) : pd'.val < k ∧ pd' = pd := by
    rw [crowd.enabled, Bool.and_eq_true, decide_eq_true_eq, beq_iff_eq] at found
    obtain ⟨lt, id⟩ := found
    rw [crowd.id lt] at id
    have small := pd.isLt
    have small' := pd'.isLt
    simp only [maxPds] at small small'
    refine ⟨lt, Fin.ext ?_⟩
    bv_omega
  by_cases lt : pd.val < k
  · rw [if_pos lt]
    refine firstSlot_unique ?_ fun pd' found => (only pd' found).2
    simp [crowd.enabled, crowd.id lt, lt]
  · rw [if_neg lt]
    refine firstSlot_of_none fun pd' => ?_
    by_contra found
    obtain ⟨lt', rfl⟩ := only pd' (by simpa using found)
    exact lt lt'

theorem crowd_registerInferior {k : Nat} {s : State} (crowd : Crowd k (fun _ => 0) s)
    (room : k < maxPds) :
    ∃ u, (gdbRegisterInferior (BitVec.ofNat 64 k) 0).run s = .ok .noError u ∧
      Crowd (k + 1) (fun _ => 0) u := by
  have lookup := crowd_lookup crowd ⟨k, room⟩
  rw [if_neg (lt_irrefl k)] at lookup
  have place : Fin.ofNat maxPds k = ⟨k, room⟩ := Fin.ext (Nat.mod_eq_of_lt room)
  have scan : ringScan (fun i => (s.inferiors i).enabled) maxPds s.currInferiorIdx =
      (k, some ⟨k, room⟩) := by
    rw [crowd.counter, ← place]
    refine ringScan_free (by decide) ?_
    rw [place, crowd.enabled]
    simp
  refine ⟨withInferior s k ⟨k, room⟩ (BitVec.ofNat 64 k) 0, ?_, rfl, ?_, ?_⟩
  · unfold gdbRegisterInferior
    rw [run_bind_ok (EStateM.run_get s), lookup]
    dsimp only
    rw [if_neg (by rw [crowd.counter]; simp only [intMax, maxPds] at room ⊢; omega), scan]
    rfl
  · intro pd
    by_cases here : pd = ⟨k, room⟩
    · subst here
      simp [withInferior, Inferior.core, crowdInferior, Inferior.zero, Thread.core, Thread.zero]
    · have ne : pd.val ≠ k := fun eq => here (Fin.ext eq)
      simp only [withInferior, setInferior_inferiors, Function.update_of_ne here]
      rw [crowd.inferiors]
      by_cases lt : pd.val < k
      · rw [if_pos lt, if_pos (by omega)]
      · rw [if_neg lt, if_neg (by omega)]
  · intro target known
    obtain ⟨pd, owner⟩ := crowd.owned target known
    refine ⟨pd, ?_⟩
    by_cases here : target.pd = ⟨k, room⟩
    · have core : (s.thread target).inferior =
        ((s.inferiors target.pd).core.threads target.slot).inferior := rfl
      rw [core, crowd.inferiors, here, if_neg (lt_irrefl k)] at owner
      simp [Inferior.zero, Thread.zero] at owner
    · simpa [State.thread, withInferior, Function.update_of_ne here] using owner

theorem crowd_registerThread {k : Nat} {sizes : Fin maxPds → Nat} {s : State}
    (crowd : Crowd k sizes s) {pd : Fin maxPds} (registered : pd.val < k)
    (room : sizes pd < maxThreads) :
    ∃ u, (gdbRegisterThread (BitVec.ofNat 64 pd) (BitVec.ofNat 64 (sizes pd)) 5).run s =
        .ok .noError u ∧ Crowd k (Function.update sizes pd (sizes pd + 1)) u := by
  have lookup := crowd_lookup crowd pd
  rw [if_pos registered] at lookup
  have core := crowd.inferiors pd
  rw [if_pos registered] at core
  have enabled (slot : Fin maxThreads) :
      ((s.inferiors pd).threads slot).enabled = decide (slot.val < sizes pd) := by
    have same : ((s.inferiors pd).threads slot).enabled =
      ((s.inferiors pd).core.threads slot).enabled := rfl
    rw [same, core]
    by_cases lt : slot.val < sizes pd
    · simp [crowdInferior, lt, crowdThread]
    · simp [crowdInferior, lt, Thread.zero]
  have fresh : lookupThreadFromId (s.inferiors pd) (BitVec.ofNat 64 (sizes pd)) = none := by
    refine firstSlot_of_none fun slot => ?_
    have same : ((s.inferiors pd).threads slot).id = ((s.inferiors pd).core.threads slot).id := rfl
    rw [same, enabled, core]
    by_cases lt : slot.val < sizes pd
    · have small := slot.isLt
      have ne : ¬ BitVec.ofNat 64 slot.val = BitVec.ofNat 64 (sizes pd) := by
        simp only [maxThreads] at room small
        bv_omega
      simp [crowdInferior, lt, crowdThread, ne]
    · simp [lt]
  have counter : (s.inferiors pd).currThreadIdx = sizes pd :=
    (congrArg Inferior.currThreadIdx core :)
  have place : Fin.ofNat maxThreads (sizes pd) = ⟨sizes pd, room⟩ :=
    Fin.ext (Nat.mod_eq_of_lt room)
  have scan : ringScan (fun j => ((s.inferiors pd).threads j).enabled) maxThreads
      (s.inferiors pd).currThreadIdx = (sizes pd, some ⟨sizes pd, room⟩) := by
    rw [counter, ← place]
    refine ringScan_free (by decide) ?_
    rw [place, enabled]
    simp
  have owner : ((withThread s pd (sizes pd) ⟨sizes pd, room⟩ (BitVec.ofNat 64 (sizes pd)) 5).thread
      ⟨pd, ⟨sizes pd, room⟩⟩).inferior = some pd := by
    simp [State.thread, withThread, Inferior.setThread]
  have owned : TargetOwned (withThread s pd (sizes pd) ⟨sizes pd, room⟩
      (BitVec.ofNat 64 (sizes pd)) 5) := by
    rintro ⟨pd', slot⟩ known
    obtain ⟨targetPd, targetOwner⟩ := crowd.owned ⟨pd', slot⟩ known
    by_cases here : pd' = pd
    · subst here
      by_cases new : slot = ⟨sizes pd', room⟩
      · exact ⟨pd', by simp [State.thread, withThread, Inferior.setThread, new]⟩
      · refine ⟨targetPd, ?_⟩
        simpa [State.thread, withThread, Inferior.setThread,
          Function.update_of_ne new] using targetOwner
    · refine ⟨targetPd, ?_⟩
      simpa [State.thread, withThread, Function.update_of_ne here] using targetOwner
  obtain ⟨u, run, inferiors, last, _, owned'⟩ := introduceThread_returns owner owned
  refine ⟨u, ?_, ?_, ?_, owned'⟩
  · unfold gdbRegisterThread
    rw [run_bind_ok (EStateM.run_get s), lookup]
    dsimp only
    rw [fresh]
    dsimp only
    rw [if_neg (by rw [counter]; simp only [intMax, maxThreads] at room ⊢; omega), scan]
    exact run
  · exact last.trans crowd.counter
  · intro pd'
    rw [inferiors]
    by_cases here : pd' = pd
    · subst here
      rw [if_pos registered, Function.update_self]
      simp only [withThread, setInferior_inferiors, Function.update_self]
      have threads : (fun slot => ((s.inferiors pd').threads slot).core) = fun slot =>
          if slot.val < sizes pd' then crowdThread pd' slot else .zero :=
        congrArg Inferior.threads core
      have grown : (fun slot => (Function.update (s.inferiors pd').threads ⟨sizes pd', room⟩
          (crowdThread pd' ⟨sizes pd', room⟩) slot).core) = fun slot =>
          if slot.val < sizes pd' + 1 then crowdThread pd' slot else .zero := by
        funext slot
        by_cases new : slot = ⟨sizes pd', room⟩
        · subst new
          simp [crowdThread, Thread.core]
        · rw [Function.update_of_ne new, congrFun threads slot]
          have ne : slot.val ≠ sizes pd' := fun eq => new (Fin.ext eq)
          by_cases lt : slot.val < sizes pd'
          · rw [if_pos lt, if_pos (by omega)]
          · rw [if_neg lt, if_neg (by omega)]
      have whole : ({ s.inferiors pd' with currThreadIdx := sizes pd' + 1 }.setThread
          ⟨sizes pd', room⟩ (crowdThread pd' ⟨sizes pd', room⟩)).core =
          { (s.inferiors pd').core with
            currThreadIdx := sizes pd' + 1
            threads := fun slot => (Function.update (s.inferiors pd').threads ⟨sizes pd', room⟩
              (crowdThread pd' ⟨sizes pd', room⟩) slot).core } := rfl
      rw [core, grown] at whole
      exact whole
    · simp only [withThread, setInferior_inferiors, Function.update_of_ne here]
      exact crowd.inferiors pd'

/-- Every shape that fits the tables is reached by registrations alone. -/
theorem crowd_registered (output : Nat → Byte) (kernel : Kernel) (k : Nat) (fits : k ≤ maxPds)
    (sizes : Fin maxPds → Nat) (unused : ∀ pd, k ≤ pd.val → sizes pd = 0)
    (room : ∀ pd, sizes pd ≤ maxThreads) : ∃ s, Registered s ∧ Crowd k sizes s := by
  induction count : ∑ pd, sizes pd generalizing sizes with
  | zero =>
    obtain rfl : sizes = fun _ => 0 := by
      funext pd
      exact (Finset.sum_eq_zero_iff.mp count) pd (Finset.mem_univ pd)
    clear unused room count
    induction k with
    | zero =>
      refine ⟨.boot output kernel, .boot output kernel, rfl, ?_, ?_⟩
      · intro pd
        rfl
      · intro target known
        cases known
    | succ k ih =>
      obtain ⟨s, registered, crowd⟩ := ih (by omega)
      obtain ⟨u, run, crowd'⟩ := crowd_registerInferior crowd (by omega)
      exact ⟨u, .inferior (BitVec.ofNat 64 k) 0 registered (run_bind_ok run _), crowd'⟩
  | succ total ih =>
    obtain ⟨pd, positive⟩ : ∃ pd, 0 < sizes pd := by
      by_contra none
      have : ∑ pd, sizes pd = 0 := Finset.sum_eq_zero fun pd _ => by
        by_contra nonzero
        exact none ⟨pd, Nat.pos_of_ne_zero nonzero⟩
      omega
    have registered : pd.val < k := by
      by_contra beyond
      have := unused pd (by omega)
      omega
    have smaller : ∑ pd', Function.update sizes pd (sizes pd - 1) pd' = total := by
      have split := Finset.add_sum_erase Finset.univ sizes (Finset.mem_univ pd)
      rw [← Finset.add_sum_erase Finset.univ _ (Finset.mem_univ pd), Function.update_self]
      have rest : ∑ pd' ∈ Finset.univ.erase pd, Function.update sizes pd (sizes pd - 1) pd' =
          ∑ pd' ∈ Finset.univ.erase pd, sizes pd' :=
        Finset.sum_congr rfl fun pd' mem => Function.update_of_ne (Finset.ne_of_mem_erase mem) _ _
      rw [rest]
      omega
    have bounds (pd' : Fin maxPds) : Function.update sizes pd (sizes pd - 1) pd' ≤ sizes pd' := by
      by_cases here : pd' = pd
      · subst here
        rw [Function.update_self]
        omega
      · rw [Function.update_of_ne here]
    obtain ⟨s, earlier, crowd⟩ := ih (Function.update sizes pd (sizes pd - 1))
      (fun pd' le => by have := bounds pd'; have := unused pd' le; omega)
      (fun pd' => (bounds pd').trans (room pd')) smaller
    have space := room pd
    obtain ⟨u, run, crowd'⟩ := crowd_registerThread crowd registered
      (by rw [Function.update_self]; omega)
    rw [Function.update_self, Function.update_idem, Nat.sub_add_cancel positive,
      Function.update_eq_self] at crowd'
    exact ⟨u, .thread (BitVec.ofNat 64 pd) _ 5 earlier (run_bind_ok run _), crowd'⟩

theorem crowd_thread {k : Nat} {sizes : Fin maxPds → Nat} {s : State} (crowd : Crowd k sizes s)
    {t : ThreadRef} (registered : t.pd.val < k) (seated : t.slot.val < sizes t.pd) :
    (s.thread t).core = crowdThread t.pd t.slot := by
  have core := crowd.inferiors t.pd
  rw [if_pos registered] at core
  have here : (s.thread t).core = (s.inferiors t.pd).core.threads t.slot := rfl
  rw [here, core]
  simp [crowdInferior, seated]

end Libgdb
