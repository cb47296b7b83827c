import Libgdb.Detaching
import Libgdb.RegistryInvariant

/-!
The debug registers of live threads against the tables of their inferiors over whole runs. An
entry is in use when its address is not zero, and a new thread's registers are set but never
cleared: both leave a register armed that no table entry asks for.
-/
namespace Libgdb
open ByteMemory SlotTables CheckedPrograms KeyedUpdates GuardedRuns
variable [Machine]

/- Registration and exit, with the kernel's objects. -/

structure TextOnly (s u : State) : Prop where
  inferiors : u.inferiors = s.inferiors
  kernel : u.kernel = s.kernel

instance : Frame TextOnly where
  refl _ := ⟨rfl, rfl⟩
  trans _ _ _ first second :=
    ⟨second.inferiors.trans first.inferiors, second.kernel.trans first.kernel⟩
  output _ _ := ⟨rfl, rfl⟩
  drawn _ _ := ⟨rfl, rfl⟩

/-- Registering the thread puts it into a slot of the inferior. -/
structure TakesSlot (s : State) (inferiorId threadId : Word) (pd : Fin maxPds) : Prop where
  inferior : lookupInferiorFromId s inferiorId = some pd
  fresh : lookupThreadFromId (s.inferiors pd) threadId = none
  room : (s.inferiors pd).currThreadIdx + maxThreads ≤ intMax
  free : ∃ slot, ((s.inferiors pd).threads slot).enabled = false

structure CounterOnly (s u : State) : Prop where
  kernel : u.kernel = s.kernel
  inferiors : ∀ pd, u.inferiors pd =
    { s.inferiors pd with currThreadIdx := (u.inferiors pd).currThreadIdx }

theorem counterOnly_refl (s : State) : CounterOnly s s := ⟨rfl, fun _ => rfl⟩

section
variable {s u : State} (same : CounterOnly s u)
include same

theorem CounterOnly.thread (t : ThreadRef) : u.thread t = s.thread t := by
  rw [State.thread, same.inferiors]
  rfl

theorem CounterOnly.live (t : ThreadRef) : u.live t = s.live t := by
  rw [State.live, same.thread, same.inferiors]
  rfl

end

theorem registerThread_refused {s : State} {inferiorId threadId tcb : Word}
    (refused : ¬ ∃ pd, TakesSlot s inferiorId threadId pd) :
    CounterOnly s (after (gdbRegisterThread inferiorId threadId tcb) s) := by
  cases lookup : lookupInferiorFromId s inferiorId with
  | none =>
    unfold gdbRegisterThread
    rw [after_bind_ok (EStateM.run_get s), lookup]
    exact counterOnly_refl s
  | some pd =>
    cases found : lookupThreadFromId (s.inferiors pd) threadId with
    | some slot =>
      unfold gdbRegisterThread
      rw [after_bind_ok (EStateM.run_get s), lookup]
      dsimp only
      rw [found]
      dsimp only
      split <;> exact counterOnly_refl s
    | none =>
      by_cases room : (s.inferiors pd).currThreadIdx + maxThreads ≤ intMax
      · rcases registerThread_fresh lookup found room tcb with ⟨idx, _, run⟩ | ⟨idx, slot, scan, _⟩
        · rw [after_ok run]
          refine ⟨rfl, fun pd' => ?_⟩
          by_cases here : pd' = pd
          · subst here
            simp
          · simp [Function.update_of_ne here]
        · exact absurd ⟨pd, lookup, found, room, slot, (ringScan_some scan).2.1⟩ refused
      · unfold gdbRegisterThread
        rw [after_bind_ok (EStateM.run_get s), lookup]
        dsimp only
        rw [found]
        dsimp only
        rw [if_pos (by omega)]
        exact counterOnly_refl s

theorem registerThread_taken (ok : DebugCallsSucceed) {s : State} {inferiorId threadId : Word}
    {pd : Fin maxPds} (takes : TakesSlot s inferiorId threadId pd) (tcb : Word) :
    ∃ idx slot, ((s.inferiors pd).threads slot).enabled = false ∧
      (after (gdbRegisterThread inferiorId threadId tcb) s).inferiors =
        (withThread s pd idx slot threadId tcb).inferiors ∧
      (after (gdbRegisterThread inferiorId threadId tcb) s).kernel.memory = s.kernel.memory ∧
      (after (gdbRegisterThread inferiorId threadId tcb) s).kernel.tcb =
        touch (fun u => u.armAll (s.inferiors pd).wants debugRegisters) s.kernel.tcb tcb := by
  rcases registerThread_fresh takes.inferior takes.fresh takes.room tcb with ⟨idx, scan, _⟩ |
    ⟨idx, slot, scan, run⟩
  · obtain ⟨slot, free⟩ := takes.free
    have full := ringScan_full scan slot
    rw [free] at full
    contradiction
  · obtain ⟨k, arms, memory, tcbs⟩ :=
      introduceThread_arms ok (withThread_owner s pd idx slot threadId tcb)
    have rest : Stays TextOnly (do
        announceThread ⟨pd, slot⟩
        return DebuggerError.noError) :=
      stays_bind (stays_announceThread fun _ _ => ⟨rfl, rfl⟩) fun _ => stays_pure _
    have same := rest ((withThread s pd idx slot threadId tcb).withKernel k)
    rw [show after (gdbRegisterThread inferiorId threadId tcb) s = after (do
        announceThread ⟨pd, slot⟩
        return DebuggerError.noError) ((withThread s pd idx slot threadId tcb).withKernel k) by
      simp only [after, run, arms]]
    refine ⟨idx, slot, (ringScan_some scan).2.1, same.inferiors, ?_, ?_⟩
    · rw [same.kernel]
      exact memory
    · rw [same.kernel]
      refine tcbs.trans ?_
      have wants : ((withThread s pd idx slot threadId tcb).inferiors pd).wants =
          (s.inferiors pd).wants := by
        funext r
        cases r <;> simp [withThread, Inferior.setThread, Inferior.wants]
      have own : ((withThread s pd idx slot threadId tcb).thread ⟨pd, slot⟩).tcb = tcb := by
        simp [withThread, State.thread, Inferior.setThread]
      rw [wants, own]
      rfl

theorem exit_outcome (s : State) (inferiorId threadId : Word) :
    (after (gdbThreadExit inferiorId threadId) s).kernel = s.kernel ∧
      ((after (gdbThreadExit inferiorId threadId) s).inferiors = s.inferiors ∨
      ∃ t, (s.thread t).enabled = true ∧ (after (gdbThreadExit inferiorId threadId) s).inferiors =
        (s.setThread t { s.thread t with enabled := false }).inferiors) := by
  rcases gdbThreadExit_cases s inferiorId threadId with ⟨same, _⟩ | ⟨pd, slot, _, found, run⟩
  · rw [same]
    exact ⟨rfl, Or.inl rfl⟩
  · have rest := stays_announceExit (R := TextOnly) ⟨pd, slot⟩
      (s.setThread ⟨pd, slot⟩ { s.thread ⟨pd, slot⟩ with enabled := false })
    rw [show after (gdbThreadExit inferiorId threadId) s = after (announceExit ⟨pd, slot⟩)
      (s.setThread ⟨pd, slot⟩
        { s.thread ⟨pd, slot⟩ with enabled := false }) by simp only [after, run]]
    exact ⟨rest.kernel, Or.inr ⟨⟨pd, slot⟩, (lookupThreadFromId_some found).1, rest.inferiors⟩⟩

/- One call. -/

inductive DebugCall where
  | setHardwareBreakpoint (pd : Fin maxPds) (address : Word)
  | unsetHardwareBreakpoint (pd : Fin maxPds) (address : Word)
  | setHardwareWatchpoint (pd : Fin maxPds) (wp : HwWatch)
  | unsetHardwareWatchpoint (pd : Fin maxPds) (wp : HwWatch)
  | registerInferior (inferiorId vspace : Word)
  | registerThread (inferiorId threadId tcb : Word)
  | threadExit (inferiorId threadId : Word)
  | detach

def DebugCall.run : DebugCall → Stub Unit
  | .setHardwareBreakpoint pd address => do let _ ← Libgdb.setHardwareBreakpoint pd address
  | .unsetHardwareBreakpoint pd address => do let _ ← Libgdb.unsetHardwareBreakpoint pd address
  | .setHardwareWatchpoint pd wp => do
    let _ ← Libgdb.setHardwareWatchpoint pd wp.addr wp.type wp.size
  | .unsetHardwareWatchpoint pd wp => do
    let _ ← Libgdb.unsetHardwareWatchpoint pd wp.addr wp.type wp.size
  | .registerInferior inferiorId vspace => do let _ ← gdbRegisterInferior inferiorId vspace
  | .registerThread inferiorId threadId tcb => do let _ ← gdbRegisterThread inferiorId threadId tcb
  | .threadExit inferiorId threadId => do let _ ← gdbThreadExit inferiorId threadId
  | .detach => handleDetach

def debugCallStep (s : State) (call : DebugCall) : State := after call.run s

/-- Every register of a live thread holds what its inferior's table asks for. -/
def Mirrors (s : State) : Prop :=
  ∀ t, s.live t = true → ∀ r : DebugRegister,
    (s.kernel.tcb (s.thread t).tcb).debug r.num = (s.inferiors t.pd).wants r

def TcbsApart (s : State) : Prop :=
  ∀ t t', s.live t = true → s.live t' = true → (s.thread t).tcb = (s.thread t').tcb → t = t'

def Idle (s : State) (pd : Fin maxPds) : Prop :=
  ∀ slot, ((s.inferiors pd).threads slot).enabled = false

/-- The call arms no register that no table entry will ask for: a breakpoint at address zero
    finds no free entry or no thread, and a thread brings a TCB whose registers are clear
    wherever its inferior's entries are free. -/
def KeepsMirror (s : State) : DebugCall → Prop
  | .setHardwareBreakpoint pd address => address ≠ 0 ∨ Idle s pd ∨
      ∀ n, ((s.inferiors pd).hardwareBreakpoints n).addr ≠ 0
  | .setHardwareWatchpoint pd wp => wp.addr ≠ 0 ∨ Idle s pd ∨
      ∀ n, ((s.inferiors pd).hardwareWatchpoints n).addr ≠ 0
  | .registerThread inferiorId threadId tcb => ∀ pd, TakesSlot s inferiorId threadId pd →
      ∀ r, (s.inferiors pd).wants r = none → (s.kernel.tcb tcb).debug r.num = none
  | _ => True

theorem mirrors_rewire {s : State} (ok : RegistryOk s) (apart : TcbsApart s) (mirrors : Mirrors s)
    {pd : Fin maxPds} {i : Inferior} {k : Kernel} {r : DebugRegister} {v w : Option DebugSetting}
    (enabled : i.enabled = (s.inferiors pd).enabled)
    (threads : i.threads = (s.inferiors pd).threads)
    (wants : ∀ q, i.wants q = if q = r then w else (s.inferiors pd).wants q)
    (rewired : Rewired s.kernel (s.inferiors pd).allTcbs r.num v k) :
    Mirrors ((s.withKernel k).setInferior pd i) ↔ v = w ∨ Idle s pd := by
  let u := (s.withKernel k).setInferior pd i
  have thread (t : ThreadRef) : u.thread t = s.thread t := by
    by_cases here : t.pd = pd
    · subst here
      simp [u, State.thread, threads]
    · simp [u, State.thread, Function.update_of_ne here]
  have live (t : ThreadRef) : u.live t = s.live t := by
    rw [State.live, State.live, thread]
    by_cases here : t.pd = pd
    · subst here
      simp [u, enabled]
    · simp [u, Function.update_of_ne here]
  have own : u.inferiors pd = i := by simp [u]
  have other {pd' : Fin maxPds} (ne : pd' ≠ pd) : u.inferiors pd' = s.inferiors pd' := by
    simp [u, Function.update_of_ne ne]
  have debug (t : ThreadRef) (q : DebugRegister) : (u.kernel.tcb (u.thread t).tcb).debug q.num =
      if (s.thread t).tcb ∈ (s.inferiors pd).allTcbs ∧ q = r then v
      else (s.kernel.tcb (s.thread t).tcb).debug q.num := by
    rw [thread]
    refine (rewired.debug _ _).trans (if_congr (and_congr_right fun _ => ?_) rfl rfl)
    exact ⟨DebugRegister.num_inj, fun same => by rw [same]⟩
  constructor
  · intro next
    by_cases idle : Idle s pd
    · exact Or.inr idle
    · left
      simp only [Idle, not_forall, Bool.not_eq_false] at idle
      obtain ⟨slot, on⟩ := idle
      have here := ok.live (t := ⟨pd, slot⟩) on
      have now := next ⟨pd, slot⟩ ((live _).trans here) r
      rw [debug, if_pos ⟨mem_allTcbs.mpr ⟨slot, on, rfl⟩, rfl⟩] at now
      rw [now, own, wants, if_pos rfl]
  · intro fits t here q
    rw [live] at here
    have on := here
    simp only [State.live, Bool.and_eq_true] at on
    have before := mirrors t here q
    rw [debug]
    by_cases same : t.pd = pd
    · obtain ⟨_, slot⟩ := t
      subst same
      have busy : v = w := fits.resolve_right fun idle => by
        have off := idle slot
        rw [show ((s.inferiors _).threads slot).enabled = true from on.2] at off
        contradiction
      rw [own, wants, busy]
      by_cases which : q = r
      · rw [if_pos ⟨mem_allTcbs.mpr ⟨slot, on.2, rfl⟩, which⟩, if_pos which]
      · rw [if_neg fun both => which both.2, if_neg which, before]
    · have unused : (s.thread t).tcb ∉ (s.inferiors pd).allTcbs := by
        rw [mem_allTcbs]
        rintro ⟨slot, enabled, shared⟩
        exact same (congrArg ThreadRef.pd (apart t ⟨pd, slot⟩ here (ok.live enabled) shared.symm))
      rw [if_neg fun both => unused both.1, before, other same]

/-- No thread is new; those left have their records and the tables of their inferior. -/
structure FewerThreads (s u : State) : Prop where
  tcbs : u.kernel.tcb = s.kernel.tcb
  before : ∀ t, u.live t = true → s.live t = true
  thread : ∀ t, u.live t = true → u.thread t = s.thread t
  breakpoints : ∀ t, u.live t = true → (u.inferiors t.pd).hardwareBreakpoints =
    (s.inferiors t.pd).hardwareBreakpoints
  watchpoints : ∀ t, u.live t = true → (u.inferiors t.pd).hardwareWatchpoints =
    (s.inferiors t.pd).hardwareWatchpoints

theorem CounterOnly.fewer {s u : State} (same : CounterOnly s u) : FewerThreads s u where
  tcbs := by rw [same.kernel]
  before t here := by rwa [same.live] at here
  thread t _ := same.thread t
  breakpoints t _ := by rw [same.inferiors]
  watchpoints t _ := by rw [same.inferiors]

theorem registerInferior_fewer (s : State) (inferiorId vspace : Word) :
    FewerThreads s (after (gdbRegisterInferior inferiorId vspace) s) := by
  rcases gdbRegisterInferior_cases s inferiorId vspace with same | ⟨idx, _, full⟩ |
    ⟨idx, pd, scan, placed⟩
  · rw [same]
    exact (counterOnly_refl s).fewer
  · rw [full]
    exact ⟨rfl, fun t here => here, fun t _ => rfl, fun t _ => rfl, fun t _ => rfl⟩
  · rw [placed]
    have kept {t : ThreadRef} (here : (withInferior s idx pd inferiorId vspace).live t = true) :
        (withInferior s idx pd inferiorId vspace).inferiors t.pd = s.inferiors t.pd := by
      have ne : t.pd ≠ pd := by
        rintro rfl
        simp [State.live, State.thread, withInferior, Inferior.zero, Thread.zero] at here
      simp [withInferior, Function.update_of_ne ne]
    refine ⟨rfl, fun t here => ?_, fun t here => ?_,
      fun t here => by rw [kept here], fun t here => by rw [kept here]⟩
    · have same := kept here
      rwa [State.live, State.thread, same] at here
    · rw [State.thread, kept here, State.thread]

theorem exit_fewer (s : State) (inferiorId threadId : Word) :
    FewerThreads s (after (gdbThreadExit inferiorId threadId) s) := by
  obtain ⟨kernel, same | ⟨t, _, off⟩⟩ := exit_outcome s inferiorId threadId
  · exact CounterOnly.fewer ⟨kernel, fun pd => by rw [same]⟩
  · let u := s.setThread t { s.thread t with enabled := false }
    have thread (r : ThreadRef) : (after (gdbThreadExit inferiorId threadId) s).thread r =
        u.thread r := by
      rw [State.thread, off]
      rfl
    have tables (pd : Fin maxPds) := setThread_inferior s t { s.thread t with enabled := false } pd
    have other {r : ThreadRef} (here : (after (gdbThreadExit inferiorId threadId) s).live r =
        true) : u.thread r = s.thread r := by
      refine setThread_other s t _ fun same => ?_
      rw [State.live, thread, same] at here
      simp [u] at here
    refine ⟨by rw [kernel], fun r here => ?_, fun r here => by rw [thread, other here], fun r _ => ?_, fun r _ => ?_⟩
    · have same := other here
      rwa [State.live, thread, same, off, setThread_enabled] at here
    · rw [off, tables]
    · rw [off, tables]

theorem mirrors_of_fewer {s u : State} (fewer : FewerThreads s u) (mirrors : Mirrors s) :
    Mirrors u := by
  intro t here r
  have wants : (u.inferiors t.pd).wants = (s.inferiors t.pd).wants := by
    funext q
    cases q with
    | inl n => rw [Inferior.wants, Inferior.wants, fewer.breakpoints t here]
    | inr n => rw [Inferior.wants, Inferior.wants, fewer.watchpoints t here]
  rw [fewer.tcbs, fewer.thread t here, wants]
  exact mirrors t (fewer.before t here) r

theorem withThread_wants (s : State) (pd : Fin maxPds) (idx : Nat) (slot : Fin maxThreads)
    (threadId tcb : Word) (pd' : Fin maxPds) :
    ((withThread s pd idx slot threadId tcb).inferiors pd').wants = (s.inferiors pd').wants := by
  funext r
  by_cases here : pd' = pd
  · subst here
    cases r <;> simp [withThread, Inferior.setThread, Inferior.wants]
  · simp [withThread, Function.update_of_ne here]

theorem withThread_enabled (s : State) (pd : Fin maxPds) (idx : Nat) (slot : Fin maxThreads)
    (threadId tcb : Word) (pd' : Fin maxPds) :
    ((withThread s pd idx slot threadId tcb).inferiors pd').enabled =
    (s.inferiors pd').enabled := by
  by_cases here : pd' = pd
  · subst here
    simp [withThread, Inferior.setThread]
  · simp [withThread, Function.update_of_ne here]

theorem registerThread_mirrors_iff (ok : DebugCallsSucceed) {s : State} (mirrors : Mirrors s)
    {inferiorId threadId tcb : Word}
    (apart : TcbsApart (after (gdbRegisterThread inferiorId threadId tcb) s)) :
    Mirrors (after (gdbRegisterThread inferiorId threadId tcb) s) ↔
      KeepsMirror s (.registerThread inferiorId threadId tcb) := by
  by_cases takes : ∃ pd, TakesSlot s inferiorId threadId pd
  · obtain ⟨pd, takes⟩ := takes
    obtain ⟨idx, slot, free, inferiors, _, tcbs⟩ := registerThread_taken ok takes tcb
    generalize after (gdbRegisterThread inferiorId threadId tcb) s = u at *
    have thread (t : ThreadRef) :
        u.thread t = (withThread s pd idx slot threadId tcb).thread t := by
      rw [State.thread, inferiors]
      rfl
    have live (t : ThreadRef) : u.live t = (withThread s pd idx slot threadId tcb).live t := by
      rw [State.live, State.live, thread, inferiors]
    have own : u.thread ⟨pd, slot⟩ = ⟨true, false, false, some pd, threadId,
        BitVec.ofNat 16 (idx + 1), tcb⟩ := by
      rw [thread]
      simp [State.thread, withThread, Inferior.setThread]
    have added : u.live ⟨pd, slot⟩ = true := by
      have on := (lookupInferiorFromId_some takes.inferior).1
      rw [State.live, own, inferiors, withThread_enabled, on]
      rfl
    have wants (pd' : Fin maxPds) : (u.inferiors pd').wants = (s.inferiors pd').wants := by
      rw [inferiors, withThread_wants]
    have armed (r : DebugRegister) : (u.kernel.tcb tcb).debug r.num =
        ((s.inferiors pd).wants r).or ((s.kernel.tcb tcb).debug r.num) := by
      rw [tcbs, touch_same]
      exact (armAll_debug _ _ _ r).1 (mem_debugRegisters r)
    constructor
    · intro next pd' takes' r none
      have same := takes'.inferior
      rw [takes.inferior, Option.some.injEq] at same
      subst same
      have now := next ⟨pd, slot⟩ added r
      rwa [own, armed, wants, none, Option.none_or] at now
    · intro clear t here r
      by_cases new : t = ⟨pd, slot⟩
      · subst new
        rw [own, armed, wants]
        cases asked : (s.inferiors pd).wants r with
        | none => rw [Option.none_or, clear pd takes r asked]
        | some setting => rfl
      · have old : u.thread t = s.thread t := by
          rw [thread, withThread_other s pd idx slot threadId tcb new]
        have ne : (s.thread t).tcb ≠ tcb := by
          rintro rfl
          exact new (apart t ⟨pd, slot⟩ here added (by rw [old, own]))
        have before : s.live t = true := by
          rw [← here, State.live, State.live, old, inferiors, withThread_enabled]
        rw [old, tcbs, touch_other _ ne, wants]
        exact mirrors t before r
  · have same := @registerThread_refused _ s inferiorId threadId tcb takes
    exact iff_of_true (mirrors_of_fewer same.fewer mirrors) fun pd now => absurd ⟨pd, now⟩ takes

theorem detach_mirrors (ok : DebugCallsSucceed) {s : State} (mirrors : Mirrors s) :
    Mirrors (after handleDetach s) := by
  obtain ⟨k, run, left⟩ := handleDetach_run ok s
  rw [after_ok run]
  intro t here r
  have inferior : detachedInferiors s (List.finRange maxPds) t.pd =
      if (s.inferiors t.pd).enabled = true then (s.inferiors t.pd).detached
        else s.inferiors t.pd := by
    simp [detachedInferiors]
  simp only [State.live, State.thread, inferior, Bool.and_eq_true] at here
  have on : (s.inferiors t.pd).enabled = true := by
    by_contra off
    rw [if_neg off] at here
    exact off here.1
  rw [if_pos on] at here
  have thread : ((s.inferiors t.pd).detached.threads t.slot).enabled = (s.thread t).enabled ∧
      ((s.inferiors t.pd).detached.threads t.slot).tcb = (s.thread t).tcb := by
    simp only [Inferior.detached, Thread.release, State.thread]
    split <;> exact ⟨rfl, rfl⟩
  have before := mirrors t (by rw [State.live, on, ← thread.1, here.2]; rfl) r
  have asked : (s.inferiors t.pd).detached.wants r = none := by cases r <;> rfl
  simp only [State.thread, inferior, if_pos on, thread.2, asked]
  rw [show (State.withKernel (s.lay 0 (str "OK")) k).kernel = k from rfl, left.debug,
    detachedTcbs_debug]
  split
  · rfl
  · rename_i kept
    refine before.trans ?_
    cases wanted : (s.inferiors t.pd).wants r with
    | none => rfl
    | some setting =>
      -- the entry is in use, so its round clears the register
      refine absurd ⟨t.pd, List.mem_finRange _, on, ?_, (mem_hits _ r).mpr ?_⟩ kept
      · exact mem_allTcbs.mpr ⟨t.slot, thread.1.symm.trans here.2, rfl⟩
      · cases r with
        | inl n =>
          refine Or.inl fun free => ?_
          simp [Inferior.wants, HwBreak.armed, free] at wanted
        | inr n =>
          refine Or.inl fun free => ?_
          simp [Inferior.wants, HwWatch.armed, free] at wanted

/- Runs. -/

structure MirrorOk (s : State) : Prop where
  registry : RegistryOk s
  apart : TcbsApart s

theorem debugCall_keeps_ok {s : State} (ok : RegistryOk s) (call : DebugCall) :
    RegistryOk (debugCallStep s call) := by
  cases call with
  | setHardwareBreakpoint pd address =>
    exact registryOk_of_same (stays_bind (stays_setHardwareBreakpoint pd address)
      (fun _ => stays_pure _) s) ok
  | unsetHardwareBreakpoint pd address =>
    exact registryOk_of_same (stays_bind (stays_unsetHardwareBreakpoint pd address)
      (fun _ => stays_pure _) s) ok
  | setHardwareWatchpoint pd wp =>
    exact registryOk_of_same (stays_bind (stays_setHardwareWatchpoint pd _ _ _)
      (fun _ => stays_pure _) s) ok
  | unsetHardwareWatchpoint pd wp =>
    exact registryOk_of_same (stays_bind (stays_unsetHardwareWatchpoint pd _ _ _)
      (fun _ => stays_pure _) s) ok
  | registerInferior inferiorId vspace =>
    rw [debugCallStep, DebugCall.run, after_ignore]
    exact registration_keeps_ok ok inferiorId vspace
  | registerThread inferiorId threadId tcb =>
    rw [debugCallStep, DebugCall.run, after_ignore]
    exact threadRegistration_keeps_ok ok inferiorId threadId tcb
  | threadExit inferiorId threadId =>
    rw [debugCallStep, DebugCall.run, after_ignore]
    exact exit_keeps_ok ok inferiorId threadId
  | detach => exact registryOk_of_same (stays_handleDetach s) ok

/-- One call keeps the mirror exactly when it arms no register that no entry asks for. -/
theorem debugCall_mirrors_iff (calls : DebugCallsSucceed) {s : State} (inv : MirrorOk s)
    (call : DebugCall) (apart : TcbsApart (debugCallStep s call)) (mirrors : Mirrors s) :
    Mirrors (debugCallStep s call) ↔ KeepsMirror s call := by
  cases call with
  | setHardwareBreakpoint pd address =>
    rw [debugCallStep, DebugCall.run, after_ignore]
    have step := setHardwareBreakpoint_run calls pd address s
    cases found : firstSlot (fun n => ((s.inferiors pd).hardwareBreakpoints n).addr == 0) with
    | none =>
      rw [found] at step
      rw [after_ok step]
      refine iff_of_true mirrors (Or.inr (Or.inr fun n => ?_))
      simpa using firstSlot_none found n
    | some n =>
      rw [found] at step
      obtain ⟨k, run, rewired⟩ := step
      have free : ((s.inferiors pd).hardwareBreakpoints n).addr = 0 := by
        simpa using (firstSlot_some found).1
      rw [after_ok run, mirrors_rewire (i := (s.inferiors pd).setHwBreak n ⟨address⟩)
        (r := .inl n) inv.registry inv.apart mirrors rfl rfl
        (wants_setHwBreak (s.inferiors pd) n ⟨address⟩) rewired]
      have full : ¬ ∀ n, ((s.inferiors pd).hardwareBreakpoints n).addr ≠ 0 := fun all => all n free
      rw [KeepsMirror, or_iff_left full, HwBreak.armed]
      by_cases zero : address = 0
      · simp [zero]
      · simp
  | setHardwareWatchpoint pd wp =>
    rw [debugCallStep, DebugCall.run, after_ignore]
    have step := setHardwareWatchpoint_run calls pd wp s
    cases found : firstSlot (fun n => ((s.inferiors pd).hardwareWatchpoints n).addr == 0) with
    | none =>
      rw [found] at step
      rw [after_ok step]
      refine iff_of_true mirrors (Or.inr (Or.inr fun n => ?_))
      simpa using firstSlot_none found n
    | some n =>
      rw [found] at step
      obtain ⟨k, run, rewired⟩ := step
      have free : ((s.inferiors pd).hardwareWatchpoints n).addr = 0 := by
        simpa using (firstSlot_some found).1
      rw [after_ok run, mirrors_rewire (i := (s.inferiors pd).setHwWatch n wp)
        (r := .inr n) inv.registry inv.apart mirrors rfl rfl
        (wants_setHwWatch (s.inferiors pd) n wp) rewired]
      have full : ¬ ∀ n, ((s.inferiors pd).hardwareWatchpoints n).addr ≠ 0 := fun all => all n free
      rw [KeepsMirror, or_iff_left full, HwWatch.armed]
      by_cases zero : wp.addr = 0
      · simp [zero]
      · simp
  | unsetHardwareBreakpoint pd address =>
    rw [debugCallStep, DebugCall.run, after_ignore]
    have step := unsetHardwareBreakpoint_run calls pd address s
    refine iff_of_true ?_ trivial
    cases found : firstSlot (fun n => ((s.inferiors pd).hardwareBreakpoints n).addr == address) with
    | none =>
      rw [found] at step
      rwa [after_ok step]
    | some n =>
      rw [found] at step
      obtain ⟨k, run, rewired⟩ := step
      rw [after_ok run]
      exact (mirrors_rewire (i := (s.inferiors pd).setHwBreak n ⟨0⟩)
        (r := .inl n) inv.registry inv.apart mirrors rfl rfl
        (wants_setHwBreak (s.inferiors pd) n ⟨0⟩) rewired).mpr (Or.inl rfl)
  | unsetHardwareWatchpoint pd wp =>
    rw [debugCallStep, DebugCall.run, after_ignore]
    have step := unsetHardwareWatchpoint_run calls pd wp s
    refine iff_of_true ?_ trivial
    cases found : firstSlot (fun n => (s.inferiors pd).hardwareWatchpoints n == wp) with
    | none =>
      rw [found] at step
      rwa [after_ok step]
    | some n =>
      rw [found] at step
      obtain ⟨k, run, rewired⟩ := step
      rw [after_ok run]
      exact (mirrors_rewire (i := (s.inferiors pd).setHwWatch n { wp with addr := 0 })
        (r := .inr n) inv.registry inv.apart mirrors rfl rfl
        (wants_setHwWatch (s.inferiors pd) n { wp with addr := 0 }) rewired).mpr (Or.inl rfl)
  | registerInferior inferiorId vspace =>
    rw [debugCallStep, DebugCall.run, after_ignore]
    exact iff_of_true (mirrors_of_fewer (registerInferior_fewer s inferiorId vspace) mirrors)
      trivial
  | registerThread inferiorId threadId tcb =>
    rw [debugCallStep, DebugCall.run, after_ignore] at apart ⊢
    exact registerThread_mirrors_iff calls mirrors apart
  | threadExit inferiorId threadId =>
    rw [debugCallStep, DebugCall.run, after_ignore]
    exact iff_of_true (mirrors_of_fewer (exit_fewer s inferiorId threadId) mirrors) trivial
  | detach => exact iff_of_true (detach_mirrors calls mirrors) trivial

theorem boot_idle (output : Nat → Byte) (kernel : Kernel) (t : ThreadRef) :
    (State.boot output kernel).live t = false := rfl

/-- From registers that are all clear, and with no TCB given to two live threads, the registers
    mirror the tables after every call of a run exactly when no call arms a register that no
    entry asks for. -/
theorem mirrors_along_iff (ok : DebugCallsSucceed) (output : Nat → Byte) (kernel : Kernel)
    (calls : List DebugCall) (apart : Along debugCallStep TcbsApart calls (.boot output kernel)) :
    Along debugCallStep Mirrors calls (.boot output kernel) ↔
      Guarded debugCallStep KeepsMirror calls (.boot output kernel) := by
  have start : MirrorOk (.boot output kernel) :=
    ⟨registryOk_boot output kernel, fun t t' here => by simp [boot_idle] at here⟩
  have mirrors : Mirrors (.boot output kernel) := fun t here => by simp [boot_idle] at here
  exact along_iff_guarded MirrorOk (fun s call => TcbsApart (debugCallStep s call))
    (fun s call inv next => ⟨debugCall_keeps_ok inv.registry call, next⟩)
    (fun s call inv next mirrors => debugCall_mirrors_iff ok inv call next mirrors)
    calls _ start mirrors (guarded_of_along calls _ apart)

/- One inferior with one thread. -/

theorem tcbsApart_of_same {s u : State} (same : SameRegistry s u) (apart : TcbsApart s) :
    TcbsApart u := by
  intro t t' here here' shared
  rw [same.live] at here here'
  rw [same.tcb, same.tcb] at shared
  exact apart t t' here here' shared

omit [Machine] in
theorem solo_tcbsApart : letI := obligingBoard
    TcbsApart soloState := by
  let _ := obligingBoard
  intro t t' here here' _
  rw [solo_live t here, solo_live t' here']

omit [Machine] in
theorem obliging_detachCalls : letI := obligingBoard
    DetachCallsSucceed := by
  let _ := obligingBoard
  exact { read := fun _ _ _ => rfl, write := fun _ _ _ _ => rfl, set := fun _ _ _ _ => rfl,
          unset := fun _ _ _ => rfl, step := fun _ _ _ => rfl }

omit [Machine] in
theorem solo_breakpoint_apart : letI := obligingBoard
    ∀ address, Along debugCallStep TcbsApart
      [.registerInferior 1 7, .registerThread 1 1 5, .setHardwareBreakpoint 0 address]
        blankState := by
  let _ := obligingBoard
  intro address
  have first : TcbsApart (debugCallStep blankState (.registerInferior 1 7)) := by
    intro t t' here
    have inferiors : (debugCallStep blankState (.registerInferior 1 7)).inferiors =
      (withInferior blankState 0 0 1 7).inferiors := rfl
    simp only [State.live, State.thread, inferiors] at here
    by_cases ne : t.pd = 0
    · simp [ne, withInferior, Inferior.zero, Thread.zero] at here
    · simp [withInferior, Function.update_of_ne ne, blankState, State.boot, Inferior.zero] at here
  refine ⟨first, solo_tcbsApart, ?_, trivial⟩
  have same : SameRegistry soloState (debugCallStep soloState (.setHardwareBreakpoint 0 address)) :=
    stays_bind (stays_setHardwareBreakpoint 0 address) (fun _ => stays_pure _) soloState
  exact tcbsApart_of_same same solo_tcbsApart

omit [Machine] in
/-- The registers mirror the tables while a breakpoint is set, and after a detach. -/
theorem solo_mirrors : letI := obligingBoard
    Along debugCallStep Mirrors
      [.registerInferior 1 7, .registerThread 1 1 5, .setHardwareBreakpoint 0 4096,
        .detach] blankState := by
  let _ := obligingBoard
  obtain ⟨first, second, third, _⟩ := solo_breakpoint_apart 4096
  have last : TcbsApart (debugCallStep (debugCallStep soloState (.setHardwareBreakpoint 0 4096))
      .detach) :=
    tcbsApart_of_same (stays_handleDetach _) third
  refine (mirrors_along_iff obliging_detachCalls.toDebugCallsSucceed (fun _ => 0) blankKernel
    [.registerInferior 1 7, .registerThread 1 1 5, .setHardwareBreakpoint 0 4096, .detach]
    ⟨first, second, third, last, trivial⟩).mpr ⟨trivial, fun _ _ _ _ => rfl, Or.inl (by decide),
      trivial, trivial⟩

omit [Machine] in
/-- A breakpoint at address zero is armed, and its entry stays free. -/
theorem zero_breakpoint_not_mirrored : letI := obligingBoard
    ¬ ∀ (output : Nat → Byte) (kernel : Kernel) (calls : List DebugCall),
      (∀ x m, (kernel.tcb x).debug m = none) →
      Along debugCallStep TcbsApart calls (.boot output kernel) →
      Along debugCallStep Mirrors calls (.boot output kernel) := by
  let _ := obligingBoard
  intro all
  have apart := solo_breakpoint_apart 0
  obtain ⟨_, before, last, _⟩ := all (fun _ => 0) blankKernel _ (fun _ _ => rfl) apart
  have inv : MirrorOk soloState := ⟨reachable_ok solo_registered.reachable, solo_tcbsApart⟩
  have on : ((soloState.inferiors 0).threads 0).enabled = true := rfl
  have free : ((soloState.inferiors 0).hardwareBreakpoints (0 : Fin 6)).addr = 0 := rfl
  rcases (debugCall_mirrors_iff obliging_detachCalls.toDebugCallsSucceed inv
    (.setHardwareBreakpoint 0 0) apart.2.2.1
    before).mp last with nonzero | idle | full
  · exact nonzero rfl
  · rw [idle 0] at on
    contradiction
  · exact full (0 : Fin 6) free

end Libgdb
