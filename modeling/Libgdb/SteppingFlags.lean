import Libgdb.RegisterMirror
import Libgdb.ResumeEffects

/-!
The single-step flag of a thread against its TCB, over runs of registrations, exits, vCont packets
and detaches. A continue configures the TCB and leaves the flag; a registration clears the flag and
leaves the TCB.
-/
namespace Libgdb
open ByteMemory SlotTables KeyedUpdates RefusedCalls CheckedPrograms GuardedRuns
variable [Machine]

def SteppingCallsSucceed : Prop :=
  ∀ calls tcb n, Machine.fails calls (.tcbConfigureSingleStepping tcb n) = false

inductive SteppingCall where
  | registerInferior (inferiorId vspace : Word)
  | registerThread (inferiorId threadId tcb : Word)
  | threadExit (inferiorId threadId : Word)
  | resume (rest : List Byte)
  | detach (rest : List Byte)

def SteppingCall.event : SteppingCall → Event
  | .registerInferior inferiorId vspace => .registerInferior inferiorId vspace
  | .registerThread inferiorId threadId tcb => .registerThread inferiorId threadId tcb
  | .threadExit inferiorId threadId => .threadExit inferiorId threadId
  | .resume rest => .packet (str "vCont;" ++ rest)
  | .detach rest => .packet (chr 'D' :: rest)

def steppingCallStep (s : State) (call : SteppingCall) : State := after call.event.run s

def SteppingCallReturns (s : State) (call : SteppingCall) : Prop :=
  (value call.event.run s).isSome = true

/-- The flag of every live thread says whether its TCB single-steps. -/
def FlagsTrue (s : State) : Prop :=
  ∀ t, s.live t = true →
    ((s.thread t).ssEnabled = true ↔ (s.kernel.tcb (s.thread t).tcb).singleStepping = true)

/-- A thread brings a TCB that does not step. For every live thread the last single-step call a
    vCont packet makes on its TCB is a step exactly when its flag was set or the leftmost action
    that addresses it is a step. -/
def KeepsFlags (s : State) : SteppingCall → Prop
  | .registerThread inferiorId threadId tcb =>
      (∃ pd, TakesSlot s inferiorId threadId pd) → (s.kernel.tcb tcb).singleStepping = false
  | .resume rest => ∀ script supported,
      readScript s (str "vCont;" ++ rest) = .ok (script, supported) →
      ∀ t, s.live t = true → ∀ b, LastCall (madeCalls s script) (s.thread t).tcb b →
        b = ((s.thread t).ssEnabled || decide (leftmost script t = some true))
  | _ => True

/- Registrations and exits. -/

/-- The tables are the same and no TCB starts or stops stepping. -/
structure SteppingKept (s u : State) : Prop where
  inferiors : u.inferiors = s.inferiors
  stepping : ∀ x, (u.kernel.tcb x).singleStepping = (s.kernel.tcb x).singleStepping

instance : Frame SteppingKept where
  refl _ := ⟨rfl, fun _ => rfl⟩
  trans _ _ _ first second :=
    ⟨second.inferiors.trans first.inferiors, fun x => (second.stepping x).trans (first.stepping x)⟩
  output _ _ := ⟨rfl, fun _ => rfl⟩
  drawn _ _ := ⟨rfl, fun _ => rfl⟩

def KernelCall.configures : KernelCall → Bool
  | .tcbConfigureSingleStepping _ _ => true
  | _ => false

theorem record_stepping (k : Kernel) {call : KernelCall} (other : call.configures = false)
    (x : Word) :
    ((k.record call).tcb x).singleStepping = (k.tcb x).singleStepping := by
  have update (tcb : Word) (f : Tcb → Tcb) (keeps : ∀ t, (f t).singleStepping = t.singleStepping) :
      ((k.updateTcb tcb f).tcb x).singleStepping = (k.tcb x).singleStepping := by
    by_cases here : x = tcb
    · subst here
      simp [Kernel.updateTcb, keeps]
    · simp [Kernel.updateTcb, Function.update_of_ne here]
  cases fails : Machine.fails k.calls call with
  | true => rw [record_of_fail fails]
  | false =>
    rw [record_of_ok fails]
    cases call with
    | tcbConfigureSingleStepping _ _ => cases other
    | vspaceReadWord _ _ => rfl
    | vspaceWriteWord _ _ _ => rfl
    | _ =>
      dsimp only [KernelCall.effect]
      exact update _ _ fun _ => rfl

theorem registerThread_stepping {s : State} {inferiorId threadId : Word} {pd : Fin maxPds}
    (takes : TakesSlot s inferiorId threadId pd) (tcb : Word) :
    ∃ idx slot, ((s.inferiors pd).threads slot).enabled = false ∧
      SteppingKept (withThread s pd idx slot threadId tcb)
        (after (gdbRegisterThread inferiorId threadId tcb) s) := by
  rcases registerThread_fresh takes.inferior takes.fresh takes.room tcb with ⟨idx, scan, _⟩ |
    ⟨idx, slot, scan, run⟩
  · obtain ⟨slot, free⟩ := takes.free
    have full := ringScan_full scan slot
    rw [free] at full
    contradiction
  · have introduces : Stays SteppingKept (introduceThread ⟨pd, slot⟩) :=
      frame_introduceThread (fun _ _ _ s => ⟨rfl, record_stepping s.kernel rfl⟩) fun _ _ =>
        ⟨rfl, fun _ => rfl⟩
    have kept := introduces (withThread s pd idx slot threadId tcb)
    rw [show after (introduceThread ⟨pd, slot⟩) (withThread s pd idx slot threadId tcb) =
      after (gdbRegisterThread inferiorId threadId tcb) s by simp only [after, run]] at kept
    exact ⟨idx, slot, (ringScan_some scan).2.1, kept⟩

theorem flagsTrue_of_fewer {s u : State} (fewer : FewerThreads s u) (flags : FlagsTrue s) :
    FlagsTrue u := by
  intro t here
  rw [fewer.tcbs, fewer.thread t here]
  exact flags t (fewer.before t here)

theorem registerThread_flags_iff {s : State} (flags : FlagsTrue s)
    (inferiorId threadId tcb : Word) :
    FlagsTrue (after (gdbRegisterThread inferiorId threadId tcb) s) ↔
      KeepsFlags s (.registerThread inferiorId threadId tcb) := by
  by_cases takes : ∃ pd, TakesSlot s inferiorId threadId pd
  · obtain ⟨pd, takes⟩ := takes
    obtain ⟨idx, slot, free, kept⟩ := registerThread_stepping takes tcb
    let u := after (gdbRegisterThread inferiorId threadId tcb) s
    have inferior : (s.inferiors pd).enabled = true := (lookupInferiorFromId_some takes.inferior).1
    have thread (t : ThreadRef) :
        u.thread t = (withThread s pd idx slot threadId tcb).thread t := by
      rw [State.thread, kept.inferiors, State.thread]
    have live (t : ThreadRef) : u.live t = (withThread s pd idx slot threadId tcb).live t := by
      rw [State.live, thread, kept.inferiors, State.live]
    have new : (withThread s pd idx slot threadId tcb).thread ⟨pd, slot⟩ =
        ⟨true, false, false, some pd, threadId, BitVec.ofNat 16 (idx + 1), tcb⟩ := by
      simp [withThread, State.thread, Inferior.setThread]
    have old {t : ThreadRef} (ne : t ≠ ⟨pd, slot⟩) :
        (withThread s pd idx slot threadId tcb).thread t = s.thread t :=
          withThread_other s pd idx slot threadId tcb ne
    have own : u.live ⟨pd, slot⟩ = true := by
      rw [live, State.live, new, withThread_enabled, inferior]
      rfl
    constructor
    · intro next _
      have now := next ⟨pd, slot⟩ own
      rw [thread, new, kept.stepping] at now
      exact Bool.eq_false_iff.mpr fun steps => Bool.false_ne_true (now.mpr steps)
    · intro off t here
      by_cases same : t = ⟨pd, slot⟩
      · subst same
        rw [thread, new, kept.stepping]
        have still := off ⟨pd, takes⟩
        simp only [Bool.false_eq_true, false_iff, Bool.not_eq_true]
        exact still
      · rw [live, State.live, old same, withThread_enabled] at here
        rw [thread, old same, kept.stepping]
        exact flags t here
  · exact iff_of_true (flagsTrue_of_fewer (registerThread_refused takes).fewer flags) fun some =>
      absurd some takes

/- vCont. -/

theorem unrefused_steps (ok : SteppingCallsSucceed) (record : List KernelCall)
    (calls : List (Word × Bool)) :
    unrefused Machine.fails stepCall record calls = calls := by
  induction calls generalizing record with
  | nil => rfl
  | cons c calls ih => rw [unrefused, stepCall, if_neg (by rw [ok]; decide), ih]

theorem mem_scriptCalls {s : State} {script : List VcontAction} {t : ThreadRef}
    {fresh : ThreadRef → Bool} {b : Bool}
    (here : fresh t = true) (first : leftmost script t = some b) :
    ((s.thread t).tcb, b) ∈ scriptCalls s fresh script := by
  induction script generalizing fresh with
  | nil => cases first
  | cons a script ih =>
    rw [leftmost_cons] at first
    rw [scriptCalls, List.mem_append]
    by_cases addressed : a.addresses t = true
    · rw [if_pos addressed] at first
      cases first
      have mem : t ∈ idsThreads a.ids := of_decide_eq_true addressed
      exact Or.inl (List.mem_map.mpr ⟨t, mem_firsts.mpr ⟨here, mem⟩, rfl⟩)
    · rw [if_neg addressed] at first
      exact Or.inr (ih (by simp [here, addressed]) first)

theorem vcont_flags_iff (ok : SteppingCallsSucceed) {s : State} (flags : FlagsTrue s)
    (script : List VcontAction) {t : ThreadRef} (live : s.live t = true) :
    (((s.thread t).ssEnabled || decide (leftmost script t = some true)) = true ↔
        lastValue (s.thread t).tcb (s.kernel.tcb (s.thread t).tcb).singleStepping
          (madeCalls s script) = true) ↔
      ∀ b, LastCall (madeCalls s script) (s.thread t).tcb b →
        b = ((s.thread t).ssEnabled || decide (leftmost script t = some true)) := by
  generalize flag : ((s.thread t).ssEnabled || decide (leftmost script t = some true)) = f
  by_cases called : ∃ c ∈ madeCalls s script, c.1 = (s.thread t).tcb
  · constructor
    · intro same b last
      rw [(lastCall_iff called).mpr last, ← Bool.eq_iff_iff] at same
      exact same.symm
    · intro same
      rw [same _ ((lastCall_iff called).mp rfl)]
  · push Not at called
    have unasked : leftmost script t ≠ some true := by
      intro first
      refine called ((s.thread t).tcb, true) ?_ rfl
      rw [madeCalls, unrefused_steps ok]
      exact mem_scriptCalls (Bool.and_eq_true_iff.mp live).2 first
    refine iff_of_true ?_ fun b ⟨earlier, later, calls, _⟩ => ?_
    swap
    · exact absurd rfl (called ((s.thread t).tcb, b) (by rw [calls]; simp))
    rw [lastValue_of_forall_ne called, ← flag]
    simpa [unasked] using flags t live

theorem resume_flags_iff (ok : SteppingCallsSucceed) {s : State} (registry : RegistryOk s)
    (flags : FlagsTrue s)
    {rest : List Byte} (returns : (value (gdbHandlePacket (str "vCont;" ++ rest)) s).isSome =
      true) :
    FlagsTrue (after (gdbHandlePacket (str "vCont;" ++ rest)) s) ↔ KeepsFlags s (.resume rest) := by
  obtain ⟨b, returns⟩ := Option.isSome_iff_exists.mp returns
  have run := run_of_some returns
  generalize after (gdbHandlePacket (str "vCont;" ++ rest)) s = u at run
  obtain ⟨script, supported, read, reach, _, ends⟩ := vcont_outcome registry run
  let t := (script.foldl applyAction (scriptStart s)).draw (2 * (scriptIds script).length)
  have tables : u.inferiors = t.inferiors ∧ u.kernel = t.kernel := by
    rw [ends]
    cases supported <;> exact ⟨rfl, rfl⟩
  have thread (r : ThreadRef) : u.thread r = t.thread r := by
    rw [State.thread, tables.1, State.thread]
  have same : SameRegistry s t := vcont_sameRegistry script (2 * (scriptIds script).length)
  have live (r : ThreadRef) : u.live r = s.live r := by
    rw [State.live, thread, tables.1]
    exact same.live r
  have flag (r : ThreadRef) : s.live r = true → (u.thread r).ssEnabled =
      ((s.thread r).ssEnabled || decide (leftmost script r = some true)) := by
    intro here
    have after := script_ssEnabled script (scriptStart s) r
    have enabled : (s.thread r).enabled = true := (Bool.and_eq_true_iff.mp here).2
    simp only [start_fresh, enabled, Bool.true_and] at after
    rw [thread]
    exact after
  have stepping (x : Word) := vcont_singleStepping s script (2 * (scriptIds script).length) x
  have whole : KeepsFlags s (.resume rest) ↔ ∀ r, s.live r = true → ∀ b,
      LastCall (madeCalls s script) (s.thread r).tcb b →
        b = ((s.thread r).ssEnabled || decide (leftmost script r = some true)) := by
    refine ⟨fun all => all script supported read, fun all script' supported' read' => ?_⟩
    cases read.symm.trans read'
    exact all
  rw [whole]
  refine forall_congr' fun r => ?_
  rw [live]
  refine imp_congr_right fun here => ?_
  rw [flag r here, thread, show (t.thread r).tcb = (s.thread r).tcb from same.tcb r,
    tables.2, stepping]
  exact vcont_flags_iff ok flags script here

/- Detaching. -/

def Flagged (s : State) : Prop :=
  ∀ t, s.live t = true → (s.kernel.tcb (s.thread t).tcb).singleStepping = true →
    (s.thread t).ssEnabled = true

/-- The threads are the same ones, no flag is set, and a TCB that steps stays flagged. -/
structure Releases (s u : State) : Prop where
  live : ∀ t, u.live t = s.live t
  threadEnabled : ∀ t, (u.thread t).enabled = (s.thread t).enabled
  flag : ∀ t, (s.thread t).ssEnabled = false → (u.thread t).ssEnabled = false
  flagged : Flagged s → Flagged u

theorem releases_of_same {s u : State}
    (enabled : ∀ pd, (u.inferiors pd).enabled = (s.inferiors pd).enabled)
    (thread : ∀ t, u.thread t = s.thread t)
    (stepping : ∀ x, (u.kernel.tcb x).singleStepping = (s.kernel.tcb x).singleStepping) :
    Releases s u := by
  have live (t : ThreadRef) : u.live t = s.live t := by rw [State.live, enabled, thread, State.live]
  refine ⟨live, fun t => by rw [thread], fun t off => by rw [thread, off], fun flagged t here => ?_⟩
  rw [thread, stepping]
  exact flagged t ((live t).symm.trans here)

instance : Frame Releases where
  refl _ := ⟨fun _ => rfl, fun _ => rfl, fun _ off => off, fun flagged => flagged⟩
  trans _ _ _ first second :=
    ⟨fun t => (second.live t).trans (first.live t),
      fun t => (second.threadEnabled t).trans (first.threadEnabled t),
      fun t off => second.flag t (first.flag t off), fun flagged =>
        second.flagged (first.flagged flagged)⟩
  output _ _ := releases_of_same (fun _ => rfl) (fun _ => rfl) fun _ => rfl
  drawn _ _ := releases_of_same (fun _ => rfl) (fun _ => rfl) fun _ => rfl

theorem releases_tables (s : State) (pd : Fin maxPds) (i : Inferior)
    (tables : SameButTables (s.inferiors pd) i) :
    Releases s (s.setInferior pd i) := by
  obtain ⟨sw, hb, hw, rfl⟩ := tables
  refine releases_of_same (fun pd' => ?_) (fun t => ?_) fun x => rfl
  · by_cases here : pd' = pd
    · subst here
      simp
    · simp [Function.update_of_ne here]
  · by_cases here : t.pd = pd
    · subst here
      simp [State.thread]
    · simp [State.thread, Function.update_of_ne here]

theorem releases_call {call : KernelCall} (other : call.configures = false) :
    Stays Releases (invoke call) :=
  fun s => releases_of_same (fun _ => rfl) (fun _ => rfl) (record_stepping s.kernel other)

theorem detachThread_releases (ok : SteppingCallsSucceed) {s u : State} {t : ThreadRef}
    (run : (detachThread t).run s = .ok () u) :
    Releases s u ∧ ((u.thread t).enabled = true → (u.thread t).ssEnabled = false) := by
  unfold detachThread at run
  rw [run_bind_ok (EStateM.run_get s)] at run
  by_cases enabled : (s.thread t).enabled = true
  · rw [if_pos enabled] at run
    let k : Kernel := if (s.thread t).ssEnabled = true then
      s.kernel.record (.tcbConfigureSingleStepping (s.thread t).tcb 0) else s.kernel
    have after : u = (s.withKernel k).setThread t
        { s.thread t with ssEnabled := false, wakeup := true } := by
      by_cases flag : (s.thread t).ssEnabled = true
      · rw [if_pos flag] at run
        cases run
        simp only [k, if_pos flag]
        rfl
      · rw [if_neg flag] at run
        cases run
        simp only [k, if_neg flag]
        rfl
    have own : u.thread t = { s.thread t with ssEnabled := false, wakeup := true } := by
      rw [after]
      exact setThread_thread _ t _
    have other {r : ThreadRef} (ne : r ≠ t) : u.thread r = s.thread r := by
      rw [after]
      exact setThread_other _ t _ ne
    have threadEnabled (r : ThreadRef) : (u.thread r).enabled = (s.thread r).enabled := by
      by_cases same : r = t
      · rw [same, own]
      · rw [other same]
    have live (r : ThreadRef) : u.live r = s.live r := by
      rw [State.live, threadEnabled, after, setThread_enabled]
      rfl
    refine ⟨⟨live, threadEnabled, fun r off => ?_, fun flagged r here steps => ?_⟩,
      fun _ => by rw [own]⟩
    · by_cases same : r = t
      · rw [same, own]
      · rw [other same, off]
    · rw [live] at here
      have kernel : u.kernel = k := by rw [after]; rfl
      rw [kernel] at steps
      have tcb : (u.thread r).tcb = (s.thread r).tcb := by
        by_cases same : r = t
        · rw [same, own]
        · rw [other same]
      rw [tcb] at steps
      by_cases flag : (s.thread t).ssEnabled = true
      · -- the thread's TCB is taken out of stepping
        have cleared : k = s.kernel.record (.tcbConfigureSingleStepping (s.thread t).tcb 0) :=
          if_pos flag
        rw [cleared, record_of_ok (ok _ _ _)] at steps
        by_cases shared : (s.thread r).tcb = (s.thread t).tcb
        · rw [shared] at steps
          simp [KernelCall.effect, Kernel.updateTcb] at steps
        · have ne : r ≠ t := fun same => shared (by rw [same])
          rw [other ne]
          simp only [KernelCall.effect, Kernel.updateTcb, Function.update_of_ne shared] at steps
          exact flagged r here steps
      · have kept : k = s.kernel := if_neg flag
        rw [kept] at steps
        have set := flagged r here steps
        have ne : r ≠ t := fun same => flag (by rw [← same, set])
        rw [other ne]
        exact set
  · rw [if_neg enabled] at run
    cases run
    exact ⟨Std.Refl.refl _, fun on => absurd on enabled⟩

def Released (pd : Fin maxPds) (s : State) : Prop :=
  ∀ slot, s.live ⟨pd, slot⟩ = true → (s.thread ⟨pd, slot⟩).ssEnabled = false

theorem Releases.released {s u : State} (releases : Releases s u) {pd : Fin maxPds}
    (released : Released pd s) :
    Released pd u := fun slot here => releases.flag _
    (released slot ((releases.live _).symm.trans here))

theorem detachInferior_releases (ok : SteppingCallsSucceed) {s u : State} {pd : Fin maxPds}
    (run : (detachInferior pd).run s = .ok () u) : Releases s u ∧ Released pd u := by
  unfold detachInferior at run
  obtain ⟨_, s₁, run₁, rest₁⟩ := ok_bind_run run
  obtain ⟨_, s₂, run₂, rest₂⟩ := ok_bind_run rest₁
  obtain ⟨_, s₃, run₃, rest₃⟩ := ok_bind_run rest₂
  obtain ⟨_, s₄, run₄, rest₄⟩ := ok_bind_run rest₃
  have breaks : Releases s s₁ := by
    rw [← after_ok run₁]
    refine stays_forM _ (fun i => ?_) s
    exact stays_bind stays_get fun _ =>
      stays_bind (frame_unsetSoftwareBreakpoint (fun _ _ _ => releases_call rfl)
      releases_tables _ _) fun _ => stays_pure _
  have hardware : Releases s₁ s₂ := by
    rw [← after_ok run₂]
    refine stays_forM _ (fun i => ?_) s₁
    exact stays_bind stays_get fun _ =>
      stays_bind (frame_unsetHardwareBreakpoint (fun _ _ => releases_call rfl)
      releases_tables _ _) fun _ => stays_pure _
  have watches : Releases s₂ s₃ := by
    rw [← after_ok run₃]
    refine stays_forM _ (fun i => ?_) s₂
    exact stays_bind stays_get fun _ =>
      stays_bind (frame_unsetHardwareWatchpoint (fun _ _ => releases_call rfl)
      releases_tables _ _ _ _) fun _ => stays_pure _
  have cleared : Releases s₃ s₄ := by
    cases run₄
    exact releases_tables s₃ pd _ ⟨_, _, _, rfl⟩
  obtain ⟨threads, released⟩ := forM_covers (R := Releases)
    (Q := fun slot v => v.live ⟨pd, slot⟩ = true → (v.thread ⟨pd, slot⟩).ssEnabled = false)
    (fun slot v w releases off here => releases.flag _ (off ((releases.live _).symm.trans here)))
    (fun slot v w round => by
      obtain ⟨releases, off⟩ := detachThread_releases ok round
      exact ⟨releases, fun here => off (Bool.and_eq_true_iff.mp here).2⟩) _ rest₄
  refine ⟨?_, fun slot => released slot (List.mem_finRange slot)⟩
  exact IsTrans.trans _ _ _ breaks (IsTrans.trans _ _ _ hardware (IsTrans.trans _ _ _ watches
    (IsTrans.trans _ _ _ cleared threads)))

theorem handleDetach_releases (ok : SteppingCallsSucceed) {s u : State}
    (run : handleDetach.run s = .ok () u) :
    Releases s u ∧ ∀ pd, Released pd u := by
  unfold handleDetach at run
  obtain ⟨_, s₁, run₁, rest⟩ := ok_bind_run run
  have replied : Releases s s₁ := by
    rw [← after_ok run₁]
    exact stays_strlcpy _ _ _ s
  obtain ⟨inferiors, released⟩ := forM_covers (R := Releases) (Q := Released)
    (fun pd v w releases off => releases.released off)
    (fun pd v w round => by
      rw [run_bind_ok (EStateM.run_get v)] at round
      by_cases enabled : (v.inferiors pd).enabled = true
      · rw [if_pos enabled] at round
        exact detachInferior_releases ok round
      · rw [if_neg enabled] at round
        cases round
        refine ⟨Std.Refl.refl _, fun slot here => ?_⟩
        exact absurd (Bool.and_eq_true_iff.mp here).1 enabled) _ rest
  exact ⟨IsTrans.trans _ _ _ replied inferiors, fun pd => released pd (List.mem_finRange pd)⟩

theorem detach_flags (ok : SteppingCallsSucceed) {s : State} (flags : FlagsTrue s)
    {rest : List Byte} (returns : (value (gdbHandlePacket (chr 'D' :: rest)) s).isSome = true) :
    FlagsTrue (after (gdbHandlePacket (chr 'D' :: rest)) s) := by
  obtain ⟨b, returns⟩ := Option.isSome_iff_exists.mp returns
  have run := run_of_some returns
  generalize after (gdbHandlePacket (chr 'D' :: rest)) s = u at run
  have dispatched : gdbHandlePacket (chr 'D' :: rest) = (do
      put 0 0
      handleDetach
      modify fun s : State => { s with detached := true }
      return true) := rfl
  rw [dispatched, run_bind_ok (put_zero_run (by decide) s)] at run
  obtain ⟨_, v, detached, rest⟩ := ok_bind_run run
  obtain ⟨releases, released⟩ := handleDetach_releases ok detached
  cases rest
  have flagged : Flagged v := releases.flagged fun t here => (flags t here).mpr
  intro t here
  have off : (v.thread t).ssEnabled = false := released t.pd t.slot here
  refine iff_of_false (fun set => ?_) fun steps => ?_
  · exact Bool.false_ne_true (off.symm.trans set)
  · exact Bool.false_ne_true (off.symm.trans (flagged t here steps))

/- Runs. -/

theorem steppingCall_flags_iff (ok : SteppingCallsSucceed) {s : State} (registry : RegistryOk s)
    {call : SteppingCall} (returns : SteppingCallReturns s call) (flags : FlagsTrue s) :
    FlagsTrue (steppingCallStep s call) ↔ KeepsFlags s call := by
  unfold SteppingCallReturns at returns
  unfold steppingCallStep
  cases call with
  | registerInferior inferiorId vspace =>
    rw [SteppingCall.event, Event.run, after_ignore]
    exact iff_of_true (flagsTrue_of_fewer (registerInferior_fewer s inferiorId vspace) flags)
      trivial
  | registerThread inferiorId threadId tcb =>
    rw [SteppingCall.event, Event.run, after_ignore]
    exact registerThread_flags_iff flags inferiorId threadId tcb
  | threadExit inferiorId threadId =>
    rw [SteppingCall.event, Event.run, after_ignore]
    exact iff_of_true (flagsTrue_of_fewer (exit_fewer s inferiorId threadId) flags) trivial
  | resume rest =>
    rw [SteppingCall.event, Event.run, value_ignore] at returns
    rw [SteppingCall.event, Event.run, after_ignore]
    exact resume_flags_iff ok registry flags returns
  | detach rest =>
    rw [SteppingCall.event, Event.run, value_ignore] at returns
    rw [SteppingCall.event, Event.run, after_ignore]
    exact iff_of_true (detach_flags ok flags returns) trivial

/-- Along any run of calls that return, from start-up with no TCB stepping, the flags say which
    TCBs step exactly when every call keeps them. -/
theorem flags_along_iff (ok : SteppingCallsSucceed) (output : Nat → Byte) {kernel : Kernel}
    (off : ∀ tcb, (kernel.tcb tcb).singleStepping = false) (calls : List SteppingCall)
    (runs : Guarded steppingCallStep SteppingCallReturns calls (.boot output kernel)) :
    Along steppingCallStep FlagsTrue calls (.boot output kernel) ↔
      Guarded steppingCallStep KeepsFlags calls (.boot output kernel) := by
  refine along_iff_guarded RegistryOk SteppingCallReturns (fun s call registry _ =>
    event_keeps_ok registry call.event)
    (fun s call registry returns flags => steppingCall_flags_iff ok registry returns flags) calls _
    (registryOk_boot output kernel) (fun t _ => ?_) runs
  exact iff_of_false Bool.false_ne_true fun steps => Bool.false_ne_true ((off _).symm.trans steps)

omit [Machine] in
theorem obliging_steppingCalls : letI := obligingBoard
    SteppingCallsSucceed := by
  let _ := obligingBoard
  exact fun _ _ _ => rfl

def soloCalls (last : SteppingCall) : List SteppingCall :=
  [.registerInferior 1 7, .registerThread 1 1 5, .resume (str "s:p1.1" ++ [0]), last]

def soloStepped : @State obligingBoard :=
  let _ := obligingBoard
  steppingCallStep
    (steppingCallStep (steppingCallStep blankState (.registerInferior 1 7)) (.registerThread 1 1 5))
    (.resume (str "s:p1.1" ++ [0]))

omit [Machine] in
theorem soloCalls_return : letI := obligingBoard
    ∀ last, SteppingCallReturns soloStepped last →
      Guarded steppingCallStep SteppingCallReturns (soloCalls last) blankState := by
  let _ := obligingBoard
  intro last returns
  have stepped : SteppingCallReturns
      (steppingCallStep (steppingCallStep blankState (.registerInferior 1 7))
      (.registerThread 1 1 5)) (.resume (str "s:p1.1" ++ [0])) := by
    unfold SteppingCallReturns
    decide +kernel
  exact ⟨rfl, rfl, stepped, returns, trivial⟩

omit [Machine] in
theorem soloCalls_registered : letI := obligingBoard
    steppingCallStep (steppingCallStep blankState (.registerInferior 1 7)) (.registerThread 1 1 5) =
      soloState := by
  let _ := obligingBoard
  unfold steppingCallStep soloState
  simp only [SteppingCall.event, Event.run, after_ignore]

omit [Machine] in
theorem solo_flags_true : letI := obligingBoard
    Along steppingCallStep FlagsTrue (soloCalls (.detach [0])) blankState := by
  let _ := obligingBoard
  have returns : SteppingCallReturns soloStepped (.detach [0]) := by
    unfold SteppingCallReturns
    decide +kernel
  refine (@flags_along_iff obligingBoard obliging_steppingCalls (fun _ => 0) blankKernel
    (fun _ => rfl) _
    (soloCalls_return _ returns)).mpr ⟨trivial, fun _ => rfl, ?_, trivial, trivial⟩
  change KeepsFlags (steppingCallStep (steppingCallStep blankState (.registerInferior 1 7))
    (.registerThread 1 1 5))
    (.resume (str "s:p1.1" ++ [0]))
  rw [soloCalls_registered]
  intro script supported read t live b last
  have known : readScript soloState (str "vCont;" ++ (str "s:p1.1" ++ [0])) =
      .ok ([⟨true, [⟨1, 1⟩]⟩], true) := by
    decide +kernel
  cases known.symm.trans read
  have calls : madeCalls soloState [⟨true, [⟨1, 1⟩]⟩] = [(5, true)] := by decide +kernel
  obtain ⟨earlier, later, made, _⟩ := last
  have mem : ((soloState.thread t).tcb, b) ∈ [((5 : Word), true)] := by
    rw [← calls, made]
    simp
  have stepping : b = true := congrArg Prod.snd (List.mem_singleton.mp mem)
  have first : leftmost [⟨true, [⟨1, 1⟩]⟩] ⟨0, 0⟩ = some true := by decide +kernel
  rw [stepping, solo_live t live, first]
  simp

omit [Machine] in
/-- A thread that steps and is then continued keeps its flag. -/
theorem continued_flag_stays : letI := obligingBoard
    ¬ ∀ (output : Nat → Byte) (kernel : Kernel), (∀ tcb, (kernel.tcb tcb).singleStepping = false) →
      ∀ calls, Guarded steppingCallStep SteppingCallReturns calls (.boot output kernel) →
        Along steppingCallStep FlagsTrue calls (.boot output kernel) := by
  let _ := obligingBoard
  intro all
  have returns : SteppingCallReturns soloStepped (.resume (str "c:p1.1" ++ [0])) := by
    unfold SteppingCallReturns
    decide +kernel
  have along := all (fun _ => 0) blankKernel (fun _ => rfl) _ (soloCalls_return _ returns)
  have flags : FlagsTrue (steppingCallStep soloStepped (.resume (str "c:p1.1" ++ [0]))) :=
    along.2.2.2.1
  have live : (steppingCallStep soloStepped (.resume (str "c:p1.1" ++ [0]))).live
      ⟨0, 0⟩ = true := by
    decide +kernel
  have set : ((steppingCallStep soloStepped (.resume (str "c:p1.1" ++ [0]))).thread
      ⟨0, 0⟩).ssEnabled = true := by
    decide +kernel
  have tcb : ((steppingCallStep soloStepped (.resume (str "c:p1.1" ++ [0]))).thread ⟨0, 0⟩).tcb =
      5 := by
    decide +kernel
  have off : ((steppingCallStep soloStepped (.resume (str "c:p1.1" ++ [0]))).kernel.tcb
      5).singleStepping = false := by
    decide +kernel
  generalize steppingCallStep soloStepped (.resume (str "c:p1.1" ++ [0])) =
    s at flags live set tcb off
  have steps := (flags ⟨0, 0⟩ live).mp set
  rw [tcb, off] at steps
  cases steps

end Libgdb
