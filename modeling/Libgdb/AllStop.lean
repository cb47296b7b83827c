import Libgdb.Library.GuardedRuns
import Libgdb.RegisterTexts
import Libgdb.Registrations

/-!
Stopping and starting all threads, and what packets do to stopped threads: all keep them
stopped but `G`, which starts the target.
-/
namespace Libgdb
open ByteMemory CheckedPrograms GuardedRuns
variable [Machine]

omit [Machine] in
theorem mem_threadRefs (t : ThreadRef) : t ∈ threadRefs := by
  simp only [threadRefs, List.mem_flatMap, List.mem_map]
  exact ⟨t.pd, List.mem_finRange _, t.slot, List.mem_finRange _, rfl⟩

/- Suspending and resuming. -/

def callThreads (test : State → ThreadRef → Bool) (call : Word → KernelCall) (ts : List ThreadRef) :
    Stub Unit :=
  ts.forM fun t => do
    let s ← get
    if test s t then
      let _ ← invoke (call (s.thread t).tcb)

theorem callThreads_run (test : State → ThreadRef → Bool) (call : Word → KernelCall) (b : Bool)
    (tables : ∀ (s : State) (k : Kernel) t, test (s.withKernel k) t = test s t)
    (sets : ∀ (k : Kernel) (tcb : Word), (k.record (call tcb)).memory = k.memory ∧
      (k.record (call tcb)).tcb = Function.update k.tcb tcb { k.tcb tcb with running := b })
    (ts : List ThreadRef) (s : State) :
    ∃ k : Kernel, (callThreads test call ts).run s = .ok () (s.withKernel k) ∧
      k.memory = s.kernel.memory ∧
      (∀ t ∈ ts, test s t = true →
        k.tcb (s.thread t).tcb = { s.kernel.tcb (s.thread t).tcb with running := b }) ∧
      ∀ tcb, (∀ t ∈ ts, test s t = true → (s.thread t).tcb ≠ tcb) →
      k.tcb tcb = s.kernel.tcb tcb := by
  induction ts generalizing s with
  | nil => exact ⟨s.kernel, rfl, rfl, fun t mem => absurd mem (by simp), fun _ _ => rfl⟩
  | cons t ts ih =>
    by_cases here : test s t = true
    · let s' := s.withKernel (s.kernel.record (call (s.thread t).tcb))
      obtain ⟨k, run, memory, called, others⟩ := ih s'
      obtain ⟨sameMemory, set⟩ := sets s.kernel (s.thread t).tcb
      have first : (do
          let s ← get
          if test s t then
            let _ ← invoke (call (s.thread t).tcb) : Stub Unit).run s = .ok () s' := by
        rw [run_bind_ok (EStateM.run_get s), if_pos here]
        rfl
      have value (tcb : Word) : s'.kernel.tcb tcb =
          if tcb = (s.thread t).tcb then { s.kernel.tcb tcb with running := b }
          else s.kernel.tcb tcb := by
        simp only [s', withKernel_kernel, set, Function.update_apply]
        split
        · rename_i same
          rw [same]
        · rfl
      have again (tcb : Word) : { s'.kernel.tcb tcb with running := b } =
          { s.kernel.tcb tcb with running := b } := by
        rw [value]
        split <;> rfl
      refine ⟨k, (run_bind_ok first _).trans run, memory.trans sameMemory, ?_, ?_⟩
      · intro r mem passes
        by_cases later : ∃ r' ∈ ts, test s r' = true ∧ (s.thread r').tcb = (s.thread r).tcb
        · obtain ⟨r', mem', passes', same⟩ := later
          have done := called r' mem' ((tables s _ r').trans passes')
          rw [withKernel_thread, same] at done
          exact done.trans (again _)
        · have last := others (s.thread r).tcb fun r' mem' passes' same =>
            later ⟨r', mem', (tables s _ r').symm.trans passes', same⟩
          rw [last, value]
          rcases List.mem_cons.mp mem with rfl | mem'
          · rw [if_pos rfl]
          · exact absurd ⟨r, mem', passes, rfl⟩ later
      · intro tcb none
        have skip := others tcb fun r mem passes =>
          none r (List.mem_cons_of_mem _ mem) ((tables s _ r).symm.trans passes)
        have ne := none t List.mem_cons_self here
        rw [skip, value, if_neg (Ne.symm ne)]
    · obtain ⟨k, run, memory, called, others⟩ := ih s
      have first : (do
          let s ← get
          if test s t then
            let _ ← invoke (call (s.thread t).tcb) : Stub Unit).run s = .ok () s := by
        rw [run_bind_ok (EStateM.run_get s), if_neg here]
        rfl
      refine ⟨k, (run_bind_ok first _).trans run, memory, ?_, ?_⟩
      · intro r mem passes
        rcases List.mem_cons.mp mem with rfl | mem'
        · exact absurd passes here
        · exact called r mem' passes
      · exact fun tcb none => others tcb fun r mem => none r (List.mem_cons_of_mem _ mem)

theorem callThreads_calls (test : State → ThreadRef → Bool) (call : Word → KernelCall)
    (tables : ∀ (s : State) (k : Kernel) t, test (s.withKernel k) t = test s t)
    (ts : List ThreadRef) (s : State) :
    ∃ k : Kernel, (callThreads test call ts).run s = .ok () (s.withKernel k) ∧
      k.calls = ((ts.filter (test s)).map fun t => call (s.thread t).tcb).reverse ++
        s.kernel.calls := by
  induction ts generalizing s with
  | nil => exact ⟨s.kernel, rfl, rfl⟩
  | cons t ts ih =>
    by_cases here : test s t = true
    · let s' := s.withKernel (s.kernel.record (call (s.thread t).tcb))
      obtain ⟨k, run, calls⟩ := ih s'
      have first : (do
          let s ← get
          if test s t then
            let _ ← invoke (call (s.thread t).tcb) : Stub Unit).run s = .ok () s' := by
        rw [run_bind_ok (EStateM.run_get s), if_pos here]
        rfl
      have same : test s' = test s := funext fun r => tables s _ r
      refine ⟨k, (run_bind_ok first _).trans run, ?_⟩
      rw [calls, same, List.filter_cons_of_pos here, List.map_cons, List.reverse_cons,
        List.append_assoc]
      rfl
    · obtain ⟨k, run, calls⟩ := ih s
      have first : (do
          let s ← get
          if test s t then
            let _ ← invoke (call (s.thread t).tcb) : Stub Unit).run s = .ok () s := by
        rw [run_bind_ok (EStateM.run_get s), if_neg here]
        rfl
      refine ⟨k, (run_bind_ok first _).trans run, ?_⟩
      rw [calls, List.filter_cons_of_neg here]

structure ThreadCallsSucceed : Prop where
  suspend : ∀ calls tcb, Machine.fails calls (.tcbSuspend tcb) = false
  resume : ∀ calls tcb, Machine.fails calls (.tcbResume tcb) = false
  write : ∀ calls tcb resumeTarget context,
    Machine.fails calls (.tcbWriteRegisters tcb resumeTarget context) = false

def AllStopped (s : State) : Prop :=
  ∀ t, s.live t = true → (s.kernel.tcb (s.thread t).tcb).running = false

theorem suspendSystem_run (ok : ThreadCallsSucceed) (s : State) :
    ∃ k : Kernel, suspendSystem.run s = .ok () (s.withKernel k) ∧ k.memory = s.kernel.memory ∧
      (∀ t, s.live t = true →
        k.tcb (s.thread t).tcb = { s.kernel.tcb (s.thread t).tcb with running := false }) ∧
      ∀ tcb, (∀ t, s.live t = true → (s.thread t).tcb ≠ tcb) → k.tcb tcb = s.kernel.tcb tcb := by
  obtain ⟨k, run, memory, called, others⟩ := callThreads_run (fun s t => s.live t) .tcbSuspend false
    (fun _ _ _ => rfl)
    (fun k tcb => by simp [record_of_ok, ok.suspend, KernelCall.effect, Kernel.updateTcb])
      threadRefs s
  exact ⟨k, run, memory, fun t => called t (mem_threadRefs t),
    fun tcb none => others tcb fun t _ => none t⟩

theorem resumeSystem_calls (s : State) :
    ∃ k : Kernel, resumeSystem.run s = .ok () (s.withKernel k) ∧
    k.calls = ((threadRefs.filter fun t => s.live t && (s.thread t).wakeup).map fun t =>
      KernelCall.tcbResume (s.thread t).tcb).reverse ++ s.kernel.calls :=
  callThreads_calls (fun s t => s.live t && (s.thread t).wakeup) .tcbResume (fun _ _ _ =>
    rfl) threadRefs s

theorem suspendSystem_stops (ok : ThreadCallsSucceed) (s : State) :
    AllStopped (after suspendSystem s) := by
  obtain ⟨k, run, _, called, _⟩ := suspendSystem_run ok s
  rw [after_ok run]
  intro t live
  exact (congrArg Tcb.running (called t live) :)

/- Packets. -/

/-- The registry is the same and no thread runs that did not. -/
structure NoneStarted (s t : State) : Prop where
  registry : SameRegistry s t
  stopped : ∀ tcb, (s.kernel.tcb tcb).running = false → (t.kernel.tcb tcb).running = false

theorem noneStarted_call (s : State) (call : KernelCall) (harmless : call.harmless) :
    NoneStarted s (s.withKernel (s.kernel.record call)) := by
  refine ⟨sameRegistry_of_eq rfl rfl, fun tcb stopped => ?_⟩
  have update (tcb' : Word) (f : Tcb → Tcb) (keeps : ∀ t : Tcb, t.running = false →
      (f t).running = false) :
      ((s.kernel.updateTcb tcb' f).tcb tcb).running = false := by
    simp only [Kernel.updateTcb, Function.update_apply]
    split
    · rename_i same
      subst same
      exact keeps _ stopped
    · exact stopped
  cases fails : Machine.fails s.kernel.calls call with
  | true =>
    rw [withKernel_kernel, record_of_fail fails]
    exact stopped
  | false =>
    rw [withKernel_kernel, record_of_ok fails]
    cases call with
    | tcbReadRegisters tcb' suspendSource =>
      exact update tcb' (fun t => { t with running := t.running && !suspendSource })
        fun t off => by simp [off]
    | tcbWriteRegisters _ _ _ => exact harmless.elim
    | vspaceReadWord _ _ => exact stopped
    | vspaceWriteWord _ _ _ => exact stopped
    | tcbSetBreakpoint tcb' bpNum setting =>
      exact update tcb' (fun t => { t with debug := Function.update t.debug bpNum (some setting) })
        fun t off => off
    | tcbUnsetBreakpoint tcb' bpNum =>
      exact update tcb' (fun t => { t with debug := Function.update t.debug bpNum none })
        fun t off => off
    | tcbConfigureSingleStepping tcb' numInstructions =>
      exact update tcb' (fun t => { t with singleStepping := decide (numInstructions ≠ 0) })
        fun t off => off
    | tcbSuspend _ => exact harmless.elim
    | tcbResume _ => exact harmless.elim

instance : PacketFrame NoneStarted where
  refl s := ⟨Std.Refl.refl s, fun _ off => off⟩
  trans _ _ _ first second :=
    ⟨IsTrans.trans _ _ _ first.registry second.registry,
      fun tcb off => second.stopped tcb (first.stopped tcb off)⟩
  output s o := ⟨Frame.output s o, fun _ off => off⟩
  drawn s n := ⟨Frame.drawn s n, fun _ off => off⟩
  call s c harmless := noneStarted_call s c harmless
  handled s h := ⟨PacketFrame.handled s h, fun _ off => off⟩
  detached s := ⟨PacketFrame.detached s, fun _ off => off⟩
  flags s t wakeup ss := ⟨PacketFrame.flags s t wakeup ss, fun _ off => off⟩
  allWakeup s wakeup := ⟨PacketFrame.allWakeup s wakeup, fun _ off => off⟩
  tables s pd i same := ⟨PacketFrame.tables s pd i same, fun _ off => off⟩

theorem allStopped_of_noneStarted {s t : State} (frame : NoneStarted s t) (stopped : AllStopped s) :
    AllStopped t := by
  intro r live
  rw [frame.registry.live] at live
  rw [frame.registry.tcb]
  exact frame.stopped _ (stopped r live)

/-- A `G` packet that returns has written the registers of the target and nothing else. -/
theorem writeRegs_returns (ok : ThreadCallsSucceed) {input : List Byte} {s : State} {b : Bool}
    (first : input.head? = some (chr 'G')) (returns : value (gdbHandlePacket input) s = some b) :
    ∃ t, s.targetThread = some t ∧
      SameRegistry s (after (gdbHandlePacket input) s) ∧
      ∀ tcb, ((after (gdbHandlePacket input) s).kernel.tcb tcb).running =
        ((s.kernel.tcb tcb).running || decide (tcb = (s.thread t).tcb)) := by
  obtain ⟨rest, rfl⟩ : ∃ rest, input = chr 'G' :: rest := List.head?_eq_some_iff.mp first
  have registry : SameRegistry s (after (gdbHandlePacket (chr 'G' :: rest)) s) :=
    packet_sameRegistry _ s
  rw [dispatch_writeRegs] at returns registry ⊢
  unfold handleWriteRegs at returns registry ⊢
  simp only [bind_assoc] at returns registry ⊢
  let u : State := { s.lay 0 [] with drawn := s.drawn + 1 }
  have drawn : freshContext.run (s.lay 0 []) = .ok (Machine.junkContext s.drawn) u := rfl
  have peeked := liftParse_run (p := peek (chr 'G' :: rest)) rfl (s.lay 0 [])
  rw [value_bind_ok (put_zero_run (by decide) s), value_bind_ok peeked,
    value_bind_ok (assert_run rfl _), value_bind_ok drawn] at returns
  rw [after_bind_ok (put_zero_run (by decide) s), after_bind_ok peeked,
    after_bind_ok (assert_run rfl _), after_bind_ok drawn] at registry ⊢
  cases parsed : hex2regs (Machine.junkContext s.drawn) rest with
  | error e =>
    rw [List.tail_cons, parsed] at returns
    cases returns
  | ok result =>
    obtain ⟨context, _⟩ := result
    have parsed' := liftParse_run (p := hex2regs (Machine.junkContext s.drawn)
      (chr 'G' :: rest).tail) parsed u
    rw [value_bind_ok parsed', value_bind_ok (EStateM.run_get u)] at returns
    rw [after_bind_ok parsed', after_bind_ok (EStateM.run_get u)] at registry ⊢
    cases known : s.targetThread with
    | none =>
      rw [show u.targetThread = none from known] at returns
      cases returns
    | some t =>
      refine ⟨t, rfl, registry, fun tcb => ?_⟩
      have known' := deref_run (p := u.targetThread) known u
      let call := KernelCall.tcbWriteRegisters (s.thread t).tcb true context
      have written : (tcbWriteRegisters (u.thread t).tcb true context).run u =
        .ok (Machine.fails s.kernel.calls call) (u.withKernel (s.kernel.record call)) := rfl
      have kernel : (s.kernel.record call).tcb = Function.update s.kernel.tcb (s.thread t).tcb
          { s.kernel.tcb (s.thread t).tcb with registers := context, running := true } := by
        simp [call, record_of_ok, ok.write, KernelCall.effect, Kernel.updateTcb]
      rw [after_bind_ok known', after_bind_ok written,
        after_bind_ok (strlcpy_run 0 (str "OK") bufsize _ (by decide) (by decide))]
      change ((s.kernel.record call).tcb tcb).running = _
      rw [kernel]
      by_cases here : tcb = (s.thread t).tcb
      · simp [here]
      · simp [here]

def packetStep (s : State) (input : List Byte) : State := after (gdbHandlePacket input) s

/-- The packet is handled and the stub goes on waiting for the next. -/
def ReturnsFalse (s : State) (input : List Byte) : Prop :=
  value (gdbHandlePacket input) s = some false

/-- The packet is not a `G` packet that writes the registers of a live thread. -/
def StartsNoThread (s : State) (input : List Byte) : Prop :=
  input.head? = some (chr 'G') → ∀ target, s.targetThread = some target →
    ∀ t, s.live t = true → (s.thread t).tcb ≠ (s.thread target).tcb

theorem packetStep_stopped_iff (ok : ThreadCallsSucceed) {s : State} {input : List Byte}
    (returns : ReturnsFalse s input) (stopped : AllStopped s) :
    AllStopped (packetStep s input) ↔ StartsNoThread s input := by
  by_cases writes : input.head? = some (chr 'G')
  · obtain ⟨target, known, registry, running⟩ := writeRegs_returns ok writes returns
    have same : AllStopped (packetStep s input) ↔
        ∀ t, s.live t = true → (s.thread t).tcb ≠ (s.thread target).tcb := by
      unfold AllStopped packetStep
      refine forall_congr' fun t => ?_
      rw [registry.live, registry.tcb, running]
      refine imp_congr_right fun live => ?_
      simp [stopped t live]
    rw [same]
    constructor
    · intro apart _ target' known'
      rw [known] at known'
      cases known'
      exact apart
    · exact fun none => none writes target known
  · refine iff_of_true ?_ fun first => absurd first writes
    refine allStopped_of_noneStarted (s := s) ?_ stopped
    refine stays_gdbHandlePacket input (fun first => absurd first writes) (fun _ => ?_) s
    exact stays_handleSetInferior input fun _ _ => ⟨sameRegistry_of_eq rfl rfl, fun _ off => off⟩

/-- After the system is suspended all live threads stay stopped through packets that do not
    resume it exactly when no packet writes the registers of a live thread. -/
theorem all_stopped_along_iff (ok : ThreadCallsSucceed) {s : State} (packets : List (List Byte))
    (quiet : Guarded packetStep ReturnsFalse packets (after suspendSystem s)) :
    Along packetStep AllStopped packets (after suspendSystem s) ↔
      Guarded packetStep StartsNoThread packets (after suspendSystem s) :=
  along_iff_guarded (fun _ => True) ReturnsFalse (fun _ _ _ _ => trivial)
    (fun _ _ _ returns stopped => packetStep_stopped_iff ok returns stopped) packets _ trivial
    (suspendSystem_stops ok s) quiet

omit [Machine] in
theorem obliging_threadCalls : letI := obligingBoard
    ThreadCallsSucceed :=
  let _ := obligingBoard
  ⟨fun _ _ => rfl, fun _ _ => rfl, fun _ _ _ _ => rfl⟩

omit [Machine] in
theorem solo_all_stopped : letI := obligingBoard
    Along packetStep AllStopped [[chr 'g', 0]] (after suspendSystem soloState) := by
  let _ := obligingBoard
  obtain ⟨k, run, _⟩ := suspendSystem_run obliging_threadCalls soloState
  have target : (after suspendSystem soloState).targetThread = some ⟨0, 0⟩ := by
    rw [after_ok run]
    rfl
  obtain ⟨u, read, _⟩ := readRegsPacket_run obliging_registerCalls target [0]
  have quiet : Guarded packetStep ReturnsFalse [[chr 'g', 0]] (after suspendSystem soloState) :=
    ⟨value_ok read, trivial⟩
  exact (all_stopped_along_iff obliging_threadCalls _ quiet).mpr
    ⟨fun writes => absurd writes (by decide), trivial⟩

omit [Machine] in
/-- A `G` packet starts the thread whose registers it writes. -/
theorem written_thread_runs : letI := obligingBoard
    ¬ ∀ s, Reachable s → ∀ packets, Guarded packetStep ReturnsFalse packets
      (after suspendSystem s) →
      Along packetStep AllStopped packets (after suspendSystem s) := by
  let _ := obligingBoard
  intro all
  obtain ⟨k, run, _⟩ := suspendSystem_run obliging_threadCalls soloState
  have target : (after suspendSystem soloState).targetThread = some ⟨0, 0⟩ := by
    rw [after_ok run]
    rfl
  have live : (after suspendSystem soloState).live ⟨0, 0⟩ = true := by
    rw [after_ok run]
    rfl
  obtain ⟨u, write, _⟩ := writeRegsPacket_run obliging_registerCalls target
    ⟨fun _ => 0, 0, 0, 0, 0, 0⟩ []
  have returns : ReturnsFalse (after suspendSystem soloState) _ := value_ok write
  have stopped := (all soloState solo_registered.reachable [_] ⟨returns, trivial⟩).1
  have starts := (packetStep_stopped_iff obliging_threadCalls returns
    (suspendSystem_stops obliging_threadCalls soloState)).mp stopped
  exact starts rfl _ target _ live rfl

end Libgdb
