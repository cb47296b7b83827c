import Libgdb.ReplyText
import Libgdb.ResumeEffects

/-!
The event loop of apps/debugger/debugger.c around a vCont packet. The dispatcher returns true for
every vCont, and the loop sends the reply buffer only where it returned false or the host detached,
so the error for an action that is not supported stays in the buffer.
-/
namespace Libgdb
open ByteMemory CheckedPrograms
variable [Machine]

def isInterrupt (input : List Byte) : Stub Bool := do
  let c ← liftParse (peek input)
  return c = 3

/-- One round of `event_loop` on the text `get_packet` returned, with the text `put_packet` is
    called on, if it is. -/
def eventLoopRound (input : List Byte) : Stub (Option (List Byte)) := do
  let s ← get
  let interrupted ← if s.detached then pure true else isInterrupt input
  if interrupted then
    suspendSystem
    modify fun s : State => { s with detached := false }
  let resume ← gdbHandlePacket input
  let s ← get
  let sent := if !resume || s.detached then some s.reply else none
  if resume then
    resumeSystem
  return sent

/-- A packet is rejected without effect: it is answered with an error, wake-up flags, single-step
    states and handled marks are as before, and no thread is resumed. -/
def RejectedCleanly (s : State) (input : List Byte) : Prop :=
  ∃ sent u, (eventLoopRound input).run s = .ok sent u ∧ sent = some (str "E04") ∧
    (∀ t, (u.thread t).wakeup = (s.thread t).wakeup ∧
      (u.thread t).ssEnabled = (s.thread t).ssEnabled ∧
      u.handled t.pd t.slot = s.handled t.pd t.slot) ∧
    (∀ tcb, (u.kernel.tcb tcb).singleStepping = (s.kernel.tcb tcb).singleStepping) ∧
    ∃ made, u.kernel.calls = made ++ s.kernel.calls ∧ ∀ tcb, KernelCall.tcbResume tcb ∉ made

/- Before the packet. -/

def State.attached (s : State) (k : Kernel) : State := { s.withKernel k with detached := false }

theorem sameRegistry_attached (s : State) (k : Kernel) : SameRegistry s (s.attached k) :=
  sameRegistry_of_eq rfl rfl

theorem suspendSystem_kernel (s : State) : ∃ k, suspendSystem.run s = .ok () (s.withKernel k) := by
  obtain ⟨k, run, _⟩ := callThreads_calls (fun s t => s.live t) .tcbSuspend (fun _ _ _ =>
      rfl) threadRefs s
  exact ⟨k, run⟩

theorem eventLoopRound_attached {input : List Byte} {c : Byte} (head : peek input = .ok c)
    (other : c ≠ 3) (s : State) :
    ∃ k, (eventLoopRound input).run s = (do
      let resume ← gdbHandlePacket input
      let s ← get
      let sent := if !resume || s.detached then some s.reply else none
      if resume then
        resumeSystem
      return sent : Stub (Option (List Byte))).run (s.attached k) := by
  unfold eventLoopRound
  rw [run_bind_ok (EStateM.run_get s)]
  by_cases detached : s.detached = true
  · obtain ⟨k, suspended⟩ := suspendSystem_kernel s
    refine ⟨k, ?_⟩
    rw [if_pos detached, pure_bind]
    dsimp only
    rw [if_pos rfl, run_bind_ok suspended]
    rfl
  · refine ⟨s.kernel, ?_⟩
    have same : s.attached s.kernel = s := by
      rw [Bool.not_eq_true] at detached
      rw [State.attached, ← detached]
      rfl
    have undisturbed : (isInterrupt input).run s = .ok false s := by
      rw [isInterrupt, run_bind_ok (liftParse_run head s), decide_eq_false other]
      rfl
    rw [if_neg detached, run_bind_ok undisturbed, same]
    rfl

/- vCont packets. -/

theorem script_detached (script : List VcontAction) (s : State) :
    (script.foldl applyAction s).detached = s.detached := by
  refine script_keeps (f := State.detached) (fun s b => rfl) (fun stepping s t => ?_) script s
  unfold touchThread
  split <;> rfl

def scriptEnd (s : State) (script : List VcontAction) (supported : Bool) : State :=
  let t := (script.foldl applyAction (scriptStart s)).draw (2 * (scriptIds script).length)
  if supported = true then t else t.lay 0 (str "E04")

theorem scriptEnd_detached (s : State) (script : List VcontAction) (supported : Bool) :
    (scriptEnd s script supported).detached = s.detached := by
  have applied : ((script.foldl applyAction (scriptStart s)).draw
      (2 * (scriptIds script).length)).detached = s.detached :=
    script_detached script _
  unfold scriptEnd
  split
  · exact applied
  · exact applied

/-- A round on a vCont packet applies the actions in front of the first that is not supported, and
    sends nothing. -/
theorem vcontRound_outcome {s u : State} (ok : RegistryOk s) {rest : List Byte}
    {sent : Option (List Byte)}
    (returns : (eventLoopRound (str "vCont;" ++ rest)).run s = .ok sent u) :
    ∃ script supported k k', readScript s (str "vCont;" ++ rest) = .ok (script, supported) ∧
    ScriptReach s script ∧
      sent = none ∧ u = (scriptEnd (s.attached k) script supported).withKernel k' := by
  have head : peek (str "vCont;" ++ rest) = .ok (chr 'v') := rfl
  obtain ⟨k, round⟩ := eventLoopRound_attached head (by decide) s
  rw [round] at returns
  obtain ⟨resume, v, handled, answered⟩ := ok_bind_run returns
  have same := sameRegistry_attached s k
  obtain ⟨script, supported, read, reach, rfl, rfl⟩ :=
    vcont_outcome (registryOk_of_same same ok) handled
  have attached : (scriptEnd (s.attached k) script supported).detached = false :=
    scriptEnd_detached _ _ _
  change ((do
    let s ← get
    let sent := if !true || s.detached then some s.reply else none
    if true = true then
      resumeSystem
    return sent : Stub (Option (List Byte))).run (scriptEnd (s.attached k) script supported)) =
      .ok sent u at answered
  obtain ⟨k', resumed, _⟩ := resumeSystem_calls (scriptEnd (s.attached k) script supported)
  rw [run_bind_ok (EStateM.run_get _), if_pos rfl, run_bind_ok resumed, attached] at answered
  cases answered
  exact ⟨script, supported, k, k', read, fun a mem one mem' =>
    (idsInRange_of_same same _ _ _).mp (reach a mem one mem'),
    rfl, rfl⟩

theorem rejectedRound_outcome {s u : State} (ok : RegistryOk s) {rest : List Byte}
    {script : List VcontAction}
    (rejected : readScript s (str "vCont;" ++ rest) = .ok (script, false))
    {sent : Option (List Byte)}
    (returns : (eventLoopRound (str "vCont;" ++ rest)).run s = .ok sent u) :
    sent = none ∧ u.reply = str "E04" ∧
      ∃ k, ∀ t, u.thread t = (script.foldl applyAction (scriptStart (s.attached k))).thread t := by
  obtain ⟨script', supported, k, k', read, _, silent, rfl⟩ := vcontRound_outcome ok returns
  cases rejected.symm.trans read
  exact ⟨silent, lay_reply _ (str "E04") (by decide) (by decide), k, fun t => rfl⟩

/-- No rejected vCont is answered: the property holds of none. -/
theorem rejected_never_cleanly {s : State} (reachable : Reachable s) {rest : List Byte}
    {script : List VcontAction}
    (rejected : readScript s (str "vCont;" ++ rest) = .ok (script, false)) :
    ¬ RejectedCleanly s (str "vCont;" ++ rest) := by
  rintro ⟨sent, u, returns, answered, _⟩
  obtain ⟨silent, _⟩ := rejectedRound_outcome (reachable_ok reachable) rejected returns
  rw [silent] at answered
  cases answered

omit [Machine] in
theorem signal_continue_rejected : letI := obligingBoard
    readScript soloState (str "vCont;" ++ (str "C05" ++ [0])) = .ok ([], false) := by
  let _ := obligingBoard
  decide +kernel

omit [Machine] in
theorem solo_never_cleanly : letI := obligingBoard
    ¬ RejectedCleanly soloState (str "vCont;" ++ (str "C05" ++ [0])) := by
  let _ := obligingBoard
  exact rejected_never_cleanly solo_registered.reachable signal_continue_rejected

omit [Machine] in
/-- `vCont;C05` returns from its round with nothing sent. -/
theorem rejection_not_sent : letI := obligingBoard
    ¬ ∀ s, Reachable s → ∀ rest script, readScript s (str "vCont;" ++ rest) = .ok (script, false) →
      RejectedCleanly s (str "vCont;" ++ rest) := by
  let _ := obligingBoard
  intro all
  obtain ⟨sent, u, returns, answered, _⟩ :=
    all soloState solo_registered.reachable (str "C05" ++ [0]) [] signal_continue_rejected
  obtain ⟨silent, _⟩ := rejectedRound_outcome (reachable_ok solo_registered.reachable)
      signal_continue_rejected returns
  rw [silent] at answered
  cases answered

end Libgdb
