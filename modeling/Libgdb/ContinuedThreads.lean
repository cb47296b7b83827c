import Libgdb.ResumeEffects

/-!
Continued threads. A vCont packet wakes threads up that none of its ids name, but it makes a
single-step call for the threads its ids address only: a thread an earlier packet stepped goes on
stepping.
-/
namespace Libgdb
open ByteMemory KeyedUpdates RefusedCalls CheckedPrograms
variable [Machine]

def Unstepped (s : State) (script : List VcontAction) (t : ThreadRef) : Prop :=
  ∀ a ∈ script, a.stepping = true → ¬ a.matches s t

/-- The live threads left to be woken up that no step action matches do not step. -/
def ContinuesWoken (s : State) (script : List VcontAction) : Prop :=
  ∀ t, s.live t = true → (s.thread t).wakeup = true → Unstepped s script t →
    (s.kernel.tcb (s.thread t).tcb).singleStepping = false

/-- The last single-step call on the TCB turns stepping off, or it was off and stays untouched. -/
def CallsStop (s : State) (script : List VcontAction) (tcb : Word) : Prop :=
  ((∀ c ∈ madeCalls s script, c.1 ≠ tcb) ∧ (s.kernel.tcb tcb).singleStepping = false) ∨
  ∃ earlier later, madeCalls s script = earlier ++ (tcb, false) :: later ∧ ∀ c ∈ later, c.1 ≠ tcb

theorem unstepped_of_same {s u : State} (same : SameRegistry s u) (script : List VcontAction)
    (t : ThreadRef) :
    Unstepped u script t ↔ Unstepped s script t := by
  simp only [Unstepped, VcontAction.matches, VcontId.names, same.gdbId, same.threadGdbId]

theorem callsStop_iff (s : State) (script : List VcontAction) (tcb : Word) :
    lastValue tcb (s.kernel.tcb tcb).singleStepping (madeCalls s script) = false ↔
    CallsStop s script tcb :=
  lastValue_eq_iff

/-- A packet leaves the threads it continues without single-stepping exactly when, for each, the
    last single-step call on its TCB is a continue's, or there is none and it was not stepping. -/
theorem continues_iff {s : State} (reachable : Reachable s) {rest : List Byte}
    {script : List VcontAction} (read : readScript s (str "vCont;" ++ rest) = .ok (script, true))
    (returns : value (gdbHandlePacket (str "vCont;" ++ rest)) s = some true) :
    ContinuesWoken (after (gdbHandlePacket (str "vCont;" ++ rest)) s) script ↔
      ∀ t, s.live t = true → LeftAwake script t → Unstepped s script t →
        CallsStop s script (s.thread t).tcb := by
  have ok := reachable_ok reachable
  rw [vcont_after ok read returns]
  have same : SameRegistry s _ := vcont_sameRegistry script (2 * (scriptIds script).length)
  unfold ContinuesWoken
  refine forall_congr' fun t => ?_
  rw [same.live, same.tcb, unstepped_of_same same, vcont_singleStepping, callsStop_iff]
  refine imp_congr_right fun live => ?_
  have fresh : (scriptStart s).fresh t = true := by
    rw [start_fresh]
    exact (Bool.and_eq_true_iff.mp live).2
  have woken := script_wakeup (script_nonempty read) (s := scriptStart s) (t := t) live fresh
  exact imp_congr_left woken

omit [Machine] in
/-- `vCont;s:p1.1;c:p2.1` steps the first inferior's thread and continues the second's. -/
theorem duo_continues : letI := obligingBoard
    ContinuesWoken (after (gdbHandlePacket (str "vCont;" ++ (str "s:p1.1;c:p2.1" ++ [0]))) duoState)
      [⟨true, [⟨1, 1⟩]⟩, ⟨false, [⟨2, 1⟩]⟩] := by
  let _ := obligingBoard
  have read : readScript duoState (str "vCont;" ++ (str "s:p1.1;c:p2.1" ++ [0])) =
      .ok ([⟨true, [⟨1, 1⟩]⟩, ⟨false, [⟨2, 1⟩]⟩], true) := by decide +kernel
  have returns : value (gdbHandlePacket (str "vCont;" ++ (str "s:p1.1;c:p2.1" ++ [0]))) duoState =
      some true := by
    decide +kernel
  have calls : madeCalls duoState [⟨true, [⟨1, 1⟩]⟩, ⟨false, [⟨2, 1⟩]⟩] =
      [(5, true), (6, false)] := by
    decide +kernel
  have stepped : (⟨true, [⟨1, 1⟩]⟩ : VcontAction).matches duoState ⟨0, 0⟩ :=
    ⟨⟨1, 1⟩, List.mem_singleton_self _, Or.inr ⟨by decide +kernel, Or.inr (by decide +kernel)⟩⟩
  have tcb : (duoState.thread ⟨1, 0⟩).tcb = 6 := by decide +kernel
  refine (continues_iff duo_registered.reachable read returns).mpr fun t live _ unstepped => ?_
  rcases duo_live t live with rfl | rfl
  · rw [tcb, CallsStop, calls]
    exact Or.inr ⟨[(5, true)], [], rfl, by simp⟩
  · exact absurd stepped (unstepped _ List.mem_cons_self rfl)

/- Two inferiors. -/

theorem not_continues {s : State} {script : List VcontAction} {t : ThreadRef}
    (live : s.live t = true)
    (woken : (s.thread t).wakeup = true) (continues : ∀ a ∈ script, a.stepping = false)
    (steps : (s.kernel.tcb (s.thread t).tcb).singleStepping = true) :
    ¬ ContinuesWoken s script := by
  intro all
  have unstepped : Unstepped s script t := by
    intro a mem stepping
    rw [continues a mem] at stepping
    cases stepping
  rw [all t live woken unstepped] at steps
  cases steps

def steppedDuo : @State obligingBoard :=
  let _ := obligingBoard
  after (Event.packet (str "vCont;s:p2.1" ++ [0])).run duoState

omit [Machine] in
theorem stepped_reachable : letI := obligingBoard
    Reachable steppedDuo := by
  let _ := obligingBoard
  have returns : (Event.packet (str "vCont;s:p2.1" ++ [0])).run.run duoState = .ok () steppedDuo :=
    run_of_value (by decide +kernel)
  exact .step (.packet (str "vCont;s:p2.1" ++ [0])) duo_registered.reachable returns

def wokenDuo : @State obligingBoard :=
  let _ := obligingBoard
  after (gdbHandlePacket (str "vCont;" ++ (str "c:p1.1" ++ [0]))) steppedDuo

omit [Machine] in
/-- `vCont;c:p1.1` after `vCont;s:p2.1` wakes the second inferior's thread up, still stepping. -/
theorem woken_thread_steps : letI := obligingBoard
    ¬ ∀ s, Reachable s → ∀ rest script, readScript s (str "vCont;" ++ rest) = .ok (script, true) →
      value (gdbHandlePacket (str "vCont;" ++ rest)) s = some true →
      ContinuesWoken (after (gdbHandlePacket (str "vCont;" ++ rest)) s) script := by
  let _ := obligingBoard
  intro all
  have read : readScript steppedDuo (str "vCont;" ++ (str "c:p1.1" ++ [0])) =
      .ok ([⟨false, [⟨1, 1⟩]⟩], true) := by
    decide +kernel
  have returns : value (gdbHandlePacket (str "vCont;" ++ (str "c:p1.1" ++ [0]))) steppedDuo =
      some true := by
    decide +kernel
  have live : wokenDuo.live ⟨1, 0⟩ = true := by decide +kernel
  have woken : (wokenDuo.thread ⟨1, 0⟩).wakeup = true := by decide +kernel
  have stepping : (wokenDuo.kernel.tcb (wokenDuo.thread ⟨1, 0⟩).tcb).singleStepping = true := by
    decide +kernel
  have continues := all steppedDuo stepped_reachable (str "c:p1.1" ++ [0])
      [⟨false, [⟨1, 1⟩]⟩] read returns
  change ContinuesWoken wokenDuo [⟨false, [⟨1, 1⟩]⟩] at continues
  generalize wokenDuo = s at live woken stepping continues
  exact not_continues live woken (by simp) stepping continues

end Libgdb
