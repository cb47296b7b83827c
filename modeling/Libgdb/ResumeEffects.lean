import Libgdb.Library.KeyedUpdates
import Libgdb.Library.RefusedCalls
import Libgdb.ResumeScripts

/-!
What a vCont packet leaves behind: the wake-up flags its last action sets, and for each TCB the
last single-step call that is not refused. A thread is touched by the leftmost action that
addresses its slot and by no other.
-/
namespace Libgdb
open ByteMemory KeyedUpdates RefusedCalls CheckedPrograms
variable [Machine]

/- One touch. -/

def State.fresh (s : State) (t : ThreadRef) : Bool := (s.thread t).enabled && !s.handled t.pd t.slot

def stepCall (c : Word × Bool) : KernelCall := .tcbConfigureSingleStepping c.1 c.2.toNat

theorem fresh_iff {s : State} {t : ThreadRef} :
    s.fresh t = true ↔ (s.thread t).enabled = true ∧ s.handled t.pd t.slot = false := by
  simp [State.fresh]

theorem touch_stale {s : State} {t : ThreadRef} (stale : s.fresh t = false) (stepping : Bool) :
    touchThread stepping s t = s := by
  rw [touchThread, if_neg]
  rw [← fresh_iff, stale]
  decide

theorem touch_thread (stepping : Bool) (s : State) (t r : ThreadRef) :
    (touchThread stepping s t).thread r =
      if s.fresh t = true ∧ r = t then
        { s.thread r with wakeup := true, ssEnabled := stepping || (s.thread r).ssEnabled }
      else s.thread r := by
  cases fresh : s.fresh t with
  | false => simp [touch_stale fresh]
  | true =>
    rw [touchThread, if_pos (fresh_iff.mp fresh)]
    by_cases here : r = t
    · subst here
      rw [if_pos ⟨rfl, rfl⟩]
      exact setThread_thread s r _
    · rw [if_neg fun h => here h.2]
      exact setThread_other s t _ here

theorem touch_fresh (stepping : Bool) (s : State) (t : ThreadRef) :
    (touchThread stepping s t).fresh = Function.update s.fresh t false := by
  cases fresh : s.fresh t with
  | false => rw [touch_stale fresh, ← fresh, Function.update_eq_self]
  | true =>
    funext r
    have enabled : ((touchThread stepping s t).thread r).enabled = (s.thread r).enabled := by
      rw [touch_thread]
      split <;> rfl
    rw [State.fresh, enabled, touchThread, if_pos (fresh_iff.mp fresh)]
    obtain ⟨tpd, tslot⟩ := t
    obtain ⟨pd, slot⟩ := r
    by_cases here : pd = tpd
    · subst here
      by_cases there : slot = tslot
      · subst there
        simp
      · have other : ThreadRef.mk pd slot ≠ ⟨pd, tslot⟩ :=
          fun same => there (ThreadRef.mk.inj same).2
        rw [Function.update_of_ne other]
        simp [State.fresh, Function.update_of_ne there]
    · have other : ThreadRef.mk pd slot ≠ ⟨tpd, tslot⟩ := fun same => here (ThreadRef.mk.inj same).1
      rw [Function.update_of_ne other]
      simp [State.fresh, Function.update_of_ne here]

theorem touch_kernel (stepping : Bool) (s : State) (t : ThreadRef) :
    (touchThread stepping s t).kernel =
      if s.fresh t = true then s.kernel.record (stepCall ((s.thread t).tcb, stepping))
        else s.kernel := by
  cases fresh : s.fresh t with
  | false => simp [touch_stale fresh]
  | true =>
    rw [touchThread, if_pos (fresh_iff.mp fresh), if_pos rfl]
    rfl

/- The touches of one action. -/

theorem touches_thread (stepping : Bool) (ts : List ThreadRef) (s : State) (r : ThreadRef) :
    (ts.foldl (touchThread stepping) s).thread r =
      if s.fresh r = true ∧ r ∈ ts then
        { s.thread r with wakeup := true, ssEnabled := stepping || (s.thread r).ssEnabled }
      else s.thread r := by
  induction ts generalizing s with
  | nil => simp
  | cons t ts ih =>
    rw [List.foldl_cons, ih, touch_fresh, touch_thread]
    by_cases here : r = t
    · subst here
      simp
    · simp [here]

theorem touches_fresh (stepping : Bool) (ts : List ThreadRef) (s : State) (r : ThreadRef) :
    (ts.foldl (touchThread stepping) s).fresh r = (s.fresh r && !decide (r ∈ ts)) := by
  induction ts generalizing s with
  | nil => simp
  | cons t ts ih =>
    rw [List.foldl_cons, ih, touch_fresh]
    by_cases here : r = t
    · subst here
      simp
    · simp [here]

def touchCalls (s : State) (stepping : Bool) (ts : List ThreadRef) : List (Word × Bool) :=
  (firsts s.fresh ts).map fun t => ((s.thread t).tcb, stepping)

def Kernel.steps (k : Kernel) (calls : List (Word × Bool)) : Kernel :=
  calls.foldl (fun k c => k.record (stepCall c)) k

theorem touches_kernel (stepping : Bool) (ts : List ThreadRef) (s : State) :
    (ts.foldl (touchThread stepping) s).kernel = s.kernel.steps (touchCalls s stepping ts) := by
  induction ts generalizing s with
  | nil => rfl
  | cons t ts ih =>
    rw [List.foldl_cons, ih, touch_kernel, touchCalls, touchCalls, touch_fresh, firsts]
    have tcbs (r : ThreadRef) : ((touchThread stepping s t).thread r).tcb = (s.thread r).tcb := by
      rw [touch_thread]
      split <;> rfl
    simp only [tcbs]
    cases fresh : s.fresh t with
    | true => rfl
    | false =>
      have same : Function.update s.fresh t false = s.fresh := by
        rw [← fresh, Function.update_eq_self]
      rw [same, if_neg (by decide), if_neg (by decide)]

theorem steps_append (k : Kernel) (first second : List (Word × Bool)) :
    k.steps (first ++ second) = (k.steps first).steps second := List.foldl_append

/-- The last call on a TCB that is not refused decides whether it steps. -/
theorem steps_singleStepping (k : Kernel) (calls : List (Word × Bool)) (x : Word) :
    ((k.steps calls).tcb x).singleStepping =
      lastValue x (k.tcb x).singleStepping (unrefused Machine.fails stepCall k.calls calls) := by
  induction calls generalizing k with
  | nil => rfl
  | cons c calls ih =>
    refine (ih (k.record (stepCall c))).trans ?_
    rw [unrefused]
    cases fails : Machine.fails k.calls (stepCall c) with
    | true =>
      rw [if_pos rfl, record_of_fail fails]
    | false =>
      rw [if_neg (by decide), record_of_ok fails, lastValue]
      congr 1
      by_cases here : x = c.1
      · subst here
        cases c with
        | mk x b => cases b <;> simp [stepCall, KernelCall.effect, Kernel.updateTcb]
      · simp [stepCall, KernelCall.effect, Kernel.updateTcb,
          Function.update_of_ne here, Ne.symm here]

/- Scripts. -/

theorem allWakeup_thread (s : State) (wakeup : Bool) (t : ThreadRef) :
    (setAllWakeup s wakeup).thread t =
      if s.live t = true then { s.thread t with wakeup := wakeup } else s.thread t := by
  unfold setAllWakeup State.thread State.live
  by_cases inferior : (s.inferiors t.pd).enabled = true
  · by_cases thread : ((s.inferiors t.pd).threads t.slot).enabled = true
    · simp [inferior, thread, State.thread]
    · simp [inferior, thread, State.thread]
  · simp [inferior]

theorem allWakeup_fresh (s : State) (wakeup : Bool) : (setAllWakeup s wakeup).fresh = s.fresh := by
  funext t
  rw [State.fresh, State.fresh, allWakeup_thread]
  split <;> rfl

theorem allWakeup_tcb (s : State) (wakeup : Bool) (t : ThreadRef) :
    ((setAllWakeup s wakeup).thread t).tcb = (s.thread t).tcb := by
  rw [allWakeup_thread]
  split <;> rfl

def VcontAction.addresses (a : VcontAction) (t : ThreadRef) : Bool := decide (t ∈ idsThreads a.ids)

def leftmost (script : List VcontAction) (t : ThreadRef) : Option Bool :=
  (script.find? fun a => a.addresses t).map VcontAction.stepping

theorem applyAction_fresh (s : State) (a : VcontAction) (t : ThreadRef) :
    (applyAction s a).fresh t = (s.fresh t && !a.addresses t) := by
  rw [applyAction, touches_fresh, allWakeup_fresh]
  rfl

theorem applyAction_tcb (s : State) (a : VcontAction) (t : ThreadRef) :
    ((applyAction s a).thread t).tcb = (s.thread t).tcb := (sameRegistry_action s a).tcb t

theorem applyAction_wakeup {s : State} {t : ThreadRef} (live : s.live t = true) (a : VcontAction) :
    ((applyAction s a).thread t).wakeup = (!a.stepping || s.fresh t && a.addresses t) := by
  rw [applyAction, touches_thread, allWakeup_fresh, allWakeup_thread, if_pos live]
  cases fresh : s.fresh t with
  | false => simp
  | true =>
    by_cases mem : t ∈ idsThreads a.ids
    · simp [VcontAction.addresses, mem]
    · simp [VcontAction.addresses, mem]

theorem applyAction_ssEnabled (s : State) (a : VcontAction) (t : ThreadRef) :
    ((applyAction s a).thread t).ssEnabled =
      ((s.thread t).ssEnabled || s.fresh t && a.addresses t && a.stepping) := by
  have before : ((setAllWakeup s (!a.stepping)).thread t).ssEnabled = (s.thread t).ssEnabled := by
    rw [allWakeup_thread]
    split <;> rfl
  rw [applyAction, touches_thread, allWakeup_fresh]
  cases fresh : s.fresh t with
  | false => simp [before]
  | true =>
    by_cases mem : t ∈ idsThreads a.ids
    · simp [VcontAction.addresses, mem, before, Bool.or_comm]
    · simp [VcontAction.addresses, mem, before]

def scriptCalls (s : State) : (fresh : ThreadRef → Bool) → List VcontAction → List (Word × Bool)
  | _, [] => []
  | fresh, a :: script =>
      ((firsts fresh (idsThreads a.ids)).map fun t => ((s.thread t).tcb, a.stepping)) ++
        scriptCalls s (fun t => fresh t && !a.addresses t) script

theorem scriptCalls_of_tcb {s u : State} (same : ∀ t, (u.thread t).tcb = (s.thread t).tcb)
    (fresh : ThreadRef → Bool) (script : List VcontAction) :
    scriptCalls u fresh script = scriptCalls s fresh script := by
  induction script generalizing fresh with
  | nil => rfl
  | cons a script ih => simp only [scriptCalls, same, ih]

theorem applyAction_kernel (s : State) (a : VcontAction) :
    (applyAction s a).kernel =
      s.kernel.steps ((firsts s.fresh (idsThreads a.ids)).map fun t =>
        ((s.thread t).tcb, a.stepping)) := by
  rw [applyAction, touches_kernel, touchCalls, allWakeup_fresh]
  simp only [allWakeup_tcb]
  rfl

theorem script_kernel (script : List VcontAction) (s : State) :
    (script.foldl applyAction s).kernel = s.kernel.steps (scriptCalls s s.fresh script) := by
  induction script generalizing s with
  | nil => rfl
  | cons a script ih =>
    have fresh : (applyAction s a).fresh = fun t => s.fresh t && !a.addresses t :=
      funext fun t => applyAction_fresh s a t
    rw [List.foldl_cons, ih, applyAction_kernel, scriptCalls_of_tcb (applyAction_tcb s a),
      fresh, scriptCalls,
      steps_append]

theorem script_fresh (script : List VcontAction) (s : State) (t : ThreadRef) :
    (script.foldl applyAction s).fresh t = (s.fresh t && script.all fun a => !a.addresses t) := by
  induction script generalizing s with
  | nil => simp
  | cons a script ih => rw [List.foldl_cons, ih, applyAction_fresh, List.all_cons, Bool.and_assoc]

omit [Machine] in
theorem leftmost_cons (a : VcontAction) (script : List VcontAction) (t : ThreadRef) :
    leftmost (a :: script) t = if a.addresses t = true then some a.stepping
    else leftmost script t := by
  rw [leftmost, List.find?_cons]
  cases a.addresses t <;> rfl

theorem script_ssEnabled (script : List VcontAction) (s : State) (t : ThreadRef) :
    ((script.foldl applyAction s).thread t).ssEnabled =
      ((s.thread t).ssEnabled || s.fresh t && decide (leftmost script t = some true)) := by
  induction script generalizing s with
  | nil => simp [leftmost]
  | cons a script ih =>
    rw [List.foldl_cons, ih, applyAction_ssEnabled, applyAction_fresh, leftmost_cons]
    cases a.addresses t with
    | true => cases a.stepping <;> simp
    | false => simp

/-- A thread is left to be woken up when the last action continues, or is the first for it. -/
def LeftAwake (script : List VcontAction) (t : ThreadRef) : Prop :=
  ∃ earlier last, script = earlier ++ [last] ∧
    (last.stepping = false ∨ last.addresses t = true ∧ ∀ a ∈ earlier, a.addresses t = false)

theorem script_wakeup {script : List VcontAction} (nonempty : script ≠ []) {s : State}
    {t : ThreadRef} (live : s.live t = true) (fresh : s.fresh t = true) :
    ((script.foldl applyAction s).thread t).wakeup = true ↔ LeftAwake script t := by
  obtain ⟨earlier, last, rfl⟩ := List.eq_nil_or_concat' script |>.resolve_left nonempty
  have live' : (earlier.foldl applyAction s).live t = true := by
    rw [(sameRegistry_script earlier s).live, live]
  rw [List.foldl_append, List.foldl_cons, List.foldl_nil, applyAction_wakeup live',
    script_fresh, fresh]
  constructor
  · intro woken
    refine ⟨earlier, last, rfl, ?_⟩
    simpa [and_comm] using woken
  · rintro ⟨earlier', last', split, woken⟩
    obtain ⟨rfl, same⟩ := List.append_inj' split rfl
    obtain rfl := (List.cons.inj same).1
    simpa [and_comm] using woken

/- Packets. -/

def VcontId.names (s : State) (id : VcontId) (t : ThreadRef) : Prop :=
  id.procId.toInt = -1 ∨ id.procId.toInt = (s.inferiors t.pd).gdbId.toNat ∧
    (id.threadId.toInt = -1 ∨ id.threadId.toInt = (s.thread t).gdbId.toNat)

def VcontAction.matches (s : State) (a : VcontAction) (t : ThreadRef) : Prop :=
  ∃ id ∈ a.ids, id.names s t

/-- The single-step calls of a packet that the kernel does not refuse, in order. -/
def madeCalls (s : State) (script : List VcontAction) : List (Word × Bool) :=
  unrefused Machine.fails stepCall s.kernel.calls
    (scriptCalls s (fun t => (s.thread t).enabled) script)

def LastCall (calls : List (Word × Bool)) (tcb : Word) (stepping : Bool) : Prop :=
  ∃ earlier later, calls = earlier ++ (tcb, stepping) :: later ∧ ∀ c ∈ later, c.1 ≠ tcb

omit [Machine] in
theorem lastCall_iff {calls : List (Word × Bool)} {tcb : Word} {before b : Bool}
    (some : ∃ c ∈ calls, c.1 = tcb) :
    lastValue tcb before calls = b ↔ LastCall calls tcb b := by
  obtain ⟨c, mem, same⟩ := some
  rw [lastValue_eq_iff]
  exact or_iff_right fun none => none.1 c mem same

theorem start_fresh (s : State) : (scriptStart s).fresh = fun t => (s.thread t).enabled := by
  funext t
  exact Bool.and_true _

theorem script_nonempty {s : State} {rest : List Byte} {script : List VcontAction}
    (read : readScript s (str "vCont;" ++ rest) = .ok (script, true)) : script ≠ [] := by
  rintro rfl
  unfold readScript at read
  rw [readActions, show peek ((str "vCont;" ++ rest).drop 5) = .ok (chr ';') from rfl, ok_bind,
    if_neg (by decide),
    assertParse, if_pos rfl, ok_bind] at read
  obtain ⟨action, _, read⟩ := bind_ok read
  by_cases known : action = chr 's' ∨ action = chr 'c'
  · rw [if_pos known] at read
    obtain ⟨_, _, read⟩ := bind_ok read
    obtain ⟨_, _, made⟩ := bind_ok read
    cases made
  · rw [if_neg known] at read
    cases read

theorem vcont_outcome {s u : State} (ok : RegistryOk s) {rest : List Byte} {b : Bool}
    (returns : (gdbHandlePacket (str "vCont;" ++ rest)).run s = .ok b u) :
    ∃ script supported, readScript s (str "vCont;" ++ rest) = .ok (script, supported) ∧ ScriptReach s script ∧
      b = true ∧ u = (let t := (script.foldl applyAction (scriptStart s)).draw (2 * (scriptIds script).length)
        if supported = true then t else t.lay 0 (str "E04")) := by
  obtain ⟨script, supported, read, reach⟩ := vcont_returns ok returns
  cases returns.symm.trans (vcont_run ok read reach)
  exact ⟨script, supported, read, reach, rfl, rfl⟩

theorem vcont_after {s : State} (ok : RegistryOk s) {rest : List Byte} {script : List VcontAction}
    (read : readScript s (str "vCont;" ++ rest) = .ok (script, true))
    (returns : value (gdbHandlePacket (str "vCont;" ++ rest)) s = some true) :
    after (gdbHandlePacket (str "vCont;" ++ rest)) s =
      (script.foldl applyAction (scriptStart s)).draw (2 * (scriptIds script).length) := by
  obtain ⟨script', supported, read', _, _, ends⟩ := vcont_outcome ok (run_of_some returns)
  cases read.symm.trans read'
  exact ends

theorem vcont_sameRegistry {s : State} (script : List VcontAction) (n : Nat) :
    SameRegistry s ((script.foldl applyAction (scriptStart s)).draw n) :=
  IsTrans.trans _ _ _ (sameRegistry_start s)
    (IsTrans.trans _ _ _ (sameRegistry_script script _) (sameRegistry_draw _ n))

theorem vcont_singleStepping (s : State) (script : List VcontAction) (n : Nat) (x : Word) :
    (((script.foldl applyAction (scriptStart s)).draw n).kernel.tcb x).singleStepping =
      lastValue x (s.kernel.tcb x).singleStepping (madeCalls s script) := by
  have kernel := script_kernel script (scriptStart s)
  have calls := scriptCalls_of_tcb (s := s) (u := scriptStart s) (fun t => rfl)
      (fun t => (s.thread t).enabled) script
  rw [start_fresh, calls] at kernel
  rw [State.draw, kernel]
  exact steps_singleStepping s.kernel _ x

end Libgdb
