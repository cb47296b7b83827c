import Libgdb.Library.GuardedRuns
import Libgdb.IdLookups

/-!
The target thread over whole runs. Registration and faults point it at live threads; an exit
of the target leaves it behind, and an `H` packet stores what its lookup finds, unchecked.
-/
namespace Libgdb
open ByteMemory SlotTables CheckedPrograms GuardedRuns
variable [Machine]

/-- The target is an enabled thread of the enabled inferior that its back pointer names. -/
def TargetLive (s : State) : Prop :=
  ∃ t, s.targetThread = some t ∧ (s.thread t).enabled = true ∧
    (s.inferiors t.pd).enabled = true ∧ (s.thread t).inferior = some t.pd

theorem targetLive_iff {s : State} (ok : RegistryOk s) :
    TargetLive s ↔ ∃ t, s.targetThread = some t ∧ (s.thread t).enabled = true := by
  constructor
  · rintro ⟨t, target, enabled, _⟩
    exact ⟨t, target, enabled⟩
  · rintro ⟨t, target, enabled⟩
    have live := ok.live enabled
    simp only [State.live, Bool.and_eq_true] at live
    exact ⟨t, target, enabled, live.1, ok.owner enabled⟩

def SameTarget (s t : State) : Prop := t.targetThread = s.targetThread

instance : PacketFrame SameTarget where
  refl _ := rfl
  trans _ _ _ first second := Eq.trans second first
  output _ _ := rfl
  drawn _ _ := rfl
  call _ _ _ := rfl
  handled _ _ := rfl
  detached _ := rfl
  flags _ _ _ _ := rfl
  allWakeup _ _ := rfl
  tables _ _ _ _ := rfl

theorem targetLive_of_same {s t : State} (registry : SameRegistry s t) (target : SameTarget s t) :
    TargetLive t ↔ TargetLive s := by
  unfold TargetLive
  rw [target]
  simp only [registry.threadEnabled, registry.enabled, registry.owner]

/- What an `H` packet stores. -/

/-- The packet at `ptr` parses to the ids of an inferior and a thread, and `r` is what the
    lookup of the thread finds. The destination of the inferior's id is not initialised. -/
def SelectsThread (s : State) (ptr : List Byte) (r : Option ThreadRef) : Prop :=
  ∃ c id rest pd, peek ptr.tail = .ok c ∧ (c = chr 'g' ∨ c = chr 'c') ∧
    dashOne ptr.tail.tail = .ok false ∧
    parseThreadId ptr.tail.tail (Machine.junkInt s.drawn) 0 = .ok id ∧ id.ptr = some rest ∧
    id.procId.toInt ≠ -1 ∧ id.procId.toInt ≠ 0 ∧
    lookupInferiorFromGdbId s id.procId.toInt = .ok (some pd) ∧ id.threadId.toInt ≠ -1 ∧
    lookupThreadFromGdbId s id.procId.toInt
      (if id.threadId.toInt = 0 then 1 else id.threadId.toInt) = .ok r

theorem after_liftParse_ok {α β : Type} (a : α) (f : α → Stub β) (s : State) :
    after (liftParse (.ok a) >>= f) s = after (f a) s := rfl

theorem storeTarget_after (r : Option ThreadRef) (u : State) :
    (after (do modify fun s : State => { s with targetThread := r }; confirmTarget)
      u).targetThread =
      r :=
  stays_confirmTarget (R := SameTarget) { u with targetThread := r }

def SelectsIds (s : State) (procId threadId : Int) (r : Option ThreadRef) : Prop :=
  procId ≠ -1 ∧ procId ≠ 0 ∧ (∃ pd, lookupInferiorFromGdbId s procId = .ok (some pd)) ∧
    threadId ≠ -1 ∧ lookupThreadFromGdbId s procId (if threadId = 0 then 1 else threadId) = .ok r

theorem selectsThread_iff {s : State} {ptr rest : List Byte} {c : Byte} {id : ParsedId}
    (first : peek ptr.tail = .ok c) (op : c = chr 'g' ∨ c = chr 'c')
    (dash : dashOne ptr.tail.tail = .ok false)
    (parsed : parseThreadId ptr.tail.tail (Machine.junkInt s.drawn) 0 = .ok id)
    (read : id.ptr = some rest) (r : Option ThreadRef) :
    SelectsThread s ptr r ↔ SelectsIds s id.procId.toInt id.threadId.toInt r := by
  constructor
  · rintro ⟨_, id', _, pd, _, _, _, parsed', _, all, any, inferior, every, thread⟩
    rw [parsed] at parsed'
    cases parsed'
    exact ⟨all, any, ⟨pd, inferior⟩, every, thread⟩
  · rintro ⟨all, any, ⟨pd, inferior⟩, every, thread⟩
    exact ⟨c, id, rest, pd, first, op, dash, parsed, read, all, any, inferior, every, thread⟩

theorem select_target (procId threadId : BitVec 32) (s : State) :
    (∃ r, SelectsIds s procId.toInt threadId.toInt r ∧
      (after (IdUse.select.run procId threadId) s).targetThread = r) ∨
    ((∀ r, ¬ SelectsIds s procId.toInt threadId.toInt r) ∧
      (after (IdUse.select.run procId threadId) s).targetThread = s.targetThread) := by
  have confirm : (after confirmTarget s).targetThread = s.targetThread :=
    stays_confirmTarget (R := SameTarget) s
  unfold IdUse.run
  dsimp only
  by_cases all : procId.toInt = -1
  · refine Or.inr ⟨fun r selects => selects.1 all, ?_⟩
    rw [assert, if_neg (fun ne => ne all)]
    rfl
  rw [assert, if_pos all, pure_bind]
  by_cases any : procId.toInt = 0
  · refine Or.inr ⟨fun r selects => selects.2.1 any, ?_⟩
    rw [if_pos any]
    exact confirm
  rw [if_neg any, after_bind_ok (EStateM.run_get s)]
  cases inferior : lookupInferiorFromGdbId s procId.toInt with
  | error e =>
    refine Or.inr ⟨?_, rfl⟩
    rintro r ⟨_, _, ⟨pd, found⟩, _⟩
    simp [inferior] at found
  | ok found =>
  rw [after_liftParse_ok]
  cases found with
  | none =>
    refine Or.inr ⟨?_, stays_strlcpy (R := SameTarget) 0 (str "E02") bufsize s⟩
    rintro r ⟨_, _, ⟨pd, found⟩, _⟩
    simp [inferior] at found
  | some pd =>
  dsimp only
  by_cases every : threadId.toInt = -1
  · refine Or.inr ⟨fun r selects => selects.2.2.2.1 every, ?_⟩
    rw [if_pos every]
    exact confirm
  rw [if_neg every]
  cases thread : lookupThreadFromGdbId s procId.toInt (if threadId.toInt = 0 then 1
    else threadId.toInt) with
  | error e =>
    refine Or.inr ⟨?_, rfl⟩
    rintro r ⟨_, _, _, _, found⟩
    simp [thread] at found
  | ok r => exact Or.inl ⟨r, ⟨all, any, ⟨pd, inferior⟩, every, thread⟩, storeTarget_after r s⟩

theorem handleSetInferior_target (ptr : List Byte) (s : State) :
    (∃ r, SelectsThread s ptr r ∧ (after (handleSetInferior ptr) s).targetThread = r) ∨
    ((∀ r, ¬ SelectsThread s ptr r) ∧
      (after (handleSetInferior ptr) s).targetThread = s.targetThread) := by
  let u : State := { s with drawn := s.drawn + 1 }
  have drawn : freshInt.run s = .ok (Machine.junkInt s.drawn) u := rfl
  have reply (src : List Byte) : (after (strlcpy 0 src bufsize) u).targetThread = s.targetThread :=
    stays_strlcpy (R := SameTarget) 0 src bufsize u
  rw [handleSetInferior_uses, after_bind_ok drawn]
  cases first : peek ptr.tail with
  | error e =>
    refine Or.inr ⟨?_, rfl⟩
    rintro r ⟨c, id, rest, pd, h, _⟩
    simp [first] at h
  | ok c =>
  rw [after_liftParse_ok]
  by_cases other : c ≠ chr 'g' ∧ c ≠ chr 'c'
  · rw [if_pos other]
    refine Or.inr ⟨?_, reply _⟩
    rintro r ⟨c', id, rest, pd, h, op, _⟩
    simp only [first, Except.ok.injEq] at h
    subst h
    exact op.elim other.1 other.2
  rw [if_neg other]
  have op : c = chr 'g' ∨ c = chr 'c' := by
    by_contra neither
    exact other ⟨fun g => neither (Or.inl g), fun c => neither (Or.inr c)⟩
  dsimp only
  cases dash : dashOne ptr.tail.tail with
  | error e =>
    refine Or.inr ⟨?_, rfl⟩
    rintro r ⟨c, id, rest, pd, _, _, h, _⟩
    simp [dash] at h
  | ok isDash =>
  rw [after_liftParse_ok]
  cases isDash with
  | true =>
    refine Or.inr ⟨?_, ?_⟩
    · rintro r ⟨c, id, rest, pd, _, _, h, _⟩
      simp [dash] at h
    · exact stays_bind (R := SameTarget) stays_get (fun _ => stays_bind (stays_assert _)
        fun _ => stays_strlcpy 0 (str "OK") bufsize) u
  | false =>
  rw [if_neg (by decide)]
  cases parsed : parseThreadId ptr.tail.tail (Machine.junkInt s.drawn) 0 with
  | error e =>
    refine Or.inr ⟨?_, rfl⟩
    rintro r ⟨c, id, rest, pd, _, _, _, h, _⟩
    rw [parsed] at h
    cases h
  | ok id =>
  rw [after_liftParse_ok]
  cases read : id.ptr with
  | none =>
    refine Or.inr ⟨?_, reply _⟩
    rintro r ⟨c, id', rest, pd, _, _, _, h, h', _⟩
    simp only [parsed, Except.ok.injEq] at h
    subst h
    simp [read] at h'
  | some rest =>
  simp only [selectsThread_iff first op dash parsed read]
  exact select_target id.procId id.threadId u

/- What each call does to a live target, and to a registry without threads. -/

def NoThreads (s : State) : Prop :=
  s.targetThread = none ∧ ∀ t, (s.thread t).enabled = false ∧ (s.thread t).gdbId = 0

theorem noThreads_of_same {s t : State} (registry : SameRegistry s t) (target : SameTarget s t)
    (none : NoThreads s) : NoThreads t :=
  ⟨Eq.trans target none.1, fun r => ⟨(registry.threadEnabled r).trans (none.2 r).1,
    (registry.threadGdbId r).trans (none.2 r).2⟩⟩

theorem targetLive_setInferior {s : State} {pd : Fin maxPds} (i : Inferior) (counter : Nat)
    (enabled : (s.inferiors pd).enabled = true → i.enabled = true)
    (slots : ∀ slot, s.targetThread = some ⟨pd, slot⟩ →
      i.threads slot = (s.inferiors pd).threads slot)
    (live : TargetLive s) : TargetLive
    ({ s with currInferiorIdx := counter }.setInferior pd i) := by
  obtain ⟨⟨pd', slot⟩, target, on, inferior, owner⟩ := live
  refine ⟨⟨pd', slot⟩, target, ?_⟩
  by_cases here : pd' = pd
  · subst here
    have same := slots slot target
    simp only [State.thread, setInferior_inferiors, Function.update_self, same]
    exact ⟨on, enabled inferior, owner⟩
  · simp only [State.thread, setInferior_inferiors, Function.update_of_ne here]
    exact ⟨on, inferior, owner⟩

theorem registerInferior_target (s : State) (inferiorId vspace : Word) :
    (TargetLive s → TargetLive (after (gdbRegisterInferior inferiorId vspace) s)) ∧
    (NoThreads s → NoThreads (after (gdbRegisterInferior inferiorId vspace) s)) := by
  rcases gdbRegisterInferior_cases s inferiorId vspace with same | ⟨idx, _, full⟩ |
    ⟨idx, pd, scan, placed⟩
  · rw [same]
    exact ⟨fun live => live, fun none => none⟩
  · rw [full]
    exact ⟨fun live => live, fun none => none⟩
  · have free : (s.inferiors pd).enabled = false := (ringScan_some scan).2.1
    rw [placed]
    constructor
    · intro live
      refine targetLive_setInferior _ (idx + 1) (fun _ => rfl) ?_ live
      intro slot target
      obtain ⟨t, target', _, inferior, _⟩ := live
      rw [target] at target'
      cases target'
      rw [free] at inferior
      contradiction
    · rintro ⟨target, off⟩
      refine ⟨target, ?_⟩
      rintro ⟨pd', slot⟩
      by_cases here : pd' = pd
      · subst here
        simp [State.thread, withInferior, Inferior.zero, Thread.zero]
      · simpa [State.thread, withInferior, Function.update_of_ne here] using off ⟨pd', slot⟩

theorem registerThread_target (s : State) (inferiorId threadId tcb : Word) :
    (TargetLive s → TargetLive (after (gdbRegisterThread inferiorId threadId tcb) s)) ∧
    (NoThreads s →
      (value (gdbRegisterThread inferiorId threadId tcb) s = some .noError ∧
        TargetLive (after (gdbRegisterThread inferiorId threadId tcb) s)) ∨
      (value (gdbRegisterThread inferiorId threadId tcb) s ≠ some .noError ∧
        NoThreads (after (gdbRegisterThread inferiorId threadId tcb) s))) := by
  rcases gdbRegisterThread_cases s inferiorId threadId tcb with ⟨same, failed⟩ |
    ⟨pd, idx, _, _, full⟩ | ⟨pd, idx, slot, lookup, scan, run⟩
  · rw [same]
    exact ⟨fun live => live, fun none => Or.inr ⟨failed, none⟩⟩
  · rw [after_ok full, value_ok full]
    constructor
    · exact targetLive_setInferior _ s.currInferiorIdx (fun on => on) (fun _ _ => rfl)
    · rintro ⟨target, off⟩
      refine Or.inr ⟨by simp, target, ?_⟩
      rintro ⟨pd', slot⟩
      by_cases here : pd' = pd
      · subst here
        simpa [State.thread] using off ⟨pd', slot⟩
      · simpa [State.thread, Function.update_of_ne here] using off ⟨pd', slot⟩
  · have free : ((s.inferiors pd).threads slot).enabled = false := (ringScan_some scan).2.1
    have inferior := (lookupInferiorFromId_some lookup).1
    let s' := withThread s pd idx slot threadId tcb
    have placed : (s'.thread ⟨pd, slot⟩).enabled = true ∧
        (s'.inferiors pd).enabled = true ∧ (s'.thread ⟨pd, slot⟩).inferior = some pd := by
      simp [s', State.thread, withThread, Inferior.setThread, inferior]
    have after_eq : after (gdbRegisterThread inferiorId threadId tcb) s =
        after (introduceThread ⟨pd, slot⟩) s' := by simp only [after, run, s']
    rw [after_eq]
    constructor
    · intro live
      have live' : TargetLive s' := by
        refine targetLive_setInferior
          ({ s.inferiors pd with currThreadIdx := idx + 1 }.setThread slot _)
          s.currInferiorIdx (fun on => on) ?_ live
        intro slot' target
        obtain ⟨t, target', on, _⟩ := live
        rw [target] at target'
        cases target'
        have ne : slot' ≠ slot := by
          rintro rfl
          rw [State.thread, free] at on
          contradiction
        simp [Inferior.setThread, Function.update_of_ne ne]
      have owned : TargetOwned s' := by
        intro target known
        obtain ⟨t, known', _, _, owner⟩ := live'
        rw [known] at known'
        cases known'
        exact ⟨_, owner⟩
      obtain ⟨u, run', inferiors, _, target, _⟩ := introduceThread_returns placed.2.2 owned
      obtain ⟨t, known, on, enabled, owner⟩ := live'
      rw [after_ok run']
      refine ⟨t, by rw [target, known]; rfl, ?_⟩
      simp only [State.thread, inferiors]
      exact ⟨on, enabled, owner⟩
    · rintro ⟨none, _⟩
      left
      have owned : TargetOwned s' := by
        intro target known
        rw [show s'.targetThread = s.targetThread from rfl, none] at known
        cases known
      obtain ⟨u, run', inferiors, _, target, _⟩ := introduceThread_returns placed.2.2 owned
      refine ⟨?_, ?_⟩
      · rw [← run] at run'
        exact value_ok run'
      · rw [after_ok run']
        refine ⟨⟨pd, slot⟩,
          by rw [target, show s'.targetThread = s.targetThread from rfl, none]; rfl, ?_⟩
        simp only [State.thread, inferiors]
        exact placed

theorem exit_target (s : State) (inferiorId threadId : Word) :
    (TargetLive s → (TargetLive (after (gdbThreadExit inferiorId threadId) s) ↔
      ∀ pd slot, lookupInferiorFromId s inferiorId = some pd →
        lookupThreadFromId (s.inferiors pd) threadId = some slot →
        s.targetThread ≠ some ⟨pd, slot⟩)) ∧
    (NoThreads s → NoThreads (after (gdbThreadExit inferiorId threadId) s)) := by
  rcases gdbThreadExit_cases s inferiorId threadId with ⟨same, missing⟩ |
    ⟨pd, slot, lookup, found, run⟩
  · rw [same]
    exact ⟨fun live => iff_of_true live fun pd slot lookup found =>
      (missing pd slot lookup found).elim,
      fun none => none⟩
  · have on : (s.thread ⟨pd, slot⟩).enabled = true := (lookupThreadFromId_some found).1
    have after_eq : after (gdbThreadExit inferiorId threadId) s = after (announceExit ⟨pd, slot⟩)
        (s.setThread ⟨pd, slot⟩ { s.thread ⟨pd, slot⟩ with enabled := false }) := by
      simp only [after, run]
    rw [after_eq, targetLive_of_same (stays_announceExit ⟨pd, slot⟩ _)
      (stays_announceExit ⟨pd, slot⟩ _)]
    constructor
    · rintro ⟨t, target, enabled, inferior, owner⟩
      constructor
      · rintro ⟨t', target', enabled', _⟩ pd' slot' lookup' found' same
        rw [lookup] at lookup'
        cases lookup'
        rw [found] at found'
        cases found'
        rw [setThread_targetThread, same] at target'
        cases target'
        rw [setThread_thread] at enabled'
        contradiction
      · intro others
        have ne : t ≠ ⟨pd, slot⟩ := by
          rintro rfl
          exact others pd slot lookup found target
        refine ⟨t, target, ?_⟩
        rw [setThread_other _ _ _ ne, setThread_enabled]
        exact ⟨enabled, inferior, owner⟩
    · rintro ⟨_, off⟩
      rw [(off _).1] at on
      contradiction

/-- The target is as it was or one of the threads in `P`. -/
def TargetMoves (P : ThreadRef → Prop) (s t : State) : Prop :=
  t.targetThread = s.targetThread ∨ ∃ r, P r ∧ t.targetThread = some r

instance (P : ThreadRef → Prop) : Frame (TargetMoves P) where
  refl _ := Or.inl rfl
  trans s t u first second := by
    rcases second with same | moved
    · rcases first with same' | ⟨r, hr, moved'⟩
      · exact Or.inl (same.trans same')
      · exact Or.inr ⟨r, hr, same.trans moved'⟩
    · exact Or.inr moved
  output _ _ := Or.inl rfl
  drawn _ _ := Or.inl rfl

theorem fault_target {s : State} (ok : RegistryOk s) (inferiorId threadId : Word)
    (message : FaultMessage) :
    (TargetLive s → TargetLive (after (gdbHandleFault inferiorId threadId message) s)) ∧
    (NoThreads s → NoThreads (after (gdbHandleFault inferiorId threadId message) s)) := by
  have registry : SameRegistry s (after (gdbHandleFault inferiorId threadId message) s) :=
    stays_gdbHandleFault inferiorId threadId message s fun _ _ _ _ _ => sameRegistry_of_eq rfl rfl
  constructor
  · intro live
    have moves : TargetMoves (fun r => (s.thread r).enabled = true) s
        (after (gdbHandleFault inferiorId threadId message) s) :=
      stays_gdbHandleFault inferiorId threadId message s fun pd slot _ found u =>
        Or.inr ⟨⟨pd, slot⟩, (lookupThreadFromId_some found).1, rfl⟩
    rcases moves with same | ⟨r, enabled, moved⟩
    · exact (targetLive_of_same registry same).mpr live
    · rw [targetLive_iff (registryOk_of_same registry ok)]
      exact ⟨r, moved, (registry.threadEnabled r).trans enabled⟩
  · intro none
    have same : SameTarget s (after (gdbHandleFault inferiorId threadId message) s) :=
      stays_gdbHandleFault inferiorId threadId message s fun pd slot _ found => by
        have on : (s.thread ⟨pd, slot⟩).enabled = true := (lookupThreadFromId_some found).1
        rw [(none.2 _).1] at on
        contradiction
    exact noThreads_of_same registry same none

/- Packets. -/

theorem packet_target (input : List Byte) (s : State) :
    (∃ r, input.head? = some (chr 'H') ∧ SelectsThread s input r ∧
      (after (gdbHandlePacket input) s).targetThread = r) ∨
    ((∀ r, input.head? = some (chr 'H') → ¬ SelectsThread s input r) ∧
      SameTarget s (after (gdbHandlePacket input) s)) := by
  by_cases selects : input.head? = some (chr 'H')
  · obtain ⟨rest, rfl⟩ : ∃ rest, input = chr 'H' :: rest := List.head?_eq_some_iff.mp selects
    have run : after (gdbHandlePacket (chr 'H' :: rest)) s =
        after (handleSetInferior (chr 'H' :: rest)) (s.lay 0 []) := by
      rw [dispatch_setInferior, after_bind_ok (put_zero_run (by decide) s), after_ignore]
    rw [run]
    rcases handleSetInferior_target (chr 'H' :: rest) (s.lay 0 []) with ⟨r, sel, target⟩ |
      ⟨none, same⟩
    · exact Or.inl ⟨r, rfl, sel, target⟩
    · exact Or.inr ⟨fun r _ => none r, same⟩
  · refine Or.inr ⟨fun r first => absurd first selects, ?_⟩
    exact stays_gdbHandlePacket (R := SameTarget) input
      (fun _ => stays_handleWriteRegs (fun _ _ _ => rfl) input)
        (fun first => absurd first selects) s

theorem selectsThread_unique {s : State} {ptr : List Byte} {r r' : Option ThreadRef}
    (h : SelectsThread s ptr r) (h' : SelectsThread s ptr r') : r = r' := by
  obtain ⟨_, id, _, _, _, _, _, parsed, _, _, _, _, _, found⟩ := h
  obtain ⟨_, id', _, _, _, _, _, parsed', _, _, _, _, _, found'⟩ := h'
  rw [parsed] at parsed'
  cases parsed'
  rw [found] at found'
  cases found'
  rfl

theorem lookupThreadFromGdbId_some {s : State} {procId threadId : Int} {t : ThreadRef}
    (found : lookupThreadFromGdbId s procId threadId = .ok (some t)) :
    ((s.thread t).gdbId.toNat : Int) = threadId := by
  unfold lookupThreadFromGdbId at found
  obtain ⟨i, _, found⟩ := bind_ok found
  obtain ⟨pd, _, found⟩ := bind_ok found
  split at found
  · cases found
  · obtain ⟨j, _, found⟩ := bind_ok found
    obtain ⟨slot, _, found⟩ := bind_ok found
    simp only [pure, Except.pure, Except.ok.injEq] at found
    split at found
    · cases found
    · rename_i same
      cases found
      exact not_not.mp same

theorem selects_unused {s : State} {ptr : List Byte} {r : Option ThreadRef} (none : NoThreads s)
    (h : SelectsThread s ptr r) : r = .none := by
  obtain ⟨_, id, _, _, _, _, _, _, _, _, _, _, _, found⟩ := h
  cases r with
  | none => rfl
  | some t =>
    have gdbId := lookupThreadFromGdbId_some found
    rw [(none.2 t).2] at gdbId
    split at gdbId
    · contradiction
    · exact absurd gdbId.symm (by assumption)

/- Sessions: calls in any order, until one of them does not return. -/

/-- The call neither exits the target's thread nor is an `H` packet whose lookup ends at no
    enabled thread. -/
def SparesTarget (s : State) : Event → Prop
  | .threadExit inferiorId threadId => ∀ pd slot, lookupInferiorFromId s inferiorId = some pd →
      lookupThreadFromId (s.inferiors pd) threadId = some slot → s.targetThread ≠ some ⟨pd, slot⟩
  | .packet input => input.head? = some (chr 'H') → ∀ r, SelectsThread s input r →
      ∃ t, r = some t ∧ (s.thread t).enabled = true
  | _ => True

/-- One call keeps a live target live exactly when it spares it. -/
theorem event_target {s : State} (ok : RegistryOk s) (live : TargetLive s) (e : Event) :
    TargetLive (after e.run s) ↔ SparesTarget s e := by
  cases e with
  | registerInferior inferiorId vspace =>
    rw [Event.run, after_ignore]
    exact iff_of_true ((registerInferior_target s inferiorId vspace).1 live) trivial
  | registerThread inferiorId threadId tcb =>
    rw [Event.run, after_ignore]
    exact iff_of_true ((registerThread_target s inferiorId threadId tcb).1 live) trivial
  | threadExit inferiorId threadId =>
    rw [Event.run, after_ignore]
    exact (exit_target s inferiorId threadId).1 live
  | fault inferiorId threadId message =>
    rw [Event.run, after_ignore]
    exact iff_of_true ((fault_target ok inferiorId threadId message).1 live) trivial
  | packet input =>
    rw [Event.run, after_ignore]
    have registry := packet_sameRegistry input s
    rcases packet_target input s with ⟨r, first, selects, target⟩ | ⟨none, same⟩
    · rw [targetLive_iff (registryOk_of_same registry ok), target]
      simp only [registry.threadEnabled]
      constructor
      · intro kept _ r' selects'
        rwa [selectsThread_unique selects' selects]
      · exact fun spares => spares first r selects
    · exact iff_of_true ((targetLive_of_same registry same).mpr live)
        fun first r selects => absurd selects (none r first)
  | suspend =>
    have registry : SameRegistry s (after suspendSystem s) :=
      stays_suspendSystem (fun _ _ => sameRegistry_of_eq rfl rfl) s
    have target : SameTarget s (after suspendSystem s) := stays_suspendSystem (fun _ _ => rfl) s
    exact iff_of_true ((targetLive_of_same registry target).mpr live) trivial
  | resume =>
    have registry : SameRegistry s (after resumeSystem s) :=
      stays_resumeSystem (fun _ _ => sameRegistry_of_eq rfl rfl) s
    have target : SameTarget s (after resumeSystem s) := stays_resumeSystem (fun _ _ => rfl) s
    exact iff_of_true ((targetLive_of_same registry target).mpr live) trivial

def addsThread (s : State) : Event → Bool
  | .registerThread inferiorId threadId tcb =>
      decide (value (gdbRegisterThread inferiorId threadId tcb) s = some .noError)
  | _ => false

/-- Without threads there is no target, and the first one registered becomes it. -/
theorem event_noThreads {s : State} (ok : RegistryOk s) (none : NoThreads s) (e : Event) :
    if addsThread s e then TargetLive (after e.run s) else NoThreads (after e.run s) := by
  cases e with
  | registerInferior inferiorId vspace =>
    rw [Event.run, after_ignore]
    exact (registerInferior_target s inferiorId vspace).2 none
  | registerThread inferiorId threadId tcb =>
    rw [Event.run, after_ignore]
    rcases (registerThread_target s inferiorId threadId tcb).2 none with ⟨ok, live⟩ | ⟨failed, none⟩
    · simpa [addsThread, ok] using live
    · simpa [addsThread, failed] using none
  | threadExit inferiorId threadId =>
    rw [Event.run, after_ignore]
    exact (exit_target s inferiorId threadId).2 none
  | fault inferiorId threadId message =>
    rw [Event.run, after_ignore]
    exact (fault_target ok inferiorId threadId message).2 none
  | packet input =>
    rw [Event.run, after_ignore]
    have registry := packet_sameRegistry input s
    rcases packet_target input s with ⟨r, first, selects, target⟩ | ⟨_, same⟩
    · refine ⟨target.trans (selects_unused none selects), fun t => ?_⟩
      rw [registry.threadEnabled, registry.threadGdbId]
      exact none.2 t
    · exact noThreads_of_same registry same none
  | suspend =>
    exact noThreads_of_same (stays_suspendSystem (fun _ _ => sameRegistry_of_eq rfl rfl) s)
      (stays_suspendSystem (R := SameTarget) (fun _ _ => rfl) s) none
  | resume =>
    exact noThreads_of_same (stays_resumeSystem (fun _ _ => sameRegistry_of_eq rfl rfl) s)
      (stays_resumeSystem (R := SameTarget) (fun _ _ => rfl) s) none

/-- The state, whether a thread was registered, and whether a call did not return. -/
structure TargetSession where
  state : State
  started : Bool
  halted : Bool

/-- A call to the stub, or whatever changes the kernel's objects between calls. -/
inductive Move where
  | call (e : Event)
  | outside (kernel : Kernel)

def TargetSession.boot (output : Nat → Byte) (kernel : Kernel) : TargetSession :=
  ⟨.boot output kernel, false, false⟩

/-- After a call that does not return there are no further steps. -/
def targetStep (w : TargetSession) (move : Move) : TargetSession :=
  if w.halted then w
  else match move with
    | .call e =>
      { state := after e.run w.state
        started := w.started || addsThread w.state e
        halted := (value e.run w.state).isNone }
    | .outside kernel => { w with state := w.state.withKernel kernel }

def TargetSession.ok (w : TargetSession) : Prop := w.started = true → TargetLive w.state

def MoveSparesTarget (w : TargetSession) : Move → Prop
  | .call e => w.started = true → w.halted = false → SparesTarget w.state e
  | .outside _ => True

def SessionOk (w : TargetSession) : Prop :=
  RegistryOk w.state ∧ (w.started = false → NoThreads w.state)

theorem sessionOk_step {w : TargetSession} (ok : SessionOk w) (move : Move) :
    SessionOk (targetStep w move) := by
  unfold targetStep
  split
  · exact ok
  · cases move with
    | outside kernel =>
      have same : SameRegistry w.state (w.state.withKernel kernel) := sameRegistry_of_eq rfl rfl
      exact ⟨registryOk_of_same same ok.1, fun fresh => noThreads_of_same same rfl (ok.2 fresh)⟩
    | call e =>
      refine ⟨event_keeps_ok ok.1 e, fun fresh => ?_⟩
      simp only [Bool.or_eq_false_iff] at fresh
      have next := event_noThreads ok.1 (ok.2 fresh.1) e
      rwa [fresh.2] at next

theorem targetStep_ok_iff {w : TargetSession} (ok : SessionOk w) (live : w.ok) (move : Move) :
    (targetStep w move).ok ↔ MoveSparesTarget w move := by
  unfold targetStep
  by_cases halted : w.halted = true
  · rw [if_pos halted]
    refine iff_of_true live ?_
    cases move with
    | outside kernel => trivial
    | call e => exact fun _ running => absurd halted (by simp [running])
  · rw [if_neg halted]
    cases move with
    | outside kernel =>
      have same : SameRegistry w.state (w.state.withKernel kernel) := sameRegistry_of_eq rfl rfl
      exact iff_of_true (fun started => (targetLive_of_same same rfl).mpr (live started)) trivial
    | call e =>
      cases started : w.started with
      | true =>
        simp only [TargetSession.ok, started, Bool.true_or, MoveSparesTarget, true_imp_iff,
          show w.halted = false by simpa using halted]
        exact event_target ok.1 (live started) e
      | false =>
        refine iff_of_true ?_ (fun now => absurd now (by simp [started]))
        intro now
        simp only [Bool.false_or] at now
        have next := event_noThreads ok.1 (ok.2 started) e
        rwa [if_pos now] at next

/-- From the first thread on, the target is live after every step of a session exactly when
    every call spares it. -/
theorem target_live_along_iff (output : Nat → Byte) (kernel : Kernel) (moves : List Move) :
    Along targetStep TargetSession.ok moves (.boot output kernel) ↔
      Guarded targetStep MoveSparesTarget moves (.boot output kernel) := by
  have start : SessionOk (.boot output kernel) :=
    ⟨registryOk_boot output kernel, fun _ => ⟨rfl, fun _ => ⟨rfl, rfl⟩⟩⟩
  refine along_iff_guarded SessionOk (fun _ _ => True) (fun _ move ok _ => sessionOk_step ok move)
    (fun _ move ok _ live => targetStep_ok_iff ok live move) moves _ start ?_ ?_
  · intro started
    cases started
  · exact guarded_of_forall (P := fun _ => True) moves _ fun _ _ => trivial

omit [Machine] in
/-- The only thread exits and stays the target. -/
theorem exited_target_not_live : letI := obligingBoard
    ¬ ∀ (output : Nat → Byte) (kernel : Kernel) (moves : List Move),
      Along targetStep TargetSession.ok moves (.boot output kernel) := by
  let _ := obligingBoard
  intro all
  obtain ⟨_, _, last, _⟩ := all (fun _ => 0) blankKernel
    [.call (.registerInferior 1 7), .call (.registerThread 1 1 5), .call (.threadExit 1 1)]
  obtain ⟨t, target, enabled, _⟩ := last rfl
  have exited : some t = some ⟨0, 0⟩ := target.symm
  cases exited
  cases enabled

end Libgdb
