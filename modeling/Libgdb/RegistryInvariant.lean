import Libgdb.TargetThread

/-!
What holds of the registry in every reachable state: ids are unique, threads belong to their
inferior, and a registration with a new id takes a free slot as long as there is one.
-/
namespace Libgdb
open ByteMemory SlotTables CheckedPrograms
variable [Machine]

/- Registration with a new id. -/

theorem registerInferior_fresh {s : State} {inferiorId : Word}
    (fresh : lookupInferiorFromId s inferiorId = none) (room : s.currInferiorIdx + maxPds ≤ intMax)
    (vspace : Word) :
    (∃ idx, ringScan (fun i => (s.inferiors i).enabled) maxPds s.currInferiorIdx = (idx, none) ∧
      (gdbRegisterInferior inferiorId vspace).run s =
        .ok .insufficientResources { s with currInferiorIdx := idx }) ∨
    (∃ idx pd,
      ringScan (fun i => (s.inferiors i).enabled) maxPds s.currInferiorIdx = (idx, some pd) ∧
      (gdbRegisterInferior inferiorId vspace).run s =
        .ok .noError (withInferior s idx pd inferiorId vspace)) := by
  unfold gdbRegisterInferior
  rw [run_bind_ok (EStateM.run_get s), fresh]
  dsimp only
  rw [if_neg (by omega)]
  match scan : ringScan (fun i => (s.inferiors i).enabled) maxPds s.currInferiorIdx with
  | (idx, none) => exact Or.inl ⟨idx, rfl, rfl⟩
  | (idx, some pd) => exact Or.inr ⟨idx, pd, rfl, rfl⟩

theorem registerThread_fresh {s : State} {inferiorId threadId : Word} {pd : Fin maxPds}
    (inferior : lookupInferiorFromId s inferiorId = some pd)
    (fresh : lookupThreadFromId (s.inferiors pd) threadId = none)
    (room : (s.inferiors pd).currThreadIdx + maxThreads ≤ intMax) (tcb : Word) :
    (∃ idx, ringScan (fun j => ((s.inferiors pd).threads j).enabled) maxThreads
        (s.inferiors pd).currThreadIdx = (idx, none) ∧
      (gdbRegisterThread inferiorId threadId tcb).run s =
        .ok .insufficientResources
          (s.setInferior pd { s.inferiors pd with currThreadIdx := idx })) ∨
    (∃ idx slot, ringScan (fun j => ((s.inferiors pd).threads j).enabled) maxThreads
        (s.inferiors pd).currThreadIdx = (idx, some slot) ∧
      (gdbRegisterThread inferiorId threadId tcb).run s =
        (introduceThread ⟨pd, slot⟩).run (withThread s pd idx slot threadId tcb)) := by
  unfold gdbRegisterThread
  rw [run_bind_ok (EStateM.run_get s), inferior]
  dsimp only
  rw [fresh]
  dsimp only
  rw [if_neg (by omega)]
  match scan : ringScan (fun j => ((s.inferiors pd).threads j).enabled) maxThreads
      (s.inferiors pd).currThreadIdx with
  | (idx, none) => exact Or.inl ⟨idx, rfl, rfl⟩
  | (idx, some slot) => exact Or.inr ⟨idx, slot, rfl, rfl⟩

theorem lookupInferiorFromId_fresh {s : State} {inferiorId : Word}
    (fresh : ∀ pd, (s.inferiors pd).enabled = true → (s.inferiors pd).id ≠ inferiorId) :
    lookupInferiorFromId s inferiorId = none :=
  firstSlot_of_none fun pd => by simpa using fresh pd

theorem lookupThreadFromId_fresh {i : Inferior} {threadId : Word}
    (fresh : ∀ slot, (i.threads slot).enabled = true → (i.threads slot).id ≠ threadId) :
    lookupThreadFromId i threadId = none :=
  firstSlot_of_none fun slot => by simpa using fresh slot

theorem fresh_of_lookupInferior {s : State} {inferiorId : Word}
    (none : lookupInferiorFromId s inferiorId = none) (pd : Fin maxPds)
    (enabled : (s.inferiors pd).enabled = true) : (s.inferiors pd).id ≠ inferiorId := by
  simpa [enabled] using firstSlot_none none pd

theorem fresh_of_lookupThread {i : Inferior} {threadId : Word}
    (none : lookupThreadFromId i threadId = none) (slot : Fin maxThreads)
    (enabled : (i.threads slot).enabled = true) : (i.threads slot).id ≠ threadId := by
  simpa [enabled] using firstSlot_none none slot

/- Ids are unique. -/

structure IdsApart (s : State) : Prop where
  inferiors : ∀ pd pd', (s.inferiors pd).enabled = true → (s.inferiors pd').enabled = true →
    (s.inferiors pd).id = (s.inferiors pd').id → pd = pd'
  threads : ∀ pd slot slot', ((s.inferiors pd).threads slot).enabled = true →
    ((s.inferiors pd).threads slot').enabled = true →
    ((s.inferiors pd).threads slot).id = ((s.inferiors pd).threads slot').id → slot = slot'

theorem idsApart_of_same {s t : State} (same : SameRegistry s t) (apart : IdsApart s) :
    IdsApart t := by
  refine ⟨fun pd pd' on on' => ?_, fun pd slot slot' on on' => ?_⟩
  · rw [same.enabled] at on on'
    rw [same.id, same.id]
    exact apart.inferiors pd pd' on on'
  · have enabled (slot : Fin maxThreads) : ((t.inferiors pd).threads slot).enabled =
      ((s.inferiors pd).threads slot).enabled := same.threadEnabled ⟨pd, slot⟩
    have ids (slot : Fin maxThreads) : ((t.inferiors pd).threads slot).id =
      ((s.inferiors pd).threads slot).id := same.threadId ⟨pd, slot⟩
    rw [enabled] at on on'
    rw [ids, ids]
    exact apart.threads pd slot slot' on on'

theorem idsApart_setInferior {s : State} (apart : IdsApart s) {pd : Fin maxPds} {i : Inferior}
    (inferior : i.enabled = true →
      ∀ pd', pd' ≠ pd → (s.inferiors pd').enabled = true → (s.inferiors pd').id ≠ i.id)
    (threads : ∀ slot slot', (i.threads slot).enabled = true → (i.threads slot').enabled = true →
      (i.threads slot).id = (i.threads slot').id → slot = slot') :
        IdsApart (s.setInferior pd i) := by
  refine ⟨fun a b on on' same => ?_, fun a slot slot' => ?_⟩
  · by_cases ha : a = pd <;> by_cases hb : b = pd
    · rw [ha, hb]
    · subst ha
      simp only [setInferior_inferiors, Function.update_self,
        Function.update_of_ne hb] at on on' same
      exact absurd same.symm (inferior on b hb on')
    · subst hb
      simp only [setInferior_inferiors, Function.update_self,
        Function.update_of_ne ha] at on on' same
      exact absurd same (inferior on' a ha on)
    · simp only [setInferior_inferiors, Function.update_of_ne ha,
        Function.update_of_ne hb] at on on' same
      exact apart.inferiors a b on on' same
  · by_cases here : a = pd
    · subst here
      rw [setInferior_inferiors, Function.update_self]
      exact threads slot slot'
    · rw [setInferior_inferiors, Function.update_of_ne here]
      exact apart.threads a slot slot'

theorem registerInferior_idsApart {s : State} (apart : IdsApart s) (inferiorId vspace : Word) :
    IdsApart (after (gdbRegisterInferior inferiorId vspace) s) := by
  cases lookup : lookupInferiorFromId s inferiorId with
  | some pd =>
    have same : after (gdbRegisterInferior inferiorId vspace) s = s := by
      unfold gdbRegisterInferior
      rw [after_bind_ok (EStateM.run_get s), lookup]
      dsimp only
      split <;> rfl
    rwa [same]
  | none =>
    rcases gdbRegisterInferior_cases s inferiorId vspace with same | ⟨idx, _, full⟩ |
      ⟨idx, pd, _, placed⟩
    · rwa [same]
    · rw [full]
      exact ⟨apart.inferiors, apart.threads⟩
    · rw [placed]
      refine idsApart_setInferior (s := { s with currInferiorIdx := idx + 1 })
        ⟨apart.inferiors, apart.threads⟩ (fun _ pd' _ on =>
          fresh_of_lookupInferior lookup pd' on) ?_
      intro slot slot' on
      simp [Inferior.zero, Thread.zero] at on

theorem registerThread_idsApart {s : State} (apart : IdsApart s) (inferiorId threadId tcb : Word) :
    IdsApart (after (gdbRegisterThread inferiorId threadId tcb) s) := by
  rcases gdbRegisterThread_cases s inferiorId threadId tcb with ⟨same, _⟩ |
    ⟨pd, idx, lookup, _, full⟩ |
    ⟨pd, idx, slot, lookup, _, run⟩
  · rwa [same]
  · have old := lookupInferiorFromId_some lookup
    rw [after_ok full]
    exact idsApart_setInferior apart
      (fun _ pd' ne on same => ne (apart.inferiors pd' pd on old.1 same)) (apart.threads pd)
  · have old := lookupInferiorFromId_some lookup
    cases found : lookupThreadFromId (s.inferiors pd) threadId with
    | some slot' =>
      have same : after (gdbRegisterThread inferiorId threadId tcb) s = s := by
        unfold gdbRegisterThread
        rw [after_bind_ok (EStateM.run_get s), lookup]
        dsimp only
        rw [found]
        dsimp only
        split <;> rfl
      rwa [same]
    | none =>
      rw [show after (gdbRegisterThread inferiorId threadId tcb) s =
        after (introduceThread ⟨pd, slot⟩) (withThread s pd idx slot threadId tcb) by
          simp only [after, run]]
      have rest : Stays SameRegistry (introduceThread ⟨pd, slot⟩) :=
        stays_introduceThread fun _ _ => sameRegistry_of_eq rfl rfl
      refine idsApart_of_same (rest _) ?_
      refine idsApart_setInferior apart
        (fun _ pd' ne on same => ne (apart.inferiors pd' pd on old.1 same)) fun a b
          on on' same => ?_
      have fresh := fresh_of_lookupThread found
      simp only [Inferior.setThread] at on on' same
      by_cases ha : a = slot <;> by_cases hb : b = slot
      · rw [ha, hb]
      · rw [ha, Function.update_self, Function.update_of_ne hb] at same
        rw [Function.update_of_ne hb] at on'
        exact absurd same.symm (fresh b on')
      · rw [hb, Function.update_self, Function.update_of_ne ha] at same
        rw [Function.update_of_ne ha] at on
        exact absurd same (fresh a on)
      · rw [Function.update_of_ne ha] at on same
        rw [Function.update_of_ne hb] at on' same
        exact apart.threads pd a b on on' same

theorem exit_idsApart {s : State} (apart : IdsApart s) (inferiorId threadId : Word) :
    IdsApart (after (gdbThreadExit inferiorId threadId) s) := by
  rcases gdbThreadExit_cases s inferiorId threadId with ⟨same, _⟩ | ⟨pd, slot, lookup, _, run⟩
  · rwa [same]
  · have old := lookupInferiorFromId_some lookup
    rw [show after (gdbThreadExit inferiorId threadId) s = after (announceExit ⟨pd, slot⟩)
      (s.setThread ⟨pd, slot⟩
        { s.thread ⟨pd, slot⟩ with enabled := false }) by simp only [after, run]]
    refine idsApart_of_same (stays_announceExit _ _) (idsApart_setInferior apart
      (fun _ pd' ne on same => ne (apart.inferiors pd' pd on old.1 same)) fun a b on on' same => ?_)
    simp only [Inferior.setThread] at on on' same
    by_cases ha : a = slot
    · rw [ha, Function.update_self] at on
      contradiction
    by_cases hb : b = slot
    · rw [hb, Function.update_self] at on'
      contradiction
    rw [Function.update_of_ne ha] at on same
    rw [Function.update_of_ne hb] at on' same
    exact apart.threads pd a b on on' same

theorem event_idsApart {s : State} (apart : IdsApart s) (e : Event) : IdsApart (after e.run s) := by
  cases e with
  | registerInferior inferiorId vspace =>
    rw [Event.run, after_ignore]
    exact registerInferior_idsApart apart inferiorId vspace
  | registerThread inferiorId threadId tcb =>
    rw [Event.run, after_ignore]
    exact registerThread_idsApart apart inferiorId threadId tcb
  | threadExit inferiorId threadId =>
    rw [Event.run, after_ignore]
    exact exit_idsApart apart inferiorId threadId
  | fault inferiorId threadId message =>
    rw [Event.run, after_ignore]
    exact idsApart_of_same (stays_gdbHandleFault inferiorId threadId message s
      fun _ _ _ _ _ => sameRegistry_of_eq rfl rfl) apart
  | packet input =>
    rw [Event.run, after_ignore]
    exact idsApart_of_same (packet_sameRegistry input s) apart
  | suspend =>
    exact idsApart_of_same (stays_suspendSystem (R := SameRegistry)
      (fun _ _ => sameRegistry_of_eq rfl rfl) s) apart
  | resume =>
    exact idsApart_of_same (stays_resumeSystem (R := SameRegistry)
      (fun _ _ => sameRegistry_of_eq rfl rfl) s) apart

theorem reachable_idsApart {s : State} (reachable : Reachable s) : IdsApart s := by
  induction reachable with
  | boot output kernel =>
    refine ⟨fun pd pd' on => ?_, fun pd slot slot' on => ?_⟩
    · simp [State.boot, Inferior.zero] at on
    · simp [State.boot, Inferior.zero, Thread.zero] at on
  | step e earlier returns ih =>
    have := event_idsApart ih e
    rwa [after_ok returns] at this
  | @outside s kernel earlier ih =>
    have same : SameRegistry s (s.withKernel kernel) := sameRegistry_of_eq rfl rfl
    exact idsApart_of_same same ih

/- The target has an inferior. -/

theorem targetOwned_of_same {s t : State} (registry : SameRegistry s t) (target : SameTarget s t)
    (owned : TargetOwned s) : TargetOwned t := by
  intro r known
  obtain ⟨pd, owner⟩ := owned r (target ▸ known)
  exact ⟨pd, (registry.owner r).trans owner⟩

theorem owned_of_gdbId {s : State} (ok : RegistryOk s) {t : ThreadRef}
    (used : (s.thread t).gdbId ≠ 0) :
    (s.thread t).inferior = some t.pd := by
  rcases ok.threads t with ⟨_, _, unused⟩ | ⟨owner, _⟩
  · exact absurd unused used
  · exact owner

theorem selects_owned {s : State} (ok : RegistryOk s) {ptr : List Byte} {t : ThreadRef}
    (selects : SelectsThread s ptr (some t)) : (s.thread t).inferior = some t.pd := by
  refine owned_of_gdbId ok fun unused => ?_
  obtain ⟨_, id, _, _, _, _, _, _, _, _, _, _, _, found⟩ := selects
  have gdbId := lookupThreadFromGdbId_some found
  rw [unused] at gdbId
  split at gdbId
  · contradiction
  · exact absurd gdbId.symm (by assumption)

theorem withThread_other (s : State) (pd : Fin maxPds) (idx : Nat) (slot : Fin maxThreads)
    (threadId tcb : Word) {t : ThreadRef} (ne : t ≠ ⟨pd, slot⟩) :
    (withThread s pd idx slot threadId tcb).thread t = s.thread t := by
  by_cases here : t.pd = pd
  · obtain ⟨_, slot'⟩ := t
    subst here
    have other : slot' ≠ slot := by
      rintro rfl
      exact ne rfl
    simp [State.thread, withThread, Inferior.setThread, Function.update_of_ne other]
  · simp [State.thread, withThread, Function.update_of_ne here]

theorem withThread_owner (s : State) (pd : Fin maxPds) (idx : Nat) (slot : Fin maxThreads)
    (threadId tcb : Word) :
    ((withThread s pd idx slot threadId tcb).thread ⟨pd, slot⟩).inferior = some pd := by
  simp [State.thread, withThread, Inferior.setThread]

theorem targetOwned_withThread {s : State} (owned : TargetOwned s) (pd : Fin maxPds) (idx : Nat)
    (slot : Fin maxThreads) (threadId tcb : Word) :
    TargetOwned (withThread s pd idx slot threadId tcb) := by
  intro t known
  obtain ⟨pd', owner⟩ := owned t known
  by_cases new : t = ⟨pd, slot⟩
  · subst new
    exact ⟨pd, withThread_owner s pd idx slot threadId tcb⟩
  · exact ⟨pd', by rw [withThread_other s pd idx slot threadId tcb new, owner]⟩

theorem event_targetOwned {s : State} (ok : RegistryOk s) (owned : TargetOwned s) (e : Event) :
    TargetOwned (after e.run s) := by
  cases e with
  | registerInferior inferiorId vspace =>
    rw [Event.run, after_ignore]
    rcases gdbRegisterInferior_cases s inferiorId vspace with same | ⟨idx, _, full⟩ |
      ⟨idx, pd, scan, placed⟩
    · rwa [same]
    · rw [full]
      exact owned
    · rw [placed]
      intro t known
      obtain ⟨pd', owner⟩ := owned t known
      refine ⟨pd', ?_⟩
      -- the slot taken was free, so the target's inferior is another
      have free : (s.inferiors pd).enabled = false := (ringScan_some scan).2.1
      have ne : t.pd ≠ pd := by
        rintro rfl
        rcases ok.threads t with ⟨none, _⟩ | ⟨_, on, _⟩
        · rw [none] at owner
          cases owner
        · rw [free] at on
          contradiction
      simpa [State.thread, withInferior, Function.update_of_ne ne] using owner
  | registerThread inferiorId threadId tcb =>
    rw [Event.run, after_ignore]
    rcases gdbRegisterThread_cases s inferiorId threadId tcb with ⟨same, _⟩ |
      ⟨pd, idx, _, _, full⟩ |
      ⟨pd, idx, slot, _, _, run⟩
    · rwa [same]
    · rw [after_ok full]
      intro t known
      obtain ⟨pd', owner⟩ := owned t known
      refine ⟨pd', ?_⟩
      by_cases here : t.pd = pd
      · subst here
        simpa [State.thread] using owner
      · simpa [State.thread, Function.update_of_ne here] using owner
    · obtain ⟨u, run', _, _, _, owned'⟩ := introduceThread_returns (withThread_owner _ _ _ _ _ _)
        (targetOwned_withThread owned pd idx slot threadId tcb)
      rw [← run] at run'
      rwa [after_ok run']
  | threadExit inferiorId threadId =>
    rw [Event.run, after_ignore]
    rcases gdbThreadExit_cases s inferiorId threadId with ⟨same, _⟩ | ⟨pd, slot, _, _, run⟩
    · rwa [same]
    · rw [show after (gdbThreadExit inferiorId threadId) s = after (announceExit ⟨pd, slot⟩)
        (s.setThread ⟨pd, slot⟩
          { s.thread ⟨pd, slot⟩ with enabled := false }) by simp only [after, run]]
      refine targetOwned_of_same (stays_announceExit _ _)
        (stays_announceExit (R := SameTarget) _ _) ?_
      intro t known
      obtain ⟨pd', owner⟩ := owned t known
      refine ⟨pd', ?_⟩
      by_cases here : t = ⟨pd, slot⟩
      · rw [here, setThread_thread]
        rwa [here] at owner
      · rwa [setThread_other _ _ _ here]
  | fault inferiorId threadId message =>
    rw [Event.run, after_ignore]
    have registry : SameRegistry s (after (gdbHandleFault inferiorId threadId message) s) :=
      stays_gdbHandleFault inferiorId threadId message s fun _ _ _ _ _ => sameRegistry_of_eq rfl rfl
    have moves : TargetMoves (fun r => (s.thread r).enabled = true) s
        (after (gdbHandleFault inferiorId threadId message) s) :=
      stays_gdbHandleFault inferiorId threadId message s fun pd slot _ found u =>
        Or.inr ⟨⟨pd, slot⟩, (lookupThreadFromId_some found).1, rfl⟩
    rcases moves with same | ⟨r, enabled, moved⟩
    · exact targetOwned_of_same registry same owned
    · intro t known
      rw [moved] at known
      cases known
      exact ⟨r.pd, (registry.owner r).trans (ok.owner enabled)⟩
  | packet input =>
    rw [Event.run, after_ignore]
    have registry := packet_sameRegistry input s
    rcases packet_target input s with ⟨r, _, selects, target⟩ | ⟨_, same⟩
    · intro t known
      rw [target] at known
      subst known
      exact ⟨t.pd, (registry.owner t).trans (selects_owned ok selects)⟩
    · exact targetOwned_of_same registry same owned
  | suspend =>
    exact targetOwned_of_same (stays_suspendSystem (fun _ _ => sameRegistry_of_eq rfl rfl) s)
      (stays_suspendSystem (R := SameTarget) (fun _ _ => rfl) s) owned
  | resume =>
    exact targetOwned_of_same (stays_resumeSystem (fun _ _ => sameRegistry_of_eq rfl rfl) s)
      (stays_resumeSystem (R := SameTarget) (fun _ _ => rfl) s) owned

theorem reachable_targetOwned {s : State} (reachable : Reachable s) : TargetOwned s := by
  induction reachable with
  | boot output kernel =>
    intro t known
    cases known
  | step e earlier returns ih =>
    have := event_targetOwned (reachable_ok earlier) ih e
    rwa [after_ok returns] at this
  | @outside s kernel earlier ih => exact ih

/- The invariant, and what the next registration does. -/

/-- A registration of a new inferior finds a free slot when there is one and leaves every
    enabled inferior as it is. -/
def RegistersInferior (s : State) (inferiorId vspace : Word) : Prop :=
  (value (gdbRegisterInferior inferiorId vspace) s = some .noError ↔
    ∃ pd, (s.inferiors pd).enabled = false) ∧
  ∀ pd, (s.inferiors pd).enabled = true →
    (after (gdbRegisterInferior inferiorId vspace) s).inferiors pd = s.inferiors pd

def RegistersThread (s : State) (pd : Fin maxPds) (threadId tcb : Word) : Prop :=
  (value (gdbRegisterThread (s.inferiors pd).id threadId tcb) s = some .noError ↔
    ∃ slot, ((s.inferiors pd).threads slot).enabled = false) ∧
  ∀ t, (s.thread t).enabled = true →
    (after (gdbRegisterThread (s.inferiors pd).id threadId tcb) s).thread t = s.thread t

structure RegistrySound (s : State) : Prop where
  inferiorIds : ∀ pd pd', (s.inferiors pd).enabled = true → (s.inferiors pd').enabled = true →
    pd ≠ pd' → (s.inferiors pd).id ≠ (s.inferiors pd').id ∧
      (s.inferiors pd).gdbId ≠ (s.inferiors pd').gdbId
  threadIds : ∀ t t', t.pd = t'.pd → (s.thread t).enabled = true → (s.thread t').enabled = true →
    t ≠ t' → (s.thread t).id ≠ (s.thread t').id ∧ (s.thread t).gdbId ≠ (s.thread t').gdbId
  owner : ∀ t, (s.thread t).enabled = true → (s.thread t).inferior = some t.pd
  inferiorPlace : ∀ pd, (s.inferiors pd).enabled = true →
    (s.inferiors pd).gdbId.toNat % maxPds = (pd.val + 1) % maxPds
  threadPlace : ∀ t, (s.thread t).enabled = true →
    (s.thread t).gdbId.toNat % maxThreads = (t.slot.val + 1) % maxThreads
  newInferior : ∀ inferiorId vspace, s.currInferiorIdx + maxPds ≤ intMax →
    (∀ pd, (s.inferiors pd).enabled = true → (s.inferiors pd).id ≠ inferiorId) →
    RegistersInferior s inferiorId vspace
  newThread : ∀ pd threadId tcb, (s.inferiors pd).enabled = true →
    (s.inferiors pd).currThreadIdx + maxThreads ≤ intMax →
    (∀ slot, ((s.inferiors pd).threads slot).enabled = true →
      ((s.inferiors pd).threads slot).id ≠ threadId) →
    RegistersThread s pd threadId tcb

theorem registersInferior_of_fresh {s : State} {inferiorId : Word}
    (fresh : lookupInferiorFromId s inferiorId = none) (room : s.currInferiorIdx + maxPds ≤ intMax)
    (vspace : Word) : RegistersInferior s inferiorId vspace := by
  rcases registerInferior_fresh fresh room vspace with ⟨idx, scan, run⟩ | ⟨idx, pd, scan, run⟩
  · refine ⟨?_, fun pd _ => by rw [after_ok run]⟩
    rw [value_ok run]
    refine iff_of_false (by simp) ?_
    rintro ⟨pd, free⟩
    have full := ringScan_full scan pd
    rw [free] at full
    contradiction
  · have free := (ringScan_some scan).2.1
    refine ⟨?_, fun pd' on => ?_⟩
    · rw [value_ok run]
      exact iff_of_true rfl ⟨pd, free⟩
    · have ne : pd' ≠ pd := by
        rintro rfl
        rw [on] at free
        contradiction
      rw [after_ok run, withInferior, setInferior_inferiors, Function.update_of_ne ne]

theorem registersThread_of_fresh {s : State} (owned : TargetOwned s) {pd : Fin maxPds}
    {threadId : Word} (inferior : lookupInferiorFromId s (s.inferiors pd).id = some pd)
    (fresh : lookupThreadFromId (s.inferiors pd) threadId = none)
    (room : (s.inferiors pd).currThreadIdx + maxThreads ≤ intMax) (tcb : Word) :
    RegistersThread s pd threadId tcb := by
  rcases registerThread_fresh inferior fresh room tcb with ⟨idx, scan, run⟩ | ⟨idx, slot, scan, run⟩
  · refine ⟨?_, fun t _ => ?_⟩
    · rw [value_ok run]
      refine iff_of_false (by simp) ?_
      rintro ⟨slot, free⟩
      have full := ringScan_full scan slot
      rw [free] at full
      contradiction
    · rw [after_ok run]
      by_cases here : t.pd = pd
      · subst here
        simp [State.thread]
      · simp [State.thread, Function.update_of_ne here]
  · have free : ((s.inferiors pd).threads slot).enabled = false := (ringScan_some scan).2.1
    obtain ⟨u, run', inferiors, _⟩ := introduceThread_returns (withThread_owner _ _ _ _ _ _)
      (targetOwned_withThread owned pd idx slot threadId tcb)
    rw [← run] at run'
    refine ⟨?_, fun t on => ?_⟩
    · rw [value_ok run']
      exact iff_of_true rfl ⟨slot, free⟩
    · have ne : t ≠ ⟨pd, slot⟩ := by
        rintro rfl
        rw [State.thread, free] at on
        contradiction
      rw [after_ok run', State.thread, inferiors]
      exact withThread_other s pd idx slot threadId tcb ne

/-- The registry in every reachable state: distinct ids, threads in their own inferior, gdb ids
    that name the slot, and registrations that succeed exactly when there is room. -/
theorem registry_sound {s : State} (reachable : Reachable s) : RegistrySound s := by
  have ok := reachable_ok reachable
  have apart := reachable_idsApart reachable
  have inferiorGdbId {pd : Fin maxPds} (on : (s.inferiors pd).enabled = true) :
      (s.inferiors pd).gdbId.toNat = pd.val + 1 := by rw [ok.inferiorId, if_pos on]
  have threadPlace (t : ThreadRef) (on : (s.thread t).enabled = true) :
      (s.thread t).gdbId.toNat % maxThreads = (t.slot.val + 1) % maxThreads := by
    rcases ok.threads t with ⟨_, off, _⟩ | ⟨_, _, place⟩
    · rw [on] at off
      contradiction
    · exact place
  refine ⟨?_, ?_, fun t => ok.owner, ?_, threadPlace, ?_, ?_⟩
  · intro pd pd' on on' ne
    refine ⟨fun same => ne (apart.inferiors pd pd' on on' same), fun same => ne (Fin.ext ?_)⟩
    have := inferiorGdbId on
    rw [same, inferiorGdbId on'] at this
    omega
  · rintro ⟨pd, slot⟩ ⟨pd', slot'⟩ here on on' ne
    dsimp only at here
    subst here
    have ne' : slot ≠ slot' := by
      rintro rfl
      exact ne rfl
    refine ⟨fun same => ne' (apart.threads pd slot slot' on on' same), fun same => ne' (Fin.ext ?_)⟩
    have place := threadPlace ⟨pd, slot⟩ on
    rw [same, threadPlace ⟨pd, slot'⟩ on'] at place
    have lt := slot.isLt
    have lt' := slot'.isLt
    simp only [maxThreads] at place lt lt'
    omega
  · intro pd on
    rw [inferiorGdbId on]
  · intro inferiorId vspace room fresh
    exact registersInferior_of_fresh (lookupInferiorFromId_fresh fresh) room vspace
  · intro pd threadId tcb on room fresh
    have lookup : lookupInferiorFromId s (s.inferiors pd).id = some pd := by
      refine firstSlot_unique (by simp [on]) fun pd' found => ?_
      simp only [Bool.and_eq_true, beq_iff_eq] at found
      exact apart.inferiors pd' pd found.1 on found.2
    exact registersThread_of_fresh (reachable_targetOwned reachable) lookup
      (lookupThreadFromId_fresh fresh) room tcb

omit [Machine] in
theorem duo_registry_sound : letI := obligingBoard
    duoState.live ⟨0, 0⟩ = true ∧ duoState.live ⟨1, 0⟩ = true ∧ RegistrySound duoState := by
  let _ := obligingBoard
  have first : duoState.live ⟨0, 0⟩ = true := by decide +kernel
  have second : duoState.live ⟨1, 0⟩ = true := by decide +kernel
  exact ⟨first, second, registry_sound duo_registered.reachable⟩

end Libgdb
