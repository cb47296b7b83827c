import Libgdb.AllStop
import Libgdb.IdLookups

/-!
vCont packets as scripts. What a packet that is accepted does depends on the actions and ids
read from it and on the registry alone: each action sets the wake-up flag of every live thread,
then it is applied to the threads its ids address, except for those an earlier id addressed.
-/
namespace Libgdb
open ByteMemory SlotTables CheckedPrograms
variable [Machine]

/- Reading. -/

structure VcontId where
  procId : BitVec 32
  threadId : BitVec 32
  deriving DecidableEq, Repr

structure VcontAction where
  stepping : Bool
  ids : List VcontId
  deriving DecidableEq, Repr

section
variable (junk : Nat → BitVec 32)

/-- The ids of one action, and the text behind them. Each is parsed into the next two of the
    uninitialised ints. -/
def readIds : (fuel drawn : Nat) → List Byte → Except Fault (List VcontId × List Byte)
  | 0, _, _ => .error .fuel
  | fuel + 1, drawn, input => do
      assertParse ((← peek input) = chr ':')
      let id ← parseThreadId input.tail (junk drawn) (junk (drawn + 1))
      match id.ptr with
      | none => .error .nullDereference
      | some input =>
        if (← peek input) = chr ':' then
          let (ids, input) ← readIds fuel (drawn + 2) input
          return (⟨id.procId, id.threadId⟩ :: ids, input)
        else
          return ([⟨id.procId, id.threadId⟩], input)

def readActions : (fuel drawn : Nat) → List Byte → Except Fault (List VcontAction × Bool)
  | 0, _, _ => .error .fuel
  | fuel + 1, drawn, input => do
      let c ← peek input
      if c = 0 then
        return ([], true)
      else
        assertParse (c = chr ';')
        let action ← peek input.tail
        if action = chr 's' ∨ action = chr 'c' then
          let (ids, input) ← readIds junk fuel drawn input.tail.tail
          let (actions, supported) ← readActions fuel (drawn + 2 * ids.length) input
          return (⟨action = chr 's', ids⟩ :: actions, supported)
        else
          return ([], false)

end

/- Applying. -/

def VcontId.threads (id : VcontId) : List ThreadRef :=
  match tableIndex maxPds (id.procId.toInt - 1) with
  | .error _ => []
  | .ok pd =>
    let slots :=
      if id.threadId.toInt = -1 then List.finRange maxThreads
      else match tableIndex maxThreads (id.threadId.toInt - 1) with
        | .error _ => []
        | .ok slot => [slot]
    slots.map fun slot => ⟨pd, slot⟩

/-- The first action for a live thread decides. -/
def touchThread (stepping : Bool) (s : State) (t : ThreadRef) : State :=
  if (s.thread t).enabled = true ∧ s.handled t.pd t.slot = false then
    { s.setThread t { s.thread t with wakeup := true, ssEnabled := stepping || (s.thread t).ssEnabled } with
      handled := Function.update s.handled t.pd (Function.update (s.handled t.pd) t.slot true)
      kernel := s.kernel.record (.tcbConfigureSingleStepping (s.thread t).tcb stepping.toNat) }
  else s

theorem vcontThreads_touch {stepping : Bool} {pd : Fin maxPds} {procId : Int}
    (names : (idToIdx procId maxPds >>= tableIndex maxPds) = .ok pd) (count : Nat)
    (slot : Fin maxThreads) (s : State) :
    (vcontThreads stepping (some pd) procId (count + 1) slot.val).run s =
      (vcontThreads stepping (some pd) procId count (slot.val + 1)).run
        (touchThread stepping s ⟨pd, slot⟩) := by
  obtain ⟨index, first, second⟩ := bind_ok names
  rw [vcontThreads, deref_some, pure_bind, run_bind_ok (liftParse_run (tableIndex_nat slot.isLt) s),
    run_bind_ok (EStateM.run_get s)]
  dsimp only
  unfold touchThread
  by_cases enabled : (s.thread ⟨pd, slot⟩).enabled = true
  · rw [if_pos enabled, run_bind_ok (liftParse_run first s), run_bind_ok (liftParse_run second s)]
    by_cases handled : s.handled pd slot = true
    · rw [if_pos handled, if_neg fun h => by simp [handled] at h]
    · have both : (s.thread ⟨pd, slot⟩).enabled = true ∧ s.handled pd slot = false :=
        ⟨enabled, Bool.eq_false_iff.mpr handled⟩
      rw [if_neg handled, if_pos both]
      cases stepping with
      | true =>
        rw [if_pos rfl]
        unfold enableSingleStep
        refine Eq.trans (b := (vcontThreads true (some pd) procId count (slot.val + 1)).run _)
          rfl ?_
        congr 1
        simp only [State.setThread, State.setInferior, Inferior.setThread, State.thread,
          State.withKernel,
          Function.update_self, Function.update_idem]
        rfl
      | false =>
        rw [if_neg (by decide)]
        unfold disableSingleStep
        refine Eq.trans (b := (vcontThreads false (some pd) procId count (slot.val + 1)).run _)
          rfl ?_
        congr 1
  · rw [if_neg enabled, if_neg fun h => enabled h.1]

theorem vcontThreads_run {stepping : Bool} {pd : Fin maxPds} {procId : Int}
    (names : (idToIdx procId maxPds >>= tableIndex maxPds) = .ok pd) (count i : Nat)
    (inside : i + count ≤ maxThreads) (s : State) :
    (vcontThreads stepping (some pd) procId count i).run s = .ok ()
      (((((List.finRange maxThreads).drop i).take count).map fun slot => ThreadRef.mk pd slot).foldl
        (touchThread stepping) s) := by
  induction count generalizing i s with
  | zero =>
    rw [List.take_zero]
    rfl
  | succ count ih =>
    have lt : i < (List.finRange maxThreads).length := by
      rw [List.length_finRange]
      omega
    rw [List.drop_eq_getElem_cons lt, List.take_succ_cons, List.getElem_finRange, List.map_cons,
      List.foldl_cons]
    exact (vcontThreads_touch names count ⟨i, by omega⟩ s).trans (ih (i + 1) (by omega) _)

omit [Machine] in
theorem tableIndex_cases (n : Nat) (i : Int) :
    (∃ j : Fin n, tableIndex n i = .ok j ∧ (j.val : Int) = i) ∨
    (∃ e, tableIndex n i = .error e ∧ (i < 0 ∨ (n : Int) ≤ i)) := by
  unfold tableIndex
  by_cases inside : 0 ≤ i ∧ i < n
  · rw [dif_pos inside]
    exact Or.inl ⟨_, rfl, Int.toNat_of_nonneg inside.1⟩
  · rw [dif_neg inside]
    exact Or.inr ⟨_, rfl, by omega⟩

omit [Machine] in
theorem mem_threads {id : VcontId} {t : ThreadRef} : t ∈ id.threads ↔
    (t.pd.val + 1 : Int) = id.procId.toInt ∧
      (id.threadId.toInt = -1 ∨ (t.slot.val + 1 : Int) = id.threadId.toInt) := by
  obtain ⟨tpd, tslot⟩ := t
  unfold VcontId.threads
  rcases tableIndex_cases maxPds (id.procId.toInt - 1) with ⟨pd, index, place⟩ | ⟨e, error, outside⟩
  · rw [index]
    have here : (tpd.val + 1 : Int) = id.procId.toInt ↔ pd = tpd := by
      rw [Fin.ext_iff]
      omega
    by_cases every : id.threadId.toInt = -1
    · simp [every, here]
    · rcases tableIndex_cases maxThreads (id.threadId.toInt - 1) with ⟨slot, index', place'⟩ |
        ⟨e, error, outside⟩
      · have there : (tslot.val + 1 : Int) = id.threadId.toInt ↔ slot = tslot := by
          rw [Fin.ext_iff]
          omega
        simp [every, here, there, index']
        exact and_congr eq_comm eq_comm
      · have := tslot.isLt
        simp only [every, error, if_false, List.map_nil, List.not_mem_nil, false_or,
          false_iff, not_and]
        omega
  · have := tpd.isLt
    rw [error]
    simp only [List.not_mem_nil, false_iff, not_and]
    omega

omit [Machine] in
theorem threads_named {id : VcontId} {pd : Fin maxPds}
    (named : id.procId.toInt = (pd.val + 1 : Nat)) :
    (id.threadId.toInt = -1 →
      id.threads = (List.finRange maxThreads).map fun slot => ThreadRef.mk pd slot) ∧
    (∀ slot : Fin maxThreads, id.threadId.toInt = (slot.val + 1 : Nat) →
      id.threads = [⟨pd, slot⟩]) := by
  have index : tableIndex maxPds (id.procId.toInt - 1) = .ok pd := by
    rw [named, show ((pd.val + 1 : Nat) : Int) - 1 = (pd.val : Int) by omega]
    exact tableIndex_nat pd.isLt
  unfold VcontId.threads
  rw [index]
  constructor
  · intro every
    dsimp only
    rw [if_pos every]
  · intro slot single
    have index' : tableIndex maxThreads (id.threadId.toInt - 1) = .ok slot := by
      rw [single, show ((slot.val + 1 : Nat) : Int) - 1 = (slot.val : Int) by omega]
      exact tableIndex_nat slot.isLt
    dsimp only
    rw [if_neg (by omega), index']
    rfl

omit [Machine] in
theorem threads_outside {id : VcontId} (outside : id.procId.toInt = -1 ∨ id.threadId.toInt ≤ -255) :
    id.threads = [] := by
  apply List.eq_nil_iff_forall_not_mem.mpr
  intro t mem
  obtain ⟨proc, thread⟩ := mem_threads.mp mem
  omega

theorem resume_run {s : State} (ok : RegistryOk s) (stepping : Bool) (id : VcontId)
    (range : IdsInRange s (.resume stepping) id.procId.toInt id.threadId.toInt) :
    ((IdUse.resume stepping).run id.procId id.threadId).run s =
      .ok () (id.threads.foldl (touchThread stepping) s) := by
  unfold IdUse.run
  dsimp only
  by_cases all : id.procId.toInt = -1
  · rw [if_neg fun ne => ne all, threads_outside (Or.inl all)]
    rfl
  rw [if_pos all]
  rcases range with here | ⟨index, ⟨least, low⟩ | ⟨names, range⟩⟩
  · exact absurd here all
  · -- the loop ends before it starts
    rw [threads_outside (Or.inr low)]
    have none := (loop_range id.threadId.toInt).1 low
    have loop (found : Option (Fin maxPds))
        (lookup : lookupInferiorFromGdbId s id.procId.toInt = .ok found) :
        (vcontApply stepping id.procId.toInt id.threadId.toInt).run s = .ok () s := by
      rw [vcontApply_run lookup, if_neg (by omega), if_neg (by omega), none]
      rfl
    rcases lookupInferior_cases ok id.procId.toInt with ⟨_, pd, found⟩ | ⟨_, _, missed⟩ |
      ⟨_, outside, _⟩
    · exact loop _ found
    · exact loop _ missed
    · exact absurd index outside
  · obtain ⟨pd, enabled, named⟩ := names
    have place := ok.inferiorId pd
    rw [if_pos enabled] at place
    rw [place] at named
    have found : lookupInferiorFromGdbId s id.procId.toInt = .ok (some pd) := by
      rw [← named]
      exact lookupInferior_registered ok enabled
    have row : (idToIdx id.procId.toInt maxPds >>= tableIndex maxPds) = .ok pd := by
      rw [← named, idToIdx_succ, ok_bind, Nat.mod_eq_of_lt pd.isLt]
      exact tableIndex_nat pd.isLt
    obtain ⟨whole, single⟩ := threads_named named.symm
    unfold vcontApply
    rw [run_bind_ok (EStateM.run_get s), run_bind_ok (liftParse_run found s)]
    by_cases every : id.threadId.toInt = -1
    · rw [if_pos every, whole every]
      have run := @vcontThreads_run _ stepping _ _ row maxThreads 0 (by omega) s
      rw [List.drop_zero, List.take_of_length_le (by simp)] at run
      exact run
    · rw [if_neg every]
      obtain ⟨n, succ⟩ : ∃ n : Nat, id.threadId.toInt = (n + 1 : Nat) :=
        ⟨(id.threadId.toInt - 1).toNat, by omega⟩
      have lt : n < maxThreads := by
        have : id.threadId.toInt ≤ 256 := by omega
        simp only [maxThreads]
        omega
      rw [single ⟨n, lt⟩ succ, succ, idToIdx_succ, run_bind_ok (liftParse_run rfl s),
        Nat.mod_eq_of_lt lt,
        show (((n + 1 : Nat) : Int) - (n : Nat)).toNat = 1 by omega]
      have run := @vcontThreads_run _ stepping _ _ row 1 n (by omega) s
      rw [List.drop_eq_getElem_cons (by rw [List.length_finRange]; exact lt), List.take_succ_cons,
        List.take_zero,
        List.getElem_finRange] at run
      exact run

/- What a touch keeps. -/

theorem sameRegistry_touch (stepping : Bool) (s : State) (t : ThreadRef) :
    SameRegistry s (touchThread stepping s t) := by
  unfold touchThread
  split
  · have flags := PacketFrame.flags (R := SameRegistry) s t true
        (stepping || (s.thread t).ssEnabled)
    exact ⟨rfl, flags.inferiors⟩
  · exact Std.Refl.refl s

theorem sameRegistry_touches (stepping : Bool) (ts : List ThreadRef) (s : State) :
    SameRegistry s (ts.foldl (touchThread stepping) s) := by
  induction ts generalizing s with
  | nil => exact Std.Refl.refl s
  | cons t ts ih => exact IsTrans.trans _ _ _ (sameRegistry_touch stepping s t) (ih _)

theorem touches_keep {α : Type} {f : State → α}
    (touch : ∀ (stepping : Bool) (s : State) (t : ThreadRef), f (touchThread stepping s t) = f s)
    (stepping : Bool) (ts : List ThreadRef) (s : State) :
    f (ts.foldl (touchThread stepping) s) = f s := by
  induction ts generalizing s with
  | nil => rfl
  | cons t ts ih => rw [List.foldl_cons, ih, touch]

theorem touches_drawn (stepping : Bool) (ts : List ThreadRef) (s : State) :
    (ts.foldl (touchThread stepping) s).drawn = s.drawn := by
  refine touches_keep (f := State.drawn) (fun stepping s t => ?_) stepping ts s
  unfold touchThread
  split <;> rfl

theorem touchThread_draw (stepping : Bool) (s : State) (n : Nat) (t : ThreadRef) :
    touchThread stepping (s.draw n) t = (touchThread stepping s t).draw n := by
  by_cases acts : (s.thread t).enabled = true ∧ s.handled t.pd t.slot = false
  · rw [touchThread, touchThread, if_pos acts]
    exact if_pos acts
  · rw [touchThread, touchThread, if_neg acts]
    exact if_neg acts

theorem touches_draw (stepping : Bool) (ts : List ThreadRef) (s : State) (n : Nat) :
    ts.foldl (touchThread stepping) (s.draw n) = (ts.foldl (touchThread stepping) s).draw n := by
  induction ts generalizing s with
  | nil => rfl
  | cons t ts ih => rw [List.foldl_cons, List.foldl_cons, touchThread_draw, ih]

theorem draw_draw (s : State) (m n : Nat) : (s.draw m).draw n = s.draw (m + n) := by
  simp [State.draw, Nat.add_assoc]

/- A packet that is accepted was read first and applied then. -/

def idsThreads (ids : List VcontId) : List ThreadRef := ids.flatMap VcontId.threads

omit [Machine] in
theorem idsThreads_cons (id : VcontId) (ids : List VcontId) :
    idsThreads (id :: ids) = id.threads ++ idsThreads ids := List.flatMap_cons

def IdsReach (s : State) (stepping : Bool) (ids : List VcontId) : Prop :=
  ∀ id ∈ ids, IdsInRange s (.resume stepping) id.procId.toInt id.threadId.toInt

theorem sameRegistry_draw (s : State) (n : Nat) : SameRegistry s (s.draw n) :=
  sameRegistry_of_eq rfl rfl

theorem sameRegistry_touches_draw (stepping : Bool) (ts : List ThreadRef) (s : State) (n : Nat) :
    SameRegistry s ((ts.foldl (touchThread stepping) s).draw n) :=
  IsTrans.trans _ _ _ (sameRegistry_touches stepping ts s) (sameRegistry_draw _ n)

theorem vcontIds_returns {stepping : Bool} {fuel : Nat} {input rest : List Byte} {s u : State}
    (ok : RegistryOk s) (returns : (vcontIds stepping fuel input).run s = .ok rest u) :
    ∃ ids, readIds Machine.junkInt fuel s.drawn input = .ok (ids, rest) ∧ IdsReach s stepping ids ∧
      u = ((idsThreads ids).foldl (touchThread stepping) s).draw (2 * ids.length) := by
  induction fuel generalizing input s with
  | zero => cases returns
  | succ fuel ih =>
    rw [vcontIds_uses] at returns
    obtain ⟨c, head, rest₁⟩ := liftParse_bind_ok returns
    obtain ⟨colon, rest₂⟩ := assert_bind_ok rest₁
    rw [run_bind_ok (freshInt_run s),
      run_bind_ok (show freshInt.run (s.draw 1) = .ok (Machine.junkInt (s.drawn + 1))
        (s.draw 2) from rfl)]
      at rest₂
    obtain ⟨id, parsed, rest₃⟩ := liftParse_bind_ok rest₂
    obtain ⟨_, v, applied, rest₄⟩ := ok_bind_run rest₃
    have drawn : SameRegistry s (s.draw 2) := sameRegistry_of_eq rfl rfl
    have ok₂ : RegistryOk (s.draw 2) := registryOk_of_same drawn ok
    have range : IdsInRange (s.draw 2) (.resume stepping) id.procId.toInt id.threadId.toInt :=
      (resume_safe_iff ok₂ stepping id.procId id.threadId).mp (safe_of_ok applied)
    cases applied.symm.trans (resume_run ok₂ stepping ⟨id.procId, id.threadId⟩ range)
    rw [touches_draw] at rest₄
    obtain ⟨input', ptr, rest₅⟩ := deref_bind_ok rest₄
    obtain ⟨next, follows, rest₆⟩ := liftParse_bind_ok rest₅
    have here : IdsInRange s (.resume stepping) id.procId.toInt id.threadId.toInt := range
    rw [readIds, head, ok_bind, assertParse, if_pos colon, ok_bind, parsed, ok_bind]
    simp only [ptr, follows, ok_bind]
    by_cases more : next = chr ':'
    · rw [if_pos more] at rest₆
      obtain ⟨ids, read, reach, rfl⟩ :=
        ih (registryOk_of_same (sameRegistry_touches_draw stepping _ s 2) ok) rest₆
      refine ⟨⟨id.procId, id.threadId⟩ :: ids, ?_, ?_, ?_⟩
      · have read' : readIds Machine.junkInt fuel (s.drawn + 2) input' = .ok (ids, rest) := by
          rw [State.draw, touches_drawn] at read
          exact read
        rw [if_pos more, read', ok_bind]
        rfl
      · intro one mem
        rcases List.mem_cons.mp mem with rfl | later
        · exact here
        · exact (idsInRange_of_same (sameRegistry_touches_draw stepping _ s 2) _ _ _).mp
            (reach one later)
      · rw [touches_draw, draw_draw, idsThreads_cons, List.foldl_append,
          List.length_cons, Nat.mul_add,
          Nat.add_comm 2]
    · rw [if_neg more] at rest₆
      cases rest₆
      refine ⟨[⟨id.procId, id.threadId⟩], if_neg more, ?_, ?_⟩
      · intro one mem
        rw [List.mem_singleton.mp mem]
        exact here
      · simp [idsThreads]

theorem vcontIds_run {stepping : Bool} {fuel : Nat} {input rest : List Byte} {s : State}
    {ids : List VcontId}
    (ok : RegistryOk s) (read : readIds Machine.junkInt fuel s.drawn input = .ok (ids, rest))
    (reach : IdsReach s stepping ids) :
    (vcontIds stepping fuel input).run s =
      .ok rest (((idsThreads ids).foldl (touchThread stepping) s).draw (2 * ids.length)) := by
  induction fuel generalizing input s ids with
  | zero => cases read
  | succ fuel ih =>
    rw [readIds] at read
    obtain ⟨c, head, read₁⟩ := bind_ok read
    obtain ⟨_, colon, read₂⟩ := bind_ok read₁
    replace colon : c = chr ':' := by
      by_contra other
      rw [assertParse, if_neg other] at colon
      cases colon
    obtain ⟨id, parsed, read₃⟩ := bind_ok read₂
    rw [vcontIds_uses, run_bind_ok (liftParse_run head s), run_bind_ok (assert_run colon s),
      run_bind_ok (freshInt_run s),
      run_bind_ok (show freshInt.run (s.draw 1) = .ok (Machine.junkInt (s.drawn + 1))
        (s.draw 2) from rfl),
      run_bind_ok (liftParse_run parsed _)]
    cases ptr : id.ptr with
    | none =>
      rw [ptr] at read₃
      cases read₃
    | some input' =>
      rw [ptr] at read₃
      obtain ⟨next, follows, read₄⟩ := bind_ok read₃
      have applied (range : IdsInRange s (.resume stepping) id.procId.toInt id.threadId.toInt) :=
        resume_run (registryOk_of_same (sameRegistry_draw s 2) ok) stepping
          ⟨id.procId, id.threadId⟩ range
      by_cases more : next = chr ':'
      · rw [if_pos more] at read₄
        obtain ⟨⟨later, rest'⟩, tail, read₅⟩ := bind_ok read₄
        cases read₅
        obtain ⟨first, others⟩ := List.forall_mem_cons.mp reach
        rw [run_bind_ok (applied first), touches_draw, run_bind_ok (deref_run rfl _),
          run_bind_ok (liftParse_run follows _), if_pos more]
        have same :=
          sameRegistry_touches_draw stepping (VcontId.threads ⟨id.procId, id.threadId⟩) s 2
        rw [ih (registryOk_of_same same ok) (by rw [State.draw, touches_drawn]; exact tail)
          fun one mem => (idsInRange_of_same same _ _ _).mpr (others one mem)]
        rw [touches_draw, draw_draw, idsThreads_cons, List.foldl_append,
          List.length_cons, Nat.mul_add,
          Nat.add_comm 2]
      · rw [if_neg more] at read₄
        cases read₄
        rw [run_bind_ok (applied (reach _ List.mem_cons_self)), touches_draw,
          run_bind_ok (deref_run rfl _), run_bind_ok (liftParse_run follows _), if_neg more,
            idsThreads_cons,
          show idsThreads [] = [] from rfl, List.append_nil]
        rfl

/- Actions. -/

def applyAction (s : State) (a : VcontAction) : State :=
  (idsThreads a.ids).foldl (touchThread a.stepping) (setAllWakeup s (!a.stepping))

theorem script_keeps {α : Type} {f : State → α}
    (allWakeup : ∀ (s : State) (b : Bool), f (setAllWakeup s b) = f s)
    (touch : ∀ (stepping : Bool) (s : State) (t : ThreadRef), f (touchThread stepping s t) = f s)
    (script : List VcontAction) (s : State) : f (script.foldl applyAction s) = f s := by
  induction script generalizing s with
  | nil => rfl
  | cons a script ih => rw [List.foldl_cons, ih, applyAction, touches_keep touch, allWakeup]

def scriptIds (script : List VcontAction) : List VcontId := script.flatMap VcontAction.ids

def ScriptReach (s : State) (script : List VcontAction) : Prop :=
  ∀ a ∈ script, IdsReach s a.stepping a.ids

theorem sameRegistry_action (s : State) (a : VcontAction) : SameRegistry s (applyAction s a) :=
  IsTrans.trans _ _ _ (PacketFrame.allWakeup s _) (sameRegistry_touches _ _ _)

theorem applyAction_draw (s : State) (n : Nat) (a : VcontAction) :
    applyAction (s.draw n) a = (applyAction s a).draw n := touches_draw _ _ (setAllWakeup s _) n

theorem applyScript_draw (script : List VcontAction) (s : State) (n : Nat) :
    script.foldl applyAction (s.draw n) = (script.foldl applyAction s).draw n := by
  induction script generalizing s with
  | nil => rfl
  | cons a script ih => rw [List.foldl_cons, List.foldl_cons, applyAction_draw, ih]

theorem sameRegistry_script (script : List VcontAction) (s : State) :
    SameRegistry s (script.foldl applyAction s) := by
  induction script generalizing s with
  | nil => exact Std.Refl.refl s
  | cons a script ih => exact IsTrans.trans _ _ _ (sameRegistry_action s a) (ih _)

theorem vcontActions_round {b : Bool} {action : Byte}
    (kind : action = chr 's' ∧ b = true ∨ action = chr 'c' ∧ b = false) (fuel : Nat)
    {input : List Byte}
    (head : peek input = .ok (chr ';')) (second : peek input.tail = .ok action) (s : State) :
    (vcontActions (fuel + 1) input).run s =
      (vcontIds b fuel input.tail.tail >>= fun input => vcontActions fuel input).run
        (setAllWakeup s (!b)) := by
  rw [vcontActions, run_bind_ok (liftParse_run head s), if_neg (by decide),
    run_bind_ok (assert_run rfl s),
    run_bind_ok (liftParse_run second s)]
  rcases kind with ⟨rfl, rfl⟩ | ⟨rfl, rfl⟩
  · rw [if_pos rfl]
    rfl
  · rw [if_neg (by decide), if_pos rfl]
    rfl

omit [Machine] in
theorem readActions_round {junk : Nat → BitVec 32} {b : Bool} {action : Byte}
    (kind : action = chr 's' ∧ b = true ∨ action = chr 'c' ∧ b = false) {fuel drawn : Nat}
    {input rest : List Byte}
    (head : peek input = .ok (chr ';')) (second : peek input.tail = .ok action) {ids : List VcontId}
    (read : readIds junk fuel drawn input.tail.tail = .ok (ids, rest)) :
    readActions junk (fuel + 1) drawn input =
      readActions junk fuel (drawn + 2 * ids.length) rest >>=
        fun later => .ok (⟨b, ids⟩ :: later.1, later.2) := by
  rw [readActions, head, ok_bind, if_neg (by decide), assertParse, if_pos rfl, ok_bind,
    second, ok_bind]
  rcases kind with ⟨rfl, rfl⟩ | ⟨rfl, rfl⟩
  · rw [if_pos (Or.inl rfl), read]
    rfl
  · rw [if_pos (Or.inr rfl), read]
    rfl

theorem vcontActions_returns {fuel : Nat} {input : List Byte} {s u : State} (ok : RegistryOk s)
    (returns : (vcontActions fuel input).run s = .ok () u) :
    ∃ script supported, readActions Machine.junkInt fuel s.drawn input = .ok (script, supported) ∧
      ScriptReach s script := by
  induction fuel generalizing input s with
  | zero => cases returns
  | succ fuel ih =>
    have unrolled := returns
    rw [vcontActions] at unrolled
    obtain ⟨c, head, rest₁⟩ := liftParse_bind_ok unrolled
    by_cases ended : c = 0
    · refine ⟨[], true, ?_, fun a mem => nomatch mem⟩
      rw [readActions, head, ok_bind, if_pos ended]
      rfl
    rw [if_neg ended] at rest₁
    obtain ⟨semicolon, rest₂⟩ := assert_bind_ok rest₁
    obtain ⟨action, second, rest₃⟩ := liftParse_bind_ok rest₂
    have round {b : Bool} (kind : action = chr 's' ∧ b = true ∨ action = chr 'c' ∧ b = false) :
        ∃ ids rest, readIds Machine.junkInt fuel s.drawn input.tail.tail = .ok (ids, rest) ∧
          IdsReach s b ids ∧ ∃ script supported,
            readActions Machine.junkInt fuel (s.drawn + 2 * ids.length) rest =
              .ok (script, supported) ∧
              ScriptReach s script := by
      rw [vcontActions_round kind fuel (by rw [head, semicolon]) second] at returns
      obtain ⟨rest, v, first, later⟩ := ok_bind_run returns
      have same : SameRegistry s (setAllWakeup s (!b)) := PacketFrame.allWakeup s _
      obtain ⟨ids, read, reach, rfl⟩ := vcontIds_returns (registryOk_of_same same ok) first
      have same' := IsTrans.trans _ _ _ same (sameRegistry_touches_draw b (idsThreads ids) _
          (2 * ids.length))
      obtain ⟨script, supported, reads, reaches⟩ := ih (registryOk_of_same same' ok) later
      rw [State.draw, touches_drawn] at reads
      exact ⟨ids, rest, read, fun one mem => (idsInRange_of_same same _ _ _).mp (reach one mem),
        script, supported,
        reads, fun a mem one mem' => (idsInRange_of_same same' _ _ _).mp (reaches a mem one mem')⟩
    have whole {b : Bool} (kind : action = chr 's' ∧ b = true ∨ action = chr 'c' ∧ b = false) :
        ∃ script supported, readActions Machine.junkInt (fuel + 1) s.drawn input =
          .ok (script, supported) ∧
          ScriptReach s script := by
      obtain ⟨ids, rest, read, reach, script, supported, reads, reaches⟩ := round kind
      refine ⟨⟨b, ids⟩ :: script, supported, ?_, List.forall_mem_cons.mpr ⟨reach, reaches⟩⟩
      rw [readActions_round kind (by rw [head, semicolon]) second read, reads]
      rfl
    by_cases steps : action = chr 's'
    · exact whole (Or.inl ⟨steps, rfl⟩)
    by_cases continues : action = chr 'c'
    · exact whole (Or.inr ⟨continues, rfl⟩)
    · refine ⟨[], false, ?_, fun a mem => nomatch mem⟩
      rw [readActions, head, ok_bind, if_neg ended, assertParse, if_pos semicolon, ok_bind,
        second, ok_bind,
        if_neg (by simp [steps, continues])]
      rfl

/-- A script that keeps to the tables is applied; an action that is not supported is answered
    with an error and the ones before it stay applied. -/
theorem vcontActions_run {fuel : Nat} {input : List Byte} {s : State} {script : List VcontAction}
    {supported : Bool} (ok : RegistryOk s)
    (read : readActions Machine.junkInt fuel s.drawn input = .ok (script, supported))
    (reach : ScriptReach s script) :
    (vcontActions fuel input).run s = .ok ()
      (let t := (script.foldl applyAction s).draw (2 * (scriptIds script).length)
        if supported = true then t else t.lay 0 (str "E04")) := by
  induction fuel generalizing input s script supported with
  | zero => cases read
  | succ fuel ih =>
    have unrolled := read
    rw [readActions] at unrolled
    obtain ⟨c, head, read₁⟩ := bind_ok unrolled
    by_cases ended : c = 0
    · rw [if_pos ended] at read₁
      cases read₁
      rw [vcontActions, run_bind_ok (liftParse_run head s), if_pos ended]
      rfl
    rw [if_neg ended] at read₁
    obtain ⟨_, semicolon, read₂⟩ := bind_ok read₁
    replace semicolon : c = chr ';' := by
      by_contra other
      rw [assertParse, if_neg other] at semicolon
      cases semicolon
    obtain ⟨action, second, read₃⟩ := bind_ok read₂
    have round {b : Bool} (kind : action = chr 's' ∧ b = true ∨ action = chr 'c' ∧ b = false)
        {ids : List VcontId} {rest : List Byte}
        (first : readIds Machine.junkInt fuel s.drawn input.tail.tail = .ok (ids, rest)) :
        (vcontActions (fuel + 1) input).run s = .ok ()
          (let t := (script.foldl applyAction s).draw (2 * (scriptIds script).length)
            if supported = true then t else t.lay 0 (str "E04")) := by
      rw [readActions_round kind (by rw [head, semicolon]) second first] at read
      obtain ⟨⟨later, supported'⟩, reads, made⟩ := bind_ok read
      cases made
      obtain ⟨here, others⟩ := List.forall_mem_cons.mp reach
      have same : SameRegistry s (setAllWakeup s (!b)) := PacketFrame.allWakeup s _
      have first' : readIds Machine.junkInt fuel (setAllWakeup s (!b)).drawn input.tail.tail =
          .ok (ids, rest) := first
      rw [vcontActions_round kind fuel (by rw [head, semicolon]) second,
        run_bind_ok (@vcontIds_run _ b _ _ _ _ _ (registryOk_of_same same ok) first'
          fun one mem => (idsInRange_of_same same _ _ _).mpr (here one mem))]
      have same' := IsTrans.trans _ _ _ same (sameRegistry_touches_draw b (idsThreads ids) _
          (2 * ids.length))
      rw [ih (registryOk_of_same same' ok) (by rw [State.draw, touches_drawn]; exact reads)
        fun a mem one mem' => (idsInRange_of_same same' _ _ _).mpr (others a mem one mem')]
      have total : 2 * ids.length + 2 * (scriptIds later).length =
          2 * (scriptIds (⟨b, ids⟩ :: later)).length := by
        simp only [scriptIds, List.flatMap_cons, List.length_append]
        omega
      rw [applyScript_draw, draw_draw, total]
      rfl
    by_cases steps : action = chr 's'
    · rw [if_pos (Or.inl steps)] at read₃
      obtain ⟨⟨ids, rest⟩, first, _⟩ := bind_ok read₃
      exact round (Or.inl ⟨steps, rfl⟩) first
    by_cases continues : action = chr 'c'
    · rw [if_pos (Or.inr continues)] at read₃
      obtain ⟨⟨ids, rest⟩, first, _⟩ := bind_ok read₃
      exact round (Or.inr ⟨continues, rfl⟩) first
    · rw [if_neg (by simp [steps, continues])] at read₃
      cases read₃
      rw [vcontActions, run_bind_ok (liftParse_run head s), if_neg ended,
        run_bind_ok (assert_run semicolon s),
        run_bind_ok (liftParse_run second s), if_neg steps, if_neg continues,
        strlcpy_run 0 (str "E04") bufsize s (by decide) (by decide)]
      rfl

/- Packets. -/

/-- What a vCont packet asks for, read with the uninitialised ints the stub would draw now. -/
def readScript (s : State) (input : List Byte) : Except Fault (List VcontAction × Bool) :=
  readActions Machine.junkInt (input.length + 1) s.drawn (input.drop 5)

def scriptStart (s : State) : State := { s.lay 0 [] with handled := fun _ _ => false }

theorem dispatch_vcont (rest : List Byte) (s : State) :
    (gdbHandlePacket (str "vCont;" ++ rest)).run s =
      (do
        handleVcont (str "vCont;" ++ rest)
        return true : Stub Bool).run (s.lay 0 []) := by
  have unknown : (textIs (str "vCont;" ++ rest) "vCont?" 7).run (s.lay 0 []) =
      .ok false (s.lay 0 []) := rfl
  have known : (textIs (str "vCont;" ++ rest) "vCont;" 6).run (s.lay 0 []) =
      .ok true (s.lay 0 []) := by
    cases rest <;> rfl
  have dispatched : gdbHandlePacket (str "vCont;" ++ rest) = (do
      put 0 0
      if ← textIs (str "vCont;" ++ rest) "vCont?" 7 then
        strlcpy 0 (str "vCont;c;C;s;S") bufsize
        return false
      else if ← textIs (str "vCont;" ++ rest) "vCont;" 6 then
        handleVcont (str "vCont;" ++ rest)
        return true
      else
        return false) := rfl
  rw [dispatched, run_bind_ok (put_zero_run (by decide) s), run_bind_ok unknown, if_neg (by decide),
    run_bind_ok known, if_pos rfl]

theorem sameRegistry_start (s : State) : SameRegistry s (scriptStart s) :=
  sameRegistry_of_eq rfl rfl

theorem vcont_run {s : State} (ok : RegistryOk s) {rest : List Byte} {script : List VcontAction}
    {supported : Bool} (read : readScript s (str "vCont;" ++ rest) = .ok (script, supported))
    (reach : ScriptReach s script) :
    (gdbHandlePacket (str "vCont;" ++ rest)).run s = .ok true
      (let t := (script.foldl applyAction (scriptStart s)).draw (2 * (scriptIds script).length)
        if supported = true then t else t.lay 0 (str "E04")) := by
  have same := sameRegistry_start s
  have actions := vcontActions_run (s := scriptStart s) (registryOk_of_same same ok) read
    fun a mem one mem' => (idsInRange_of_same same _ _ _).mpr (reach a mem one mem')
  rw [dispatch_vcont]
  exact run_bind_ok ((run_bind_ok rfl _).trans actions) _

theorem vcont_returns {s u : State} (ok : RegistryOk s) {rest : List Byte} {b : Bool}
    (returns : (gdbHandlePacket (str "vCont;" ++ rest)).run s = .ok b u) :
    ∃ script supported, readScript s (str "vCont;" ++ rest) = .ok (script, supported) ∧
    ScriptReach s script := by
  rw [dispatch_vcont] at returns
  obtain ⟨_, v, handled, _⟩ := ok_bind_run returns
  have same := sameRegistry_start s
  have actions : (vcontActions ((str "vCont;" ++ rest).length + 1)
      ((str "vCont;" ++ rest).drop 5)).run
      (scriptStart s) = .ok () v := handled
  obtain ⟨script, supported, read, reach⟩ :=
    vcontActions_returns (registryOk_of_same same ok) actions
  exact ⟨script, supported, read, fun a mem one mem' =>
    (idsInRange_of_same same _ _ _).mp (reach a mem one mem')⟩

end Libgdb
