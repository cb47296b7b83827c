import Libgdb.AllStop
import Libgdb.Crowds
import Libgdb.FaultReports
import Libgdb.ThreadList

/-!
What holds in every run of the debugger component: the debuggees are those that `init` registered,
and once a fault has stopped them none runs before the host asks for it.
-/
namespace Libgdb
open ByteMemory CheckedPrograms SlotTables
open Simulations Component
variable [Machine]

/- Packets that have the system resumed. -/

def Resumes (input : List Byte) : Prop := input.head? = some (chr 'D') ∨ str "vCont;" <+: input

theorem textIs_starts {ptr : List Byte} {literal : String} (nonzero : ∀ c ∈ str literal, c ≠ 0)
    {s t : State} (returns : (textIs ptr literal (str literal).length).run s = .ok true t) :
    str literal <+: ptr := by
  unfold textIs at returns
  obtain ⟨diff, u, compared, answer⟩ := ok_bind_run returns
  apply prefix_of_strncmp nonzero
  cases comparison : strncmp ptr (str literal ++ [0]) (str literal).length with
  | error f =>
    rw [comparison] at compared
    cases compared
  | ok d =>
    rw [comparison] at compared
    cases compared
    have same : EStateM.Result.ok (decide (diff = 0)) s = EStateM.Result.ok true t := answer
    injection same with zero _
    rw [of_decide_eq_true zero]

theorem yields_ite {α : Type} {Q : α → Prop} {c : Prop} [Decidable c] {m n : Stub α}
    (hm : c → Yields Q m) (hn : ¬ c → Yields Q n) : Yields Q (if c then m else n) := by
  split
  · rename_i holds
    exact hm holds
  · rename_i fails
    exact hn fails

theorem packet_yields_false {input : List Byte} (other : ¬ Resumes input) :
    Yields (fun resume => resume = false) (gdbHandlePacket input) := by
  have reply {m : Stub Unit} : Yields (fun resume => resume = false) (do m; return false) :=
    yields_bind (yields_true m) fun _ _ => yields_pure rfl
  refine yields_bind (yields_true _) fun _ _ => ?_
  cases input with
  | nil =>
    intro s b t returns
    cases returns
  | cons c rest =>
    change Yields _ (pure c >>= _)
    rw [pure_bind]
    refine yields_ite (fun _ => reply) fun _ => yields_ite (fun _ => reply) fun _ => ?_
    refine yields_ite (fun _ => reply) fun _ => yields_ite (fun _ => reply) fun _ => ?_
    refine yields_ite (fun _ => reply) fun _ => yields_ite (fun _ => reply) fun _ => ?_
    refine yields_ite (fun detaches => ?_) fun _ => ?_
    · exact absurd (Or.inl (by rw [detaches]; rfl)) other
    refine yields_ite (fun _ => reply) fun _ => yields_ite (fun _ => reply) fun _ => ?_
    refine yields_ite (fun _ => yields_bind (yields_true _) fun _ _ =>
      yields_ite (fun _ => reply) fun _ => ?_) fun _ => ?_
    · intro s b t returns
      obtain ⟨continues, u, compared, rest'⟩ := ok_bind_run returns
      cases continues with
      | false =>
        cases rest'
        rfl
      | true => exact absurd (Or.inr (@textIs_starts _ _ "vCont;" (by decide) _ _ compared)) other
    · refine yields_ite (fun _ => reply) fun _ => yields_ite (fun _ => reply) fun _ =>
        yields_pure rfl

/- What the event loop does with a packet. -/

def roundRest (input : List Byte) : Stub (Option (List Byte)) := do
  let resume ← gdbHandlePacket input
  let s ← get
  let sent := if !resume || s.detached then some s.reply else none
  if resume then
    resumeSystem
  return sent

def packetRest (input : List Byte) : Stub (MainPoint × List Byte) := do
  let resume ← gdbHandlePacket input
  let s ← get
  if !resume || s.detached then
    let frame ← putAttempt
    return (.putPacket resume, frame)
  else
    if resume then
      resumeSystem
    return (.getPacket .start, [])

theorem eventLoop_attached {input : List Byte} {c : Byte} (head : peek input = .ok c) (s : State) :
    ∃ k, (k = s.kernel ∨ suspendSystem.run s = .ok () (s.withKernel k)) ∧
      (eventLoopRound input).run s = (roundRest input).run (s.attached k) ∧
      (eventLoopPacket input).run s = (packetRest input).run (s.attached k) := by
  obtain ⟨k, suspended⟩ := suspendSystem_kernel s
  unfold eventLoopRound eventLoopPacket
  rw [run_bind_ok (EStateM.run_get s), run_bind_ok (EStateM.run_get s)]
  by_cases detached : s.detached = true
  · refine ⟨k, Or.inr suspended, ?_⟩
    rw [if_pos detached, if_pos detached, pure_bind, pure_bind]
    dsimp only
    rw [if_pos rfl, if_pos rfl, run_bind_ok suspended, run_bind_ok suspended]
    exact ⟨rfl, rfl⟩
  · have asked : (isInterrupt input).run s = .ok (decide (c = 3)) s := by
      rw [isInterrupt, run_bind_ok (liftParse_run head s)]
      rfl
    rw [if_neg detached, if_neg detached, run_bind_ok asked, run_bind_ok asked]
    by_cases interrupt : c = 3
    · refine ⟨k, Or.inr suspended, ?_⟩
      rw [decide_eq_true interrupt]
      dsimp only
      rw [if_pos rfl, if_pos rfl, run_bind_ok suspended, run_bind_ok suspended]
      exact ⟨rfl, rfl⟩
    · refine ⟨s.kernel, Or.inl rfl, ?_⟩
      have same : s.attached s.kernel = s := by
        rw [Bool.not_eq_true] at detached
        rw [State.attached, ← detached]
        rfl
      rw [decide_eq_false interrupt, same]
      exact ⟨rfl, rfl⟩

theorem eventLoopPacket_cases {input : List Byte} {s t : State} {next : MainPoint}
    {frame : List Byte} (returns : (eventLoopPacket input).run s = .ok (next, frame) t) :
    ∃ k resume u, (k = s.kernel ∨ suspendSystem.run s = .ok () (s.withKernel k)) ∧
      (gdbHandlePacket input).run (s.attached k) = .ok resume u ∧
      ((resume = false ∨ u.detached = true) ∧ next = .putPacket resume ∧ Terminated u.output ∧
        frame = frameOf u.reply ∧
          t = u ∨
        (resume = true ∧ u.detached = false) ∧ next = .getPacket .start ∧ frame = [] ∧
          resumeSystem.run u = .ok () t) := by
  cases input with
  | nil =>
    unfold eventLoopPacket at returns
    rw [run_bind_ok (EStateM.run_get s)] at returns
    by_cases detached : s.detached = true
    · obtain ⟨k, suspended⟩ := suspendSystem_kernel s
      rw [if_pos detached, pure_bind] at returns
      dsimp only at returns
      rw [if_pos rfl, run_bind_ok suspended] at returns
      cases returns
    · rw [if_neg detached] at returns
      cases returns
  | cons c rest =>
    obtain ⟨k, kernel, _, packet⟩ := @eventLoop_attached _ (c :: rest) c rfl s
    rw [packet, packetRest] at returns
    obtain ⟨resume, u, handled, last⟩ := ok_bind_run returns
    rw [run_bind_ok (EStateM.run_get u)] at last
    refine ⟨k, resume, u, kernel, handled, ?_⟩
    by_cases answered : (!resume || u.detached) = true
    · rw [if_pos answered] at last
      obtain ⟨frame', w, sent, returned⟩ := ok_bind_run last
      obtain ⟨ends, rfl, rfl⟩ := putAttempt_ok sent
      cases returned
      refine Or.inl ⟨?_, rfl, ends, rfl, rfl⟩
      simpa using answered
    · rw [if_neg answered] at last
      have silent : resume = true ∧ u.detached = false := by simpa using answered
      obtain ⟨k', resumed, _⟩ := resumeSystem_calls u
      rw [if_pos silent.1, run_bind_ok resumed] at last
      cases last
      exact Or.inr ⟨silent, rfl, rfl, resumed⟩

/-- The steps of `t_main`: a byte inside `get_packet`, the last byte of a packet, and the two kinds
    of bytes for a reply. -/
theorem mainByte_cases {s t : Session} {c : Byte} (returns : s.mainByte c = some t) :
    (∃ p, s.main = .getPacket p ∧ (serialGetPacketByte ⟨p, s.input⟩ c).returned = none ∧
      t.stub = s.stub ∧
        ∃ p', t.main = .getPacket p') ∨
      (∃ p text frame, s.main = .getPacket p ∧
        (serialGetPacketByte ⟨p, s.input⟩ c).returned = some text ∧
        (eventLoopPacket (pointerText (serialGetPacketByte ⟨p, s.input⟩ c).next.buf
          (returnedIndex ⟨p, s.input⟩))).run
          s.stub = .ok (t.main, frame) t.stub) ∨
      (∃ resume, s.main = .putPacket resume ∧ c = chr '+' ∧ t.stub = acknowledged resume s.stub ∧
        t.main = .getPacket .start) ∨
      ∃ resume, s.main = .putPacket resume ∧ c ≠ chr '+' ∧ t.stub = s.stub ∧ t.main = s.main := by
  obtain ⟨turn, u, run, rfl⟩ := session_run returns
  cases main : s.main with
  | getPacket p =>
    rw [main, mainByte] at run
    cases text : (serialGetPacketByte ⟨p, s.input⟩ c).returned with
    | none =>
      rw [text] at run
      cases run
      exact Or.inl ⟨p, rfl, text, rfl, _, rfl⟩
    | some text' =>
      rw [text] at run
      obtain ⟨⟨next, frame⟩, v, handled, last⟩ := ok_bind_run run
      cases last
      exact Or.inr (Or.inl ⟨p, text', frame, rfl, text, handled⟩)
  | putPacket resume =>
    rw [main, mainByte] at run
    by_cases acknowledges : c = chr '+'
    · rw [if_pos acknowledges] at run
      refine Or.inr (Or.inr (Or.inl ⟨resume, rfl, acknowledges, ?_⟩))
      cases resume with
      | false =>
        cases run
        exact ⟨rfl, rfl⟩
      | true =>
        obtain ⟨k, resumed, _⟩ := resumeSystem_calls s.stub
        rw [if_pos rfl, run_bind_ok resumed] at run
        cases run
        exact ⟨(after_ok resumed).symm, rfl⟩
    · rw [if_neg acknowledges] at run
      obtain ⟨frame, v, sent, last⟩ := ok_bind_run run
      obtain ⟨_, _, rfl⟩ := putAttempt_ok sent
      cases last
      exact Or.inr (Or.inr (Or.inr ⟨resume, rfl, acknowledges, rfl, rfl⟩))

/- The registry. -/

theorem sameRegistry_acknowledged (resume : Bool) (s : State) :
    SameRegistry s (acknowledged resume s) := by
  unfold acknowledged
  split
  · exact stays_resumeSystem (fun _ _ => sameRegistry_of_eq rfl rfl) s
  · exact Std.Refl.refl s

theorem sameRegistry_eventLoopPacket {input : List Byte} {s t : State} {next : MainPoint}
    {frame : List Byte}
    (returns : (eventLoopPacket input).run s = .ok (next, frame) t) : SameRegistry s t := by
  obtain ⟨k, resume, u, _, packet, ends⟩ := eventLoopPacket_cases returns
  have handled := packet_sameRegistry input (s.attached k)
  rw [after_ok packet] at handled
  have same := IsTrans.trans _ _ _ (sameRegistry_attached s k) handled
  rcases ends with ⟨_, _, _, _, rfl⟩ | ⟨_, _, _, resumed⟩
  · exact same
  · have last : SameRegistry u (after resumeSystem u) :=
      stays_resumeSystem (fun _ _ => sameRegistry_of_eq rfl rfl) u
    rw [after_ok resumed] at last
    exact IsTrans.trans _ _ _ same last

theorem sameRegistry_faultReport {s t : State} {ch : Word} {message : FaultMessage}
    {frame : List Byte}
    (returns : (faultReport ch message).run s = .ok frame t) : SameRegistry s t := by
  unfold faultReport at returns
  obtain ⟨_, u, suspended, rest⟩ := ok_bind_run returns
  obtain ⟨_, v, handled, last⟩ := ok_bind_run rest
  obtain ⟨_, _, rfl⟩ := putAttempt_ok last
  have stopped : SameRegistry s (after suspendSystem s) :=
    stays_suspendSystem (fun _ _ => sameRegistry_of_eq rfl rfl) s
  have reported : SameRegistry u (after (gdbHandleFault ch 0 message) u) :=
    stays_gdbHandleFault ch 0 message u fun _ _ _ _ _ => sameRegistry_of_eq rfl rfl
  rw [after_ok suspended] at stopped
  rw [after_ok handled] at reported
  exact IsTrans.trans _ _ _ stopped reported

theorem take_sameRegistry {s t : Session} {i : Input} (taken : s.take i = some t) :
    SameRegistry s.stub t.stub := by
  cases i with
  | byte c =>
    rw [Session.take] at taken
    split at taken
    · split at taken
      · cases taken
        exact Std.Refl.refl _
      · obtain ⟨frame, u, run, rfl⟩ := session_run taken
        obtain ⟨_, _, rfl⟩ := putAttempt_ok run
        exact Std.Refl.refl _
    · rcases mainByte_cases taken with ⟨_, _, _, same, _⟩ | ⟨_, _, _, _, _, handled⟩ |
        ⟨resume, _, _, same, _⟩ |
        ⟨_, _, _, same, _⟩
      · rw [same]
        exact Std.Refl.refl _
      · exact sameRegistry_eventLoopPacket handled
      · rw [same]
        exact sameRegistry_acknowledged resume _
      · rw [same]
        exact Std.Refl.refl _
  | fault ch message =>
    obtain ⟨frame, u, run, rfl⟩ := session_run taken
    exact sameRegistry_faultReport run
  | outside kernel =>
    cases taken
    exact sameRegistry_of_eq rfl rfl

theorem takes_keeps {R : State → State → Prop} [Std.Refl R] [IsTrans State R]
    (keeps : ∀ s i t, Session.take s i = some t → R s.stub t.stub) {s t : Session}
    {inputs : List Input} (taken : s.takes inputs = some t) : R s.stub t.stub := by
  induction inputs generalizing s with
  | nil =>
    cases taken
    exact Std.Refl.refl _
  | cons i inputs ih =>
    rw [takes_cons] at taken
    obtain ⟨u, first, rest⟩ := Option.bind_eq_some_iff.mp taken
    exact IsTrans.trans _ _ _ (keeps _ _ _ first) (ih rest)

/- What `init` registers. -/

def debugee (baseVspaceCap baseTcbCap : Word) (pd : Fin maxPds) : Inferior :=
  { Inferior.zero with
    enabled := true
    id := BitVec.ofNat 64 pd
    gdbId := BitVec.ofNat 16 (pd + 1)
    vspace := baseVspaceCap + BitVec.ofNat 64 pd
    currThreadIdx := 1
    threads := fun slot =>
      if slot.val = 0 then ⟨true, false, false, some pd, 0, 1, baseTcbCap + BitVec.ofNat 64 pd⟩
      else .zero }

structure Debugees (baseVspaceCap baseTcbCap : Word) (n : Nat) (s : State) : Prop where
  counter : s.currInferiorIdx = n
  inferiors : ∀ pd, (s.inferiors pd).core =
    if pd.val < n then debugee baseVspaceCap baseTcbCap pd else .zero
  owned : TargetOwned s

section
variable {v c : Word} {n : Nat} {s : State} (debugees : Debugees v c n s)
include debugees

theorem Debugees.enabled (pd : Fin maxPds) : (s.inferiors pd).enabled = decide (pd.val < n) := by
  have core : (s.inferiors pd).enabled = (s.inferiors pd).core.enabled := rfl
  rw [core, debugees.inferiors]
  by_cases lt : pd.val < n
  · simp [lt, debugee]
  · simp [lt, Inferior.zero]

theorem Debugees.id {pd : Fin maxPds} (lt : pd.val < n) :
    (s.inferiors pd).id = BitVec.ofNat 64 pd := by
  have core : (s.inferiors pd).id = (s.inferiors pd).core.id := rfl
  rw [core, debugees.inferiors, if_pos lt]
  rfl

theorem Debugees.lookup (pd : Fin maxPds) :
    lookupInferiorFromId s (BitVec.ofNat 64 pd) = if pd.val < n then some pd else none := by
  have only (pd' : Fin maxPds) (found : ((s.inferiors pd').enabled &&
      (s.inferiors pd').id == BitVec.ofNat 64 pd) = true) : pd'.val < n ∧ pd' = pd := by
    rw [debugees.enabled, Bool.and_eq_true, decide_eq_true_eq, beq_iff_eq] at found
    obtain ⟨lt, id⟩ := found
    rw [debugees.id lt] at id
    have small := pd.isLt
    have small' := pd'.isLt
    simp only [maxPds] at small small'
    refine ⟨lt, Fin.ext ?_⟩
    bv_omega
  by_cases lt : pd.val < n
  · rw [if_pos lt]
    refine firstSlot_unique ?_ fun pd' found => (only pd' found).2
    simp [debugees.enabled, debugees.id lt, lt]
  · rw [if_neg lt]
    refine firstSlot_of_none fun pd' => ?_
    by_contra found
    obtain ⟨lt', rfl⟩ := only pd' (by simpa using found)
    exact lt lt'

theorem Debugees.fault {t : Session} (served : t.stub = s) {pd : Fin maxPds} (lt : pd.val < n) :
    ∃ t', t.fault (BitVec.ofNat 64 pd) .other = some t' := by
  have core : (s.inferiors pd).core = debugee v c pd := by rw [debugees.inferiors, if_pos lt]
  have thread (slot : Fin maxThreads) : ((s.inferiors pd).threads slot).core =
      (debugee v c pd).threads slot :=
    congrFun (congrArg Inferior.threads core) slot
  have first : ((s.inferiors pd).threads 0).core = ⟨true, false, false, some pd, 0, 1,
      c + BitVec.ofNat 64 pd⟩ := thread 0
  have enabled : ((s.inferiors pd).threads 0).enabled = true := (congrArg Thread.enabled first :)
  have id : ((s.inferiors pd).threads 0).id = 0 := (congrArg Thread.id first :)
  have owner : (s.thread ⟨pd, 0⟩).inferior = some pd := (congrArg Thread.inferior first :)
  have inferior : lookupInferiorFromId s (BitVec.ofNat 64 pd) = some pd := by
    rw [debugees.lookup, if_pos lt]
  have found : lookupThreadFromId (s.inferiors pd) 0 = some 0 := by
    refine firstSlot_unique (by rw [enabled, id]; rfl) fun slot here => ?_
    by_contra other
    have off : ((s.inferiors pd).threads slot).core = .zero := by
      rw [thread, debugee]
      exact if_neg fun zero => other (Fin.ext zero)
    have disabled : ((s.inferiors pd).threads slot).enabled = false :=
      (congrArg Thread.enabled off :)
    rw [disabled] at here
    cases here
  subst served
  obtain ⟨_, returns, _⟩ := fault_found (s := t) (t := ⟨pd, 0⟩) inferior found owner
  exact ⟨_, returns⟩

theorem Debugees.round (room : n < maxPds) : ∃ u,
    (do
      let _ ← gdbRegisterInferior (BitVec.ofNat 64 n) (v + BitVec.ofNat 64 n)
      let _ ← gdbRegisterThread (BitVec.ofNat 64 n) 0 (c + BitVec.ofNat 64 n) :
          Stub Unit).run s = .ok () u ∧
      Debugees v c (n + 1) u := by
  let p : Fin maxPds := ⟨n, room⟩
  let r := withInferior s n p (BitVec.ofNat 64 n) (v + BitVec.ofNat 64 n)
  have place : Fin.ofNat maxPds n = p := Fin.ext (Nat.mod_eq_of_lt room)
  have absent := debugees.lookup p
  rw [if_neg (lt_irrefl n)] at absent
  have scan : ringScan (fun i => (s.inferiors i).enabled) maxPds s.currInferiorIdx =
      (n, some p) := by
    rw [debugees.counter, ← place]
    refine ringScan_free (by decide) ?_
    rw [place, debugees.enabled]
    simp [p]
  have first : (gdbRegisterInferior (BitVec.ofNat 64 n) (v + BitVec.ofNat 64 n)).run s =
      .ok .noError r := by
    unfold gdbRegisterInferior
    rw [run_bind_ok (EStateM.run_get s), absent]
    dsimp only
    rw [if_neg (by rw [debugees.counter]; simp only [intMax, maxPds] at room ⊢; omega), scan]
    rfl
  have here : r.inferiors p = { Inferior.zero with
      enabled := true
      id := BitVec.ofNat 64 n
      gdbId := BitVec.ofNat 16 (n + 1)
      vspace := v + BitVec.ofNat 64 n } := by
    simp [r, withInferior]
  have there {pd : Fin maxPds} (ne : pd ≠ p) : r.inferiors pd = s.inferiors pd := by
    simp [r, withInferior, Function.update_of_ne ne]
  have known : lookupInferiorFromId r (BitVec.ofNat 64 n) = some p := by
    refine firstSlot_unique (by simp [here]) fun pd found => ?_
    by_contra ne
    rw [there ne, debugees.enabled, Bool.and_eq_true, decide_eq_true_eq, beq_iff_eq] at found
    rw [debugees.id found.1] at found
    have small := pd.isLt
    simp only [maxPds] at small room
    have same : pd.val = n := by
      have ids := found.2
      bv_omega
    exact ne (Fin.ext same)
  have zeroed (slot : Fin maxThreads) : (r.inferiors p).threads slot = .zero := by rw [here]; rfl
  have fresh : lookupThreadFromId (r.inferiors p) 0 = none :=
    firstSlot_of_none fun slot => by rw [zeroed]; rfl
  have threadScan : ringScan (fun j => ((r.inferiors p).threads j).enabled) maxThreads
      (r.inferiors p).currThreadIdx =
      (0, some 0) := by
    rw [here]
    exact ringScan_free (by decide) rfl
  have owner : ((withThread r p 0 0 0 (c + BitVec.ofNat 64 n)).thread ⟨p, 0⟩).inferior =
      some p := by
    simp [State.thread, withThread, Inferior.setThread]
  have owned : TargetOwned (withThread r p 0 0 0 (c + BitVec.ofNat 64 n)) := by
    rintro ⟨pd, slot⟩ target
    obtain ⟨pd', owner'⟩ := debugees.owned ⟨pd, slot⟩ target
    by_cases new : pd = p
    · -- the slot was free, so no target had its inferior there
      have core : (s.thread ⟨pd, slot⟩).inferior =
          ((s.inferiors pd).core.threads slot).inferior := rfl
      rw [core, debugees.inferiors, new, if_neg (lt_irrefl n)] at owner'
      cases owner'
    · refine ⟨pd', ?_⟩
      simpa [State.thread, withThread, Function.update_of_ne new, there new] using owner'
  obtain ⟨u, introduced, inferiors, counter, _, owned'⟩ := introduceThread_returns owner owned
  have second : (gdbRegisterThread (BitVec.ofNat 64 n) 0 (c + BitVec.ofNat 64 n)).run r =
      .ok .noError u := by
    unfold gdbRegisterThread
    rw [run_bind_ok (EStateM.run_get r), known]
    dsimp only
    rw [fresh]
    dsimp only
    rw [if_neg (by rw [show (r.inferiors p).currThreadIdx = 0 by rw [here]; rfl]; decide),
      threadScan]
    exact introduced
  refine ⟨u, ?_, counter, fun pd => ?_, owned'⟩
  · rw [run_bind_ok first, run_bind_ok second]
    rfl
  · rw [inferiors]
    by_cases new : pd = p
    · subst new
      have threads : (fun slot => (Function.update (r.inferiors p).threads 0
          ⟨true, false, false, some p, 0, 1, c + BitVec.ofNat 64 n⟩ slot).core) =
            (debugee v c p).threads := by
        funext slot
        by_cases zero : slot = 0
        · simp [zero, debugee, Thread.core, p]
        · rw [Function.update_of_ne zero, zeroed]
          simp [zero, debugee, Thread.core, Thread.zero]
      rw [if_pos (Nat.lt_succ_self n)]
      have whole : ((withThread r p 0 0 0 (c + BitVec.ofNat 64 n)).inferiors p).core =
          { (r.inferiors p).core with
            currThreadIdx := 1
            threads := fun slot => (Function.update (r.inferiors p).threads 0
              ⟨true, false, false, some p, 0, 1, c + BitVec.ofNat 64 n⟩ slot).core } := by
        simp only [withThread, setInferior_inferiors, Function.update_self]
        rfl
      rw [whole, threads, here]
      rfl
    · have ne : pd.val ≠ n := fun eq => new (Fin.ext eq)
      simp only [withThread, setInferior_inferiors, Function.update_of_ne new]
      rw [there new, debugees.inferiors]
      by_cases lt : pd.val < n
      · rw [if_pos lt, if_pos (by omega)]
      · rw [if_neg lt, if_neg (by omega)]

end

theorem debugees_boot (v c : Word) (output : Nat → Byte) (kernel : Kernel) :
    Debugees v c 0 (.boot output kernel) :=
  ⟨rfl, fun _ => rfl, fun _ target => by cases target⟩

theorem init_run (v c : Word) (output : Nat → Byte) (kernel : Kernel) :
    ∃ s, (initStub v c).run (.boot output kernel) = .ok () s ∧ Debugees v c numDebugees s := by
  obtain ⟨s, first, one⟩ := (debugees_boot v c output kernel).round (by decide)
  obtain ⟨t, second, two⟩ := one.round (by decide)
  obtain ⟨k, suspended⟩ := suspendSystem_kernel t
  refine ⟨t.withKernel k, ?_, two.counter, two.inferiors, two.owned⟩
  unfold initStub
  have loop : ((List.range numDebugees).forM fun i => do
      let _ ← gdbRegisterInferior (BitVec.ofNat 64 i) (v + BitVec.ofNat 64 i)
      let _ ← gdbRegisterThread (BitVec.ofNat 64 i) 0 (c + BitVec.ofNat 64 i) : Stub Unit).run
        (.boot output kernel) = .ok () t :=
    (run_bind_ok first _).trans (run_bind_ok second _)
  rw [run_bind_ok loop]
  exact suspended

/-- The debuggees served are those of `init`, with the ids and capabilities it gave them, in every
    run of the component. -/
theorem component_serves_debugees {v c : Word} {output : Nat → Byte} {kernel : Kernel} {s : State}
    (init : (initStub v c).run (.boot output kernel) = .ok () s) {moves : List Component.Move}
    {w : Component}
    (run : Run Step (.start s) moves w) : w.session.stub.currInferiorIdx = numDebugees ∧
      ∀ pd, (w.session.stub.inferiors pd).core = if pd.val < numDebugees then debugee v c pd
        else .zero := by
  obtain ⟨s', init', debugees⟩ := init_run v c output kernel
  cases init.symm.trans init'
  have taken := run_taken run
  have same : SameRegistry s w.session.stub :=
    takes_keeps (s := Session.start s) (fun _ _ _ one => take_sameRegistry one) taken
  exact ⟨same.counter.trans debugees.counter, fun pd =>
    (same.inferiors pd).trans (debugees.inferiors pd)⟩

omit [Machine] in
/-- A fault of the second debuggee while a byte is queued. -/
theorem fault_serves_debugees : letI := obligingBoard
    ∃ s w, Run Step (.start s) [.wait, .arrive (chr '$'), .fault 1 .other] w ∧
    w.session.reporting = true ∧
      w.session.stub.currInferiorIdx = numDebugees ∧
      ∀ pd, (w.session.stub.inferiors pd).core = if pd.val < numDebugees then debugee 10 20 pd
        else .zero := by
  let _ := obligingBoard
  obtain ⟨s, init, debugees⟩ := init_run 10 20 (fun _ => 0) blankKernel
  have second : (1 : Fin maxPds).val < numDebugees := by decide
  obtain ⟨s', returns⟩ := debugees.fault (t := Session.start s) rfl second
  have run : Run Step (.start s) [.wait, .arrive (chr '$'), .fault 1 .other] _ :=
    .next (.mainWaits rfl rfl) (.next (.arrive _ _) (.next (.fault ⟨rfl, rfl⟩ returns) (.stop _)))
  exact ⟨s, _, run, fault_reporting returns, component_serves_debugees init run⟩

/- Threads that stay stopped. -/

/-- The packet may start a thread: it resumes the system, or it is the one that writes registers. -/
def MayStart (input : List Byte) : Prop := Resumes input ∨ input.head? = some (chr 'G')

/-- The input completes such a packet or acknowledges the reply of a detach, or others start a
    thread. -/
def Session.mayStart (s : Session) : Input → Prop
  | .byte c => s.reporting = false ∧
    ((∃ resume, s.main = .putPacket resume ∧ resume = true ∧ c = chr '+') ∨
      ∃ p, s.main = .getPacket p ∧ (serialGetPacketByte ⟨p, s.input⟩ c).returned ≠ none ∧
        MayStart (pointerText (serialGetPacketByte ⟨p, s.input⟩ c).next.buf
          (returnedIndex ⟨p, s.input⟩)))
  | .fault _ _ => False
  | .outside kernel => ∃ tcb, (s.stub.kernel.tcb tcb).running = false ∧
    (kernel.tcb tcb).running = true

theorem noneStarted_suspend (s : State) (tcb : Word) :
    NoneStarted s (s.withKernel (s.kernel.record (.tcbSuspend tcb))) := by
  refine ⟨sameRegistry_of_eq rfl rfl, fun tcb' stopped => ?_⟩
  cases fails : Machine.fails s.kernel.calls (.tcbSuspend tcb) with
  | true =>
    rw [withKernel_kernel, record_of_fail fails]
    exact stopped
  | false =>
    rw [withKernel_kernel, record_of_ok fails]
    simp only [KernelCall.effect, Kernel.updateTcb, Function.update_apply]
    split
    · rfl
    · exact stopped

theorem noneStarted_faultReport {s t : State} {ch : Word} {message : FaultMessage}
    {frame : List Byte}
    (returns : (faultReport ch message).run s = .ok frame t) : NoneStarted s t := by
  unfold faultReport at returns
  obtain ⟨_, u, suspended, rest⟩ := ok_bind_run returns
  obtain ⟨_, v, handled, last⟩ := ok_bind_run rest
  obtain ⟨_, _, rfl⟩ := putAttempt_ok last
  have stopped : NoneStarted s (after suspendSystem s) := stays_suspendSystem noneStarted_suspend s
  have reported : NoneStarted u (after (gdbHandleFault ch 0 message) u) :=
    stays_gdbHandleFault ch 0 message u fun _ _ _ _ u =>
      ⟨sameRegistry_of_eq rfl rfl, fun _ off => off⟩
  rw [after_ok suspended] at stopped
  rw [after_ok handled] at reported
  exact IsTrans.trans _ _ _ stopped reported

theorem noneStarted_attached {s : State} {k : Kernel}
    (kernel : k = s.kernel ∨ suspendSystem.run s = .ok () (s.withKernel k)) :
    NoneStarted s (s.attached k) := by
  refine ⟨sameRegistry_attached s k, fun tcb off => ?_⟩
  rcases kernel with rfl | suspended
  · exact off
  · have stopped : NoneStarted s (after suspendSystem s) :=
      stays_suspendSystem noneStarted_suspend s
    rw [after_ok suspended] at stopped
    exact stopped.stopped tcb off

theorem noneStarted_eventLoopPacket {input : List Byte} (harmless : ¬ MayStart input) {s t : State}
    {next : MainPoint}
    {frame : List Byte} (returns : (eventLoopPacket input).run s = .ok (next, frame) t) :
    NoneStarted s t := by
  obtain ⟨k, resume, u, kernel, packet, ends⟩ := eventLoopPacket_cases returns
  have handled : NoneStarted (s.attached k) (after (gdbHandlePacket input) (s.attached k)) :=
    stays_gdbHandlePacket input (fun writes => absurd (Or.inr writes) harmless)
      (fun _ => stays_handleSetInferior input fun _ _ =>
        ⟨sameRegistry_of_eq rfl rfl, fun _ off => off⟩) _
  rw [after_ok packet] at handled
  have quiet := packet_yields_false (fun resumes => harmless (Or.inl resumes)) _ _ _ packet
  rcases ends with ⟨_, _, _, _, rfl⟩ | ⟨resumes, _⟩
  · exact IsTrans.trans _ _ _ (noneStarted_attached kernel) handled
  · rw [resumes.1] at quiet
    cases quiet

theorem take_noneStarted {s t : Session} {i : Input} (taken : s.take i = some t)
    (harmless : ¬ s.mayStart i) :
    NoneStarted s.stub t.stub := by
  cases i with
  | byte c =>
    rw [Session.take] at taken
    split at taken
    · split at taken
      · cases taken
        exact Std.Refl.refl _
      · obtain ⟨frame, u, run, rfl⟩ := session_run taken
        obtain ⟨_, _, rfl⟩ := putAttempt_ok run
        exact Std.Refl.refl _
    · rename_i quiet
      rw [Bool.not_eq_true] at quiet
      rcases mainByte_cases taken with ⟨_, _, _, same, _⟩ | ⟨p, text, _, main, returned, handled⟩ |
        ⟨resume, main, acknowledges, same, _⟩ | ⟨_, _, _, same, _⟩
      · rw [same]
        exact Std.Refl.refl _
      · refine noneStarted_eventLoopPacket (fun may =>
          harmless ⟨quiet, Or.inr ⟨p, main, ?_, may⟩⟩) handled
        rw [returned]
        exact Option.some_ne_none text
      · rw [same]
        cases resume with
        | false => exact Std.Refl.refl _
        | true => exact absurd ⟨quiet, Or.inl ⟨true, main, rfl, acknowledges⟩⟩ harmless
      · rw [same]
        exact Std.Refl.refl _
  | fault ch message =>
    obtain ⟨frame, u, run, rfl⟩ := session_run taken
    exact noneStarted_faultReport run
  | outside kernel =>
    cases taken
    refine ⟨sameRegistry_of_eq rfl rfl, fun tcb off => ?_⟩
    by_contra on
    rw [Bool.not_eq_false] at on
    exact harmless ⟨tcb, off, on⟩

def Session.NeverStarts (s : Session) (inputs : List Input) : Prop :=
  ∀ first i rest t, inputs = first ++ i :: rest → s.takes first = some t → ¬ t.mayStart i

theorem neverStarts_stopped {s t : Session} {inputs : List Input} (taken : s.takes inputs = some t)
    (never : s.NeverStarts inputs) (stopped : AllStopped s.stub) : AllStopped t.stub := by
  induction inputs generalizing s with
  | nil =>
    cases taken
    exact stopped
  | cons i inputs ih =>
    rw [takes_cons] at taken
    obtain ⟨u, first, rest⟩ := Option.bind_eq_some_iff.mp taken
    have harmless : ¬ s.mayStart i := never [] i inputs s rfl rfl
    refine ih rest (fun before j after v split took => ?_)
      (allStopped_of_noneStarted (take_noneStarted first harmless) stopped)
    refine never (i :: before) j after v (by rw [split]; rfl) ?_
    rw [takes_cons, first]
    exact took

/-- From a fault on, however bytes, notifications and further faults come, every live thread stays
    stopped until the host has one started. -/
theorem stopped_until_asked (ok : ThreadCallsSucceed) {stub : State}
    {moves later : List Component.Move}
    {w w₁ w₂ : Component} (run : Run Step (.start stub) moves w) {ch : Word}
    {message : FaultMessage} (fault : Step w (.fault ch message) w₁) (run' : Run Step w₁ later w₂)
    (never : w₁.session.NeverStarts (later.flatMap Component.Move.inputs)) :
    AllStopped w₂.session.stub := by
  have hand := handOver_step fault (run_attended run).1
  obtain ⟨t, taken, _, same⟩ := run_follows component_follows run' ⟨hand, rfl⟩
  rw [same]
  refine neverStarts_stopped ((run_iff_foldlM _ _ _ _).mp taken) never ?_
  cases fault with
  | fault idle returns =>
    obtain ⟨frame, u, report, rfl⟩ := session_run returns
    unfold faultReport at report
    obtain ⟨_, v, suspended, rest⟩ := ok_bind_run report
    obtain ⟨_, v', handled, last⟩ := ok_bind_run rest
    obtain ⟨_, _, rfl⟩ := putAttempt_ok last
    have reported : NoneStarted v (after (gdbHandleFault ch 0 message) v) :=
      stays_gdbHandleFault ch 0 message v fun _ _ _ _ u =>
        ⟨sameRegistry_of_eq rfl rfl, fun _ off => off⟩
    rw [after_ok handled] at reported
    have stopped := suspendSystem_stops ok w.session.stub
    rw [after_ok suspended] at stopped
    exact allStopped_of_noneStarted reported stopped

omit [Machine] in
theorem debugee_stays_stopped : letI := obligingBoard
    ∃ w₁ w₂, Run Step w₁ [.arrive (chr '$'), .read (chr '$')] w₂ ∧ w₁.session.reporting = true ∧
      AllStopped w₂.session.stub := by
  let _ := obligingBoard
  obtain ⟨s', returns, _⟩ := debugee_fault (Session.start debugeeState) rfl
  have pending := fault_reporting returns
  have again := take_unacknowledged pending (fault_session returns).1 (c := chr '$') (by decide)
  rw [Session.take, if_pos pending, if_neg (by decide)] at again
  have run : Run Step (.start debugeeState) [.wait] _ := .next (.mainWaits rfl rfl) (.stop _)
  have fault := Step.fault ⟨rfl, rfl⟩ returns (w := { Component.start debugeeState with
    state := .waitingForInputEventLoop
    active := .event })
  have later := Run.next (Step.arrive { Component.start debugeeState with
      state := .waitingForInputEventLoop
      active := .fault
      session := s' } (chr '$')) (.next (.faultReads rfl rfl (by decide) again) (.stop _))
  refine ⟨_, _, later, pending, stopped_until_asked obliging_threadCalls run fault later ?_⟩
  intro first i rest t split took
  cases first with
  | nil =>
    cases split
    cases took
    rintro ⟨quiet, _⟩
    rw [pending] at quiet
    cases quiet
  | cons j first =>
    have lengths := congrArg List.length split
    simp [Component.Move.inputs] at lengths

end Libgdb
