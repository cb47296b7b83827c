import Libgdb.IdLookups
import Libgdb.RegistryInvariant

/-!
The current thread over whole runs. The reply to `qC` is a constant, event texts name the
target, and `g`, `G`, `m` and `M` act on the target: the three agree as long as the target is
the first thread of the first inferior.
-/
namespace Libgdb
open ByteMemory SlotTables CheckedPrograms GuardedRuns
variable [Machine]

/- What a text names. -/

/-- The id at the head of the text, read as the stub reads ids, leads to the thread. -/
def NamesThread (s : State) (text : List Byte) (t : ThreadRef) : Prop :=
  ∃ id, parseThreadId (text ++ [0]) 0 0 = .ok id ∧
    lookupThreadFromGdbId s id.procId.toInt id.threadId.toInt = .ok (some t)

def AnswersQc (s : State) (t : ThreadRef) : Prop :=
  ∃ u text, (gdbHandlePacket (str "qC" ++ [0])).run s = .ok false u ∧
    u.reply = str "QC" ++ text ∧ NamesThread s text t

/-- Stop and clone texts name the current thread after `thread:`. -/
def EventNames (s : State) (text : List Byte) (t : ThreadRef) : Prop :=
  ∃ head rest, text = head ++ str "thread:" ++ rest ∧ NamesThread s rest t

/-- One live thread is the target, the one that `qC` names, and the one that the last event text
    names unless an `H` packet was accepted since. -/
def Agrees (s : State) (event : Option (List Byte)) : Prop :=
  ∃ t, s.live t = true ∧ s.targetThread = some t ∧ AnswersQc s t ∧
    ∀ text, event = some text → EventNames s text t

theorem textIs_run {ptr : List Byte} {literal : String} {n : Nat} {diff : Int}
    (compared : strncmp ptr (str literal ++ [0]) n = .ok diff) (u : State) :
    (textIs ptr literal n).run u = .ok (decide (diff = 0)) u := by
  unfold textIs
  rw [run_bind_ok (liftParse_run compared u)]
  rfl

theorem qC_run (s : State) :
    (gdbHandlePacket (str "qC" ++ [0])).run s = .ok false ((s.lay 0 []).lay 0 (str "QCp1.1")) := by
  have other {literal : String} {n : Nat} {diff : Int} (compared : strncmp (str "qC" ++ [0])
      (str literal ++ [0]) n = .ok diff)
      (differs : diff ≠ 0) (yes no : Stub Unit) (u : State) :
      (do if ← textIs (str "qC" ++ [0]) literal n then yes else no : Stub Unit).run u =
        no.run u := by
    rw [run_bind_ok (textIs_run compared u), decide_eq_false differs, if_neg (by decide)]
  have query (u : State) : (handleQuery (str "qC" ++ [0])).run u = .ok ()
      (u.lay 0 (str "QCp1.1")) := by
    have asked := @textIs_run _ (str "qC" ++ [0]) "qC" 2 0 (by decide +kernel) u
    unfold handleQuery
    rw [@other "qSupported" 10 (-16) (by decide +kernel) (by decide),
      @other "qfThreadInfo" 12 (-35) (by decide +kernel) (by decide),
      @other "qsThreadInfo" 12 (-48) (by decide +kernel) (by decide), run_bind_ok asked,
        if_pos (by decide)]
    exact strlcpy_run _ _ _ _ (by decide) (by decide)
  have head (rest : List Byte) : gdbHandlePacket (chr 'q' :: rest) = (do
    put 0 0
    handleQuery (chr 'q' :: rest)
    return false) := rfl
  have text : str "qC" ++ [0] = chr 'q' :: [chr 'C', 0] := rfl
  rw [text] at query ⊢
  rw [head, run_bind_ok (put_zero_run (by decide) s), run_bind_ok (query _)]
  rfl

theorem lookupThread_some {s : State} {procId threadId : Int} {t : ThreadRef}
    (found : lookupThreadFromGdbId s procId threadId = .ok (some t)) :
    ((s.inferiors t.pd).gdbId.toNat : Int) = procId ∧
      ((s.thread t).gdbId.toNat : Int) = threadId := by
  refine ⟨?_, lookupThreadFromGdbId_some found⟩
  unfold lookupThreadFromGdbId at found
  obtain ⟨i, _, found⟩ := bind_ok found
  obtain ⟨pd, _, found⟩ := bind_ok found
  split at found
  · cases found
  · rename_i same
    obtain ⟨j, _, found⟩ := bind_ok found
    obtain ⟨slot, _, found⟩ := bind_ok found
    simp only [pure, Except.pure, Except.ok.injEq] at found
    split at found
    · cases found
    · cases found
      exact not_not.mp same

/-- The first thread of the first inferior is live and the target. -/
structure Anchored (s : State) : Prop where
  target : s.targetThread = some ⟨0, 0⟩
  enabled : (s.thread ⟨0, 0⟩).enabled = true
  gdbId : (s.thread ⟨0, 0⟩).gdbId.toNat = 1

theorem names_first_iff {s : State} (ok : RegistryOk s) {text : List Byte} {t : ThreadRef}
    {ptr : Option (List Byte)} (parsed : parseThreadId (text ++ [0]) 0 0 = .ok ⟨ptr, 1, 1⟩)
    (enabled : (s.thread t).enabled = true) :
    NamesThread s text t ↔ t = ⟨0, 0⟩ ∧ (s.thread ⟨0, 0⟩).gdbId.toNat = 1 := by
  have live := ok.live enabled
  simp only [State.live, Bool.and_eq_true] at live
  have proc := ok.inferiorId t.pd
  rw [if_pos live.1] at proc
  have one : (1 : BitVec 32).toInt = 1 := rfl
  constructor
  · rintro ⟨id, parsed', found⟩
    rw [parsed] at parsed'
    cases parsed'
    obtain ⟨procId, threadId⟩ := lookupThread_some found
    dsimp only at procId threadId
    rw [one] at procId threadId
    have pd : t.pd = 0 := Fin.ext (by rw [Fin.val_zero]; omega)
    have slot : t.slot = 0 := by
      rcases ok.threads t with ⟨_, off, _⟩ | ⟨_, _, place⟩
      · rw [off] at enabled
        contradiction
      · have small := t.slot.isLt
        simp only [maxThreads] at small place
        exact Fin.ext (by rw [Fin.val_zero]; omega)
    obtain ⟨_, _⟩ := t
    subst pd slot
    exact ⟨rfl, by omega⟩
  · rintro ⟨rfl, gdbId⟩
    refine ⟨_, parsed, ?_⟩
    have found := lookupThread_named ok (t := ⟨0, 0⟩) live.1 (by omega)
    rw [proc, gdbId] at found
    exact found

theorem answersQc_iff {s : State} (ok : RegistryOk s) {t : ThreadRef}
    (enabled : (s.thread t).enabled = true) :
    AnswersQc s t ↔ t = ⟨0, 0⟩ ∧ (s.thread ⟨0, 0⟩).gdbId.toNat = 1 := by
  have parsed : parseThreadId (str "p1.1" ++ [0]) 0 0 = .ok ⟨some [0], 1, 1⟩ := by rfl
  have reply : ((s.lay 0 []).lay 0 (str "QCp1.1")).reply = str "QC" ++ str "p1.1" :=
    lay_reply _ _ (by decide) (by decide)
  rw [← names_first_iff ok parsed enabled]
  constructor
  · rintro ⟨u, text, run, text_eq, names⟩
    rw [qC_run] at run
    cases run
    rw [reply, List.append_cancel_left_eq] at text_eq
    rwa [text_eq]
  · exact fun names => ⟨_, _, qC_run s, reply, names⟩

theorem agrees_iff {s : State} (ok : RegistryOk s) (event : Option (List Byte)) :
    Agrees s event ↔ Anchored s ∧ ∀ text, event = some text → EventNames s text ⟨0, 0⟩ := by
  constructor
  · rintro ⟨t, live, target, answers, names⟩
    simp only [State.live, Bool.and_eq_true] at live
    obtain ⟨rfl, gdbId⟩ := (answersQc_iff ok live.2).mp answers
    exact ⟨⟨target, live.2, gdbId⟩, names⟩
  · rintro ⟨anchored, names⟩
    exact ⟨⟨0, 0⟩, ok.live anchored.enabled, anchored.target,
      (answersQc_iff ok anchored.enabled).mpr ⟨rfl, anchored.gdbId⟩, names⟩

/-- An id the stub wrote for the first thread names it in every later anchored state. -/
theorem eventNames_of_anchored {s u : State} (ok : RegistryOk s) (ok' : RegistryOk u)
    (before : Anchored s) (later : Anchored u) {text : List Byte}
    (names : EventNames s text ⟨0, 0⟩) : EventNames u text ⟨0, 0⟩ := by
  obtain ⟨head, rest, split, id, parsed, found⟩ := names
  refine ⟨head, rest, split, id, parsed, ?_⟩
  obtain ⟨procId, threadId⟩ := lookupThread_some found
  have inferior {w : State} (ok : RegistryOk w) (anchored : Anchored w) :
      (w.inferiors 0).enabled = true ∧ (w.inferiors 0).gdbId.toNat = 1 := by
    have live := ok.live anchored.enabled
    simp only [State.live, Bool.and_eq_true] at live
    have proc := ok.inferiorId 0
    rw [if_pos live.1] at proc
    exact ⟨live.1, proc⟩
  have named := lookupThread_named ok' (t := ⟨0, 0⟩)
      (inferior ok' later).1 (by rw [later.gdbId]; decide)
  have proc : (u.inferiors 0).gdbId.toNat = (s.inferiors 0).gdbId.toNat :=
    (inferior ok' later).2.trans (inferior ok before).2.symm
  have thread : (u.thread ⟨0, 0⟩).gdbId.toNat = (s.thread ⟨0, 0⟩).gdbId.toNat :=
    later.gdbId.trans before.gdbId.symm
  rw [proc, thread] at named
  rwa [← procId, ← threadId]

/- Faults. -/

/-- Whether a text is written: not for a reason the stub has no case for, and not for a watch
    register outside the table, where the call does not return. -/
def FaultMessage.reports : FaultMessage → Bool
  | .debugException .other _ _ => false
  | .debugException .dataBreakpoint _ bpNum => (watchSlot bpNum).isSome
  | _ => true

def reportFault (t : ThreadRef) : FaultMessage → Stub Bool
  | .debugException reason triggerAddress bpNum =>
    handleDebugException t reason triggerAddress bpNum
  | .other => handleFault t

theorem gdbHandleFault_cases (s : State) (inferiorId threadId : Word) (message : FaultMessage) :
    ((gdbHandleFault inferiorId threadId message).run s = .ok (.invalidArguments, none) s ∧
      ∀ pd slot, lookupInferiorFromId s inferiorId = some pd →
        lookupThreadFromId (s.inferiors pd) threadId ≠ some slot) ∨
    ∃ pd slot, lookupInferiorFromId s inferiorId = some pd ∧
      lookupThreadFromId (s.inferiors pd) threadId = some slot ∧
      (gdbHandleFault inferiorId threadId message).run s = (do
        let haveReply ← reportFault ⟨pd, slot⟩ message
        return (DebuggerError.noError, some haveReply)).run s := by
  unfold gdbHandleFault
  rw [run_bind_ok (EStateM.run_get s)]
  cases lookup : lookupInferiorFromId s inferiorId with
  | none =>
    refine Or.inl ⟨rfl, ?_⟩
    rintro pd slot ⟨⟩
  | some pd =>
    dsimp only
    cases found : lookupThreadFromId (s.inferiors pd) threadId with
    | none =>
      refine Or.inl ⟨rfl, ?_⟩
      rintro pd slot ⟨⟩
      rw [found]
      simp
    | some slot =>
      refine Or.inr ⟨pd, slot, rfl, found, ?_⟩
      cases message <;> rfl

structure EndsName (more : List Byte) : Prop where
  stop : ∃ rest, more = chr ';' :: rest
  nonzero : ∀ c ∈ more, c ≠ 0
  short : more.length < 64

omit [Machine] in
theorem endsName_watch (access : BreakpointAccess) (triggerAddress : Word) :
    EndsName (watchText access ++ hexDigits (wordBytes (archToBigEndian triggerAddress)) ++
      str ";") := by
  have short := watchText_length access
  refine ⟨?_, ?_, ?_⟩
  · cases access <;> exact ⟨_, rfl⟩
  · exact append_ne_zero (append_ne_zero (watchText_ne_zero access) (hexDigits_ne_zero _))
      (by decide)
  · have one : (str ";").length = 1 := by decide
    simp [wordBytes_length, one]
    omega

theorem reportFault_run {s : State} {t : ThreadRef} {pd : Fin maxPds}
    (owner : (s.thread t).inferior = some pd) {message : FaultMessage}
    (reports : message.reports = true) :
    ∃ kind more b, (kind = "T05thread:" ∨ kind = "T06thread:") ∧ EndsName more ∧
      (reportFault t message).run s =
        .ok b { s.lay 0 (stopText kind s t pd more) with targetThread := some t } := by
  have brk (reason : ExceptionReason) : ∃ kind more b,
      (kind = "T05thread:" ∨ kind = "T06thread:") ∧ EndsName more ∧ (do
        handleSsHwbreakSwbreakException t reason
        return true : Stub Bool).run s =
          .ok b { s.lay 0 (stopText kind s t pd more) with targetThread := some t } := by
    refine ⟨_, _, true, Or.inl rfl, ?_,
      run_bind_ok (handleSsHwbreakSwbreakException_run owner reason) _⟩
    split
    · exact ⟨⟨_, rfl⟩, by decide, by decide⟩
    · exact ⟨⟨_, rfl⟩, by decide, by decide⟩
  cases message with
  | other =>
    exact ⟨_, _, false, Or.inr rfl, ⟨⟨_, rfl⟩, by decide, by decide⟩, handleFault_run owner⟩
  | debugException reason triggerAddress bpNum =>
    cases reason with
    | instructionBreakpoint => exact brk .instructionBreakpoint
    | singleStep => exact brk .singleStep
    | softwareBreakRequest => exact brk .softwareBreakRequest
    | other => cases reports
    | dataBreakpoint =>
      obtain ⟨n, slot⟩ := Option.isSome_iff_exists.mp reports
      have run := handleWatchpointException_run owner bpNum triggerAddress
      rw [slot] at run
      exact ⟨_, _, true, Or.inl rfl, endsName_watch _ _, run_bind_ok run _⟩

theorem reportFault_silent {t : ThreadRef} {pd : Fin maxPds} {s : State}
    (owner : (s.thread t).inferior = some pd) {message : FaultMessage}
    (silent : message.reports = false) :
    (after (reportFault t message) s).targetThread = s.targetThread := by
  cases message with
  | other => cases silent
  | debugException reason triggerAddress bpNum =>
    cases reason with
    | instructionBreakpoint => cases silent
    | singleStep => cases silent
    | softwareBreakRequest => cases silent
    | other => rfl
    | dataBreakpoint =>
      have run := handleWatchpointException_run owner bpNum triggerAddress
      rw [Option.isSome_eq_false_iff.mp silent |> Option.isNone_iff_eq_none.mp] at run
      rw [show after (reportFault t (.debugException .dataBreakpoint triggerAddress bpNum)) s =
        _ from
        after_error (run_bind_error run _)]
      rfl

theorem written_id_names {s : State} (ok : RegistryOk s) {t : ThreadRef}
    (enabled : (s.thread t).enabled = true) (positive : 0 < (s.thread t).gdbId.toNat)
    (byte : (s.thread t).gdbId.toNat < 256) {more : List Byte} (ends : EndsName more) :
    NamesThread s (threadIdText s t t.pd ++ more) t := by
  obtain ⟨rest, rfl⟩ := ends.stop
  obtain ⟨inferior, proc, procByte⟩ := idBytes ok enabled
  have parsed := parseThreadId_written ((s.inferiors t.pd).gdbId.setWidth 8)
    ((s.thread t).gdbId.setWidth 8) (show ¬ IsHex (chr ';') by decide) (by decide) (rest ++ [0])
  refine ⟨_, by simpa [threadIdText] using parsed, ?_⟩
  rw [byteInt_toInt, byteInt_toInt, procByte, ← proc, BitVec.toNat_setWidth, Nat.mod_eq_of_lt byte]
  exact lookupThread_named ok inferior positive

/- What one call does once the first thread is the target. -/

theorem event_gdbId {s : State} {t : ThreadRef} (enabled : (s.thread t).enabled = true)
    (inferior : (s.inferiors t.pd).enabled = true) (e : Event) :
    ((after e.run s).thread t).gdbId = (s.thread t).gdbId := by
  cases e with
  | registerInferior inferiorId vspace =>
    rw [Event.run, after_ignore]
    rcases gdbRegisterInferior_cases s inferiorId vspace with same | ⟨idx, _, full⟩ |
      ⟨idx, pd, scan, placed⟩
    · rw [same]
    · rw [full]
      rfl
    · have free : (s.inferiors pd).enabled = false := (ringScan_some scan).2.1
      have ne : t.pd ≠ pd := by
        rintro rfl
        rw [inferior] at free
        contradiction
      rw [placed]
      simp [State.thread, withInferior, Function.update_of_ne ne]
  | registerThread inferiorId threadId tcb =>
    rw [Event.run, after_ignore]
    rcases gdbRegisterThread_cases s inferiorId threadId tcb with ⟨same, _⟩ |
      ⟨pd, idx, _, _, full⟩ |
      ⟨pd, idx, slot, _, scan, run⟩
    · rw [same]
    · rw [after_ok full]
      by_cases here : t.pd = pd
      · subst here
        simp [State.thread]
      · simp [State.thread, Function.update_of_ne here]
    · have free : ((s.inferiors pd).threads slot).enabled = false := (ringScan_some scan).2.1
      have ne : t ≠ ⟨pd, slot⟩ := by
        rintro rfl
        rw [State.thread, free] at enabled
        contradiction
      have same : SameRegistry (withThread s pd idx slot threadId tcb)
          (after (gdbRegisterThread inferiorId threadId tcb) s) := by
        have rest := stays_introduceThread (R := SameRegistry) (t := ⟨pd, slot⟩)
          (fun _ _ => sameRegistry_of_eq rfl rfl) (withThread s pd idx slot threadId tcb)
        simpa only [after, run] using rest
      rw [same.threadGdbId, withThread_other s pd idx slot threadId tcb ne]
  | threadExit inferiorId threadId =>
    rw [Event.run, after_ignore]
    rcases gdbThreadExit_cases s inferiorId threadId with ⟨same, _⟩ | ⟨pd, slot, _, _, run⟩
    · rw [same]
    · have same : SameRegistry
          (s.setThread ⟨pd, slot⟩ { s.thread ⟨pd, slot⟩ with enabled := false })
          (after (gdbThreadExit inferiorId threadId) s) := by
        have rest := stays_announceExit (R := SameRegistry) ⟨pd, slot⟩
          (s.setThread ⟨pd, slot⟩ { s.thread ⟨pd, slot⟩ with enabled := false })
        simpa only [after, run] using rest
      rw [same.threadGdbId]
      by_cases here : t = ⟨pd, slot⟩
      · rw [here, setThread_thread]
      · rw [setThread_other _ _ _ here]
  | fault inferiorId threadId message =>
    rw [Event.run, after_ignore]
    have same : SameRegistry s (after (gdbHandleFault inferiorId threadId message) s) :=
      stays_gdbHandleFault inferiorId threadId message s fun _ _ _ _ _ => sameRegistry_of_eq rfl rfl
    exact same.threadGdbId t
  | packet input =>
    rw [Event.run, after_ignore]
    exact (packet_sameRegistry input s).threadGdbId t
  | suspend =>
    have same : SameRegistry s (after suspendSystem s) :=
      stays_suspendSystem (fun _ _ => sameRegistry_of_eq rfl rfl) s
    exact same.threadGdbId t
  | resume =>
    have same : SameRegistry s (after resumeSystem s) :=
      stays_resumeSystem (fun _ _ => sameRegistry_of_eq rfl rfl) s
    exact same.threadGdbId t

/-- The call neither exits the target nor makes another thread the target. -/
def KeepsTarget (s : State) : Event → Prop
  | .threadExit inferiorId threadId => SparesTarget s (.threadExit inferiorId threadId)
  | .fault inferiorId threadId message => message.reports = true → ∀ pd slot,
      lookupInferiorFromId s inferiorId = some pd →
      lookupThreadFromId (s.inferiors pd) threadId = some slot → s.targetThread = some ⟨pd, slot⟩
  | .packet input => input.head? = some (chr 'H') → ∀ r, SelectsThread s input r →
    r = s.targetThread
  | _ => True

theorem keepsTarget_spares {s : State} (live : TargetLive s) {e : Event} (keeps : KeepsTarget s e) :
    SparesTarget s e := by
  obtain ⟨t, target, enabled, _⟩ := live
  cases e with
  | threadExit inferiorId threadId => exact keeps
  | packet input => exact fun first r selects => ⟨t, (keeps first r selects).trans target, enabled⟩
  | _ => trivial

theorem fault_target_iff {s : State} (ok : RegistryOk s) (inferiorId threadId : Word)
    (message : FaultMessage) :
    (after (gdbHandleFault inferiorId threadId message) s).targetThread = s.targetThread ↔
      KeepsTarget s (.fault inferiorId threadId message) := by
  rcases gdbHandleFault_cases s inferiorId threadId message with ⟨run, missing⟩ |
    ⟨pd, slot, lookup, found, run⟩
  · rw [after_ok run]
    exact iff_of_true rfl fun _ pd slot lookup found => absurd found (missing pd slot lookup)
  have owner := ok.owner (t := ⟨pd, slot⟩) (lookupThreadFromId_some found).1
  have after_eq : after (gdbHandleFault inferiorId threadId message) s =
      after (reportFault ⟨pd, slot⟩ message) s := by
    have ignored := after_ignore (reportFault ⟨pd, slot⟩ message)
      (DebuggerError.noError, (none : Option Bool)) s
    unfold after at ignored ⊢
    rw [run, EStateM.run_bind]
    cases (reportFault ⟨pd, slot⟩ message).run s <;> rfl
  rw [after_eq]
  cases reports : message.reports with
  | false =>
    refine iff_of_true (reportFault_silent owner reports) fun now => ?_
    rw [reports] at now
    contradiction
  | true =>
    obtain ⟨kind, more, b, _, _, run'⟩ := reportFault_run owner reports
    rw [after_ok run']
    constructor
    · intro same _ pd' slot' lookup' found'
      rw [lookup] at lookup'
      cases lookup'
      rw [found] at found'
      cases found'
      exact same.symm
    · exact fun keeps => (keeps reports pd slot lookup found).symm

theorem event_target_iff {s : State} (ok : RegistryOk s) (live : TargetLive s) (e : Event) :
    (TargetLive (after e.run s) ∧ (after e.run s).targetThread = s.targetThread) ↔
    KeepsTarget s e := by
  rw [event_target ok live e]
  have spares {e : Event} : KeepsTarget s e → SparesTarget s e := keepsTarget_spares live
  obtain ⟨t, target, enabled, _⟩ := id live
  cases e with
  | registerInferior inferiorId vspace =>
    rw [Event.run, after_ignore]
    refine iff_of_true ⟨trivial, ?_⟩ trivial
    rcases gdbRegisterInferior_cases s inferiorId vspace with same | ⟨idx, _, full⟩ |
      ⟨idx, pd, _, placed⟩
    · rw [same]
    · rw [full]
    · rw [placed]
      rfl
  | registerThread inferiorId threadId tcb =>
    rw [Event.run, after_ignore]
    refine iff_of_true ⟨trivial, ?_⟩ trivial
    rcases gdbRegisterThread_cases s inferiorId threadId tcb with ⟨same, _⟩ |
      ⟨pd, idx, _, _, full⟩ |
      ⟨pd, idx, slot, _, _, run⟩
    · rw [same]
    · rw [after_ok full]
      rfl
    · have owned : TargetOwned s := by
        intro r known
        rw [target] at known
        cases known
        exact ⟨t.pd, ok.owner enabled⟩
      obtain ⟨u, run', _, _, target', _⟩ := introduceThread_returns (withThread_owner _ _ _ _ _ _)
        (targetOwned_withThread owned pd idx slot threadId tcb)
      rw [after_ok (run.trans run'), target',
        show (withThread s pd idx slot threadId tcb).targetThread = s.targetThread from rfl, target]
      rfl
  | threadExit inferiorId threadId =>
    rw [Event.run, after_ignore]
    refine ⟨fun kept => kept.1, fun keeps => ⟨keeps, ?_⟩⟩
    rcases gdbThreadExit_cases s inferiorId threadId with ⟨same, _⟩ | ⟨pd, slot, _, _, run⟩
    · rw [same]
    · have rest := stays_announceExit (R := SameTarget) ⟨pd, slot⟩
        (s.setThread ⟨pd, slot⟩ { s.thread ⟨pd, slot⟩ with enabled := false })
      have same : (after (gdbThreadExit inferiorId threadId) s).targetThread = s.targetThread := by
        simpa only [after, run, SameTarget, setThread_targetThread] using rest
      exact same
  | fault inferiorId threadId message =>
    rw [Event.run, after_ignore, fault_target_iff ok inferiorId threadId message]
    exact ⟨fun kept => kept.2, fun keeps => ⟨trivial, keeps⟩⟩
  | packet input =>
    rw [Event.run, after_ignore]
    rcases packet_target input s with ⟨r, first, selects, moved⟩ | ⟨none, same⟩
    · rw [moved]
      refine ⟨?_, fun keeps => ⟨spares keeps, keeps first r selects⟩⟩
      rintro ⟨_, kept⟩ _ r' selects'
      rw [selectsThread_unique selects' selects, kept]
    · exact iff_of_true ⟨fun first r selects => absurd selects (none r first), same⟩
        fun first r selects => absurd selects (none r first)
  | suspend =>
    have same : SameTarget s (after suspendSystem s) := stays_suspendSystem (fun _ _ => rfl) s
    exact iff_of_true ⟨trivial, same⟩ trivial
  | resume =>
    have same : SameTarget s (after resumeSystem s) := stays_resumeSystem (fun _ _ => rfl) s
    exact iff_of_true ⟨trivial, same⟩ trivial

theorem anchored_targetLive {s : State} (ok : RegistryOk s) (anchored : Anchored s) :
    TargetLive s :=
  (targetLive_iff ok).mpr ⟨⟨0, 0⟩, anchored.target, anchored.enabled⟩

theorem event_anchored_iff {s : State} (ok : RegistryOk s) (anchored : Anchored s) (e : Event) :
    Anchored (after e.run s) ↔ KeepsTarget s e := by
  have ok' := event_keeps_ok ok e
  rw [← event_target_iff ok (anchored_targetLive ok anchored) e]
  constructor
  · intro later
    exact ⟨anchored_targetLive ok' later, later.target.trans anchored.target.symm⟩
  · rintro ⟨⟨t, target, enabled, _⟩, same⟩
    rw [anchored.target] at same
    rw [same] at target
    cases target
    have live := ok.live anchored.enabled
    simp only [State.live, Bool.and_eq_true] at live
    exact ⟨same, enabled, by rw [event_gdbId anchored.enabled live.1, anchored.gdbId]⟩

/- The event text. -/

/-- The last stop or clone text after a call: registrations write one once there is a target,
    reported faults do, and an accepted `H` packet makes it obsolete. -/
def eventAfter (s : State) (event : Option (List Byte)) (e : Event) : Option (List Byte) :=
  match e with
  | .registerThread _ _ _ =>
    if addsThread s e = true ∧ s.targetThread ≠ none then some (after e.run s).reply else event
  | .fault inferiorId threadId message =>
    if message.reports = true ∧
        (value (gdbHandleFault inferiorId threadId message) s).map Prod.fst = some .noError then
      some (after e.run s).reply
    else event
  | .packet input =>
    if input.head? = some (chr 'H') ∧ value (gdbHandlePacket input) s = some false ∧
        (after e.run s).reply = str "OK" then none
    else event
  | _ => event

theorem cloneText_names {s : State} (ok : RegistryOk s) (anchored : Anchored s)
    {inferiorId threadId tcb : Word}
    (adds : addsThread s (.registerThread inferiorId threadId tcb) = true) :
    EventNames (after (gdbRegisterThread inferiorId threadId tcb) s)
      (after (gdbRegisterThread inferiorId threadId tcb) s).reply ⟨0, 0⟩ := by
  have ok' := threadRegistration_keeps_ok ok inferiorId threadId tcb
  have later : Anchored (after (gdbRegisterThread inferiorId threadId tcb) s) := by
    have next := (event_anchored_iff ok anchored (.registerThread inferiorId threadId tcb)).mpr
        trivial
    rwa [Event.run, after_ignore] at next
  simp only [addsThread, decide_eq_true_eq] at adds
  rcases gdbRegisterThread_cases s inferiorId threadId tcb with ⟨_, failed⟩ |
    ⟨pd, idx, _, _, full⟩ |
    ⟨pd, idx, slot, _, scan, run⟩
  · exact absurd adds failed
  · rw [value_ok full] at adds
    cases adds
  · have free : ((s.inferiors pd).threads slot).enabled = false := (ringScan_some scan).2.1
    have ne : (⟨0, 0⟩ : ThreadRef) ≠ ⟨pd, slot⟩ := by
      intro same
      have on := anchored.enabled
      rw [same, State.thread, free] at on
      contradiction
    have targetOwner : ((withThread s pd idx slot threadId tcb).thread ⟨0, 0⟩).inferior =
        some 0 := by
      rw [withThread_other s pd idx slot threadId tcb ne]
      exact ok.owner anchored.enabled
    obtain ⟨k, run'⟩ := introduceThread_text (withThread_owner s pd idx slot threadId tcb)
      (show (withThread s pd idx slot threadId tcb).targetThread = some ⟨0, 0⟩ from anchored.target)
      targetOwner
    have whole := run.trans run'
    rw [after_ok whole] at ok' later ⊢
    have lengths : (str "T05clone:").length = 9 ∧ (str ";thread:").length = 8 ∧
        (str ";").length = 1 := by
      decide
    have names := written_id_names ok' later.enabled (by rw [later.gdbId]; decide)
      (by rw [later.gdbId]; decide) (⟨⟨[], rfl⟩, by decide, by decide⟩ : EndsName (str ";"))
    rw [lay_reply _ _ ?_ ?_]
    · refine ⟨str "T05clone:" ++ threadIdText (withThread s pd idx slot threadId tcb)
        ⟨pd, slot⟩ pd ++
        str ";", _, ?_, names⟩
      simp only [cloneText, List.append_assoc]
      rfl
    · exact append_ne_zero (append_ne_zero (append_ne_zero (append_ne_zero (by decide)
        (threadIdText_ne_zero _ _ _)) (by decide)) (threadIdText_ne_zero _ _ _)) (by decide)
    · simp [cloneText, lengths, bufsize]

omit [Machine] in
theorem stopKind_text {kind : String} (kinds : kind = "T05thread:" ∨ kind = "T06thread:") :
    (∀ c ∈ str kind, c ≠ 0) ∧ (str kind).length = 10 ∧ str kind = (str kind).take 3 ++
    str "thread:" := by
  rcases kinds with rfl | rfl <;> decide +kernel

theorem stopText_names {s : State} (ok : RegistryOk s) (anchored : Anchored s)
    {inferiorId threadId : Word} {message : FaultMessage} (reports : message.reports = true)
    (accepted : (value (gdbHandleFault inferiorId threadId message) s).map Prod.fst = some .noError)
    (keeps : KeepsTarget s (.fault inferiorId threadId message)) :
    EventNames (after (gdbHandleFault inferiorId threadId message) s)
      (after (gdbHandleFault inferiorId threadId message) s).reply ⟨0, 0⟩ := by
  rcases gdbHandleFault_cases s inferiorId threadId message with ⟨run, _⟩ |
    ⟨pd, slot, lookup, found, run⟩
  · rw [value_ok run] at accepted
    cases accepted
  have here := keeps reports pd slot lookup found
  rw [anchored.target, Option.some.injEq] at here
  rw [← here] at run
  obtain ⟨kind, more, b, kinds, ends, run'⟩ := reportFault_run (ok.owner anchored.enabled) reports
  rw [run_bind_ok run'] at run
  have ok' : RegistryOk (after (gdbHandleFault inferiorId threadId message) s) := by
    have next := event_keeps_ok ok (.fault inferiorId threadId message)
    rwa [Event.run, after_ignore] at next
  have later : Anchored (after (gdbHandleFault inferiorId threadId message) s) := by
    have next := (event_anchored_iff ok anchored (.fault inferiorId threadId message)).mpr keeps
    rwa [Event.run, after_ignore] at next
  rw [after_ok run] at ok' later ⊢
  have names := written_id_names ok' later.enabled (by rw [later.gdbId]; decide)
    (by rw [later.gdbId]; decide) ends
  have short := ends.short
  obtain ⟨plain, length, split⟩ := stopKind_text kinds
  have reply : (s.lay 0 (stopText kind s ⟨0, 0⟩ 0 more)).reply = stopText kind s ⟨0, 0⟩ 0 more := by
    refine lay_reply _ _ (append_ne_zero (append_ne_zero plain (threadIdText_ne_zero _ _ _))
      ends.nonzero) ?_
    simp only [stopText, List.length_append, length, threadIdText_length, bufsize]
    omega
  refine ⟨(str kind).take 3, threadIdText s ⟨0, 0⟩ 0 ++ more, ?_, names⟩
  refine reply.trans ?_
  rw [stopText, List.append_assoc]
  exact congrArg (· ++ (threadIdText s ⟨0, 0⟩ 0 ++ more)) split

theorem event_names {s : State} (ok : RegistryOk s) (anchored : Anchored s) {e : Event}
    (keeps : KeepsTarget s e) {event : Option (List Byte)}
    (names : ∀ text, event = some text → EventNames s text ⟨0, 0⟩) :
    ∀ text, eventAfter s event e = some text → EventNames (after e.run s) text ⟨0, 0⟩ := by
  have ok' := event_keeps_ok ok e
  have later := (event_anchored_iff ok anchored e).mpr keeps
  have earlier (text : List Byte) (same : event = some text) :
      EventNames (after e.run s) text ⟨0, 0⟩ :=
    eventNames_of_anchored ok ok' anchored later (names text same)
  intro text written
  cases e with
  | registerThread inferiorId threadId tcb =>
    rw [eventAfter] at written
    split at written
    · rename_i adds
      cases written
      rw [Event.run, after_ignore]
      exact cloneText_names ok anchored adds.1
    · exact earlier text written
  | fault inferiorId threadId message =>
    rw [eventAfter] at written
    split at written
    · rename_i reported
      cases written
      rw [Event.run, after_ignore]
      exact stopText_names ok anchored reported.1 reported.2 keeps
    · exact earlier text written
  | packet input =>
    rw [eventAfter] at written
    split at written
    · cases written
    · exact earlier text written
  | _ => exact earlier text written

/-- One call keeps the agreement exactly when it keeps the target. -/
theorem event_agrees_iff {s : State} (ok : RegistryOk s) {event : Option (List Byte)}
    (agrees : Agrees s event) (e : Event) :
    Agrees (after e.run s) (eventAfter s event e) ↔ KeepsTarget s e := by
  obtain ⟨anchored, names⟩ := (agrees_iff ok event).mp agrees
  rw [agrees_iff (event_keeps_ok ok e)]
  constructor
  · exact fun next => (event_anchored_iff ok anchored e).mp next.1
  · exact fun keeps => ⟨(event_anchored_iff ok anchored e).mpr keeps,
      event_names ok anchored keeps names⟩

/- Before the first thread. -/

def Untouched (s : State) : Prop := NoThreads s ∧ ∀ pd, (s.inferiors pd).currThreadIdx = 0

theorem untouched_of_same {s t : State} (registry : SameRegistry s t) (target : SameTarget s t)
    (untouched : Untouched s) : Untouched t :=
  ⟨noThreads_of_same registry target untouched.1,
    fun pd => (registry.currThreadIdx pd).trans (untouched.2 pd)⟩

theorem first_registration {s : State} (untouched : Untouched s) {inferiorId : Word}
    {pd : Fin maxPds} (lookup : lookupInferiorFromId s inferiorId = some pd) (threadId tcb : Word) :
    ∃ u, (gdbRegisterThread inferiorId threadId tcb).run s = .ok .noError u ∧
      u.targetThread = some ⟨pd, 0⟩ ∧ (u.thread ⟨pd, 0⟩).enabled = true ∧
      (u.thread ⟨pd, 0⟩).gdbId.toNat = 1 := by
  obtain ⟨⟨target, off⟩, counters⟩ := untouched
  have free (slot : Fin maxThreads) : ((s.inferiors pd).threads slot).enabled = false :=
    (off ⟨pd, slot⟩).1
  have fresh : lookupThreadFromId (s.inferiors pd) threadId = none :=
    firstSlot_of_none fun slot => by simp [free slot]
  have start : ringScan (fun j => ((s.inferiors pd).threads j).enabled) maxThreads
      (s.inferiors pd).currThreadIdx = (0, some 0) := by
    rw [counters pd]
    exact ringScan_free (by decide) (free _)
  rcases registerThread_fresh lookup fresh (by rw [counters pd]; decide) tcb with ⟨idx, scan, _⟩ |
    ⟨idx, slot, scan, run⟩
  · rw [start] at scan
    cases scan
  · rw [start] at scan
    cases scan
    obtain ⟨k, run'⟩ := introduceThread_first (withThread_owner s pd 0 0 threadId tcb)
      (show (withThread s pd 0 0 threadId tcb).targetThread = none from target)
    refine ⟨_, run.trans run', rfl, ?_, ?_⟩
    · simp [State.thread, withThread, Inferior.setThread]
    · simp [State.thread, withThread, Inferior.setThread]

/-- A registration adds a thread to the first inferior, if to any. -/
def StartsFirst (s : State) : Event → Prop
  | .registerThread inferiorId _ _ => ∀ pd, lookupInferiorFromId s inferiorId = some pd → pd = 0
  | _ => True

theorem eventAfter_untouched {s : State} (untouched : Untouched s) (e : Event) :
    eventAfter s none e = none := by
  cases e with
  | registerThread inferiorId threadId tcb =>
    rw [eventAfter, if_neg fun adds => adds.2 untouched.1.1]
  | fault inferiorId threadId message =>
    rcases gdbHandleFault_cases s inferiorId threadId message with ⟨run, _⟩ |
      ⟨pd, slot, _, found, _⟩
    · rw [eventAfter, value_ok run, if_neg (by simp)]
    · have on : (s.thread ⟨pd, slot⟩).enabled = true := (lookupThreadFromId_some found).1
      rw [(untouched.1.2 _).1] at on
      contradiction
  | packet input =>
    rw [eventAfter]
    split <;> rfl
  | _ => rfl

theorem event_untouched {s : State} (ok : RegistryOk s) (untouched : Untouched s) {e : Event}
    (adds : addsThread s e = false) : Untouched (after e.run s) := by
  have next := event_noThreads ok untouched.1 e
  rw [adds, if_neg (by decide)] at next
  refine ⟨next, fun pd => ?_⟩
  cases e with
  | registerInferior inferiorId vspace =>
    rw [Event.run, after_ignore]
    rcases gdbRegisterInferior_cases s inferiorId vspace with same | ⟨idx, _, full⟩ |
      ⟨idx, pd', _, placed⟩
    · rw [same, untouched.2]
    · rw [full]
      exact untouched.2 pd
    · rw [placed]
      by_cases here : pd = pd'
      · subst here
        simp [withInferior, Inferior.zero]
      · simp [withInferior, Function.update_of_ne here, untouched.2]
  | registerThread inferiorId threadId tcb =>
    rw [Event.run, after_ignore]
    rcases gdbRegisterThread_cases s inferiorId threadId tcb with ⟨same, _⟩ |
      ⟨pd', idx, lookup, _, _⟩ |
      ⟨pd', idx, slot, lookup, _, _⟩
    · rw [same, untouched.2]
    all_goals
      obtain ⟨u, run, _⟩ := first_registration untouched lookup threadId tcb
      simp [addsThread, value_ok run] at adds
  | threadExit inferiorId threadId =>
    rw [Event.run, after_ignore]
    rcases gdbThreadExit_cases s inferiorId threadId with ⟨same, _⟩ | ⟨pd', slot, _, found, _⟩
    · rw [same, untouched.2]
    · have on : (s.thread ⟨pd', slot⟩).enabled = true := (lookupThreadFromId_some found).1
      rw [(untouched.1.2 _).1] at on
      contradiction
  | fault inferiorId threadId message =>
    rw [Event.run, after_ignore]
    have same : SameRegistry s (after (gdbHandleFault inferiorId threadId message) s) :=
      stays_gdbHandleFault inferiorId threadId message s fun _ _ _ _ _ => sameRegistry_of_eq rfl rfl
    rw [same.currThreadIdx, untouched.2]
  | packet input =>
    rw [Event.run, after_ignore, (packet_sameRegistry input s).currThreadIdx, untouched.2]
  | suspend =>
    have same : SameRegistry s (after suspendSystem s) :=
      stays_suspendSystem (fun _ _ => sameRegistry_of_eq rfl rfl) s
    rw [Event.run, same.currThreadIdx, untouched.2]
  | resume =>
    have same : SameRegistry s (after resumeSystem s) :=
      stays_resumeSystem (fun _ _ => sameRegistry_of_eq rfl rfl) s
    rw [Event.run, same.currThreadIdx, untouched.2]

theorem start_agrees_iff {s : State} (ok : RegistryOk s) (untouched : Untouched s) (e : Event) :
    (addsThread s e = true → Agrees (after e.run s) none) ↔ StartsFirst s e := by
  cases e with
  | registerThread inferiorId threadId tcb =>
    cases lookup : lookupInferiorFromId s inferiorId with
    | none =>
      have run : (gdbRegisterThread inferiorId threadId tcb).run s = .ok .invalidArguments s := by
        unfold gdbRegisterThread
        rw [run_bind_ok (EStateM.run_get s), lookup]
        rfl
      have missing : addsThread s (.registerThread inferiorId threadId tcb) = false := by
        simp [addsThread, value_ok run]
      refine iff_of_true (fun adds => ?_) fun pd found => ?_
      · rw [missing] at adds
        contradiction
      · rw [lookup] at found
        cases found
    | some pd =>
      obtain ⟨u, run, target, enabled, gdbId⟩ := first_registration untouched lookup threadId tcb
      have adds : addsThread s (.registerThread inferiorId threadId tcb) = true := by
        simp [addsThread, value_ok run]
      have ok' := event_keeps_ok ok (.registerThread inferiorId threadId tcb)
      rw [agrees_iff ok']
      rw [Event.run, after_ignore, after_ok run]
      constructor
      · intro next pd' found
        rw [lookup] at found
        cases found
        have here := (next adds).1.target
        rw [target] at here
        cases here
        rfl
      · intro first _
        have zero := first pd lookup
        subst zero
        exact ⟨⟨target, enabled, gdbId⟩, by simp⟩
  | _ => exact iff_of_true (fun adds => by cases adds) trivial

/- Sessions. -/

/-- A session and the last event text that no accepted `H` packet has followed. -/
structure DebugSession where
  base : TargetSession
  event : Option (List Byte)

def DebugSession.boot (output : Nat → Byte) (kernel : Kernel) : DebugSession :=
  ⟨.boot output kernel, none⟩

def debugStep (w : DebugSession) (move : Move) : DebugSession where
  base := targetStep w.base move
  event :=
    if w.base.halted then w.event
    else match move with
      | .call e => eventAfter w.base.state w.event e
      | .outside _ => w.event

def DebugSession.ok (w : DebugSession) : Prop := w.base.started = true → Agrees w.base.state w.event

/-- The first thread belongs to the first inferior, and later calls keep it the target. -/
def MoveKeepsTarget (w : DebugSession) : Move → Prop
  | .call e => w.base.halted = false →
      if w.base.started then KeepsTarget w.base.state e else StartsFirst w.base.state e
  | .outside _ => True

def DebugOk (w : DebugSession) : Prop :=
  SessionOk w.base ∧ (w.base.started = false → Untouched w.base.state ∧ w.event = none)

theorem debugOk_boot (output : Nat → Byte) (kernel : Kernel) : DebugOk (.boot output kernel) :=
  ⟨⟨registryOk_boot output kernel, fun _ => ⟨rfl, fun _ => ⟨rfl, rfl⟩⟩⟩,
    fun _ => ⟨⟨⟨rfl, fun _ => ⟨rfl, rfl⟩⟩, fun _ => rfl⟩, rfl⟩⟩

theorem debugOk_step {w : DebugSession} (ok : DebugOk w) (move : Move) :
    DebugOk (debugStep w move) := by
  refine ⟨sessionOk_step ok.1 move, ?_⟩
  unfold debugStep targetStep
  dsimp only
  split
  · exact ok.2
  · cases move with
    | outside kernel =>
      intro fresh
      obtain ⟨untouched, none⟩ := ok.2 fresh
      have same : SameRegistry w.base.state (w.base.state.withKernel kernel) :=
        sameRegistry_of_eq rfl rfl
      exact ⟨untouched_of_same same rfl untouched, none⟩
    | call e =>
      dsimp only
      intro fresh
      simp only [Bool.or_eq_false_iff] at fresh
      obtain ⟨untouched, none⟩ := ok.2 fresh.1
      rw [none]
      exact ⟨event_untouched ok.1.1 untouched fresh.2, eventAfter_untouched untouched e⟩

theorem agrees_withKernel {s : State} (ok : RegistryOk s) {event : Option (List Byte)}
    (agrees : Agrees s event) (kernel : Kernel) : Agrees (s.withKernel kernel) event := by
  have same : SameRegistry s (s.withKernel kernel) := sameRegistry_of_eq rfl rfl
  have ok' := registryOk_of_same same ok
  obtain ⟨anchored, names⟩ := (agrees_iff ok event).mp agrees
  have later : Anchored (s.withKernel kernel) := ⟨anchored.target, anchored.enabled, anchored.gdbId⟩
  exact (agrees_iff ok' event).mpr
    ⟨later, fun text last => eventNames_of_anchored ok ok' anchored later (names text last)⟩

theorem debugStep_ok_iff {w : DebugSession} (ok : DebugOk w) (agrees : w.ok) (move : Move) :
    (debugStep w move).ok ↔ MoveKeepsTarget w move := by
  unfold DebugSession.ok debugStep targetStep
  by_cases halted : w.base.halted = true
  · simp only [if_pos halted]
    refine iff_of_true agrees ?_
    cases move with
    | outside kernel => trivial
    | call e => exact fun running => absurd halted (by simp [running])
  · simp only [if_neg halted]
    cases move with
    | outside kernel =>
      exact iff_of_true (fun started => agrees_withKernel ok.1.1 (agrees started) kernel) trivial
    | call e =>
      simp only [MoveKeepsTarget, show w.base.halted = false by simpa using halted, true_imp_iff]
      cases started : w.base.started with
      | true =>
        simp only [Bool.true_or, true_imp_iff, if_true]
        exact event_agrees_iff ok.1.1 (agrees started) e
      | false =>
        obtain ⟨untouched, none⟩ := ok.2 started
        simp only [Bool.false_or, none, eventAfter_untouched untouched,
          Bool.false_eq_true, if_false]
        exact start_agrees_iff ok.1.1 untouched e

/-- After every step of a session all sides agree on the current thread exactly when the first
    thread of the first inferior is the target throughout. -/
theorem current_thread_along_iff (output : Nat → Byte) (kernel : Kernel) (moves : List Move) :
    Along debugStep DebugSession.ok moves (.boot output kernel) ↔
      Guarded debugStep MoveKeepsTarget moves (.boot output kernel) := by
  refine along_iff_guarded DebugOk (fun _ _ => True) (fun _ move ok _ => debugOk_step ok move)
    (fun _ move ok _ agrees => debugStep_ok_iff ok agrees move) moves _
      (debugOk_boot output kernel) ?_ ?_
  · intro started
    cases started
  · exact guarded_of_forall (P := fun _ => True) moves _ fun _ _ => trivial

omit [Machine] in
def secondSession : @DebugSession obligingBoard :=
  let _ := obligingBoard
  debugStep (debugStep (debugStep (.boot (fun _ => 0) blankKernel) (.call (.registerInferior 1 7)))
    (.call (.registerInferior 2 8))) (.call (.registerThread 2 1 5))

omit [Machine] in
theorem secondSession_target : letI := obligingBoard
    secondSession.base.started = true ∧ secondSession.base.state.targetThread = some ⟨1, 0⟩ := by
  let _ := obligingBoard
  exact ⟨rfl, rfl⟩

omit [Machine] in
theorem secondSession_ok : letI := obligingBoard
    DebugOk secondSession := by
  let _ := obligingBoard
  exact debugOk_step (debugOk_step (debugOk_step (debugOk_boot _ _) _) _) _

omit [Machine] in
/-- The only thread belongs to the second inferior, and `qC` is answered with `p1.1`. -/
theorem second_inferior_not_current : letI := obligingBoard
    ¬ ∀ (output : Nat → Byte) (kernel : Kernel) (moves : List Move),
      Along debugStep DebugSession.ok moves (.boot output kernel) := by
  let _ := obligingBoard
  intro all
  have last : secondSession.ok := (all (fun _ => 0) blankKernel
    [.call (.registerInferior 1 7), .call (.registerInferior 2 8),
      .call (.registerThread 2 1 5)]).2.2.1
  obtain ⟨started, target⟩ := secondSession_target
  have first := ((agrees_iff secondSession_ok.1.1 _).mp (last started)).1.target
  rw [target] at first
  cases first

end Libgdb
