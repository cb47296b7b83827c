import Libgdb.ContinuedThreads
import Libgdb.RegisterMirror
import Libgdb.ResumeTexts

/-!
The leftmost action that matches a thread. Each action sets the wake-up flags of the whole system
over again, so what an earlier action asked for is undone unless a continue comes last, and ids
address slots by thread ids up to the size of the table.
-/
namespace Libgdb
open ByteMemory KeyedUpdates RefusedCalls CheckedPrograms
variable [Machine]

/-- `vCont`, the actions and the NUL, with what the buffer holds behind it. -/
def vcontPacket (actions : List ActionText) (tail : List Byte) : List Byte :=
  str "vCont" ++ (actionsText actions ++ 0 :: tail)

/-- The leftmost action that matches the thread is a step, or is a continue. -/
def LeftmostMatch (s : State) (script : List VcontAction) (t : ThreadRef) (stepping : Bool) :
    Prop :=
  ∃ before a after, script = before ++ a :: after ∧ (∀ b ∈ before, ¬ b.matches s t) ∧
    a.matches s t ∧ a.stepping = stepping

/-- The packet returns. Threads that it matches are woken up, stepping by their leftmost action;
    the others are woken up if some action is a continue. What is woken up is then resumed. -/
def AppliesLeftmost (s : State) (packet : List Byte) (script : List VcontAction) : Prop :=
  ∃ u, (gdbHandlePacket packet).run s = .ok true u ∧
    (∀ t, s.live t = true → ∀ stepping, LeftmostMatch s script t stepping →
      (u.thread t).wakeup = true ∧ (u.kernel.tcb (u.thread t).tcb).singleStepping = stepping) ∧
    (∀ t, s.live t = true → (∀ a ∈ script, ¬ a.matches s t) →
      ((u.thread t).wakeup = true ↔ ∃ a ∈ script, a.stepping = false)) ∧
    ∃ v, resumeSystem.run u = .ok () v ∧
      v.kernel.calls = ((threadRefs.filter fun t => u.live t && (u.thread t).wakeup).map fun t =>
        KernelCall.tcbResume (u.thread t).tcb).reverse ++ u.kernel.calls

/-- The id names a live thread, or all threads, of a registered inferior. -/
def VcontId.NamesLive (s : State) (id : VcontId) : Prop :=
  ∃ pd, (s.inferiors pd).enabled = true ∧ id.procId.toInt = (s.inferiors pd).gdbId.toNat ∧
    (id.threadId.toInt = -1 ∨ ∃ slot, s.live ⟨pd, slot⟩ = true ∧
      id.threadId.toInt = (s.thread ⟨pd, slot⟩).gdbId.toNat)

/-- When a packet does so: it is read as it is written, its thread ids fit the table, and no
    action undoes an earlier one. -/
structure LeftmostHolds (s : State) (actions : List ActionText) (script : List VcontAction) :
    Prop where
  numbers : NumbersFirst actions
  small : ∀ a ∈ script, ∀ id ∈ a.ids,
    id.threadId.toInt = -1 ∨ 0 < id.threadId.toInt ∧ id.threadId.toInt ≤ 256
  awake : ∀ t, s.live t = true → (∃ a ∈ script, a.matches s t) → LeftAwake script t
  asleep : ∀ t, s.live t = true → (∀ a ∈ script, ¬ a.matches s t) →
    (∃ a ∈ script, a.stepping = false) → ∃ last ∈ script.getLast?, last.stepping = false
  steps : ∀ t, s.live t = true → ∀ stepping, LeftmostMatch s script t stepping →
    ((∀ c ∈ madeCalls s script, c.1 ≠ (s.thread t).tcb) ∧
      (s.kernel.tcb (s.thread t).tcb).singleStepping = stepping) ∨
    LastCall (madeCalls s script) (s.thread t).tcb stepping

/- Matching and addressing. -/

structure VcontId.Fits (s : State) (id : VcontId) : Prop where
  named : id.NamesLive s
  small : id.threadId.toInt = -1 ∨ 0 < id.threadId.toInt ∧ id.threadId.toInt ≤ 256

theorem slot_of_gdbId {s : State} (ok : RegistryOk s) {t : ThreadRef} (live : s.live t = true)
    (positive : 0 < (s.thread t).gdbId.toNat) (small : (s.thread t).gdbId.toNat ≤ 256) :
    t.slot.val + 1 = (s.thread t).gdbId.toNat := by
  have enabled : (s.thread t).enabled = true := (Bool.and_eq_true_iff.mp live).2
  rcases ok.threads t with ⟨_, off, _⟩ | ⟨_, _, mods⟩
  · rw [off] at enabled
    cases enabled
  · have := t.slot.isLt
    simp only [maxThreads] at *
    omega

theorem mem_threads_iff_names {s : State} (ok : RegistryOk s) {id : VcontId} (fits : id.Fits s)
    {t : ThreadRef} (live : s.live t = true) : t ∈ id.threads ↔ id.names s t := by
  obtain ⟨⟨pd, enabled, proc, thread⟩, small⟩ := fits
  have place (pd' : Fin maxPds) (enabled' : (s.inferiors pd').enabled = true) :
      (s.inferiors pd').gdbId.toNat = pd'.val + 1 := by
    rw [ok.inferiorId, if_pos enabled']
  have own : (s.inferiors t.pd).enabled = true := (Bool.and_eq_true_iff.mp live).1
  rw [place pd enabled] at proc
  rw [mem_threads, VcontId.names, place t.pd own]
  have notAll : id.procId.toInt ≠ -1 := by omega
  rw [or_iff_right notAll]
  constructor
  · rintro ⟨same, slots⟩
    refine ⟨by omega, slots.imp_right fun slot => ?_⟩
    rcases thread with all | ⟨slot', live', names⟩
    · omega
    · have samePd : t.pd = pd := Fin.ext (by omega)
      rcases small with all | ⟨positive, le⟩
      · omega
      · have here := slot_of_gdbId ok live' (by omega) (by omega)
        dsimp only at here
        have sameSlot : t.slot = slot' := Fin.ext (by omega)
        obtain ⟨_, _⟩ := t
        subst samePd sameSlot
        exact names
  · rintro ⟨same, threads⟩
    refine ⟨by omega, threads.imp_right fun names => ?_⟩
    rcases small with all | ⟨positive, le⟩
    · omega
    · have here := slot_of_gdbId ok live (by omega) (by omega)
      omega

theorem addresses_iff_matches {s : State} (ok : RegistryOk s) {a : VcontAction}
    (fits : ∀ id ∈ a.ids, id.Fits s)
    {t : ThreadRef} (live : s.live t = true) : a.addresses t = true ↔ a.matches s t := by
  rw [VcontAction.addresses, decide_eq_true_iff, idsThreads, List.mem_flatMap]
  refine exists_congr fun id => and_congr_right fun mem => ?_
  exact mem_threads_iff_names ok (fits id mem) live

theorem leftmost_iff {s : State} (ok : RegistryOk s) {script : List VcontAction}
    (fits : ∀ a ∈ script, ∀ id ∈ a.ids, id.Fits s) {t : ThreadRef}
    (live : s.live t = true) (b : Bool) :
    LeftmostMatch s script t b ↔ leftmost script t = some b := by
  rw [leftmost, Option.map_eq_some_iff]
  constructor
  · rintro ⟨before, a, after, rfl, none, here, rfl⟩
    refine ⟨a, List.find?_eq_some_iff_append.mpr ⟨?_, before, after, rfl, fun c mem => ?_⟩, rfl⟩
    · exact (addresses_iff_matches ok (fits a (by simp)) live).mpr here
    · rw [Bool.not_eq_true']
      exact Bool.eq_false_iff.mpr fun addressed =>
        none c mem ((addresses_iff_matches ok (fits c (by simp [mem])) live).mp addressed)
  · rintro ⟨a, found, rfl⟩
    obtain ⟨here, before, after, rfl, none⟩ := List.find?_eq_some_iff_append.mp found
    refine ⟨before, a, after, rfl, fun c mem matched => ?_, ?_, rfl⟩
    · have stale := none c mem
      rw [(addresses_iff_matches ok (fits c (by simp [mem])) live).mpr matched] at stale
      cases stale
    · exact (addresses_iff_matches ok (fits a (by simp)) live).mp here

theorem exists_leftmost {s : State} {script : List VcontAction} {t : ThreadRef}
    (some : ∃ a ∈ script, a.matches s t) :
    ∃ b, LeftmostMatch s script t b := by
  induction script with
  | nil =>
    obtain ⟨_, mem, _⟩ := some
    cases mem
  | cons a script ih =>
    by_cases here : a.matches s t
    · exact ⟨a.stepping, [], a, script, rfl, by simp, here, rfl⟩
    · obtain ⟨b, mem, matched⟩ := some
      have later : ∃ b ∈ script, b.matches s t := by
        rcases List.mem_cons.mp mem with rfl | mem'
        · exact absurd matched here
        · exact ⟨b, mem', matched⟩
      obtain ⟨stepping, before, c, after, rfl, none, this, kind⟩ := ih later
      refine ⟨stepping, a :: before, c, after, rfl, ?_, this, kind⟩
      exact List.forall_mem_cons.mpr ⟨here, none⟩

omit [Machine] in
theorem leftAwake_unaddressed {script : List VcontAction} {t : ThreadRef}
    (none : ∀ a ∈ script, a.addresses t = false) :
    LeftAwake script t ↔ ∃ last ∈ script.getLast?, last.stepping = false := by
  constructor
  · rintro ⟨earlier, last, rfl, continues | ⟨addressed, _⟩⟩
    · exact ⟨last, by simp, continues⟩
    · rw [none last (by simp)] at addressed
      cases addressed
  · rintro ⟨last, ends, continues⟩
    obtain ⟨earlier, rfl⟩ := List.getLast?_eq_some_iff.mp ends
    exact ⟨earlier, last, rfl, Or.inl continues⟩

/- Packets. -/

omit [Machine] in
theorem vcontPacket_split {actions : List ActionText} (nonempty : actions ≠ []) (tail : List Byte) :
    ∃ rest, vcontPacket actions tail = str "vCont;" ++ rest ∧
      (str "vCont;" ++ rest).drop 5 = actionsText actions ++ 0 :: tail := by
  cases actions with
  | nil => exact absurd rfl nonempty
  | cons a actions =>
    refine ⟨(actionsText (a :: actions) ++ 0 :: tail).tail, ?_, ?_⟩
    · rw [vcontPacket, actionsText_cons]
      rfl
    · rw [actionsText_cons]
      rfl

theorem readScript_ends {s : State} {actions : List ActionText}
    (wellFormed : ∀ a ∈ actions, a.WellFormed)
    {script : List VcontAction} (parse : ActionsParse Machine.junkInt s.drawn actions script)
    {tail rest : List Byte}
    (text : (str "vCont;" ++ rest).drop 5 = actionsText actions ++ 0 :: tail) :
    (NumbersFirst actions → readScript s (str "vCont;" ++ rest) = .ok (script, true)) ∧
    (¬ NumbersFirst actions → ∃ e, readScript s (str "vCont;" ++ rest) = .error e) := by
  have room : (actionsText actions).length < (str "vCont;" ++ rest).length + 1 := by
    have lengths := congrArg List.length text
    simp only [List.length_drop, List.length_append, List.length_cons] at lengths ⊢
    omega
  unfold readScript
  rw [text]
  exact ⟨fun numbers => readActions_ends wellFormed parse numbers tail room,
    fun stray => readActions_stray wellFormed parse stray tail room⟩

theorem reach_iff_small {s : State} (ok : RegistryOk s) {id : VcontId} (named : id.NamesLive s)
    (stepping : Bool) :
    IdsInRange s (.resume stepping) id.procId.toInt id.threadId.toInt ↔
      id.threadId.toInt = -1 ∨ 0 < id.threadId.toInt ∧ id.threadId.toInt ≤ 256 := by
  obtain ⟨pd, enabled, proc, thread⟩ := named
  have place : (s.inferiors pd).gdbId.toNat = pd.val + 1 := by rw [ok.inferiorId, if_pos enabled]
  have names : NamesInferior s id.procId.toInt := ⟨pd, enabled, proc.symm⟩
  constructor
  · rintro (all | ⟨_, low | ⟨_, range⟩⟩)
    · omega
    · rcases thread with every | ⟨slot, _, named⟩ <;> omega
    · exact range
  · exact fun range => Or.inr ⟨Or.inl (by omega), Or.inr ⟨names, range⟩⟩

/- One action for each of two inferiors. -/

/-- `p<proc>.1` -/
def firstThread (proc : String) : IdText := ⟨str proc, str "1"⟩

omit [Machine] in
theorem firstThread_wellFormed {stepping : Bool} {proc : String} (hex : IsHexText (str proc)) :
    (⟨stepping, [firstThread proc]⟩ : ActionText).WellFormed := by
  have thread : IsHexText (str "1") := ⟨by decide, by decide⟩
  refine ⟨List.cons_ne_nil _ _, fun id mem => ?_⟩
  rw [List.mem_singleton.mp mem]
  exact ⟨hex, Or.inr thread⟩

/-- `vCont;s:p1.1;c:p2.1`, or `vCont;c:p1.1;s:p2.1` -/
def mixedActions (stepFirst : Bool) : List ActionText :=
  [⟨stepFirst, [firstThread "1"]⟩, ⟨!stepFirst, [firstThread "2"]⟩]

def mixedScript (stepFirst : Bool) : List VcontAction :=
  [⟨stepFirst, [⟨1, 1⟩]⟩, ⟨!stepFirst, [⟨2, 1⟩]⟩]

omit [Machine] in
theorem mixedActions_wellFormed (stepFirst : Bool) :
    ∀ a ∈ mixedActions stepFirst, a.WellFormed := by
  have first : (⟨stepFirst, [firstThread "1"]⟩ : ActionText).WellFormed :=
    firstThread_wellFormed ⟨by decide, by decide⟩
  have second : (⟨!stepFirst, [firstThread "2"]⟩ : ActionText).WellFormed :=
    firstThread_wellFormed ⟨by decide, by decide⟩
  exact List.forall_mem_cons.mpr ⟨first, List.forall_mem_singleton.mpr second⟩

omit [Machine] in
theorem mixedScript_parses (stepFirst : Bool) {junk : Nat → BitVec 32} (drawn : Nat) :
    ActionsParse junk drawn (mixedActions stepFirst) (mixedScript stepFirst) :=
  ⟨rfl, ⟨rfl, trivial⟩, rfl, ⟨rfl, trivial⟩, trivial⟩

omit [Machine] in
theorem mixedScript_names (stepFirst : Bool) : letI := obligingBoard
    ∀ a ∈ mixedScript stepFirst, ∀ id ∈ a.ids, id.NamesLive duoState := by
  let _ := obligingBoard
  have first : VcontId.NamesLive duoState ⟨1, 1⟩ :=
    ⟨0, by decide +kernel, by decide +kernel, Or.inr ⟨0, by decide +kernel, by decide +kernel⟩⟩
  have second : VcontId.NamesLive duoState ⟨2, 1⟩ :=
    ⟨1, by decide +kernel, by decide +kernel, Or.inr ⟨0, by decide +kernel, by decide +kernel⟩⟩
  have (stepping : Bool) {id : VcontId} (named : id.NamesLive duoState) :
      ∀ id' ∈ (⟨stepping, [id]⟩ : VcontAction).ids, id'.NamesLive duoState := by
    intro id' mem
    rw [List.mem_singleton.mp mem]
    exact named
  exact List.forall_mem_cons.mpr ⟨this _ first, List.forall_mem_singleton.mpr (this _ second)⟩

theorem leftmost_head {s : State} {id : VcontId} {t : ThreadRef}
    (proc : id.procId.toInt = (s.inferiors t.pd).gdbId.toNat)
    (thread : id.threadId.toInt = (s.thread t).gdbId.toNat)
    (stepping : Bool) (script : List VcontAction) :
    LeftmostMatch s (⟨stepping, [id]⟩ :: script) t stepping :=
  ⟨[], ⟨stepping, [id]⟩, script,
    rfl, by simp, ⟨id, List.mem_singleton_self _, Or.inr ⟨proc, Or.inr thread⟩⟩, rfl⟩

/-- A packet applies the leftmost action to each thread exactly when it is read as written and no
    action undoes what an earlier one set. -/
theorem leftmost_applied_iff {s : State} (reachable : Reachable s) {actions : List ActionText}
    (nonempty : actions ≠ []) (wellFormed : ∀ a ∈ actions, a.WellFormed) (tail : List Byte)
    {script : List VcontAction} (parse : ActionsParse Machine.junkInt s.drawn actions script)
    (named : ∀ a ∈ script, ∀ id ∈ a.ids, id.NamesLive s) :
    AppliesLeftmost s (vcontPacket actions tail) script ↔ LeftmostHolds s actions script := by
  have ok := reachable_ok reachable
  obtain ⟨rest, split, text⟩ := vcontPacket_split nonempty tail
  obtain ⟨reads, strays⟩ := readScript_ends wellFormed parse text
  rw [split]
  by_cases numbers : NumbersFirst actions
  swap
  · refine iff_of_false ?_ fun holds => numbers holds.numbers
    rintro ⟨u, run, _⟩
    obtain ⟨_, _, read, _⟩ := vcont_outcome ok run
    obtain ⟨e, error⟩ := strays numbers
    rw [error] at read
    cases read
  have read := reads numbers
  by_cases small : ∀ a ∈ script, ∀ id ∈ a.ids, id.threadId.toInt = -1 ∨ 0 < id.threadId.toInt ∧
    id.threadId.toInt ≤ 256
  swap
  · refine iff_of_false ?_ fun holds => small holds.small
    rintro ⟨u, run, _⟩
    obtain ⟨script', _, read', reach, _⟩ := vcont_outcome ok run
    cases read.symm.trans read'
    exact small fun a mem id mem' => (reach_iff_small ok (named a mem id mem') a.stepping).mp
      (reach a mem id mem')
  have fits : ∀ a ∈ script, ∀ id ∈ a.ids, id.Fits s :=
    fun a mem id mem' => ⟨named a mem id mem', small a mem id mem'⟩
  have run := vcont_run ok read fun a mem id mem' =>
    (reach_iff_small ok (named a mem id mem') a.stepping).mpr (small a mem id mem')
  let u := (script.foldl applyAction (scriptStart s)).draw (2 * (scriptIds script).length)
  replace run : (gdbHandlePacket (str "vCont;" ++ rest)).run s = .ok true u := run
  have wakes {t : ThreadRef} (live : s.live t = true) : (u.thread t).wakeup = true ↔
      LeftAwake script t := by
    refine script_wakeup (script_nonempty read) (s := scriptStart s) (t := t) live ?_
    rw [start_fresh]
    exact (Bool.and_eq_true_iff.mp live).2
  have steps (t : ThreadRef) (b : Bool) : (u.kernel.tcb (u.thread t).tcb).singleStepping = b ↔
      ((∀ c ∈ madeCalls s script, c.1 ≠ (s.thread t).tcb) ∧
        (s.kernel.tcb (s.thread t).tcb).singleStepping = b) ∨ LastCall (madeCalls s script)
          (s.thread t).tcb b := by
    have same : SameRegistry s u := vcont_sameRegistry script (2 * (scriptIds script).length)
    rw [same.tcb, vcont_singleStepping]
    exact lastValue_eq_iff
  have unmatched {t : ThreadRef} (live : s.live t = true) (none : ∀ a ∈ script, ¬ a.matches s t) :
      LeftAwake script t ↔ ∃ last ∈ script.getLast?, last.stepping = false :=
    leftAwake_unaddressed fun a mem => Bool.eq_false_iff.mpr fun addressed =>
      none a mem ((addresses_iff_matches ok (fits a mem) live).mp addressed)
  constructor
  · rintro ⟨u', run', matched, others, _⟩
    cases run.symm.trans run'
    refine ⟨numbers, small, fun t live some => ?_, fun t live none continues => ?_,
      fun t live b first => ?_⟩
    · obtain ⟨b, first⟩ := exists_leftmost some
      exact (wakes live).mp (matched t live b first).1
    · exact (unmatched live none).mp ((wakes live).mp ((others t live none).mpr continues))
    · exact (steps t b).mp (matched t live b first).2
  · intro holds
    obtain ⟨k, resumed, calls⟩ := resumeSystem_calls u
    refine ⟨u, run, fun t live b first => ⟨?_, ?_⟩, fun t live none => ?_, u.withKernel k,
      resumed, calls⟩
    · obtain ⟨before, a, after, split, _, here, _⟩ := first
      exact (wakes live).mpr (holds.awake t live ⟨a, by rw [split]; simp, here⟩)
    · exact (steps t b).mpr (holds.steps t live b first)
    · rw [wakes live, unmatched live none]
      constructor
      · rintro ⟨last, ends, continues⟩
        exact ⟨last, List.mem_of_getLast? ends, continues⟩
      · exact holds.asleep t live none

omit [Machine] in
/-- `vCont;s:p1.1;c:p2.1` steps the first inferior's thread and continues the second's. -/
theorem duo_leftmost_applied : letI := obligingBoard
    AppliesLeftmost duoState (vcontPacket (mixedActions true) []) (mixedScript true) := by
  let _ := obligingBoard
  have reachable := duo_registered.reachable
  have numbers : NumbersFirst (mixedActions true) := by
    intro id mem
    have first : id = firstThread "1" := List.mem_singleton.mp mem
    rw [first]
    decide
  have small : ∀ a ∈ mixedScript true, ∀ id ∈ a.ids,
      id.threadId.toInt = -1 ∨ 0 < id.threadId.toInt ∧ id.threadId.toInt ≤ 256 := by decide
  have fits : ∀ a ∈ mixedScript true, ∀ id ∈ a.ids, id.Fits duoState := fun a mem id mem' =>
    ⟨mixedScript_names true a mem id mem', small a mem id mem'⟩
  have calls : madeCalls duoState (mixedScript true) = [(5, true), (6, false)] := by decide +kernel
  have firstTcb : (duoState.thread ⟨0, 0⟩).tcb = 5 := by decide +kernel
  have secondTcb : (duoState.thread ⟨1, 0⟩).tcb = 6 := by decide +kernel
  refine (leftmost_applied_iff reachable (List.cons_ne_nil _ _) (mixedActions_wellFormed true) []
    (mixedScript_parses true _) (mixedScript_names true)).mpr
    ⟨numbers, small, fun t live _ => ?_, fun t live _ _ => ?_, fun t live b first => ?_⟩
  · exact ⟨[⟨true, [⟨1, 1⟩]⟩], ⟨false, [⟨2, 1⟩]⟩, rfl, Or.inl rfl⟩
  · exact ⟨⟨false, [⟨2, 1⟩]⟩, rfl, rfl⟩
  · rw [leftmost_iff (reachable_ok reachable) fits live] at first
    rw [calls]
    rcases duo_live t live with rfl | rfl
    · have kind : leftmost (mixedScript true) ⟨1, 0⟩ = some false := by decide
      rw [kind] at first
      cases first
      rw [secondTcb]
      exact Or.inr ⟨[(5, true)], [], rfl, by simp⟩
    · have kind : leftmost (mixedScript true) ⟨0, 0⟩ = some true := by decide
      rw [kind] at first
      cases first
      rw [firstTcb]
      exact Or.inr ⟨[], [(6, false)], rfl, by simp⟩

def mixedDuo : @State obligingBoard :=
  let _ := obligingBoard
  after (gdbHandlePacket (vcontPacket (mixedActions false) [])) duoState

omit [Machine] in
theorem mixedScript_leftmost : letI := obligingBoard
    LeftmostMatch duoState (mixedScript false) ⟨0, 0⟩ false := by
  let _ := obligingBoard
  have proc : (⟨1, 1⟩ : VcontId).procId.toInt =
      (duoState.inferiors (⟨0, 0⟩ : ThreadRef).pd).gdbId.toNat := by
    decide +kernel
  have thread : (⟨1, 1⟩ : VcontId).threadId.toInt = (duoState.thread ⟨0, 0⟩).gdbId.toNat := by
    decide +kernel
  exact leftmost_head proc thread false _

theorem not_appliesLeftmost {s u : State} {packet : List Byte} {script : List VcontAction}
    {t : ThreadRef} (returns : (gdbHandlePacket packet).run s = .ok true u) (live : s.live t = true)
    {stepping : Bool}
    (first : LeftmostMatch s script t stepping) (asleep : (u.thread t).wakeup = false) :
    ¬ AppliesLeftmost s packet script := by
  rintro ⟨v, run, matched, _⟩
  cases run.symm.trans returns
  have awake := (matched t live stepping first).1
  rw [asleep] at awake
  cases awake

omit [Machine] in
theorem mixedDuo_asleep : letI := obligingBoard
    (mixedDuo.thread ⟨0, 0⟩).wakeup = false := by
  let _ := obligingBoard
  decide +kernel

omit [Machine] in
theorem mixedDuo_misses : letI := obligingBoard
    ¬ AppliesLeftmost duoState (vcontPacket (mixedActions false) []) (mixedScript false) := by
  let _ := obligingBoard
  have accepts : value (gdbHandlePacket (vcontPacket (mixedActions false) [])) duoState =
      some true := by decide +kernel
  have returns : (gdbHandlePacket (vcontPacket (mixedActions false) [])).run duoState =
      .ok true mixedDuo := run_of_some accepts
  have live : duoState.live ⟨0, 0⟩ = true := by decide +kernel
  exact not_appliesLeftmost returns live mixedScript_leftmost mixedDuo_asleep

omit [Machine] in
/-- `vCont;c:p1.1;s:p2.1` leaves the first thread, which is to continue, asleep. -/
theorem later_step_undoes_continue : letI := obligingBoard
    ¬ ∀ s, Reachable s → ∀ actions : List ActionText, actions ≠ [] → (∀ a ∈ actions, a.WellFormed) →
    ∀ tail script,
      ActionsParse Machine.junkInt s.drawn actions script →
      (∀ a ∈ script, ∀ id ∈ a.ids, id.NamesLive s) →
      AppliesLeftmost s (vcontPacket actions tail) script := by
  let _ := obligingBoard
  intro all
  exact mixedDuo_misses (all duoState duo_registered.reachable (mixedActions false)
    (List.cons_ne_nil _ _)
    (mixedActions_wellFormed false) [] (mixedScript false) (mixedScript_parses false _)
      (mixedScript_names false))

end Libgdb
