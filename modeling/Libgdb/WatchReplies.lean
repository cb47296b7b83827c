import Libgdb.EventTexts
import Libgdb.HexCodecs
import Libgdb.RegisterMirror
import Libgdb.RepeatedStops

/-!
Stop replies for watchpoints over runs of watchpoint packets, registrations and exits. The reply
names the access of the entry at the register's place, also after the entry is freed and when the
thread's TCB brought the register along.
-/
namespace Libgdb
open ByteMemory SlotTables CheckedPrograms KeyedUpdates GuardedRuns
variable [Machine]

/- One fault. -/

def Numbers (bpNum : Word) (n : Fin numExclusiveWatchpoints) : Prop :=
  bpNum.toNat = firstWatchpoint + n.val

theorem watchSlot_of_numbers {bpNum : Word} {n : Fin numExclusiveWatchpoints}
    (numbers : Numbers bpNum n) :
    watchSlot bpNum = some n := by
  unfold Numbers at numbers
  have place : (bpNum - BitVec.ofNat 64 firstWatchpoint).toNat = n.val := by
    have wide := bpNum.isLt
    have base : (BitVec.ofNat 64 firstWatchpoint).toNat = firstWatchpoint := by
      rw [BitVec.toNat_ofNat, Nat.mod_eq_of_lt (by omega)]
    rw [BitVec.toNat_sub_of_le (by rw [BitVec.le_def, base]; omega), base]
    omega
  unfold watchSlot
  rw [dif_pos (by rw [place]; exact n.isLt)]
  exact congrArg some (Fin.ext place)

section
variable {s : State} (registry : RegistryOk s) (apart : IdsApart s) {t : ThreadRef}
    (live : s.live t = true)
include registry apart live

omit registry in
theorem lookups_live : lookupInferiorFromId s (s.inferiors t.pd).id = some t.pd ∧
    lookupThreadFromId (s.inferiors t.pd) (s.thread t).id = some t.slot := by
  obtain ⟨on, enabled⟩ := Bool.and_eq_true_iff.mp live
  constructor
  · refine firstSlot_unique (by simp [on]) fun pd same => ?_
    obtain ⟨on', id⟩ := Bool.and_eq_true_iff.mp same
    exact apart.inferiors pd t.pd on' on (eq_of_beq id)
  · refine firstSlot_unique (by simpa [State.thread] using enabled) fun slot same => ?_
    obtain ⟨on', id⟩ := Bool.and_eq_true_iff.mp same
    exact apart.threads t.pd slot t.slot on' enabled (eq_of_beq id)

theorem watchFault_run {bpNum : Word} {n : Fin numExclusiveWatchpoints} (numbers : Numbers bpNum n)
    (triggerAddress : Word) :
    (gdbHandleFault (s.inferiors t.pd).id (s.thread t).id
      (.debugException .dataBreakpoint triggerAddress bpNum)).run s =
      .ok (.noError, some true)
        { s.lay 0 (watchpointText s t t.pd ((s.inferiors t.pd).hardwareWatchpoints n).type
        triggerAddress) with
        targetThread := some t } := by
  obtain ⟨inferior, thread⟩ := lookups_live apart live
  have owner := registry.owner (Bool.and_eq_true_iff.mp live).2
  have handled := handleWatchpointException_run owner bpNum triggerAddress
  rw [watchSlot_of_numbers numbers] at handled
  unfold gdbHandleFault
  rw [run_bind_ok (EStateM.run_get s), inferior]
  dsimp only
  rw [thread]
  dsimp only
  have debug : (handleDebugException t .dataBreakpoint triggerAddress bpNum).run s = .ok true _ :=
    run_bind_ok handled _
  exact run_bind_ok debug _

end

/-- The fault of a live thread for a watchpoint register is answered with the thread, the access and
    the address, and makes the thread the target. -/
def WatchNamed (s : State) (t : ThreadRef) (access : BreakpointAccess)
    (bpNum triggerAddress : Word) : Prop :=
  ∃ u address, (gdbHandleFault (s.inferiors t.pd).id (s.thread t).id
    (.debugException .dataBreakpoint triggerAddress bpNum)).run s =
      .ok (.noError, some true) u ∧
    u.reply = str "T05thread:" ++ threadIdText s t t.pd ++
      (watchText access ++ address ++ str ";") ∧
    (∀ c ∈ address, IsHex c) ∧ address.length = 16 ∧
    hexstrToInt (address ++ str ";") 16 0 = .ok (str ";", triggerAddress) ∧
    u.targetThread = some t

/-- Every fault of a live thread for a watchpoint register armed on its TCB is answered with the
    access with which the register was armed. -/
def RepliesNamed (s : State) : Prop :=
  ∀ t, s.live t = true → ∀ bpNum n, Numbers bpNum n → ∀ setting,
    (s.kernel.tcb (s.thread t).tcb).debug (firstWatchpoint + n.val) = some setting →
      ∀ triggerAddress, WatchNamed s t setting.access bpNum triggerAddress

/-- The entry at the place of an armed register has the access with which it was armed. -/
def TypesMatch (s : State) : Prop :=
  ∀ t, s.live t = true → ∀ bpNum n, Numbers bpNum n → ∀ setting,
    (s.kernel.tcb (s.thread t).tcb).debug (firstWatchpoint + n.val) = some setting →
      ((s.inferiors t.pd).hardwareWatchpoints n).type = setting.access

omit [Machine] in
theorem watchText_inj {a a' : BreakpointAccess} {rest rest' : List Byte}
    (same : watchText a ++ rest = watchText a' ++ rest') : a = a' := by
  have letter (b : BreakpointAccess) (text : List Byte) : (watchText b ++ text)[1]? =
      (watchText b)[1]? :=
    List.getElem?_append_left (by cases b <;> decide)
  have second := congrArg (fun text => text[1]?) same
  rw [letter, letter] at second
  revert second
  cases a <;> cases a' <;> decide

theorem watchpointText_reply (s : State) (t : ThreadRef) (access : BreakpointAccess)
    (triggerAddress : Word) :
    (s.lay 0 (watchpointText s t t.pd access triggerAddress)).reply =
      str "T05thread:" ++ threadIdText s t t.pd ++
        (watchText access ++ hexDigits (wordBytes (archToBigEndian triggerAddress)) ++
          str ";") := by
  have ten : (str "T05thread:").length = 10 := by decide
  have one : (str ";").length = 1 := by decide
  have short := watchText_length access
  apply lay_reply
  · apply append_ne_zero
    · exact append_ne_zero (by decide) (threadIdText_ne_zero s t t.pd)
    · exact append_ne_zero (append_ne_zero (watchText_ne_zero access) (hexDigits_ne_zero _))
        (by decide)
  · simp [watchpointText, stopText, ten, one, bufsize, wordBytes_length]
    omega

section
variable {s : State} (registry : RegistryOk s) (apart : IdsApart s)
include registry apart

theorem watchNamed_iff {t : ThreadRef} (live : s.live t = true) {bpNum : Word}
    {n : Fin numExclusiveWatchpoints}
    (numbers : Numbers bpNum n) (access : BreakpointAccess) (triggerAddress : Word) :
    WatchNamed s t access bpNum triggerAddress ↔
    ((s.inferiors t.pd).hardwareWatchpoints n).type = access := by
  have run := watchFault_run registry apart live numbers triggerAddress
  have reply := watchpointText_reply s t ((s.inferiors t.pd).hardwareWatchpoints n).type
      triggerAddress
  constructor
  · rintro ⟨u, address, returns, text, _⟩
    cases run.symm.trans returns
    have same := reply.symm.trans text
    rw [List.append_cancel_left_eq, List.append_assoc, List.append_assoc] at same
    exact watchText_inj same
  · rintro rfl
    have hex := hexDigits_isHex (wordBytes (archToBigEndian triggerAddress))
    have long : (hexDigits (wordBytes (archToBigEndian triggerAddress))).length = 16 := by
      rw [hexDigits_length, wordBytes_length]
    have reads := hexstrToInt_number _ hex (chr ';') (by decide) [] (by rw [long])
    rw [hexNumber_address] at reads
    exact ⟨_, _, run, reply, hex, long, reads, rfl⟩

theorem repliesNamed_iff : RepliesNamed s ↔ TypesMatch s := by
  constructor
  · intro named t live bpNum n numbers setting armed
    exact (watchNamed_iff registry apart live numbers setting.access 0).mp
      (named t live bpNum n numbers setting armed 0)
  · intro types t live bpNum n numbers setting armed triggerAddress
    exact (watchNamed_iff registry apart live numbers setting.access triggerAddress).mpr
      (types t live bpNum n numbers setting armed)

end

/- One call. -/

theorem types_rewire {s : State} (types : TypesMatch s) {pd : Fin maxPds}
    {n : Fin numExclusiveWatchpoints} {wp : HwWatch}
    {value : Option DebugSetting} (fits : ∀ setting, value = some setting →
      wp.type = setting.access) {k : Kernel}
    (rewired : Rewired s.kernel (s.inferiors pd).allTcbs (firstWatchpoint + n.val) value k) :
    TypesMatch ((s.withKernel k).setInferior pd ((s.inferiors pd).setHwWatch n wp)) ↔
      ∀ setting, value = some setting → ∀ bpNum, Numbers bpNum n →
      ∀ t, s.live t = true → t.pd ≠ pd →
        (s.thread t).tcb ∈ (s.inferiors pd).allTcbs →
        ((s.inferiors t.pd).hardwareWatchpoints n).type = setting.access := by
  let u := (s.withKernel k).setInferior pd ((s.inferiors pd).setHwWatch n wp)
  have thread (t : ThreadRef) : u.thread t = s.thread t := by
    by_cases here : t.pd = pd
    · simp [u, State.thread, here, Inferior.setHwWatch]
    · simp [u, State.thread, Function.update_of_ne here]
  have live (t : ThreadRef) : u.live t = s.live t := by
    rw [State.live, State.live, thread]
    by_cases here : t.pd = pd
    · simp [u, here, Inferior.setHwWatch]
    · simp [u, Function.update_of_ne here]
  have type (pd' : Fin maxPds) (m : Fin numExclusiveWatchpoints) :
      ((u.inferiors pd').hardwareWatchpoints m).type =
      if pd' = pd ∧ m = n then wp.type else ((s.inferiors pd').hardwareWatchpoints m).type := by
    by_cases here : pd' = pd
    · subst here
      by_cases at_n : m = n
      · subst at_n
        simp [u, Inferior.setHwWatch]
      · simp [u, Inferior.setHwWatch, at_n]
    · simp [u, here]
  have inside {t : ThreadRef} (on : s.live t = true) (here : t.pd = pd) :
      (s.thread t).tcb ∈ (s.inferiors pd).allTcbs := by
    subst here
    exact mem_allTcbs.mpr ⟨t.slot, (Bool.and_eq_true_iff.mp on).2, rfl⟩
  have debug (x : Word) (m : Nat) : (u.kernel.tcb x).debug m = _ := rewired.debug x m
  constructor
  · intro next setting asked bpNum numbers t on other mem
    have now := next t ((live t).trans on) bpNum n numbers setting (by
      rw [show (s.withKernel k).setInferior pd ((s.inferiors pd).setHwWatch n wp) = u from rfl,
        thread, debug, if_pos ⟨mem, rfl⟩, asked])
    rwa [show (s.withKernel k).setInferior pd ((s.inferiors pd).setHwWatch n wp) = u from rfl, type,
      if_neg fun both => other both.1] at now
  · intro others t on bpNum m numbers setting armed
    change u.live t = true at on
    change (u.kernel.tcb (u.thread t).tcb).debug _ = _ at armed
    change ((u.inferiors t.pd).hardwareWatchpoints m).type = _
    rw [live] at on
    rw [thread, debug] at armed
    rw [type]
    split at armed
    · rename_i hit
      obtain rfl : m = n := Fin.ext (Nat.add_left_cancel hit.2)
      split
      · exact fits setting armed
      · rename_i apart
        exact others setting armed bpNum numbers t on (fun here => apart ⟨here, rfl⟩) hit.1
    · rename_i miss
      rw [if_neg fun both => miss ⟨inside on both.1, by rw [both.2]⟩]
      exact types t on bpNum m numbers setting armed

theorem types_of_fewer {s u : State} (fewer : FewerThreads s u) (types : TypesMatch s) :
    TypesMatch u := by
  intro t on bpNum n numbers setting armed
  rw [fewer.tcbs, fewer.thread t on] at armed
  rw [fewer.watchpoints t on]
  exact types t (fewer.before t on) bpNum n numbers setting armed

/- The calls of a run. -/

inductive WatchCall where
  | packet (input : List Byte)
  | registerInferior (inferiorId vspace : Word)
  | registerThread (inferiorId threadId tcb : Word)
  | threadExit (inferiorId threadId : Word)

def WatchCall.event : WatchCall → Event
  | .packet input => .packet input
  | .registerInferior inferiorId vspace => .registerInferior inferiorId vspace
  | .registerThread inferiorId threadId tcb => .registerThread inferiorId threadId tcb
  | .threadExit inferiorId threadId => .threadExit inferiorId threadId

def watchCallStep (s : State) (call : WatchCall) : State := after call.event.run s

structure WatchPacket (input : List Byte) : Prop where
  head : ∃ c d rest, input = c :: d :: rest ∧ (c = chr 'Z' ∨ c = chr 'z') ∧
    (d = chr '2' ∨ d = chr '3' ∨ d = chr '4')
  address : ∀ addr size, parseBreakpointFormat input = .ok (some (addr, size)) → addr ≠ 0

/-- The call returns, and a packet is one for a watchpoint. -/
structure WatchCallAllowed (s : State) (call : WatchCall) : Prop where
  returns : (value call.event.run s).isSome = true
  packet : ∀ input, call = .packet input → WatchPacket input

/-- The call leaves no register armed with an access that the entry at its place does not have. A
    set reaches no TCB of a thread of another inferior whose entry has another access. A new
    thread's TCB has, where its inferior's entry is free, no register armed with another access
    than the free entry names; where the entry is in use the TCB is of no thread of another
    inferior whose entry has another access. -/
def KeepsTypes (s : State) : WatchCall → Prop
  | .packet input => ∀ d rest, input = chr 'Z' :: d :: rest →
      ∀ addr size, parseBreakpointFormat input = .ok (some (addr, size)) →
      ∀ pd, s.targetPd = some pd →
        ∀ wp, stopOf d addr size = .watchpoint wp →
          ∀ n, firstSlot (fun i => ((s.inferiors pd).hardwareWatchpoints i).addr == 0) = some n →
            ∀ bpNum, Numbers bpNum n → ∀ t, s.live t = true → t.pd ≠ pd →
            (s.thread t).tcb ∈ (s.inferiors pd).allTcbs →
              ((s.inferiors t.pd).hardwareWatchpoints n).type = wp.type
  | .registerThread inferiorId threadId tcb => ∀ pd, TakesSlot s inferiorId threadId pd →
    ∀ bpNum n, Numbers bpNum n →
      match (s.inferiors pd).wants (.inr n) with
      | none => ∀ setting, (s.kernel.tcb tcb).debug (firstWatchpoint + n.val) = some setting →
          ((s.inferiors pd).hardwareWatchpoints n).type = setting.access
      | some setting => ∀ t, s.live t = true → (s.thread t).tcb = tcb → t.pd ≠ pd →
          ((s.inferiors t.pd).hardwareWatchpoints n).type = setting.access
  | _ => True

theorem withThread_watchpoints (s : State) (pd : Fin maxPds) (idx : Nat) (slot : Fin maxThreads)
    (threadId tcb : Word) (pd' : Fin maxPds) :
    ((withThread s pd idx slot threadId tcb).inferiors pd').hardwareWatchpoints =
    (s.inferiors pd').hardwareWatchpoints := by
  by_cases here : pd' = pd
  · subst here
    simp [withThread, Inferior.setThread]
  · simp [withThread, Function.update_of_ne here]

theorem registerThread_types_iff (ok : DebugCallsSucceed) {s : State} (types : TypesMatch s)
    (inferiorId threadId tcb : Word) :
    TypesMatch (after (gdbRegisterThread inferiorId threadId tcb) s) ↔
      KeepsTypes s (.registerThread inferiorId threadId tcb) := by
  by_cases takes : ∃ pd, TakesSlot s inferiorId threadId pd
  · obtain ⟨pd, takes⟩ := takes
    obtain ⟨idx, slot, free, inferiors, _, tcbs⟩ := registerThread_taken ok takes tcb
    generalize after (gdbRegisterThread inferiorId threadId tcb) s = u at *
    have thread (t : ThreadRef) :
        u.thread t = (withThread s pd idx slot threadId tcb).thread t := by
      rw [State.thread, inferiors]
      rfl
    have own : u.thread ⟨pd, slot⟩ = ⟨true, false, false, some pd, threadId,
        BitVec.ofNat 16 (idx + 1), tcb⟩ := by
      rw [thread]
      simp [State.thread, withThread, Inferior.setThread]
    have old {t : ThreadRef} (other : t ≠ ⟨pd, slot⟩) : u.thread t = s.thread t := by
      rw [thread, withThread_other s pd idx slot threadId tcb other]
    have added : u.live ⟨pd, slot⟩ = true := by
      have on := (lookupInferiorFromId_some takes.inferior).1
      rw [State.live, own, inferiors, withThread_enabled, on]
      rfl
    have live {t : ThreadRef} (other : t ≠ ⟨pd, slot⟩) : u.live t = s.live t := by
      rw [State.live, State.live, old other, inferiors, withThread_enabled]
    have newcomer {t : ThreadRef} (on : s.live t = true) : t ≠ ⟨pd, slot⟩ := by
      rintro rfl
      rw [State.live, State.thread, free, Bool.and_false] at on
      cases on
    have table (pd' : Fin maxPds) : (u.inferiors pd').hardwareWatchpoints =
        (s.inferiors pd').hardwareWatchpoints := by
      rw [inferiors, withThread_watchpoints]
    have armed (n : Fin numExclusiveWatchpoints) :
        (u.kernel.tcb tcb).debug (firstWatchpoint + n.val) =
        ((s.inferiors pd).wants (.inr n)).or
          ((s.kernel.tcb tcb).debug (firstWatchpoint + n.val)) := by
      rw [tcbs, touch_same]
      exact (armAll_debug _ _ _ (.inr n)).1 (mem_debugRegisters _)
    constructor
    · intro next pd' takes' bpNum n numbers
      have same := takes'.inferior
      rw [takes.inferior, Option.some.injEq] at same
      subst same
      cases asked : (s.inferiors pd).wants (.inr n) with
      | none =>
        intro setting brought
        have now := next ⟨pd, slot⟩ added bpNum n numbers setting
            (by rw [own, armed, asked, Option.none_or, brought])
        rwa [table] at now
      | some setting =>
        intro t on same other
        have now := next t ((live (newcomer on)).trans on) bpNum n numbers setting (by
          rw [old (newcomer on), same, armed, asked]
          rfl)
        rwa [table] at now
    · intro keeps t on bpNum n numbers setting held
      rw [table]
      have condition := keeps pd takes bpNum n numbers
      by_cases here : (u.thread t).tcb = tcb
      · rw [here, armed] at held
        cases asked : (s.inferiors pd).wants (.inr n) with
        | none =>
          rw [asked] at held condition
          by_cases new : t = ⟨pd, slot⟩
          · subst new
            exact condition setting held
          · rw [live new] at on
            rw [old new] at here
            exact types t on bpNum n numbers setting (by rw [here]; exact held)
        | some wanted =>
          rw [asked] at held condition
          cases held
          by_cases inside : t.pd = pd
          · rw [inside]
            obtain ⟨_, same⟩ := Option.ite_none_left_eq_some.mp asked
            cases same
            rfl
          · have new : t ≠ ⟨pd, slot⟩ := by
              rintro rfl
              exact inside rfl
            rw [live new] at on
            rw [old new] at here
            exact condition t on here inside
      · have new : t ≠ ⟨pd, slot⟩ := by
          rintro rfl
          rw [own] at here
          exact here rfl
        rw [live new] at on
        rw [tcbs, touch_other _ here, old new] at held
        exact types t on bpNum n numbers setting held
  · have same := @registerThread_refused _ s inferiorId threadId tcb takes
    exact iff_of_true (types_of_fewer same.fewer types) fun pd now => absurd ⟨pd, now⟩ takes

theorem stopPacket_ok {c d : Byte} (kind : c = chr 'Z' ∨ c = chr 'z') (rest : List Byte)
    {s u : State} {b : Bool}
    (returns : (gdbHandlePacket (c :: d :: rest)).run s = .ok b u) : b = false := by
  rw [dispatch_debugEvents kind, run_bind_ok (put_zero_run (by decide) s)] at returns
  obtain ⟨_, v, _, last⟩ := ok_bind_run returns
  cases last
  rfl

omit [Machine] in
theorem watch_digit {d : Byte} (digit : d = chr '2' ∨ d = chr '3' ∨ d = chr '4')
    (addr size : Word) :
    d ≠ chr '0' ∧ ∃ wp, stopOf d addr size = .watchpoint wp := by
  rcases digit with rfl | rfl | rfl
  · exact ⟨by decide, _, rfl⟩
  · exact ⟨by decide, _, rfl⟩
  · exact ⟨by decide, _, rfl⟩

theorem packet_types_iff (ok : DebugCallsSucceed) {s : State} (types : TypesMatch s)
    {input : List Byte} (packet : WatchPacket input)
    (returns : (value (gdbHandlePacket input) s).isSome = true) :
    TypesMatch (after (gdbHandlePacket input) s) ↔ KeepsTypes s (.packet input) := by
  obtain ⟨b, answered⟩ := Option.isSome_iff_exists.mp returns
  have run := run_of_some answered
  generalize after (gdbHandlePacket input) s = u at run
  obtain ⟨⟨c, d, rest, rfl, kind, digit⟩, _⟩ := packet
  obtain rfl := stopPacket_ok kind rest run
  rcases stopPacket_returns kind run with ⟨rejected, rfl⟩ |
    ⟨addr, size, pd, done, v, parse, known, made, rfl⟩
  · refine iff_of_true types fun d' rest' same addr size parse => ?_
    cases rejected.symm.trans parse
  · obtain ⟨hardware, wp, stop⟩ := watch_digit digit addr size
    unfold stopCall at made
    rw [if_neg hardware, stop] at made
    change TypesMatch v ↔ _
    by_cases set : c = chr 'Z'
    · subst set
      rw [if_pos rfl] at made
      -- the conditions of the set, for the one way to read the packet
      have condition : KeepsTypes s (.packet (chr 'Z' :: d :: rest)) ↔
          ∀ n, firstSlot (fun i => ((s.inferiors pd).hardwareWatchpoints i).addr == 0) = some n →
            ∀ bpNum, Numbers bpNum n → ∀ t, s.live t = true → t.pd ≠ pd →
            (s.thread t).tcb ∈ (s.inferiors pd).allTcbs →
              ((s.inferiors t.pd).hardwareWatchpoints n).type = wp.type := by
        constructor
        · exact fun keeps => keeps d rest rfl addr size parse pd known wp stop
        · intro all d' rest' same addr' size' parse' pd' known' wp' stop'
          cases same
          cases parse.symm.trans parse'
          cases known.symm.trans known'
          cases stop.symm.trans stop'
          exact all
      rw [condition]
      have outcome := setHardwareWatchpoint_run ok pd wp (s.lay 0 [])
      cases free : firstSlot (fun i => ((s.inferiors pd).hardwareWatchpoints i).addr == 0) with
      | none =>
        rw [show firstSlot (fun i =>
          (((s.lay 0 []).inferiors pd).hardwareWatchpoints i).addr == 0) = none from free] at outcome
        cases outcome.symm.trans made
        exact iff_of_true types nofun
      | some n =>
        rw [show firstSlot (fun i =>
          (((s.lay 0 []).inferiors pd).hardwareWatchpoints i).addr == 0) = some n from free]
          at outcome
        obtain ⟨k, run', rewired⟩ := outcome
        cases run'.symm.trans made
        have fits (setting : DebugSetting) (asked : some wp.setting = some setting) :
            wp.type = setting.access := by
          cases asked
          rfl
        have rewire := @types_rewire _ (s.lay 0 []) types pd n wp (some wp.setting) fits k rewired
        refine rewire.trans ⟨fun all m same bpNum numbers => ?_,
          fun all setting asked bpNum numbers => ?_⟩
        · cases same
          exact all wp.setting rfl bpNum numbers
        · cases asked
          exact all n rfl bpNum numbers
    · rw [if_neg set] at made
      have condition : KeepsTypes s (.packet (c :: d :: rest)) := by
        intro d' rest' same
        cases same
        exact absurd rfl set
      have outcome := unsetHardwareWatchpoint_run ok pd wp (s.lay 0 [])
      cases found : firstSlot (fun i =>
        ((s.lay 0 []).inferiors pd).hardwareWatchpoints i == wp) with
      | none =>
        rw [found] at outcome
        cases outcome.symm.trans made
        exact iff_of_true types condition
      | some n =>
        rw [found] at outcome
        obtain ⟨k, run', rewired⟩ := outcome
        cases run'.symm.trans made
        have rewire := @types_rewire _ (s.lay 0 []) types pd n { wp with addr := 0 } none
            nofun k rewired
        exact iff_of_true (rewire.mpr nofun) condition

/- Runs. -/

structure WatchOk (s : State) : Prop where
  registry : RegistryOk s
  apart : IdsApart s

theorem event_watchOk {s : State} (ok : WatchOk s) (e : Event) : WatchOk (after e.run s) :=
  ⟨event_keeps_ok ok.registry e, event_idsApart ok.apart e⟩

theorem watchCall_named_iff (calls : DebugCallsSucceed) {s : State} (ok : WatchOk s)
    {call : WatchCall} (allowed : WatchCallAllowed s call) (named : RepliesNamed s) :
    RepliesNamed (watchCallStep s call) ↔ KeepsTypes s call := by
  have after_ok := event_watchOk ok call.event
  have types := (repliesNamed_iff ok.registry ok.apart).mp named
  rw [watchCallStep, repliesNamed_iff after_ok.registry after_ok.apart]
  have returns := allowed.returns
  cases call with
  | packet input =>
    rw [WatchCall.event, Event.run, value_ignore] at returns
    rw [WatchCall.event, Event.run, after_ignore]
    exact packet_types_iff calls types (allowed.packet input rfl) returns
  | registerInferior inferiorId vspace =>
    rw [WatchCall.event, Event.run, after_ignore]
    exact iff_of_true (types_of_fewer (registerInferior_fewer s inferiorId vspace) types) trivial
  | registerThread inferiorId threadId tcb =>
    rw [WatchCall.event, Event.run, after_ignore]
    exact registerThread_types_iff calls types inferiorId threadId tcb
  | threadExit inferiorId threadId =>
    rw [WatchCall.event, Event.run, after_ignore]
    exact iff_of_true (types_of_fewer (exit_fewer s inferiorId threadId) types) trivial

/-- Along any run of watchpoint packets, registrations and exits from start-up, every watchpoint
    fault is answered with the access its register was armed with exactly when every call keeps
    the types. -/
theorem watch_replies_along_iff (calls : DebugCallsSucceed) (output : Nat → Byte) (kernel : Kernel)
    (run : List WatchCall)
    (allowed : Guarded watchCallStep WatchCallAllowed run (.boot output kernel)) :
    Along watchCallStep RepliesNamed run (.boot output kernel) ↔
    Guarded watchCallStep KeepsTypes run (.boot output kernel) := by
  have reachable : Reachable (.boot output kernel) := .boot output kernel
  refine along_iff_guarded WatchOk WatchCallAllowed (fun s call ok _ => event_watchOk ok call.event)
    (fun s call ok allowed named => watchCall_named_iff calls ok allowed named) run _
    ⟨reachable_ok reachable, reachable_idsApart reachable⟩ ?_ allowed
  intro t live
  cases live

/- A watchpoint set, and one that a TCB brings along. -/

section
omit [Machine]

def watchCalls : List WatchCall :=
  [.registerInferior 1 7, .registerThread 1 1 5, .packet (str "Z2,1000,4" ++ [0])]

theorem solo_watch_steps : letI := obligingBoard
    watchCallStep (watchCallStep blankState (.registerInferior 1 7)) (.registerThread 1 1 5) =
      soloState := by
  let _ := obligingBoard
  unfold watchCallStep soloState
  simp only [WatchCall.event, Event.run, after_ignore]

theorem watchPacket_write (c : Byte) (kind : c = chr 'Z' ∨ c = chr 'z') :
    WatchPacket (c :: (str "2,1000,4" ++ [0])) := by
  refine ⟨⟨c, chr '2', str ",1000,4" ++ [0], rfl, kind, Or.inl rfl⟩, fun addr size parse => ?_⟩
  have read : parseBreakpointFormat (c :: (str "2,1000,4" ++ [0])) = .ok (some (0x1000, 4)) := by
    rcases kind with rfl | rfl <;> decide +kernel
  cases read.symm.trans parse
  decide

theorem watchPacket_read (c : Byte) (kind : c = chr 'Z' ∨ c = chr 'z') :
    WatchPacket (c :: (str "3,1000,4" ++ [0])) := by
  refine ⟨⟨c, chr '3', str ",1000,4" ++ [0], rfl, kind, Or.inr (Or.inl rfl)⟩,
    fun addr size parse => ?_⟩
  have read : parseBreakpointFormat (c :: (str "3,1000,4" ++ [0])) = .ok (some (0x1000, 4)) := by
    rcases kind with rfl | rfl <;> decide +kernel
  cases read.symm.trans parse
  decide

theorem registration_allowed {s : @State obligingBoard} {call : WatchCall}
    (other : ∀ input, call ≠ .packet input) : letI := obligingBoard
    (value call.event.run s).isSome = true → WatchCallAllowed s call := by
  let _ := obligingBoard
  exact fun returns => ⟨returns, fun input here => absurd here (other input)⟩

theorem watchCalls_allowed : letI := obligingBoard
    Guarded watchCallStep WatchCallAllowed watchCalls blankState := by
  let _ := obligingBoard
  refine ⟨registration_allowed nofun rfl, registration_allowed nofun rfl, ⟨?_, ?_⟩, trivial⟩
  · rw [solo_watch_steps]
    decide +kernel
  · rintro _ ⟨⟩
    exact watchPacket_write (chr 'Z') (Or.inl rfl)

theorem solo_replies_named : letI := obligingBoard
    Along watchCallStep RepliesNamed watchCalls blankState := by
  let _ := obligingBoard
  have debugCalls : DebugCallsSucceed := ⟨fun _ _ _ _ => rfl, fun _ _ _ => rfl⟩
  refine (@watch_replies_along_iff obligingBoard debugCalls (fun _ => 0) blankKernel watchCalls
    watchCalls_allowed).mpr
    ⟨trivial, fun pd _ bpNum n _ => ?_, ?_, trivial⟩
  · have free : ∀ pd n, ((watchCallStep blankState (.registerInferior 1 7)).inferiors pd).wants
        (.inr n) = none := by
      decide +kernel
    rw [show ((watchCallStep (.boot (fun _ => 0) blankKernel) (.registerInferior 1 7)).inferiors
      pd).wants (.inr n) = none from free pd n]
    intro setting held
    cases held
  · change KeepsTypes (watchCallStep (watchCallStep blankState (.registerInferior 1 7))
      (.registerThread 1 1 5)) _
    rw [solo_watch_steps]
    intro d rest _ addr size _ pd known wp _ n _ bpNum _ t live other
    rw [solo_live t live] at other
    cases known
    exact absurd rfl other

/-- The thread exits with its register armed, its entry is freed and used for another access, and
    its TCB is registered again. -/
def broughtCalls : List WatchCall :=
  [.registerInferior 1 7, .registerThread 1 1 5, .packet (str "Z2,1000,4" ++ [0]), .threadExit 1 1,
    .packet (str "z2,1000,4" ++ [0]), .packet (str "Z3,1000,4" ++ [0]),
      .packet (str "z3,1000,4" ++ [0]),
    .registerThread 1 2 5]

def broughtState : @State obligingBoard :=
  let _ := obligingBoard
  broughtCalls.foldl watchCallStep blankState

theorem broughtCalls_allowed : letI := obligingBoard
    Guarded watchCallStep WatchCallAllowed broughtCalls blankState := by
  let _ := obligingBoard
  refine ⟨registration_allowed nofun rfl, registration_allowed nofun rfl, ⟨?_, ?_⟩,
    registration_allowed nofun ?_, ⟨?_, ?_⟩,
    ⟨?_, ?_⟩, ⟨?_, ?_⟩, registration_allowed nofun ?_, trivial⟩
  · decide +kernel
  · rintro _ ⟨⟩
    exact watchPacket_write (chr 'Z') (Or.inl rfl)
  · decide +kernel
  · decide +kernel
  · rintro _ ⟨⟩
    exact watchPacket_write (chr 'z') (Or.inr rfl)
  · decide +kernel
  · rintro _ ⟨⟩
    exact watchPacket_read (chr 'Z') (Or.inl rfl)
  · decide +kernel
  · rintro _ ⟨⟩
    exact watchPacket_read (chr 'z') (Or.inr rfl)
  · decide +kernel

theorem brought_register : letI := obligingBoard
    broughtState.live ⟨0, 1⟩ = true ∧ (broughtState.thread ⟨0, 1⟩).tcb = 5 ∧
      ((broughtState.kernel.tcb 5).debug 6).map DebugSetting.access = some .breakOnWrite ∧
      ((broughtState.inferiors 0).hardwareWatchpoints (0 : Fin 4)).type = .breakOnRead := by
  let _ := obligingBoard
  decide +kernel

/-- The register armed for writes is reported as one for reads. -/
theorem brought_register_misnamed : letI := obligingBoard
    ¬ ∀ (output : Nat → Byte) (kernel : Kernel) (run : List WatchCall),
      Guarded watchCallStep WatchCallAllowed run (.boot output kernel) →
      Along watchCallStep RepliesNamed run (.boot output kernel) := by
  let _ := obligingBoard
  intro all
  have reachable : Reachable blankState := .boot (fun _ => 0) blankKernel
  have start : WatchOk blankState := ⟨reachable_ok reachable, reachable_idsApart reachable⟩
  have keeps (s : State) (call : WatchCall) (ok : WatchOk s) (_ : WatchCallAllowed s call) :
      WatchOk (watchCallStep s call) :=
    event_watchOk ok call.event
  have invariant := invariant_along keeps broughtCalls blankState start broughtCalls_allowed
  have ok : WatchOk broughtState :=
    (along_prefixes WatchOk broughtCalls blankState).mp invariant broughtCalls nofun
    (List.prefix_refl _)
  have named : RepliesNamed broughtState := (along_prefixes RepliesNamed broughtCalls blankState).mp
    (all (fun _ => 0) blankKernel broughtCalls broughtCalls_allowed) broughtCalls nofun
      (List.prefix_refl _)
  obtain ⟨live, tcb, armed, type⟩ := brought_register
  generalize broughtState = s at named ok live tcb armed type
  obtain ⟨setting, held, access⟩ := Option.map_eq_some_iff.mp armed
  have types := (repliesNamed_iff ok.registry ok.apart).mp named
  rw [← tcb] at held
  have same := types ⟨0, 1⟩ live 6 (0 : Fin 4) rfl setting held
  rw [access] at same
  exact absurd (type.symm.trans same) (by decide)

end

end Libgdb
