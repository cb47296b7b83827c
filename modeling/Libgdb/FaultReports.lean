import Libgdb.Coroutines
import Libgdb.RegistryInvariant

/-!
The report of a fault. From the fault to the acknowledgement every byte goes to `t_fault`, which
sends the report again for each that is none; the event loop stands still in the meantime, and
goes on at the byte it stood at.
-/
namespace Libgdb
open ByteMemory CheckedPrograms
open Simulations Component

/- A pass of put_packet. -/

def Terminated (o : Nat → Byte) : Prop := ∃ k < bufsize, o k = 0

theorem bufferText_zero (o : Nat → Byte) (n : Nat) :
    bufferText o 0 (n + 1) = o 0 :: bufferText (fun i => o (i + 1)) 0 n := by
  simp [bufferText, List.range_succ_eq_map]

theorem bufferText_cstring (o : Nat → Byte) (n : Nat) (ends : ∃ k < n, o k = 0) :
    ∃ tail, bufferText o 0 n = cstring o n ++ 0 :: tail := by
  induction n generalizing o with
  | zero =>
    obtain ⟨k, lt, _⟩ := ends
    omega
  | succ n ih =>
    rw [bufferText_zero, cstring]
    by_cases zero : o 0 = 0
    · rw [if_pos zero, zero]
      exact ⟨_, rfl⟩
    · rw [if_neg zero]
      obtain ⟨k, lt, nul⟩ := ends
      cases k with
      | zero => exact absurd nul zero
      | succ k =>
        obtain ⟨tail, rest⟩ := ih (fun i => o (i + 1)) ⟨k, by omega, nul⟩
        rw [rest]
        exact ⟨tail, rfl⟩

theorem sumText_stops {reply : List Byte} (text : 0 ∉ reply) (tail : List Byte) :
    sumText (reply ++ 0 :: tail) = .ok (reply, textSum reply, 0 :: tail) := by
  induction reply with
  | nil => rfl
  | cons c reply ih =>
    rw [List.mem_cons, not_or] at text
    rw [List.cons_append, sumText, if_neg (Ne.symm text.1), ih text.2, textSum_cons]
    rfl

theorem sumText_overreads {bytes : List Byte} (text : 0 ∉ bytes) :
    sumText bytes = .error .inputOverread := by
  induction bytes with
  | nil => rfl
  | cons c bytes ih =>
    rw [List.mem_cons, not_or] at text
    rw [sumText, if_neg (Ne.symm text.1), ih text.2]
    rfl

section
variable [Machine]

theorem putAttempt_run {s : State} (ends : Terminated s.output) :
    putAttempt.run s = .ok (frameOf s.reply) s := by
  obtain ⟨tail, split⟩ := bufferText_cstring s.output bufsize ends
  have attempt : serialAttempt (pointerText s.output 0) = .ok (frameOf s.reply) := by
    unfold serialAttempt pointerText
    rw [Nat.sub_zero, split, sumText_stops (cstring_ne_zero _ _)]
    rfl
  unfold putAttempt
  rw [run_bind_ok (EStateM.run_get s)]
  exact liftParse_run attempt s

theorem putAttempt_ok {s t : State} {frame : List Byte} (returns : putAttempt.run s = .ok frame t) :
    Terminated s.output ∧ frame = frameOf s.reply ∧ t = s := by
  have ends : Terminated s.output := by
    by_contra endless
    have text : 0 ∉ pointerText s.output 0 := by
      intro mem
      obtain ⟨k, range, nul⟩ := List.mem_map.mp mem
      rw [Nat.zero_add] at nul
      exact endless ⟨k, List.mem_range.mp range, nul⟩
    have stops : putAttempt.run s = .error .inputOverread s := by
      unfold putAttempt serialAttempt
      rw [run_bind_ok (EStateM.run_get s), sumText_overreads text]
      rfl
    rw [stops] at returns
    cases returns
  rw [putAttempt_run ends] at returns
  cases returns
  exact ⟨ends, rfl, rfl⟩

/- What a fault does to the session. -/

theorem faultReport_ok {s u : State} {ch : Word} {message : FaultMessage} {frame : List Byte}
    (returns : (faultReport ch message).run s = .ok frame u) :
    Terminated u.output ∧ frame = frameOf u.reply := by
  unfold faultReport at returns
  obtain ⟨_, _, _, rest⟩ := ok_bind_run returns
  obtain ⟨_, t, _, last⟩ := ok_bind_run rest
  obtain ⟨ends, text, rfl⟩ := putAttempt_ok last
  exact ⟨ends, text⟩

theorem fault_session {s s' : Session} {ch : Word} {message : FaultMessage}
    (returns : s.fault ch message = some s') :
    Terminated s'.stub.output ∧
      s' =
        { s with stub := s'.stub, reporting := true, sent := s.sent ++ frameOf s'.stub.reply } := by
  obtain ⟨frame, t, run, rfl⟩ := session_run returns
  obtain ⟨ends, rfl⟩ := faultReport_ok run
  exact ⟨ends, rfl⟩

theorem lay_terminated (s : State) {text : List Byte} (fits : text.length < bufsize) :
    Terminated (s.lay 0 text).output :=
  ⟨text.length, fits, layText_ends _ _⟩

theorem fault_found {s : Session} {ch : Word} {t : ThreadRef}
    (inferior : lookupInferiorFromId s.stub ch = some t.pd)
    (thread : lookupThreadFromId (s.stub.inferiors t.pd) 0 = some t.slot)
    (owner : (s.stub.thread t).inferior = some t.pd) :
    ∃ u, s.fault ch .other =
    some { s with stub := u, reporting := true, sent := s.sent ++ frameOf u.reply } ∧
      u.reply = stopText "T06thread:" s.stub t t.pd (str ";") ∧ u.inferiors = s.stub.inferiors := by
  obtain ⟨k, suspended⟩ := suspendSystem_kernel s.stub
  let text := stopText "T06thread:" s.stub t t.pd (str ";")
  let u : State := { (s.stub.withKernel k).lay 0 text with targetThread := some t }
  have fits : text.length < bufsize := by
    have ten : (str "T06thread:").length = 10 := by decide
    have one : (str ";").length = 1 := by decide
    simp [text, stopText, ten, one, bufsize]
  have nonzero : ∀ c ∈ text, c ≠ 0 :=
    append_ne_zero (append_ne_zero (by decide) (threadIdText_ne_zero _ _ _)) (by decide)
  have inferior' : lookupInferiorFromId (s.stub.withKernel k) ch = some t.pd := inferior
  have handled : (gdbHandleFault ch 0 .other).run (s.stub.withKernel k) =
      .ok (.noError, some false) u := by
    unfold gdbHandleFault
    rw [run_bind_ok (EStateM.run_get _), inferior']
    dsimp only
    rw [withKernel_inferiors, thread]
    dsimp only
    rw [run_bind_ok (handleFault_run (s := s.stub.withKernel k) owner)]
    rfl
  have reply : u.reply = text := lay_reply (s.stub.withKernel k) text nonzero fits
  have report : (faultReport ch .other).run s.stub = .ok (frameOf u.reply) u := by
    unfold faultReport
    rw [run_bind_ok suspended, run_bind_ok handled]
    exact putAttempt_run (lay_terminated (s.stub.withKernel k) fits)
  refine ⟨u, ?_, reply, rfl⟩
  unfold Session.fault Session.run
  rw [report]

omit [Machine] in
def debugeeState : @State obligingBoard :=
  let _ := obligingBoard
  after (gdbRegisterThread 1 0 5) (after (gdbRegisterInferior 1 7) blankState)

omit [Machine] in
theorem debugee_found : letI := obligingBoard
    lookupInferiorFromId debugeeState 1 = some 0 ∧
    lookupThreadFromId (debugeeState.inferiors 0) 0 = some 0 ∧
      (debugeeState.thread ⟨0, 0⟩).inferior = some 0 := by
  let _ := obligingBoard
  decide +kernel

omit [Machine] in
theorem debugee_fault : letI := obligingBoard
    ∀ s : Session, s.stub.inferiors = debugeeState.inferiors →
      ∃ s', s.fault 1 .other = some s' ∧ s'.stub.inferiors = debugeeState.inferiors := by
  let _ := obligingBoard
  intro s same
  obtain ⟨inferior, thread, owner⟩ := debugee_found
  have inferior' : lookupInferiorFromId s.stub 1 = some 0 := by
    unfold lookupInferiorFromId at inferior ⊢
    rw [same]
    exact inferior
  obtain ⟨u, returns, _, kept⟩ :=
    fault_found (s := s) (t := ⟨0, 0⟩) inferior' (by rw [same]; exact thread)
    (by unfold State.thread; rw [same]; exact owner)
  exact ⟨_, returns, kept.trans same⟩

theorem take_unacknowledged {s : Session} (reporting : s.reporting = true)
    (ends : Terminated s.stub.output) {c : Byte} (other : c ≠ chr '+') : s.take
    (.byte c) = some { s with sent := s.sent ++ frameOf s.stub.reply } := by
  rw [Session.take, if_pos reporting, if_neg other]
  unfold Session.faultByte Session.run
  rw [putAttempt_run ends]

theorem take_acknowledged {s : Session} (reporting : s.reporting = true) :
    s.take (.byte (chr '+')) = some { s with reporting := false } := by
  rw [Session.take, if_pos reporting, if_pos rfl]

theorem takes_append (s : Session) (first rest : List Input) :
    s.takes (first ++ rest) = (s.takes first).bind fun t => t.takes rest := List.foldlM_append

theorem takes_cons (s : Session) (i : Input) (rest : List Input) :
    s.takes (i :: rest) = (s.take i).bind fun t => t.takes rest := List.foldlM_cons

def copies (n : Nat) (frame : List Byte) : List Byte := (List.replicate n frame).flatten

theorem takes_nacks {s : Session} (reporting : s.reporting = true) (ends : Terminated s.stub.output)
    {nacks : List Byte} (unacknowledged : chr '+' ∉ nacks) :
    s.takes (nacks.map .byte) =
    some { s with sent := s.sent ++ copies nacks.length (frameOf s.stub.reply) } := by
  induction nacks generalizing s with
  | nil => simp [Session.takes, copies]
  | cons c nacks ih =>
    rw [List.mem_cons, not_or] at unacknowledged
    rw [List.map_cons, takes_cons, take_unacknowledged reporting ends (Ne.symm unacknowledged.1)]
    refine (ih (s := { s with sent := s.sent ++ frameOf s.stub.reply }) reporting ends
      unacknowledged.2).trans ?_
    simp [copies, List.replicate_succ]

theorem takes_pending {s : Session} (reporting : s.reporting = true)
    (ends : Terminated s.stub.output) {nacks : List Byte} (unacknowledged : chr '+' ∉ nacks) :
    s.takes ((nacks ++ [chr '+']).map .byte) = some { s with
      reporting := false
      sent := s.sent ++ copies nacks.length (frameOf s.stub.reply) } := by
  have last := take_acknowledged
      (s := { s with sent := s.sent ++ copies nacks.length (frameOf s.stub.reply) }) reporting
  rw [List.map_append, takes_append, takes_nacks reporting ends unacknowledged, Option.bind_some,
    List.map_singleton,
    takes_cons, last]
  rfl

def exchange (ch : Word) (message : FaultMessage) (nacks : List Byte) : List Input :=
  .fault ch message :: (nacks ++ [chr '+']).map .byte

theorem takes_exchange {s s' : Session} {ch : Word} {message : FaultMessage}
    (returns : s.fault ch message = some s')
    {nacks : List Byte} (unacknowledged : chr '+' ∉ nacks) :
    s.takes (exchange ch message nacks) = some { s with
      stub := s'.stub
      reporting := false
      sent := s.sent ++ copies (nacks.length + 1) (frameOf s'.stub.reply) } := by
  obtain ⟨ends, fields⟩ := fault_session returns
  have start : s.take (.fault ch message) = some s' := returns
  rw [exchange, takes_cons, start, Option.bind_some,
    takes_pending (fault_reporting returns) ends unacknowledged, fields]
  simp [copies, List.replicate_succ]

theorem takes_exchange_none {s : Session} {ch : Word} {message : FaultMessage}
    (stops : s.fault ch message = none)
    (nacks : List Byte) : s.takes (exchange ch message nacks) = none := by
  have start : s.take (.fault ch message) = none := stops
  rw [exchange, takes_cons, start]
  rfl

/- Bytes of a packet on both sides of a report. -/

/-- The bytes neither complete a packet nor are answered. -/
def Silent (r : Receiver) (bytes : List Byte) : Prop :=
  returnedOn serialGetPacketByte r bytes = [] ∧ sentOn serialGetPacketByte r bytes = []

theorem takes_silent {s : Session} {point : GetPoint} (main : s.main = .getPacket point)
    (quiet : s.reporting = false) {bytes : List Byte} (silent : Silent ⟨point, s.input⟩ bytes) :
    s.takes (bytes.map .byte) = some { s with
      main := .getPacket (afterStream serialGetPacketByte ⟨point, s.input⟩ bytes).point
      input := (afterStream serialGetPacketByte ⟨point, s.input⟩ bytes).buf } := by
  induction bytes generalizing s point with
  | nil =>
    obtain ⟨stub, _, input, reporting, sent⟩ := s
    cases main
    rfl
  | cons c bytes ih =>
    obtain ⟨returned, sent⟩ := silent
    rw [returnedOn, List.append_eq_nil_iff] at returned
    rw [sentOn, List.append_eq_nil_iff] at sent
    have unreturned : (serialGetPacketByte ⟨point, s.input⟩ c).returned = none := by
      cases text : (serialGetPacketByte ⟨point, s.input⟩ c).returned with
      | none => rfl
      | some text' =>
        rw [text] at returned
        cases returned.1
    have first : s.take (.byte c) = some { s with
        main := .getPacket (serialGetPacketByte ⟨point, s.input⟩ c).next.point
        input := (serialGetPacketByte ⟨point, s.input⟩ c).next.buf } := by
      rw [Session.take, if_neg (by rw [quiet]; decide)]
      unfold Session.mainByte Session.run
      rw [main, mainByte, unreturned, sent.1]
      simp
    rw [List.map_cons, takes_cons, first]
    exact ih rfl quiet ⟨returned.2, sent.2⟩

/-- Where the event loop is inside a packet, a fault and its report before some of the packet's
    bytes come to the same as behind them: what is held of the packet is not disturbed. -/
theorem report_leaves_packet {s : Session} {point : GetPoint} (main : s.main = .getPacket point)
    (quiet : s.reporting = false) {bytes : List Byte} (silent : Silent ⟨point, s.input⟩ bytes)
    (ch : Word) (message : FaultMessage) {nacks : List Byte} (unacknowledged : chr '+' ∉ nacks) :
    s.takes (bytes.map .byte ++ exchange ch message nacks) = s.takes
    (exchange ch message nacks ++ bytes.map .byte) := by
  rw [takes_append, takes_append, takes_silent main quiet silent, Option.bind_some]
  cases returns : s.fault ch message with
  | none =>
    have stops : Session.fault { s with
        main := .getPacket (afterStream serialGetPacketByte ⟨point, s.input⟩ bytes).point
        input := (afterStream serialGetPacketByte ⟨point, s.input⟩ bytes).buf } ch message =
          none := by
      unfold Session.fault Session.run at returns ⊢
      dsimp only
      cases run : (faultReport ch message).run s.stub with
      | ok frame t =>
        rw [run] at returns
        cases returns
      | error e t => rfl
    rw [takes_exchange_none returns, takes_exchange_none stops]
    rfl
  | some s' =>
    have later : Session.fault { s with
        main := .getPacket (afterStream serialGetPacketByte ⟨point, s.input⟩ bytes).point
        input := (afterStream serialGetPacketByte ⟨point, s.input⟩ bytes).buf } ch message =
          some { s' with
        main := .getPacket (afterStream serialGetPacketByte ⟨point, s.input⟩ bytes).point
        input := (afterStream serialGetPacketByte ⟨point, s.input⟩ bytes).buf } := by
      obtain ⟨frame, t, run, rfl⟩ := session_run returns
      unfold Session.fault Session.run
      dsimp only
      rw [run]
    rw [takes_exchange returns unacknowledged, takes_exchange later unacknowledged,
      Option.bind_some]
    exact (takes_silent (s := { s with stub := _, reporting := false, sent := _ }) main
      rfl silent).symm

omit [Machine] in
theorem dollar_before_report : letI := obligingBoard
    (Session.start debugeeState).takes ([.byte (chr '$')] ++ exchange 1 .other [chr '-']) =
      (Session.start debugeeState).takes (exchange 1 .other [chr '-'] ++ [.byte (chr '$')]) := by
  let _ := obligingBoard
  have silent : Silent ⟨.start, (Session.start debugeeState).input⟩ [chr '$'] := ⟨rfl, rfl⟩
  exact report_leaves_packet (s := Session.start debugeeState) rfl rfl silent 1 .other (by decide)

/- Faults in a row. -/

structure Burst where
  ch : Word
  message : FaultMessage
  nacks : List Byte

def Burst.inputs (b : Burst) : List Input := .fault b.ch b.message :: b.nacks.map .byte

def Burst.stub (s : State) (b : Burst) : State := after (faultReport b.ch b.message) s

def reportFrames : State → List Burst → List Byte
  | _, [] => []
  | s, b :: bursts => copies (b.nacks.length + 1) (frameOf (b.stub s).reply) ++
    reportFrames (b.stub s) bursts

theorem takes_burst {s s' : Session} {b : Burst} (returns : s.fault b.ch b.message = some s')
    (unacknowledged : chr '+' ∉ b.nacks) :
    b.stub s.stub = s'.stub ∧ s.takes b.inputs = some { s with
      stub := s'.stub
      reporting := true
      sent := s.sent ++ copies (b.nacks.length + 1) (frameOf s'.stub.reply) } := by
  obtain ⟨ends, fields⟩ := fault_session returns
  obtain ⟨frame, v, run, same⟩ := session_run returns
  have start : s.take (.fault b.ch b.message) = some s' := returns
  refine ⟨by rw [Burst.stub, after_ok run, ← same], ?_⟩
  rw [Burst.inputs, takes_cons, start, Option.bind_some,
    takes_nacks (fault_reporting returns) ends unacknowledged, fields]
  simp [copies, List.replicate_succ]

/-- Faults that come before the report of an earlier one is acknowledged: each report takes the
    place of the one before, and the acknowledgement that comes at last is taken for all of them.
    -/
theorem later_report_replaces {s u : Session} {bursts : List Burst} (some : bursts ≠ [])
    (unacknowledged : ∀ b ∈ bursts, chr '+' ∉ b.nacks)
    (returns : s.takes (bursts.flatMap Burst.inputs ++ [.byte (chr '+')]) = .some u) : u = { s with
      stub := bursts.foldl Burst.stub s.stub
      reporting := false
      sent := s.sent ++ reportFrames s.stub bursts } := by
  induction bursts generalizing s with
  | nil => exact absurd rfl some
  | cons b bursts ih =>
    have here := unacknowledged b List.mem_cons_self
    have later := fun b' mem => unacknowledged b' (List.mem_cons_of_mem b mem)
    rw [List.flatMap_cons, List.append_assoc, takes_append] at returns
    obtain ⟨t, first, rest⟩ := Option.bind_eq_some_iff.mp returns
    obtain ⟨s', fault, _⟩ := Option.bind_eq_some_iff.mp ((takes_cons _ _ _).symm.trans first)
    obtain ⟨stub, taken⟩ := takes_burst fault here
    cases first.symm.trans taken
    rw [List.foldl_cons, reportFrames, stub]
    by_cases last : bursts = []
    · subst last
      rw [List.flatMap_nil, List.nil_append, takes_cons, take_acknowledged rfl] at rest
      rw [← Option.some.inj rest]
      simp [reportFrames]
    · rw [ih last later rest, List.append_assoc]

omit [Machine] in
theorem debugee_burst : letI := obligingBoard
    ∀ s : Session, s.stub.inferiors = debugeeState.inferiors → ∀ nacks, chr '+' ∉ nacks →
      ∃ t, s.takes (Burst.inputs ⟨1, .other, nacks⟩) = some t ∧
      t.stub.inferiors = debugeeState.inferiors ∧
        t.reporting = true := by
  let _ := obligingBoard
  intro s same nacks unacknowledged
  obtain ⟨s', returns, same'⟩ := debugee_fault s same
  obtain ⟨_, taken⟩ := takes_burst (b := ⟨1, .other, nacks⟩) returns unacknowledged
  exact ⟨_, taken, same', rfl⟩

omit [Machine] in
def twoBursts : List Burst := [⟨1, .other, [chr '-']⟩, ⟨1, .other, []⟩]

omit [Machine] in
theorem second_report_replaces : letI := obligingBoard
    ∃ u, (Session.start debugeeState).takes (twoBursts.flatMap Burst.inputs ++ [.byte (chr '+')]) =
      some u ∧
      u = { Session.start debugeeState with
        stub := twoBursts.foldl Burst.stub (Session.start debugeeState).stub
        reporting := false
        sent := (Session.start debugeeState).sent ++ reportFrames (Session.start debugeeState).stub
          twoBursts } := by
  let _ := obligingBoard
  obtain ⟨t, first, same, _⟩ := debugee_burst (Session.start debugeeState) rfl [chr '-'] (by decide)
  obtain ⟨u, second, _, reporting⟩ := debugee_burst t same [] (by decide)
  have taken : (Session.start debugeeState).takes (twoBursts.flatMap Burst.inputs ++
      [.byte (chr '+')]) =
      some { u with reporting := false } := by
    rw [takes_append, twoBursts, List.flatMap_cons, takes_append, first, Option.bind_some,
      List.flatMap_singleton,
      second, Option.bind_some, takes_cons, take_acknowledged reporting]
    rfl
  exact ⟨_, taken, later_report_replaces (List.cons_ne_nil _ _) (by decide) taken⟩

/- A reply that awaits its acknowledgement. -/

theorem take_reply_nack {s : Session} {resume : Bool} (main : s.main = .putPacket resume)
    (quiet : s.reporting = false)
    (ends : Terminated s.stub.output) {c : Byte} (other : c ≠ chr '+') :
    s.take (.byte c) = some { s with sent := s.sent ++ frameOf s.stub.reply } := by
  rw [Session.take, if_neg (by rw [quiet]; decide)]
  unfold Session.mainByte Session.run
  rw [main, mainByte, if_neg other, run_bind_ok (putAttempt_run ends)]
  obtain ⟨stub, _, input, reporting, sent⟩ := s
  cases main
  rfl

theorem takes_reply_nacks {s : Session} {resume : Bool} (main : s.main = .putPacket resume)
    (quiet : s.reporting = false)
    (ends : Terminated s.stub.output) {nacks : List Byte} (unacknowledged : chr '+' ∉ nacks) :
    s.takes (nacks.map .byte) =
    some { s with sent := s.sent ++ copies nacks.length (frameOf s.stub.reply) } := by
  induction nacks generalizing s with
  | nil => simp [Session.takes, copies]
  | cons c nacks ih =>
    rw [List.mem_cons, not_or] at unacknowledged
    rw [List.map_cons, takes_cons, take_reply_nack main quiet ends (Ne.symm unacknowledged.1)]
    refine (ih (s := { s with sent := s.sent ++ frameOf s.stub.reply }) main quiet ends
      unacknowledged.2).trans ?_
    simp [copies, List.replicate_succ]

def acknowledged (resume : Bool) (s : State) : State := if resume then after resumeSystem s else s

theorem take_reply_acknowledged {s : Session} {resume : Bool} (main : s.main = .putPacket resume)
    (quiet : s.reporting = false) : s.take (.byte (chr '+')) = some { s with
      stub := acknowledged resume s.stub
      main := .getPacket .start } := by
  rw [Session.take, if_neg (by rw [quiet]; decide)]
  unfold Session.mainByte Session.run
  rw [main, mainByte, if_pos rfl]
  cases resume with
  | false => simp [acknowledged]
  | true =>
    obtain ⟨k, resumed, _⟩ := resumeSystem_calls s.stub
    rw [if_pos rfl, run_bind_ok resumed, acknowledged, if_pos rfl, after_ok resumed]
    simp

theorem takes_reply {s : Session} (resume : Bool) (main : s.main = .putPacket resume)
    (quiet : s.reporting = false)
    (ends : Terminated s.stub.output) {nacks : List Byte} (unacknowledged : chr '+' ∉ nacks) :
    s.takes ((nacks ++ [chr '+']).map .byte) = some { s with
      stub := acknowledged resume s.stub
      main := .getPacket .start
      sent := s.sent ++ copies nacks.length (frameOf s.stub.reply) } := by
  have last := take_reply_acknowledged
      (s := { s with sent := s.sent ++ copies nacks.length (frameOf s.stub.reply) })
    main quiet
  rw [List.map_append, takes_append, takes_reply_nacks main quiet ends unacknowledged,
    Option.bind_some,
    List.map_singleton, takes_cons, last]
  rfl

/-- A report that comes between a reply and its acknowledgement takes the reply's place too: the
    frames sent until the reply is acknowledged carry the report. -/
theorem report_replaces_reply {s s' : Session} {resume : Bool} (main : s.main = .putPacket resume)
    {ch : Word} {message : FaultMessage} (returns : s.fault ch message = some s')
    {nacks more : List Byte} (unacknowledged : chr '+' ∉ nacks) (unacknowledged' : chr '+' ∉ more) :
    s.takes (exchange ch message nacks ++ (more ++ [chr '+']).map .byte) = some { s with
      stub := acknowledged resume s'.stub
      main := .getPacket .start
      reporting := false
      sent := s.sent ++ copies (nacks.length + 1 + more.length) (frameOf s'.stub.reply) } := by
  let t : Session := { s with
    stub := s'.stub
    reporting := false
    sent := s.sent ++ copies (nacks.length + 1) (frameOf s'.stub.reply) }
  have resent := takes_reply (s := t) resume main rfl (fault_session returns).1 unacknowledged'
  rw [takes_append, takes_exchange returns unacknowledged, Option.bind_some, resent]
  simp [t, copies, List.replicate_add]

omit [Machine] in
theorem reply_replaced : letI := obligingBoard
    ∃ s', ({ Session.start debugeeState with main := .putPacket false } : Session).takes
        (exchange 1 .other [] ++ ([chr '-'] ++ [chr '+']).map .byte) =
          some { Session.start debugeeState with
      stub := acknowledged false s'
      main := .getPacket .start
      reporting := false
      sent := copies 2 (frameOf s'.reply) } := by
  let _ := obligingBoard
  obtain ⟨s', returns, _⟩ :=
    debugee_fault { Session.start debugeeState with main := .putPacket false } rfl
  exact ⟨s'.stub, report_replaces_reply rfl returns (by decide) (by decide)⟩

/- The component while a report is pending. -/

def Component.Move.Unacknowledging (a : Component.Move) : Prop := a ≠ .read (chr '+')

/-- However a run goes on from an unacknowledged report, until the acknowledgement is read the
    event loop reads nothing and a report stays pending. It is the same report unless another
    fault comes. -/
theorem report_holds_event_loop {stub : State} {moves later : List Component.Move}
    {w w' : Component}
    (run : Run Step (.start stub) moves w) (reporting : w.session.reporting = true)
    (run' : Run Step w later w') (unacknowledged : ∀ a ∈ later, a.Unacknowledging) :
    w'.session.main = w.session.main ∧ w'.session.input = w.session.input ∧
    w'.session.reporting = true ∧
      ((∀ ch message, .fault ch message ∉ later) → w'.session.stub.output =
        w.session.stub.output) := by
  have hand := (run_attended run).1
  clear run
  induction run' with
  | stop => exact ⟨rfl, rfl, reporting, fun _ => rfl⟩
  | next first _ ih =>
    have next := handOver_step first hand
    have rest := fun pending =>
        ih pending (fun a mem => unacknowledged a (List.mem_cons_of_mem _ mem)) next
    cases first with
    | fault idle returns =>
      obtain ⟨_, fields⟩ := fault_session returns
      have rest := rest (fault_reporting returns)
      dsimp only at rest
      rw [fields] at rest
      exact ⟨rest.1, rest.2.1, rest.2.2.1, fun none => absurd List.mem_cons_self (none _ _)⟩
    | mainReads active rx returns =>
      rw [(hand.main active).1] at reporting
      cases reporting
    | faultReads active rx other returns =>
      obtain ⟨frame, t, run, rfl⟩ := session_run returns
      obtain ⟨_, _, rfl⟩ := putAttempt_ok run
      have rest := rest reporting
      exact ⟨rest.1, rest.2.1, rest.2.2.1, fun none => rest.2.2.2 fun ch message mem =>
        none ch message (List.mem_cons_of_mem _ mem)⟩
    | faultAcknowledged active rx => exact absurd rfl (unacknowledged _ List.mem_cons_self)
    | _ =>
      have rest := rest reporting
      exact ⟨rest.1, rest.2.1, rest.2.2.1, fun none => rest.2.2.2 fun ch message mem =>
        none ch message (List.mem_cons_of_mem _ mem)⟩

omit [Machine] in
/-- A fault while the event loop waits, and a start character before its report is acknowledged. -/
theorem dollar_not_read : letI := obligingBoard
    ∃ w w', Run Step (.start debugeeState) [.wait, .fault 1 .other] w ∧
      Run Step w [.arrive (chr '$'), .read (chr '$'), .wait] w' ∧
      w'.session.main = w.session.main ∧ w'.session.input = w.session.input ∧
      w'.session.reporting = true ∧
      w'.session.stub.output = w.session.stub.output := by
  let _ := obligingBoard
  obtain ⟨s', returns, _⟩ := debugee_fault (Session.start debugeeState) rfl
  have ends := (fault_session returns).1
  have again : s'.faultByte = some { s' with sent := s'.sent ++ frameOf s'.stub.reply } := by
    unfold Session.faultByte Session.run
    rw [putAttempt_run ends]
  have run : Run Step (.start debugeeState) [.wait, .fault 1 .other] _ :=
    .next (.mainWaits rfl rfl) (.next (.fault ⟨rfl, rfl⟩ returns) (.stop _))
  have later := Run.next (Step.arrive { Component.start debugeeState with
      state := .waitingForInputEventLoop
      active := .fault
      session := s' } (chr '$'))
    (.next (.faultReads rfl rfl (by decide) again) (.next (.faultWaits rfl rfl) (.stop _)))
  have unacknowledged : ∀ a ∈ [Component.Move.arrive (chr '$'), .read (chr '$'), .wait],
      a.Unacknowledging := by
    simp [Component.Move.Unacknowledging]
    decide
  obtain ⟨main, input, pending, same⟩ :=
    report_holds_event_loop run (fault_reporting returns) later unacknowledged
  exact ⟨_, _, run, later, main, input, pending, same (by simp)⟩

/- Entry points return. -/

def Component.Move.Inner : Component.Move → Prop
  | .read _ => True
  | .wait => True
  | .goOn => True
  | _ => False

/-- The switches an entry point still has before it, besides one step for each byte. -/
def Component.switches (w : Component) : Nat :=
  match w.active, w.behindFirst with
  | .event, false => 0
  | .event, true => 2
  | .main, _ => 1
  | .fault, false => 1
  | .fault, true => 3

theorem inner_shrinks {w w' : Component} {a : Component.Move} (step : Step w a w') (inner : a.Inner)
    (hand : HandOver w) :
    w'.rx.length + w'.switches < w.rx.length + w.switches := by
  cases step with
  | mainReads active rx returns => simp [switches, rx]
  | mainWaits active empty => simp [switches, active, (hand.main active).2]
  | faultReads active rx other returns => simp [switches, rx]
  | faultAcknowledged active rx => cases behind : w.behindFirst <;>
    simp [switches, active, rx, behind]
  | faultWaits active empty => cases behind : w.behindFirst <;> simp [switches, active, behind]
  | goOnMain active behind waiting => simp [switches, active, behind]
  | goOnReturn active behind other => simp [switches, active, behind]
  | _ => cases inner

/-- The active coroutine stops for good at the byte before it. -/
def Stuck (w : Component) : Prop :=
  ∃ c rest, w.rx = c :: rest ∧
    (w.active = .main ∧ w.session.mainByte c = none ∨
      w.active = .fault ∧ c ≠ chr '+' ∧ w.session.faultByte = none)

theorem inner_progress (w : Component) : w.Idle ∨ Stuck w ∨ ∃ a w', Component.Move.Inner a ∧
    Step w a w' := by
  cases active : w.active with
  | event =>
    cases behind : w.behindFirst with
    | false => exact Or.inl ⟨active, behind⟩
    | true =>
      by_cases waiting : w.state = .waitingForInputEventLoop
      · exact Or.inr (Or.inr ⟨.goOn, _, trivial, .goOnMain active behind waiting⟩)
      · exact Or.inr (Or.inr ⟨.goOn, _, trivial, .goOnReturn active behind waiting⟩)
  | main =>
    cases rx : w.rx with
    | nil => exact Or.inr (Or.inr ⟨.wait, _, trivial, .mainWaits active rx⟩)
    | cons c rest =>
      cases returns : w.session.mainByte c with
      | none => exact Or.inr (Or.inl ⟨c, rest, rx, Or.inl ⟨active, returns⟩⟩)
      | some s => exact Or.inr (Or.inr ⟨.read c, _, trivial, .mainReads active rx returns⟩)
  | fault =>
    cases rx : w.rx with
    | nil => exact Or.inr (Or.inr ⟨.wait, _, trivial, .faultWaits active rx⟩)
    | cons c rest =>
      by_cases acknowledged : c = chr '+'
      · subst acknowledged
        exact Or.inr (Or.inr ⟨.read (chr '+'), _, trivial, .faultAcknowledged active rx⟩)
      · cases returns : w.session.faultByte with
        | none => exact Or.inr (Or.inl ⟨c, rest, rx, Or.inr ⟨active, acknowledged, returns⟩⟩)
        | some s => exact Or.inr (Or.inr ⟨.read c, _, trivial,
          .faultReads active rx acknowledged returns⟩)

/-- Left to itself the component comes back to `t_event` with its entry point done, in no more
    steps than one for each byte and three switches, unless the stub stops. -/
theorem entry_points_return {stub : State} {moves : List Component.Move} {w : Component}
    (run : Run Step (.start stub) moves w) :
    (∀ as w', (∀ a ∈ as, Component.Move.Inner a) → Run Step w as w' → as.length ≤ w.rx.length + 3) ∧
      ∃ as w', (∀ a ∈ as, Component.Move.Inner a) ∧ Run Step w as w' ∧ (w'.Idle ∨ Stuck w') := by
  have hand := (run_attended run).1
  clear run
  have bound {as : List Component.Move} {w w' : Component} (hand : HandOver w)
      (inner : ∀ a ∈ as, a.Inner)
      (run : Run Step w as w') : as.length + (w'.rx.length + w'.switches) ≤ w.rx.length +
        w.switches := by
    induction run with
    | stop => simp
    | next first _ ih =>
      have smaller := inner_shrinks first (inner _ List.mem_cons_self) hand
      have rest := ih (handOver_step first hand) fun a mem => inner a (List.mem_cons_of_mem _ mem)
      rw [List.length_cons]
      omega
  have few : w.switches ≤ 3 := by
    unfold switches
    split <;> omega
  refine ⟨fun as w' inner run => ?_, ?_⟩
  · have total := bound hand inner run
    omega
  · induction size : w.rx.length + w.switches using Nat.strongRecOn generalizing w with
    | ind n ih =>
      rcases inner_progress w with idle | stuck | ⟨a, w', inner, step⟩
      · exact ⟨[], w, by simp, .stop w, Or.inl idle⟩
      · exact ⟨[], w, by simp, .stop w, Or.inr stuck⟩
      · have smaller := inner_shrinks step inner hand
        have few' : w'.switches ≤ 3 := by
          unfold switches
          split <;> omega
        obtain ⟨as, u, inners, rest, last⟩ := ih _ (by omega) (handOver_step step hand) few' rfl
        refine ⟨a :: as, u, ?_, .next step rest, last⟩
        intro b mem
        rcases List.mem_cons.mp mem with rfl | later
        · exact inner
        · exact inners b later

omit [Machine] in
/-- A fault while two bytes are queued. -/
theorem fault_returns : letI := obligingBoard
    ∃ w, Run Step (.start debugeeState) [.wait, .arrive (chr '$'), .arrive (chr 'a'),
      .fault 1 .other] w ∧
      w.active = .fault ∧ w.rx = [chr '$', chr 'a'] ∧
      (∀ as w', (∀ a ∈ as, Component.Move.Inner a) → Run Step w as w' → as.length ≤ 5) ∧
      ∃ as w', (∀ a ∈ as, Component.Move.Inner a) ∧ Run Step w as w' ∧ (w'.Idle ∨ Stuck w') := by
  let _ := obligingBoard
  obtain ⟨s', returns, _⟩ := debugee_fault (Session.start debugeeState) rfl
  have run : Run Step (.start debugeeState) [.wait, .arrive (chr '$'), .arrive (chr 'a'),
      .fault 1 .other] _ :=
    .next (.mainWaits rfl rfl)
      (.next (.arrive _ _) (.next (.arrive _ _) (.next (.fault ⟨rfl, rfl⟩ returns) (.stop _))))
  exact ⟨_, run, rfl, rfl, entry_points_return run⟩

end
end Libgdb
