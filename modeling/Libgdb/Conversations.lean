import Libgdb.StoppedSystem

/-!
The debugger component seen by its host. The host sends packets and acknowledges each reply, and
what comes of it, byte for byte, is one round of the event loop for each packet, in order. A frame
whose checksum does not match is refused and changes nothing.
-/
namespace Libgdb
open ByteMemory CheckedPrograms
open Simulations Component
variable [Machine]

/- One frame. -/

def held (buf : Nat → Byte) (payload : List Byte) : Nat → Byte :=
  Function.update (layText buf 0 payload) payload.length 0

omit [Machine] in
/-- A payload that fits and whose third character is none that passes for the end of a sequence
    id. -/
structure Readable (payload : List Byte) : Prop where
  noDollar : chr '$' ∉ payload
  noHash : chr '#' ∉ payload
  length : payload.length ≤ bufsize - 2
  plain : ¬ HasId payload

def wire (payload : List Byte) (x y : Byte) : List Byte := chr '$' :: payload ++ [chr '#', x, y]

omit [Machine] in
theorem held_third {buf : Nat → Byte} (third : buf 2 ≠ chr ':') {payload : List Byte}
    (plain : ¬ HasId payload) :
    held buf payload 2 ≠ chr ':' := by
  unfold held
  by_cases here : 2 = payload.length
  · rw [← here, Function.update_self]
    decide
  · rw [Function.update_of_ne here]
    by_cases inside : 2 < payload.length
    · have laid : layText buf 0 payload 2 = payload.getD 2 0 := by simp [layText, inside]
      rw [laid]
      exact fun colon => plain ⟨inside, colon⟩
    · have kept : layText buf 0 payload 2 = buf 2 := if_neg (by omega)
      rw [kept]
      exact third

omit [Machine] in
theorem frame_silent {payload : List Byte} (readable : Readable payload)
    (buf : Nat → Byte) (x : Byte) :
    Silent ⟨.start, buf⟩ (chr '$' :: payload ++ [chr '#', x]) ∧
      afterStream serialGetPacketByte ⟨.start, buf⟩ (chr '$' :: payload ++ [chr '#', x]) =
        ⟨.lowDigit (textSum payload) (BitVec.ofInt 8 (hexcharToInt x * 16)), held buf payload⟩ := by
  have size : bufsize = 2048 := rfl
  have fits := readable.length
  obtain ⟨last, sent, returned⟩ :=
    data_run serialEcho payload readable.noDollar readable.noHash 0 ⟨0, by decide⟩ buf
    (by dsimp only; omega)
  have opened : serialGetPacketByte ⟨.start, buf⟩ (chr '$') = ⟨⟨.data 0 ⟨0, by decide⟩, buf⟩,
      [], none⟩ := rfl
  have stored : afterStream serialGetPacketByte ⟨.data 0 ⟨0, by decide⟩, buf⟩ payload =
      ⟨.data (textSum payload) ⟨payload.length, by omega⟩, layText buf 0 payload⟩ := by
    refine last.trans ?_
    simp only [Nat.zero_add]
    exact congrArg (fun sum => Receiver.mk (.data sum ⟨payload.length, by omega⟩)
      (layText buf 0 payload))
      (BitVec.zero_add _)
  have hash : serialGetPacketByte ⟨.data (textSum payload) ⟨payload.length, by omega⟩,
      layText buf 0 payload⟩ (chr '#') =
      ⟨⟨.highDigit (textSum payload), held buf payload⟩, [], none⟩ := rfl
  have digit : serialGetPacketByte ⟨.highDigit (textSum payload), held buf payload⟩ x =
      ⟨⟨.lowDigit (textSum payload) (BitVec.ofInt 8 (hexcharToInt x * 16)), held buf payload⟩,
        [], none⟩ := rfl
  have streams (r : Receiver) (a b : List Byte) :
      afterStream serialGetPacketByte r (a ++ b) = afterStream serialGetPacketByte
        (afterStream serialGetPacketByte r a) b := by
    induction a generalizing r with
    | nil => rfl
    | cons c a ih => exact ih _
  refine ⟨⟨?_, ?_⟩, ?_⟩
  · rw [List.cons_append, returnedOn, opened, returnedOn_append, stored]
    refine List.append_eq_nil_iff.mpr ⟨rfl, List.append_eq_nil_iff.mpr ⟨returned, ?_⟩⟩
    rw [returnedOn, hash, returnedOn, digit]
    rfl
  · rw [List.cons_append, sentOn, opened, sentOn_append, stored]
    refine List.append_eq_nil_iff.mpr ⟨rfl, List.append_eq_nil_iff.mpr ⟨sent, ?_⟩⟩
    rw [sentOn, hash, sentOn, digit]
    rfl
  · rw [List.cons_append, afterStream, opened, streams, stored, afterStream, hash,
      afterStream, digit]
    rfl

theorem takes_frame_start {s : Session} (main : s.main = .getPacket .start)
    (quiet : s.reporting = false) {payload : List Byte} (readable : Readable payload) (x : Byte) :
    s.takes ((chr '$' :: payload ++ [chr '#', x]).map .byte) = some { s with
      main := .getPacket (.lowDigit (textSum payload) (BitVec.ofInt 8 (hexcharToInt x * 16)))
      input := held s.input payload } := by
  obtain ⟨silent, last⟩ := frame_silent readable s.input x
  rw [takes_silent main quiet silent, last]

theorem takes_damaged {s : Session} (main : s.main = .getPacket .start)
    (quiet : s.reporting = false) {payload : List Byte} (readable : Readable payload) {x y : Byte}
    (wrong : hexPair x y ≠ textSum payload) :
    s.takes ((wire payload x y).map .byte) = some { s with
      input := held s.input payload
      sent := s.sent ++ [chr '-'] } := by
  have split : wire payload x y = (chr '$' :: payload ++ [chr '#', x]) ++ [y] := by simp [wire]
  rw [split, List.map_append, takes_append, takes_frame_start main quiet readable, Option.bind_some,
    List.map_singleton,
    takes_cons, Session.take, if_neg (by rw [quiet]; decide)]
  unfold Session.mainByte Session.run
  have refused : serialGetPacketByte ⟨.lowDigit (textSum payload)
      (BitVec.ofInt 8 (hexcharToInt x * 16)), held s.input payload⟩ y =
      ⟨⟨.start, held s.input payload⟩, [chr '-'], none⟩ := if_pos (Ne.symm wrong)
  rw [mainByte, refused]
  obtain ⟨stub, _, input, reporting, sent⟩ := s
  cases main
  rfl

theorem takes_accepted {s : Session} (main : s.main = .getPacket .start)
    (quiet : s.reporting = false)
    (third : s.input 2 ≠ chr ':') {payload : List Byte} (readable : Readable payload) {x y : Byte}
    (right : hexPair x y = textSum payload) {next : MainPoint} {frame : List Byte} {u : State}
    (handled : (eventLoopPacket (pointerText (held s.input payload) 0)).run s.stub =
      .ok (next, frame) u) :
    s.takes ((wire payload x y).map .byte) = some { s with
      stub := u
      main := next
      input := held s.input payload
      sent := s.sent ++ chr '+' :: frame } := by
  have split : wire payload x y = (chr '$' :: payload ++ [chr '#', x]) ++ [y] := by simp [wire]
  rw [split, List.map_append, takes_append, takes_frame_start main quiet readable, Option.bind_some,
    List.map_singleton,
    takes_cons, Session.take, if_neg (by rw [quiet]; decide)]
  unfold Session.mainByte Session.run
  have plain := held_third third readable.plain
  have accepted : serialGetPacketByte ⟨.lowDigit (textSum payload)
      (BitVec.ofInt 8 (hexcharToInt x * 16)), held s.input payload⟩ y =
      ⟨⟨.start, held s.input payload⟩, [chr '+'], some (textAt (held s.input payload) 0)⟩ :=
    (if_neg (not_not.mpr right.symm)).trans (if_neg plain)
  have index : returnedIndex ⟨.lowDigit (textSum payload) (BitVec.ofInt 8 (hexcharToInt x * 16)),
      held s.input payload⟩ = 0 :=
    if_neg plain
  rw [mainByte, accepted]
  dsimp only
  rw [index, run_bind_ok handled]
  rfl

theorem take_interrupt {s : Session} (main : s.main = .getPacket .start)
    (quiet : s.reporting = false) {next : MainPoint} {frame : List Byte} {u : State}
    (handled : (eventLoopPacket (pointerText (held s.input [3]) 0)).run s.stub =
      .ok (next, frame) u) :
    s.take (.byte 3) = some { s with
      stub := u
      main := next
      input := held s.input [3]
      sent := s.sent ++ frame } := by
  have laid : layText s.input 0 [3] = Function.update s.input 0 3 := layText_single _ _ _
  rw [Session.take, if_neg (by rw [quiet]; decide)]
  unfold Session.mainByte Session.run
  have accepted : serialGetPacketByte ⟨.start, s.input⟩ 3 =
      ⟨⟨.start, held s.input [3]⟩, [], some (textAt (held s.input [3]) 0)⟩ := by
    unfold held
    rw [laid]
    rfl
  rw [main, mainByte, accepted]
  dsimp only
  rw [show returnedIndex ⟨.start, s.input⟩ = 0 from rfl, run_bind_ok handled]
  rfl

/- One round of the event loop. -/

theorem eventLoopRound_silent {input : List Byte} {c : Byte}
    (head : peek input = .ok c) {s u : State} (round : (eventLoopRound input).run s = .ok none u) :
    (eventLoopPacket input).run s = .ok (.getPacket .start, []) u := by
  obtain ⟨k, _, atRound, atPacket⟩ := eventLoop_attached head s
  rw [atRound, roundRest] at round
  obtain ⟨resume, v, handled, rest⟩ := ok_bind_run round
  rw [atPacket, packetRest, run_bind_ok handled]
  rw [run_bind_ok (EStateM.run_get v)] at rest ⊢
  obtain ⟨k', resumed, _⟩ := resumeSystem_calls v
  by_cases answered : (!resume || v.detached) = true
  · rw [if_pos answered] at rest
    split at rest
    · rw [run_bind_ok resumed] at rest
      cases rest
    · cases rest
  · have silent : resume = true ∧ v.detached = false := by simpa using answered
    rw [if_neg answered, if_pos silent.1, run_bind_ok resumed] at rest ⊢
    cases rest
    rfl

theorem eventLoopRound_answered {input : List Byte} {c : Byte}
    (head : peek input = .ok c) {s u : State}
    {reply : List Byte} (round : (eventLoopRound input).run s = .ok (some reply) u)
    (ends : Terminated u.output) :
    ∃ resume v, (eventLoopPacket input).run s = .ok (.putPacket resume, frameOf reply) v ∧
    u = acknowledged resume v ∧
      v.reply = reply ∧ Terminated v.output := by
  obtain ⟨k, _, atRound, atPacket⟩ := eventLoop_attached head s
  rw [atRound, roundRest] at round
  obtain ⟨resume, v, handled, rest⟩ := ok_bind_run round
  rw [run_bind_ok (EStateM.run_get v)] at rest
  obtain ⟨k', resumed, _⟩ := resumeSystem_calls v
  have after_reply : u = acknowledged resume v ∧ v.output = u.output ∧
      (if !resume || v.detached then some v.reply else none) = some reply := by
    cases resume with
    | false =>
      injection rest with sent same
      subst same
      exact ⟨rfl, rfl, sent⟩
    | true =>
      rw [if_pos rfl, run_bind_ok resumed] at rest
      injection rest with sent same
      subst same
      exact ⟨by rw [acknowledged, if_pos rfl, after_ok resumed], rfl, sent⟩
  obtain ⟨last, output, sent⟩ := after_reply
  have terminated : Terminated v.output := by
    rw [output]
    exact ends
  by_cases answered : (!resume || v.detached) = true
  · rw [if_pos answered] at sent
    have text := Option.some.inj sent
    refine ⟨resume, v, ?_, last, text, terminated⟩
    rw [atPacket, packetRest, run_bind_ok handled, run_bind_ok (EStateM.run_get v), if_pos answered,
      run_bind_ok (putAttempt_run terminated), text]
    rfl
  · rw [if_neg answered] at sent
    cases sent

/- The host's side. -/

omit [Machine] in
/-- A packet with its checksum and what the host sends before it acknowledges the reply, if there is
    one; a packet that the line damaged; an interrupt. -/
inductive HostMove where
  | packet (payload : List Byte) (x y : Byte) (nacks : List Byte)
  | damaged (payload : List Byte) (x y : Byte)
  | interrupt (nacks : List Byte)

omit [Machine] in
def HostMove.Valid : HostMove → Prop
  | .packet payload x y nacks => Readable payload ∧ hexPair x y = textSum payload ∧ chr '+' ∉ nacks
  | .damaged payload x y => Readable payload ∧ hexPair x y ≠ textSum payload
  | .interrupt nacks => chr '+' ∉ nacks

/-- The stub between two rounds of the event loop, with the bytes exchanged so far. -/
structure Service where
  stub : State
  input : Nat → Byte
  received : List Byte
  sent : List Byte

inductive Service.Step : Service → HostMove → Service → Prop where
  | silent {d : Service} {payload : List Byte} (x y : Byte) (nacks : List Byte) {u : State}
      (round : (eventLoopRound (pointerText (held d.input payload) 0)).run d.stub = .ok none u) :
      Service.Step d (.packet payload x y nacks)
        ⟨u, held d.input payload, d.received ++ wire payload x y, d.sent ++ [chr '+']⟩
  | answered {d : Service} {payload : List Byte} (x y : Byte) (nacks : List Byte)
      {reply : List Byte} {u : State}
      (round : (eventLoopRound (pointerText (held d.input payload) 0)).run d.stub =
        .ok (some reply) u)
      (ends : Terminated u.output) :
      Service.Step d (.packet payload x y nacks)
        ⟨u, held d.input payload, d.received ++ (wire payload x y ++ (nacks ++ [chr '+'])),
          d.sent ++ chr '+' :: copies (nacks.length + 1) (frameOf reply)⟩
  | refused (d : Service) (payload : List Byte) (x y : Byte) :
      Service.Step d (.damaged payload x y)
        ⟨d.stub, held d.input payload, d.received ++ wire payload x y, d.sent ++ [chr '-']⟩
  | interrupted {d : Service} (nacks : List Byte) {reply : List Byte} {u : State}
      (round : (eventLoopRound (pointerText (held d.input [3]) 0)).run d.stub = .ok (some reply) u)
      (ends : Terminated u.output) :
      Service.Step d (.interrupt nacks)
        ⟨u, held d.input [3], d.received ++ (3 :: (nacks ++ [chr '+'])),
          d.sent ++ copies (nacks.length + 1) (frameOf reply)⟩

def Service.start (stub : State) : Service := ⟨stub, fun _ => 0, [], []⟩

def Service.session (d : Service) : Session := ⟨d.stub, .getPacket .start, d.input, false, d.sent⟩

omit [Machine] in
theorem pointerText_head (buf : Nat → Byte) : peek (pointerText buf 0) = .ok (buf 0) := by
  unfold pointerText
  rw [show bufsize - 0 = 2047 + 1 from rfl, bufferText_zero]
  rfl

/-- The bytes of one round take the session to where the round leads. -/
theorem service_step {d d' : Service} {h : HostMove} (step : Service.Step d h d') (valid : h.Valid)
    (third : d.input 2 ≠ chr ':') : d'.input 2 ≠ chr ':' ∧
      ∃ bytes, d'.received = d.received ++ bytes ∧ d.session.takes (bytes.map .byte) =
        some d'.session := by
  cases step with
  | silent x y nacks round =>
    obtain ⟨readable, right, _⟩ := valid
    refine ⟨held_third third readable.plain, _, rfl, ?_⟩
    have handled := eventLoopRound_silent (pointerText_head _) round
    exact takes_accepted (s := d.session) rfl rfl third readable right handled
  | answered x y nacks round ends =>
    obtain ⟨readable, right, unacknowledged⟩ := valid
    refine ⟨held_third third readable.plain, _, rfl, ?_⟩
    obtain ⟨resume, v, handled, last, reply, terminated⟩ :=
      eventLoopRound_answered (pointerText_head _) round ends
    have accepted := takes_accepted (s := d.session) rfl rfl third readable right handled
    rw [List.map_append, takes_append, accepted, Option.bind_some]
    refine (takes_reply resume rfl rfl terminated unacknowledged).trans ?_
    simp [Service.session, last, reply, copies, List.replicate_succ]
  | refused payload x y =>
    obtain ⟨readable, wrong⟩ := valid
    exact ⟨held_third third readable.plain, _, rfl,
      takes_damaged (s := d.session) rfl rfl readable wrong⟩
  | interrupted nacks round ends =>
    have plain : ¬ HasId [3] := by decide
    refine ⟨held_third third plain, _, rfl, ?_⟩
    obtain ⟨resume, v, handled, last, reply, terminated⟩ :=
      eventLoopRound_answered (pointerText_head _) round ends
    have accepted := take_interrupt (s := d.session) rfl rfl handled
    rw [List.map_cons, takes_cons, accepted, Option.bind_some]
    refine (takes_reply resume rfl rfl terminated valid).trans ?_
    simp [Service.session, last, reply, copies, List.replicate_succ]

theorem service_run {d d' : Service} {hs : List HostMove} (talk : Run Service.Step d hs d')
    (valid : ∀ h ∈ hs, h.Valid) (third : d.input 2 ≠ chr ':') :
    ∃ bytes, d'.received = d.received ++ bytes ∧ d.session.takes
    (bytes.map .byte) = some d'.session := by
  induction talk with
  | stop => exact ⟨[], (List.append_nil _).symm, rfl⟩
  | next first _ ih =>
    obtain ⟨third', bytes, received, taken⟩ := service_step first (valid _ List.mem_cons_self) third
    obtain ⟨more, received', taken'⟩ :=
      ih (fun h mem => valid h (List.mem_cons_of_mem _ mem)) third'
    refine ⟨bytes ++ more, by rw [received', received, List.append_assoc], ?_⟩
    rw [List.map_append, takes_append, taken, Option.bind_some, taken']

/- Runs on given bytes. -/

theorem arrivals_run (w : Component) {bytes : List Byte} (nonempty : bytes ≠ []) :
    Run Step w (bytes.map .arrive) { w with rx := w.rx ++ bytes, signal := true } := by
  induction bytes generalizing w with
  | nil => exact absurd rfl nonempty
  | cons c bytes ih =>
    refine .next (.arrive w c) ?_
    by_cases last : bytes = []
    · subst last
      exact .stop _
    · have rest := ih { w with rx := w.rx ++ [c], signal := true } last
      rw [List.append_assoc] at rest
      exact rest

theorem reads_run {w : Component} (active : w.active = .main) (quiet : w.session.reporting = false)
    {bytes : List Byte} (rx : w.rx = bytes) {s : Session}
    (taken : w.session.takes (bytes.map .byte) = some s) :
    Run Step w (bytes.map .read) { w with rx := [], session := s } := by
  induction bytes generalizing w with
  | nil =>
    obtain ⟨_, signal, state, _, behind, session⟩ := w
    cases taken
    cases rx
    exact .stop _
  | cons c bytes ih =>
    rw [List.map_cons, takes_cons] at taken
    obtain ⟨t, first, rest⟩ := Option.bind_eq_some_iff.mp taken
    rw [Session.take, if_neg (by rw [quiet]; decide)] at first
    refine .next (.mainReads active rx first) ?_
    exact ih (w := { w with rx := bytes, session := t }) active
      ((mainByte_reporting first).trans quiet) rfl rest

def served (bytes : List Byte) : List Component.Move :=
  bytes.map .arrive ++ (bytes.map .read ++ [.wait, .notified, .goOn, .wait])

omit [Machine] in
theorem served_plain (bytes : List Byte) : ∀ a ∈ served bytes, a.Plain := by
  intro a mem
  simp only [served, List.mem_append, List.mem_map, List.mem_cons, List.not_mem_nil,
    or_false] at mem
  rcases mem with ⟨c, _, rfl⟩ | ⟨c, _, rfl⟩ | rfl | rfl | rfl | rfl <;> trivial

omit [Machine] in
theorem served_arrived (bytes : List Byte) :
    (served bytes).flatMap Component.Move.arrived = bytes := by
  have reads : (bytes.map Component.Move.read).flatMap Component.Move.arrived = [] := by
    induction bytes with
    | nil => rfl
    | cons c bytes ih => exact ih
  have arrivals : (bytes.map Component.Move.arrive).flatMap Component.Move.arrived = bytes := by
    clear reads
    induction bytes with
    | nil => rfl
    | cons c bytes ih => exact congrArg (c :: ·) ih
  rw [served, List.flatMap_append, List.flatMap_append, arrivals, reads]
  exact List.append_nil bytes

theorem served_run {stub : State} {bytes : List Byte} (nonempty : bytes ≠ []) {s : Session}
    (taken : (Session.start stub).takes (bytes.map .byte) = some s) :
    ∃ w, Run Step (.start stub) (served bytes) w ∧ w.AtRest := by
  have reads := reads_run (w := { Component.start stub with rx := bytes, signal := true })
      rfl rfl rfl taken
  have last : Run Step { Component.start stub with rx := [], signal := true, session := s }
      [.wait, .notified, .goOn, .wait] _ :=
    .next (.mainWaits rfl rfl) (.next (.notifiedOther ⟨rfl, rfl⟩ rfl (fun bad => by cases bad))
      (.next (.goOnMain rfl rfl rfl) (.next (.mainWaits rfl rfl) (.stop _))))
  exact ⟨_, run_append (arrivals_run _ nonempty) (run_append reads last), ⟨rfl, rfl⟩, rfl⟩

/-- The bytes of a conversation can reach the component. Whatever way they do, once it is at rest
    the stub is where the rounds of the event loop lead, and the host has been sent what they
    send. -/
theorem conversation_served {stub : State} {hs : List HostMove} {d : Service}
    (talk : Run Service.Step (.start stub) hs d) (valid : ∀ h ∈ hs, h.Valid) :
    (∃ moves w, Run Step (.start stub) moves w ∧ (∀ a ∈ moves, a.Plain) ∧
      moves.flatMap Component.Move.arrived = d.received ∧ w.AtRest) ∧
    ∀ moves w, Run Step (.start stub) moves w → (∀ a ∈ moves, a.Plain) →
      moves.flatMap Component.Move.arrived = d.received → w.AtRest → w.session = d.session := by
  obtain ⟨bytes, received, taken⟩ :=
    service_run talk valid (show (0 : Byte) ≠ chr ':' from by decide)
  have all : d.received = bytes := received
  rw [all]
  constructor
  · by_cases nothing : bytes = []
    · subst nothing
      exact ⟨[.wait], _, .next (.mainWaits rfl rfl)
        (.stop _), by simp [Component.Move.Plain], rfl, ⟨rfl, rfl⟩, rfl⟩
    · obtain ⟨w, run, rest⟩ := served_run nothing taken
      exact ⟨_, w, run, served_plain bytes, served_arrived bytes, rest⟩
  · intro moves w run plain arrived rest
    have took := run_taken run
    rw [plain_inputs plain, rest_reads run rest, arrived] at took
    exact Option.some.inj (took.symm.trans taken)

theorem questionRound (s : State) (rest : List Byte) :
    ∃ u, (eventLoopRound (chr '?' :: rest)).run s = .ok (some (str "T05swbreak:;")) u ∧
    Terminated u.output := by
  obtain ⟨k, round⟩ := eventLoopRound_attached (show peek (chr '?' :: rest) =
      .ok (chr '?') from rfl) (by decide) s
  have dispatched : gdbHandlePacket (chr '?' :: rest) = (do
      put 0 0
      strlcpy 0 (str "T05swbreak:;") bufsize
      return false) := by
    have first : (liftParse (peek (chr '?' :: rest)) : Stub Byte) = pure (chr '?') := rfl
    unfold gdbHandlePacket
    simp only [first, pure_bind]
    refine congrArg _ (funext fun _ => ?_)
    rw [if_neg (by decide), if_neg (by decide), if_neg (by decide), if_neg (by decide),
      if_neg (by decide),
      if_neg (by decide), if_neg (by decide), if_neg (by decide), if_pos trivial]
  have cleared : (put 0 0).run (s.attached k) = .ok () ((s.attached k).lay 0 []) :=
    put_zero_run (by decide) (s.attached k)
  have laid := strlcpy_run 0 (str "T05swbreak:;") bufsize ((s.attached k).lay 0 [])
      (by decide) (by decide)
  have handled : (gdbHandlePacket (chr '?' :: rest)).run (s.attached k) =
      .ok false (((s.attached k).lay 0 []).lay 0 (str "T05swbreak:;")) := by
    rw [dispatched, run_bind_ok cleared, run_bind_ok laid]
    rfl
  have reply := lay_reply ((s.attached k).lay 0 []) (str "T05swbreak:;") (by decide) (by decide)
  have ends := lay_terminated ((s.attached k).lay 0 [])
      (show (str "T05swbreak:;").length < bufsize by decide)
  refine ⟨_, ?_, ends⟩
  rw [round, run_bind_ok handled, ← reply]
  rfl

omit [Machine] in
/-- A packet that the line damages, and one whose reply is not understood at first. -/
def askedAgain : List HostMove :=
  [.damaged [chr 'g'] (chr '0') (chr '0'), .packet [chr '?'] (chr '3') (chr 'f') [chr '-']]

omit [Machine] in
theorem asked_again_served : letI := obligingBoard
    ∃ d, Run Service.Step (.start soloState) askedAgain d ∧
      (∃ moves w, Run Step (.start soloState) moves w ∧ (∀ a ∈ moves, a.Plain) ∧
        moves.flatMap Component.Move.arrived = d.received ∧ w.AtRest) ∧
      ∀ moves w, Run Step (.start soloState) moves w → (∀ a ∈ moves, a.Plain) →
        moves.flatMap Component.Move.arrived = d.received → w.AtRest → w.session = d.session := by
  let _ := obligingBoard
  let asked : Nat → Byte := held (held (fun _ => 0) [chr 'g']) [chr '?']
  obtain ⟨rest, text⟩ : ∃ rest, pointerText asked 0 = chr '?' :: rest :=
    ⟨_, bufferText_zero asked 2047⟩
  obtain ⟨u, round, ends⟩ := questionRound soloState rest
  rw [← text] at round
  have talk : Run Service.Step (.start soloState) askedAgain _ :=
    .next (.refused _ _ _ _) (.next (.answered _ _ _ round ends) (.stop _))
  refine ⟨_, talk, conversation_served talk ?_⟩
  intro h mem
  simp only [askedAgain, List.mem_cons, List.not_mem_nil, or_false] at mem
  rcases mem with rfl | rfl
  · exact ⟨⟨by decide, by decide, by decide, by decide⟩, by decide⟩
  · exact ⟨⟨by decide, by decide, by decide, by decide⟩, by decide, by decide⟩

end Libgdb
