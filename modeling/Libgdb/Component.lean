import Libgdb.Library.Simulations
import Libgdb.Framing
import Libgdb.HexCodecs
import Libgdb.RejectedResumes

/-!
apps/debugger/debugger.c of the example microkit_sddf_serial as a system of coroutines: `t_event`
runs the entry points, `t_main` the event loop and `t_fault` the report of a fault. The last two
give way in `gdb_get_char` alone, when the queue of received bytes is empty, so what they do is
told from one byte to the next.
-/
namespace Libgdb
open ByteMemory (Byte Word)
open Simulations
variable [Machine]

inductive EventState where
  | none
  | waitingForInputEventLoop
  | waitingForInputFault
  deriving DecidableEq, Repr

/-- Where `t_main` asks for a byte, with the locals of `event_loop` and `get_packet` there. -/
inductive MainPoint where
  | getPacket (point : GetPoint)
  | putPacket (resume : Bool)

/- The coroutines from one byte to the next. -/

def pointerText (buf : Nat → Byte) (k : Nat) : List Byte := bufferText buf k (bufsize - k)

/-- One pass of `put_packet(output, ..)`, up to `gdb_get_char`. Both coroutines send the one
    buffer. -/
def putAttempt : Stub (List Byte) := do
  let s ← get
  liftParse (serialAttempt (pointerText s.output 0))

def returnedIndex (r : Receiver) : Nat :=
  match r.point with
  | .start => 0
  | _ => if r.buf 2 = chr ':' then 3 else 0

/-- `event_loop` once `get_packet` has returned: where it next asks for a byte, and what is sent
    before that. -/
def eventLoopPacket (input : List Byte) : Stub (MainPoint × List Byte) := do
  let s ← get
  let interrupted ← if s.detached then pure true else isInterrupt input
  if interrupted then
    suspendSystem
    modify fun s : State => { s with detached := false }
  let resume ← gdbHandlePacket input
  let s ← get
  if !resume || s.detached then
    let frame ← putAttempt
    return (.putPacket resume, frame)
  else
    if resume then
      resumeSystem
    return (.getPacket .start, [])

structure MainTurn where
  point : MainPoint
  input : Nat → Byte
  sent : List Byte

/-- `t_main` from the byte `c` to the next `gdb_get_char`. -/
def mainByte (point : MainPoint) (input : Nat → Byte) (c : Byte) : Stub MainTurn :=
  match point with
  | .getPacket p =>
    let step := serialGetPacketByte ⟨p, input⟩ c
    match step.returned with
    | none => return ⟨.getPacket step.next.point, step.next.buf, step.sent⟩
    | some _ => do
      let (next, frame) ← eventLoopPacket (pointerText step.next.buf (returnedIndex ⟨p, input⟩))
      return ⟨next, step.next.buf, step.sent ++ frame⟩
  | .putPacket resume => do
    if c = chr '+' then
      if resume then
        resumeSystem
      return ⟨.getPacket .start, input, []⟩
    else
      let frame ← putAttempt
      return ⟨.putPacket resume, input, frame⟩

/-- `fault` up to the first `gdb_get_char` of `fault_message`. Where the thread is not found the
    report is whatever the buffer holds. -/
def faultReport (ch : Word) (message : FaultMessage) : Stub (List Byte) := do
  suspendSystem
  let _ ← gdbHandleFault ch 0 message
  putAttempt

/- What the coroutines hold, and how it changes. -/

/-- `reporting` says that `t_fault` is in `put_packet`. -/
structure Session where
  stub : State
  main : MainPoint
  input : Nat → Byte
  reporting : Bool
  sent : List Byte

def Session.run {α : Type} (s : Session) (m : Stub α) (f : α → State → Session) : Option Session :=
  match m.run s.stub with
  | .ok a t => some (f a t)
  | .error _ _ => none

def Session.mainByte (s : Session) (c : Byte) : Option Session :=
  s.run (Libgdb.mainByte s.main s.input c) fun turn t =>
    { s with stub := t, main := turn.point, input := turn.input, sent := s.sent ++ turn.sent }

def Session.faultByte (s : Session) : Option Session :=
  s.run putAttempt fun frame t => { s with stub := t, sent := s.sent ++ frame }

def Session.fault (s : Session) (ch : Word) (message : FaultMessage) : Option Session :=
  s.run (faultReport ch message) fun frame t =>
    { s with stub := t, reporting := true, sent := s.sent ++ frame }

/- The component. -/

inductive Cothread where
  | event
  | main
  | fault
  deriving DecidableEq, Repr

/-- `rx` is the queue of received bytes, and `signal` a notification not yet delivered. Switched
    to, `t_event` goes on behind the first `if` of `notified` where `behindFirst` holds; elsewhere
    it is behind the last switch of its entry point, which returns. -/
structure Component where
  rx : List Byte
  signal : Bool
  state : EventState
  active : Cothread
  behindFirst : Bool
  session : Session

/-- Entry points are called while none is running. -/
def Component.Idle (w : Component) : Prop := w.active = .event ∧ w.behindFirst = false

/-- `arrive` is a byte from the serial virtualiser, which notifies, and `outside` what others do
    to the kernel's objects. The last three are steps of the active coroutine: `gdb_get_char`
    returns a byte, it finds the queue empty, and `notified` comes to its second `if`. -/
inductive Component.Move where
  | arrive (c : Byte)
  | outside (kernel : Kernel)
  | notified
  | fault (ch : Word) (message : FaultMessage)
  | read (c : Byte)
  | wait
  | goOn

inductive Component.Step : Component → Component.Move → Component → Prop where
  | arrive (w : Component) (c : Byte) : Step w (.arrive c)
      { w with rx := w.rx ++ [c], signal := true }
  | outside {w : Component} (idle : w.Idle) (kernel : Kernel) :
      Step w (.outside kernel)
      { w with session := { w.session with stub := w.session.stub.withKernel kernel } }
  | notifiedFault {w : Component} (idle : w.Idle) (signalled : w.signal = true)
      (waiting : w.state = .waitingForInputFault) :
      Step w .notified
      { w with signal := false, state := .none, active := .fault, behindFirst := true }
  | notifiedOther {w : Component} (idle : w.Idle) (signalled : w.signal = true)
      (other : w.state ≠ .waitingForInputFault) :
        Step w .notified { w with signal := false, behindFirst := true }
  | fault {w : Component} (idle : w.Idle) {ch : Word} {message : FaultMessage} {s : Session}
      (returns : w.session.fault ch message = some s) :
      Step w (.fault ch message) { w with active := .fault, session := s }
  | mainReads {w : Component} (active : w.active = .main) {c : Byte} {rest : List Byte}
      (rx : w.rx = c :: rest) {s : Session} (returns : w.session.mainByte c = some s) :
      Step w (.read c) { w with rx := rest, session := s }
  | mainWaits {w : Component} (active : w.active = .main) (empty : w.rx = []) :
      Step w .wait { w with state := .waitingForInputEventLoop, active := .event }
  | faultReads {w : Component} (active : w.active = .fault) {c : Byte} {rest : List Byte}
      (rx : w.rx = c :: rest)
      (other : c ≠ chr '+') {s : Session} (returns : w.session.faultByte = some s) :
      Step w (.read c) { w with rx := rest, session := s }
  | faultAcknowledged {w : Component} (active : w.active = .fault) {rest : List Byte}
      (rx : w.rx = chr '+' :: rest) :
      Step w (.read (chr '+'))
        { w with rx := rest, state := .waitingForInputEventLoop, active := .event,
                 session := { w.session with reporting := false } }
  | faultWaits {w : Component} (active : w.active = .fault) (empty : w.rx = []) :
      Step w .wait { w with state := .waitingForInputFault, active := .event }
  | goOnMain {w : Component} (active : w.active = .event) (behind : w.behindFirst = true)
      (waiting : w.state = .waitingForInputEventLoop) :
      Step w .goOn { w with state := .none, active := .main, behindFirst := false }
  | goOnReturn {w : Component} (active : w.active = .event) (behind : w.behindFirst = true)
      (other : w.state ≠ .waitingForInputEventLoop) : Step w .goOn { w with behindFirst := false }

/- Start-up. -/

abbrev numDebugees := 2

/-- `init` up to the switch to `t_main`; the two capabilities are the first of their kind. -/
def initStub (baseVspaceCap baseTcbCap : Word) : Stub Unit := do
  (List.range numDebugees).forM fun i => do
    let _ ← gdbRegisterInferior (BitVec.ofNat 64 i) (baseVspaceCap + BitVec.ofNat 64 i)
    let _ ← gdbRegisterThread (BitVec.ofNat 64 i) 0 (baseTcbCap + BitVec.ofNat 64 i)
  suspendSystem

def Session.start (stub : State) : Session := ⟨stub, .getPacket .start, fun _ => 0, false, []⟩

def Component.start (stub : State) : Component := ⟨[], false, .none, .main, false, .start stub⟩

/- The order of events alone. -/

inductive Input where
  | byte (c : Byte)
  | fault (ch : Word) (message : FaultMessage)
  | outside (kernel : Kernel)

/-- A report that is not acknowledged takes every byte; the event loop takes the others. -/
def Session.take (s : Session) : Input → Option Session
  | .byte c =>
    if s.reporting then
      if c = chr '+' then some { s with reporting := false } else s.faultByte
    else s.mainByte c
  | .fault ch message => s.fault ch message
  | .outside kernel => some { s with stub := s.stub.withKernel kernel }

def Session.takes (s : Session) (inputs : List Input) : Option Session :=
  inputs.foldlM Session.take s

end Libgdb
