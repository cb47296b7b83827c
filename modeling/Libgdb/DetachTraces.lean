import Libgdb.Detaching
import Libgdb.RegisterMirror
import Libgdb.RepeatedStops
import Libgdb.ResumeEffects
import Libgdb.SoftwareBreakpoints

/-!
What a detach leaves behind when every kernel call succeeds: the memory of the inferiors against
what it was before each breakpoint still set was first set, the debug registers, the tables and the
flags of the threads.
-/
namespace Libgdb
open ByteMemory SlotTables CheckedPrograms
variable [Machine]

/- Breakpoints still set. -/

/-- A software breakpoint, with the word in memory before it was first set. -/
structure LaidBreak where
  pd : Fin maxPds
  address : Word
  word : Word

omit [Machine] in
def LaidBreak.same (pd : Fin maxPds) (address : Word) (b : LaidBreak) : Bool :=
  b.pd == pd && b.address == address

/-- The breakpoints still set after a packet, oldest first, from those set before it. A `Z0` packet
    answered OK sets one unless it is set already, a `z0` packet answered OK removes it, and a
    detach removes them all. -/
def stillSet (s t : State) (laid : List LaidBreak) (input : List Byte) : List LaidBreak :=
  match input with
  | c :: d :: _ =>
    if c = chr 'D' then []
    else if d = chr '0' ∧ t.reply = str "OK" then
      match parseBreakpointFormat input, s.targetPd with
      | .ok (some (address, _)), some pd =>
        if c = chr 'z' then laid.filter fun b => !b.same pd address
        else if laid.any (LaidBreak.same pd address) then laid
        else laid ++ [⟨pd, address, load (s.kernel.memory (s.inferiors pd).vspace) address⟩]
      | _, _ => laid
    else laid
  | [c] => if c = chr 'D' then [] else laid
  | [] => laid

/-- Runs from start-up, with the software breakpoints still set. -/
inductive History : State → List LaidBreak → Prop where
  | boot (output : Nat → Byte) (kernel : Kernel) : History (.boot output kernel) []
  | packet {s t : State} {laid : List LaidBreak} (earlier : History s laid) (input : List Byte)
      (returns : (Event.packet input).run.run s = .ok () t) : History t (stillSet s t laid input)
  | event {s t : State} {laid : List LaidBreak} (earlier : History s laid) (e : Event)
      (other : ∀ input, e ≠ .packet input) (returns : e.run.run s = .ok () t) : History t laid
  | outside {s : State} {laid : List LaidBreak} (earlier : History s laid) (kernel : Kernel) :
    History (s.withKernel kernel) laid

theorem History.reachable {s : State} {laid : List LaidBreak} (history : History s laid) :
    Reachable s := by
  induction history with
  | boot output kernel => exact .boot output kernel
  | packet _ input returns ih => exact .step (.packet input) ih returns
  | event _ e _ returns ih => exact .step e ih returns
  | outside _ kernel ih => exact .outside kernel ih

theorem History.other {s t : State} {laid : List LaidBreak} (earlier : History s laid) {c d : Byte}
    {rest : List Byte} (stays : c ≠ chr 'D') (hardware : d ≠ chr '0') {b : Bool}
    (returns : (gdbHandlePacket (c :: d :: rest)).run s = .ok b t) : History t laid := by
  have next := History.packet earlier (c :: d :: rest) (run_bind_ok returns _)
  rwa [stillSet, if_neg stays, if_neg fun software => hardware software.1] at next

section
variable (s : State) (k : Kernel)

end

section
omit [Machine]

end

end Libgdb
