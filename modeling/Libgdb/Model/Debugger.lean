import Libgdb.Model.Util

/-!
The packet layer of the debugger components, apps/debugger/debugger.c of the examples
microkit_sddf_serial and microkit_sddf_net. Both run as coroutines that stop in `gdb_get_char`
until a byte arrives, so `get_packet` is the steps between one byte and the next.
-/
namespace Libgdb
open ByteMemory (Byte)

/- get_packet. -/

/-- The four places where `get_packet` waits for a byte, with its locals there. While it reads
    data, `count` is below the bound of its loop. -/
inductive GetPoint where
  | start
  | data (cksum : Byte) (count : Fin (bufsize - 1))
  | highDigit (cksum : Byte)
  | lowDigit (cksum xcksum : Byte)

/-- `buf` is the global `input`. -/
structure Receiver where
  point : GetPoint
  buf : Nat → Byte

def textAt (buf : Nat → Byte) (k : Nat) : List Byte := cstring (fun i => buf (k + i)) (bufsize - k)

structure GetStep where
  next : Receiver
  sent : List Byte
  returned : Option (List Byte)

/-- `get_packet` on the byte `c`. The copies differ in how the sequence id is echoed. -/
def getPacketByte (echo : (Nat → Byte) → List Byte) (r : Receiver) (c : Byte) : GetStep :=
  match r.point with
  | .start =>
    if c = chr '$' then ⟨⟨.data 0 ⟨0, by decide⟩, r.buf⟩, [], none⟩
    else if c = 3 then
      let buf := Function.update (Function.update r.buf 0 c) 1 0
      ⟨⟨.start, buf⟩, [], some (textAt buf 0)⟩
    else ⟨r, [], none⟩
  | .data cksum count =>
    if c = chr '$' then ⟨⟨.data 0 ⟨0, by decide⟩, r.buf⟩, [], none⟩
    else if c = chr '#' then ⟨⟨.highDigit cksum, Function.update r.buf count 0⟩, [], none⟩
    else
      let buf := Function.update r.buf count c
      if h : count + 1 < bufsize - 1 then ⟨⟨.data (cksum + c) ⟨count + 1, h⟩, buf⟩, [], none⟩
      -- the buffer is full and `c` is not '#': the frame is given up
      else ⟨⟨.start, Function.update buf (count + 1) 0⟩, [], none⟩
  | .highDigit cksum => ⟨⟨.lowDigit cksum (BitVec.ofInt 8 (hexcharToInt c * 16)), r.buf⟩, [], none⟩
  | .lowDigit cksum xcksum =>
    let xcksum := xcksum + BitVec.ofInt 8 (hexcharToInt c)
    if cksum ≠ xcksum then ⟨⟨.start, r.buf⟩, [chr '-'], none⟩
    else if r.buf 2 = chr ':' then ⟨⟨.start, r.buf⟩, chr '+' :: echo r.buf, some (textAt r.buf 3)⟩
    else ⟨⟨.start, r.buf⟩, [chr '+'], some (textAt r.buf 0)⟩

/-- `gdb_put_char(buf[0]); gdb_put_char(buf[1]);` -/
def serialEcho (buf : Nat → Byte) : List Byte := [buf 0, buf 1]

/-- `tcp_send(&input[1], 1); tcp_send(&input[2], 1);` -/
def netEcho (buf : Nat → Byte) : List Byte := [buf 1, buf 2]

def serialGetPacketByte : Receiver → Byte → GetStep := getPacketByte serialEcho
def netGetPacketByte : Receiver → Byte → GetStep := getPacketByte netEcho

/- What a stream of bytes leads to, over as many calls as it takes. -/

section
variable (get : Receiver → Byte → GetStep)

def afterStream : Receiver → List Byte → Receiver
  | r, [] => r
  | r, c :: cs => afterStream (get r c).next cs

def sentOn : Receiver → List Byte → List Byte
  | _, [] => []
  | r, c :: cs => (get r c).sent ++ sentOn (get r c).next cs

def returnedOn : Receiver → List Byte → List (List Byte)
  | _, [] => []
  | r, c :: cs => (get r c).returned.toList ++ returnedOn (get r c).next cs

end

/- put_packet. -/

/-- `for (cksum = 0; *p; p++) cksum += *p`: the characters passed, their sum, and where the
    pointer stops. -/
def sumText : List Byte → Except Fault (List Byte × Byte × List Byte)
  | [] => .error .inputOverread
  | c :: rest =>
    if c = 0 then .ok ([], 0, c :: rest)
    else do
      let (text, cksum, stop) ← sumText rest
      return (c :: text, c + cksum, stop)

def checksumDigits (cksum : Byte) : List Byte :=
  [intToHexchar (cksum.toNat >>> 4 : Nat), intToHexchar (cksum.toNat % 16 : Nat)]

/-- One pass of the serial debugger's loop, up to `gdb_get_char`; every pass starts from `buf`. -/
def serialAttempt (buf : List Byte) : Except Fault (List Byte) := do
  let (text, cksum, _) ← sumText buf
  return chr '$' :: text ++ chr '#' :: checksumDigits cksum

def serialPutPacket (buf : List Byte) :
    List Byte → Except Fault (List (List Byte) × Option (List Byte))
  | [] => do
    let frame ← serialAttempt buf
    return ([frame], none)
  | c :: received => do
    let frame ← serialAttempt buf
    if c = chr '+' then return ([frame], some received)
    else
      let (frames, left) ← serialPutPacket buf received
      return (frame :: frames, left)

/-- The net debugger's locals, which it sets before the loop only, and the buffer it stages
    frames in: `tmp` is `tcp_output_tmp - tcp_output_buf`. -/
structure NetPut where
  output : List Byte
  tmp : Nat
  tcpOutputBuf : Nat → Byte

/-- `*(tcp_output_tmp++) = b` for each byte in turn. -/
def NetPut.stage (p : NetPut) : List Byte → Except Fault NetPut
  | [] => .ok p
  | b :: bs =>
    if p.tmp < bufsize then
      NetPut.stage
        { p with tmp := p.tmp + 1, tcpOutputBuf := Function.update p.tcpOutputBuf p.tmp b } bs
    else .error .indexOutOfBounds

/-- One pass of the loop: the frame goes behind what earlier passes staged, and what is sent is
    the text at the start of the buffer. -/
def netAttempt (p : NetPut) : Except Fault (NetPut × List Byte) := do
  let (text, cksum, stop) ← sumText p.output
  let p ← p.stage (chr '$' :: text ++ chr '#' :: checksumDigits cksum ++ [0])
  return ({ p with output := stop }, cstring p.tcpOutputBuf bufsize)

def netLoop (p : NetPut) : List Byte → Except Fault (List (List Byte) × Option (List Byte))
  | [] => do
    let (_, frame) ← netAttempt p
    return ([frame], none)
  | c :: received => do
    let (p, frame) ← netAttempt p
    if c = chr '+' then return ([frame], some received)
    else
      let (frames, left) ← netLoop p received
      return (frame :: frames, left)

def netPutPacket (tcpOutputBuf : Nat → Byte) (output : List Byte) :
    List Byte → Except Fault (List (List Byte) × Option (List Byte)) :=
  netLoop ⟨output, 0, tcpOutputBuf⟩

end Libgdb
