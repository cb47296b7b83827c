import Libgdb.HexText
import Libgdb.Library.GuardedRuns

/-!
tools/serial_demux/src/main.rs, from the port to GDB. One serial line carries GDB's traffic and
the target's log: frames and acknowledgements go to the virtual console, the rest is printed.
-/
namespace Libgdb
open ByteMemory GuardedRuns

/-- The variables of the thread, the bytes written to the virtual console and the characters
    printed. -/
structure Demux where
  inGdbPacket : Bool
  gdbChecksumCounter : Nat
  masterTx : List Byte
  stdout : List Char

def Demux.start : Demux := ⟨false, 0, [], []⟩

def asChar (b : Byte) : Char := Char.ofNat b.toNat

def demuxByte (d : Demux) (b : Byte) : Demux :=
  let d :=
    if b = chr '$' then { d with inGdbPacket := true }
    else if b = chr '#' ∧ d.inGdbPacket = true then
      { d with inGdbPacket := false, gdbChecksumCounter := 3 }
    else d
  if d.inGdbPacket = true ∨ 0 < d.gdbChecksumCounter ∨ b = chr '+' ∨ b = chr '-' then
    { d with
      masterTx := d.masterTx ++ [b]
      gdbChecksumCounter :=
        if 0 < d.gdbChecksumCounter then d.gdbChecksumCounter - 1 else d.gdbChecksumCounter }
  else
    { d with stdout := d.stdout ++ [asChar b] }

/- What the line carries. -/

/-- A frame, an acknowledgement, or a piece of log text. -/
inductive PortItem where
  | frame (payload : List Byte) (x y : Byte) (noHash : chr '#' ∉ payload) (hexX : IsHex x)
      (hexY : IsHex y)
  | acknowledgement (c : Byte) (sign : c = chr '+' ∨ c = chr '-')
  | log (text : List Byte) (plain : ∀ c ∈ text, c ≠ chr '$' ∧ c ≠ chr '+' ∧ c ≠ chr '-')

def PortItem.bytes : PortItem → List Byte
  | .frame payload x y _ _ _ => chr '$' :: payload ++ [chr '#', x, y]
  | .acknowledgement c _ => [c]
  | .log text _ => text

def PortItem.toGdb : PortItem → List Byte
  | .log _ _ => []
  | item => item.bytes

def PortItem.toLog : PortItem → List Char
  | .log text _ => text.map asChar
  | _ => []

def demuxItem (d : Demux) (item : PortItem) : Demux := item.bytes.foldl demuxByte d

def Demux.Idle (d : Demux) : Prop := d.inGdbPacket = false ∧ d.gdbChecksumCounter = 0

def OneSide (d : Demux) (b : Byte) (d' : Demux) : Prop :=
  d'.masterTx = d.masterTx ++ [b] ∧ d'.stdout = d.stdout ∨
  d'.masterTx = d.masterTx ∧ d'.stdout = d.stdout ++ [asChar b]

theorem demuxByte_oneSide (d : Demux) (b : Byte) : OneSide d b (demuxByte d b) := by
  unfold demuxByte
  by_cases dollar : b = chr '$'
  · rw [if_pos dollar]
    exact Or.inl ⟨rfl, rfl⟩
  · rw [if_neg dollar]
    by_cases hash : b = chr '#' ∧ d.inGdbPacket = true
    · rw [if_pos hash]
      exact Or.inl ⟨rfl, rfl⟩
    · rw [if_neg hash]
      dsimp only
      split
      · exact Or.inl ⟨rfl, rfl⟩
      · exact Or.inr ⟨rfl, rfl⟩

theorem demux_dollar (sent : List Byte) (printed : List Char) :
    demuxByte ⟨false, 0, sent, printed⟩ (chr '$') = ⟨true, 0, sent ++ [chr '$'], printed⟩ := rfl

theorem demux_payload (payload : List Byte) (noHash : chr '#' ∉ payload) (sent : List Byte)
    (printed : List Char) : payload.foldl demuxByte ⟨true, 0, sent, printed⟩ =
      ⟨true, 0, sent ++ payload, printed⟩ := by
  induction payload generalizing sent with
  | nil => simp
  | cons c payload ih =>
    rw [List.mem_cons, not_or] at noHash
    have here : demuxByte ⟨true, 0, sent, printed⟩ c = ⟨true, 0, sent ++ [c], printed⟩ := by
      simp [demuxByte, Ne.symm noHash.1]
    rw [List.foldl_cons, here, ih noHash.2, List.append_assoc]
    rfl

theorem demux_checksum {x y : Byte} (hexX : IsHex x) (hexY : IsHex y) (sent : List Byte)
    (printed : List Char) : [chr '#', x, y].foldl demuxByte ⟨true, 0, sent, printed⟩ =
      ⟨false, 0, sent ++ [chr '#', x, y], printed⟩ := by
  have hash : demuxByte ⟨true, 0, sent, printed⟩ (chr '#') =
      ⟨false, 2, sent ++ [chr '#'], printed⟩ := rfl
  have digit {c : Byte} (hex : IsHex c) (n : Nat) (sent : List Byte) :
      demuxByte ⟨false, n + 1, sent, printed⟩ c = ⟨false, n, sent ++ [c], printed⟩ := by
    have dollar : c ≠ chr '$' := isHex_ne hex (by decide)
    simp [demuxByte, dollar]
  rw [List.foldl_cons, hash, List.foldl_cons, digit hexX, List.foldl_cons, digit hexY]
  simp

theorem demux_log (text : List Byte) (plain : ∀ c ∈ text, c ≠ chr '$' ∧ c ≠ chr '+' ∧ c ≠ chr '-')
    (sent : List Byte) (printed : List Char) :
    text.foldl demuxByte ⟨false, 0, sent, printed⟩ =
    ⟨false, 0, sent, printed ++ text.map asChar⟩ := by
  induction text generalizing printed with
  | nil => simp
  | cons c text ih =>
    obtain ⟨dollar, plus, minus⟩ := plain c (by simp)
    have here : demuxByte ⟨false, 0, sent, printed⟩ c =
        ⟨false, 0, sent, printed ++ [asChar c]⟩ := by
      simp [demuxByte, dollar, plus, minus]
    rw [List.foldl_cons, here, ih (fun c mem => plain c (by simp [mem]))]
    simp

theorem demuxItem_run (item : PortItem) (sent : List Byte) (printed : List Char) :
    demuxItem ⟨false, 0, sent, printed⟩ item =
      ⟨false, 0, sent ++ item.toGdb, printed ++ item.toLog⟩ := by
  cases item with
  | frame payload x y noHash hexX hexY =>
    rw [demuxItem, PortItem.bytes, List.cons_append, List.foldl_cons, demux_dollar,
      List.foldl_append,
      demux_payload payload noHash, demux_checksum hexX hexY]
    simp [PortItem.toGdb, PortItem.toLog, PortItem.bytes]
  | acknowledgement c sign =>
    have passed : demuxByte ⟨false, 0, sent, printed⟩ c = ⟨false, 0, sent ++ [c], printed⟩ := by
      rcases sign with rfl | rfl <;> rfl
    simp [demuxItem, PortItem.bytes, PortItem.toGdb, PortItem.toLog, passed]
  | log text plain =>
    refine (demux_log text plain sent printed).trans ?_
    simp [PortItem.toGdb, PortItem.toLog]

theorem demuxItems_run (items : List PortItem) (sent : List Byte) (printed : List Char) :
    items.foldl demuxItem ⟨false, 0, sent, printed⟩ =
      ⟨false, 0, sent ++ items.flatMap PortItem.toGdb,
        printed ++ items.flatMap PortItem.toLog⟩ := by
  induction items generalizing sent printed with
  | nil => simp
  | cons item items ih =>
    rw [List.foldl_cons, demuxItem_run, ih]
    simp

theorem demux_idle_along (items : List PortItem) (sent : List Byte) (printed : List Char) :
    Along demuxItem Demux.Idle items ⟨false, 0, sent, printed⟩ := by
  induction items generalizing sent printed with
  | nil => trivial
  | cons item items ih =>
    rw [Along, demuxItem_run]
    exact ⟨⟨rfl, rfl⟩, ih _ _⟩

theorem foldl_flatMap_bytes (items : List PortItem) (d : Demux) :
    (items.flatMap PortItem.bytes).foldl demuxByte d = items.foldl demuxItem d := by
  induction items generalizing d with
  | nil => rfl
  | cons item items ih =>
    rw [List.flatMap_cons, List.foldl_append, ih]
    rfl

/-- The console gets exactly the frames and acknowledgements and the log text is printed, both in
    order; every byte goes one way, and after each item the filter is idle again. -/
theorem demux_separates (items : List PortItem) :
    (items.flatMap PortItem.bytes).foldl demuxByte .start =
        ⟨false, 0, items.flatMap PortItem.toGdb, items.flatMap PortItem.toLog⟩ ∧
      (∀ d b, OneSide d b (demuxByte d b)) ∧ Along demuxItem Demux.Idle items .start := by
  refine ⟨?_, demuxByte_oneSide, demux_idle_along items [] []⟩
  rw [foldl_flatMap_bytes, Demux.start, demuxItems_run]
  rfl

end Libgdb
