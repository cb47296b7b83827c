import Libgdb.Model.Debugger
import Libgdb.ReplyText

/-!
Sending a reply until it is acknowledged. The serial debugger builds the frame anew on every
attempt. The net debugger stages it in a buffer once: later attempts add an empty frame behind
it, which is not sent but takes up room.
-/
namespace Libgdb
open ByteMemory CheckedPrograms

def textSum (text : List Byte) : Byte := BitVec.ofNat 8 (text.map BitVec.toNat).sum

def frameOf (reply : List Byte) : List Byte :=
  chr '$' :: reply ++ chr '#' :: hexDigits [textSum reply]

theorem textSum_cons (c : Byte) (text : List Byte) : textSum (c :: text) = c + textSum text := by
  apply BitVec.eq_of_toNat_eq
  simp [textSum]

theorem frameOf_length (reply : List Byte) : (frameOf reply).length = reply.length + 4 := by
  simp [frameOf]

theorem frameOf_ne_zero {reply : List Byte} (text : 0 ∉ reply) : ∀ c ∈ frameOf reply, c ≠ 0 := by
  intro c mem nul
  subst nul
  simp only [frameOf, List.mem_append, List.mem_cons] at mem
  rcases mem with (dollar | inside) | hash | digit
  · exact absurd dollar (by decide)
  · exact text inside
  · exact absurd hash (by decide)
  · exact hexDigits_ne_zero _ _ digit rfl

theorem sumText_run {reply : List Byte} (text : 0 ∉ reply) :
    sumText (reply ++ [0]) = .ok (reply, textSum reply, [0]) := by
  induction reply with
  | nil => rfl
  | cons c reply ih =>
    rw [List.mem_cons, not_or] at text
    rw [List.cons_append, sumText, if_neg (Ne.symm text.1), ih text.2, textSum_cons]
    rfl

/- The serial debugger. -/

theorem serialAttempt_run {reply : List Byte} (text : 0 ∉ reply) :
    serialAttempt (reply ++ [0]) = .ok (frameOf reply) := by
  unfold serialAttempt
  rw [sumText_run text]
  rfl

theorem serialPutPacket_run {reply : List Byte} (text : 0 ∉ reply) (nacks rest : List Byte)
    (unacknowledged : chr '+' ∉ nacks) :
    serialPutPacket (reply ++ [0]) (nacks ++ chr '+' :: rest) =
      .ok (List.replicate (nacks.length + 1) (frameOf reply), some rest) := by
  induction nacks with
  | nil =>
    rw [List.nil_append, serialPutPacket, serialAttempt_run text]
    rfl
  | cons c nacks ih =>
    rw [List.mem_cons, not_or] at unacknowledged
    rw [List.cons_append, serialPutPacket, serialAttempt_run text, ih unacknowledged.2]
    simp only [Ne.symm unacknowledged.1, if_false]
    rfl

/- The net debugger. -/

theorem stage_run (p : NetPut) (bs : List Byte) (fits : p.tmp + bs.length ≤ bufsize) :
    p.stage bs =
    .ok { p with tmp := p.tmp + bs.length, tcpOutputBuf := layText p.tcpOutputBuf p.tmp bs } := by
  induction bs generalizing p with
  | nil => simp [NetPut.stage, layText_nil]
  | cons b bs ih =>
    rw [List.length_cons] at fits
    rw [NetPut.stage, if_pos (by omega), ih _ (by dsimp only; omega)]
    have text := @layText_append p.tcpOutputBuf p.tmp _ [b] bs rfl
    rw [layText_single] at text
    refine congrArg Except.ok ?_
    rw [NetPut.mk.injEq]
    exact ⟨rfl, by dsimp only [List.length_cons]; omega, text⟩

theorem stage_overflow (p : NetPut) (bs : List Byte) (low : p.tmp ≤ bufsize)
    (past : bufsize < p.tmp + bs.length) : p.stage bs = .error .indexOutOfBounds := by
  induction bs generalizing p with
  | nil => rw [List.length_nil] at past; omega
  | cons b bs ih =>
    rw [List.length_cons] at past
    rw [NetPut.stage]
    split
    · exact ih _ (by dsimp only; omega) (by dsimp only; omega)
    · rfl

/-- The buffer starts with the frame and its NUL, and the reply has been read to its end. -/
structure Staged (p : NetPut) (frame : List Byte) : Prop where
  output : p.output = [0]
  behind : frame.length < p.tmp
  inside : p.tmp ≤ bufsize
  text : ∀ k < frame.length, p.tcpOutputBuf k = frame.getD k 0
  ends : p.tcpOutputBuf frame.length = 0

def emptyFrame : List Byte := frameOf [] ++ [0]

theorem Staged.sent {p : NetPut} {frame : List Byte} (staged : Staged p frame)
    (nonzero : ∀ c ∈ frame, c ≠ 0) : cstring p.tcpOutputBuf bufsize = frame := by
  have inside := staged.inside
  have behind := staged.behind
  exact cstring_text _ _ _ nonzero (by omega) staged.text staged.ends

theorem Staged.again {p : NetPut} {frame : List Byte} (staged : Staged p frame)
    (nonzero : ∀ c ∈ frame, c ≠ 0) (fits : p.tmp + 5 ≤ bufsize) :
    ∃ p', netAttempt p = .ok (p', frame) ∧ Staged p' frame ∧ p'.tmp = p.tmp + 5 := by
  have room : p.tmp + emptyFrame.length ≤ bufsize := fits
  let p' : NetPut := ⟨[0], p.tmp + 5, layText p.tcpOutputBuf p.tmp emptyFrame⟩
  have behind := staged.behind
  have kept {k : Nat} (le : k ≤ frame.length) : p'.tcpOutputBuf k = p.tcpOutputBuf k :=
    if_neg (by omega)
  have next : Staged p' frame := {
    output := rfl
    behind := by simp only [p']; omega
    inside := fits
    text := fun k lt => (kept (by omega)).trans (staged.text k lt)
    ends := (kept (by omega)).trans staged.ends }
  refine ⟨p', ?_, next, rfl⟩
  have stage := stage_run p emptyFrame room
  unfold netAttempt
  rw [staged.output, show sumText [0] = .ok ([], 0, [0]) from rfl]
  change (do
    let p ← p.stage emptyFrame
    return ({ p with output := [0] }, cstring p.tcpOutputBuf bufsize)) = _
  rw [stage]
  exact congrArg (fun text => Except.ok (p', text)) (next.sent nonzero)

theorem Staged.overflow {p : NetPut} {frame : List Byte} (staged : Staged p frame)
    (past : bufsize < p.tmp + 5) : netAttempt p = .error .indexOutOfBounds := by
  have stage := stage_overflow p emptyFrame staged.inside past
  unfold netAttempt
  rw [staged.output, show sumText [0] = .ok ([], 0, [0]) from rfl]
  change (do
    let p ← p.stage emptyFrame
    return ({ p with output := [0] }, cstring p.tcpOutputBuf bufsize)) = _
  rw [stage]
  rfl

theorem firstAttempt_run {reply : List Byte} (text : 0 ∉ reply) (buf : Nat → Byte)
    (fits : reply.length + 5 ≤ bufsize) :
    ∃ p, netAttempt ⟨reply ++ [0], 0, buf⟩ = .ok (p, frameOf reply) ∧ Staged p (frameOf reply) ∧
      p.tmp = reply.length + 5 := by
  have length : (frameOf reply ++ [0]).length = reply.length + 5 := by simp [frameOf_length]
  let p : NetPut := ⟨[0], reply.length + 5, layText buf 0 (frameOf reply ++ [0])⟩
  have staged : Staged p (frameOf reply) := {
    output := rfl
    behind := by simp only [frameOf_length, p]; omega
    inside := fits
    text := fun k lt => layText_zero buf (frameOf reply) 0 k lt
    ends := layText_ends buf (frameOf reply) }
  refine ⟨p, ?_, staged, rfl⟩
  have stage := stage_run ⟨reply ++ [0], 0, buf⟩ (frameOf reply ++ [0]) (by dsimp only; omega)
  unfold netAttempt
  rw [sumText_run text]
  change (do
    let p ← NetPut.stage ⟨reply ++ [0], 0, buf⟩ (frameOf reply ++ [0])
    return ({ p with output := [0] }, cstring p.tcpOutputBuf bufsize)) = _
  rw [stage, length, Nat.zero_add]
  exact congrArg (fun text => Except.ok (p, text)) (staged.sent (frameOf_ne_zero text))

theorem firstAttempt_overflow {reply : List Byte} (text : 0 ∉ reply) (buf : Nat → Byte)
    (past : bufsize < reply.length + 5) :
    netAttempt ⟨reply ++ [0], 0, buf⟩ = .error .indexOutOfBounds := by
  have length : (frameOf reply ++ [0]).length = reply.length + 5 := by simp [frameOf_length]
  have stage := stage_overflow ⟨reply ++ [0], 0, buf⟩ (frameOf reply ++ [0]) (by dsimp only; omega)
    (by dsimp only; omega)
  unfold netAttempt
  rw [sumText_run text]
  change (do
    let p ← NetPut.stage ⟨reply ++ [0], 0, buf⟩ (frameOf reply ++ [0])
    return ({ p with output := [0] }, cstring p.tcpOutputBuf bufsize)) = _
  rw [stage]
  rfl

theorem netLoop_acknowledged {p p' : NetPut} {frame : List Byte}
    (run : netAttempt p = .ok (p', frame))
    (rest : List Byte) : netLoop p (chr '+' :: rest) = .ok ([frame], some rest) := by
  rw [netLoop, run]
  rfl

theorem netLoop_again {p p' : NetPut} {frame : List Byte} (run : netAttempt p = .ok (p', frame))
    {c : Byte} (ne : c ≠ chr '+') (received : List Byte) :
    netLoop p (c :: received) = (do
      let (frames, left) ← netLoop p' received
      return (frame :: frames, left)) := by
  rw [netLoop, run, ok_bind]
  simp only [ne, if_false]

theorem netLoop_stopped {p : NetPut} {f : Fault} (stopped : netAttempt p = .error f) (c : Byte)
    (received : List Byte) : netLoop p (c :: received) = .error f := by
  rw [netLoop, stopped]
  rfl

/-- Every attempt takes five more bytes of the buffer. -/
theorem netLoop_iff {p : NetPut} {frame : List Byte} (staged : Staged p frame)
    (nonzero : ∀ c ∈ frame, c ≠ 0) (nacks rest : List Byte) (unacknowledged : chr '+' ∉ nacks) :
    netLoop p (nacks ++ chr '+' :: rest) =
        .ok (List.replicate (nacks.length + 1) frame, some rest) ↔
      p.tmp + 5 * (nacks.length + 1) ≤ bufsize := by
  induction nacks generalizing p with
  | nil =>
    by_cases fits : p.tmp + 5 ≤ bufsize
    · obtain ⟨p', run, _⟩ := staged.again nonzero fits
      exact iff_of_true (netLoop_acknowledged run rest) fits
    · refine iff_of_false (fun now => ?_) fits
      rw [List.nil_append, netLoop_stopped (staged.overflow (by omega))] at now
      cases now
  | cons c nacks ih =>
    rw [List.mem_cons, not_or] at unacknowledged
    by_cases fits : p.tmp + 5 ≤ bufsize
    · obtain ⟨p', run, staged', tmp⟩ := staged.again nonzero fits
      have rest' := ih staged' unacknowledged.2
      rw [List.cons_append, netLoop_again run (Ne.symm unacknowledged.1), List.length_cons]
      have sum : p.tmp + 5 * (nacks.length + 1 + 1) = p'.tmp + 5 * (nacks.length + 1) := by omega
      rw [sum, ← rest']
      cases netLoop p' (nacks ++ chr '+' :: rest) with
      | error f => exact iff_of_false (fun now => by cases now) fun now => by cases now
      | ok result =>
        obtain ⟨frames, left⟩ := result
        rw [ok_bind]
        simp [pure, Except.pure, List.replicate_succ]
    · refine iff_of_false (fun now => ?_) (by rw [List.length_cons]; omega)
      rw [List.cons_append, netLoop_stopped (staged.overflow (by omega))] at now
      cases now

/- Both. -/

/-- The frame is sent once for each byte received up to the acknowledgement, and the call
    returns then. -/
def Retransmits (put : List Byte → List Byte → Except Fault (List (List Byte) × Option (List Byte)))
    (reply nacks rest : List Byte) : Prop :=
  put (reply ++ [0]) (nacks ++ chr '+' :: rest) =
    .ok (List.replicate (nacks.length + 1) (frameOf reply), some rest)

theorem netPutPacket_iff {reply : List Byte} (text : 0 ∉ reply) (buf : Nat → Byte)
    (nacks rest : List Byte) (unacknowledged : chr '+' ∉ nacks) :
    Retransmits (netPutPacket buf) reply nacks rest ↔
    reply.length + 5 * (nacks.length + 1) ≤ bufsize := by
  unfold Retransmits netPutPacket
  by_cases fits : reply.length + 5 ≤ bufsize
  · obtain ⟨p, run, staged, tmp⟩ := firstAttempt_run text buf fits
    cases nacks with
    | nil => exact iff_of_true (netLoop_acknowledged run rest) fits
    | cons c nacks =>
      rw [List.mem_cons, not_or] at unacknowledged
      have later := netLoop_iff staged (frameOf_ne_zero text) nacks rest unacknowledged.2
      rw [List.cons_append, netLoop_again run (Ne.symm unacknowledged.1), List.length_cons]
      have sum : reply.length + 5 * (nacks.length + 1 + 1) = p.tmp + 5 * (nacks.length + 1) := by
        omega
      rw [sum, ← later]
      cases netLoop p (nacks ++ chr '+' :: rest) with
      | error f => exact iff_of_false (fun now => by cases now) fun now => by cases now
      | ok result =>
        obtain ⟨frames, left⟩ := result
        rw [ok_bind]
        simp [pure, Except.pure, List.replicate_succ]
  · refine iff_of_false (fun now => ?_) (by omega)
    have stopped := firstAttempt_overflow text buf (by omega)
    cases nacks with
    | nil =>
      rw [List.nil_append, netLoop_stopped stopped] at now
      cases now
    | cons c nacks =>
      rw [List.cons_append, netLoop_stopped stopped] at now
      cases now

/-- Both debuggers repeat the same frame until it is acknowledged exactly when the frame, and an
    empty one for each further attempt, fit the net debugger's buffer. -/
theorem put_packet_retransmits_iff {reply nacks : List Byte} (text : 0 ∉ reply)
    (unacknowledged : chr '+' ∉ nacks) (buf : Nat → Byte) (rest : List Byte) :
    (Retransmits serialPutPacket reply nacks rest ∧
      Retransmits (netPutPacket buf) reply nacks rest) ↔
      reply.length + 5 * (nacks.length + 1) ≤ bufsize := by
  rw [netPutPacket_iff text buf nacks rest unacknowledged]
  exact and_iff_right (serialPutPacket_run text nacks rest unacknowledged)

theorem ok_retransmitted : Retransmits serialPutPacket (str "OK") [chr '-'] [] ∧
    Retransmits (netPutPacket fun _ => 0) (str "OK") [chr '-'] [] :=
  (put_packet_retransmits_iff (by decide) (by decide) _ []).mpr (by decide)

/-- A reply of the largest size overruns the net debugger's buffer at once. -/
theorem full_reply_not_retransmitted : ¬ ∀ (reply nacks rest : List Byte) (buf : Nat → Byte),
    0 ∉ reply → reply.length ≤ bufsize - 1 → chr '+' ∉ nacks →
    Retransmits serialPutPacket reply nacks rest ∧ Retransmits
    (netPutPacket buf) reply nacks rest := by
  intro all
  have absent : (0 : Byte) ∉ List.replicate 2047 (chr 'a') := by
    intro mem
    exact absurd (List.eq_of_mem_replicate mem) (by decide)
  have length : (List.replicate 2047 (chr 'a')).length = 2047 := List.length_replicate
  have sent := (all (List.replicate 2047 (chr 'a')) [] []
      (fun _ => 0) absent (by rw [length]; decide)
    (by decide)).2
  rw [netPutPacket_iff absent _ _ _ (by decide), length] at sent
  exact absurd sent (by decide)

end Libgdb
