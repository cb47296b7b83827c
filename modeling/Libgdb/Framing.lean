import Libgdb.Library.GuardedRuns
import Libgdb.Retransmission

/-!
Receiving frames. What the host sends is read off its byte stream as interrupts and frames, and
`get_packet` is compared with it: it accepts some checksums that are no digits, and it looks for
a sequence id in a byte that a short payload leaves as an earlier packet had it.
-/
namespace Libgdb
open ByteMemory CheckedPrograms GuardedRuns

/- The stream as frames. -/

/-- Where a byte stands: outside of frames, after `$` and the text since, or among the checksum
    digits. -/
inductive Scan where
  | outside
  | inside (payload : List Byte)
  | firstDigit (payload : List Byte)
  | secondDigit (payload : List Byte) (x : Byte)

inductive HostItem where
  | interrupt
  | frame (payload : List Byte) (x y : Byte)

def scanByte : Scan → Byte → Scan × Option HostItem
  | .outside, c =>
    if c = chr '$' then (.inside [], none)
    else if c = 3 then (.outside, some .interrupt)
    else (.outside, none)
  | .inside payload, c =>
    if c = chr '$' then (.inside [], none)
    else if c = chr '#' then (.firstDigit payload, none)
    else (.inside (payload ++ [c]), none)
  | .firstDigit payload, x => (.secondDigit payload x, none)
  | .secondDigit payload x, y => (.outside, some (.frame payload x y))

structure ValidChecksum (payload : List Byte) (x y : Byte) : Prop where
  first : IsHex x
  second : IsHex y
  denotes : hexNumber [x, y] = (textSum payload).toNat

instance (payload : List Byte) (x y : Byte) : Decidable (ValidChecksum payload x y) :=
  decidable_of_iff (IsHex x ∧ IsHex y ∧ hexNumber [x, y] = (textSum payload).toNat)
    ⟨fun ⟨first, second, denotes⟩ => ⟨first, second, denotes⟩,
      fun valid => ⟨valid.first, valid.second, valid.denotes⟩⟩

def HasId (payload : List Byte) : Prop := 2 < payload.length ∧ payload.getD 2 0 = chr ':'

instance (payload : List Byte) : Decidable (HasId payload) := inferInstanceAs (Decidable (_ ∧ _))

def withoutId (payload : List Byte) : List Byte :=
  if HasId payload then payload.drop 3 else payload

def HostItem.packet : HostItem → Option (List Byte)
  | .interrupt => some [3]
  | .frame payload x y => if ValidChecksum payload x y then some (withoutId payload) else none

def HostItem.answer : HostItem → List Byte
  | .interrupt => []
  | .frame payload x y => if ValidChecksum payload x y then [chr '+'] else [chr '-']

/- Both side by side. -/

/-- The receiver and the reading of the stream, with what was returned and answered so far and
    what should have been. Of what is sent after `+`, the sequence id, nothing is asked. -/
structure Exchange where
  receiver : Receiver
  scan : Scan
  returned : List (List Byte)
  answers : List Byte
  packets : List (List Byte)
  dueAnswers : List Byte

def Exchange.start (buf : Nat → Byte) : Exchange := ⟨⟨.start, buf⟩, .outside, [], [], [], []⟩

def exchangeByte (w : Exchange) (c : Byte) : Exchange :=
  let step := serialGetPacketByte w.receiver c
  let (scan, item) := scanByte w.scan c
  { receiver := step.next
    scan := scan
    returned := w.returned ++ step.returned.toList
    answers := w.answers ++ step.sent.take 1
    packets := w.packets ++ (item.bind HostItem.packet).toList
    dueAnswers := w.dueAnswers ++ (item.map HostItem.answer).getD [] }

/-- Exactly the packets of the stream were returned, and every frame was answered. -/
def FramesSound (w : Exchange) : Prop := w.returned = w.packets ∧ w.answers = w.dueAnswers

def Short (w : Exchange) (c : Byte) : Prop :=
  ∀ payload, w.scan = .inside payload → c ≠ chr '$' → c ≠ chr '#' → payload.length + 1 ≤ bufsize - 2

/-- A payload of fewer than two characters leaves `buf[2]` as it was, and with the colon of an
    earlier packet there the text behind it is taken for the payload. -/
def StaleId (buf : Nat → Byte) (payload : List Byte) : Prop := payload.length < 2 ∧ buf 2 = chr ':'

/-- The text behind it happens to be the payload. -/
def Coincides (buf : Nat → Byte) (payload : List Byte) : Prop := textAt buf 3 = payload

/-- If the byte ends a frame: a checksum that is no pair of digits does not pass for one, the text
    has no NUL, and no stale id passes for one of its own. -/
def FrameReads (w : Exchange) (y : Byte) : Prop :=
  ∀ payload x, w.scan = .secondDigit payload x →
    (hexPair x y = textSum payload → IsHex x ∧ IsHex y) ∧
    (ValidChecksum payload x y → 0 ∉ withoutId payload ∧
      (StaleId w.receiver.buf payload → Coincides w.receiver.buf payload))

/- Texts in the buffer. -/

theorem cstring_ne_zero (s : Nat → Byte) (max : Nat) : 0 ∉ cstring s max := by
  induction max generalizing s with
  | zero => simp [cstring]
  | succ max ih =>
    rw [cstring]
    split
    · simp
    · rename_i nonzero
      rw [List.mem_cons, not_or]
      exact ⟨Ne.symm nonzero, ih _⟩

structure HoldsText (buf : Nat → Byte) (payload : List Byte) : Prop where
  fits : payload.length < bufsize - 1
  text : ∀ k < payload.length, buf k = payload.getD k 0
  ends : buf payload.length = 0

theorem textAt_iff {buf : Nat → Byte} {payload : List Byte} (holds : HoldsText buf payload)
    {k : Nat} (le : k ≤ payload.length) : textAt buf k = payload.drop k ↔ 0 ∉ payload.drop k := by
  constructor
  · intro same
    rw [← same]
    exact cstring_ne_zero _ _
  · intro text
    have fits := holds.fits
    refine cstring_text _ _ _ (fun c mem => ?_) (by rw [List.length_drop]; omega)
      (fun j lt => ?_) ?_
    · rintro rfl
      exact text mem
    · rw [List.length_drop] at lt
      rw [holds.text (k + j) (by omega)]
      simp [List.getD_eq_getElem?_getD]
    · rw [List.length_drop, show k + (payload.length - k) = payload.length by omega, holds.ends]

theorem textSum_append (payload : List Byte) (c : Byte) :
    textSum (payload ++ [c]) = textSum payload + c := by
  apply BitVec.eq_of_toNat_eq
  simp [textSum]

theorem validChecksum_iff (payload : List Byte) (x y : Byte) :
    ValidChecksum payload x y ↔ (IsHex x ∧ IsHex y) ∧ hexPair x y = textSum payload := by
  constructor
  · rintro ⟨first, second, denotes⟩
    exact ⟨⟨first, second⟩, BitVec.eq_of_toNat_eq (by rw [hexPair_toNat first second, denotes])⟩
  · rintro ⟨⟨first, second⟩, same⟩
    exact ⟨first, second, by rw [← hexPair_toNat first second, same]⟩

/- One byte. -/

inductive Tracks : Scan → Receiver → Prop where
  | outside (buf : Nat → Byte) : Tracks .outside ⟨.start, buf⟩
  | inside {payload : List Byte} {buf : Nat → Byte} {count : Fin (bufsize - 1)}
      (length : count.val = payload.length)
      (text : ∀ k < payload.length, buf k = payload.getD k 0) :
      Tracks (.inside payload) ⟨.data (textSum payload) count, buf⟩
  | firstDigit {payload : List Byte} {buf : Nat → Byte} (holds : HoldsText buf payload) :
      Tracks (.firstDigit payload) ⟨.highDigit (textSum payload), buf⟩
  | secondDigit {payload : List Byte} {buf : Nat → Byte} (x : Byte)
      (holds : HoldsText buf payload) :
      Tracks (.secondDigit payload x)
        ⟨.lowDigit (textSum payload) (BitVec.ofInt 8 (hexcharToInt x * 16)), buf⟩

theorem tracks_opened (buf : Nat → Byte) :
    Tracks (.inside []) ⟨.data 0 ⟨0, by decide⟩, buf⟩ :=
  @Tracks.inside [] buf ⟨0, by decide⟩ rfl fun k lt => absurd lt (Nat.not_lt_zero k)

theorem tracks_step {w : Exchange} (tracks : Tracks w.scan w.receiver) {c : Byte}
    (short : Short w c) :
    Tracks (exchangeByte w c).scan (exchangeByte w c).receiver := by
  obtain ⟨receiver, scan, returned, answers, packets, dueAnswers⟩ := w
  dsimp only at tracks
  change Tracks (scanByte scan c).1 (serialGetPacketByte receiver c).next
  cases tracks with
  | outside buf =>
    simp only [scanByte, serialGetPacketByte, getPacketByte]
    by_cases dollar : c = chr '$'
    · rw [if_pos dollar, if_pos dollar]
      exact tracks_opened buf
    · rw [if_neg dollar, if_neg dollar]
      by_cases interrupt : c = 3
      · rw [if_pos interrupt, if_pos interrupt]
        exact .outside _
      · rw [if_neg interrupt, if_neg interrupt]
        exact .outside _
  | @inside payload buf count length text =>
    simp only [scanByte, serialGetPacketByte, getPacketByte]
    by_cases dollar : c = chr '$'
    · rw [if_pos dollar, if_pos dollar]
      exact tracks_opened buf
    · rw [if_neg dollar, if_neg dollar]
      by_cases hash : c = chr '#'
      · rw [if_pos hash, if_pos hash]
        refine .firstDigit ⟨length ▸ count.isLt, fun k lt => ?_, ?_⟩
        · rw [Function.update_of_ne (by omega), text k lt]
        · rw [length, Function.update_self]
      · rw [if_neg hash, if_neg hash]
        have room := short payload rfl dollar hash
        rw [dif_pos (show count.val + 1 < bufsize - 1 by omega), ← textSum_append]
        refine .inside (by simp [length]) fun k lt => ?_
        rw [List.length_append, List.length_singleton] at lt
        by_cases last : k = payload.length
        · subst last
          rw [length, Function.update_self]
          simp
        · rw [Function.update_of_ne (by omega), text k (by omega),
            List.getD_append _ _ _ _ (by omega)]
  | firstDigit holds => exact .secondDigit c holds
  | secondDigit x holds =>
    simp only [scanByte, serialGetPacketByte, getPacketByte]
    split
    · exact .outside _
    · split
      · exact .outside _
      · exact .outside _

theorem accepted_text_iff {buf : Nat → Byte} {payload : List Byte} (holds : HoldsText buf payload) :
    (if buf 2 = chr ':' then textAt buf 3 else textAt buf 0) = withoutId payload ↔
      0 ∉ withoutId payload ∧ (StaleId buf payload → Coincides buf payload) := by
  by_cases long : 2 < payload.length
  · have third : buf 2 = payload.getD 2 0 := holds.text 2 long
    rw [and_iff_left fun stale : StaleId buf payload => absurd stale.1 (by omega), withoutId]
    by_cases colon : payload.getD 2 0 = chr ':'
    · rw [if_pos (third.trans colon), if_pos ⟨long, colon⟩]
      exact textAt_iff holds long
    · rw [if_neg (third ▸ colon), if_neg fun id => colon id.2]
      exact textAt_iff holds (Nat.zero_le _)
  · have whole : withoutId payload = payload := if_neg fun id => long id.1
    have plain : textAt buf 0 = payload ↔ 0 ∉ payload := textAt_iff holds (Nat.zero_le _)
    rw [whole]
    by_cases colon : buf 2 = chr ':'
    · have short : payload.length < 2 := by
        by_contra two
        rw [show (2 : Nat) = payload.length by omega, holds.ends] at colon
        exact absurd colon (by decide)
      rw [if_pos colon]
      constructor
      · intro same
        exact ⟨by rw [← same]; exact cstring_ne_zero _ _, fun _ => same⟩
      · exact fun reads => reads.2 ⟨short, colon⟩
    · rw [if_neg colon, plain]
      exact ⟨fun text => ⟨text, fun stale => absurd stale.2 colon⟩, And.left⟩

/-- One byte keeps the agreement exactly when a frame that it ends reads well. -/
theorem exchange_sound_iff {w : Exchange} (tracks : Tracks w.scan w.receiver)
    (sound : FramesSound w) (c : Byte) : FramesSound (exchangeByte w c) ↔ FrameReads w c := by
  obtain ⟨receiver, scan, returned, answers, packets, dueAnswers⟩ := w
  obtain ⟨same, sameAnswers⟩ := sound
  dsimp only at tracks same sameAnswers
  subst same sameAnswers
  have step : FramesSound (exchangeByte ⟨receiver, scan, returned, answers, returned, answers⟩ c) ↔
      (serialGetPacketByte receiver c).returned.toList =
          ((scanByte scan c).2.bind HostItem.packet).toList ∧
        (serialGetPacketByte receiver c).sent.take 1 =
          ((scanByte scan c).2.map HostItem.answer).getD [] := by
    simp only [FramesSound, exchangeByte, List.append_cancel_left_eq]
  rw [step]
  cases tracks with
  | outside buf =>
    refine iff_of_true ?_ fun payload x now => by cases now
    simp only [scanByte, serialGetPacketByte, getPacketByte]
    by_cases dollar : c = chr '$'
    · simp [dollar]
    · by_cases interrupt : c = 3
      · subst interrupt
        rw [if_neg dollar, if_neg dollar]
        exact ⟨rfl, rfl⟩
      · rw [if_neg dollar, if_neg dollar, if_neg interrupt, if_neg interrupt]
        exact ⟨rfl, rfl⟩
  | @inside payload buf count length text =>
    refine iff_of_true ?_ fun payload x now => by cases now
    simp only [scanByte, serialGetPacketByte, getPacketByte]
    by_cases dollar : c = chr '$'
    · simp [dollar]
    · by_cases hash : c = chr '#'
      · rw [if_neg dollar, if_neg dollar, if_pos hash, if_pos hash]
        exact ⟨rfl, rfl⟩
      · rw [if_neg dollar, if_neg dollar, if_neg hash, if_neg hash]
        split
        · exact ⟨rfl, rfl⟩
        · exact ⟨rfl, rfl⟩
  | firstDigit holds => exact iff_of_true ⟨rfl, rfl⟩ fun payload x now => by cases now
  | @secondDigit payload buf x holds =>
    have only : FrameReads ⟨⟨.lowDigit (textSum payload) (BitVec.ofInt 8 (hexcharToInt x * 16)),
        buf⟩,
        .secondDigit payload x, returned, answers, returned, answers⟩ c ↔
        (hexPair x c = textSum payload → IsHex x ∧ IsHex c) ∧
        (ValidChecksum payload x c → 0 ∉ withoutId payload ∧
          (StaleId buf payload → Coincides buf payload)) := by
      constructor
      · exact fun reads => reads payload x rfl
      · rintro reads _ _ ⟨⟩
        exact reads
    rw [only]
    simp only [scanByte, serialGetPacketByte, getPacketByte]
    rw [show BitVec.ofInt 8 (hexcharToInt x * 16) + BitVec.ofInt 8 (hexcharToInt c) =
      hexPair x c from rfl]
    by_cases passes : hexPair x c = textSum payload
    · rw [if_neg (not_not.mpr passes.symm)]
      by_cases digits : IsHex x ∧ IsHex c
      · have valid : ValidChecksum payload x c :=
          (validChecksum_iff payload x c).mpr ⟨digits, passes⟩
        rw [and_iff_right fun _ => digits, imp_iff_right valid, ← accepted_text_iff holds]
        simp only [Option.bind_some, Option.map_some, Option.getD_some, HostItem.packet,
          HostItem.answer,
          if_pos valid]
        by_cases colon : buf 2 = chr ':'
        · rw [if_pos colon, if_pos colon]
          simp
        · rw [if_neg colon, if_neg colon]
          simp
      · have invalid : ¬ ValidChecksum payload x c := fun valid =>
          digits ((validChecksum_iff payload x c).mp valid).1
        refine iff_of_false (fun now => ?_) fun reads => digits (reads.1 passes)
        simp only [Option.bind_some, HostItem.packet, if_neg invalid] at now
        have returns := now.1
        split at returns <;> cases returns
    · have invalid : ¬ ValidChecksum payload x c := fun valid =>
        passes ((validChecksum_iff payload x c).mp valid).2
      rw [if_pos (Ne.symm passes)]
      refine iff_of_true ?_ ⟨fun now => absurd now passes, fun valid => absurd valid invalid⟩
      simp [HostItem.packet, HostItem.answer, invalid]

/-- On a stream whose payloads are short enough, the calls return its packets in order and answer
    every frame exactly when every frame reads well. -/
theorem framing_sound_iff (buf : Nat → Byte) (bytes : List Byte)
    (short : Guarded exchangeByte Short bytes (.start buf)) :
    Along exchangeByte FramesSound bytes (.start buf) ↔ Guarded exchangeByte FrameReads bytes
    (.start buf) :=
  along_iff_guarded (fun w => Tracks w.scan w.receiver) Short (fun _ _ tracks short =>
    tracks_step tracks short)
    (fun _ c tracks _ sound => exchange_sound_iff tracks sound c) bytes _ (.outside buf)
      ⟨rfl, rfl⟩ short

theorem short_of_length (bytes : List Byte) (w : Exchange) (n : Nat)
    (bound : ∀ payload, w.scan = .inside payload → payload.length ≤ n)
    (fits : n + bytes.length ≤ bufsize - 2) :
    Guarded exchangeByte Short bytes w := by
  induction bytes generalizing w n with
  | nil => trivial
  | cons c bytes ih =>
    rw [List.length_cons] at fits
    refine ⟨fun payload inside _ _ => ?_, ih (exchangeByte w c) (n + 1)
      (fun payload inside => ?_) (by omega)⟩
    · have := bound payload inside
      omega
    · change (scanByte w.scan c).1 = .inside payload at inside
      cases scan : w.scan with
      | outside =>
        simp only [scan, scanByte] at inside
        split at inside
        · cases inside
          exact Nat.zero_le _
        · split at inside <;> cases inside
      | inside before =>
        simp only [scan, scanByte] at inside
        split at inside
        · cases inside
          exact Nat.zero_le _
        · split at inside
          · cases inside
          · cases inside
            have := bound before scan
            simpa using this
      | firstDigit before =>
        rw [scan] at inside
        cases inside
      | secondDigit before x =>
        rw [scan] at inside
        cases inside

theorem start_short (buf : Nat → Byte) {bytes : List Byte} (fits : bytes.length ≤ bufsize - 2) :
    Guarded exchangeByte Short bytes (.start buf) :=
  short_of_length bytes _ 0 (fun _ inside => by cases inside) (by omega)

theorem ok_frame_sound : Along exchangeByte FramesSound (str "$OK#9a") (.start fun _ => 0) := by
  refine (framing_sound_iff (fun _ => 0) (str "$OK#9a") (start_short _ (by decide))).mpr ?_
  refine ⟨?_, ?_, ?_, ?_, ?_, ?last, trivial⟩
  case last =>
    rintro payload x ⟨⟩
    exact ⟨fun _ => by decide, fun _ => ⟨by decide, fun stale => absurd stale.1 (by decide)⟩⟩
  all_goals
    intro payload x now
    cases now

/-- After the packet `xy:z` the payload `?` is read as `z`. -/
theorem short_payload_misread : ¬ ∀ (buf : Nat → Byte) (bytes : List Byte),
    Guarded exchangeByte Short bytes (.start buf) → Along exchangeByte FramesSound bytes
    (.start buf) := by
  intro all
  let bytes := str "$xy:z#a5$?#3f"
  have sound := (along_prefixes FramesSound bytes _).mp
    (all (fun _ => 0) bytes (start_short _ (by decide))) bytes (by decide) List.prefix_rfl
  have returned : (bytes.foldl exchangeByte (.start fun _ => 0)).returned = [str "z", str "z"] := by
    decide +kernel
  have packets : (bytes.foldl exchangeByte (.start fun _ => 0)).packets = [str "z", str "?"] := by
    decide +kernel
  have same := returned.symm.trans (sound.1.trans packets)
  exact absurd same (by decide)

/- The two copies. -/

/-- What the copies differ in is what they send after `+` when there is a sequence id. -/
def TakesId (r : Receiver) (c : Byte) : Prop :=
  ∃ cksum xcksum, r.point = .lowDigit cksum xcksum ∧
    cksum = xcksum + BitVec.ofInt 8 (hexcharToInt c) ∧ r.buf 2 = chr ':'

theorem getPacketByte_takesId (echo : (Nat → Byte) → List Byte) {r : Receiver} {c : Byte}
    (takes : TakesId r c) :
    getPacketByte echo r c = ⟨⟨.start, r.buf⟩, chr '+' :: echo r.buf, some (textAt r.buf 3)⟩ := by
  obtain ⟨cksum, xcksum, point, sum, colon⟩ := takes
  obtain ⟨_, buf⟩ := r
  dsimp only at point colon
  subst point
  simp only [getPacketByte]
  rw [if_neg (not_not.mpr sum), if_pos colon]

theorem getPacketByte_same (echo echo' : (Nat → Byte) → List Byte) {r : Receiver} {c : Byte}
    (without : ¬ TakesId r c) : getPacketByte echo r c = getPacketByte echo' r c := by
  obtain ⟨point, buf⟩ := r
  cases point with
  | lowDigit cksum xcksum =>
    simp only [getPacketByte]
    by_cases sum : cksum = xcksum + BitVec.ofInt 8 (hexcharToInt c)
    · have plain : ¬ buf 2 = chr ':' := fun colon => without ⟨cksum, xcksum, rfl, sum, colon⟩
      rw [if_neg plain, if_neg plain]
    · rw [if_pos sum, if_pos sum]
  | _ => rfl

theorem getPacketByte_next (echo echo' : (Nat → Byte) → List Byte) (r : Receiver) (c : Byte) :
    (getPacketByte echo r c).next = (getPacketByte echo' r c).next ∧
      (getPacketByte echo r c).returned = (getPacketByte echo' r c).returned := by
  by_cases takes : TakesId r c
  · rw [getPacketByte_takesId echo takes, getPacketByte_takesId echo' takes]
    exact ⟨rfl, rfl⟩
  · rw [getPacketByte_same echo echo' takes]
    exact ⟨rfl, rfl⟩

def serialNext (r : Receiver) (c : Byte) : Receiver := (serialGetPacketByte r c).next

/-- The first three characters are all colons, so that any two neighbours are the same. -/
def EchoesAlike (r : Receiver) (c : Byte) : Prop :=
  TakesId r c → r.buf 0 = chr ':' ∧ r.buf 1 = chr ':'

theorem sent_iff (r : Receiver) (c : Byte) :
    (serialGetPacketByte r c).sent = (netGetPacketByte r c).sent ↔ EchoesAlike r c := by
  by_cases takes : TakesId r c
  · have colon : r.buf 2 = chr ':' := takes.choose_spec.choose_spec.2.2
    rw [serialGetPacketByte, netGetPacketByte, getPacketByte_takesId serialEcho takes,
      getPacketByte_takesId netEcho takes, EchoesAlike, imp_iff_right takes]
    simp only [serialEcho, netEcho, List.cons.injEq, and_true, true_and, colon]
    constructor
    · rintro ⟨first, second⟩
      exact ⟨first.trans second, second⟩
    · rintro ⟨first, second⟩
      exact ⟨first.trans second.symm, second⟩
  · rw [serialGetPacketByte, netGetPacketByte, getPacketByte_same serialEcho netEcho takes]
    exact iff_of_true rfl fun now => absurd now takes

theorem sent_length (r : Receiver) (c : Byte) :
    (serialGetPacketByte r c).sent.length = (netGetPacketByte r c).sent.length := by
  by_cases takes : TakesId r c
  · rw [serialGetPacketByte, netGetPacketByte, getPacketByte_takesId serialEcho takes,
      getPacketByte_takesId netEcho takes]
    rfl
  · rw [serialGetPacketByte, netGetPacketByte, getPacketByte_same serialEcho netEcho takes]

theorem returned_same (r : Receiver) (bytes : List Byte) :
    returnedOn serialGetPacketByte r bytes = returnedOn netGetPacketByte r bytes := by
  induction bytes generalizing r with
  | nil => rfl
  | cons c bytes ih =>
    obtain ⟨next, returned⟩ := getPacketByte_next serialEcho netEcho r c
    rw [returnedOn, returnedOn, ih]
    rw [show (serialGetPacketByte r c).next = (netGetPacketByte r c).next from next,
      show (serialGetPacketByte r c).returned = (netGetPacketByte r c).returned from returned]

/-- From equal buffers both copies return the same packets, and send the same bytes exactly when
    every sequence id that is echoed, and the colon behind it, are colons. -/
theorem same_protocol_iff (r : Receiver) (bytes : List Byte) :
    (returnedOn serialGetPacketByte r bytes = returnedOn netGetPacketByte r bytes ∧
      sentOn serialGetPacketByte r bytes = sentOn netGetPacketByte r bytes) ↔
    Guarded serialNext EchoesAlike bytes r := by
  rw [and_iff_right (returned_same r bytes)]
  induction bytes generalizing r with
  | nil => exact iff_of_true rfl trivial
  | cons c bytes ih =>
    have next : (netGetPacketByte r c).next = serialNext r c :=
      (getPacketByte_next netEcho serialEcho r c).1
    rw [sentOn, sentOn, next, Guarded, ← sent_iff, ← ih]
    constructor
    · exact fun same => List.append_inj same (sent_length r c)
    · rintro ⟨here, later⟩
      rw [here]
      exact congrArg _ later

/-- The packet `xy:z`: the serial debugger echoes `xy`, the net debugger `y:`. -/
theorem sequence_id_echoed_differently : ¬ ∀ (r : Receiver) (bytes : List Byte),
    returnedOn serialGetPacketByte r bytes = returnedOn netGetPacketByte r bytes ∧
      sentOn serialGetPacketByte r bytes = sentOn netGetPacketByte r bytes := by
  intro all
  have same := (all ⟨.start, fun _ => 0⟩ (str "$xy:z#a5")).2
  have serial : sentOn serialGetPacketByte ⟨.start, fun _ => 0⟩ (str "$xy:z#a5") = str "+xy" := by
    decide +kernel
  have net : sentOn netGetPacketByte ⟨.start, fun _ => 0⟩ (str "$xy:z#a5") = str "+y:" := by
    decide +kernel
  exact absurd (serial.symm.trans (same.trans net)) (by decide)

/- One frame that arrives while a start character is awaited. -/

def ReceivedInFull (get : Receiver → Byte → GetStep) (buf : Nat → Byte)
    (payload : List Byte) (x y : Byte) : Prop :=
  (sentOn get ⟨.start, buf⟩ (chr '$' :: payload ++ [chr '#', x, y])).head? = some (chr '+') ∧
    returnedOn get ⟨.start, buf⟩ (chr '$' :: payload ++ [chr '#', x, y]) = [payload]

/-- The payload leaves room for its NUL and for the `#` that the loop has to see, it has neither
    a NUL nor a sequence id, and nothing that an earlier packet left passes for one. -/
structure FitsBuffer (buf : Nat → Byte) (payload : List Byte) : Prop where
  length : payload.length ≤ bufsize - 2
  text : 0 ∉ payload
  plain : ¬ HasId payload
  fresh : StaleId buf payload → Coincides buf payload

section
variable (echo : (Nat → Byte) → List Byte)

theorem sentOn_append (get : Receiver → Byte → GetStep) (r : Receiver) (a b : List Byte) :
    sentOn get r (a ++ b) = sentOn get r a ++ sentOn get (afterStream get r a) b := by
  induction a generalizing r with
  | nil => rfl
  | cons c a ih => rw [List.cons_append, sentOn, sentOn, afterStream, ih, List.append_assoc]

theorem returnedOn_append (get : Receiver → Byte → GetStep) (r : Receiver) (a b : List Byte) :
    returnedOn get r (a ++ b) = returnedOn get r a ++ returnedOn get (afterStream get r a) b := by
  induction a generalizing r with
  | nil => rfl
  | cons c a ih => rw [List.cons_append, returnedOn, returnedOn, afterStream, ih, List.append_assoc]

theorem start_quiet (bytes : List Byte) (noDollar : chr '$' ∉ bytes) (buf : Nat → Byte) :
    ∃ buf', afterStream (getPacketByte echo) ⟨.start, buf⟩ bytes = ⟨.start, buf'⟩ ∧
      sentOn (getPacketByte echo) ⟨.start, buf⟩ bytes = [] := by
  induction bytes generalizing buf with
  | nil => exact ⟨buf, rfl, rfl⟩
  | cons c bytes ih =>
    rw [List.mem_cons, not_or] at noDollar
    rw [afterStream, sentOn]
    simp only [getPacketByte]
    rw [if_neg (Ne.symm noDollar.1)]
    by_cases interrupt : c = 3
    · rw [if_pos interrupt]
      exact ih noDollar.2 _
    · rw [if_neg interrupt]
      exact ih noDollar.2 _

theorem data_run (payload : List Byte) (noDollar : chr '$' ∉ payload) (noHash : chr '#' ∉ payload)
    (cksum : Byte) (count : Fin (bufsize - 1)) (buf : Nat → Byte)
    (fits : count.val + payload.length < bufsize - 1) :
    afterStream (getPacketByte echo) ⟨.data cksum count, buf⟩ payload =
        ⟨.data (cksum + textSum payload) ⟨count.val + payload.length, fits⟩,
          layText buf count payload⟩ ∧
      sentOn (getPacketByte echo) ⟨.data cksum count, buf⟩ payload = [] ∧
      returnedOn (getPacketByte echo) ⟨.data cksum count, buf⟩ payload = [] := by
  induction payload generalizing cksum count buf with
  | nil =>
    refine ⟨?_, rfl, rfl⟩
    rw [layText_nil]
    simp only [afterStream, textSum, List.map_nil, List.sum_nil, List.length_nil, Nat.add_zero]
    exact congrArg (fun sum => Receiver.mk (.data sum count) buf) (BitVec.add_zero cksum).symm
  | cons c payload ih =>
    rw [List.mem_cons, not_or] at noDollar noHash
    rw [List.length_cons] at fits
    have next : getPacketByte echo ⟨.data cksum count, buf⟩ c =
        ⟨⟨.data (cksum + c) ⟨count.val + 1, by omega⟩, Function.update buf count c⟩, [], none⟩ := by
      simp only [getPacketByte]
      rw [if_neg (Ne.symm noDollar.1), if_neg (Ne.symm noHash.1), dif_pos (by omega)]
    obtain ⟨last, sent, returned⟩ := ih noDollar.2 noHash.2 (cksum + c) ⟨count.val + 1, by omega⟩
      (Function.update buf count c) (by dsimp only; omega)
    rw [afterStream, sentOn, returnedOn, next]
    refine ⟨last.trans ?_, sent, returned⟩
    have laid := @layText_append buf count.val _ [c] payload rfl
    rw [layText_single] at laid
    rw [textSum_cons, BitVec.add_assoc]
    refine congr (congrArg Receiver.mk (congrArg _ (Fin.ext ?_))) laid
    dsimp only [List.length_cons]
    omega

theorem data_overflow (payload : List Byte) (noDollar : chr '$' ∉ payload)
    (noHash : chr '#' ∉ payload) (cksum : Byte) (count : Fin (bufsize - 1)) (buf : Nat → Byte)
    (long : bufsize - 1 ≤ count.val + payload.length) :
    ∃ buf', afterStream (getPacketByte echo) ⟨.data cksum count, buf⟩ payload = ⟨.start, buf'⟩ ∧
      sentOn (getPacketByte echo) ⟨.data cksum count, buf⟩ payload = [] := by
  induction payload generalizing cksum count buf with
  | nil =>
    have := count.isLt
    simp only [List.length_nil] at long
    omega
  | cons c payload ih =>
    rw [List.mem_cons, not_or] at noDollar noHash
    rw [List.length_cons] at long
    rw [afterStream, sentOn]
    simp only [getPacketByte]
    rw [if_neg (Ne.symm noDollar.1), if_neg (Ne.symm noHash.1)]
    by_cases room : count.val + 1 < bufsize - 1
    · rw [dif_pos room]
      exact ih noDollar.2 noHash.2 _ _ _ (by dsimp only; omega)
    · rw [dif_neg room]
      exact start_quiet echo payload noDollar.2 _

theorem trailer_run (n : Fin (bufsize - 1)) (buf : Nat → Byte) (x y : Byte) :
    let held := Function.update buf n.val 0
    sentOn (getPacketByte echo) ⟨.data (hexPair x y) n, buf⟩ [chr '#', x, y] =
        (if held 2 = chr ':' then chr '+' :: echo held else [chr '+']) ∧
      returnedOn (getPacketByte echo) ⟨.data (hexPair x y) n, buf⟩ [chr '#', x, y] =
        [if held 2 = chr ':' then textAt held 3 else textAt held 0] := by
  intro held
  have hash : getPacketByte echo ⟨.data (hexPair x y) n, buf⟩ (chr '#') =
      ⟨⟨.highDigit (hexPair x y), held⟩, [], none⟩ := rfl
  have last : getPacketByte echo
      ⟨.lowDigit (hexPair x y) (BitVec.ofInt 8 (hexcharToInt x * 16)), held⟩ y =
      if held 2 = chr ':' then ⟨⟨.start, held⟩, chr '+' :: echo held, some (textAt held 3)⟩
      else ⟨⟨.start, held⟩, [chr '+'], some (textAt held 0)⟩ := by
    simp only [getPacketByte]
    exact if_neg (not_not.mpr rfl)
  rw [sentOn, returnedOn, hash, sentOn, returnedOn]
  change sentOn (getPacketByte echo) ⟨.lowDigit (hexPair x y) _, held⟩ [y] = _ ∧
    returnedOn (getPacketByte echo) ⟨.lowDigit (hexPair x y) _, held⟩ [y] = _
  rw [sentOn, returnedOn, last]
  by_cases colon : held 2 = chr ':'
  · rw [if_pos colon, if_pos colon, if_pos colon]
    exact ⟨List.append_nil _, rfl⟩
  · rw [if_neg colon, if_neg colon, if_neg colon]
    exact ⟨rfl, rfl⟩

theorem received_iff {payload : List Byte} (noDollar : chr '$' ∉ payload)
    (noHash : chr '#' ∉ payload)
    {x y : Byte} (valid : ValidChecksum payload x y) (buf : Nat → Byte) :
    ReceivedInFull (getPacketByte echo) buf payload x y ↔ FitsBuffer buf payload := by
  let r : Receiver := ⟨.data 0 ⟨0, by decide⟩, buf⟩
  have opened : getPacketByte echo ⟨.start, buf⟩ (chr '$') = ⟨r, [], none⟩ := rfl
  have sent : sentOn (getPacketByte echo) ⟨.start, buf⟩ (chr '$' :: payload ++ [chr '#', x, y]) =
      sentOn (getPacketByte echo) r payload ++
        sentOn (getPacketByte echo) (afterStream (getPacketByte echo) r payload)
          [chr '#', x, y] := by
    rw [List.cons_append, sentOn, opened, sentOn_append]
    rfl
  have returned : returnedOn (getPacketByte echo) ⟨.start, buf⟩ (chr '$' :: payload ++
      [chr '#', x, y]) =
      returnedOn (getPacketByte echo) r payload ++
        returnedOn (getPacketByte echo) (afterStream (getPacketByte echo) r payload)
          [chr '#', x, y] := by
    rw [List.cons_append, returnedOn, opened, returnedOn_append]
    rfl
  unfold ReceivedInFull
  rw [sent, returned]
  have size : bufsize = 2048 := rfl
  by_cases fits : payload.length ≤ bufsize - 2
  · obtain ⟨stored, quiet, silent⟩ := data_run echo payload noDollar noHash 0 ⟨0, by decide⟩ buf
      (by dsimp only; omega)
    let held := Function.update (layText buf 0 payload) payload.length 0
    have holds : HoldsText held payload := by
      refine ⟨by omega, fun k lt => ?_, Function.update_self _ _ _⟩
      have laid : layText buf 0 payload k = payload.getD k 0 := by simp [layText, lt]
      exact (Function.update_of_ne (by omega) _ _).trans laid
    have checked : textSum payload = hexPair x y :=
      ((validChecksum_iff payload x y).mp valid).2.symm
    have ends := trailer_run echo ⟨payload.length, by omega⟩ (layText buf 0 payload) x y
    have there : afterStream (getPacketByte echo) r payload =
        ⟨.data (hexPair x y) ⟨payload.length, by omega⟩, layText buf 0 payload⟩ := by
      rw [stored, show 0 + textSum payload = textSum payload from BitVec.zero_add _, checked]
      simp only [Nat.zero_add]
    rw [← there] at ends
    rw [quiet, silent, List.nil_append, List.nil_append, ends.1, ends.2]
    have acknowledged : (if held 2 = chr ':' then chr '+' :: echo held else [chr '+']).head? =
        some (chr '+') := by
      split <;> rfl
    rw [and_iff_right acknowledged, List.cons.injEq, and_iff_left rfl]
    have kept {k : Nat} (past : payload.length < k) : held k = buf k := by
      rw [show held k = layText buf 0 payload k from Function.update_of_ne (by omega) _ _]
      exact if_neg (by omega)
    have left (short : payload.length < 2) : textAt held 3 = textAt buf 3 := by
      unfold textAt
      congr 1
      funext i
      exact kept (by omega)
    have read := accepted_text_iff holds
    by_cases id : HasId payload
    · -- what is returned is shorter than the payload
      refine iff_of_false (fun same => ?_) fun fit => fit.plain id
      have shorter : (withoutId payload).length + 3 = payload.length := by
        rw [withoutId, if_pos id, List.length_drop]
        have := id.1
        omega
      have third : held 2 = chr ':' := (holds.text 2 id.1).trans id.2
      rw [if_pos third] at same
      have text : 0 ∉ payload := by
        rw [← same]
        exact cstring_ne_zero _ _
      have dropped : textAt held 3 = payload.drop 3 :=
        (textAt_iff holds id.1).mpr fun mem => text (List.mem_of_mem_drop mem)
      rw [dropped] at same
      have lengths := congrArg List.length same
      rw [List.length_drop] at lengths
      have := id.1
      omega
    · have whole : withoutId payload = payload := if_neg id
      rw [whole] at read
      rw [read]
      constructor
      · rintro ⟨text, fresh⟩
        refine ⟨fits, text, id, fun stale => ?_⟩
        obtain ⟨short, colon⟩ := stale
        exact (left short).symm.trans (fresh ⟨short, (kept (by omega)).trans colon⟩)
      · rintro ⟨_, text, _, fresh⟩
        refine ⟨text, fun stale => ?_⟩
        obtain ⟨short, colon⟩ := stale
        exact (left short).trans (fresh ⟨short, (kept (by omega)).symm.trans colon⟩)
  · obtain ⟨buf', dropped, quiet⟩ := data_overflow echo payload noDollar noHash 0 ⟨0, by decide⟩ buf
      (by dsimp only; omega)
    have hexDollar {c : Byte} (hex : IsHex c) : chr '$' ≠ c := (isHex_ne hex (by decide)).symm
    have absent : chr '$' ∉ [chr '#', x, y] := by
      simp only [List.mem_cons, List.not_mem_nil, or_false, not_or]
      exact ⟨by decide, hexDollar valid.first, hexDollar valid.second⟩
    obtain ⟨_, _, none⟩ := start_quiet echo [chr '#', x, y] absent buf'
    refine iff_of_false (fun now => ?_) fun fit => fits fit.length
    rw [quiet, dropped, none] at now
    cases now.1

end

/-- A frame is acknowledged and its payload returned in full, by both debuggers, exactly when the
    payload fits the buffer as the loop reads it. -/
theorem packet_received_iff {payload : List Byte} (noDollar : chr '$' ∉ payload)
    (noHash : chr '#' ∉ payload)
    {x y : Byte} (valid : ValidChecksum payload x y) (buf : Nat → Byte) :
    (ReceivedInFull serialGetPacketByte buf payload x y ∧
      ReceivedInFull netGetPacketByte buf payload x y) ↔
      FitsBuffer buf payload := by
  rw [serialGetPacketByte, netGetPacketByte, received_iff serialEcho noDollar noHash valid,
    received_iff netEcho noDollar noHash valid, and_self]

theorem ok_packet_received :
    ReceivedInFull serialGetPacketByte (fun _ => 0) (str "OK") (chr '9') (chr 'a') ∧
      ReceivedInFull netGetPacketByte (fun _ => 0) (str "OK") (chr '9') (chr 'a') :=
  (packet_received_iff (by decide) (by decide) (by decide) _).mpr
    ⟨by decide, by decide, by decide, fun stale => absurd stale.1 (by decide)⟩

/-- A payload of the announced size is dropped. -/
theorem full_packet_not_received : ¬ ∀ (payload : List Byte) (x y : Byte) (buf : Nat → Byte),
    chr '$' ∉ payload → chr '#' ∉ payload → payload.length ≤ hexNumber (str "800") →
    ValidChecksum payload x y →
    ReceivedInFull serialGetPacketByte buf payload x y ∧
    ReceivedInFull netGetPacketByte buf payload x y := by
  intro all
  let payload := List.replicate 2048 (chr 'a')
  have only {c : Byte} (ne : c ≠ chr 'a') : c ∉ payload :=
    fun mem => ne (List.eq_of_mem_replicate mem)
  have length : payload.length = 2048 := List.length_replicate
  have noDollar : chr '$' ∉ payload := only (by decide)
  have noHash : chr '#' ∉ payload := only (by decide)
  have sum : textSum payload = 0 := by
    simp only [textSum, payload, List.map_replicate, List.sum_replicate]
    decide
  have valid : ValidChecksum payload (chr '0') (chr '0') :=
    ⟨by decide, by decide, by rw [sum]; decide⟩
  have received := all payload (chr '0') (chr '0') (fun _ => 0) noDollar noHash
    (by rw [length]; decide) valid
  have fits := ((received_iff serialEcho noDollar noHash valid _).mp received.1).length
  rw [length] at fits
  exact absurd fits (by decide)

end Libgdb
