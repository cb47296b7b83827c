import Libgdb.Library.GuardedRuns
import Libgdb.Library.RingBuffers
import Libgdb.ReplyText

/-!
The input path of the net debugger (apps/debugger of examples/microkit_sddf_net): received
segments are staged in a local buffer, measured as a string and pushed into a ring buffer with
wrapping 32-bit counters, from which `gdb_get_char` takes one byte at a time.
-/
namespace Libgdb
open ByteMemory RingBuffers GuardedRuns

/- char_queue.h. -/

abbrev queueCapacity := bufsize

instance : NeZero queueCapacity := ⟨by decide⟩

/-- `tail` counts the insertions and `head` the removals, both modulo 2^32. -/
structure CharQueue where
  tail : BitVec 32
  head : BitVec 32
  buf : Fin queueCapacity → Byte

def charQueueLength (q : CharQueue) : BitVec 32 := q.tail - q.head

def charQueueEmpty (q : CharQueue) (localHead : BitVec 32) : Bool := localHead == q.tail

/-- -1 is `none`: the queue is empty. -/
def charDequeue (q : CharQueue) : Option (Byte × CharQueue) :=
  if charQueueEmpty q q.head then none
  else some (q.buf (Fin.ofNat queueCapacity q.head.toNat), { q with head := q.head + 1 })

def charQueueFree (q : CharQueue) : BitVec 32 := BitVec.ofNat 32 queueCapacity - charQueueLength q

def charQueueContiguousFree (q : CharQueue) : Nat :=
  min (queueCapacity - q.tail.toNat % queueCapacity) (charQueueFree q).toNat

/-- Both assertions are on unsigned lengths. -/
def charQueueUpdateSharedTail (q : CharQueue) (localTail : BitVec 32) : Except Fault CharQueue :=
  let currentLength := charQueueLength q
  let newLength := localTail - q.head
  if currentLength.toNat ≤ newLength.toNat ∧ newLength.toNat ≤ queueCapacity then
    .ok { q with tail := localTail }
  else
    .error .assertFail

def charQueueEnqueueBatch (q : CharQueue) (num : Nat) (src : Nat → Byte) :
    Except Fault (Nat × CharQueue) := do
  let num := min num (charQueueFree q).toNat
  let numPrewrap := min num (charQueueContiguousFree q)
  let numPostwrap := num - numPrewrap
  let buf := copyAt q.buf (q.tail.toNat % queueCapacity) src numPrewrap
  let buf := if numPostwrap ≠ 0 then copyAt buf 0 (fun j => src (numPrewrap + j)) numPostwrap
      else buf
  let q ← charQueueUpdateSharedTail { q with buf := buf } (q.tail + BitVec.ofNat 32 num)
  return (num, q)

/- tcp.c. -/

/-- `pbuf_copy_partial(p, tmp, p->tot_len, 0)` into a buffer of `BUFSIZE` bytes. -/
def pbufCopyPartial (tmp : Nat → Byte) (segment : List Byte) : Except Fault (Nat → Byte) :=
  if segment.length ≤ bufsize then .ok (layText tmp 0 segment) else .error .localOverwrite

def terminate (tmp : Nat → Byte) (n : Nat) : Except Fault (Nat → Byte) :=
  if n < bufsize then .ok (Function.update tmp n 0) else .error .localOverwrite

/-- The segment is the data of the pbuf chain; `tmp` is the local buffer as it is found. The
    count of enqueued characters is not looked at. -/
def tcpRecvGdb (q : CharQueue) (tmp : Nat → Byte) (segment : List Byte) :
    Except Fault CharQueue := do
  let tmp ← pbufCopyPartial tmp segment
  let tmp ← terminate tmp segment.length
  let (_, q) ← charQueueEnqueueBatch q (strnlen tmp bufsize) tmp
  return q

/- The queue. -/

structure CharQueue.Ok (q : CharQueue) : Prop where
  fits : (charQueueLength q).toNat ≤ queueCapacity

def drain : Nat → CharQueue → List Byte
  | 0, _ => []
  | n + 1, q =>
    match charDequeue q with
    | none => []
    | some (c, q) => c :: drain n q

def CharQueue.pending (q : CharQueue) : List Byte := drain (charQueueLength q).toNat q

theorem charDequeue_some {q : CharQueue} (positive : 0 < (charQueueLength q).toNat) :
    charDequeue q = some (q.buf (Fin.ofNat queueCapacity q.head.toNat),
      { q with head := q.head + 1 }) := by
  have nonempty : q.head ≠ q.tail := by
    intro same
    simp [charQueueLength, same] at positive
  simp [charDequeue, charQueueEmpty, nonempty]

theorem charDequeue_length {q : CharQueue} (positive : 0 < (charQueueLength q).toNat) :
    (charQueueLength { q with head := q.head + 1 }).toNat = (charQueueLength q).toNat - 1 := by
  simp only [charQueueLength] at positive ⊢
  bv_omega

theorem pending_window (q : CharQueue) :
    q.pending = window q.buf q.head.toNat (charQueueLength q).toNat := by
  unfold CharQueue.pending
  generalize len : (charQueueLength q).toNat = n
  induction n generalizing q with
  | zero => rfl
  | succ n ih =>
    have next : (charQueueLength { q with head := q.head + 1 }).toNat = n := by
      rw [charDequeue_length (by omega), len]
      rfl
    have place : (q.head + 1).toNat % queueCapacity = (q.head.toNat + 1) % queueCapacity := by
      simp only [queueCapacity, bufsize]
      bv_omega
    rw [drain, charDequeue_some (by omega), window_succ, window_mod place.symm]
    dsimp only
    rw [ih _ next]

theorem pending_cons {q : CharQueue} (positive : 0 < (charQueueLength q).toNat) :
    q.pending = q.buf (Fin.ofNat queueCapacity q.head.toNat) :: CharQueue.pending
    { q with head := q.head + 1 } := by
  obtain ⟨n, len⟩ := Nat.exists_eq_succ_of_ne_zero (Nat.ne_of_gt positive)
  rw [CharQueue.pending, len, drain, charDequeue_some positive, CharQueue.pending,
    charDequeue_length positive, len]
  rfl

theorem pending_length (q : CharQueue) : q.pending.length = (charQueueLength q).toNat := by
  rw [pending_window, window_length]

theorem free_toNat {q : CharQueue} (ok : q.Ok) :
    (charQueueFree q).toNat = queueCapacity - (charQueueLength q).toNat := by
  have fits := ok.fits
  simp only [charQueueFree, queueCapacity, bufsize] at fits ⊢
  bv_omega

def batchSize (q : CharQueue) (num : Nat) : Nat :=
  min num (queueCapacity - (charQueueLength q).toNat)

def batched (q : CharQueue) (num : Nat) (src : Nat → Byte) : CharQueue :=
  let k := batchSize q num
  let buf := copyWrapped q.buf q.tail.toNat src
      (min k (queueCapacity - q.tail.toNat % queueCapacity)) k
  { q with buf := buf, tail := q.tail + BitVec.ofNat 32 k }

theorem batched_length {q : CharQueue} (ok : q.Ok) (num : Nat) (src : Nat → Byte) :
    (charQueueLength (batched q num src)).toNat = (charQueueLength q).toNat + batchSize q num := by
  have fits := ok.fits
  simp only [batched, batchSize, charQueueLength, queueCapacity, bufsize] at fits ⊢
  bv_omega

theorem enqueueBatch_batched {q : CharQueue} (ok : q.Ok) (num : Nat) (src : Nat → Byte) :
    charQueueEnqueueBatch q num src = .ok (batchSize q num, batched q num src) := by
  have fits := ok.fits
  have free := free_toNat ok
  have grown := batched_length ok num src
  let k := batchSize q num
  have small : k ≤ queueCapacity - (charQueueLength q).toNat := Nat.min_le_right _ _
  have pre : min k (charQueueContiguousFree q) =
      min k (queueCapacity - q.tail.toNat % queueCapacity) := by
    rw [charQueueContiguousFree, free]
    omega
  have pieces : (if k - min k (charQueueContiguousFree q) ≠ 0 then
        copyAt (copyAt q.buf (q.tail.toNat % queueCapacity) src
          (min k (charQueueContiguousFree q))) 0
          (fun j => src (min k (charQueueContiguousFree q) + j))
            (k - min k (charQueueContiguousFree q))
      else copyAt q.buf (q.tail.toNat % queueCapacity) src (min k (charQueueContiguousFree q))) =
      (batched q num src).buf := by
    rw [pre]
    by_cases none : k - min k (queueCapacity - q.tail.toNat % queueCapacity) = 0
    · rw [if_neg (not_not.mpr none)]
      funext i
      simp [batched, copyWrapped, k, none, copyAt]
    · rw [if_pos none]
      rfl
  unfold charQueueEnqueueBatch
  simp only [free]
  rw [show min num (queueCapacity - (charQueueLength q).toNat) = k from rfl, pieces,
    charQueueUpdateSharedTail]
  have lengths : (charQueueLength { q with buf := (batched q num src).buf }).toNat ≤
      (q.tail + BitVec.ofNat 32 k - q.head).toNat ∧ (q.tail + BitVec.ofNat 32 k - q.head).toNat ≤
        queueCapacity := by
    have sum : (q.tail + BitVec.ofNat 32 k - q.head).toNat = (charQueueLength q).toNat + k := grown
    rw [sum]
    exact ⟨Nat.le_add_right _ _, by omega⟩
  rw [if_pos lengths]
  rfl

theorem batched_ok {q : CharQueue} (ok : q.Ok) (num : Nat) (src : Nat → Byte) :
    (batched q num src).Ok := by
  have fits := ok.fits
  have small : batchSize q num ≤ queueCapacity - (charQueueLength q).toNat := Nat.min_le_right _ _
  exact ⟨by rw [batched_length ok]; omega⟩

theorem batched_pending {q : CharQueue} (ok : q.Ok) (num : Nat) (src : Nat → Byte) :
    (batched q num src).pending = q.pending ++ (List.range (batchSize q num)).map src := by
  have fits := ok.fits
  have small : batchSize q num ≤ queueCapacity - (charQueueLength q).toNat := Nat.min_le_right _ _
  let len := (charQueueLength q).toNat
  have position (i : Nat) : (q.head.toNat + len + i) % queueCapacity =
      (q.tail.toNat + i) % queueCapacity := by
    simp only [charQueueLength, len, queueCapacity, bufsize]
    bv_omega
  rw [pending_window, pending_window, batched_length ok]
  refine window_append (fun i lt => ?_) (fun i lt => ?_)
  · -- an old element lies a full turn ahead of the insertions, less what is pending
    have turn : (q.tail.toNat + (queueCapacity - len + i)) % queueCapacity =
        (q.head.toNat + i) % queueCapacity := by
      simp only [charQueueLength, len, queueCapacity, bufsize] at fits lt ⊢
      bv_omega
    have same : Fin.ofNat queueCapacity (q.head.toNat + i) =
        Fin.ofNat queueCapacity (q.tail.toNat + (queueCapacity - len + i)) := Fin.ext turn.symm
    rw [show (batched q num src).head = q.head from rfl, same]
    exact copyWrapped_old q.buf q.tail.toNat src (by omega) (by omega)
  · have same : Fin.ofNat queueCapacity (q.head.toNat + len + i) =
        Fin.ofNat queueCapacity (q.tail.toNat + i) := Fin.ext (position i)
    rw [show (batched q num src).head = q.head from rfl, same]
    exact copyWrapped_new q.buf q.tail.toNat src (by omega) lt

theorem enqueueBatch_run {q : CharQueue} (ok : q.Ok) (num : Nat) (src : Nat → Byte) :
    ∃ q', charQueueEnqueueBatch q num src =
        .ok (min num (queueCapacity - q.pending.length), q') ∧ q'.Ok ∧
      q'.pending = q.pending ++
        (List.range (min num (queueCapacity - q.pending.length))).map src := by
  rw [pending_length]
  exact ⟨batched q num src, enqueueBatch_batched ok num src, batched_ok ok num src,
    batched_pending ok num src⟩

/- Segments. -/

def untilNul (segment : List Byte) : List Byte := segment.takeWhile fun c => c != 0

theorem untilNul_rest (segment : List Byte) :
    ∃ rest, segment = untilNul segment ++ rest ∧ (rest = [] ∨ ∃ more, rest = 0 :: more) := by
  induction segment with
  | nil => exact ⟨[], rfl, Or.inl rfl⟩
  | cons c segment ih =>
    obtain ⟨rest, split, ends⟩ := ih
    by_cases nul : c = 0
    · subst nul
      exact ⟨0 :: segment, rfl, Or.inr ⟨segment, rfl⟩⟩
    · have kept : untilNul (c :: segment) = c :: untilNul segment :=
        List.takeWhile_cons_of_pos (by simpa using nul)
      refine ⟨rest, ?_, ends⟩
      rw [kept, List.cons_append, ← split]

theorem untilNul_nonzero (segment : List Byte) : ∀ c ∈ untilNul segment, c ≠ 0 := by
  intro c mem
  simpa using List.mem_takeWhile_imp mem

theorem untilNul_whole_iff (segment : List Byte) :
    (untilNul segment).length = segment.length ↔ 0 ∉ segment := by
  obtain ⟨rest, split, ends⟩ := untilNul_rest segment
  have lengths := congrArg List.length split
  rw [List.length_append] at lengths
  rcases ends with rfl | ⟨more, rfl⟩
  · refine iff_of_true (by simpa using lengths.symm) fun mem => ?_
    rw [split, List.append_nil] at mem
    exact untilNul_nonzero segment 0 mem rfl
  · refine iff_of_false (by rw [List.length_cons] at lengths; omega) fun absent => absent ?_
    rw [split]
    simp

def staged (tmp : Nat → Byte) (segment : List Byte) : Nat → Byte :=
  Function.update (layText tmp 0 segment) segment.length 0

theorem staged_char (tmp : Nat → Byte) {segment : List Byte} {k : Nat} (lt : k < segment.length) :
    staged tmp segment k = segment.getD k 0 := by
  rw [staged, Function.update_of_ne (by omega)]
  simp [layText, lt]

theorem staged_text (tmp : Nat → Byte) {segment : List Byte} {k : Nat}
    (lt : k < (untilNul segment).length) :
    staged tmp segment k = (untilNul segment).getD k 0 := by
  obtain ⟨rest, split, _⟩ := untilNul_rest segment
  have lengths := congrArg List.length split
  rw [List.length_append] at lengths
  rw [staged_char tmp (by omega)]
  conv_lhs => rw [split]
  exact List.getD_append _ _ _ _ lt

theorem strnlen_staged (tmp : Nat → Byte) {segment : List Byte} (fits : segment.length < bufsize) :
    strnlen (staged tmp segment) bufsize = (untilNul segment).length := by
  obtain ⟨rest, split, ends⟩ := untilNul_rest segment
  have lengths := congrArg List.length split
  rw [List.length_append] at lengths
  refine strnlen_text _ _ bufsize (untilNul_nonzero segment) (by omega)
    (fun k lt => staged_text tmp lt) ?_
  rcases ends with rfl | ⟨more, rfl⟩
  · rw [staged, show (untilNul segment).length = segment.length by simpa using lengths.symm,
      Function.update_self]
  · rw [staged_char tmp (by rw [List.length_cons] at lengths; omega)]
    generalize untilNul segment = text at split
    subst split
    simp

theorem range_map_take {text : List Byte} {src : Nat → Byte} {n : Nat} (le : n ≤ text.length)
    (same : ∀ k, k < text.length → src k = text.getD k 0) :
    (List.range n).map src = text.take n := by
  refine List.ext_getElem (by simp [le]) fun k lt lt' => ?_
  have small : k < text.length := by simp at lt; omega
  rw [List.getElem_map, List.getElem_range, same k small, List.getElem_take]
  simp [List.getD_eq_getElem?_getD, small]

/-- What of a segment gets into the queue: the text in front of its first NUL, cut to the room. -/
theorem tcpRecvGdb_run {q : CharQueue} (ok : q.Ok) (tmp : Nat → Byte) {segment : List Byte}
    (fits : segment.length < bufsize) :
    ∃ q', tcpRecvGdb q tmp segment = .ok q' ∧ q'.Ok ∧
      q'.pending = q.pending ++ (untilNul segment).take (queueCapacity - q.pending.length) := by
  obtain ⟨q', run, ok', pending⟩ :=
    enqueueBatch_run ok (untilNul segment).length (staged tmp segment)
  refine ⟨q', ?_, ok', ?_⟩
  · unfold tcpRecvGdb
    rw [pbufCopyPartial, if_pos (by omega)]
    change (do
      let tmp ← terminate (layText tmp 0 segment) segment.length
      let (_, q) ← charQueueEnqueueBatch q (strnlen tmp bufsize) tmp
      return q) = _
    rw [terminate, if_pos fits]
    change (do
      let (_, q) ← charQueueEnqueueBatch q (strnlen (staged tmp segment) bufsize)
          (staged tmp segment)
      return q) = _
    rw [strnlen_staged tmp fits, run]
    rfl
  · rw [pending, range_map_take (Nat.min_le_left _ _) fun k lt => staged_text tmp lt]
    congr 1
    rw [Nat.min_comm, ← List.take_take, List.take_length]

theorem tcpRecvGdb_overflow (q : CharQueue) (tmp : Nat → Byte) {segment : List Byte}
    (long : bufsize ≤ segment.length) : tcpRecvGdb q tmp segment = .error .localOverwrite := by
  unfold tcpRecvGdb pbufCopyPartial
  by_cases exact_fit : segment.length ≤ bufsize
  · rw [if_pos exact_fit]
    change (do
      let tmp ← terminate (layText tmp 0 segment) segment.length
      let (_, q) ← charQueueEnqueueBatch q (strnlen tmp bufsize) tmp
      return q) = _
    rw [terminate, if_neg (by omega)]
    rfl
  · rw [if_neg exact_fit]
    rfl

/- Runs. -/

/-- A segment arrives, with whatever the local buffer holds then, or `gdb_get_char` looks for a
    byte. -/
inductive TcpEvent where
  | segment (tmp : Nat → Byte) (data : List Byte)
  | getChar

structure TcpSession where
  queue : CharQueue
  received : List Byte
  returned : List Byte
  fault : Option Fault

def TcpSession.start (buf : Fin queueCapacity → Byte) : TcpSession := ⟨⟨0, 0, buf⟩, [], [], none⟩

/-- On an empty queue `gdb_get_char` waits. -/
def tcpStep (w : TcpSession) (event : TcpEvent) : TcpSession :=
  if w.fault.isSome then w
  else match event with
    | .segment tmp data =>
      match tcpRecvGdb w.queue tmp data with
      | .ok q => { w with queue := q, received := w.received ++ data }
      | .error f => { w with received := w.received ++ data, fault := some f }
    | .getChar =>
      match charDequeue w.queue with
      | none => w
      | some (c, q) => { w with queue := q, returned := w.returned ++ [c] }

/-- No write outside a buffer, and what was returned and what is still to be returned make up
    what was received, in order. -/
def Lossless (w : TcpSession) : Prop :=
  w.fault = none ∧ w.returned ++ w.queue.pending = w.received

/-- The segment leaves room for its terminator, has no NUL, and finds room in the queue. -/
def SegmentFits (w : TcpSession) : TcpEvent → Prop
  | .segment _ data => data.length < bufsize ∧ 0 ∉ data ∧
      w.queue.pending.length + data.length ≤ queueCapacity
  | .getChar => True

theorem tcpStep_ok {w : TcpSession} (ok : w.queue.Ok) (event : TcpEvent) :
    (tcpStep w event).queue.Ok := by
  unfold tcpStep
  split
  · exact ok
  · cases event with
    | segment tmp data =>
      by_cases fits : data.length < bufsize
      · obtain ⟨q', run, ok', _⟩ := tcpRecvGdb_run ok tmp fits
        dsimp only
        rw [run]
        exact ok'
      · dsimp only
        rw [tcpRecvGdb_overflow w.queue tmp (by omega)]
        exact ok
    | getChar =>
      by_cases positive : 0 < (charQueueLength w.queue).toNat
      · dsimp only
        rw [charDequeue_some positive]
        have shorter := charDequeue_length positive
        have fits := ok.fits
        exact ⟨by dsimp only; omega⟩
      · have empty : w.queue.head = w.queue.tail := by
          simp only [charQueueLength] at positive
          bv_omega
        simp only [charDequeue, charQueueEmpty, empty, beq_self_eq_true, if_true]
        exact ok

/-- One event loses nothing exactly when a segment fits. -/
theorem tcpStep_lossless_iff {w : TcpSession} (ok : w.queue.Ok) (lossless : Lossless w)
    (event : TcpEvent) :
    Lossless (tcpStep w event) ↔ SegmentFits w event := by
  obtain ⟨running, whole⟩ := lossless
  unfold tcpStep
  rw [if_neg (by simp [running])]
  cases event with
  | segment tmp data =>
    by_cases fits : data.length < bufsize
    · obtain ⟨q', run, _, pending⟩ := tcpRecvGdb_run ok tmp fits
      dsimp only
      rw [run]
      have prefixed : untilNul data <+: data := List.takeWhile_prefix _
      have room : w.queue.pending.length ≤ queueCapacity := by rw [pending_length]; exact ok.fits
      have taken : Lossless { w with queue := q', received := w.received ++ data } ↔
          (untilNul data).take (queueCapacity - w.queue.pending.length) = data := by
        simp only [Lossless, running, true_and, pending, ← whole, List.append_assoc,
          List.append_cancel_left_eq]
      rw [taken, SegmentFits]
      constructor
      · intro all
        have lengths := congrArg List.length all
        rw [List.length_take] at lengths
        have le := prefixed.length_le
        exact ⟨fits, (untilNul_whole_iff data).mp (by omega), by omega⟩
      · rintro ⟨_, noNul, enough⟩
        have same : untilNul data = data :=
          prefixed.eq_of_length ((untilNul_whole_iff data).mpr noNul)
        rw [same, List.take_of_length_le (by omega)]
    · dsimp only
      rw [tcpRecvGdb_overflow w.queue tmp (by omega)]
      exact iff_of_false (fun now => by cases now.1) fun now => fits now.1
  | getChar =>
    refine iff_of_true ?_ trivial
    by_cases positive : 0 < (charQueueLength w.queue).toNat
    · dsimp only
      rw [charDequeue_some positive]
      refine ⟨running, ?_⟩
      rw [← whole, pending_cons positive]
      simp
    · have empty : w.queue.head = w.queue.tail := by
        simp only [charQueueLength] at positive
        bv_omega
      simp only [charDequeue, charQueueEmpty, empty, beq_self_eq_true, if_true]
      exact ⟨running, whole⟩

theorem start_ok (buf : Fin queueCapacity → Byte) : (TcpSession.start buf).queue.Ok :=
  ⟨show (0 - 0 : BitVec 32).toNat ≤ queueCapacity by decide⟩

theorem start_lossless (buf : Fin queueCapacity → Byte) : Lossless (.start buf) := by
  have empty : (charQueueLength (TcpSession.start buf).queue).toNat = 0 :=
    show (0 - 0 : BitVec 32).toNat = 0 by decide
  refine ⟨rfl, ?_⟩
  rw [CharQueue.pending, empty]
  rfl

/-- Every byte received is returned once and in order, and the staging buffer is never overrun,
    exactly when every segment fits as it arrives. -/
theorem tcp_lossless_along_iff (buf : Fin queueCapacity → Byte) (events : List TcpEvent) :
    Along tcpStep Lossless events (.start buf) ↔ Guarded tcpStep SegmentFits events
    (.start buf) := by
  exact along_iff_guarded (fun w => w.queue.Ok) (fun _ _ => True)
    (fun w event ok _ => tcpStep_ok ok event)
      (fun w event ok _ now => tcpStep_lossless_iff ok now event)
    events _ (start_ok buf) (start_lossless buf)
      (guarded_of_forall (P := fun _ => True) events _ fun _ _ => trivial)

/-- The bytes behind a NUL are dropped. -/
theorem nul_byte_lost : ¬ ∀ (buf : Fin queueCapacity → Byte) (events : List TcpEvent),
    Along tcpStep Lossless events (.start buf) := by
  intro all
  have first := (all (fun _ => 0) [.segment (fun _ => 0) [0x61, 0, 0x62]]).1
  have fits := (tcpStep_lossless_iff (start_ok _) (start_lossless _) _).mp first
  exact fits.2.1 (by decide)

end Libgdb
