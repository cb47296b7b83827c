import Libgdb.TcpInput

/-!
The ring buffer of the net debugger (apps/debugger/char_queue.h of examples/microkit_sddf_net) as
a bounded queue: a batch is its characters enqueued one at a time, and what is taken out is what
was put in, in order.
-/
namespace Libgdb
open ByteMemory RingBuffers

def charQueueFull (q : CharQueue) (localTail : BitVec 32) : Bool :=
  localTail - q.head == BitVec.ofNat 32 queueCapacity

/-- -1 is `none`: the queue is full. -/
def charEnqueue (q : CharQueue) (character : Byte) : Option CharQueue :=
  if charQueueFull q q.tail then none
  else some
    { q with
      buf := Function.update q.buf (Fin.ofNat queueCapacity q.tail.toNat) character
      tail := q.tail + 1 }

/- Characters one at a time. -/

theorem charEnqueue_some {q : CharQueue} (room : (charQueueLength q).toNat < queueCapacity)
    (c : Byte) :
    charEnqueue q c = some
      { q with buf := Function.update q.buf (Fin.ofNat queueCapacity q.tail.toNat) c, tail := q.tail + 1 } := by
  have notFull : charQueueFull q q.tail = false := by
    rw [charQueueFull, beq_eq_false_iff_ne]
    intro full
    rw [charQueueLength, full] at room
    simp [queueCapacity, bufsize] at room
  simp [charEnqueue, notFull]

theorem charEnqueue_none {q : CharQueue} (ok : q.Ok)
    (full : queueCapacity ≤ (charQueueLength q).toNat) (c : Byte) : charEnqueue q c = none := by
  have fits := ok.fits
  have isFull : charQueueFull q q.tail = true := by
    rw [charQueueFull, beq_iff_eq]
    simp only [charQueueLength, queueCapacity, bufsize] at fits full ⊢
    bv_omega
  simp [charEnqueue, isFull]

theorem pushAll_mod {n : Nat} [NeZero n] (buf : Fin n → Byte) {t t' : Nat} (same : t % n = t' % n)
    (cs : List Byte) :
    pushAll buf t cs = pushAll buf t' cs := by
  induction cs generalizing buf t t' with
  | nil => rfl
  | cons c cs ih =>
    have place : Fin.ofNat n t = Fin.ofNat n t' := Fin.ext same
    rw [pushAll, pushAll, place]
    exact ih _ (by rw [Nat.add_mod, same, ← Nat.add_mod])

theorem enqueueAll_pushAll {q : CharQueue} {cs : List Byte}
    (room : (charQueueLength q).toNat + cs.length ≤ queueCapacity) :
    cs.foldlM charEnqueue q = some
      { q with buf := pushAll q.buf q.tail.toNat cs, tail := q.tail + BitVec.ofNat 32 cs.length } := by
  induction cs generalizing q with
  | nil => simp [pushAll]
  | cons c cs ih =>
    rw [List.length_cons] at room
    have longer : (charQueueLength { q with
        buf := Function.update q.buf (Fin.ofNat queueCapacity q.tail.toNat) c,
          tail := q.tail + 1 }).toNat =
        (charQueueLength q).toNat + 1 := by
      simp only [charQueueLength, queueCapacity, bufsize] at room ⊢
      bv_omega
    have place : (q.tail + 1).toNat % queueCapacity = (q.tail.toNat + 1) % queueCapacity := by
      simp only [queueCapacity, bufsize]
      bv_omega
    rw [List.foldlM_cons, charEnqueue_some (by omega), Option.bind_eq_bind, Option.bind_some,
      ih (by omega), pushAll,
      pushAll_mod _ place]
    congr 2
    rw [List.length_cons, Nat.add_comm, BitVec.ofNat_add]
    exact BitVec.add_assoc _ _ _

/- Batches. -/

theorem batched_eq_enqueueAll {q : CharQueue} (ok : q.Ok) (num : Nat) (src : Nat → Byte) :
    ((List.range (batchSize q num)).map src).foldlM charEnqueue q = some (batched q num src) := by
  have fits := ok.fits
  have small : batchSize q num ≤ queueCapacity - (charQueueLength q).toNat := Nat.min_le_right _ _
  have length : ((List.range (batchSize q num)).map src).length = batchSize q num := by simp
  rw [enqueueAll_pushAll (by omega), length, ← copyWrapped_eq_pushAll _ _ _ (by omega)]
  rfl

/- Calls in any order. -/

inductive QueueCall where
  | enqueueBatch (num : Nat) (src : Nat → Byte)
  | enqueue (character : Byte)
  | dequeue

structure QueueSession where
  queue : CharQueue
  accepted : List Byte
  dequeued : List Byte

def QueueSession.start (q : CharQueue) : QueueSession := ⟨q, [], []⟩

def queueStep (w : QueueSession) : QueueCall → Except Fault QueueSession
  | .enqueueBatch num src => do
    let (count, q) ← charQueueEnqueueBatch w.queue num src
    return { w with queue := q, accepted := w.accepted ++ (List.range count).map src }
  | .enqueue c =>
    match charEnqueue w.queue c with
    | none => return w
    | some q => return { w with queue := q, accepted := w.accepted ++ [c] }
  | .dequeue =>
    match charDequeue w.queue with
    | none => return w
    | some (c, q) => return { w with queue := q, dequeued := w.dequeued ++ [c] }

/-- Nothing is lost, invented or put out of order: taken out and still pending make up what was
    pending at the start and what has been accepted since. -/
structure InOrder (first : List Byte) (w : QueueSession) : Prop where
  ok : w.queue.Ok
  whole : w.dequeued ++ w.queue.pending = first ++ w.accepted

theorem enqueue_batched {q : CharQueue} (room : (charQueueLength q).toNat < queueCapacity)
    (c : Byte) :
    charEnqueue q c = some (batched q 1 fun _ => c) := by
  have one : batchSize q 1 = 1 := by
    unfold batchSize
    omega
  have same := batched_eq_enqueueAll (q := q) ⟨by omega⟩ 1 fun _ => c
  rw [one] at same
  rw [← same]
  simp [List.range_succ]

theorem dequeue_keeps_order {first : List Byte} {w : QueueSession} (inOrder : InOrder first w) :
    ∃ w', queueStep w .dequeue = .ok w' ∧ InOrder first w' := by
  obtain ⟨ok, whole⟩ := inOrder
  by_cases positive : 0 < (charQueueLength w.queue).toNat
  · have shorter := charDequeue_length positive
    have fits := ok.fits
    refine ⟨_, by rw [queueStep, charDequeue_some positive]; rfl, ⟨by dsimp only; omega⟩, ?_⟩
    rw [← whole, pending_cons positive]
    simp
  · have empty : w.queue.head = w.queue.tail := by
      simp only [charQueueLength] at positive
      bv_omega
    have none : charDequeue w.queue = none := by simp [charDequeue, charQueueEmpty, empty]
    exact ⟨w, by rw [queueStep, none]; rfl, ok, whole⟩

theorem queueStep_keeps_order {first : List Byte} {w : QueueSession} (inOrder : InOrder first w)
    (call : QueueCall) :
    ∃ w', queueStep w call = .ok w' ∧ InOrder first w' := by
  cases call with
  | enqueueBatch num src =>
    refine ⟨_, by rw [queueStep, enqueueBatch_batched inOrder.ok]; rfl, batched_ok inOrder.ok num src, ?_⟩
    dsimp only
    rw [batched_pending inOrder.ok, ← List.append_assoc, inOrder.whole, List.append_assoc]
  | enqueue c =>
    by_cases room : (charQueueLength w.queue).toNat < queueCapacity
    · have one : batchSize w.queue 1 = 1 := by
        unfold batchSize
        omega
      refine ⟨_, by rw [queueStep, enqueue_batched room]; rfl, batched_ok inOrder.ok 1 _, ?_⟩
      dsimp only
      rw [batched_pending inOrder.ok, one, ← List.append_assoc, inOrder.whole, List.append_assoc]
      rfl
    · exact ⟨w, by rw [queueStep, charEnqueue_none inOrder.ok (by omega)]; rfl, inOrder⟩
  | dequeue => exact dequeue_keeps_order inOrder

theorem queueRun_keeps_order {first : List Byte} (calls : List QueueCall) {w : QueueSession}
    (inOrder : InOrder first w) :
    ∃ w', calls.foldlM queueStep w = .ok w' ∧ InOrder first w' := by
  induction calls generalizing w with
  | nil => exact ⟨w, rfl, inOrder⟩
  | cons call calls ih =>
    obtain ⟨next, step, inOrder'⟩ := queueStep_keeps_order inOrder call
    obtain ⟨w', rest, done⟩ := ih inOrder'
    exact ⟨w', by rw [List.foldlM_cons, step]; exact rest, done⟩

/-- A batch is as many single characters as there is room for. In any order of calls no assertion
    fails and the characters come out as they were accepted, the rest of them still pending. -/
theorem char_queue_fifo {q : CharQueue} (fits : (charQueueLength q).toNat ≤ queueCapacity) :
    (∀ num src, ∃ q', charQueueEnqueueBatch q num src =
      .ok (min num (queueCapacity - (charQueueLength q).toNat), q') ∧
      ((List.range (min num (queueCapacity - (charQueueLength q).toNat))).map src).foldlM
        charEnqueue q = some q') ∧
    ∀ calls : List QueueCall, ∃ w, calls.foldlM queueStep (.start q) = .ok w ∧ w.dequeued <+:
    q.pending ++ w.accepted ∧
      w.dequeued ++ w.queue.pending = q.pending ++ w.accepted := by
  have ok : q.Ok := ⟨fits⟩
  refine ⟨fun num src => ⟨_, enqueueBatch_batched ok num src, batched_eq_enqueueAll ok num src⟩,
    fun calls => ?_⟩
  have start : InOrder q.pending (.start q) := ⟨ok, by simp [QueueSession.start]⟩
  obtain ⟨w, run, _, whole⟩ := queueRun_keeps_order calls start
  exact ⟨w, run, ⟨_, whole⟩, whole⟩

/-- The counters have wrapped: two characters are pending. -/
def wrappedQueue : CharQueue := ⟨1, 2 ^ 32 - 1, fun _ => 7⟩

theorem wrapped_queue_fifo :
    (∀ num src, ∃ q', charQueueEnqueueBatch wrappedQueue num src = .ok (min num 2046, q') ∧
      ((List.range (min num 2046)).map src).foldlM charEnqueue wrappedQueue = some q') ∧
    ∀ calls : List QueueCall, ∃ w, calls.foldlM queueStep (.start wrappedQueue) = .ok w ∧
      w.dequeued <+: [7, 7] ++ w.accepted ∧ w.dequeued ++ w.queue.pending = [7, 7] ++ w.accepted :=
  char_queue_fifo (q := wrappedQueue) (by decide)

end Libgdb
