import Libgdb.MemoryReads

/-!
`M` packets: which of them write exactly the bytes they carry. The loop of `inf_hex2mem`
bumps its address after every byte, so a word is written back where its last byte belongs.
-/
namespace Libgdb
open ByteMemory CheckedPrograms
variable [Machine]

/- Packets. -/

def writePacket (addr size text tail : List Byte) : List Byte :=
  chr 'M' :: (addr ++ chr ',' :: (size ++ chr ':' :: (text ++ 0 :: tail)))

omit [Machine] in
theorem parseMemFormat_writePacket {addr size : List Byte} (text tail : List Byte)
    (haddr : WordText addr) (hsize : WordText size) :
    parseMemFormat (writePacket addr size text tail) = .ok (some (wordOf addr, wordOf size)) :=
  parseMemFormat_run (chr 'M') (chr ':') _ haddr hsize (by decide) (Or.inr ⟨rfl, rfl⟩)

omit [Machine] in
theorem memchr_first (before : List Byte) (c : Byte) (after : List Byte) (n : Nat)
    (fresh : ∀ b ∈ before, b ≠ c) (fits : before.length < n) :
    memchr (before ++ c :: after) c n = .ok (some (c :: after)) := by
  induction before generalizing n with
  | nil =>
    cases n with
    | zero => simp at fits
    | succ n => simp [memchr]
  | cons b before ih =>
    cases n with
    | zero => simp at fits
    | succ n =>
      rw [List.cons_append, memchr, if_neg (fresh b (by simp))]
      exact ih n (fun d mem => fresh d (by simp [mem])) (by simpa using fits)

omit [Machine] in
theorem memchr_writePacket {addr size : List Byte} (text tail : List Byte)
    (haddr : WordText addr) (hsize : WordText size) :
    memchr (writePacket addr size text tail) (chr ':') bufsize =
      .ok (some (chr ':' :: (text ++ 0 :: tail))) := by
  have colon : ¬ IsHex (chr ':') := by decide
  have := memchr_first (chr 'M' :: (addr ++ chr ',' :: size)) (chr ':') (text ++ 0 :: tail) bufsize
    (by
      intro b mem
      simp only [List.mem_cons, List.mem_append] at mem
      rcases mem with rfl | mem | rfl | mem
      · decide
      · exact isHex_ne (haddr.digits b mem) colon
      · decide
      · exact isHex_ne (hsize.digits b mem) colon)
    (by
      have := haddr.fits
      have := hsize.fits
      simp only [List.length_cons, List.length_append, bufsize]
      omega)
  simpa [writePacket] using this

/- What a write should do, and what writing one byte does. -/

def patched (m : Memory) (a : Word) (data : List Byte) : Memory := fun x =>
  if (x - a).toNat < data.length then data.getD (x - a).toNat 0 else m x

omit [Machine] in
theorem patched_nil (m : Memory) (a : Word) : patched m a [] = m := by
  funext x
  simp [patched]

omit [Machine] in
theorem patched_one (m : Memory) (a : Word) (b : Byte) :
    patched m a [b] = store m a (setByte (load m a) 0 b) := by
  funext x
  by_cases inside : (x - a).toNat < 8
  · rw [store_inside _ _ _ _ inside, byteOf_setByte _ _ _ _ inside]
    by_cases first : (x - a).toNat = 0
    · simp [patched, first]
    · rw [if_neg first, byteOf_load_offset _ _ _ inside, patched, List.length_singleton,
        if_neg (by omega)]
  · rw [store_outside _ _ _ _ inside, patched, List.length_singleton, if_neg (by omega)]

theorem readInferiorWord_run (ok : MemoryCallsSucceed) {s : State} {t : ThreadRef} {pd : Fin maxPds}
    (owner : (s.thread t).inferior = some pd) (mem : Word) :
    ∃ k : Kernel, k.memory = s.kernel.memory ∧
      (readInferiorWord (some t) mem).run s =
        .ok (some (load (memoryAt s pd) mem)) (s.withKernel k) := by
  obtain ⟨k, memory, _, run⟩ := vspaceReadWord_run ok (s.inferiors pd).vspace mem s
  refine ⟨k, memory, ?_⟩
  unfold readInferiorWord
  rw [run_bind_ok (EStateM.run_get s), run_bind_ok (deref_run rfl s),
    run_bind_ok (deref_run owner s), run]
  rfl

theorem writeInferiorWord_run (ok : MemoryCallsSucceed) {s : State} {t : ThreadRef}
    {pd : Fin maxPds} (owner : (s.thread t).inferior = some pd) (mem value : Word) :
    ∃ k : Kernel, k.memory = Function.update s.kernel.memory (s.inferiors pd).vspace
        (store (memoryAt s pd) mem value) ∧
      (writeInferiorWord (some t) mem value).run s = .ok false (s.withKernel k) := by
  obtain ⟨k, memory, _, run⟩ := vspaceWriteWord_run ok (s.inferiors pd).vspace mem value s
  refine ⟨k, memory, ?_⟩
  unfold writeInferiorWord
  rw [run_bind_ok (EStateM.run_get s), run_bind_ok (deref_run rfl s),
    run_bind_ok (deref_run owner s), run]

theorem infHex2mem_one (ok : MemoryCallsSucceed) {s : State} {t : ThreadRef} {pd : Fin maxPds}
    (owner : (s.thread t).inferior = some pd) {hi lo b : Byte} (pair : hexPair hi lo = b)
    (rest : List Byte) (mem : Word) :
    ∃ k : Kernel, k.memory = Function.update s.kernel.memory (s.inferiors pd).vspace
        (patched (memoryAt s pd) mem [b]) ∧
      (infHex2mem (some t) (hi :: lo :: rest) mem 1).run s = .ok (mem + 10) (s.withKernel k) := by
  obtain ⟨k₁, memory₁, run₁⟩ := readInferiorWord_run ok owner mem
  have owner₁ : ((s.withKernel k₁).thread t).inferior = some pd := owner
  obtain ⟨k₂, memory₂, run₂⟩ := writeInferiorWord_run ok owner₁ (mem + BitVec.ofNat 64 (0 / 8))
    (setByte (load (memoryAt s pd) mem) (0 % 8) (hexPair hi lo))
  refine ⟨k₂, ?_, ?_⟩
  · rw [memory₂, patched_one, pair, withKernel_kernel, memory₁]
    simp [memoryAt, memory₁]
  · rw [infHex2mem, show (1 : Int).toNat = 0 + 1 from rfl, infHex2memLoop, if_pos rfl,
      run_bind_ok run₁]
    dsimp only
    rw [if_pos (Or.inr rfl), run_bind_ok run₂]
    simp only [Bool.false_eq_true, if_false, infHex2memLoop]
    rw [show mem + 8 + 1 + BitVec.ofNat 64 (0 + 1) = mem + 10 by bv_omega]
    rfl

/- Bytes a write never reaches. -/

def SameByte (x : Word) (s t : State) : Prop := ∀ v, t.kernel.memory v x = s.kernel.memory v x

instance (x : Word) : Frame (SameByte x) where
  refl _ _ := rfl
  trans _ _ _ first second v := (second v).trans (first v)
  output _ _ _ := rfl
  drawn _ _ _ := rfl

theorem reading_sameByte (x : Word) (s : State) (v a : Word) :
    SameByte x s (s.withKernel (s.kernel.record (.vspaceReadWord v a))) := by
  intro v'
  simp only [withKernel_kernel, Kernel.record, KernelCall.effect]
  split <;> rfl

theorem writing_sameByte {x mem : Word} (away : ¬ (x - mem).toNat < 8) (s : State)
    (v value : Word) :
    SameByte x s (s.withKernel (s.kernel.record (.vspaceWriteWord v mem value))) := by
  intro v'
  simp only [withKernel_kernel, Kernel.record, KernelCall.effect]
  split
  · rfl
  · by_cases here : v' = v
    · subst here
      simp only [Kernel.storeWord, Function.update_self]
      exact store_outside _ _ _ _ away
    · simp only [Kernel.storeWord, Function.update_of_ne here]

theorem writeInferiorWord_sameByte {x mem : Word} (away : ¬ (x - mem).toNat < 8)
    (thread : Option ThreadRef) (value : Word) :
    Stays (SameByte x) (writeInferiorWord thread mem value) :=
  stays_bind stays_get fun _ => stays_bind (stays_deref _) fun _ =>
    stays_bind (stays_deref _) fun _ =>
    fun s => writing_sameByte away s _ value

/-- From an address past `x` the loop never comes back to `x`: it only moves up, by at most
    nine for every byte. -/
theorem infHex2memLoop_sameByte (x : Word) (thread : Option ThreadRef) (n i : Nat)
    (buf : List Byte) (off : Nat) (word : Word) (above : 0 < off + i / 8 ∨ (i % 8 ≠ 7 ∧ 1 < n))
    (below : off + i + 11 * n + 16 < 2 ^ 64) :
    Stays (SameByte x) (infHex2memLoop thread n i buf (x + BitVec.ofNat 64 off) word) := by
  induction n generalizing i buf off word with
  | zero => exact stays_pure _
  | succ n ih =>
    refine stays_branch (stays_readInferiorWord (reading_sameByte x) _ _) (stays_pure _)
      fun word => ?_
    match word, buf with
    | none, _ => exact stays_pure _
    | some word, [] => exact stays_throw _
    | some word, [hi] => exact stays_throw _
    | some word, hi :: lo :: buf =>
      refine stays_cond (fun last => ?_) fun more => ?_
      · have away : ¬ (x - (x + BitVec.ofNat 64 off + BitVec.ofNat 64 (i / 8))).toNat < 8 := by
          have start : 0 < off + i / 8 := by omega
          bv_omega
        refine stays_bind (writeInferiorWord_sameByte away _ _) fun err =>
          stays_ite (stays_pure _) ?_
        have next := ih (i + 1) buf (off + 9) (setByte word (i % 8) (hexPair hi lo))
          (by omega) (by omega)
        rwa [show x + BitVec.ofNat 64 (off + 9) = x + BitVec.ofNat 64 off + 8 + 1 by bv_omega]
          at next
      · have next := ih (i + 1) buf (off + 1) (setByte word (i % 8) (hexPair hi lo))
          (by omega) (by omega)
        rwa [show x + BitVec.ofNat 64 (off + 1) = x + BitVec.ofNat 64 off + 1 by bv_omega] at next

theorem infHex2mem_start_sameByte (thread : Option ThreadRef) (buf : List Byte) (mem : Word)
    {size : Int} (several : size ≠ 1) (small : size < 2 ^ 31) :
    Stays (SameByte mem) (infHex2mem thread buf mem size) := by
  by_cases none : size ≤ 0
  · rw [infHex2mem, Int.toNat_of_nonpos none]
    exact stays_pure _
  · have loop := infHex2memLoop_sameByte mem thread size.toNat 0 buf 0 0 (by omega) (by omega)
    rwa [show mem + BitVec.ofNat 64 0 = mem by bv_omega] at loop

/- Reading back. -/

theorem readPacket_run (ok : MemoryCallsSucceed) {s : State} {t : ThreadRef} {pd : Fin maxPds}
    (targets : Targets s t pd) {addr size : List Byte} (tail : List Byte) (haddr : WordText addr)
    (hsize : WordText size) (short : hexNumber size ≤ 1023) :
    ∃ u, (gdbHandlePacket (readPacket addr size tail)).run s = .ok false u ∧
      u.reply = hexDigits (bytesFrom (memoryAt s pd) (wordOf addr) (hexNumber size)) := by
  have low : askedBytes size = hexNumber size := Nat.mod_eq_of_lt (by omega)
  obtain ⟨u, run, reads, _⟩ := readPacket_outcome targets haddr hsize (by omega) tail
  rw [low] at reads
  exact ⟨u, run, reads fun _ _ _ => ok.read _ _ _⟩

/- Which writes are exact. -/

/-- The packet is answered with OK and changes the bytes it carries and no other; an `m`
    packet for the same bytes then returns their digits. -/
def WritesExactly (pd : Fin maxPds) (addr size text tail data : List Byte) (s : State) : Prop :=
  ∃ t, (gdbHandlePacket (writePacket addr size text tail)).run s = .ok false t ∧
    t.reply = str "OK" ∧
    t.kernel.memory = Function.update s.kernel.memory (s.inferiors pd).vspace
      (patched (memoryAt s pd) (wordOf addr) data) ∧
    (data.length ≤ 1023 → ∀ tail', ∃ u,
      (gdbHandlePacket (readPacket addr size tail')).run t = .ok false u ∧ u.reply = hexDigits data)

def State.withMemory (s : State) (pd : Fin maxPds) (m : Memory) : State :=
  s.withKernel { s.kernel with memory := Function.update s.kernel.memory (s.inferiors pd).vspace m }

def writeReply (mem : Word) : List Byte := if mem = 0 then str "E03" else str "OK"

theorem writeReply_run (mem : Word) (u : State) :
    (strlcpy 0 (writeReply mem) bufsize).run u = .ok () (u.lay 0 (writeReply mem)) := by
  unfold writeReply
  split <;> exact strlcpy_run _ _ _ _ (by decide) (by decide)

theorem handleWriteMem_found {input found : List Byte} {a size : Word}
    (parse : parseMemFormat input = .ok (some (a, size)))
    (colon : memchr input (chr ':') bufsize = .ok (some found)) :
    handleWriteMem input = (do
      let s ← get
      let mem ← infHex2mem s.targetThread found.tail a (intOfWord size)
      strlcpy 0 (writeReply mem) bufsize) := by
  have reply (mem : Word) :
      (if mem = 0 then strlcpy 0 (str "E03") bufsize else strlcpy 0 (str "OK") bufsize) =
      strlcpy 0 (writeReply mem) bufsize := by
    unfold writeReply
    split <;> rfl
  rw [handleWriteMem, parse, colon]
  simp only [reply]
  rfl

theorem handleWriteMem_writePacket {addr size : List Byte} (text tail : List Byte)
    (haddr : WordText addr) (hsize : WordText size) :
    handleWriteMem (writePacket addr size text tail) = (do
      let s ← get
      let mem ← infHex2mem s.targetThread (text ++ 0 :: tail) (wordOf addr)
        (intOfWord (wordOf size))
      strlcpy 0 (writeReply mem) bufsize) :=
  handleWriteMem_found (parseMemFormat_writePacket text tail haddr hsize)
    (memchr_writePacket text tail haddr hsize)

theorem writePacket_run {s u : State} {t : ThreadRef} {pd : Fin maxPds} (targets : Targets s t pd)
    {addr size : List Byte} (text tail : List Byte) (haddr : WordText addr) (hsize : WordText size)
    {mem : Word} (run : (infHex2mem (some t) (text ++ 0 :: tail) (wordOf addr)
      (intOfWord (wordOf size))).run (s.lay 0 []) = .ok mem u) :
    (gdbHandlePacket (writePacket addr size text tail)).run s =
      .ok false (u.lay 0 (writeReply mem)) := by
  have dispatch : gdbHandlePacket (writePacket addr size text tail) =
      (do put 0 0; handleWriteMem (writePacket addr size text tail); return false) := rfl
  rw [dispatch, run_bind_ok (put_zero_run (by decide) s)]
  refine run_bind_ok (a := ()) ?_ _
  rw [handleWriteMem_writePacket text tail haddr hsize, run_bind_ok (EStateM.run_get _),
    lay_targetThread, targets.target, run_bind_ok run]
  exact writeReply_run mem u

theorem writeReply_ok (u : State) (mem : Word) :
    (u.lay 0 (writeReply mem)).reply = str "OK" ↔ mem ≠ 0 := by
  unfold writeReply
  by_cases zero : mem = 0
  · rw [if_pos zero, lay_reply _ _ (by decide) (by decide)]
    exact iff_of_false (by decide) (fun ne => ne zero)
  · rw [if_neg zero, lay_reply _ _ (by decide) (by decide)]
    exact iff_of_true rfl zero

theorem writesExactly_of_run (ok : MemoryCallsSucceed) {s u : State} {t : ThreadRef}
    {pd : Fin maxPds} (targets : Targets s t pd) {addr size text data : List Byte}
    (tail : List Byte) (haddr : WordText addr) (hsize : WordText size)
    (count : hexNumber size = data.length) {mem : Word} (nonzero : mem ≠ 0)
    (run : (infHex2mem (some t) (text ++ 0 :: tail) (wordOf addr)
      (intOfWord (wordOf size))).run (s.lay 0 []) = .ok mem u)
    (same : u.inferiors = s.inferiors ∧ u.targetThread = s.targetThread)
    (memory : u.kernel.memory = Function.update s.kernel.memory (s.inferiors pd).vspace
      (patched (memoryAt s pd) (wordOf addr) data)) :
    WritesExactly pd addr size text tail data s := by
  refine ⟨_, writePacket_run targets text tail haddr hsize run, (writeReply_ok u mem).mpr nonzero,
    memory, fun short tail' => ?_⟩
  have targets' : Targets (u.lay 0 (writeReply mem)) t pd := by
    refine ⟨same.2.trans targets.target, ?_⟩
    rw [lay_thread, State.thread, same.1]
    exact targets.owner
  obtain ⟨v, run', reply⟩ := readPacket_run ok targets' tail' haddr hsize (by omega)
  refine ⟨v, run', ?_⟩
  have there : memoryAt (u.lay 0 (writeReply mem)) pd = patched (memoryAt s pd)
      (wordOf addr) data := by
    rw [memoryAt, lay_kernel, memory, lay_inferiors, same.1, Function.update_self]
  rw [reply, there, count]
  congr 1
  apply List.ext_getElem
  · simp [bytesFrom]
  · intro j lt _
    have small : j < data.length := by simpa [bytesFrom] using lt
    have wide : data.length < 2 ^ 64 := by omega
    simp only [bytesFrom, List.getElem_map, List.getElem_range', patched, Nat.zero_add, Nat.one_mul,
      offset_add _ (show j < 2 ^ 64 by omega), if_pos small]
    exact List.getD_eq_getElem _ _ small

theorem not_exact_of_sameByte {pd : Fin maxPds} {addr size text tail data : List Byte} {s : State}
    {j : Nat} (inside : j < data.length) (narrow : j < 2 ^ 64)
    (differs : memoryAt s pd (wordOf addr + BitVec.ofNat 64 j) ≠ data.getD j 0)
    (same : SameByte (wordOf addr + BitVec.ofNat 64 j) s
      (after (gdbHandlePacket (writePacket addr size text tail)) s)) :
    ¬ WritesExactly pd addr size text tail data s := by
  rintro ⟨t, run, _, memory, _⟩
  have byte := same (s.inferiors pd).vspace
  rw [after_ok run, memory, Function.update_self, patched, offset_add _ narrow,
    if_pos inside] at byte
  exact differs byte.symm

/-- At least two bytes are not written exactly over memory that differs from all of them. -/
theorem several_not_exact (ok : MemoryCallsSucceed) {s : State} {t : ThreadRef}
    {pd : Fin maxPds} (targets : Targets s t pd) {addr size text : List Byte} {hi lo b c : Byte}
    {data : List Byte} (tail : List Byte) (haddr : WordText addr) (hsize : WordText size)
    (differs : ∀ j < 2, memoryAt s pd (wordOf addr + BitVec.ofNat 64 j) ≠
      (b :: c :: data).getD j 0) :
    ¬ WritesExactly pd addr size (hi :: lo :: text) tail (b :: c :: data) s := by
  by_cases one : intOfWord (wordOf size) = 1
  · -- the size was narrowed to one byte
    apply not_exact_of_sameByte (j := 1) (by simp) (by decide) (differs 1 (by decide))
    obtain ⟨k, memory, run⟩ := infHex2mem_one ok (s := s.lay 0 [])
      targets.owner (rfl : hexPair hi lo = _) (text ++ 0 :: tail) (wordOf addr)
    rw [← one] at run
    rw [after_ok (writePacket_run targets (hi :: lo :: text) tail haddr hsize run)]
    intro v
    rw [lay_kernel, withKernel_kernel, memory]
    by_cases here : v = (s.inferiors pd).vspace
    · rw [here, lay_inferiors, Function.update_self, patched,
        if_neg (by simp only [List.length_singleton]; bv_omega)]
      rfl
    · rw [lay_inferiors, Function.update_of_ne here]
      rfl
  · apply not_exact_of_sameByte (j := 0) (by simp) (by decide) (differs 0 (by decide))
    have handler : Stays (SameByte (wordOf addr + BitVec.ofNat 64 0))
        (handleWriteMem (writePacket addr size (hi :: lo :: text) tail)) := by
      rw [handleWriteMem_writePacket _ tail haddr hsize,
        show wordOf addr + BitVec.ofNat 64 0 = wordOf addr by bv_omega]
      exact stays_bind stays_get fun _ => stays_bind
        (infHex2mem_start_sameByte _ _ _ one (intOfWord_lt _)) fun _ => stays_strlcpy _ _ _
    have packet : Stays (SameByte (wordOf addr + BitVec.ofNat 64 0)) (do
        put 0 0; handleWriteMem (writePacket addr size (hi :: lo :: text) tail); return false) :=
      stays_bind (stays_put _ _) fun _ => stays_bind handler fun _ => stays_pure _
    exact packet s

/-- A packet writes exactly, whatever memory holds, if and only if it carries no byte and its
    address is not zero, or one byte and its address is not ten below 2^64. -/
theorem write_mem_exact_iff (ok : MemoryCallsSucceed) {s : State} {t : ThreadRef}
    {pd : Fin maxPds} (targets : Targets s t pd) {addr size text data : List Byte}
    (tail : List Byte) (haddr : WordText addr) (hsize : WordText size)
    (count : hexNumber size = data.length) (encodes : HexOf text data) :
    (∀ m, WritesExactly pd addr size text tail data (s.withMemory pd m)) ↔
      (data.length = 0 ∧ hexNumber addr ≠ 0) ∨
      (data.length = 1 ∧ hexNumber addr + 10 ≠ 2 ^ 64) := by
  have count' := wordOf_toNat hsize
  have address := wordOf_toNat haddr
  have length := hexOf_length encodes
  have reaches (m : Memory) : Targets (s.withMemory pd m) t pd := ⟨targets.target, targets.owner⟩
  have owner (m : Memory) : (((s.withMemory pd m).lay 0 []).thread t).inferior = some pd :=
    targets.owner
  match data, text, encodes, length with
  | [], [], _, _ =>
    have none : intOfWord (wordOf size) = 0 := by
      rw [intOfWord_small (by simp only [List.length_nil] at count; omega)]
      simp only [List.length_nil] at count
      omega
    have run (u : State) : (infHex2mem (some t) ([] ++ 0 :: tail) (wordOf addr)
        (intOfWord (wordOf size))).run u = .ok (wordOf addr) u := by
      rw [none]
      exact congrArg (fun a => EStateM.Result.ok a u) (by bv_omega)
    have zero : wordOf addr ≠ 0 ↔ hexNumber addr ≠ 0 := by
      rw [← address]
      bv_omega
    constructor
    · intro writes
      obtain ⟨u, run', reply, _⟩ := writes (fun _ => 0)
      rw [writePacket_run (reaches _) [] tail haddr hsize (run _)] at run'
      cases run'
      exact Or.inl ⟨rfl, zero.mp ((writeReply_ok _ _).mp reply)⟩
    · rintro (⟨_, nonzero⟩ | ⟨one, _⟩) m
      · refine writesExactly_of_run ok (reaches m) tail haddr hsize count (zero.mpr nonzero) (run _)
          ⟨rfl, rfl⟩ ?_
        rw [patched_nil, memoryAt, Function.update_eq_self]
        rfl
      · simp at one
  | [b], hi :: lo :: [], encodes, _ =>
    have one : intOfWord (wordOf size) = 1 := by
      simp only [List.length_singleton] at count
      rw [intOfWord_small (by omega)]
      omega
    have pair := hexPair_of_halves encodes.1 encodes.2.1
    have zero : wordOf addr + 10 ≠ 0 ↔ hexNumber addr + 10 ≠ 2 ^ 64 := by
      rw [← address]
      bv_omega
    constructor
    · intro writes
      obtain ⟨u, run', reply, _⟩ := writes (fun _ => 0)
      obtain ⟨k, memory, run⟩ := infHex2mem_one ok (owner _) pair (0 :: tail) (wordOf addr)
      rw [← one] at run
      rw [writePacket_run (reaches _) [hi, lo] tail haddr hsize run] at run'
      cases run'
      exact Or.inr ⟨rfl, zero.mp ((writeReply_ok _ _).mp reply)⟩
    · rintro (⟨none, _⟩ | ⟨_, nonzero⟩) m
      · simp at none
      · obtain ⟨k, memory, run⟩ := infHex2mem_one ok (owner m) pair (0 :: tail) (wordOf addr)
        rw [← one] at run
        exact writesExactly_of_run ok (reaches m) tail haddr hsize count (zero.mpr nonzero) run
          ⟨rfl, rfl⟩ memory
  | b :: c :: data, hi :: lo :: text, encodes, _ =>
    constructor
    · intro writes
      exfalso
      -- memory that differs from the data in every byte to be written
      let m : Memory := fun x => (b :: c :: data).getD (x - wordOf addr).toNat 0 + 1
      apply several_not_exact ok (reaches m) tail haddr hsize _ (writes m)
      intro j two
      have there : memoryAt (s.withMemory pd m) pd = m := Function.update_self _ _ _
      rw [there, show m (wordOf addr + BitVec.ofNat 64 j) = (b :: c :: data).getD j 0 + 1 by
        simp only [m, offset_add _ (show j < 2 ^ 64 by omega)]]
      bv_omega
    · rintro (⟨none, _⟩ | ⟨one, _⟩) m
      · simp at none
      · simp at one

omit [Machine] in
theorem write_one_byte_exact : letI := obligingBoard
    WritesExactly 0 (str "1000") (str "1") (str "aB") [] [0xab]
      (soloState.withMemory 0 fun _ => 0) := by
  let _ := obligingBoard
  have encodes : HexOf (str "aB") [0xab] := ⟨by decide, by decide, trivial⟩
  exact (write_mem_exact_iff ⟨fun _ _ _ => rfl, fun _ _ _ _ => rfl⟩ solo_targets []
    ⟨by decide, by decide⟩ ⟨by decide, by decide⟩ rfl encodes).mpr
      (Or.inr ⟨rfl, by decide⟩) fun _ => 0

omit [Machine] in
/-- Two bytes at 0x1000 over zeroed memory: the first is never written. -/
theorem write_two_bytes_not_exact : letI := obligingBoard
    ¬ WritesExactly 0 (str "1000") (str "2") (str "aabb") [] [0xaa, 0xbb] soloState := by
  let _ := obligingBoard
  apply several_not_exact ⟨fun _ _ _ => rfl, fun _ _ _ _ => rfl⟩ solo_targets []
    ⟨by decide, by decide⟩ ⟨by decide, by decide⟩
  decide

end Libgdb
