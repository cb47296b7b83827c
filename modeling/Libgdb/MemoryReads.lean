import Libgdb.Frames
import Libgdb.ReplyText

/-!
`m` packets: the bytes asked for, fetched a word at a time, or an error. The size is doubled in 64
bits before it is checked, so the largest sizes pass the check as small ones.
-/
namespace Libgdb
open ByteMemory CheckedPrograms
variable [Machine]

/- Packets. -/

def readPacket (addr size tail : List Byte) : List Byte :=
  chr 'm' :: (addr ++ chr ',' :: (size ++ 0 :: tail))

structure WordText (text : List Byte) : Prop where
  digits : ∀ c ∈ text, IsHex c
  fits : text.length ≤ 16

def wordOf (text : List Byte) : Word := BitVec.ofNat 64 (hexNumber text)

omit [Machine] in
theorem wordOf_toNat {text : List Byte} (word : WordText text) :
    (wordOf text).toNat = hexNumber text := by
  have small := hexNumber_lt text word.digits
  have wide : 16 ^ text.length ≤ 16 ^ 16 := Nat.pow_le_pow_right (by decide) word.fits
  rw [wordOf, BitVec.toNat_ofNat, Nat.mod_eq_of_lt (by omega)]

omit [Machine] in
theorem intOfWord_lt (w : Word) : intOfWord w < 2 ^ 31 := by
  have := BitVec.toInt_lt (x := w.setWidth 32)
  rw [intOfWord]
  omega

omit [Machine] in
theorem intOfWord_small {w : Word} (small : w.toNat < 2 ^ 31) : intOfWord w = w.toNat := by
  rw [intOfWord, BitVec.toInt_setWidth, Int.bmod_eq_of_le] <;> omega

omit [Machine] in
theorem parseMemFormat_run (first last : Byte) {addr size : List Byte} (rest : List Byte)
    (haddr : WordText addr) (hsize : WordText size) (ends : ¬ IsHex last)
    (accepted : last = 0 ∨ (first = chr 'M' ∧ last = chr ':')) :
    parseMemFormat (first :: (addr ++ chr ',' :: (size ++ last :: rest))) =
      .ok (some (wordOf addr, wordOf size)) := by
  have comma : ¬ IsHex (chr ',') := by decide
  unfold parseMemFormat
  simp only [peek, List.tail_cons,
    hexstrToInt_number addr haddr.digits _ comma (size ++ last :: rest) haddr.fits,
    hexstrToInt_number size hsize.digits last ends rest hsize.fits, bind, Except.bind]
  rw [if_neg (by simp), if_pos accepted]
  rfl

omit [Machine] in
theorem parseMemFormat_readPacket {addr size : List Byte} (tail : List Byte)
    (haddr : WordText addr) (hsize : WordText size) :
    parseMemFormat (readPacket addr size tail) = .ok (some (wordOf addr, wordOf size)) :=
  parseMemFormat_run (chr 'm') 0 tail haddr hsize not_isHex_zero (Or.inl rfl)

/- The target's memory. -/

/-- The thread packets address, and its inferior. -/
structure Targets (s : State) (t : ThreadRef) (pd : Fin maxPds) : Prop where
  target : s.targetThread = some t
  owner : (s.thread t).inferior = some pd

def memoryAt (s : State) (pd : Fin maxPds) : Memory := s.kernel.memory (s.inferiors pd).vspace

theorem record_read (k : Kernel) (vspace mem : Word) :
    (k.record (.vspaceReadWord vspace mem)).memory = k.memory := by
  simp only [Kernel.record, KernelCall.effect, ite_self]

theorem readInferiorWord_outcome {s : State} {t : ThreadRef} {pd : Fin maxPds}
    (owner : (s.thread t).inferior = some pd) (mem : Word) :
    (readInferiorWord (some t) mem).run s =
      .ok (if Machine.fails s.kernel.calls (.vspaceReadWord (s.inferiors pd).vspace mem) then none
        else some (load (memoryAt s pd) mem))
        (s.withKernel (s.kernel.record (.vspaceReadWord (s.inferiors pd).vspace mem))) := by
  unfold readInferiorWord
  rw [run_bind_ok (EStateM.run_get s), run_bind_ok (deref_run rfl s),
    run_bind_ok (deref_run owner s)]
  unfold vspaceReadWord
  rw [run_bind_ok (invoke_run _ s)]
  have memory := record_read s.kernel (s.inferiors pd).vspace mem
  simp only [memoryAt, ← memory]
  rfl

def bytesFrom (m : Memory) (a : Word) (n : Nat) : List Byte :=
  (List.range' 0 n).map fun j => m (a + BitVec.ofNat 64 j)

/- Reads of successive words. -/

/-- The calls made once `i` words from `a` on have been asked for. -/
def readsMade (vspace a : Word) (calls : List KernelCall) : Nat → List KernelCall
  | 0 => calls
  | i + 1 => .vspaceReadWord vspace (a + BitVec.ofNat 64 (8 * i)) :: readsMade vspace a calls i

def WordReads (vspace a : Word) (calls : List KernelCall) (i : Nat) : Prop :=
  Machine.fails (readsMade vspace a calls i)
    (.vspaceReadWord vspace (a + BitVec.ofNat 64 (8 * i))) = false

instance (vspace a : Word) (calls : List KernelCall) (i : Nat) :
    Decidable (WordReads vspace a calls i) :=
  inferInstanceAs (Decidable (_ = _))

def WordsRead (vspace a : Word) (calls : List KernelCall) (i last : Nat) : Prop :=
  ∀ j, i ≤ j → j < last → WordReads vspace a calls j

theorem wordsRead_cons {vspace a : Word} {calls : List KernelCall} {i last : Nat} (lt : i < last) :
    WordsRead vspace a calls i last ↔ WordReads vspace a calls i ∧ WordsRead vspace a calls
    (i + 1) last := by
  constructor
  · exact fun all => ⟨all i (le_refl i) lt, fun j le lt' => all j (by omega) lt'⟩
  · rintro ⟨first, rest⟩ j le lt'
    rcases Nat.eq_or_lt_of_le le with rfl | above
    · exact first
    · exact rest j above lt'

/- The loop. -/

def infMem2hexByte (thread : Option ThreadRef) (n i : Nat) (mem word : Word) (buf : Nat) :
    Stub (Option Nat) := do
  put buf (intToHexchar ((byteOf word (i % 8)).toNat >>> 4 : Nat))
  put (buf + 1) (intToHexchar ((byteOf word (i % 8)).toNat % 16 : Nat))
  infMem2hexLoop thread n (i + 1) mem word (buf + 2)

theorem infMem2hexLoop_first {i : Nat} (first : i % 8 = 0) (thread : Option ThreadRef) (n : Nat)
    (mem word : Word) (buf : Nat) : infMem2hexLoop thread (n + 1) i mem word buf = (do
      match ← readInferiorWord thread mem with
      | none => return none
      | some word => infMem2hexByte thread n i (mem + 8) word buf) := by
  rw [infMem2hexLoop, if_pos first, if_pos first]
  rfl

theorem infMem2hexLoop_next {i : Nat} (next : i % 8 ≠ 0) (thread : Option ThreadRef) (n : Nat)
    (mem word : Word) (buf : Nat) : infMem2hexLoop thread (n + 1) i mem word buf =
    infMem2hexByte thread n i mem word buf := by
  rw [infMem2hexLoop, if_neg next, if_neg next]
  rfl

omit [Machine] in
theorem byteOf_wordAt (m : Memory) (a : Word) (i : Nat) :
    byteOf (load m (a + BitVec.ofNat 64 (8 * (i / 8)))) (i % 8) = m (a + BitVec.ofNat 64 i) := by
  rw [byteOf_load _ _ (Nat.mod_lt _ (by decide))]
  congr 1
  rw [BitVec.add_assoc, ← BitVec.ofNat_add, Nat.div_add_mod i 8]

theorem infMem2hexByte_laid (thread : Option ThreadRef) (n i : Nat) (mem word : Word) {buf : Nat}
    (fits : buf + 2 < bufsize) (s : State) :
    (infMem2hexByte thread n i mem word buf).run s =
    (infMem2hexLoop thread n (i + 1) mem word (buf + 2)).run
      (s.withOutput (layText s.output buf (hexDigits [byteOf word (i % 8)]))) := by
  rw [infMem2hexByte, run_bind_ok (put_run (by omega) _ _), run_bind_ok (put_run (by omega) _ _),
    withOutput_output, withOutput_withOutput, layText_append _ _ _ (by rfl)]
  rfl

/-- From iteration `i` the loop lays down the digits of the `n` bytes from `a + i` on, or returns
    NULL where a word cannot be read. -/
theorem infMem2hexLoop_outcome {s : State} {t : ThreadRef} {pd : Fin maxPds}
    (owner : (s.thread t).inferior = some pd)
    (a : Word) {calls : List KernelCall} (n i : Nat) (word : Word) (buf : Nat)
    (made : s.kernel.calls = readsMade (s.inferiors pd).vspace a calls ((i + 7) / 8))
    (current : i % 8 ≠ 0 → word = load (memoryAt s pd) (a + BitVec.ofNat 64 (8 * (i / 8))))
    (fits : buf + 2 * n < bufsize) :
    (WordsRead (s.inferiors pd).vspace a calls ((i + 7) / 8) ((i + n + 7) / 8) → ∃ k : Kernel,
      k.memory = s.kernel.memory ∧
      (infMem2hexLoop (some t) n i (a + BitVec.ofNat 64 (8 * ((i + 7) / 8))) word buf).run s =
        .ok (some (buf + 2 * n)) ((s.withKernel k).lay buf
          (hexDigits ((List.range' i n).map fun j => memoryAt s pd (a + BitVec.ofNat 64 j))))) ∧
    (¬ WordsRead (s.inferiors pd).vspace a calls ((i + 7) / 8) ((i + n + 7) / 8) →
      ∃ u, (infMem2hexLoop (some t) n i (a + BitVec.ofNat 64 (8 * ((i + 7) / 8))) word buf).run s =
        .ok none u) := by
  induction n generalizing i word buf s with
  | zero =>
    refine ⟨fun _ => ⟨s.kernel, rfl, ?_⟩, fun missing => absurd (fun j le lt => ?_) missing⟩
    · rw [infMem2hexLoop, run_bind_ok (put_zero_run (by omega) s)]
      rfl
    · omega
  | succ n ih =>
    have step : (i + (n + 1) + 7) / 8 = (i + 1 + n + 7) / 8 := by rw [Nat.add_right_comm i 1 n]; rfl
    -- once the word is there, the byte is laid down and the rest is the loop from `i + 1`
    have round (k : Kernel) (memory : k.memory = s.kernel.memory)
        (made' : k.calls = readsMade (s.inferiors pd).vspace a calls ((i + 1 + 7) / 8)) :
        let w := load (memoryAt s pd) (a + BitVec.ofNat 64 (8 * (i / 8)))
        (WordsRead (s.inferiors pd).vspace a calls ((i + 1 + 7) / 8) ((i + 1 + n + 7) / 8) →
          ∃ k' : Kernel,
          k'.memory = s.kernel.memory ∧
          (infMem2hexByte (some t) n i (a + BitVec.ofNat 64 (8 * ((i + 1 + 7) / 8))) w buf).run
            (s.withKernel k) =
            .ok (some (buf + 2 * (n + 1))) ((s.withKernel k').lay buf
              (hexDigits ((List.range' i (n + 1)).map fun j =>
                memoryAt s pd (a + BitVec.ofNat 64 j))))) ∧
        (¬ WordsRead (s.inferiors pd).vspace a calls ((i + 1 + 7) / 8) ((i + 1 + n + 7) / 8) → ∃ u,
          (infMem2hexByte (some t) n i (a + BitVec.ofNat 64 (8 * ((i + 1 + 7) / 8))) w buf).run
            (s.withKernel k) =
            .ok none u) := by
      intro w
      let b := memoryAt s pd (a + BitVec.ofNat 64 i)
      let u := (s.withKernel k).withOutput (layText s.output buf (hexDigits [b]))
      have same : memoryAt u pd = memoryAt s pd := congrFun memory _
      have laid : (infMem2hexByte (some t) n i (a + BitVec.ofNat 64 (8 * ((i + 1 + 7) / 8))) w
          buf).run (s.withKernel k) =
          (infMem2hexLoop (some t) n (i + 1) (a + BitVec.ofNat 64 (8 * ((i + 1 + 7) / 8))) w
            (buf + 2)).run u := by
        rw [infMem2hexByte_laid _ _ _ _ _ (by omega), byteOf_wordAt]
        rfl
      obtain ⟨reads, stops⟩ := ih (s := u) owner (i + 1) w (buf + 2) made'
        (by intro inside; rw [same, show (i + 1) / 8 = i / 8 by omega]) (by omega)
      refine ⟨fun all => ?_, fun missing => ?_⟩
      · obtain ⟨k', memory', run⟩ := reads all
        refine ⟨k', memory'.trans memory, ?_⟩
        rw [same] at run
        have whole (rest : List Byte) :
            ((s.withKernel k').withOutput (layText s.output buf (hexDigits [b]))).lay
            (buf + 2) rest =
            (s.withKernel k').lay buf (hexDigits [b] ++ rest) :=
              lay_after (s.withKernel k') _ _ (by rfl)
        rw [laid, run, show buf + 2 + 2 * n = buf + 2 * (n + 1) by omega]
        exact congrArg _ (whole _)
      · obtain ⟨v, run⟩ := stops missing
        exact ⟨v, laid.trans run⟩
    by_cases start : i % 8 = 0
    · have here : (i + 7) / 8 = i / 8 := by omega
      have next : (i + 1 + 7) / 8 = (i + 7) / 8 + 1 := by omega
      rw [step, wordsRead_cons (by omega), infMem2hexLoop_first start,
        run_bind_ok (readInferiorWord_outcome owner _), made]
      have advance : a + BitVec.ofNat 64 (8 * ((i + 7) / 8)) + 8 =
          a + BitVec.ofNat 64 (8 * ((i + 1 + 7) / 8)) := by
        rw [next, Nat.mul_add, BitVec.ofNat_add, BitVec.add_assoc]
        rfl
      cases fails : Machine.fails (readsMade (s.inferiors pd).vspace a calls ((i + 7) / 8))
          (.vspaceReadWord (s.inferiors pd).vspace (a + BitVec.ofNat 64 (8 * ((i + 7) / 8)))) with
      | true =>
        refine ⟨fun all => ?_, fun _ => ⟨_, rfl⟩⟩
        rw [WordReads, fails] at all
        cases all.1
      | false =>
        obtain ⟨reads, stops⟩ := round (s.kernel.record (.vspaceReadWord (s.inferiors pd).vspace
          (a + BitVec.ofNat 64 (8 * ((i + 7) / 8))))) (record_read _ _ _)
            (by rw [record_calls, made, next, readsMade])
        rw [advance, if_neg Bool.false_ne_true]
        rw [next] at reads stops ⊢
        rw [here] at reads stops ⊢
        exact ⟨fun all => reads all.2, fun missing => stops fun rest =>
          missing ⟨here ▸ fails, rest⟩⟩
    · have next : (i + 1 + 7) / 8 = (i + 7) / 8 := by omega
      obtain ⟨reads, stops⟩ := round s.kernel rfl (by rw [made, next])
      rw [next] at reads stops
      rw [step, infMem2hexLoop_next start, current start]
      exact ⟨reads, stops⟩

/- Packets. -/

/-- The number of bytes a size that passes the check asks for. -/
def askedBytes (size : List Byte) : Nat := hexNumber size % 2 ^ 63

omit [Machine] in
theorem check_passes_iff {size : List Byte} (hsize : WordText size) :
    ¬ BitVec.ofNat 64 (bufsize - 1) < wordOf size * 2 ↔ askedBytes size ≤ 1023 := by
  have count := wordOf_toNat hsize
  have wide := (wordOf size).isLt
  rw [BitVec.lt_def, BitVec.toNat_ofNat, BitVec.toNat_mul, count,
    show (2 : Word).toNat = 2 from rfl,
    show bufsize - 1 = 2047 from rfl, askedBytes]
  omega

omit [Machine] in
theorem intOfWord_asked {size : List Byte} (hsize : WordText size)
    (short : askedBytes size ≤ 1023) :
    (intOfWord (wordOf size)).toNat = askedBytes size := by
  have count := wordOf_toNat hsize
  have wide := (wordOf size).isLt
  unfold askedBytes at short ⊢
  have low : ((wordOf size).setWidth 32).toNat = hexNumber size % 2 ^ 63 := by
    rw [BitVec.toNat_setWidth, count]
    omega
  rw [intOfWord, BitVec.toInt_eq_toNat_of_lt (by omega), low, Int.toNat_natCast]

theorem readPacket_refused {addr size : List Byte} (haddr : WordText addr) (hsize : WordText size)
    (long : 1023 < askedBytes size) (tail : List Byte) (s : State) :
    ∃ u, (gdbHandlePacket (readPacket addr size tail)).run s = .ok false u ∧
    u.reply = str "E01" := by
  have dispatch : gdbHandlePacket (readPacket addr size tail) =
      (do put 0 0; handleReadMem (readPacket addr size tail); return false) := rfl
  refine ⟨_, ?_, lay_reply (s.lay 0 []) (str "E01") (by decide) (by decide)⟩
  rw [dispatch, run_bind_ok (put_zero_run (by decide) s)]
  apply run_bind_ok
  unfold handleReadMem
  rw [run_bind_ok (liftParse_run (parseMemFormat_readPacket tail haddr hsize) _)]
  dsimp only
  rw [if_pos
    (by have := (check_passes_iff hsize).not; rw [not_not] at this; exact this.mpr (by omega))]
  exact strlcpy_run 0 (str "E01") bufsize _ (by decide) (by decide)

theorem readPacket_outcome {s : State} {t : ThreadRef} {pd : Fin maxPds} (targets : Targets s t pd)
    {addr size : List Byte}
    (haddr : WordText addr) (hsize : WordText size) (short : askedBytes size ≤ 1023)
    (tail : List Byte) :
    ∃ u, (gdbHandlePacket (readPacket addr size tail)).run s = .ok false u ∧
      (WordsRead (s.inferiors pd).vspace (wordOf addr) s.kernel.calls 0
        ((askedBytes size + 7) / 8) →
        u.reply = hexDigits (bytesFrom (memoryAt s pd) (wordOf addr) (askedBytes size))) ∧
      (¬ WordsRead (s.inferiors pd).vspace (wordOf addr) s.kernel.calls 0
        ((askedBytes size + 7) / 8) →
        u.reply = str "E04") := by
  have dispatch : gdbHandlePacket (readPacket addr size tail) =
      (do put 0 0; handleReadMem (readPacket addr size tail); return false) := rfl
  have handled {r : Option Nat} {v : State}
      (run : (infMem2hex (some t) (wordOf addr) 0 (intOfWord (wordOf size))).run (s.lay 0 []) =
        .ok r v) :
      (handleReadMem (readPacket addr size tail)).run (s.lay 0 []) =
        (match r with
          | none => strlcpy 0 (str "E04") bufsize
          | some _ => pure () : Stub Unit).run v := by
    unfold handleReadMem
    rw [run_bind_ok (liftParse_run (parseMemFormat_readPacket tail haddr hsize) _)]
    dsimp only
    rw [if_neg ((check_passes_iff hsize).mpr short), run_bind_ok (EStateM.run_get _),
      lay_targetThread, targets.target,
      run_bind_ok run]
    cases r <;> rfl
  have from_start : wordOf addr + BitVec.ofNat 64 (8 * ((0 + 7) / 8)) = wordOf addr := by bv_omega
  obtain ⟨reads, stops⟩ :=
    @infMem2hexLoop_outcome _ (s.lay 0 []) t _ targets.owner (wordOf addr) s.kernel.calls
    (askedBytes size) 0 0 0 rfl nofun (by simp only [bufsize]; omega)
  rw [from_start] at reads stops
  simp only [Nat.zero_add, Nat.reduceDiv, lay_inferiors] at reads stops
  have start : infMem2hex (some t) (wordOf addr) 0 (intOfWord (wordOf size)) =
      infMem2hexLoop (some t) (askedBytes size) 0 (wordOf addr) 0 0 := by
    rw [infMem2hex, intOfWord_asked hsize short]
  rw [← start] at reads stops
  rw [dispatch, run_bind_ok (put_zero_run (by decide) s)]
  by_cases all : WordsRead (s.inferiors pd).vspace (wordOf addr) s.kernel.calls 0
    ((askedBytes size + 7) / 8)
  · obtain ⟨k, _, run⟩ := reads all
    have count : (hexDigits (bytesFrom (memoryAt s pd) (wordOf addr) (askedBytes size))).length <
        bufsize := by
      simp only [hexDigits_length, bytesFrom, List.length_map, List.length_range', bufsize]
      omega
    refine ⟨_, run_bind_ok (handled run) _, fun _ => ?_, fun missing => absurd all missing⟩
    exact lay_reply ((s.lay 0 []).withKernel k) _ (hexDigits_ne_zero _) count
  · obtain ⟨u, run⟩ := stops all
    refine ⟨u.lay 0 (str "E04"), ?_, fun reads => absurd reads all, fun _ => ?_⟩
    · exact run_bind_ok ((handled run).trans (strlcpy_run 0 (str "E04") bufsize u (by decide)
        (by decide))) _
    · exact lay_reply u (str "E04") (by decide) (by decide)

/- Which reads are answered as they should be. -/

/-- E01 for what cannot fit the reply; else the digits of the bytes if all words can be read, and
    E04 if not. -/
def ReadAnswered (s : State) (pd : Fin maxPds) (addr size tail : List Byte) : Prop :=
  ∃ u, (gdbHandlePacket (readPacket addr size tail)).run s = .ok false u ∧
    u.reply =
      if bufsize - 1 < 2 * hexNumber size then str "E01"
      else if ∀ i < (hexNumber size + 7) / 8,
        WordReads (s.inferiors pd).vspace (wordOf addr) s.kernel.calls i then
        hexDigits (bytesFrom (memoryAt s pd) (wordOf addr) (hexNumber size))
      else str "E04"

section
variable {s : State} {t : ThreadRef} {pd : Fin maxPds} (targets : Targets s t pd)
    {addr size : List Byte}
  (haddr : WordText addr) (hsize : WordText size) (tail : List Byte)
include targets haddr hsize

theorem wrapped_size_misread (wraps : 2 ^ 63 ≤ hexNumber size ∧ hexNumber size ≤ 2 ^ 63 + 1023) :
    ¬ ReadAnswered s pd addr size tail := by
  obtain ⟨u, run, reads, stops⟩ :=
    readPacket_outcome targets haddr hsize (by unfold askedBytes; omega) tail
  rintro ⟨v, run', refused⟩
  cases run.symm.trans run'
  rw [if_pos (by simp only [bufsize]; omega)] at refused
  by_cases all : WordsRead (s.inferiors pd).vspace (wordOf addr) s.kernel.calls 0
    ((askedBytes size + 7) / 8)
  · -- an even number of digits is no error text
    have lengths := congrArg List.length ((reads all).symm.trans refused)
    rw [hexDigits_length, show (str "E01").length = 3 from rfl] at lengths
    omega
  · exact absurd ((stops all).symm.trans refused) (by decide)

theorem small_size_read (small : hexNumber size ≤ 1023) : ReadAnswered s pd addr size tail := by
  have low : askedBytes size = hexNumber size := Nat.mod_eq_of_lt (by omega)
  obtain ⟨u, run, reads, stops⟩ := readPacket_outcome targets haddr hsize (by omega) tail
  rw [low] at reads stops
  refine ⟨u, run, ?_⟩
  rw [if_neg (by simp only [bufsize]; omega)]
  by_cases all : ∀ i < (hexNumber size + 7) / 8,
    WordReads (s.inferiors pd).vspace (wordOf addr) s.kernel.calls i
  · rw [if_pos all]
    exact reads fun i _ lt => all i lt
  · rw [if_neg all]
    exact stops fun words => all fun i lt => words i (Nat.zero_le i) lt

/-- Only sizes that double to a small number modulo 2^64 are answered wrongly. -/
theorem read_mem_exact_iff :
    ReadAnswered s pd addr size tail ↔
    ¬ (2 ^ 63 ≤ hexNumber size ∧ hexNumber size ≤ 2 ^ 63 + 1023) := by
  have wide : hexNumber size < 2 ^ 64 := by
    rw [← wordOf_toNat hsize]
    exact (wordOf size).isLt
  by_cases wraps : 2 ^ 63 ≤ hexNumber size ∧ hexNumber size ≤ 2 ^ 63 + 1023
  · exact iff_of_false (wrapped_size_misread targets haddr hsize tail wraps) (not_not.mpr wraps)
  refine iff_of_true ?_ wraps
  by_cases small : hexNumber size ≤ 1023
  · exact small_size_read targets haddr hsize tail small
  · obtain ⟨u, run, reply⟩ := readPacket_refused haddr hsize (by unfold askedBytes; omega) tail s
    exact ⟨u, run, by rw [reply, if_pos (by simp only [bufsize]; omega)]⟩

end

omit [Machine] in
theorem solo_targets : letI := obligingBoard
    Targets soloState ⟨0, 0⟩ 0 := by
  exact @Targets.mk obligingBoard _ _ _ rfl rfl

omit [Machine] in
theorem solo_word_read : letI := obligingBoard
    ReadAnswered soloState 0 (str "1000") (str "8") [] := by
  let _ := obligingBoard
  exact (read_mem_exact_iff solo_targets ⟨by decide, by decide⟩ ⟨by decide, by decide⟩ []).mpr
    (by decide)

omit [Machine] in
/-- `m1000,8000000000000000` is answered with no digits at all. -/
theorem huge_size_not_refused : letI := obligingBoard
    ¬ ∀ s t pd, Targets s t pd → ∀ addr size tail, WordText addr → WordText size →
    ReadAnswered s pd addr size tail := by
  let _ := obligingBoard
  intro all
  have addr : WordText (str "1000") := ⟨by decide, by decide⟩
  have size : WordText (str "8000000000000000") := ⟨by decide, by decide⟩
  exact wrapped_size_misread solo_targets addr size [] (by decide)
    (all _ _ _ solo_targets _ _ [] addr size)

end Libgdb
