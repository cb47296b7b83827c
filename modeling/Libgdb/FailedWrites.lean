import Libgdb.IdNumbers
import Libgdb.Library.RefusedCalls
import Libgdb.MemoryWrites

/-!
`M` packets when the kernel may refuse to read or write a word. The loop of `inf_hex2mem` stops
at the first refusal and returns an address there too, and only the address zero is reported as
an error.
-/
namespace Libgdb
open ByteMemory CheckedPrograms RefusedCalls
variable [Machine]

/- The loop one word at a time. -/

def fillWord : Word → Nat → List Byte → Word
  | w, _, [] => w
  | w, j, b :: bytes => fillWord (setByte w j b) (j + 1) bytes

def infHex2memByte (thread : Option ThreadRef) (n i : Nat) (buf : List Byte) (mem word : Word) :
    Stub Word :=
  match buf with
  | hi :: lo :: buf =>
    let word := setByte word (i % 8) (hexPair hi lo)
    if i % 8 = 7 ∨ n = 0 then do
      let err ← writeInferiorWord thread (mem + BitVec.ofNat 64 (i / 8)) word
      if err then
        return mem + BitVec.ofNat 64 i
      else
        infHex2memLoop thread n (i + 1) buf (mem + 8 + 1) word
    else
      infHex2memLoop thread n (i + 1) buf (mem + 1) word
  | _ => throw .inputOverread

theorem infHex2memLoop_first {i : Nat} (first : i % 8 = 0) (thread : Option ThreadRef) (n : Nat)
    (buf : List Byte) (mem word : Word) :
    infHex2memLoop thread (n + 1) i buf mem word = (do
      match ← readInferiorWord thread mem with
      | none => return mem + BitVec.ofNat 64 i
      | some word => infHex2memByte thread n i buf mem word) := by
  rw [infHex2memLoop, if_pos first]
  rfl

theorem infHex2memLoop_next {i : Nat} (next : i % 8 ≠ 0) (thread : Option ThreadRef) (n : Nat)
    (buf : List Byte) (mem word : Word) :
    infHex2memLoop thread (n + 1) i buf mem word = infHex2memByte thread n i buf mem word := by
  rw [infHex2memLoop, if_neg next]
  rfl

theorem infHex2memByte_word (thread : Option ThreadRef) (r n i : Nat) (buf : List Byte)
    (mem word : Word) (inside : i % 8 + r < 8) (left : r ≤ n) (last : i % 8 + r = 7 ∨ n = r)
    (enough : 2 * (r + 1) ≤ buf.length) :
    infHex2memByte thread n i buf mem word = (do
      let err ← writeInferiorWord thread (mem + BitVec.ofNat 64 r + BitVec.ofNat 64 ((i + r) / 8))
        (fillWord word (i % 8) (pairBytes (buf.take (2 * (r + 1)))))
      if err then
        return mem + BitVec.ofNat 64 r + BitVec.ofNat 64 (i + r)
      else
        infHex2memLoop thread (n - r) (i + r + 1) (buf.drop (2 * (r + 1)))
          (mem + BitVec.ofNat 64 r + 8 + 1)
          (fillWord word (i % 8) (pairBytes (buf.take (2 * (r + 1)))))) := by
  induction r generalizing n i buf mem word with
  | zero =>
    rcases buf with _ | ⟨hi, _ | ⟨lo, buf⟩⟩
    · simp at enough
    · simp at enough
    · rw [infHex2memByte, if_pos (by omega)]
      simp [pairBytes, fillWord]
  | succ r ih =>
    rcases buf with _ | ⟨hi, _ | ⟨lo, buf⟩⟩
    · simp at enough
    · simp only [List.length_singleton] at enough
      omega
    · cases n with
      | zero => omega
      | succ n =>
        rw [infHex2memByte, if_neg (by omega), infHex2memLoop_next (by omega),
          ih n (i + 1) buf _ _ (by omega) (by omega) (by omega)
            (by simp only [List.length_cons] at enough; omega)]
        have place : (i + 1) % 8 = i % 8 + 1 := by omega
        have address : mem + 1 + BitVec.ofNat 64 r = mem + BitVec.ofNat 64 (r + 1) := by
          rw [BitVec.ofNat_add, BitVec.add_assoc, BitVec.add_comm 1]
          rfl
        have bytes : pairBytes ((hi :: lo :: buf).take (2 * (r + 1 + 1))) =
            hexPair hi lo :: pairBytes (buf.take (2 * (r + 1))) := rfl
        rw [place, address, bytes, show i + 1 + r = i + (r + 1) by omega, Nat.add_sub_add_right]
        rfl

theorem infHex2memByte_short (thread : Option ThreadRef) (r n i : Nat) (buf : List Byte)
    (mem word : Word) (inside : i % 8 + r < 8) (left : r ≤ n) (last : i % 8 + r = 7 ∨ n = r)
    (short : buf.length < 2 * (r + 1)) :
    infHex2memByte thread n i buf mem word = throw .inputOverread := by
  induction r generalizing n i buf mem word with
  | zero =>
    match buf with
    | [] => rfl
    | [_] => rfl
    | hi :: lo :: buf => simp at short
  | succ r ih =>
    match buf with
    | [] => rfl
    | [_] => rfl
    | hi :: lo :: buf =>
      cases n with
      | zero => omega
      | succ n =>
        rw [infHex2memByte, if_neg (by omega), infHex2memLoop_next (by omega)]
        exact ih n (i + 1) buf _ _ (by omega) (by omega) (by omega)
          (by simp only [List.length_cons] at short; omega)

/- The calls of the loop. -/

structure WordCall where
  call : KernelCall
  stop : Word

/-- The calls for `n` bytes from word `q` on: each word is read and written back, unless the text
    ends before the word is complete. Reads are 16 bytes apart, writes 17. -/
def wordCalls (vspace a : Word) : (words q n : Nat) → List Byte → Memory → List WordCall
  | 0, _, _, _, _ => []
  | words + 1, q, n, text, m =>
      let size := min 8 n
      let source := a + BitVec.ofNat 64 (16 * q)
      let dest := a + BitVec.ofNat 64 (17 * q + (size - 1))
      let value := fillWord (load m source) 0 (pairBytes (text.take (2 * size)))
      ⟨.vspaceReadWord vspace source, a + BitVec.ofNat 64 (24 * q)⟩ ::
        if text.length < 2 * size then []
        else ⟨.vspaceWriteWord vspace dest value, a + BitVec.ofNat 64 (24 * q + 2 * (size - 1))⟩ ::
          wordCalls vspace a words (q + 1) (n - size) (text.drop (2 * size)) (store m dest value)

def Kernel.recordAll (k : Kernel) (calls : List WordCall) : Kernel :=
  calls.foldl (fun k c => k.record c.call) k

theorem recordAll_calls (k : Kernel) (calls : List WordCall) :
    (k.recordAll calls).calls = recorded WordCall.call k.calls calls := by
  induction calls generalizing k with
  | nil => rfl
  | cons c calls ih =>
    rw [recorded_cons]
    exact ih _

theorem writeInferiorWord_outcome {s : State} {t : ThreadRef} {pd : Fin maxPds}
    (owner : (s.thread t).inferior = some pd) (mem value : Word) :
    (writeInferiorWord (some t) mem value).run s =
      .ok (Machine.fails s.kernel.calls (.vspaceWriteWord (s.inferiors pd).vspace mem value))
        (s.withKernel (s.kernel.record (.vspaceWriteWord (s.inferiors pd).vspace mem value))) := by
  unfold writeInferiorWord
  rw [run_bind_ok (EStateM.run_get s), run_bind_ok (deref_run rfl s),
    run_bind_ok (deref_run owner s)]
  rfl

theorem record_write {k : Kernel} {vspace mem value : Word}
    (accepts : Machine.fails k.calls (.vspaceWriteWord vspace mem value) = false) :
    (k.record (.vspaceWriteWord vspace mem value)).memory vspace = store
    (k.memory vspace) mem value := by
  rw [record_of_ok accepts]
  exact Function.update_self _ _ _

/-- The loop from word `q` on: it makes its calls in turn and returns where the first of them
    fails, or reads its text past the end, or returns behind the last byte. -/
theorem infHex2memLoop_cases {t : ThreadRef} {pd : Fin maxPds} (a : Word) (words q n : Nat)
    (text : List Byte) (word : Word) (s : State) (owner : (s.thread t).inferior = some pd)
    (count : words = (n + 7) / 8) (positive : 0 < n) :
    let calls := wordCalls (s.inferiors pd).vspace a words q n text (memoryAt s pd)
    let run := (infHex2memLoop (some t) n (8 * q) text (a + BitVec.ofNat 64 (16 * q)) word).run s
    (Accepted Machine.fails WordCall.call s.kernel.calls calls ∧
      run = if text.length < 2 * n then .error .inputOverread
        (s.withKernel (s.kernel.recordAll calls))
        else .ok (a + BitVec.ofNat 64 (24 * q + 2 * n + 8 * words))
          (s.withKernel (s.kernel.recordAll calls))) ∨
    ∃ done next, StoppedAfter Machine.fails WordCall.call s.kernel.calls calls done next ∧
      run = .ok next.stop (s.withKernel (s.kernel.recordAll (done ++ [next]))) := by
  induction words generalizing q n text word s with
  | zero => omega
  | succ words ih =>
    intro calls run
    obtain ⟨r, size, inside⟩ : ∃ r, min 8 n = r + 1 ∧ r < 8 := ⟨min 8 n - 1, by omega, by omega⟩
    let source := a + BitVec.ofNat 64 (16 * q)
    have first : run = (do
        match ← readInferiorWord (some t) source with
        | none => return source + BitVec.ofNat 64 (8 * q)
        | some word => infHex2memByte (some t) (n - 1) (8 * q) text source word :
          Stub Word).run s := by
      have loop := infHex2memLoop_first (i := 8 * q) (by omega) (some t) (n - 1) text source word
      rw [show n - 1 + 1 = n by omega] at loop
      exact congrArg (fun m => m.run s) loop
    rw [run_bind_ok (readInferiorWord_outcome owner source)] at first
    let k₁ := s.kernel.record (.vspaceReadWord (s.inferiors pd).vspace source)
    have memory₁ : memoryAt (s.withKernel k₁) pd = memoryAt s pd := congrFun (record_read _ _ _) _
    cases readable : Machine.fails s.kernel.calls
      (.vspaceReadWord (s.inferiors pd).vspace source) with
    | true =>
      refine Or.inr ⟨[], _, stoppedAfter_first _ readable, ?_⟩
      rw [first, readable]
      have stop : source + BitVec.ofNat 64 (8 * q) = a + BitVec.ofNat 64 (24 * q) := by
        rw [BitVec.add_assoc, ← BitVec.ofNat_add, show 16 * q + 8 * q = 24 * q by omega]
      exact congrArg (EStateM.Result.ok · (s.withKernel k₁)) stop
    | false =>
      rw [readable] at first
      replace first : run = (infHex2memByte (some t) (n - 1) (8 * q) text source
        (load (memoryAt s pd) source)).run (s.withKernel k₁) := first
      let value := fillWord (load (memoryAt s pd) source) 0 (pairBytes (text.take (2 * (r + 1))))
      let dest := a + BitVec.ofNat 64 (17 * q + r)
      have place : 8 * q % 8 = 0 := by omega
      have shape : calls = ⟨.vspaceReadWord (s.inferiors pd).vspace source,
          a + BitVec.ofNat 64 (24 * q)⟩ ::
          if text.length < 2 * (r + 1) then []
          else ⟨.vspaceWriteWord (s.inferiors pd).vspace dest value,
            a + BitVec.ofNat 64 (24 * q + 2 * r)⟩ ::
            wordCalls (s.inferiors pd).vspace a words (q + 1) (n - (r + 1))
              (text.drop (2 * (r + 1)))
              (store (memoryAt s pd) dest value) := by
        simp only [calls, wordCalls, size, Nat.add_sub_cancel]
        rfl
      rw [shape]
      by_cases short : text.length < 2 * (r + 1)
      · rw [if_pos short]
        refine Or.inl ⟨⟨readable, trivial⟩, ?_⟩
        rw [first, infHex2memByte_short (some t) r (n - 1) (8 * q) text source _ (by omega)
          (by omega) (by omega)
          short, if_pos (by omega)]
        rfl
      · rw [if_neg short]
        rw [infHex2memByte_word (some t) r (n - 1) (8 * q) text source _ (by omega) (by omega)
          (by omega) (by omega),
          place] at first
        have address : source + BitVec.ofNat 64 r + BitVec.ofNat 64 ((8 * q + r) / 8) = dest := by
          rw [BitVec.add_assoc, BitVec.add_assoc, ← BitVec.ofNat_add, ← BitVec.ofNat_add,
            show 16 * q + (r + (8 * q + r) / 8) = 17 * q + r by omega]
        rw [address, run_bind_ok (writeInferiorWord_outcome (s := s.withKernel k₁) owner dest
          value)] at first
        cases writable : Machine.fails k₁.calls
          (.vspaceWriteWord (s.inferiors pd).vspace dest value) with
        | true =>
          refine Or.inr ⟨[_], _, stoppedAfter_later readable (stoppedAfter_first _ writable), ?_⟩
          rw [first]
          simp only [withKernel_kernel, withKernel_inferiors, writable]
          have stop : source + BitVec.ofNat 64 r + BitVec.ofNat 64 (8 * q + r) =
              a + BitVec.ofNat 64 (24 * q + 2 * r) := by
            rw [BitVec.add_assoc, BitVec.add_assoc, ← BitVec.ofNat_add, ← BitVec.ofNat_add,
              show 16 * q + (r + (8 * q + r)) = 24 * q + 2 * r by omega]
          exact congrArg (EStateM.Result.ok · _) stop
        | false =>
          let k₂ := k₁.record (.vspaceWriteWord (s.inferiors pd).vspace dest value)
          have memory₂ : memoryAt (s.withKernel k₂) pd = store (memoryAt s pd) dest value := by
            rw [← memory₁]
            exact record_write writable
          replace first : run = (infHex2memLoop (some t) (n - 1 - r) (8 * q + r + 1)
            (text.drop (2 * (r + 1)))
              (source + BitVec.ofNat 64 r + 8 + 1) value).run (s.withKernel k₂) := by
            rw [first]
            simp only [withKernel_kernel, withKernel_inferiors, writable]
            rfl
          by_cases done : n = r + 1
          · -- the last word
            obtain rfl : words = 0 := by omega
            refine Or.inl ⟨⟨readable, writable, trivial⟩, ?_⟩
            rw [first, show n - 1 - r = 0 by omega, if_neg (by omega), infHex2memLoop]
            have stop : source + BitVec.ofNat 64 r + 8 + 1 + BitVec.ofNat 64 (8 * q + r + 1) =
                a + BitVec.ofNat 64 (24 * q + 2 * n + 8 * (0 + 1)) := by
              rw [show (8 : Word) = BitVec.ofNat 64 8 from rfl, show (1 : Word) =
                BitVec.ofNat 64 1 from rfl]
              simp only [source, BitVec.add_assoc, ← BitVec.ofNat_add]
              congr 2
              omega
            exact congrArg (EStateM.Result.ok · _) stop
          · have whole : r = 7 := by omega
            have next := ih (q + 1) (n - (r + 1))
                (text.drop (2 * (r + 1))) value (s.withKernel k₂) owner
              (by omega) (by omega)
            dsimp only at next
            have stop : source + BitVec.ofNat 64 r + 8 + 1 =
                a + BitVec.ofNat 64 (16 * (q + 1)) := by
              rw [show (8 : Word) = BitVec.ofNat 64 8 from rfl, show (1 : Word) =
                BitVec.ofNat 64 1 from rfl]
              simp only [source, BitVec.add_assoc, ← BitVec.ofNat_add]
              congr 2
              omega
            rw [memory₂, ← stop, show 8 * (q + 1) = 8 * q + r + 1 by omega,
              show n - (r + 1) = n - 1 - r by omega, ← first] at next
            rw [show n - (r + 1) = n - 1 - r by omega]
            rcases next with ⟨accepted, ends⟩ | ⟨made, last, stopped, ends⟩
            · refine Or.inl ⟨⟨readable, writable, accepted⟩, ?_⟩
              have enough : (text.drop (2 * (r + 1))).length < 2 * (n - 1 - r) ↔
                  text.length < 2 * n := by
                rw [List.length_drop]
                omega
              have total : 24 * (q + 1) + 2 * (n - 1 - r) + 8 * words = 24 * q + 2 * n + 8 *
                  (words + 1) := by
                omega
              rw [ends, total]
              simp only [enough]
              rfl
            · exact Or.inr ⟨_, last, stoppedAfter_later readable
                (stoppedAfter_later writable stopped), ends⟩

/- Words that stand at their places. -/

/-- The word that the round for word `w` would write, counted from word `q`, stands at its place
    in `m` already. -/
def Stands (m : Memory) (a : Word) (q n : Nat) (text : List Byte) (w : Nat) : Prop :=
  let size := min 8 (n - 8 * w)
  load m (a + BitVec.ofNat 64 (17 * (q + w) + (size - 1))) =
    fillWord (load m (a + BitVec.ofNat 64 (16 * (q + w)))) 0
      (pairBytes ((text.drop (16 * w)).take (2 * size)))

omit [Machine] in
theorem stands_next (m : Memory) (a : Word) (q n : Nat) (text : List Byte) (w : Nat) :
    Stands m a (q + 1) (n - min 8 n) (text.drop (2 * min 8 n)) w ↔ Stands m a q n text (w + 1) := by
  have size : n - min 8 n - 8 * w = n - 8 * (w + 1) := by omega
  have word : q + 1 + w = q + (w + 1) := by omega
  unfold Stands
  rw [size, word, List.drop_drop]
  by_cases whole : 8 ≤ n
  · rw [show 2 * min 8 n + 16 * w = 16 * (w + 1) by omega]
  · rw [show min 8 (n - 8 * (w + 1)) = 0 by omega]
    dsimp only
    rw [Nat.mul_zero, List.take_zero, List.take_zero]

theorem record_elsewhere (k : Kernel) (call : KernelCall) {v x : Word}
    (away : ∀ address value, call = .vspaceWriteWord v address value → ¬ (x - address).toNat < 8) :
    (k.record call).memory v x = k.memory v x := by
  unfold Kernel.record
  cases Machine.fails k.calls call with
  | true => rfl
  | false =>
    cases call with
    | vspaceWriteWord v' address value =>
      by_cases here : v = v'
      · subst here
        refine (congrFun (Function.update_self v _ k.memory) x).trans ?_
        exact store_outside _ _ _ _ (away address value rfl)
      · exact congrFun (Function.update_of_ne here _ k.memory) x
    | _ => rfl

theorem recordAll_elsewhere {k : Kernel} {calls : List WordCall} {v x : Word}
    (away : ∀ c ∈ calls, ∀ address value,
    c.call = .vspaceWriteWord v address value → ¬ (x - address).toNat < 8) :
    (k.recordAll calls).memory v x = k.memory v x := by
  induction calls generalizing k with
  | nil => rfl
  | cons c calls ih =>
    have first := record_elsewhere k c.call (away c List.mem_cons_self)
    have rest := @ih (k.record c.call) fun d mem => away d (List.mem_cons_of_mem c mem)
    exact rest.trans first

omit [Machine] in
theorem wordCalls_dest {vspace a : Word} {words q n : Nat} {text : List Byte}
    {m : Memory} {c : WordCall}
    (mem : c ∈ wordCalls vspace a words q n text m) {v address value : Word}
    (write : c.call = .vspaceWriteWord v address value) :
    ∃ w < words, address = a + BitVec.ofNat 64 (17 * (q + w) + (min 8 (n - 8 * w) - 1)) := by
  induction words generalizing q n text m with
  | zero => cases mem
  | succ words ih =>
    rw [wordCalls, List.mem_cons] at mem
    rcases mem with rfl | mem
    · cases write
    · by_cases short : text.length < 2 * min 8 n
      · rw [if_pos short] at mem
        cases mem
      · rw [if_neg short, List.mem_cons] at mem
        rcases mem with rfl | mem
        · cases write
          exact ⟨0, by omega, rfl⟩
        · obtain ⟨w, lt, there⟩ := ih mem
          refine ⟨w + 1, by omega, ?_⟩
          rw [there, show q + 1 + w = q + (w + 1) by omega,
            show min 8 (n - min 8 n - 8 * w) = min 8 (n - 8 * (w + 1)) by omega]

/-- Words that are written do not overlap, so memory is as it was exactly when each of them stood
    at its place. -/
theorem memory_kept_iff {vspace a : Word} {words q n : Nat} {text : List Byte} {k : Kernel}
    {done : List WordCall} (front : done <+: wordCalls vspace a words q n text (k.memory vspace))
    (accepted : Accepted Machine.fails WordCall.call k.calls done) (small : q + words < 2 ^ 56) :
    (k.recordAll done).memory = k.memory ↔ ∀ w < done.length / 2, Stands
    (k.memory vspace) a q n text w := by
  induction words generalizing q n text k done with
  | zero =>
    rw [List.prefix_nil.mp front]
    exact iff_of_true rfl fun w lt => absurd lt (Nat.not_lt_zero w)
  | succ words ih =>
    let m := k.memory vspace
    let source := a + BitVec.ofNat 64 (16 * q)
    let dest := a + BitVec.ofNat 64 (17 * q + (min 8 n - 1))
    let value := fillWord (load m source) 0 (pairBytes (text.take (2 * min 8 n)))
    have shape : wordCalls vspace a (words + 1) q n text m =
        ⟨.vspaceReadWord vspace source, a + BitVec.ofNat 64 (24 * q)⟩ ::
          if text.length < 2 * min 8 n then []
          else ⟨.vspaceWriteWord vspace dest value,
            a + BitVec.ofNat 64 (24 * q + 2 * (min 8 n - 1))⟩ ::
            wordCalls vspace a words (q + 1) (n - min 8 n) (text.drop (2 * min 8 n))
              (store m dest value) := rfl
    rw [shape] at front
    rcases done with _ | ⟨read, done⟩
    · exact iff_of_true rfl fun w lt => absurd lt (Nat.not_lt_zero w)
    · obtain ⟨rfl, behind⟩ := List.cons_prefix_cons.mp front
      let k₁ := k.record (.vspaceReadWord vspace source)
      have memory₁ : k₁.memory = k.memory := record_read k vspace source
      rcases done with _ | ⟨write, done⟩
      · refine iff_of_true memory₁ fun w lt => ?_
        rw [List.length_singleton] at lt
        omega
      · by_cases short : text.length < 2 * min 8 n
        · rw [if_pos short] at behind
          exact absurd (List.prefix_nil.mp behind) (List.cons_ne_nil _ _)
        · rw [if_neg short] at behind
          obtain ⟨rfl, rest⟩ := List.cons_prefix_cons.mp behind
          have writable : Machine.fails k₁.calls (.vspaceWriteWord vspace dest value) = false :=
            accepted.2.1
          let k₂ := k₁.record (.vspaceWriteWord vspace dest value)
          have accepted' : Accepted Machine.fails WordCall.call k₂.calls done := accepted.2.2
          have memory₂ : k₂.memory = Function.update k.memory vspace (store m dest value) := by
            have same : m = k₁.memory vspace := congrFun memory₁.symm vspace
            rw [← memory₁, same]
            exact congrArg Kernel.memory (record_of_ok writable)
          have here : k₂.memory vspace = store m dest value := by rw [memory₂, Function.update_self]
          rw [← here] at rest
          have later := ih rest accepted' (by omega)
          have first : Stands m a q n text 0 ↔ load m dest = value := by
            simp only [Stands, Nat.mul_zero, Nat.sub_zero, Nat.add_zero, List.drop_zero]
            rfl
          have count : (done.length + 1 + 1) / 2 = done.length / 2 + 1 := by omega
          have split : (∀ w < done.length / 2 + 1, Stands m a q n text w) ↔ Stands m a q n text 0 ∧
              ∀ w < done.length / 2, Stands m a (q + 1) (n - min 8 n)
                (text.drop (2 * min 8 n)) w := by
            simp only [stands_next]
            exact Nat.forall_lt_succ_left
          rw [List.length_cons, List.length_cons, count, split, first]
          by_cases stands : load m dest = value
          · have same : k₂.memory = k.memory := by
              rw [memory₂, ← stands, store_load]
              exact Function.update_eq_self vspace k.memory
            rw [and_iff_right stands]
            rw [same] at later
            exact later
          · refine iff_of_false (fun kept => stands ?_) fun both => stands both.1
            have far (j : Nat) (lt : j < 8) :
                ((k₂.recordAll done).memory vspace) (dest + BitVec.ofNat 64 j) =
                  k₂.memory vspace (dest + BitVec.ofNat 64 j) := by
              refine recordAll_elsewhere fun c mem address value write near => ?_
              obtain ⟨w, bound, there⟩ := wordCalls_dest (rest.subset mem) write
              rw [there] at near
              have behind : 17 * q + (min 8 n - 1) + j < 17 * (q + 1 + w) +
                  (min 8 (n - min 8 n - 8 * w) - 1) := by omega
              have low : 17 * (q + 1 + w) + (min 8 (n - min 8 n - 8 * w) - 1) < 2 ^ 62 := by omega
              generalize 17 * (q + 1 + w) + (min 8 (n - min 8 n - 8 * w) - 1) =
                offset at near behind low
              simp only [dest] at near
              generalize 17 * q + (min 8 n - 1) = place at near behind
              bv_omega
            have final : (k₂.recordAll done).memory vspace = m := congrFun kept vspace
            have loaded : load ((k₂.recordAll done).memory vspace) dest =
                load (k₂.memory vspace) dest :=
              ofBytes_congr far
            rw [← final, loaded, here, load_store]

/- What a truthful reply is. -/

/-- The packet declares an address and a number of bytes, and its data part is two digits for
    each of them; without any bytes the data part may be missing. -/
inductive Carries : List Byte → Word → List Byte → Prop where
  | data {addr size text data : List Byte} (haddr : WordText addr) (hsize : WordText size)
      (encodes : HexOf text data) (count : hexNumber size = data.length) :
      Carries (chr 'M' :: (addr ++ chr ',' :: (size ++ chr ':' :: text))) (wordOf addr) data
  | nothing {addr size : List Byte} (haddr : WordText addr) (hsize : WordText size)
      (count : hexNumber size = 0) : Carries (chr 'M' :: (addr ++ chr ',' :: size)) (wordOf addr) []

def MadeCall (before after : Kernel) (earlier : List KernelCall) (call : KernelCall) : Prop :=
  ∃ later, after.calls = later ++ call :: (earlier ++ before.calls)

def WrittenByte (vspace : Word) (before after : Kernel) (x : Word) (b : Byte) : Prop :=
  ∃ earlier address value, MadeCall before after earlier (.vspaceWriteWord vspace address value) ∧
    Machine.fails (earlier ++ before.calls) (.vspaceWriteWord vspace address value) = false ∧
    (x - address).toNat < 8 ∧ byteOf value (x - address).toNat = b

def IsError (reply : List Byte) : Prop := ∃ x y, reply = [chr 'E', x, y]

structure TruthfulReply (vspace : Word) (packet : List Byte) (before after : Kernel)
    (reply : List Byte) : Prop where
  written : reply = str "OK" → ∃ a data, Carries packet a data ∧
    ∀ j < data.length, WrittenByte vspace before after (a + BitVec.ofNat 64 j) (data.getD j 0)
  refused : (∃ earlier call, MadeCall before after earlier call ∧
    Machine.fails (earlier ++ before.calls) call = true) → reply = str "E03"
  malformed : (¬ ∃ a data, Carries packet a data) → IsError reply ∧ after.memory = before.memory

def TruthfulWrite (pd : Fin maxPds) (packet tail : List Byte) (s : State) : Prop :=
  ∃ t, (gdbHandlePacket (packet ++ 0 :: tail)).run s = .ok false t ∧
    TruthfulReply (s.inferiors pd).vspace packet s.kernel t.kernel t.reply

/- When the code gives one. -/

/-- Where the loop stops at a refusal, and where it ends without one: the address returned is
    zero, and if the packet is malformed each word written by then, one for two calls, stood at its
    place before. Up to one byte that the packet carries is written as it should. -/
structure ErrorsReported (record : List KernelCall) (calls : List WordCall) (whole : Prop)
    (stands : Nat → Prop) (size : Word) (last : Option Word) : Prop where
  refused : ∀ done next, StoppedAfter Machine.fails WordCall.call record calls done next →
    next.stop = 0 ∧ (whole ∨ ∀ w < done.length / 2, stands w)
  ended : Accepted Machine.fails WordCall.call record calls →
    (size.toNat ≤ 1 ∧ whole) ∨ (last = some 0 ∧ (whole ∨ ∀ w < calls.length / 2, stands w))

/-- The address behind the last byte as the loop counts it, if the text is long enough. -/
def loopEnd (a : Word) (n : Nat) (text : List Byte) : Option Word :=
  if text.length < 2 * n then none else some (a + BitVec.ofNat 64 (2 * n + 8 * ((n + 7) / 8)))

def ReportsTruly (pd : Fin maxPds) (packet tail : List Byte) (s : State) : Prop :=
  match parseMemFormat (packet ++ 0 :: tail) with
  | .error _ => False
  | .ok none => True
  | .ok (some (a, size)) =>
    match memchr (packet ++ 0 :: tail) (chr ':') bufsize with
    | .error _ => False
    | .ok none => ∃ a data, Carries packet a data
    | .ok (some found) =>
      let n := (intOfWord size).toNat
      ErrorsReported s.kernel.calls (wordCalls (s.inferiors pd).vspace a ((n + 7) / 8) 0 n
        found.tail (memoryAt s pd))
        (∃ a data, Carries packet a data) (Stands (memoryAt s pd) a 0 n found.tail) size
          (loopEnd a n found.tail)

theorem infHex2mem_cases {t : ThreadRef} {pd : Fin maxPds} {s : State}
    (owner : (s.thread t).inferior = some pd) (text : List Byte) (a size : Word) :
    let n := (intOfWord size).toNat
    let calls := wordCalls (s.inferiors pd).vspace a ((n + 7) / 8) 0 n text (memoryAt s pd)
    let run := (infHex2mem (some t) text a (intOfWord size)).run s
    (Accepted Machine.fails WordCall.call s.kernel.calls calls ∧
      run = match loopEnd a n text with
        | none => .error .inputOverread (s.withKernel (s.kernel.recordAll calls))
        | some mem => .ok mem (s.withKernel (s.kernel.recordAll calls))) ∨
    ∃ done next, StoppedAfter Machine.fails WordCall.call s.kernel.calls calls done next ∧
      run = .ok next.stop (s.withKernel (s.kernel.recordAll (done ++ [next]))) := by
  intro n calls run
  have zero (w : Word) : w + BitVec.ofNat 64 0 = w := BitVec.add_zero w
  by_cases none : n = 0
  · have ends : run = .ok (a + BitVec.ofNat 64 0) s := by
      simp only [run, infHex2mem, show (intOfWord size).toNat = 0 from none]
      rfl
    have empty : calls = [] := by
      simp only [calls, none]
      rfl
    rw [empty]
    refine Or.inl ⟨trivial, ?_⟩
    rw [ends, none]
    rfl
  · have loop := infHex2memLoop_cases a ((n + 7) / 8) 0 n text 0 s owner rfl (by omega)
    dsimp only at loop
    rw [zero] at loop
    rcases loop with ⟨accepted, ends⟩ | stopped
    · refine Or.inl ⟨accepted, ends.trans ?_⟩
      unfold loopEnd
      rw [show 24 * 0 + 2 * n + 8 * ((n + 7) / 8) = 2 * n + 8 * ((n + 7) / 8) by omega]
      split <;> rfl
    · exact Or.inr stopped

/- What is written. -/

theorem made_iff {k : Kernel} {calls : List WordCall} {earlier : List KernelCall}
    {call : KernelCall} :
    MadeCall k (k.recordAll calls) earlier call ↔
      ∃ later, (calls.map WordCall.call).reverse = later ++ call :: earlier := by
  unfold MadeCall
  rw [recordAll_calls, recorded]
  constructor
  · rintro ⟨later, same⟩
    have whole : (calls.map WordCall.call).reverse ++ k.calls =
        (later ++ call :: earlier) ++ k.calls := by
      rw [same, List.append_assoc, List.cons_append]
    exact ⟨later, List.append_cancel_right whole⟩
  · rintro ⟨later, same⟩
    refine ⟨later, ?_⟩
    rw [same, List.append_assoc, List.cons_append]

theorem made_mem {k : Kernel} {calls : List WordCall} {earlier : List KernelCall}
    {call : KernelCall}
    (made : MadeCall k (k.recordAll calls) earlier call) : ∃ c ∈ calls, c.call = call := by
  obtain ⟨later, same⟩ := made_iff.mp made
  have mem : call ∈ (calls.map WordCall.call).reverse := by
    rw [same]
    simp
  simpa using mem

theorem recordAll_last {k : Kernel} {calls done : List WordCall} {next : WordCall}
    (stopped : StoppedAfter Machine.fails WordCall.call k.calls calls done next) :
    (k.recordAll (done ++ [next])).memory = (k.recordAll done).memory ∧
      MadeCall k (k.recordAll (done ++ [next])) (done.map WordCall.call).reverse next.call ∧
      Machine.fails ((done.map WordCall.call).reverse ++ k.calls) next.call = true := by
  have refused := stopped.refused
  refine ⟨?_, made_iff.mpr ⟨[], by simp⟩, refused⟩
  rw [recorded, ← recorded, ← recordAll_calls] at refused
  have same := congrArg Kernel.memory (record_of_fail refused)
  rw [Kernel.recordAll, List.foldl_append]
  exact same

/-- Of two and more bytes one is not written by any call of the loop. -/
theorem byte_left_out {vspace a size : Word} {text : List Byte} {m : Memory} {k : Kernel}
    (several : 2 ≤ size.toNat) {data : List Byte} (count : data.length = size.toNat) :
    let n := (intOfWord size).toNat
    ∃ j < data.length, ∀ b, ¬ WrittenByte vspace k
      (k.recordAll (wordCalls vspace a ((n + 7) / 8) 0 n text m)) (a + BitVec.ofNat 64 j) b := by
  intro n
  have narrow : (n : Int) < 2 ^ 31 := by
    have := intOfWord_lt size
    simp only [n]
    omega
  have one : n = 1 → 8 < size.toNat := by
    intro single
    have low : intOfWord size = 1 := by
      simp only [n] at single
      omega
    by_contra small
    rw [intOfWord_small (by omega)] at low
    omega
  refine ⟨if n = 1 then 8 else 0, by split <;> omega, ?_⟩
  rintro b ⟨earlier, address, value, made, _, near, _⟩
  obtain ⟨c, mem, write⟩ := made_mem made
  obtain ⟨w, lt, there⟩ := wordCalls_dest mem write
  rw [there] at near
  by_cases single : n = 1
  · rw [if_pos single] at near
    obtain rfl : w = 0 := by omega
    simp only [single] at near
    revert near
    bv_omega
  · rw [if_neg single] at near
    have far : 0 < 17 * (0 + w) + (min 8 (n - 8 * w) - 1) := by omega
    have low : 17 * (0 + w) + (min 8 (n - 8 * w) - 1) < 2 ^ 60 := by omega
    generalize 17 * (0 + w) + (min 8 (n - 8 * w) - 1) = offset at near far low
    bv_omega

theorem single_byte_written {vspace a size : Word} (one : size.toNat = 1)
    {text rest : List Byte} {b : Byte} (encodes : HexOf text [b]) {m : Memory} {k : Kernel}
    (accepted : Accepted Machine.fails WordCall.call k.calls
      (wordCalls vspace a (((intOfWord size).toNat + 7) / 8) 0 (intOfWord size).toNat
        (text ++ rest) m)) :
    WrittenByte vspace k
      (k.recordAll (wordCalls vspace a (((intOfWord size).toNat + 7) / 8) 0 (intOfWord size).toNat
        (text ++ rest) m))
      a b := by
  have count : (intOfWord size).toNat = 1 := by
    rw [intOfWord_small (by omega)]
    omega
  rw [count] at accepted ⊢
  obtain ⟨hi, lo, rfl⟩ : ∃ hi lo, text = [hi, lo] := List.length_eq_two.mp (hexOf_length encodes)
  let value := fillWord (load m (a + BitVec.ofNat 64 (16 * 0))) 0 (pairBytes [hi, lo])
  have zero : a + BitVec.ofNat 64 (17 * 0 + (min 8 1 - 1)) = a := BitVec.add_zero a
  have calls : wordCalls vspace a ((1 + 7) / 8) 0 1 ([hi, lo] ++ rest) m =
      [⟨.vspaceReadWord vspace (a + BitVec.ofNat 64 (16 * 0)), a + BitVec.ofNat 64 (24 * 0)⟩,
        ⟨.vspaceWriteWord vspace a value, a + BitVec.ofNat 64 (24 * 0 + 2 * (min 8 1 - 1))⟩] := by
    rw [show (1 + 7) / 8 = 0 + 1 from rfl, wordCalls, zero, if_neg (by simp)]
    rfl
  rw [calls] at accepted ⊢
  refine ⟨_, a, value, made_iff.mpr ⟨[], rfl⟩, accepted.2.1, ?_, ?_⟩
  · simp
  · have pair := hexPair_of_halves encodes.1 encodes.2.1
    rw [show (a - a).toNat = 0 by simp]
    simp only [value, pairBytes, fillWord, pair, byteOf_setByte _ _ _ _ (show 0 < 8 by decide),
      if_true]

theorem no_call (k : Kernel) (earlier : List KernelCall) (call : KernelCall) :
    ¬ MadeCall k k earlier call := by
  intro made
  have none : MadeCall k (k.recordAll []) earlier call := made
  obtain ⟨c, mem, _⟩ := made_mem none
  cases mem

/- Replies. -/

omit [Machine] in
theorem carries_parse {packet : List Byte} {a : Word} {data : List Byte}
    (carries : Carries packet a data) (tail : List Byte) :
    ∃ size, parseMemFormat (packet ++ 0 :: tail) = .ok (some (a, size)) ∧ size.toNat = data.length ∧
      (data ≠ [] → ∃ text, HexOf text data ∧ memchr (packet ++ 0 :: tail) (chr ':') bufsize =
        .ok (some (chr ':' :: (text ++ 0 :: tail)))) := by
  cases carries with
  | @data addr size text data haddr hsize encodes count =>
    have shape : chr 'M' :: (addr ++ chr ',' :: (size ++ chr ':' :: text)) ++ 0 :: tail =
        writePacket addr size text tail := by simp [writePacket]
    rw [shape]
    exact ⟨wordOf size, parseMemFormat_writePacket text tail haddr hsize,
      (wordOf_toNat hsize).trans count,
      fun _ => ⟨text, encodes, memchr_writePacket text tail haddr hsize⟩⟩
  | @nothing addr size haddr hsize count =>
    have shape : chr 'M' :: (addr ++ chr ',' :: size) ++ 0 :: tail =
        chr 'M' :: (addr ++ chr ',' :: (size ++ 0 :: tail)) := by simp
    rw [shape]
    exact ⟨wordOf size, parseMemFormat_run (chr 'M') 0 tail haddr hsize not_isHex_zero (Or.inl rfl),
      (wordOf_toNat hsize).trans count, fun ne => absurd rfl ne⟩

theorem writeMem_packet (rest : List Byte) (s : State) :
    (gdbHandlePacket (chr 'M' :: rest)).run s =
      (do handleWriteMem (chr 'M' :: rest); return false : Stub Bool).run (s.lay 0 []) := by
  rw [dispatch_writeMem, run_bind_ok (put_zero_run (by decide) s)]

omit [Machine] in
theorem isError_writeReply (mem : Word) : IsError (writeReply mem) ↔ mem = 0 := by
  unfold writeReply
  by_cases zero : mem = 0
  · rw [if_pos zero]
    exact iff_of_true ⟨_, _, rfl⟩ zero
  · rw [if_neg zero]
    refine iff_of_false ?_ zero
    rintro ⟨x, y, same⟩
    cases same

omit [Machine] in
theorem writeReply_refused (mem : Word) : writeReply mem = str "E03" ↔ mem = 0 := by
  unfold writeReply
  by_cases zero : mem = 0
  · rw [if_pos zero]
    exact iff_of_true rfl zero
  · rw [if_neg zero]
    exact iff_of_false (by decide) zero

theorem truthful_uncalled (vspace : Word) (packet : List Byte) (k : Kernel) {reply : List Byte}
    (ne : reply ≠ str "OK") :
    TruthfulReply vspace packet k k reply ↔ ((∃ a data, Carries packet a data) ∨
      IsError reply) := by
  constructor
  · intro truthful
    by_contra neither
    rw [not_or] at neither
    exact neither.2 (truthful.malformed neither.1).1
  · intro either
    refine ⟨fun ok => absurd ok ne, fun ⟨earlier, call, made, _⟩ =>
      absurd made (no_call k earlier call), ?_⟩
    intro malformed
    exact ⟨either.resolve_left malformed, rfl⟩

omit [Machine] in
theorem carries_found {packet tail found : List Byte} {a a' size : Word} {data : List Byte}
    (carries : Carries packet a' data)
    (parse : parseMemFormat (packet ++ 0 :: tail) = .ok (some (a, size)))
    (colon : memchr (packet ++ 0 :: tail) (chr ':') bufsize = .ok (some found)) :
    a' = a ∧ size.toNat = data.length ∧ (data ≠ [] → ∃ text, HexOf text data ∧
      found.tail = text ++ 0 :: tail) := by
  obtain ⟨size', parse', count, text⟩ := carries_parse carries tail
  rw [parse] at parse'
  cases parse'
  refine ⟨rfl, count, fun ne => ?_⟩
  obtain ⟨text, encodes, colon'⟩ := text ne
  rw [colon] at colon'
  cases colon'
  exact ⟨text, encodes, rfl⟩

omit [Machine] in
theorem loopEnd_carried {packet tail found : List Byte} {a size : Word}
    (parse : parseMemFormat (packet ++ 0 :: tail) = .ok (some (a, size)))
    (colon : memchr (packet ++ 0 :: tail) (chr ':') bufsize = .ok (some found))
    (small : size.toNat ≤ 1) (whole : ∃ a data, Carries packet a data) :
    loopEnd a (intOfWord size).toNat found.tail ≠ none := by
  obtain ⟨a', data, carries⟩ := whole
  obtain ⟨_, count, text⟩ := carries_found carries parse colon
  have narrow : (intOfWord size).toNat = size.toNat := by
    rw [intOfWord_small (by omega)]
    omega
  unfold loopEnd
  rw [narrow, if_neg]
  · exact Option.some_ne_none _
  · by_cases empty : data = []
    · rw [count, empty, List.length_nil]
      omega
    · obtain ⟨text, encodes, there⟩ := text empty
      have length := hexOf_length encodes
      rw [there, List.length_append]
      omega

theorem truthful_loop_iff {t : ThreadRef} {pd : Fin maxPds} {s : State}
    (owner : (s.thread t).inferior = some pd) {packet tail found : List Byte} {a size : Word}
    (parse : parseMemFormat (packet ++ 0 :: tail) = .ok (some (a, size)))
    (colon : memchr (packet ++ 0 :: tail) (chr ':') bufsize = .ok (some found)) :
    let n := (intOfWord size).toNat
    let calls := wordCalls (s.inferiors pd).vspace a ((n + 7) / 8) 0 n found.tail (memoryAt s pd)
    (∃ mem k, (infHex2mem (some t) found.tail a (intOfWord size)).run s = .ok mem (s.withKernel k) ∧
      TruthfulReply (s.inferiors pd).vspace packet s.kernel k (writeReply mem)) ↔
    ErrorsReported s.kernel.calls calls (∃ a data, Carries packet a data)
      (Stands (memoryAt s pd) a 0 n found.tail) size
      (loopEnd a n found.tail) := by
  intro n calls
  have narrow : 0 + (n + 7) / 8 < 2 ^ 56 := by
    have lt := intOfWord_lt size
    simp only [n]
    omega
  rcases infHex2mem_cases owner found.tail a size with ⟨accepted, run⟩ | ⟨done, next, stopped, run⟩
  · have noRefusal : ¬ ∃ earlier call, MadeCall s.kernel (s.kernel.recordAll calls) earlier call ∧
        Machine.fails (earlier ++ s.kernel.calls) call = true := by
      rintro ⟨earlier, call, made, fails⟩
      obtain ⟨later, same⟩ := made_iff.mp made
      rw [accepted_made accepted same] at fails
      contradiction
    cases last : loopEnd a n found.tail with
    | none =>
      simp only [n] at last
      rw [last] at run
      refine iff_of_false ?_ fun reported => ?_
      · rintro ⟨mem, k, run', _⟩
        cases run'.symm.trans run
      · rcases reported.ended accepted with ⟨small, whole⟩ | ⟨ends, _⟩
        · exact loopEnd_carried parse colon small whole last
        · cases ends
    | some mem =>
      simp only [n] at last
      rw [last] at run
      constructor
      · rintro ⟨mem', k, run', truthful⟩
        cases run'.symm.trans run
        refine ⟨fun done next stopped => absurd stopped (accepted_not_stopped accepted),
          fun _ => ?_⟩
        by_cases zero : mem = 0
        · refine Or.inr ⟨congrArg some zero, ?_⟩
          by_cases whole : ∃ a data, Carries packet a data
          · exact Or.inl whole
          · exact Or.inr ((memory_kept_iff (List.prefix_refl calls) accepted narrow).mp
              (truthful.malformed whole).2)
        · obtain ⟨a', data, carries, each⟩ := truthful.written (if_neg zero)
          obtain ⟨rfl, count, _⟩ := carries_found carries parse colon
          refine Or.inl ⟨?_, a', data, carries⟩
          by_contra several
          obtain ⟨j, lt, left⟩ := @byte_left_out _ (s.inferiors pd).vspace a' _ found.tail
              (memoryAt s pd) s.kernel (by omega)
            data count.symm
          exact left _ (each j lt)
      · intro reported
        refine ⟨mem, s.kernel.recordAll calls, run, ?_⟩
        rcases reported.ended accepted with ⟨small, whole⟩ | ⟨ends, kept⟩
        · refine ⟨fun _ => ?_, fun refused => absurd refused noRefusal, fun malformed =>
            absurd whole malformed⟩
          obtain ⟨a', data, carries⟩ := whole
          obtain ⟨rfl, count, text⟩ := carries_found carries parse colon
          refine ⟨a', data, carries, fun j lt => ?_⟩
          obtain ⟨b, rfl⟩ : ∃ b, data = [b] := List.length_eq_one_iff.mp (by omega)
          obtain ⟨text, encodes, there⟩ := text (by simp)
          have first : j = 0 := by
            rw [List.length_singleton] at lt
            omega
          simp only [calls, n, there] at accepted ⊢
          rw [first, BitVec.add_zero]
          exact single_byte_written count encodes accepted
        · cases ends
          refine ⟨fun ok => absurd ok (by decide), fun refused => absurd refused noRefusal,
            fun malformed => ?_⟩
          refine ⟨(isError_writeReply 0).mpr rfl, ?_⟩
          exact (memory_kept_iff (List.prefix_refl calls) accepted narrow).mpr
            (kept.resolve_left malformed)
  · have front : done <+: calls := (List.prefix_append done [next]).trans stopped.order
    have kept_iff := memory_kept_iff front stopped.accepted narrow
    obtain ⟨memory, made, fails⟩ := recordAll_last stopped
    constructor
    · rintro ⟨mem, k, run', truthful⟩
      cases run'.symm.trans run
      refine ⟨fun done' next' stopped' => ?_, fun accepted =>
        absurd stopped (accepted_not_stopped accepted)⟩
      obtain ⟨rfl, rfl⟩ := stoppedAfter_unique stopped stopped'
      refine ⟨(writeReply_refused _).mp (truthful.refused ⟨_, _, made, fails⟩), ?_⟩
      by_cases whole : ∃ a data, Carries packet a data
      · exact Or.inl whole
      · exact Or.inr (kept_iff.mp (memory.symm.trans (truthful.malformed whole).2))
    · intro reported
      obtain ⟨zero, kept⟩ := reported.refused done next stopped
      refine ⟨next.stop, _, run, ?_⟩
      rw [zero]
      refine ⟨fun ok => absurd ok (by decide), fun _ => rfl, fun malformed => ?_⟩
      exact ⟨(isError_writeReply 0).mpr rfl,
        memory.trans (kept_iff.mpr (kept.resolve_left malformed))⟩

theorem reply_writeReply (u : State) (mem : Word) :
    (u.lay 0 (writeReply mem)).reply = writeReply mem := by
  unfold writeReply
  split <;> exact lay_reply _ _ (by decide) (by decide)

theorem handleWriteMem_cases {s : State} {t : ThreadRef} (target : s.targetThread = some t)
    (input : List Byte) :
    (handleWriteMem input).run s = match parseMemFormat input with
    | .error f => .error f s
    | .ok none => .ok () (s.lay 0 (str "E02"))
    | .ok (some (a, size)) =>
      match memchr input (chr ':') bufsize with
      | .error f => .error f s
      | .ok none => .ok () s
      | .ok (some found) =>
        match (infHex2mem (some t) found.tail a (intOfWord size)).run s with
        | .error f u => .error f u
        | .ok mem u => .ok () (u.lay 0 (writeReply mem)) := by
  cases parse : parseMemFormat input with
  | error f =>
    rw [handleWriteMem, parse]
    rfl
  | ok format =>
    cases format with
    | none =>
      rw [handleWriteMem, parse]
      exact strlcpy_run _ _ _ _ (by decide) (by decide)
    | some format =>
      obtain ⟨a, size⟩ := format
      dsimp only
      cases colon : memchr input (chr ':') bufsize with
      | error f =>
        rw [handleWriteMem, parse, colon]
        rfl
      | ok place =>
        cases place with
        | none =>
          rw [handleWriteMem, parse, colon]
          rfl
        | some found =>
          rw [handleWriteMem_found parse colon, run_bind_ok (EStateM.run_get s), target]
          dsimp only
          cases loop : (infHex2mem (some t) found.tail a (intOfWord size)).run s with
          | error f u => exact run_bind_error loop _
          | ok mem u => exact (run_bind_ok loop _).trans (writeReply_run mem u)

/-- A write packet is answered truthfully exactly when the address its loop stops at is zero
    wherever an error is due. -/
theorem write_failures_reported_iff {s : State} {t : ThreadRef} {pd : Fin maxPds}
    (targets : Targets s t pd)
    {packet : List Byte} (kind : packet.head? = some (chr 'M')) (tail : List Byte) :
    TruthfulWrite pd packet tail s ↔ ReportsTruly pd packet tail s := by
  obtain ⟨rest, rfl⟩ : ∃ rest, packet = chr 'M' :: rest := by
    cases packet with
    | nil => cases kind
    | cons c rest =>
      cases kind
      exact ⟨rest, rfl⟩
  let u := s.lay 0 []
  have handler := handleWriteMem_cases (s := u) targets.target (chr 'M' :: rest ++ 0 :: tail)
  have run : (gdbHandlePacket (chr 'M' :: rest ++ 0 :: tail)).run s =
      (do handleWriteMem (chr 'M' :: rest ++ 0 :: tail); return false : Stub Bool).run u :=
        writeMem_packet _ s
  unfold TruthfulWrite ReportsTruly
  rw [run]
  cases parse : parseMemFormat (chr 'M' :: rest ++ 0 :: tail) with
  | error f =>
    rw [parse] at handler
    rw [run_bind_error handler]
    exact iff_of_false (fun ⟨_, no, _⟩ => by cases no) id
  | ok format =>
    rw [parse] at handler
    match format with
    | none =>
      rw [run_bind_ok handler]
      refine iff_of_true ⟨_, rfl, ?_⟩ trivial
      rw [lay_reply _ _ (by decide) (by decide)]
      exact (truthful_uncalled _ _ _ (by decide)).mpr (Or.inr ⟨_, _, rfl⟩)
    | some (a, size) =>
      dsimp only at handler ⊢
      cases colon : memchr (chr 'M' :: rest ++ 0 :: tail) (chr ':') bufsize with
      | error f =>
        rw [colon] at handler
        rw [run_bind_error handler]
        exact iff_of_false (fun ⟨_, no, _⟩ => by cases no) id
      | ok place =>
        rw [colon] at handler
        match place with
        | none =>
          rw [run_bind_ok handler]
          have uncalled := @truthful_uncalled _ (s.inferiors pd).vspace (chr 'M' :: rest)
              s.kernel [] (by decide)
          have noError : ¬ IsError [] := fun ⟨_, _, no⟩ => by cases no
          rw [or_iff_left noError] at uncalled
          refine Iff.trans ?_ uncalled
          constructor
          · rintro ⟨v, same, truthful⟩
            cases same
            rwa [lay_reply s [] (by simp) (by decide)] at truthful
          · intro truthful
            refine ⟨u, rfl, ?_⟩
            rwa [lay_reply s [] (by simp) (by decide)]
        | some found =>
          dsimp only at handler ⊢
          refine Iff.trans ?_ (truthful_loop_iff (s := u) targets.owner parse colon)
          constructor
          · rintro ⟨v, run', truthful⟩
            have returned (mem : Word) (k : Kernel)
                (loop : (infHex2mem (some t) found.tail a (intOfWord size)).run u =
                  .ok mem (u.withKernel k)) :
                ∃ mem k, (infHex2mem (some t) found.tail a (intOfWord size)).run u =
                  .ok mem (u.withKernel k) ∧
                  TruthfulReply (u.inferiors pd).vspace (chr 'M' :: rest) u.kernel k
                    (writeReply mem) := by
              rw [loop] at handler
              cases (run_bind_ok handler _).symm.trans run'
              refine ⟨mem, k, loop, ?_⟩
              rwa [reply_writeReply] at truthful
            rcases infHex2mem_cases (s := u) targets.owner found.tail a size with ⟨_, loop⟩ |
              ⟨_, _, _, loop⟩
            · cases last : loopEnd a (intOfWord size).toNat found.tail with
              | none =>
                rw [last] at loop
                rw [show _ = EStateM.Result.error _ _ from loop] at handler
                cases (run_bind_error handler _).symm.trans run'
              | some mem =>
                rw [last] at loop
                exact returned mem _ loop
            · exact returned _ _ loop
          · rintro ⟨mem, k, loop, truthful⟩
            rw [loop] at handler
            refine ⟨_, run_bind_ok handler _, ?_⟩
            rwa [reply_writeReply]

omit [Machine] in
theorem one_byte_truthful : letI := obligingBoard
    TruthfulWrite 0 (str "M1000,1:aB") [] soloState := by
  let _ := obligingBoard
  have haddr : WordText (str "1000") := ⟨by decide, by decide⟩
  have hsize : WordText (str "1") := ⟨by decide, by decide⟩
  have whole : ∃ a data, Carries (str "M1000,1:aB") a data :=
    ⟨_, _, @Carries.data (str "1000") (str "1") (str "aB")
      [0xab] haddr hsize ⟨by decide, by decide, trivial⟩ (by decide)⟩
  have shape : str "M1000,1:aB" ++ 0 :: [] = writePacket (str "1000") (str "1") (str "aB") [] := by
    decide
  refine (write_failures_reported_iff solo_targets rfl []).mpr ?_
  unfold ReportsTruly
  rw [shape, parseMemFormat_writePacket (str "aB") [] haddr hsize]
  dsimp only
  rw [memchr_writePacket (str "aB") [] haddr hsize]
  exact ⟨fun done next stopped => absurd stopped.refused Bool.false_ne_true, fun _ =>
    Or.inl ⟨by decide, whole⟩⟩

@[reducible] def unmappedBoard : Machine where
  numExclusiveBreakpoints := 6
  numExclusiveWatchpoints := 4
  firstBreakpoint := 0
  firstWatchpoint := 6
  apart := obligingBoard.apart
  fails := fun _ call =>
    match call with
    | .vspaceReadWord _ _ => true
    | .vspaceWriteWord _ _ _ => true
    | _ => false
  junkInt := fun _ => 0
  junkContext := fun _ => ⟨fun _ => 0, 0, 0, 0, 0, 0⟩

def unmappedState : @State unmappedBoard :=
  let _ := unmappedBoard
  after (gdbRegisterThread 1 1 5) (after (gdbRegisterInferior 1 7) (.boot (fun _ => 0) blankKernel))

omit [Machine] in
theorem unmapped_registered : letI := unmappedBoard
    Registered unmappedState := by
  let _ := unmappedBoard
  exact .thread 1 1 5 (.inferior 1 7 (.boot (fun _ => 0) blankKernel) rfl) rfl

omit [Machine] in
/-- The word at 0x1000 cannot be read, and the reply is OK. -/
theorem refused_read_replied_ok : letI := unmappedBoard
    ¬ ∀ s, Reachable s → ∀ t pd, Targets s t pd → ∀ packet : List Byte, packet.head? =
      some (chr 'M') →
      ∀ tail, TruthfulWrite pd packet tail s := by
  let _ := unmappedBoard
  intro all
  have targets : Targets unmappedState ⟨0, 0⟩ 0 := ⟨rfl, rfl⟩
  obtain ⟨u, run, truthful⟩ :=
    all unmappedState unmapped_registered.reachable _ _ targets (str "M1000,1:aB") rfl []
  let s := unmappedState.lay 0 []
  let read : KernelCall := .vspaceReadWord (s.inferiors 0).vspace 0x1000
  have loop : (infHex2mem (some ⟨0, 0⟩) (str "aB" ++ 0 :: []) (wordOf (str "1000"))
      (intOfWord (wordOf (str "1")))).run s = .ok 0x1000 (s.withKernel (s.kernel.record read)) := by
    have outcome := @readInferiorWord_outcome _ s ⟨0, 0⟩ 0 targets.owner 0x1000
    rw [infHex2mem, show (intOfWord (wordOf (str "1"))).toNat = 0 + 1 by decide,
      show wordOf (str "1000") =
          0x1000 by decide, infHex2memLoop_first (by decide), run_bind_ok outcome]
    rfl
  have replied := writePacket_run targets (str "aB")
      [] ⟨by decide, by decide⟩ ⟨by decide, by decide⟩ loop
  cases run.symm.trans replied
  have error := truthful.refused ⟨[], read, ⟨[], rfl⟩, rfl⟩
  rw [reply_writeReply] at error
  exact absurd error (by decide)

end Libgdb
