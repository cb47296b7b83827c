import Libgdb.FailedWrites
import Libgdb.OpenIds

/-!
Decoders that count their digits: the registers of a `G` packet and the data of an `M` packet. When
there are fewer digits in the packet than they count, they read on behind its NUL.
-/
namespace Libgdb
open ByteMemory CheckedPrograms RefusedCalls

/- Registers. -/

theorem hex2mem_front {text : List Byte} {n : Nat} (length : text.length = 2 * n)
    (rest : List Byte) :
    hex2mem (text ++ rest) n = .ok (pairBytes text, rest) := by
  induction n generalizing text with
  | zero =>
    rw [List.eq_nil_of_length_eq_zero length, hex2mem]
    rfl
  | succ n ih =>
    rcases text with _ | ⟨hi, _ | ⟨lo, text⟩⟩
    · simp at length
    · simp at length
      omega
    · simp only [List.length_cons] at length
      rw [List.cons_append, List.cons_append, hex2mem, ih (by omega)]
      rfl

theorem pairBytes_at {text : List Byte} {k : Nat} (inside : 2 * k + 1 < text.length) (d : Byte) :
    (pairBytes text).getD k d = hexPair (text.getD (2 * k) 0) (text.getD (2 * k + 1) 0) := by
  induction k generalizing text with
  | zero =>
    rcases text with _ | ⟨hi, _ | ⟨lo, text⟩⟩
    · simp at inside
    · simp at inside
    · rfl
  | succ k ih =>
    rcases text with _ | ⟨hi, _ | ⟨lo, text⟩⟩
    · simp at inside
    · simp at inside
    · simp only [List.length_cons] at inside
      exact ih (by omega)

theorem pairBytes_length (text : List Byte) : (pairBytes text).length = text.length / 2 := by
  induction text using pairBytes.induct with
  | case1 hi lo text ih =>
    rw [pairBytes, List.length_cons, ih]
    simp only [List.length_cons]
    omega
  | case2 text short =>
    rw [half_eq_zero short, pairBytes]
    · rfl
    · exact short

theorem hex2general_front {is : List (Fin 31)} {text : List Byte}
    (length : text.length = 16 * is.length) (regs : UserContext) :
    ∃ made, made.spsr = regs.spsr ∧ ∀ rest, hex2general is regs (text ++ rest) =
    .ok (made, rest) := by
  induction is generalizing text regs with
  | nil =>
    obtain rfl := List.eq_nil_of_length_eq_zero length
    exact ⟨regs, rfl, fun rest => rfl⟩
  | cons i is ih =>
    rw [List.length_cons] at length
    have first : (text.take 16).length = 2 * 8 := List.length_take_of_le (by omega)
    obtain ⟨made, kept, read⟩ := @ih (text.drop 16) (by rw [List.length_drop]; omega)
      { regs with x := Function.update regs.x i (ofBytes fun k => (pairBytes (text.take 16)).getD k 0) }
    refine ⟨made, kept, fun rest => ?_⟩
    have split : text ++ rest = text.take 16 ++ (text.drop 16 ++ rest) := by
      rw [← List.append_assoc, List.take_append_drop]
    rw [split, hex2general, hex2word, hex2mem_front first, ok_bind]
    exact read rest

/-- The registers of a text depend on its first 536 characters, to the last of them. -/
theorem hex2regs_front {text : List Byte} (length : text.length = 536) (regs : UserContext) :
    ∃ made, byteOf made.spsr 3 = hexPair (text.getD 534 0) (text.getD 535 0) ∧
      ∀ rest, hex2regs regs (text ++ rest) = .ok (made, rest) := by
  obtain ⟨general, more, rfl, general_length⟩ : ∃ general more, text = general ++ more ∧
      general.length = 496 :=
    ⟨text.take 496, text.drop 496, (List.take_append_drop 496 text).symm,
      List.length_take_of_le (by omega)⟩
  obtain ⟨sp, more, rfl, sp_length⟩ : ∃ sp more', more = sp ++ more' ∧ sp.length = 2 * 8 :=
    ⟨more.take 16, more.drop 16, (List.take_append_drop 16 more).symm, List.length_take_of_le (by
      rw [List.length_append] at length
      omega)⟩
  obtain ⟨pc, low, rfl, pc_length⟩ : ∃ pc low, more = pc ++ low ∧ pc.length = 2 * 8 :=
    ⟨more.take 16, more.drop 16, (List.take_append_drop 16 more).symm, List.length_take_of_le (by
      simp only [List.length_append] at length
      omega)⟩
  simp only [List.length_append] at length
  have low_length : low.length = 2 * 4 := by omega
  obtain ⟨made, kept, read⟩ := @hex2general_front (List.finRange 31) general
    (show general.length = 16 * (List.finRange 31).length by
      rw [general_length, List.length_finRange]) regs
  refine ⟨{ made with
    sp := ofBytes fun k => (pairBytes sp).getD k 0
    pc := ofBytes fun k => (pairBytes pc).getD k 0
    spsr := ofBytes fun k => (pairBytes low).getD k (byteOf made.spsr k) }, ?_, fun rest => ?_⟩
  · have place (k : Nat) : (general ++ (sp ++ (pc ++ low))).getD (528 + k) 0 = low.getD k 0 := by
      rw [show general ++ (sp ++ (pc ++ low)) = (general ++ (sp ++ pc)) ++ low by simp,
        List.getD_append_right _ _ _ _ (by simp only [List.length_append]; omega)]
      congr 1
      simp only [List.length_append]
      omega
    dsimp only
    rw [byteOf_ofBytes _ (by decide), pairBytes_at (by omega), ← place, ← place]
  · simp only [List.append_assoc, hex2regs, read, hex2word, hex2mem_front sp_length,
      hex2mem_front pc_length,
      hex2mem_front low_length, ok_bind, pure_bind]
    rfl


theorem hexPair_differs (hi : Byte) : hexPair hi (chr '0') ≠ hexPair hi (chr '1') := by
  have zero : hexPair hi (chr '0') = BitVec.ofInt 8 (hexcharToInt hi * 16) + 0 := rfl
  have one : hexPair hi (chr '1') = BitVec.ofInt 8 (hexcharToInt hi * 16) + 1 := rfl
  rw [zero, one]
  bv_omega

theorem lastPair_differs (text : List Byte) {room e : Nat} (behind : text.length + 1 < e)
    (inside : e ≤ text.length + 1 + room) :
    let filled (c : Byte) := text ++ 0 :: List.replicate room c
    hexPair ((filled (chr '0')).getD (e - 2) 0) ((filled (chr '0')).getD (e - 1) 0) ≠
      hexPair ((filled (chr '1')).getD (e - 2) 0) ((filled (chr '1')).getD (e - 1) 0) := by
  intro filled
  have front (c : Byte) {k : Nat} (lt : k < text.length + 1) :
      (filled c).getD k 0 = (text ++ [0]).getD k 0 := by
    rw [show filled c = (text ++ [0]) ++ List.replicate room c by simp [filled]]
    exact List.getD_append _ _ _ _ (by simpa using lt)
  have tail (c : Byte) {k : Nat} (ge : text.length + 1 ≤ k) (lt : k < text.length + 1 + room) :
      (filled c).getD k 0 = c := by
    rw [show filled c = (text ++ [0]) ++ List.replicate room c by simp [filled],
      List.getD_append_right _ _ _ _ (by simpa using ge)]
    simp only [List.length_append, List.length_singleton, List.getD_eq_getElem?_getD]
    rw [List.getElem?_replicate_of_lt (by omega)]
    rfl
  rw [tail _ (show text.length + 1 ≤ e - 1 by omega) (by omega),
    tail _ (show text.length + 1 ≤ e - 1 by omega) (by omega)]
  by_cases split : e - 2 < text.length + 1
  · rw [front _ split, front _ split]
    exact hexPair_differs _
  · rw [tail _ (show text.length + 1 ≤ e - 2 by omega) (by omega),
      tail _ (show text.length + 1 ≤ e - 2 by omega) (by omega)]
    decide

/- The calls for a text that goes on behind the NUL. -/

/-- The characters up to the end of the word that the next character is in. -/
def wordEnd (n chars : Nat) : Nat := 2 * min (8 * (chars / 16 + 1)) n

theorem byteOf_fillWord (w : Word) (j : Nat) (bytes : List Byte) (k : Nat) (lt : k < 8) :
    byteOf (fillWord w j bytes) k = if j ≤ k ∧ k < j + bytes.length then bytes.getD
    (k - j) 0 else byteOf w k := by
  induction bytes generalizing w j with
  | nil => rw [fillWord, if_neg (by simp only [List.length_nil]; omega)]
  | cons b bytes ih =>
    rw [fillWord, ih, byteOf_setByte _ _ _ _ lt, List.length_cons]
    by_cases here : k = j
    · subst here
      rw [if_neg (by omega), if_pos rfl, if_pos (by omega), Nat.sub_self]
      rfl
    · rw [if_neg here]
      by_cases later : j + 1 ≤ k ∧ k < j + 1 + bytes.length
      · rw [if_pos later, if_pos (by omega), show k - j = k - (j + 1) + 1 by omega]
        rfl
      · rw [if_neg later, if_neg (by omega)]

theorem wordCalls_unreached (vspace a : Word) {words q n : Nat} (count : words = (n + 7) / 8)
    {front more : List Byte} (m : Memory)
    (unreached : front.length < 2 * n → (front ++ more).length < wordEnd n front.length) :
    wordCalls vspace a words q n (front ++ more) m = wordCalls vspace a words q n front m := by
  induction words generalizing q n front m with
  | zero => rfl
  | succ words ih =>
    rw [wordCalls, wordCalls]
    by_cases short : front.length < 2 * min 8 n
    · have inside := unreached (by omega)
      rw [wordEnd, show front.length / 16 = 0 by omega] at inside
      rw [if_pos short, if_pos (by omega)]
    · have whole : ¬ (front ++ more).length < 2 * min 8 n := by
        rw [List.length_append]
        omega
      rw [if_neg short, if_neg whole, List.take_append_of_le_length (by omega),
        List.drop_append_of_le_length (by omega)]
      by_cases last : n ≤ 8
      · obtain rfl : words = 0 := by omega
        rfl
      · rw [ih (by omega)]
        intro left
        have inside := unreached (by rw [List.length_drop] at left; omega)
        simp only [wordEnd, List.length_append, List.length_drop] at inside left ⊢
        omega

theorem wordCalls_reached (vspace a : Word) {words q n : Nat} (count : words = (n + 7) / 8)
    {front more : List Byte} (m : Memory) (further : front.length < 2 * n)
    (reached : wordEnd n front.length ≤ (front ++ more).length) :
    ∃ dest value stop rest, wordCalls vspace a words q n (front ++ more) m =
        wordCalls vspace a words q n front m ++ ⟨.vspaceWriteWord vspace dest value, stop⟩ :: rest ∧
      byteOf value ((wordEnd n front.length / 2 - 1) % 8) =
        hexPair ((front ++ more).getD (wordEnd n front.length - 2) 0)
        ((front ++ more).getD (wordEnd n front.length - 1) 0) := by
  induction words generalizing q n front m with
  | zero => omega
  | succ words ih =>
    rw [wordCalls, wordCalls]
    by_cases short : front.length < 2 * min 8 n
    · have ends : wordEnd n front.length = 2 * min 8 n := by
        rw [wordEnd, show front.length / 16 = 0 by omega]
      rw [ends] at reached ⊢
      rw [if_pos short, if_neg (by omega)]
      refine ⟨_, _, _, _, rfl, ?_⟩
      have size : ((front ++ more).take (2 * min 8 n)).length = 2 * min 8 n :=
        List.length_take_of_le reached
      have inside {k : Nat} (lt : k < 2 * min 8 n) :
          ((front ++ more).take (2 * min 8 n)).getD k 0 = (front ++ more).getD k 0 := by
        simp only [List.getD_eq_getElem?_getD, List.getElem?_take, lt, if_true]
      obtain ⟨r, last⟩ : ∃ r, min 8 n = r + 1 := ⟨min 8 n - 1, by omega⟩
      rw [show (2 * min 8 n / 2 - 1) % 8 = r by omega, byteOf_fillWord _ _ _ _ (by omega),
        if_pos (by rw [pairBytes_length, size]; omega), Nat.sub_zero, pairBytes_at (by omega),
          inside (by omega),
        inside (by omega), show 2 * min 8 n - 2 =
          2 * r by omega, show 2 * min 8 n - 1 = 2 * r + 1 by omega]
    · have whole : ¬ (front ++ more).length < 2 * min 8 n := by
        rw [List.length_append]
        omega
      rw [if_neg short, if_neg whole, List.take_append_of_le_length (by omega),
        List.drop_append_of_le_length (by omega)]
      have ends : wordEnd n front.length = wordEnd (n - 8) (front.drop 16).length + 16 := by
        simp only [wordEnd, List.length_drop]
        omega
      rw [show min 8 n = 8 by omega]
      obtain ⟨dest, value, stop, rest, calls, last⟩ :=
        @ih (q + 1) (n - 8) (by omega) (front.drop 16)
          (store m (a + BitVec.ofNat 64 (17 * q + (8 - 1)))
        (fillWord (load m (a + BitVec.ofNat 64 (16 * q))) 0 (pairBytes (front.take (2 * 8)))))
        (by rw [List.length_drop]; omega)
          (by simp only [List.length_append, List.length_drop] at reached ends ⊢; omega)
      refine ⟨dest, value, stop, rest, by rw [calls]; rfl, ?_⟩
      have positive : 2 ≤ wordEnd (n - 8) (front.drop 16).length := by
        simp only [wordEnd]
        omega
      have inside (k : Nat) : (front ++ more).getD (k + 16) 0 =
          (front.drop 16 ++ more).getD k 0 := by
        rw [← List.drop_append_of_le_length (by omega)]
        simp only [List.getD_eq_getElem?_getD, List.getElem?_drop, Nat.add_comm]
      rw [← inside, ← inside] at last
      rw [ends, show wordEnd (n - 8) (front.drop 16).length + 16 - 2 = wordEnd (n - 8)
        (front.drop 16).length - 2 + 16 by omega,
        show wordEnd (n - 8) (front.drop 16).length + 16 - 1 = wordEnd (n - 8)
            (front.drop 16).length - 1 + 16 by omega, ← last]
      congr 1
      simp only [wordEnd]
      omega

theorem memchr_absent {text : List Byte} {c : Byte} {n : Nat} (fresh : ∀ b ∈ text, b ≠ c)
    (enough : n ≤ text.length) :
    memchr text c n = .ok none := by
  induction text generalizing n with
  | nil =>
    obtain rfl := Nat.le_zero.mp enough
    rw [memchr]
  | cons b text ih =>
    cases n with
    | zero => rw [memchr]
    | succ n =>
      rw [memchr, if_neg (fresh b List.mem_cons_self)]
      exact ih (fun d mem => fresh d (List.mem_cons_of_mem _ mem)) (Nat.le_of_succ_le_succ enough)

/- The loop over a text. -/

theorem loopEnd_length (a : Word) (n : Nat) {text text' : List Byte}
    (length : text.length = text'.length) :
    loopEnd a n text = loopEnd a n text' := by
  unfold loopEnd
  rw [length]

variable [Machine]

theorem infHex2mem_same {s : State} {t : ThreadRef} {pd : Fin maxPds}
    (owner : (s.thread t).inferior = some pd)
    {text text' : List Byte} (length : text.length = text'.length) (a size : Word)
    (calls : wordCalls (s.inferiors pd).vspace a (((intOfWord size).toNat + 7) / 8) 0
      (intOfWord size).toNat text (memoryAt s pd) =
      wordCalls (s.inferiors pd).vspace a (((intOfWord size).toNat + 7) / 8) 0
        (intOfWord size).toNat text' (memoryAt s pd)) :
    (infHex2mem (some t) text a (intOfWord size)).run s =
    (infHex2mem (some t) text' a (intOfWord size)).run s := by
  have first := infHex2mem_cases owner text a size
  have second := infHex2mem_cases owner text' a size
  dsimp only at first second
  rw [calls] at first
  rw [loopEnd_length a _ length] at first
  rcases first with ⟨accepted, run⟩ | ⟨done, next, stopped, run⟩
  · rcases second with ⟨_, run'⟩ | ⟨done', next', stopped', _⟩
    · exact run.trans run'.symm
    · exact absurd stopped' (accepted_not_stopped accepted)
  · rcases second with ⟨accepted', _⟩ | ⟨done', next', stopped', run'⟩
    · exact absurd stopped (accepted_not_stopped accepted')
    · obtain ⟨rfl, rfl⟩ := stoppedAfter_unique stopped stopped'
      exact run.trans run'.symm

theorem infHex2mem_stopped {s : State} {t : ThreadRef} {pd : Fin maxPds}
    (owner : (s.thread t).inferior = some pd)
    {text : List Byte} {a size : Word} {front more done : List WordCall} {next : WordCall}
    (calls : wordCalls (s.inferiors pd).vspace a (((intOfWord size).toNat + 7) / 8) 0
      (intOfWord size).toNat text (memoryAt s pd) =
      front ++ more) (stopped :
        StoppedAfter Machine.fails WordCall.call s.kernel.calls front done next) :
    (infHex2mem (some t) text a (intOfWord size)).run s =
      .ok next.stop (s.withKernel (s.kernel.recordAll (done ++ [next]))) := by
  have loop := infHex2mem_cases owner text a size
  dsimp only at loop
  rw [calls] at loop
  rcases loop with ⟨accepted, _⟩ | ⟨done', next', stopped', run⟩
  · exact absurd (stopped.append more) (accepted_not_stopped accepted)
  · obtain ⟨rfl, rfl⟩ := stoppedAfter_unique (stopped.append more) stopped'
    exact run

theorem infHex2mem_past {s : State} {t : ThreadRef} {pd : Fin maxPds}
    (owner : (s.thread t).inferior = some pd)
    {text : List Byte} {a size : Word} {front rest : List WordCall} {next : WordCall}
    (calls : wordCalls (s.inferiors pd).vspace a (((intOfWord size).toNat + 7) / 8) 0
      (intOfWord size).toNat text (memoryAt s pd) =
      front ++ next :: rest) (accepted :
        Accepted Machine.fails WordCall.call s.kernel.calls front) :
    ∃ more, (after (infHex2mem (some t) text a (intOfWord size)) s).kernel.calls =
      recorded WordCall.call s.kernel.calls (front ++ next :: more) := by
  have loop := infHex2mem_cases owner text a size
  dsimp only at loop
  rw [calls] at loop
  rcases loop with ⟨_, run⟩ | ⟨done, last, stopped, run⟩
  · refine ⟨rest, ?_⟩
    rw [← recordAll_calls]
    cases ends : loopEnd a (intOfWord size).toNat text with
    | none =>
      rw [ends] at run
      rw [after_error run]
      rfl
    | some mem =>
      rw [ends] at run
      rw [after_ok run]
      rfl
  · obtain ⟨more, made⟩ := stopped.past accepted
    refine ⟨more, ?_⟩
    rw [after_ok run, withKernel_kernel, recordAll_calls, made]

/-- The data of a write is read on behind the NUL: the word that the characters behind it belong to
    is asked for and ends in the buffer, and the kernel accepts the calls up to there. -/
def DataReached (s : State) (room : Nat) (a size : Word) (data : List Byte) : Prop :=
  ∃ t pd, Targets s t pd ∧
    let n := (intOfWord size).toNat
    data.length + 1 < 2 * n ∧ wordEnd n (data.length + 1) ≤ data.length + 1 + room ∧
      Accepted Machine.fails WordCall.call s.kernel.calls
        (wordCalls (s.inferiors pd).vspace a ((n + 7) / 8) 0 n (data ++ [0]) (memoryAt s pd))

theorem infHex2mem_unread {s : State} {room : Nat} {a size : Word} {data : List Byte}
    (unreached : ¬ DataReached s room a size data) :
    Unread room fun tail => (infHex2mem s.targetThread (data ++ 0 :: tail) a (intOfWord size)).run
    s := by
  have faults {thread : Option ThreadRef} {e : Fault}
      (read : ∀ mem, (readInferiorWord thread mem).run s = .error e s) :
      Unread room fun tail => (infHex2mem thread (data ++ 0 :: tail) a (intOfWord size)).run s := by
    unfold infHex2mem
    cases (intOfWord size).toNat with
    | zero => exact fun _ _ _ _ => rfl
    | succ n =>
      refine unread_of_eq (a := .error e s) fun tail => ?_
      rw [infHex2memLoop_first rfl, run_bind_error (read a)]
  cases target : s.targetThread with
  | none => exact faults fun mem => by rw [readInferiorWord, run_bind_ok (EStateM.run_get s)]; rfl
  | some t =>
    cases owner : (s.thread t).inferior with
    | none =>
      exact faults fun mem => by
        rw [readInferiorWord, run_bind_ok (EStateM.run_get s), run_bind_ok (deref_run rfl s), owner]
        rfl
    | some pd =>
      have front (tail : List Byte) : data ++ 0 :: tail = (data ++ [0]) ++ tail := by simp
      have length : (data ++ [(0 : Byte)]).length = data.length + 1 := by simp
      have total {tail : List Byte} (here : tail.length = room) : (data ++ [0] ++ tail).length =
          data.length + 1 + room := by
        rw [List.length_append, length, here]
      intro tail tail' here there
      dsimp only
      rw [front tail, front tail']
      by_cases crosses : data.length + 1 < 2 * (intOfWord size).toNat ∧
          wordEnd (intOfWord size).toNat (data.length + 1) ≤ data.length + 1 + room
      · rcases @accepted_or_stopped _ _ Machine.fails WordCall.call s.kernel.calls
          (wordCalls (s.inferiors pd).vspace a
          (((intOfWord size).toNat + 7) / 8) 0 (intOfWord size).toNat (data ++ [0])
            (memoryAt s pd)) with
          accepted | ⟨done, next, stopped⟩
        · exact absurd ⟨t, pd, ⟨target, owner⟩, crosses.1, crosses.2, accepted⟩ unreached
        · have stops (tail : List Byte) (here : tail.length = room) :=
            @wordCalls_reached (s.inferiors pd).vspace a _ 0 (intOfWord size).toNat rfl (data ++
              [0]) tail (memoryAt s pd)
              (by rw [length]; exact crosses.1) (by rw [total here, length]; exact crosses.2)
          obtain ⟨_, _, _, _, calls, _⟩ := stops tail here
          obtain ⟨_, _, _, _, calls', _⟩ := stops tail' there
          rw [infHex2mem_stopped owner calls stopped, infHex2mem_stopped owner calls' stopped]
      · have whole (tail : List Byte) (here : tail.length = room) :=
          @wordCalls_unreached (s.inferiors pd).vspace a _ 0 (intOfWord size).toNat rfl (data ++
            [0]) tail (memoryAt s pd) (by
            rw [total here, length]
            intro further
            by_contra ends
            exact crosses ⟨further, by omega⟩)
        refine infHex2mem_same owner (by simp [here, there]) a size ?_
        rw [whole tail here, whole tail' there]

/-- Two fillings of the buffer that lead to different calls. -/
theorem infHex2mem_reached {s : State} {room : Nat} {a size : Word} {data : List Byte}
    (reached : DataReached s room a size data) : let calls (c : Byte) :=
  (after (infHex2mem s.targetThread (data ++ 0 :: List.replicate room c) a (intOfWord size))
    s).kernel.calls
    calls (chr '0') ≠ calls (chr '1') := by
  intro calls same
  obtain ⟨t, pd, targets, further, ends, accepted⟩ := reached
  have front (tail : List Byte) : data ++ 0 :: tail = (data ++ [0]) ++ tail := by simp
  have length : (data ++ [(0 : Byte)]).length = data.length + 1 := by simp
  have write (c : Byte) : ∃ dest value stop more, calls c =
      recorded WordCall.call s.kernel.calls (wordCalls
        (s.inferiors pd).vspace a (((intOfWord size).toNat + 7) / 8) 0 (intOfWord size).toNat
          (data ++ [0]) (memoryAt s pd) ++
          ⟨.vspaceWriteWord (s.inferiors pd).vspace dest value, stop⟩ :: more) ∧
      byteOf value ((wordEnd (intOfWord size).toNat (data.length + 1) / 2 - 1) % 8) = hexPair
        ((data ++ 0 :: List.replicate room c).getD (wordEnd (intOfWord size).toNat
          (data.length + 1) - 2) 0)
        ((data ++ 0 :: List.replicate room c).getD (wordEnd (intOfWord size).toNat
          (data.length + 1) - 1) 0) := by
    obtain ⟨dest, value, stop, rest, made, last⟩ :=
      @wordCalls_reached (s.inferiors pd).vspace a _ 0 (intOfWord size).toNat rfl
      (data ++ [0]) (List.replicate room c) (memoryAt s pd) (by rw [length]; exact further)
      (by rw [@List.length_append _ (data ++ [0]), length, List.length_replicate]; exact ends)
    rw [← front, length] at last
    rw [← front] at made
    obtain ⟨more, past⟩ := infHex2mem_past targets.owner made accepted
    refine ⟨dest, value, stop, more, ?_, last⟩
    simp only [calls, targets.target]
    exact past
  obtain ⟨dest, value, stop, more, made, last⟩ := write (chr '0')
  obtain ⟨dest', value', stop', more', made', last'⟩ := write (chr '1')
  rw [made, made'] at same
  have call := recorded_same same
  simp only [KernelCall.vspaceWriteWord.injEq, true_and] at call
  rw [call.2, last'] at last
  have n : wordEnd (intOfWord size).toNat (data.length + 1) ≤ data.length + 1 + room := ends
  have past : data.length + 1 < wordEnd (intOfWord size).toNat (data.length + 1) := by
    simp only [wordEnd]
    omega
  exact lastPair_differs data past n last.symm

end Libgdb
