import Libgdb.Crowds

/-!
Thread ids on the wire: what `parse_thread_id` makes of a text, and which live threads GDB
can address with the id the stub announces for them. The text carries one byte of each id.
-/
namespace Libgdb
open ByteMemory SlotTables CheckedPrograms
variable [Machine]

/- Parsing. -/

omit [Machine] in
theorem minusOne_other {c : Byte} (ne : c ≠ chr '-') (rest : List Byte) :
    minusOne (c :: rest) = .ok false := by
  have head : str "-1" ++ [0] = [chr '-', chr '1', 0] := by decide
  have diff : (c.toNat : Int) - (chr '-').toNat ≠ 0 := by
    intro zero
    exact ne (BitVec.eq_of_toNat_eq (by omega))
  rw [minusOne, head, strncmp]
  simp only [diff, ne_eq, not_false_eq_true, true_or, if_true, bind, Except.bind, decide_false]
  rfl

omit [Machine] in
theorem spanDot_text (text rest : List Byte) (nodot : ∀ c ∈ text, c ≠ chr '.') :
    spanDot (text ++ chr '.' :: rest) = .ok (text.length, rest) := by
  induction text with
  | nil => rfl
  | cons c text ih =>
    rw [List.cons_append, spanDot, if_neg (nodot c (by simp)), ih fun d mem =>
      nodot d (by simp [mem])]
    rfl

omit [Machine] in
theorem spanHex_digits (text : List Byte) (digits : ∀ c ∈ text, IsHex c) {stop : Byte}
    (ends : ¬ IsHex stop) (rest : List Byte) :
    spanHex (text ++ stop :: rest) = .ok (text.length, stop :: rest) := by
  induction text with
  | nil =>
    have stops : hexcharToInt stop = -1 := by simpa [IsHex] using ends
    rw [List.nil_append, spanHex, if_pos stops]
    rfl
  | cons c text ih =>
    have hex : hexcharToInt c ≠ -1 := digits c (by simp)
    rw [List.cons_append, spanHex, if_neg hex, ih fun d mem => digits d (by simp [mem])]
    rfl

omit [Machine] in
theorem minusOne_digits (text : List Byte) (digits : ∀ c ∈ text, IsHex c) (stop : Byte)
    (ne : stop ≠ chr '-') (rest : List Byte) : minusOne (text ++ stop :: rest) = .ok false := by
  cases text with
  | nil => exact minusOne_other ne rest
  | cons c text =>
    exact minusOne_other (isHex_ne (digits c (by simp)) (by decide)) _

omit [Machine] in
theorem parseThreadId_digits (proc thread : List Byte) (procHex : ∀ c ∈ proc, IsHex c)
    (threadHex : ∀ c ∈ thread, IsHex c) {stop : Byte} (ends : ¬ IsHex stop) (ne : stop ≠ chr '-')
    (rest : List Byte) (procOld threadOld : BitVec 32) {procId threadId : BitVec 32}
    (procStore : storeId (proc ++ chr '.' :: (thread ++ stop :: rest)) proc.length procOld =
      .ok procId)
    (threadStore : storeId (thread ++ stop :: rest) thread.length threadOld = .ok threadId) :
    parseThreadId (chr 'p' :: (proc ++ chr '.' :: (thread ++ stop :: rest))) procOld threadOld =
      .ok ⟨some (stop :: rest), procId, threadId⟩ := by
  have dot : ¬ IsHex (chr '.') := by decide
  unfold parseThreadId
  simp only [peek, List.tail_cons, bind, Except.bind, ne_eq, not_true_eq_false, if_false,
    minusOne_digits proc procHex (chr '.') (by decide),
    spanDot_text proc _ fun c mem => isHex_ne (procHex c mem) dot, procStore,
    minusOne_digits thread threadHex stop ne, spanHex_digits thread threadHex ends, threadStore]
  rfl

omit [Machine] in
theorem overwriteInt_byte (b : Byte) : overwriteInt 0 [b] = b.setWidth 32 := by
  have zero (k : Nat) : (0 : BitVec 32).extractLsb' (8 * k) 8 = 0 := BitVec.extractLsb'_zero
  apply BitVec.eq_of_toNat_eq
  have small := b.isLt
  simp only [overwriteInt, zero, digits, BitVec.toNat_ofNat, BitVec.toNat_setWidth]
  simp

omit [Machine] in
theorem storeId_byte {text : List Byte} {b : Byte} (encodes : HexOf text [b]) (rest : List Byte) :
    storeId (text ++ rest) text.length 0 = .ok (b.setWidth 32) := by
  have length := hexOf_length encodes
  have bytes := hex2mem_digits encodes rest
  simp only [List.length_singleton, Nat.mul_one] at length bytes
  rw [storeId, length]
  simp only [Nat.reduceDiv, Nat.one_ne_zero, if_false, bytes, bind, Except.bind]
  rw [if_pos (by decide), overwriteInt_byte]
  rfl

omit [Machine] in
theorem byteInt_toInt (b : Byte) : (b.setWidth 32).toInt = b.toNat := by
  have small := b.isLt
  rw [BitVec.toInt_eq_toNat_of_lt] <;> rw [BitVec.toNat_setWidth] <;> omega

/- Lookups. -/

omit [Machine] in
theorem idToIdx_succ (n m : Nat) : idToIdx (n + 1 : Nat) m = .ok ((n % m : Nat) : Int) := by
  have positive : ((n + 1 : Nat) : Int) ≠ -2 ^ 31 := by omega
  rw [idToIdx, if_neg positive, show ((n + 1 : Nat) : Int) - 1 = (n : Int) by omega,
    ← Int.ofNat_tmod]

omit [Machine] in
theorem tableIndex_nat {n i : Nat} (lt : i < n) : tableIndex n (i : Int) = .ok ⟨i, lt⟩ := by
  rw [tableIndex, dif_pos ⟨by omega, by omega⟩]
  rfl

theorem lookupInferior_registered {s : State} (ok : RegistryOk s) {pd : Fin maxPds}
    (enabled : (s.inferiors pd).enabled = true) :
    lookupInferiorFromGdbId s (pd.val + 1 : Nat) = .ok (some pd) := by
  have id := ok.inferiorId pd
  rw [if_pos enabled] at id
  unfold lookupInferiorFromGdbId
  simp only [idToIdx_succ, Nat.mod_eq_of_lt pd.isLt, tableIndex_nat pd.isLt, bind, Except.bind, id]
  rw [if_neg (by simp)]
  rfl

theorem lookupThread_registered {s : State} (ok : RegistryOk s) {pd : Fin maxPds}
    (enabled : (s.inferiors pd).enabled = true) (n : Nat) :
    lookupThreadFromGdbId s (pd.val + 1 : Nat) (n + 1 : Nat) =
      .ok (if (s.thread ⟨pd, Fin.ofNat maxThreads n⟩).gdbId.toNat = n + 1 then
        some ⟨pd, Fin.ofNat maxThreads n⟩ else none) := by
  have id := ok.inferiorId pd
  rw [if_pos enabled] at id
  have lt : n % maxThreads < maxThreads := Nat.mod_lt _ (by decide)
  unfold lookupThreadFromGdbId
  simp only [idToIdx_succ, Nat.mod_eq_of_lt pd.isLt, tableIndex_nat pd.isLt, bind, Except.bind, id,
    ne_eq, not_true_eq_false, if_false, tableIndex_nat lt]
  by_cases here : (s.thread ⟨pd, Fin.ofNat maxThreads n⟩).gdbId.toNat = n + 1
  · rw [if_pos here, if_neg (fun ne => ne (congrArg Nat.cast here))]
    rfl
  · rw [if_neg here]
    exact congrArg Except.ok (if_pos fun eq => here (Int.ofNat_inj.mp eq))

theorem lookupThread_zero {s : State} (ok : RegistryOk s) {pd : Fin maxPds}
    (enabled : (s.inferiors pd).enabled = true) :
    lookupThreadFromGdbId s (pd.val + 1 : Nat) (0 : Nat) = .error .indexOutOfBounds := by
  have id := ok.inferiorId pd
  rw [if_pos enabled] at id
  unfold lookupThreadFromGdbId
  simp only [idToIdx_succ, Nat.mod_eq_of_lt pd.isLt, tableIndex_nat pd.isLt, bind, Except.bind, id,
    ne_eq, not_true_eq_false, if_false]
  rfl

/- Round trips. -/

/-- GDB reaches the thread by the id the stub writes for it: the text parses to the two gdb
    ids, and the lookup of these finds the thread. -/
def RoundTrips (s : State) (t : ThreadRef) : Prop :=
  ∃ pd text, (s.thread t).inferior = some pd ∧
    (writeThreadId t 0).run s = .ok text.length (s.lay 0 text) ∧
    ∀ rest, ∃ id, parseThreadId (text ++ 0 :: rest) 0 0 = .ok id ∧ id.ptr = some (0 :: rest) ∧
      id.procId.toInt = (s.inferiors pd).gdbId.toNat ∧
      id.threadId.toInt = (s.thread t).gdbId.toNat ∧
      lookupThreadFromGdbId s id.procId.toInt id.threadId.toInt = .ok (some t)

omit [Machine] in
theorem parseThreadId_written (a b : Byte) {stop : Byte} (ends : ¬ IsHex stop) (ne : stop ≠ chr '-')
    (rest : List Byte) :
    parseThreadId (chr 'p' :: hexDigits [a] ++ chr '.' :: hexDigits [b] ++ stop :: rest) 0 0 =
      .ok ⟨some (stop :: rest), a.setWidth 32, b.setWidth 32⟩ := by
  have proc := storeId_byte (hexDigits_hexOf [a]) (chr '.' :: (hexDigits [b] ++ stop :: rest))
  have thread := storeId_byte (hexDigits_hexOf [b]) (stop :: rest)
  simpa using parseThreadId_digits (hexDigits [a]) (hexDigits [b]) (hexDigits_isHex _)
    (hexDigits_isHex _) ends ne rest 0 0 proc thread

theorem lay_injective {s : State} {a b : List Byte} (length : a.length = b.length)
    (same : s.lay 0 a = s.lay 0 b) : a = b := by
  apply List.ext_getElem length
  intro k lt lt'
  have := congrFun (congrArg State.output same) k
  rw [lay_output, lay_output, layText_zero _ _ _ _ lt, layText_zero _ _ _ _ lt',
    List.getD_eq_getElem _ _ lt, List.getD_eq_getElem _ _ lt'] at this
  exact this

theorem idBytes {s : State} (ok : RegistryOk s) {t : ThreadRef}
    (enabled : (s.thread t).enabled = true) : (s.inferiors t.pd).enabled = true ∧
    (s.inferiors t.pd).gdbId.toNat = t.pd.val + 1 ∧
    ((s.inferiors t.pd).gdbId.setWidth 8).toNat = t.pd.val + 1 := by
  have live := ok.live enabled
  have inferior : (s.inferiors t.pd).enabled = true := by
    simp only [State.live, Bool.and_eq_true] at live
    exact live.1
  have proc := ok.inferiorId t.pd
  rw [if_pos inferior] at proc
  refine ⟨inferior, proc, ?_⟩
  have small := t.pd.isLt
  simp only [maxPds] at small
  rw [BitVec.toNat_setWidth, proc]
  omega

theorem roundTrips_byte {s : State} (ok : RegistryOk s) {t : ThreadRef}
    (enabled : (s.thread t).enabled = true) (trips : RoundTrips s t) :
    0 < (s.thread t).gdbId.toNat ∧ (s.thread t).gdbId.toNat < 256 := by
  have owner := ok.owner enabled
  have run := writeThreadId_run t t.pd 0 s owner (by decide)
  obtain ⟨inferior, proc, procByte⟩ := idBytes ok enabled
  obtain ⟨pd, text, owner', run', parses⟩ := trips
  obtain rfl : pd = t.pd := by
    rw [owner] at owner'
    exact (Option.some.inj owner').symm
  rw [run] at run'
  have length : text.length = 6 := by
    injection run' with len _
    omega
  have same : threadIdText s t t.pd = text := by
    injection run' with _ state
    exact lay_injective (by rw [length, threadIdText_length]) state
  obtain ⟨id, parsed, _, _, threadId, lookup⟩ := parses []
  rw [← same, threadIdText, parseThreadId_written _ _ not_isHex_zero (by decide)] at parsed
  cases parsed
  rw [byteInt_toInt, BitVec.toNat_setWidth] at threadId
  refine ⟨?_, by omega⟩
  by_contra zero
  rw [byteInt_toInt, byteInt_toInt, procByte, BitVec.toNat_setWidth,
    show (s.thread t).gdbId.toNat = 0 by omega, lookupThread_zero ok inferior] at lookup
  cases lookup

theorem byte_roundTrips {s : State} (ok : RegistryOk s) {t : ThreadRef}
    (enabled : (s.thread t).enabled = true) (positive : 0 < (s.thread t).gdbId.toNat)
    (byte : (s.thread t).gdbId.toNat < 256) : RoundTrips s t := by
  have owner := ok.owner enabled
  have run := writeThreadId_run t t.pd 0 s owner (by decide)
  obtain ⟨inferior, proc, procByte⟩ := idBytes ok enabled
  refine ⟨t.pd, threadIdText s t t.pd, owner, by rw [threadIdText_length]; exact run, ?_⟩
  intro rest
  refine ⟨_, parseThreadId_written _ _ not_isHex_zero (by decide) rest, rfl, ?_, ?_, ?_⟩
  · rw [byteInt_toInt, procByte, proc]
  · rw [byteInt_toInt, BitVec.toNat_setWidth, Nat.mod_eq_of_lt byte]
  · obtain ⟨n, succ⟩ := Nat.exists_eq_succ_of_ne_zero (Nat.ne_of_gt positive)
    have here : Fin.ofNat maxThreads n = t.slot := by
      apply Fin.ext
      rcases ok.threads t with ⟨none, _⟩ | ⟨_, _, place⟩
      · simp [none] at owner
      · have slot := t.slot.isLt
        rw [Fin.val_ofNat]
        simp only [maxThreads] at slot place ⊢
        omega
    rw [byteInt_toInt, byteInt_toInt, procByte, BitVec.toNat_setWidth, Nat.mod_eq_of_lt byte, succ,
      lookupThread_registered ok inferior n, here, if_pos succ]

/-- A live thread's id makes the round trip exactly when its gdb id is a byte and not zero. -/
theorem thread_id_round_trips_iff {s : State} (reachable : Reachable s) {t : ThreadRef}
    (enabled : (s.thread t).enabled = true) :
    RoundTrips s t ↔ 0 < (s.thread t).gdbId.toNat ∧ (s.thread t).gdbId.toNat < 256 := by
  have ok := reachable_ok reachable
  exact ⟨roundTrips_byte ok enabled, fun ⟨positive, byte⟩ =>
    byte_roundTrips ok enabled positive byte⟩

omit [Machine] in
theorem solo_thread_id_round_trips : letI := obligingBoard
    RoundTrips soloState ⟨0, 0⟩ := by
  let _ := obligingBoard
  exact (thread_id_round_trips_iff solo_registered.reachable rfl).mpr ⟨by decide, by decide⟩

omit [Machine] in
/-- The 256th thread registered with one inferior is announced as p01.00. -/
theorem last_thread_id_does_not_round_trip : letI := obligingBoard
    ¬ ∀ s, Registered s → ∀ t, (s.thread t).enabled = true → RoundTrips s t := by
  let _ := obligingBoard
  intro all
  obtain ⟨s, registered, crowd⟩ := crowd_registered (fun _ => 0) blankKernel 1 (by decide)
    (fun pd => if pd = 0 then 256 else 0)
    (by intro pd le; rw [if_neg]; rintro rfl; simp at le) (by intro pd; split <;> decide)
  have core := crowd_thread crowd (t := ⟨0, 255⟩) (by decide) (by decide)
  have enabled : (s.thread ⟨0, 255⟩).enabled = true := (congrArg Thread.enabled core :)
  have gdbId : (s.thread ⟨0, 255⟩).gdbId = 256 := (congrArg Thread.gdbId core :)
  have byte := roundTrips_byte (reachable_ok registered.reachable) enabled
      (all s registered _ enabled)
  rw [gdbId] at byte
  exact absurd byte.2 (by decide)

end Libgdb
