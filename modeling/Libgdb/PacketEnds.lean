import Libgdb.CountedDigits
import Libgdb.TextFormats
import Libgdb.ThreadList

/-!
Two buffers with the same packet. Most handlers stop at its NUL; a register packet is read for its
fixed number of digits, a memory packet up to a colon and for as many digits as it asks for, and an
id up to its dot, wherever these are in the buffer.
-/
namespace Libgdb
open ByteMemory CheckedPrograms

variable [Machine]

/- Packets. -/

def behind (packet : List Byte) : Nat := bufsize - (packet.length + 1)

/-- Any two buffers that agree up to the NUL lead to the same run: the same value or fault, and the
    same reply, memory, registers, tables and target. -/
def SameRuns (s : State) (packet : List Byte) : Prop :=
  Unread (behind packet) fun tail => (gdbHandlePacket (packet ++ 0 :: tail)).run s

theorem textIs_behind (text : List Byte) (literal : String) (n : Nat) (tail tail' : List Byte) :
    textIs (text ++ 0 :: tail) literal n = textIs (text ++ 0 :: tail') literal n := by
  unfold textIs
  rw [strncmp_behind text _ n tail tail']

theorem handleQuery_behind (text tail tail' : List Byte) :
    handleQuery (text ++ 0 :: tail) = handleQuery (text ++ 0 :: tail') := by
  unfold handleQuery
  simp only [textIs_behind text _ _ tail tail']

theorem handleReadMem_behind (first : Byte) (text tail tail' : List Byte) :
    handleReadMem (first :: text ++ 0 :: tail) = handleReadMem (first :: text ++ 0 :: tail') := by
  unfold handleReadMem
  rw [parseMemFormat_behind first text tail tail']

theorem handleConfigureDebugEvents_behind (first : Byte) (text tail tail' : List Byte) :
    handleConfigureDebugEvents (first :: text ++ 0 :: tail) =
      handleConfigureDebugEvents (first :: text ++ 0 :: tail') := by
  have second : peek (first :: text ++ 0 :: tail).tail = peek (first :: text ++ 0 :: tail').tail :=
    peek_behind text tail tail'
  have head : peek (first :: text ++ 0 :: tail) = peek (first :: text ++ 0 :: tail') := rfl
  unfold handleConfigureDebugEvents
  rw [parseBreakpointFormat_behind first text tail tail']
  simp only [textIs_behind (first :: text) _ _ tail tail', second, head]

def ReadsOn (first : Byte) : Prop :=
  first = chr 'G' ∨ first = chr 'M' ∨ first = chr 'H' ∨ first = chr 'T' ∨ first = chr 'v'

theorem sameRuns_other {first : Byte} (other : ¬ ReadsOn first) (text : List Byte) (s : State) :
    SameRuns s (first :: text) := by
  intro tail tail' _ _
  simp only [ReadsOn, not_or] at other
  obtain ⟨notG, notM, notH, notT, notV⟩ := other
  have same : gdbHandlePacket (first :: text ++ 0 :: tail) =
      gdbHandlePacket (first :: text ++ 0 :: tail') := by
    have head (tail : List Byte) : liftParse (peek (first :: text ++ 0 :: tail)) = pure first := rfl
    unfold gdbHandlePacket
    simp only [head, pure_bind, notG, notM, notH, notT, notV, if_false,
      handleQuery_behind (first :: text) tail tail',
      handleReadMem_behind first text tail tail',
        handleConfigureDebugEvents_behind first text tail tail']
  exact congrArg (fun m => m.run s) same

theorem sameRuns_empty (s : State) : SameRuns s [] := by
  have ended (tail : List Byte) : gdbHandlePacket (0 :: tail) = (do
      put 0 0
      return false) := rfl
  exact unread_of_eq fun tail => congrArg (fun m => m.run s) (ended tail)

/- `G` packets. -/

theorem writeRegs_run {text : List Byte} {s : State} {made : UserContext} {rest : List Byte}
    (read : hex2regs (Machine.junkContext s.drawn) text = .ok (made, rest)) :
    (gdbHandlePacket (chr 'G' :: text)).run s = (do
      let t ← deref s.targetThread
      let _ ← tcbWriteRegisters (s.thread t).tcb true made
      strlcpy 0 (str "OK") bufsize
      return false : Stub Bool).run ((s.lay 0 []).draw 1) := by
  rw [dispatch_writeRegs, run_bind_ok (put_zero_run (by decide) s)]
  unfold handleWriteRegs
  have fresh : freshContext.run (s.lay 0 []) = .ok (Machine.junkContext s.drawn)
      ((s.lay 0 []).draw 1) := rfl
  simp only [bind_assoc]
  rw [run_bind_ok (liftParse_run (peek_cons _ _) _), run_bind_ok (assert_run rfl _),
    run_bind_ok fresh, List.tail_cons,
    run_bind_ok (liftParse_run read _), run_bind_ok (EStateM.run_get _)]
  rfl

theorem writeRegs_sameRuns_iff {text : List Byte} (fits : (chr 'G' :: text).length < bufsize)
    (s : State) :
    SameRuns s (chr 'G' :: text) ↔ 535 ≤ text.length ∨ s.targetThread = none := by
  simp only [List.length_cons, bufsize] at fits
  have whole {tail : List Byte} (here : tail.length = behind (chr 'G' :: text)) :
      (text ++ 0 :: tail).length = 2047 := by
    simp only [behind, bufsize, List.length_cons, List.length_append] at here ⊢
    omega
  have decode {tail : List Byte} (here : tail.length = behind (chr 'G' :: text)) :
      ∃ made, byteOf made.spsr 3 = hexPair ((text ++ 0 :: tail).getD 534 0)
        ((text ++ 0 :: tail).getD 535 0) ∧
        hex2regs (Machine.junkContext s.drawn) (text ++ 0 :: tail) =
          .ok (made, (text ++ 0 :: tail).drop 536) := by
    have front : ((text ++ 0 :: tail).take 536).length = 536 :=
      List.length_take_of_le (by rw [whole here]; decide)
    obtain ⟨made, last, read⟩ := hex2regs_front front (Machine.junkContext s.drawn)
    have inside {k : Nat} (lt : k < 536) : ((text ++ 0 :: tail).take 536).getD k 0 =
        (text ++ 0 :: tail).getD k 0 := by
      simp only [List.getD_eq_getElem?_getD, List.getElem?_take, lt, if_true]
    refine ⟨made, by rw [last, inside (by decide), inside (by decide)], ?_⟩
    rw [← read, List.take_append_drop]
  constructor
  · intro same
    by_contra neither
    rw [not_or] at neither
    obtain ⟨t, target⟩ := Option.ne_none_iff_exists'.mp neither.2
    let filled (c : Byte) := List.replicate (behind (chr 'G' :: text)) c
    have filled_length (c : Byte) : (filled c).length = behind (chr 'G' :: text) :=
      List.length_replicate
    have run (c : Byte) : ∃ made, byteOf made.spsr 3 = hexPair ((text ++ 0 :: filled c).getD 534 0)
        ((text ++ 0 :: filled c).getD 535 0) ∧
        (gdbHandlePacket (chr 'G' :: text ++ 0 :: filled c)).run s =
          .ok false (State.lay (((s.lay 0 []).draw 1).withKernel
          (s.kernel.record (.tcbWriteRegisters (s.thread t).tcb true made))) 0 (str "OK")) := by
      obtain ⟨made, last, read⟩ := decode (filled_length c)
      refine ⟨made, last, ?_⟩
      rw [List.cons_append, writeRegs_run read, target, run_bind_ok (deref_run rfl _),
        tcbWriteRegisters, run_bind_ok (invoke_run _ _),
        run_bind_ok (strlcpy_run _ _ _ _ (by decide) (by decide))]
      rfl
    obtain ⟨made, last, zeros⟩ := run (chr '0')
    obtain ⟨made', last', ones⟩ := run (chr '1')
    have states := zeros.symm.trans ((same _ _ (filled_length (chr '0'))
        (filled_length (chr '1'))).trans ones)
    injection states with _ states
    have calls := congrArg (fun u : State => u.kernel.calls) states
    simp only [lay_kernel, withKernel_kernel, record_calls, List.cons.injEq,
      KernelCall.tcbWriteRegisters.injEq, true_and,
      and_true] at calls
    rw [calls, last'] at last
    exact lastPair_differs text (show text.length + 1 < 536 by omega)
      (by simp only [behind, bufsize, List.length_cons]; omega)
      last.symm
  · rintro (long | none)
    · have front : ((text ++ [0]).take 536).length = 536 :=
        List.length_take_of_le (by simp only [List.length_append, List.length_singleton]; omega)
      obtain ⟨made, _, read⟩ := hex2regs_front front (Machine.junkContext s.drawn)
      have decoded (tail : List Byte) : hex2regs (Machine.junkContext s.drawn) (text ++ 0 :: tail) =
          .ok (made, (text ++ [0]).drop 536 ++ tail) := by
        rw [← read, ← List.append_assoc, List.take_append_drop, List.append_assoc]
        rfl
      exact unread_of_eq fun tail => writeRegs_run (decoded tail)
    · intro tail tail' here there
      obtain ⟨made, _, read⟩ := decode here
      obtain ⟨made', _, read'⟩ := decode there
      dsimp only
      rw [List.cons_append, List.cons_append, writeRegs_run read, writeRegs_run read', none]
      rfl

/- `M` packets. -/

theorem infHex2mem_packet {input found : List Byte} {a size : Word}
    (parse : parseMemFormat (chr 'M' :: input) = .ok (some (a, size)))
    (colon : memchr (chr 'M' :: input) (chr ':') bufsize = .ok (some found)) (s : State) :
    (gdbHandlePacket (chr 'M' :: input)).run s = (do
      let mem ← infHex2mem s.targetThread found.tail a (intOfWord size)
      strlcpy 0 (writeReply mem) bufsize
      return false : Stub Bool).run (s.lay 0 []) := by
  rw [writeMem_packet, handleWriteMem_found parse colon, bind_assoc,
    run_bind_ok (EStateM.run_get _), bind_assoc]
  rfl

theorem writeMem_colonless {addr size : List Byte} (haddr : WordText addr)
    (hsize : WordText size) (s : State) :
    ¬ SameRuns s (chr 'M' :: (addr ++ chr ',' :: size)) := by
  intro same
  have parse (tail : List Byte) :
      parseMemFormat (chr 'M' :: (addr ++ chr ',' :: size ++ 0 :: tail)) =
      .ok (some (wordOf addr, wordOf size)) := by
    rw [List.append_assoc]
    exact parseMemFormat_run (chr 'M') 0 tail haddr hsize not_isHex_zero (Or.inl rfl)
  have colonless : ∀ b ∈ chr 'M' :: (addr ++ chr ',' :: size ++ [0]), b ≠ chr ':' := by
    have colon : ¬ IsHex (chr ':') := by decide
    intro b mem
    simp only [List.mem_cons, List.mem_append, List.not_mem_nil, or_false] at mem
    rcases mem with rfl | (mem | rfl | mem) | rfl
    · decide
    · exact isHex_ne (haddr.digits b mem) colon
    · decide
    · exact isHex_ne (hsize.digits b mem) colon
    · decide
  have length : (chr 'M' :: (addr ++ chr ',' :: size ++ [0])).length ≤ 35 := by
    have := haddr.fits
    have := hsize.fits
    simp only [List.length_cons, List.length_append, List.length_nil]
    omega
  obtain ⟨room, space⟩ : ∃ room, behind (chr 'M' :: (addr ++ chr ',' :: size)) = room + 1 := by
    refine ⟨behind (chr 'M' :: (addr ++ chr ',' :: size)) - 1, ?_⟩
    simp only [behind, bufsize, List.length_cons, List.length_append, List.length_nil] at length ⊢
    omega
  have front (tail : List Byte) : chr 'M' :: (addr ++ chr ',' :: size ++ 0 :: tail) =
      chr 'M' :: (addr ++ chr ',' :: size ++ [0]) ++ tail := by simp
  have zeros : (gdbHandlePacket (chr 'M' :: (addr ++ chr ',' :: size ++ 0 ::
      List.replicate (room + 1) 0))).run s =
      .ok false (s.lay 0 []) := by
    have absent : memchr (chr 'M' :: (addr ++ chr ',' :: size ++ 0 :: List.replicate (room + 1) 0))
        (chr ':') bufsize =
        .ok none := by
      rw [front]
      refine memchr_absent (fun b mem => ?_) ?_
      · rcases List.mem_append.mp mem with here | there
        · exact colonless b here
        · rw [(List.mem_replicate.mp there).2]
          decide
      · simp only [behind, bufsize, List.length_cons, List.length_append, List.length_nil,
          List.length_replicate] at space ⊢
        omega
    rw [writeMem_packet, handleWriteMem, parse, absent]
    rfl
  have found : memchr (chr 'M' :: (addr ++ chr ',' :: size ++ 0 :: chr ':' ::
      List.replicate room 0)) (chr ':') bufsize =
      .ok (some (chr ':' :: List.replicate room 0)) := by
    rw [front]
    exact memchr_first _ _ _ _ colonless (by simp only [bufsize]; omega)
  have colon : (gdbHandlePacket (chr 'M' :: (addr ++ chr ',' :: size ++ 0 :: chr ':' ::
      List.replicate room 0))).run s =
      .ok false (s.lay 0 []) :=
    (same (chr ':' :: List.replicate room 0) (List.replicate (room + 1) 0) (by simp [space])
      (by simp [space])).trans zeros
  rw [infHex2mem_packet (parse _) found] at colon
  obtain ⟨mem, v, _, rest⟩ := ok_bind_run colon
  rw [run_bind_ok (writeReply_run mem v)] at rest
  injection rest with _ states
  have replies := congrArg State.reply states
  rw [reply_writeReply, lay_reply s [] (by simp) (by decide)] at replies
  unfold writeReply at replies
  split at replies <;> cases replies

theorem writeMem_sameRuns_iff {addr size data : List Byte} (haddr : WordText addr)
    (hsize : WordText size) (s : State) :
    SameRuns s (chr 'M' :: (addr ++ chr ',' :: (size ++ chr ':' :: data))) ↔
      ¬ DataReached s (behind (chr 'M' :: (addr ++ chr ',' :: (size ++ chr ':' :: data))))
        (wordOf addr) (wordOf size) data := by
  have run (tail : List Byte) :
      (gdbHandlePacket (chr 'M' :: (addr ++ chr ',' :: (size ++ chr ':' :: data)) ++
      0 :: tail)).run s =
      (infHex2mem s.targetThread (data ++ 0 :: tail) (wordOf addr) (intOfWord (wordOf size)) >>=
        fun mem => do
        strlcpy 0 (writeReply mem) bufsize
        return false : Stub Bool).run (s.lay 0 []) := by
    have shape : chr 'M' :: (addr ++ chr ',' :: (size ++ chr ':' :: data)) ++ 0 :: tail =
        writePacket addr size data tail := by
      simp [writePacket]
    rw [shape]
    exact infHex2mem_packet (parseMemFormat_writePacket data tail haddr hsize)
      (memchr_writePacket data tail haddr hsize) s
  constructor
  · intro same reached
    have calls (tail : List Byte) :
        (after (gdbHandlePacket (chr 'M' :: (addr ++ chr ',' :: (size ++ chr ':' :: data)) ++ 0 ::
        tail)) s).kernel.calls =
        (after (infHex2mem s.targetThread (data ++ 0 :: tail) (wordOf addr)
          (intOfWord (wordOf size))) (s.lay 0 [])).kernel.calls := by
      cases loop : (infHex2mem s.targetThread (data ++ 0 :: tail) (wordOf addr)
        (intOfWord (wordOf size))).run (s.lay 0 []) with
      | error e u => rw [after_error loop, after_error ((run tail).trans (run_bind_error loop _))]
      | ok mem u =>
        rw [after_ok loop, after_ok
          ((run tail).trans ((run_bind_ok loop _).trans (run_bind_ok (writeReply_run mem u) _)))]
        rfl
    have reached' : DataReached (s.lay 0 [])
        (behind (chr 'M' :: (addr ++ chr ',' :: (size ++ chr ':' :: data)))) (wordOf addr)
        (wordOf size) data := by
      obtain ⟨t, pd, targets, reads⟩ := reached
      exact ⟨t, pd, ⟨targets.target, targets.owner⟩, reads⟩
    refine infHex2mem_reached reached' ?_
    dsimp only
    rw [lay_targetThread, ← calls, ← calls]
    have runs := same _ _ (List.length_replicate (a := chr '0'))
        (List.length_replicate (a := chr '1'))
    dsimp only at runs
    unfold after
    rw [runs]
  · intro unreached
    have unreached' : ¬ DataReached (s.lay 0 [])
        (behind (chr 'M' :: (addr ++ chr ',' :: (size ++ chr ':' :: data)))) (wordOf addr)
        (wordOf size) data := by
      rintro ⟨t, pd, targets, reads⟩
      exact unreached ⟨t, pd, ⟨targets.target, targets.owner⟩, reads⟩
    exact unread_congr (fun tail _ => run tail) (unread_before (infHex2mem_unread unreached') _)

theorem writeMem_malformed {text : List Byte} (nonzero : ∀ c ∈ text, c ≠ 0)
    (other : ∀ addr size, WordText addr → WordText size → ¬ MemText (chr 'M' :: text) addr size)
    (s : State) :
    SameRuns s (chr 'M' :: text) := by
  refine unread_of_eq (a := .ok false ((s.lay 0 []).lay 0 (str "E02"))) fun tail => ?_
  obtain ⟨r, parse, reads⟩ := @parseMemFormat_reads (chr 'M') text nonzero tail
  cases r with
  | none =>
    have refused : (handleWriteMem (chr 'M' :: text ++ 0 :: tail)).run (s.lay 0 []) = .ok ()
        ((s.lay 0 []).lay 0 (str "E02")) := by
      rw [handleWriteMem, parse]
      exact strlcpy_run _ _ _ _ (by decide) (by decide)
    rw [List.cons_append, writeMem_packet]
    exact run_bind_ok refused _
  | some format =>
    obtain ⟨addr, size, haddr, hsize, text, _⟩ := (reads format.1 format.2).mp rfl
    exact absurd text (other addr size haddr hsize)

/- `H` and `T` packets. -/

theorem threadAlive_run (input : List Byte) (s : State) :
    (gdbHandlePacket (chr 'T' :: input)).run s =
      (liftParse (parseThreadId input (Machine.junkInt s.drawn) 0) >>= fun id => do
        answerId .alive id
        return false : Stub Bool).run ((s.lay 0 []).draw 1) := by
  have dispatch : gdbHandlePacket (chr 'T' :: input) = (do
      put 0 0
      handleCheckThreadAlive (chr 'T' :: input)
      return false) := rfl
  have handler : handleCheckThreadAlive (chr 'T' :: input) = (do
      let procId ← freshInt
      let id ← liftParse (parseThreadId input procId 0)
      answerId .alive id) := by
    rw [handleCheckThreadAlive_uses]
    rfl
  rw [dispatch, run_bind_ok (put_zero_run (by decide) s), handler, bind_assoc,
    run_bind_ok (freshInt_run _), bind_assoc]
  rfl

theorem threadAlive_sameRuns_iff {id : List Byte} (nonzero : ∀ c ∈ id, c ≠ 0) (s : State) :
    SameRuns s (chr 'T' :: id) ↔ ¬ OpenId (behind (chr 'T' :: id)) id := by
  rw [← answered_unread_iff nonzero (Machine.junkInt s.drawn) 0 .alive false ((s.lay 0 []).draw 1)]
  exact iff_of_eq (congrArg (Unread _) (funext fun tail => threadAlive_run (id ++ 0 :: tail) s))

omit [Machine] in
theorem dashOne_behind (text : List Byte) :
    ∃ b, (b = true → ∀ room, ¬ OpenId room text) ∧ ∀ tail, dashOne (text ++ 0 :: tail) = .ok b := by
  cases text with
  | nil => exact ⟨false, (fun bad => by cases bad), fun tail => rfl⟩
  | cons c text =>
    by_cases dash : c = chr '-'
    · subst dash
      have closed (room : Nat) : ¬ OpenId room (chr '-' :: text) := by
        rintro ⟨field, same, _⟩
        cases (List.cons.inj same).1
      cases text with
      | nil => exact ⟨false, (fun bad => by cases bad), fun tail => rfl⟩
      | cons d text => exact ⟨decide (d = chr '1'), fun _ => closed, fun tail => rfl⟩
    · refine ⟨false, (fun bad => by cases bad), fun tail => ?_⟩
      rw [List.cons_append, dashOne, peek_cons, ok_bind, if_neg dash]
      rfl

theorem setInferior_run (input : List Byte) (s : State) :
    (gdbHandlePacket (chr 'H' :: input)).run s =
      (do
        handleSetInferior (chr 'H' :: input)
        return false : Stub Bool).run (s.lay 0 []) := by
  rw [dispatch_setInferior, run_bind_ok (put_zero_run (by decide) s)]

theorem setInferior_sameRuns_iff {kind : Byte} (known : kind = chr 'g' ∨ kind = chr 'c') {id : List Byte}
    (nonzero : ∀ c ∈ id, c ≠ 0) (s : State) :
    SameRuns s (chr 'H' :: kind :: id) ↔ ¬ OpenId (behind (chr 'H' :: kind :: id)) id := by
  obtain ⟨all, closed, dash⟩ := dashOne_behind id
  have handler (tail : List Byte) : handleSetInferior (chr 'H' :: kind :: (id ++ 0 :: tail)) = (do
      let procId ← freshInt
      if all then
        let s ← get
        assert (s.targetThread ≠ none)
        strlcpy 0 (str "OK") bufsize
      else
        let id ← liftParse (parseThreadId (id ++ 0 :: tail) procId 0)
        answerId .select id) := by
    rw [handleSetInferior_uses]
    simp only [List.tail_cons, peek_cons, dash]
    rcases known with rfl | rfl <;> rfl
  have run (tail : List Byte) : (gdbHandlePacket (chr 'H' :: kind :: id ++ 0 :: tail)).run s =
      ((if all then (do
          let s ← get
          assert (s.targetThread ≠ none)
          strlcpy 0 (str "OK") bufsize)
        else
          liftParse (parseThreadId (id ++ 0 :: tail) (Machine.junkInt s.drawn) 0) >>= answerId .select : Stub Unit) >>=
        fun _ => pure false).run ((s.lay 0 []).draw 1) := by
    rw [List.cons_append, List.cons_append, setInferior_run, handler, bind_assoc, run_bind_ok (freshInt_run _)]
    rfl
  cases all with
  | true => exact iff_of_true (fun tail tail' _ _ => (run tail).trans (run tail').symm) (closed rfl _)
  | false =>
    rw [← answered_unread_iff nonzero (Machine.junkInt s.drawn) 0 .select false ((s.lay 0 []).draw 1)]
    refine iff_of_eq (congrArg (Unread _) (funext fun tail => (run tail).trans ?_))
    rw [if_neg (by decide), bind_assoc]

theorem setInferior_other {text : List Byte} (other : ∀ kind id, text = kind :: id →
      ¬ (kind = chr 'g' ∨ kind = chr 'c')) (s : State) : SameRuns s (chr 'H' :: text) := by
  have refused {kind : Byte} (unknown : ¬ (kind = chr 'g' ∨ kind = chr 'c')) (rest : List Byte) :
      (gdbHandlePacket (chr 'H' :: kind :: rest)).run s =
        .ok false (((s.lay 0 []).draw 1).lay 0 (str "E01")) := by
    have handler : handleSetInferior (chr 'H' :: kind :: rest) = (do
        let _ ← freshInt
        strlcpy 0 (str "E01") bufsize) := by
      rw [handleSetInferior_uses]
      simp only [List.tail_cons, peek_cons, liftParse, pure_bind, if_pos (not_or.mp unknown)]
    rw [setInferior_run, handler, bind_assoc, run_bind_ok (freshInt_run _),
      run_bind_ok (strlcpy_run _ _ _ _ (by decide) (by decide))]
    rfl
  cases text with
  | nil => exact unread_of_eq fun tail => refused (by decide) tail
  | cons kind id => exact unread_of_eq fun tail => refused (other kind id rfl) (id ++ 0 :: tail)

/- vCont packets. -/

theorem resume_run_start {text tail : List Byte}
    (here : tail.length = behind (str "vCont;" ++ text)) (s : State) :
    (gdbHandlePacket (str "vCont;" ++ text ++ 0 :: tail)).run s =
      (vcontActions (text.length + behind (str "vCont;" ++ text) + 7 + 1)
        (chr ';' :: text ++ 0 :: tail) >>= fun _ =>
        pure true).run (scriptStart s) := by
  have length : (str "vCont;" ++ (text ++ 0 :: tail)).length + 1 = text.length +
      behind (str "vCont;" ++ text) + 7 + 1 := by
    have literal : (str "vCont;").length = 6 := rfl
    rw [List.length_append, List.length_append, List.length_cons, here, literal]
    omega
  rw [List.append_assoc, dispatch_vcont, handleVcont, length]
  rfl

theorem resume_sameRuns_iff {s : State} (ok : RegistryOk s) {action : Byte}
    (kind : action = chr 's' ∨ action = chr 'c') {id : List Byte} (nonzero : ∀ c ∈ id, c ≠ 0) :
    SameRuns s (str "vCont;" ++ action :: chr ':' :: id) ↔
      ¬ ComesToOpen s (behind (str "vCont;" ++ action :: chr ':' :: id)) s.drawn id := by
  obtain ⟨b, kind'⟩ : ∃ b, action = chr 's' ∧ b = true ∨ action = chr 'c' ∧ b = false := by
    rcases kind with steps | continues
    · exact ⟨true, Or.inl ⟨steps, rfl⟩⟩
    · exact ⟨false, Or.inr ⟨continues, rfl⟩⟩
  obtain ⟨fuel, enough, run⟩ : ∃ fuel, id.length < fuel ∧
      ∀ tail, tail.length = behind (str "vCont;" ++ action :: chr ':' :: id) →
        (gdbHandlePacket (str "vCont;" ++ action :: chr ':' :: id ++ 0 :: tail)).run s =
          ((vcontIds b fuel (chr ':' :: (id ++ 0 :: tail)) >>=
            fun input => vcontActions fuel input) >>= fun _ =>
            pure true).run (setAllWakeup (scriptStart s) (!b)) := by
    refine ⟨(action :: chr ':' :: id).length + behind (str "vCont;" ++ action :: chr ':' :: id) + 7,
      ?_, fun tail here => ?_⟩
    · simp only [List.length_cons]
      omega
    · have round (fuel : Nat) := vcontActions_round kind' fuel
        (show peek (chr ';' :: action :: chr ':' :: (id ++ 0 :: tail)) = .ok (chr ';') from rfl) rfl
          (scriptStart s)
      rw [resume_run_start here]
      exact run_bind_same (round _) _
  have same : SameRegistry s (setAllWakeup (scriptStart s) (!b)) :=
    IsTrans.trans _ _ _ (sameRegistry_start s) (PacketFrame.allWakeup _ _)
  constructor
  · intro unread comes
    have apart := comesToOpen_apart ok comes nonzero b same rfl enough enough
    exact (tellsApart_congr run (apart.before fun _ => avoids_pure true)).not_unread unread
  · intro never
    exact unread_congr run (unread_before (vcontIds_unread ok _ (Nat.lt_succ_self _) nonzero b fuel
      fuel same never) _)

theorem resume_otherwise {text : List Byte} (nonzero : ∀ c ∈ text, c ≠ 0)
    (other : ∀ action id, chr 'v' :: text = str "vCont;" ++ action :: chr ':' :: id →
      ¬ (action = chr 's' ∨ action = chr 'c')) (s : State) : SameRuns s (chr 'v' :: text) := by
  by_cases resumes : str "vCont;" <+: chr 'v' :: text
  · obtain ⟨actions, split⟩ := resumes
    have plain : ∀ c ∈ chr ';' :: actions, c ≠ 0 := by
      have known : text = str "Cont" ++ chr ';' :: actions := (List.cons.inj split).2.symm
      exact fun c mem => nonzero c (known ▸ List.mem_append_right _ mem)
    rw [← split]
    refine unread_congr (fun tail here => resume_run_start here s)
      (unread_before (vcontActions_unread plain ?_) _)
    intro action id b fuel' same _ kind
    rw [← split, (List.cons.inj same).2] at other
    exact absurd (kind.imp And.left And.left) (other action id rfl)
  · let ended := chr 'v' :: text ++ [0]
    have dispatch (tail : List Byte) : gdbHandlePacket (chr 'v' :: text ++ 0 :: tail) = (do
        put 0 0
        if ← textIs ended "vCont?" 7 then
          strlcpy 0 (str "vCont;c;C;s;S") bufsize
          return false
        else if ← textIs ended "vCont;" 6 then
          handleVcont (chr 'v' :: text ++ 0 :: tail)
          return true
        else
          return false) := by
      rw [textIs_behind (chr 'v' :: text) "vCont?" 7 [] tail,
        textIs_behind (chr 'v' :: text) "vCont;" 6 [] tail]
      rfl
    have unresumed (run run' : Stub Bool) :
        (do if ← textIs ended "vCont;" 6 then run else return false : Stub Bool) =
        do if ← textIs ended "vCont;" 6 then run' else return false := by
      rw [textIs]
      cases compared : strncmp ended (str "vCont;" ++ [0]) 6 with
      | error e => rfl
      | ok diff =>
        have differs : diff ≠ 0 := by
          rintro rfl
          rcases List.prefix_concat_iff.mp (prefix_of_strncmp (by decide) compared) with whole |
            front
          · have terminator : (0 : Byte) ∈ str "vCont;" := whole ▸ List.mem_concat_self
            exact absurd terminator (by decide)
          · exact resumes front
        simp only [liftParse, pure_bind, differs, decide_false, Bool.false_eq_true, if_false]
    intro tail tail' _ _
    dsimp only
    rw [dispatch tail, dispatch tail', unresumed]

/- All packets. -/

/-- None of the reads that may go on behind the NUL does: a register packet has the digits it is
    decoded to or there is no target to write them to, a memory packet has a colon and the digits
    the loop gets to, and the ids that are parsed have a dot or no process field. -/
structure EndsAtNul (s : State) (packet : List Byte) : Prop where
  writeRegs : ∀ text, packet = chr 'G' :: text → 535 ≤ text.length ∨ s.targetThread = none
  writeMemColon : ∀ addr size, WordText addr → WordText size →
    packet ≠ chr 'M' :: (addr ++ chr ',' :: size)
  writeMemData : ∀ addr size data, WordText addr → WordText size →
    packet = chr 'M' :: (addr ++ chr ',' :: (size ++ chr ':' :: data)) →
      ¬ DataReached s (behind packet) (wordOf addr) (wordOf size) data
  setInferior : ∀ kind id, packet = chr 'H' :: kind :: id → kind = chr 'g' ∨ kind = chr 'c' →
    ¬ OpenId (behind packet) id
  threadAlive : ∀ id, packet = chr 'T' :: id → ¬ OpenId (behind packet) id
  resume : ∀ action id, packet = str "vCont;" ++ action :: chr ':' :: id →
    action = chr 's' ∨ action = chr 'c' →
    ¬ ComesToOpen s (behind packet) s.drawn id

theorem endsAtNul_of_sameRuns {s : State} (ok : RegistryOk s) {packet : List Byte}
    (nonzero : ∀ c ∈ packet, c ≠ 0)
    (fits : packet.length < bufsize) (same : SameRuns s packet) : EndsAtNul s packet where
  writeRegs := by
    rintro text rfl
    exact (writeRegs_sameRuns_iff fits s).mp same
  writeMemColon := by
    rintro addr size haddr hsize rfl
    exact writeMem_colonless haddr hsize s same
  writeMemData := by
    rintro addr size data haddr hsize rfl
    exact (writeMem_sameRuns_iff haddr hsize s).mp same
  setInferior := by
    rintro kind id rfl known
    have plain : ∀ c ∈ id, c ≠ 0 := fun c mem => nonzero c (by simp [mem])
    exact (setInferior_sameRuns_iff known plain s).mp same
  threadAlive := by
    rintro id rfl
    exact (threadAlive_sameRuns_iff (fun c mem => nonzero c (List.mem_cons_of_mem _ mem)) s).mp same
  resume := by
    rintro action id rfl kind
    have plain : ∀ c ∈ id, c ≠ 0 := fun c mem => nonzero c (by simp [mem])
    exact (resume_sameRuns_iff ok kind plain).mp same

theorem EndsAtNul.sameRuns {s : State} (ok : RegistryOk s) {packet : List Byte}
    (nonzero : ∀ c ∈ packet, c ≠ 0)
    (fits : packet.length < bufsize) (ends : EndsAtNul s packet) : SameRuns s packet := by
  cases packet with
  | nil => exact sameRuns_empty s
  | cons first text =>
    have plain : ∀ c ∈ text, c ≠ 0 := fun c mem => nonzero c (List.mem_cons_of_mem _ mem)
    by_cases readsOn : ReadsOn first
    · rcases readsOn with rfl | rfl | rfl | rfl | rfl
      · exact (writeRegs_sameRuns_iff fits s).mpr (ends.writeRegs text rfl)
      · by_cases format : ∃ addr size, WordText addr ∧ WordText size ∧
          MemText (chr 'M' :: text) addr size
        · obtain ⟨addr, size, haddr, hsize, _, rest, split, none | ⟨_, data, rfl⟩⟩ := format
          · rw [none, List.append_nil] at split
            obtain ⟨rfl, rfl⟩ := List.cons.inj split
            exact absurd rfl (ends.writeMemColon addr size haddr hsize)
          · obtain ⟨rfl, rfl⟩ := List.cons.inj split
            exact (writeMem_sameRuns_iff haddr hsize s).mpr
              (ends.writeMemData addr size data haddr hsize rfl)
        · exact writeMem_malformed plain (fun addr size haddr hsize text =>
            format ⟨addr, size, haddr, hsize, text⟩) s
      · by_cases known : ∃ kind id, text = kind :: id ∧ (kind = chr 'g' ∨ kind = chr 'c')
        · obtain ⟨kind, id, rfl, known⟩ := known
          have plain' : ∀ c ∈ id, c ≠ 0 := fun c mem => plain c (List.mem_cons_of_mem _ mem)
          exact (setInferior_sameRuns_iff known plain' s).mpr (ends.setInferior kind id rfl known)
        · exact setInferior_other (fun kind id same kind' => known ⟨kind, id, same, kind'⟩) s
      · exact (threadAlive_sameRuns_iff plain s).mpr (ends.threadAlive text rfl)
      · by_cases resumes : ∃ action id, chr 'v' :: text = str "vCont;" ++ action :: chr ':' :: id ∧
            (action = chr 's' ∨ action = chr 'c')
        · obtain ⟨action, id, split, kind⟩ := resumes
          have plain' : ∀ c ∈ id, c ≠ 0 := fun c mem => nonzero c (by rw [split]; simp [mem])
          rw [split] at ends ⊢
          exact (resume_sameRuns_iff ok kind plain').mpr (ends.resume action id rfl kind)
        · exact resume_otherwise plain (fun action id split kind =>
            resumes ⟨action, id, split, kind⟩) s
    · exact sameRuns_other readsOn text s

/-- A packet is handled alike in any two buffers if and only if its handler does not read on behind
    the NUL. -/
theorem same_runs_iff {s : State} (reachable : Reachable s) {packet : List Byte}
    (nonzero : ∀ c ∈ packet, c ≠ 0)
    (fits : packet.length < bufsize) : SameRuns s packet ↔ EndsAtNul s packet :=
  ⟨endsAtNul_of_sameRuns (reachable_ok reachable) nonzero fits,
    EndsAtNul.sameRuns (reachable_ok reachable) nonzero fits⟩

omit [Machine] in
theorem solo_named_thread_alike : letI := obligingBoard
    SameRuns soloState (str "Hgp1.1") := by
  let _ := obligingBoard
  have kind {c : Byte} {text : List Byte} (split : str "Hgp1.1" = c :: text) : c = chr 'H' :=
    (List.cons.inj split).1.symm
  refine (same_runs_iff solo_registered.reachable (by decide) (by decide)).mpr
    ⟨?_, ?_, ?_, ?_, ?_, ?_⟩
  · exact fun text split => absurd (kind split) (by decide)
  · exact fun addr size _ _ split => absurd (kind split) (by decide)
  · exact fun addr size data _ _ split => absurd (kind split) (by decide)
  · rintro _ id split _ ⟨field, rfl, undotted, _⟩
    have named : str "1.1" = field := (List.cons.inj (List.cons.inj (List.cons.inj split).2).2).2
    exact undotted (chr '.') (named ▸ by decide) rfl
  · exact fun id split => absurd (kind split) (by decide)
  · exact fun action id split => absurd (kind split) (by decide)

omit [Machine] in
/-- `M0,1` has no colon, and one behind the NUL makes it a write. -/
theorem colon_behind_seen : letI := obligingBoard
    ¬ ∀ s, Reachable s → ∀ packet : List Byte, (∀ c ∈ packet, c ≠ 0) → packet.length < bufsize →
    SameRuns s packet := by
  let _ := obligingBoard
  intro all
  have same := all soloState solo_registered.reachable (str "M0,1") (by decide) (by decide)
  exact @writeMem_colonless _ (str "0")
    (str "1") ⟨by decide, by decide⟩ ⟨by decide, by decide⟩ soloState same

end Libgdb
