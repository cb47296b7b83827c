import Libgdb.ReplyText
import Libgdb.Model.Dispatch

/-!
Register contexts on the wire: a `G` packet's text decodes into an uninitialised context, of
which it fills all but the upper half of `spsr` and the thread id registers, and the whole of
which is written back.
-/
namespace Libgdb
open ByteMemory CheckedPrograms

def regsText (regs : UserContext) : List Byte := regs.wire.flatMap hexDigits

theorem regsText_fields (regs : UserContext) : regsText regs =
    ((List.finRange 31).flatMap fun i => hexDigits (wordBytes (regs.x i))) ++
      (hexDigits (wordBytes regs.sp) ++ (hexDigits (wordBytes regs.pc) ++
        hexDigits ((wordBytes regs.spsr).take 4))) := by
  simp [regsText, UserContext.wire, List.flatMap_append, List.flatMap_map]

theorem regsText_length (regs : UserContext) : (regsText regs).length = 536 := by
  rw [regsText_fields]
  simp [wordBytes]

theorem regsText_ne_zero (regs : UserContext) : ∀ c ∈ regsText regs, c ≠ 0 := by
  intro c mem
  obtain ⟨field, _, here⟩ := List.mem_flatMap.mp mem
  exact hexDigits_ne_zero field c here

/- Decoding. -/

theorem hex2word_digits (w : Word) (rest : List Byte) :
    hex2word (hexDigits (wordBytes w) ++ rest) = .ok (w, rest) := by
  have decoded := hex2mem_digits (hexDigits_hexOf (wordBytes w)) rest
  rw [show (wordBytes w).length = 8 by simp [wordBytes]] at decoded
  have word : (ofBytes fun k => (wordBytes w).getD k 0) = w := by
    apply word_ext
    intro k lt
    rw [byteOf_ofBytes _ lt]
    simp [wordBytes, List.getD_eq_getElem?_getD, lt]
  simp only [hex2word, decoded]
  exact congrArg (fun v => Except.ok (v, rest)) word

theorem hex2general_digits (is : List (Fin 31)) (regs source : UserContext) (rest : List Byte) :
    hex2general is regs ((is.flatMap fun i => hexDigits (wordBytes (source.x i))) ++ rest) =
      .ok ({ regs with x := fun i => if i ∈ is then source.x i else regs.x i }, rest) := by
  induction is generalizing regs with
  | nil => simp [hex2general]; rfl
  | cons i is ih =>
    rw [List.flatMap_cons, List.append_assoc, hex2general, hex2word_digits]
    refine (ih { regs with x := Function.update regs.x i (source.x i) }).trans ?_
    congr 3
    funext j
    by_cases here : j = i
    · subst here
      simp
    · simp [here]

/-- The context a text leaves in a local that held `regs`. -/
def mergeContext (regs source : UserContext) : UserContext :=
  { regs with
    x := source.x
    sp := source.sp
    pc := source.pc
    spsr := ofBytes fun k => if k < 4 then byteOf source.spsr k else byteOf regs.spsr k }

theorem hex2regs_text (regs source : UserContext) (rest : List Byte) :
    hex2regs regs (regsText source ++ rest) = .ok (mergeContext regs source, rest) := by
  have low := hex2mem_digits (hexDigits_hexOf ((wordBytes source.spsr).take 4)) rest
  rw [show ((wordBytes source.spsr).take 4).length = 4 by simp [wordBytes]] at low
  have spsr : (ofBytes fun k => ((wordBytes source.spsr).take 4).getD k (byteOf regs.spsr k)) =
      (mergeContext regs source).spsr := by
    refine ofBytes_congr fun k lt => ?_
    by_cases small : k < 4
    · simp [small, wordBytes, List.getD_eq_getElem?_getD]
    · simp [small, wordBytes, List.getD_eq_getElem?_getD]
  rw [regsText_fields]
  simp only [List.append_assoc]
  unfold hex2regs
  simp only [hex2general_digits, hex2word_digits, low, bind, Except.bind, pure, Except.pure, spsr]
  simp [mergeContext]

/- Encoding. -/

variable [Machine]

theorem mem2hexFields_run (mem : List Byte) (fields : List (List Byte)) (buf : Nat) (s : State)
    (fits : buf + ((mem :: fields).flatMap hexDigits).length < bufsize) :
    (mem2hexFields (mem :: fields) buf).run s =
      .ok (buf + ((mem :: fields).flatMap hexDigits).length)
        (s.lay buf ((mem :: fields).flatMap hexDigits)) := by
  induction fields generalizing mem buf s with
  | nil =>
    simp only [List.flatMap_cons, List.flatMap_nil, List.append_nil, hexDigits_length] at fits ⊢
    rw [mem2hexFields, run_bind_ok (mem2hex_run mem buf s fits)]
    rfl
  | cons next fields ih =>
    rw [List.flatMap_cons, List.length_append, hexDigits_length] at fits ⊢
    rw [mem2hexFields, run_bind_ok (mem2hex_run mem buf s (by omega)), ih _ _ _ (by omega),
      lay_continue _ _ _ (by simp), ← Nat.add_assoc]

theorem regs2hex_run (regs : UserContext) (s : State) :
    (regs2hex regs 0).run s = .ok 536 (s.lay 0 (regsText regs)) := by
  have length := regsText_length regs
  obtain ⟨mem, fields, wire⟩ : ∃ mem fields, regs.wire = mem :: fields := ⟨_, _, rfl⟩
  rw [regsText, wire] at length ⊢
  rw [regs2hex, wire, mem2hexFields_run mem fields 0 s (by rw [length]; decide), length]

/- The two packets. -/

structure RegisterCallsSucceed : Prop where
  read : ∀ calls tcb suspendSource,
    Machine.fails calls (.tcbReadRegisters tcb suspendSource) = false
  write : ∀ calls tcb resumeTarget context,
    Machine.fails calls (.tcbWriteRegisters tcb resumeTarget context) = false

def writeRegsPacket (regs : UserContext) (rest : List Byte) : List Byte :=
  chr 'G' :: (regsText regs ++ 0 :: rest)

theorem writeRegsPacket_run (ok : RegisterCallsSucceed) {s : State} {t : ThreadRef}
    (target : s.targetThread = some t) (source : UserContext) (rest : List Byte) :
    ∃ u, (gdbHandlePacket (writeRegsPacket source rest)).run s = .ok false u ∧
      u.targetThread = some t ∧ u.thread t = s.thread t ∧
      (u.kernel.tcb (s.thread t).tcb).registers =
        mergeContext (Machine.junkContext s.drawn) source := by
  let context := mergeContext (Machine.junkContext s.drawn) source
  let call := KernelCall.tcbWriteRegisters (s.thread t).tcb true context
  let v : State := { s.lay 0 [] with drawn := s.drawn + 1 }
  have written : (handleWriteRegs (writeRegsPacket source rest)).run (s.lay 0 []) =
      .ok () ((v.withKernel (s.kernel.record call)).lay 0 (str "OK")) := by
    have drawn : freshContext.run (s.lay 0 []) = .ok (Machine.junkContext s.drawn) v := rfl
    have parsed := liftParse_run (p := hex2regs (Machine.junkContext s.drawn)
      (writeRegsPacket source rest).tail) (hex2regs_text _ source _) v
    have invoked : (tcbWriteRegisters (v.thread t).tcb true context).run v =
      .ok (Machine.fails s.kernel.calls call) (v.withKernel (s.kernel.record call)) := rfl
    unfold handleWriteRegs
    rw [run_bind_ok (liftParse_run (p := peek (writeRegsPacket source rest)) rfl _),
      run_bind_ok (assert_run rfl _), run_bind_ok drawn, run_bind_ok parsed,
      run_bind_ok (EStateM.run_get v), run_bind_ok (deref_run (p := v.targetThread) target v),
      run_bind_ok invoked, strlcpy_run _ _ _ _ (by decide) (by decide)]
  refine ⟨(v.withKernel (s.kernel.record call)).lay 0 (str "OK"), ?_, ?_, ?_, ?_⟩
  · rw [writeRegsPacket, dispatch_writeRegs, run_bind_ok (put_zero_run (by decide) s)]
    rw [writeRegsPacket] at written
    rw [run_bind_ok written]
    rfl
  · rw [lay_targetThread, withKernel_targetThread]
    exact target
  · rw [lay_thread, withKernel_thread]
    rfl
  · rw [lay_kernel, withKernel_kernel, record_of_ok (ok.write _ _ _ _)]
    simp [context, KernelCall.effect, Kernel.updateTcb]

theorem readRegsPacket_run (ok : RegisterCallsSucceed) {s : State} {t : ThreadRef}
    (target : s.targetThread = some t) (rest : List Byte) :
    ∃ u, (gdbHandlePacket (chr 'g' :: rest)).run s = .ok false u ∧
      u.reply = regsText (s.kernel.tcb (s.thread t).tcb).registers := by
  let regs := (s.kernel.tcb (s.thread t).tcb).registers
  let call := KernelCall.tcbReadRegisters (s.thread t).tcb true
  let v : State := { s.lay 0 [] with drawn := s.drawn + 1 }
  have drawn : freshContext.run (s.lay 0 []) = .ok (Machine.junkContext s.drawn) v := rfl
  have invoked : (tcbReadRegisters (v.thread t).tcb true (Machine.junkContext s.drawn)).run v =
      .ok regs (v.withKernel (s.kernel.record call)) := by
    have called : (invoke (.tcbReadRegisters (v.thread t).tcb true)).run v =
        .ok false (v.withKernel (s.kernel.record call)) := by
      rw [invoke_run, ok.read]
      rfl
    have kept : ((s.kernel.record call).tcb (s.thread t).tcb).registers = regs := by
      simp [call, regs, record_of_ok, ok.read, KernelCall.effect, Kernel.updateTcb]
    unfold tcbReadRegisters
    rw [run_bind_ok called, run_bind_ok (EStateM.run_get _)]
    exact congrArg (fun regs => EStateM.Result.ok regs _) kept
  refine ⟨(v.withKernel (s.kernel.record call)).lay 0 (regsText regs), ?_, ?_⟩
  · rw [dispatch_readRegs, run_bind_ok (put_zero_run (by decide) s)]
    unfold handleReadRegs
    simp only [bind_assoc]
    rw [run_bind_ok drawn, run_bind_ok (EStateM.run_get v),
      run_bind_ok (deref_run (p := v.targetThread) target v), run_bind_ok invoked,
      run_bind_ok (regs2hex_run regs _)]
    rfl
  · exact lay_reply _ _ (regsText_ne_zero regs) (by rw [regsText_length]; decide)

/-- The parts of a context its text does not carry: the upper half of `spsr` and the thread id
    registers. -/
def SameUncarried (regs source : UserContext) : Prop :=
  (∀ k < 8, 4 ≤ k → byteOf regs.spsr k = byteOf source.spsr k) ∧
    regs.tpidrEl0 = source.tpidrEl0 ∧ regs.tpidrroEl0 = source.tpidrroEl0

/-- Both packets are handled, the second is answered with the text of the first, and what that
    text does not carry is as it was. -/
structure WriteThenRead (s : State) (t : ThreadRef) (source : UserContext)
    (rest rest' : List Byte) : Prop where
  digits : (regsText source).length = 536
  written : value (gdbHandlePacket (writeRegsPacket source rest)) s = some false
  read : value (gdbHandlePacket (chr 'g' :: rest'))
    (after (gdbHandlePacket (writeRegsPacket source rest)) s) = some false
  reply : (after (gdbHandlePacket (chr 'g' :: rest'))
    (after (gdbHandlePacket (writeRegsPacket source rest)) s)).reply = regsText source
  frame : SameUncarried
    ((after (gdbHandlePacket (writeRegsPacket source rest)) s).kernel.tcb
      (s.thread t).tcb).registers
    (s.kernel.tcb (s.thread t).tcb).registers

omit [Machine] in
theorem regsText_mergeContext (regs source : UserContext) :
    regsText (mergeContext regs source) = regsText source := by
  have spsr : (wordBytes (mergeContext regs source).spsr).take 4 =
      (wordBytes source.spsr).take 4 := by
    simp only [wordBytes, ← List.map_take]
    refine List.map_congr_left fun k mem => ?_
    have lt : k < 4 := by simpa using mem
    rw [mergeContext, byteOf_ofBytes _ (by omega), if_pos lt]
  rw [regsText_fields, regsText_fields, spsr]
  rfl

omit [Machine] in
theorem mergeContext_uncarried (regs source old : UserContext) :
    SameUncarried (mergeContext regs source) old ↔ SameUncarried regs old := by
  refine and_congr (forall_congr' fun k => ?_) Iff.rfl
  refine imp_congr_right fun lt => imp_congr_right fun le => ?_
  rw [mergeContext, byteOf_ofBytes _ lt, if_neg (by omega)]

theorem writeThenRead_uncarried (ok : RegisterCallsSucceed) {s : State} {t : ThreadRef}
    (target : s.targetThread = some t) {source : UserContext} {rest rest' : List Byte}
    (exact : WriteThenRead s t source rest rest') :
    SameUncarried (Machine.junkContext s.drawn) (s.kernel.tcb (s.thread t).tcb).registers := by
  obtain ⟨u, write, _, _, registers⟩ := writeRegsPacket_run ok target source rest
  have frame := exact.frame
  rw [after_ok write, registers, mergeContext_uncarried] at frame
  exact frame

/-- Registers written by a `G` packet are read back exactly; the rest of the context is as it
    was exactly when the uninitialised local happened to hold it. -/
theorem write_then_read_iff (ok : RegisterCallsSucceed) {s : State} {t : ThreadRef}
    (target : s.targetThread = some t) (source : UserContext) (rest rest' : List Byte) :
    WriteThenRead s t source rest rest' ↔
      SameUncarried (Machine.junkContext s.drawn) (s.kernel.tcb (s.thread t).tcb).registers := by
  obtain ⟨u, write, target', thread, registers⟩ := writeRegsPacket_run ok target source rest
  obtain ⟨v, read, reply⟩ := readRegsPacket_run ok target' rest'
  rw [thread, registers, regsText_mergeContext] at reply
  refine ⟨writeThenRead_uncarried ok target, fun same => ?_⟩
  refine ⟨regsText_length source, value_ok write, ?_, ?_, ?_⟩
  · rw [after_ok write, value_ok read]
  · rw [after_ok write, after_ok read, reply]
  · rw [after_ok write, registers, mergeContext_uncarried]
    exact same

omit [Machine] in
theorem obliging_registerCalls : letI := obligingBoard
    RegisterCallsSucceed :=
  let _ := obligingBoard
  ⟨fun _ _ _ => rfl, fun _ _ _ _ => rfl⟩

omit [Machine] in
theorem solo_write_then_read : letI := obligingBoard
    WriteThenRead soloState ⟨0, 0⟩ ⟨fun _ => 1, 2, 3, 4, 5, 6⟩ [] [] := by
  let _ := obligingBoard
  refine (write_then_read_iff obliging_registerCalls rfl _ [] []).mpr ?_
  rw [solo_kernel]
  exact ⟨fun _ _ _ => rfl, rfl, rfl⟩

def threadIdKernel : Kernel :=
  { blankKernel with tcb := fun tcb =>
      { blankKernel.tcb tcb with registers := ⟨fun _ => 0, 0, 0, 0, 1, 0⟩ } }

omit [Machine] in
/-- The thread id register is overwritten with what the local held. -/
theorem thread_id_register_lost : letI := obligingBoard
    ¬ ∀ s, Reachable s → ∀ t, s.targetThread = some t → ∀ source rest rest',
      WriteThenRead s t source rest rest' := by
  let _ := obligingBoard
  intro all
  have kept := writeThenRead_uncarried obliging_registerCalls rfl
    (all _ (.outside threadIdKernel solo_registered.reachable) ⟨0, 0⟩ rfl
      ⟨fun _ => 0, 0, 0, 0, 0, 0⟩ [] [])
  have lost : (0 : Word) = 1 := kept.2.1
  exact absurd lost (by decide)

end Libgdb
