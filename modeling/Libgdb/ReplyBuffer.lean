import Libgdb.Library.TwoRuns
import Libgdb.RegisterTexts

/-!
What packet handling does with the reply buffer. Most of it never touches the buffer; the rest
starts at the first character and ends its text with a NUL, so two runs from different contents
leave the same reply, and none runs past the end. The thread list is treated apart.
-/
namespace Libgdb
open ByteMemory SlotTables CheckedPrograms TwoRuns
/- Parsers do not report an overflow of the reply buffer. -/

def NoOverflow {α : Type} (p : Except Fault α) : Prop := p ≠ .error .outputOverflow

theorem noOverflow_bind {α β : Type} {p : Except Fault α} {f : α → Except Fault β}
    (hp : NoOverflow p) (hf : ∀ a, NoOverflow (f a)) : NoOverflow (p >>= f) := by
  cases p with
  | ok a => exact hf a
  | error e => exact fun bad => hp (by injection bad with bad; rw [bad])

theorem noOverflow_ok {α : Type} (a : α) : NoOverflow (.ok a : Except Fault α) := by
  intro bad
  cases bad

theorem noOverflow_peek (ptr : List Byte) : NoOverflow (peek ptr) := by
  cases ptr <;> simp [NoOverflow, peek]

theorem noOverflow_strncmp (s1 s2 : List Byte) (n : Nat) : NoOverflow (strncmp s1 s2 n) := by
  induction n generalizing s1 s2 with
  | zero => simp [NoOverflow, strncmp]
  | succ n ih =>
    match s1, s2 with
    | [], _ => simp [NoOverflow, strncmp]
    | _ :: _, [] => simp [NoOverflow, strncmp]
    | a :: s1, b :: s2 =>
      unfold strncmp
      dsimp only
      split
      · exact noOverflow_ok _
      · exact ih s1 s2

theorem noOverflow_memchr (src : List Byte) (c : Byte) (n : Nat) : NoOverflow (memchr src c n) := by
  induction n generalizing src with
  | zero => simp [NoOverflow, memchr]
  | succ n ih =>
    cases src with
    | nil => simp [NoOverflow, memchr]
    | cons b src =>
      unfold memchr
      split
      · exact noOverflow_ok _
      · exact ih src

theorem noOverflow_hexstrToInt (text : List Byte) (maxBytes : Nat) (val : Word) :
    NoOverflow (hexstrToInt text maxBytes val) := by
  induction text generalizing maxBytes val with
  | nil => simp [NoOverflow, hexstrToInt]
  | cons c text ih =>
    unfold hexstrToInt
    split
    · exact noOverflow_ok _
    · cases maxBytes with
      | zero => exact noOverflow_ok _
      | succ n =>
        dsimp only
        split
        · exact noOverflow_ok _
        · exact ih _ _

theorem noOverflow_hex2mem (buf : List Byte) (size : Nat) : NoOverflow (hex2mem buf size) := by
  induction size generalizing buf with
  | zero => simp [NoOverflow, hex2mem]
  | succ n ih =>
    rcases buf with _ | ⟨hi, _ | ⟨lo, buf⟩⟩
    · simp [NoOverflow, hex2mem]
    · simp [NoOverflow, hex2mem]
    · exact noOverflow_bind (ih buf) fun _ => noOverflow_ok _

theorem noOverflow_hex2regs (regs : UserContext) (buf : List Byte) :
    NoOverflow (hex2regs regs buf) := by
  have word (buf : List Byte) : NoOverflow (hex2word buf) :=
    noOverflow_bind (noOverflow_hex2mem _ _) fun _ => noOverflow_ok _
  have general (is : List (Fin 31)) (regs : UserContext) (buf : List Byte) :
      NoOverflow (hex2general is regs buf) := by
    induction is generalizing regs buf with
    | nil => exact noOverflow_ok _
    | cons i is ih => exact noOverflow_bind (word _) fun _ => ih _ _
  exact noOverflow_bind (general _ _ _) fun _ => noOverflow_bind (word _) fun _ =>
    noOverflow_bind (word _) fun _ => noOverflow_bind (noOverflow_hex2mem _ _) fun _ =>
      noOverflow_ok _

theorem noOverflow_parseMemFormat (ptr : List Byte) : NoOverflow (parseMemFormat ptr) := by
  refine noOverflow_bind (noOverflow_peek _) fun _ => noOverflow_bind (noOverflow_hexstrToInt _ _ _)
    fun _ => noOverflow_bind (noOverflow_peek _) fun _ => ?_
  split
  · exact noOverflow_ok _
  · refine noOverflow_bind (noOverflow_hexstrToInt _ _ _) fun _ =>
      noOverflow_bind (noOverflow_peek _)
      fun _ => ?_
    split <;> exact noOverflow_ok _

theorem noOverflow_assertParse (c : Prop) [Decidable c] : NoOverflow (assertParse c) := by
  unfold assertParse
  split
  · exact noOverflow_ok _
  · intro bad
    cases bad

theorem noOverflow_parseBreakpointFormat (ptr : List Byte) :
    NoOverflow (parseBreakpointFormat ptr) := by
  refine noOverflow_bind (noOverflow_peek _) fun _ => noOverflow_bind (noOverflow_assertParse _)
    fun _ => noOverflow_bind (noOverflow_peek _) fun _ => noOverflow_bind (noOverflow_assertParse _)
    fun _ => noOverflow_bind (noOverflow_peek _) fun _ => noOverflow_bind (noOverflow_assertParse _)
    fun _ => noOverflow_bind (noOverflow_hexstrToInt _ _ _) fun _ =>
      noOverflow_bind (noOverflow_peek _)
    fun _ => ?_
  split
  · exact noOverflow_ok _
  · refine noOverflow_bind (noOverflow_hexstrToInt _ _ _) fun _ => ?_
    dsimp only
    split <;> exact noOverflow_ok _

theorem noOverflow_minusOne (ptr : List Byte) : NoOverflow (minusOne ptr) :=
  noOverflow_bind (noOverflow_strncmp _ _ _) fun _ => noOverflow_ok _

theorem noOverflow_parseThreadId (ptr : List Byte) (procId threadId : BitVec 32) :
    NoOverflow (parseThreadId ptr procId threadId) := by
  have dot (s : List Byte) : NoOverflow (spanDot s) := by
    induction s with
    | nil => simp [NoOverflow, spanDot]
    | cons c s ih =>
      unfold spanDot
      split
      · exact noOverflow_ok _
      · exact noOverflow_bind ih fun _ => noOverflow_ok _
  have hex (s : List Byte) : NoOverflow (spanHex s) := by
    induction s with
    | nil => simp [NoOverflow, spanHex]
    | cons c s ih =>
      unfold spanHex
      split
      · exact noOverflow_ok _
      · exact noOverflow_bind ih fun _ => noOverflow_ok _
  have store (ptr : List Byte) (chars : Nat) (old : BitVec 32) :
      NoOverflow (storeId ptr chars old) := by
    unfold storeId
    dsimp only
    split
    · exact noOverflow_bind (noOverflow_peek _) fun _ => noOverflow_ok _
    · refine noOverflow_bind (noOverflow_hex2mem _ _) fun _ => ?_
      split
      · exact noOverflow_ok _
      · intro bad
        cases bad
  refine noOverflow_bind (noOverflow_peek _) fun _ => ?_
  split
  · exact noOverflow_ok _
  · refine noOverflow_bind (noOverflow_minusOne _) fun _ => ?_
    split
    · exact noOverflow_ok _
    · refine noOverflow_bind (dot _) fun _ => noOverflow_bind (store _ _ _) fun _ =>
        noOverflow_bind (noOverflow_minusOne _) fun _ => ?_
      split
      · exact noOverflow_ok _
      · exact noOverflow_bind (hex _) fun _ => noOverflow_bind (store _ _ _) fun _ =>
          noOverflow_ok _

theorem noOverflow_tableIndex (n : Nat) (i : Int) : NoOverflow (tableIndex n i) := by
  unfold tableIndex
  split
  · exact noOverflow_ok _
  · intro bad
    cases bad

theorem noOverflow_idToIdx (x : Int) (n : Nat) : NoOverflow (idToIdx x n) := by
  unfold idToIdx
  split
  · intro bad
    cases bad
  · exact noOverflow_ok _

theorem noOverflow_dashOne (ptr : List Byte) : NoOverflow (dashOne ptr) := by
  refine noOverflow_bind (noOverflow_peek _) fun _ => ?_
  split
  · exact noOverflow_bind (noOverflow_peek _) fun _ => noOverflow_ok _
  · exact noOverflow_ok _

variable [Machine]

/-- Neither reads nor writes the reply buffer. -/
abbrev Quiet {α : Type} (m : Stub α) : Prop := Blind State.withOutput (· = Fault.outputOverflow) m

/-- From contents related by `A` two runs write contents related by `B`, inside the buffer. -/
abbrev Writes {α : Type} (A : (Nat → Byte) → (Nat → Byte) → Prop) (m : Stub α)
    (B : α → (Nat → Byte) → (Nat → Byte) → Prop) : Prop :=
  Lockstep State.withOutput (· = Fault.outputOverflow) A m B

/- What does not touch the buffer. -/

theorem quiet_liftParse {α : Type} {p : Except Fault α} (good : p ≠ .error .outputOverflow) :
    Quiet (liftParse p) := by
  cases p with
  | ok a => exact blind_pure a
  | error e => exact blind_throw fun bad => good (by rw [bad])

theorem quiet_assert (c : Prop) [Decidable c] : Quiet (assert c) :=
  blind_ite (blind_pure _) (blind_throw (by decide))

theorem quiet_deref {α : Type} (p : Option α) : Quiet (deref p) := by
  cases p with
  | some a => exact blind_pure a
  | none => exact blind_throw (by decide)

theorem quiet_freshInt : Quiet freshInt :=
  fun s => Or.inl ⟨Machine.junkInt s.drawn, { s with drawn := s.drawn + 1 }, fun _ => rfl⟩

theorem quiet_freshContext : Quiet freshContext :=
  fun s => Or.inl ⟨Machine.junkContext s.drawn, { s with drawn := s.drawn + 1 }, fun _ => rfl⟩

theorem quiet_invoke (call : KernelCall) : Quiet (invoke call) :=
  fun s => Or.inl ⟨Machine.fails s.kernel.calls call, s.withKernel (s.kernel.record call),
    fun _ => rfl⟩

theorem quiet_tcbReadRegisters (tcb : Word) (suspendSource : Bool) (context : UserContext) :
    Quiet (tcbReadRegisters tcb suspendSource context) :=
  blind_bind (quiet_invoke _) fun _ => blind_get_bind (fun _ _ => rfl) fun _ => blind_pure _

theorem quiet_vspaceReadWord (vspace address : Word) : Quiet (vspaceReadWord vspace address) :=
  blind_bind (quiet_invoke _) fun _ => blind_get_bind (fun _ _ => rfl) fun _ => blind_pure _

theorem quiet_vspaceWriteWord (vspace address value : Word) :
    Quiet (vspaceWriteWord vspace address value) := quiet_invoke _

/- Lookups by gdb id. -/

theorem noOverflow_lookupInferior (s : State) (procId : Int) :
    NoOverflow (lookupInferiorFromGdbId s procId) :=
  noOverflow_bind (noOverflow_idToIdx _ _) fun _ =>
    noOverflow_bind (noOverflow_tableIndex _ _) fun _ =>
    noOverflow_ok _

theorem noOverflow_lookupThread (s : State) (procId threadId : Int) :
    NoOverflow (lookupThreadFromGdbId s procId threadId) := by
  refine noOverflow_bind (noOverflow_idToIdx _ _) fun _ =>
    noOverflow_bind (noOverflow_tableIndex _ _)
    fun _ => ?_
  split
  · exact noOverflow_ok _
  · exact noOverflow_bind (noOverflow_idToIdx _ _) fun _ =>
      noOverflow_bind (noOverflow_tableIndex _ _) fun _ => noOverflow_ok _

theorem quiet_textIs (ptr : List Byte) (literal : String) (n : Nat) :
    Quiet (textIs ptr literal n) :=
  blind_bind (quiet_liftParse (noOverflow_strncmp _ _ _)) fun _ => blind_pure _

theorem quiet_targetInferior : Quiet targetInferior :=
  blind_get_bind (fun _ _ => rfl) fun _ => blind_bind (quiet_deref _) fun _ => quiet_deref _

/- Memory, breakpoints and stepping. -/

theorem quiet_readInferiorWord (thread : Option ThreadRef) (mem : Word) :
    Quiet (readInferiorWord thread mem) :=
  blind_get_bind (fun _ _ => rfl) fun _ => blind_bind (quiet_deref _) fun _ =>
    blind_bind (quiet_deref _) fun _ => quiet_vspaceReadWord _ _

theorem quiet_writeInferiorWord (thread : Option ThreadRef) (mem value : Word) :
    Quiet (writeInferiorWord thread mem value) :=
  blind_get_bind (fun _ _ => rfl) fun _ => blind_bind (quiet_deref _) fun _ =>
    blind_bind (quiet_deref _) fun _ => quiet_vspaceWriteWord _ _ _

theorem quiet_infHex2mem (thread : Option ThreadRef) (buf : List Byte) (mem : Word) (size : Int) :
    Quiet (infHex2mem thread buf mem size) := by
  have loop : ∀ n i buf mem word, Quiet (infHex2memLoop thread n i buf mem word) := by
    intro n
    induction n with
    | zero => exact fun i buf mem word => blind_pure _
    | succ n ih =>
      intro i buf mem word
      refine blind_branch (quiet_readInferiorWord _ _) (blind_pure _) fun word => ?_
      match word, buf with
      | none, _ => exact blind_pure _
      | some word, [] => exact blind_throw (by decide)
      | some word, [hi] => exact blind_throw (by decide)
      | some word, hi :: lo :: buf =>
        refine blind_ite (blind_bind (quiet_writeInferiorWord _ _ _) fun err => ?_) (ih _ _ _ _)
        exact blind_ite (blind_pure _) (ih _ _ _ _)
  exact loop _ _ _ _ _

theorem quiet_setSoftwareBreakpoint (pd : Fin maxPds) (address : Word) :
    Quiet (setSoftwareBreakpoint pd address) := by
  refine blind_get_bind (fun _ _ => rfl) fun s =>
    blind_bind (quiet_vspaceReadWord _ _) fun word => ?_
  cases word with
  | none => exact blind_pure _
  | some word =>
    refine blind_bind (quiet_vspaceWriteWord _ _ _) fun err => blind_ite (blind_pure _) ?_
    cases firstSlot (fun i => ((s.inferiors pd).softwareBreakpoints i).addr == 0) with
    | none => exact blind_bind (quiet_vspaceWriteWord _ _ _) fun _ => blind_pure _
    | some i => exact blind_bind (blind_modify fun _ _ => rfl) fun _ => blind_pure _

theorem quiet_unsetSoftwareBreakpoint (pd : Fin maxPds) (address : Word) :
    Quiet (unsetSoftwareBreakpoint pd address) := by
  refine blind_get_bind (fun _ _ => rfl) fun s => ?_
  cases firstSlot (fun i => ((s.inferiors pd).softwareBreakpoints i).addr == address) with
  | none => exact blind_pure _
  | some i =>
    refine blind_bind (quiet_vspaceWriteWord _ _ _) fun err => blind_ite (blind_pure _) ?_
    exact blind_bind (blind_modify fun _ _ => rfl) fun _ => blind_pure _

theorem quiet_armThreads (pd : Fin maxPds) (bpNum : Nat) (setting : DebugSetting)
    (js : List (Fin maxThreads)) : Quiet (armThreads pd bpNum setting js) := by
  induction js with
  | nil => exact blind_pure _
  | cons j js ih =>
    exact blind_get_bind (fun _ _ => rfl) fun s => blind_ite
      (blind_bind (quiet_invoke _) fun _ => blind_ite (blind_pure _) ih) ih

theorem quiet_disarmThreads (pd : Fin maxPds) (bpNum : Nat) (js : List (Fin maxThreads)) :
    Quiet (disarmThreads pd bpNum js) := by
  induction js with
  | nil => exact blind_pure _
  | cons j js ih =>
    exact blind_get_bind (fun _ _ => rfl) fun s =>
      blind_ite (blind_bind (quiet_invoke _) fun _ => ih) ih

theorem quiet_setHardwareBreakpoint (pd : Fin maxPds) (address : Word) :
    Quiet (setHardwareBreakpoint pd address) := by
  refine blind_get_bind (fun _ _ => rfl) fun s => ?_
  cases firstSlot (fun i => ((s.inferiors pd).hardwareBreakpoints i).addr == 0) with
  | none => exact blind_pure _
  | some i =>
    exact blind_bind (quiet_armThreads _ _ _ _) fun armed => blind_ite
      (blind_bind (blind_modify fun _ _ => rfl) fun _ => blind_pure _) (blind_pure _)

theorem quiet_unsetHardwareBreakpoint (pd : Fin maxPds) (address : Word) :
    Quiet (unsetHardwareBreakpoint pd address) := by
  refine blind_get_bind (fun _ _ => rfl) fun s => ?_
  cases firstSlot (fun i => ((s.inferiors pd).hardwareBreakpoints i).addr == address) with
  | none => exact blind_pure _
  | some i =>
    exact blind_bind (blind_modify fun _ _ => rfl) fun _ =>
      blind_bind (quiet_disarmThreads _ _ _) fun _ => blind_pure _

theorem quiet_setHardwareWatchpoint (pd : Fin maxPds) (address : Word) (type : BreakpointAccess)
    (size : Word) : Quiet (setHardwareWatchpoint pd address type size) := by
  refine blind_get_bind (fun _ _ => rfl) fun s => ?_
  cases firstSlot (fun i => ((s.inferiors pd).hardwareWatchpoints i).addr == 0) with
  | none => exact blind_pure _
  | some i =>
    exact blind_bind (quiet_armThreads _ _ _ _) fun armed => blind_ite
      (blind_bind (blind_modify fun _ _ => rfl) fun _ => blind_pure _) (blind_pure _)

theorem quiet_unsetHardwareWatchpoint (pd : Fin maxPds) (address : Word) (type : BreakpointAccess)
    (size : Word) : Quiet (unsetHardwareWatchpoint pd address type size) := by
  refine blind_get_bind (fun _ _ => rfl) fun s => ?_
  cases firstSlot (fun i => (s.inferiors pd).hardwareWatchpoints i == ⟨address, size, type⟩) with
  | none => exact blind_pure _
  | some i =>
    exact blind_bind (blind_modify fun _ _ => rfl) fun _ =>
      blind_bind (quiet_disarmThreads _ _ _) fun _ => blind_pure _

theorem quiet_disableSingleStep (t : ThreadRef) : Quiet (disableSingleStep t) :=
  blind_get_bind (fun _ _ => rfl) fun _ => blind_bind (quiet_invoke _) fun _ => blind_pure _

theorem quiet_enableSingleStep (t : ThreadRef) : Quiet (enableSingleStep t) :=
  blind_bind (blind_modify fun _ _ => rfl) fun _ => blind_get_bind (fun _ _ => rfl) fun _ =>
    blind_bind (quiet_invoke _) fun _ => blind_pure _

theorem quiet_detachThread (t : ThreadRef) : Quiet (detachThread t) := by
  have clear : Quiet (modify fun s : State =>
      s.setThread t { s.thread t with ssEnabled := false, wakeup := true } : Stub Unit) :=
    blind_modify fun _ _ => rfl
  exact blind_get_bind (fun _ _ => rfl) fun s => blind_ite (blind_ite
    (blind_bind (quiet_disableSingleStep t) fun _ => clear) clear) (blind_pure _)

theorem quiet_detachInferior (pd : Fin maxPds) : Quiet (detachInferior pd) := by
  refine blind_bind (blind_forM _ fun i => ?_) fun _ =>
    blind_bind (blind_forM _ fun i => ?_) fun _ =>
    blind_bind (blind_forM _ fun i => ?_) fun _ => blind_bind (blind_modify fun _ _ => rfl) fun _ =>
    blind_forM _ fun slot => quiet_detachThread _
  · exact blind_get_bind (fun _ _ => rfl) fun _ =>
      blind_bind (quiet_unsetSoftwareBreakpoint _ _) fun _ => blind_pure _
  · exact blind_get_bind (fun _ _ => rfl) fun _ =>
      blind_bind (quiet_unsetHardwareBreakpoint _ _) fun _ => blind_pure _
  · exact blind_get_bind (fun _ _ => rfl) fun _ =>
      blind_bind (quiet_unsetHardwareWatchpoint _ _ _ _) fun _ => blind_pure _

theorem quiet_suspendSystem : Quiet suspendSystem :=
  blind_forM _ fun _ => blind_get_bind (fun _ _ => rfl) fun _ => blind_ite
    (blind_bind (quiet_invoke _) fun _ => blind_pure _) (blind_pure _)

theorem quiet_resumeSystem : Quiet resumeSystem :=
  blind_forM _ fun _ => blind_get_bind (fun _ _ => rfl) fun _ => blind_ite
    (blind_bind (quiet_invoke _) fun _ => blind_pure _) (blind_pure _)

/- vCont. -/

theorem quiet_vcontThreads (stepping : Bool) (inferior : Option (Fin maxPds)) (procId : Int)
    (count : Nat) (i : Int) : Quiet (vcontThreads stepping inferior procId count i) := by
  induction count generalizing i with
  | zero => exact blind_pure _
  | succ count ih =>
    refine blind_bind (quiet_deref _) fun pd =>
      blind_bind (quiet_liftParse (noOverflow_tableIndex _ _)) fun slot =>
      blind_get_bind (fun _ _ => rfl) fun _ => blind_ite ?_ (ih _)
    refine blind_bind (quiet_liftParse (noOverflow_idToIdx _ _)) fun _ =>
      blind_bind (quiet_liftParse (noOverflow_tableIndex _ _)) fun row => blind_ite (ih _) ?_
    exact blind_branch (quiet_enableSingleStep _) (quiet_disableSingleStep _) fun _ =>
      blind_bind (blind_modify fun _ _ => rfl) fun _ => blind_bind (blind_modify fun _ _ => rfl)
        fun _ => ih _

theorem quiet_vcontApply (stepping : Bool) (procId threadId : Int) :
    Quiet (vcontApply stepping procId threadId) :=
  blind_get_bind (fun _ _ => rfl) fun s =>
    blind_bind (quiet_liftParse (noOverflow_lookupInferior s procId)) fun _ => blind_ite
      (quiet_vcontThreads _ _ _ _ _)
      (blind_bind (quiet_liftParse (noOverflow_idToIdx _ _)) fun _ => quiet_vcontThreads _ _ _ _ _)

theorem quiet_vcontIds (stepping : Bool) (fuel : Nat) (input : List Byte) :
    Quiet (vcontIds stepping fuel input) := by
  induction fuel generalizing input with
  | zero => exact blind_throw (by decide)
  | succ fuel ih =>
    have next (id : ParsedId) : Quiet (do
        let input ← deref id.ptr
        if (← liftParse (peek input)) = chr ':' then vcontIds stepping fuel input
        else return input) :=
      blind_bind (quiet_deref _) fun _ => blind_bind (quiet_liftParse (noOverflow_peek _)) fun _ =>
        blind_ite (ih _) (blind_pure _)
    refine blind_bind (quiet_liftParse (noOverflow_peek _)) fun _ => blind_bind (quiet_assert _)
      fun _ => blind_bind quiet_freshInt fun _ => blind_bind quiet_freshInt fun _ =>
      blind_bind (quiet_liftParse (noOverflow_parseThreadId _ _ _)) fun id => blind_ite ?_ (next id)
    exact blind_bind (quiet_vcontApply _ _ _) fun _ => next id

/- Writers of texts: from buffers that agree up to a place to buffers that hold one text. -/

omit [Machine] in
def AgreeBelow (n : Nat) (o o' : Nat → Byte) : Prop := ∀ k < n, o k = o' k

omit [Machine] in
def Ends (n : Nat) (o o' : Nat → Byte) : Prop := n < bufsize ∧ o n = 0 ∧ AgreeBelow (n + 1) o o'

omit [Machine] in
def SameText (o o' : Nat → Byte) : Prop := ∃ n, Ends n o o'

omit [Machine] in
theorem agreeBelow_zero (o o' : Nat → Byte) : AgreeBelow 0 o o' := fun _ lt => absurd lt (by omega)

omit [Machine] in
theorem Ends.below {n : Nat} {o o' : Nat → Byte} (h : Ends n o o') : AgreeBelow n o o' :=
  fun k lt => h.2.2 k (by omega)

omit [Machine] in
theorem cstring_agree (n max : Nat) (o o' : Nat → Byte) (lt : n < max) (stop : o n = 0)
    (agree : AgreeBelow (n + 1) o o') : cstring o max = cstring o' max := by
  induction max generalizing n o o' with
  | zero => omega
  | succ max ih =>
    have first := agree 0 (by omega)
    rw [cstring, cstring, ← first]
    by_cases zero : o 0 = 0
    · rw [if_pos zero, if_pos zero]
    · rw [if_neg zero, if_neg zero]
      cases n with
      | zero => exact absurd stop zero
      | succ n =>
        rw [ih n (fun i => o (i + 1)) (fun i => o' (i + 1)) (by omega) stop
          fun k lt => agree (k + 1) (by omega)]

omit [Machine] in
theorem sameText_cstring {o o' : Nat → Byte} (same : SameText o o') :
    cstring o bufsize = cstring o' bufsize := by
  obtain ⟨n, lt, stop, agree⟩ := same
  exact cstring_agree n bufsize o o' lt stop agree

omit [Machine] in
theorem agreeBelow_update {n : Nat} {o o' : Nat → Byte} (agree : AgreeBelow n o o') (b : Byte) :
    AgreeBelow (n + 1) (Function.update o n b) (Function.update o' n b) := by
  intro k lt
  by_cases here : k = n
  · subst here
    rw [Function.update_self, Function.update_self]
  · rw [Function.update_of_ne here, Function.update_of_ne here]
    exact agree k (by omega)

theorem writes_update {A B : (Nat → Byte) → (Nat → Byte) → Prop} {ptr : Nat} (fits : ptr < bufsize)
    {b : Byte} (h : ∀ o o', A o o' → B (Function.update o ptr b) (Function.update o' ptr b)) :
    Writes A (put ptr b) fun _ => B := by
  intro s o o' start
  rw [put, if_pos fits]
  exact .returns () s _ _ (h o o' start)

theorem writes_put {ptr : Nat} (fits : ptr < bufsize) (b : Byte) :
    Writes (AgreeBelow ptr) (put ptr b) fun _ => AgreeBelow (ptr + 1) :=
  writes_update fits fun _ _ agree => agreeBelow_update agree b

theorem writes_put_zero {ptr : Nat} (fits : ptr < bufsize) :
    Writes (AgreeBelow ptr) (put ptr 0) fun _ => Ends ptr :=
  writes_update fits fun _ _ agree => ⟨fits, Function.update_self _ _ _, agreeBelow_update agree 0⟩

theorem writes_strlcpy (A : (Nat → Byte) → (Nat → Byte) → Prop) (src : List Byte) :
    Writes A (strlcpy 0 src bufsize) fun _ => SameText := by
  have ends {n : Nat} (o o' : Nat → Byte) (h : Ends n o o') : SameText o o' := ⟨n, h⟩
  have from_len (len : Nat) (fits : len < bufsize) :
      Writes (AgreeBelow len) (strlcpyFrom 0 len bufsize src) fun _ => SameText := by
    have last : Writes (AgreeBelow len) (put (0 + len) 0) fun _ => SameText := by
      rw [Nat.zero_add]
      exact lockstep_weaken (writes_put_zero fits) (fun _ _ h => h) fun _ => ends
    induction src generalizing len with
    | nil => exact last
    | cons b src ih =>
      refine lockstep_ite (fun room => ?_) fun _ => last
      rw [Nat.zero_add]
      refine lockstep_bind (writes_put fits b) fun _ => ih (len + 1) room ?_
      rw [Nat.zero_add]
      exact lockstep_weaken (writes_put_zero room) (fun _ _ h => h) fun _ => ends
  exact lockstep_weaken (from_len 0 (by decide)) (fun o o' _ => agreeBelow_zero o o')
    fun _ _ _ h => h

theorem writes_mem2hex (mem : List Byte) (buf : Nat) (fits : buf + 2 * mem.length < bufsize) :
    Writes (AgreeBelow buf) (mem2hex mem buf) fun last o o' =>
      last = buf + 2 * mem.length ∧ Ends last o o' := by
  induction mem generalizing buf with
  | nil =>
    have last (o o' : Nat → Byte) (h : Ends buf o o') :
        buf = buf + 2 * ([] : List Byte).length ∧ Ends buf o o' := ⟨by simp, h⟩
    exact lockstep_bind (writes_put_zero (by simpa using fits)) fun _ => lockstep_pure last
  | cons c mem ih =>
    simp only [List.length_cons] at fits ⊢
    refine lockstep_bind (writes_put (by omega) _) fun _ =>
      lockstep_bind (writes_put (by omega) _) fun _ =>
      lockstep_weaken (ih (buf + 2) (by omega)) (fun _ _ h => h) fun last o o' h => ⟨?_, h.2⟩
    rw [h.1]
    omega

theorem writes_mem2hexFields (mem : List Byte) (fields : List (List Byte)) (buf : Nat)
    (fits : buf + ((mem :: fields).flatMap hexDigits).length < bufsize) :
    Writes (AgreeBelow buf) (mem2hexFields (mem :: fields) buf) fun _ => SameText := by
  have ends (last : Nat) (o o' : Nat → Byte) (h : Ends last o o') : SameText o o' := ⟨last, h⟩
  induction fields generalizing mem buf with
  | nil =>
    simp only [List.flatMap_cons, List.flatMap_nil, List.append_nil, hexDigits_length] at fits
    exact lockstep_bind (writes_mem2hex mem buf fits) fun last =>
      lockstep_pure fun o o' h => ends last o o' h.2
  | cons next fields ih =>
    rw [List.flatMap_cons, List.length_append, hexDigits_length] at fits
    refine lockstep_bind (writes_mem2hex mem buf (by omega)) fun last s o o' h => ?_
    exact ih next last (by rw [h.1]; omega) s o o' h.2.below

theorem writes_regs2hex (regs : UserContext) :
    Writes SameText (regs2hex regs 0) fun _ => SameText := by
  have length := regsText_length regs
  obtain ⟨mem, fields, wire⟩ : ∃ mem fields, regs.wire = mem :: fields := ⟨_, _, rfl⟩
  rw [regsText, wire] at length
  rw [regs2hex, wire]
  exact lockstep_weaken (writes_mem2hexFields mem fields 0 (by rw [length]; decide))
    (fun o o' _ => agreeBelow_zero o o') fun _ _ _ h => h

/-- A transfer that breaks off leaves its text without a NUL. -/
theorem writes_infMem2hexLoop (thread : Option ThreadRef) (n i : Nat) (mem word : Word) (buf : Nat)
    (fits : buf + 2 * n < bufsize) :
    Writes (AgreeBelow buf) (infMem2hexLoop thread n i mem word buf) fun last o o' =>
      last.isSome = true → SameText o o' := by
  induction n generalizing i mem word buf with
  | zero =>
    exact lockstep_bind (writes_put_zero (by simpa using fits)) fun _ =>
      lockstep_pure fun o o' h _ => ⟨buf, h⟩
  | succ n ih =>
    refine lockstep_ite (fun _ => lockstep_bind (lockstep_of_blind (quiet_readInferiorWord _ _))
      fun word => ?_)
      fun _ => lockstep_bind (lockstep_of_blind (blind_pure _)) fun word => ?_
    all_goals
      cases word with
      | none => exact lockstep_pure fun _ _ _ none => absurd none (by simp)
      | some word =>
        exact lockstep_bind (writes_put (by omega) _) fun _ =>
          lockstep_bind (writes_put (by omega) _) fun _ => ih _ _ _ _ (by omega)

/- The handlers. -/

/-- The handler ends with one text in the buffer, or leaves the one it found. -/
abbrev Answers (m : Stub Unit) : Prop := Writes SameText m fun _ => SameText

theorem answers_text (src : List Byte) : Answers (strlcpy 0 src bufsize) := writes_strlcpy _ src

theorem answers_quiet {m : Stub Unit} (quiet : Quiet m) : Answers m := lockstep_of_blind quiet

theorem answers_after {α : Type} {m : Stub α} {f : α → Stub Unit} (quiet : Quiet m)
    (rest : ∀ a, Answers (f a)) : Answers (m >>= f) :=
  lockstep_bind (lockstep_of_blind quiet) rest

theorem answers_parse {α : Type} {p : Except Fault α} {f : α → Stub Unit} (good : NoOverflow p)
    (rest : ∀ a, Answers (f a)) : Answers (liftParse p >>= f) :=
  answers_after (quiet_liftParse good) rest

theorem answers_get {f : State → Stub Unit} (same : ∀ s o, f (State.withOutput s o) = f s)
    (rest : ∀ s, Answers (f s)) : Answers (get >>= f) := lockstep_get_bind same rest

theorem answers_ite {c : Prop} [Decidable c] {m n : Stub Unit} (hm : Answers m) (hn : Answers n) :
    Answers (if c then m else n) := lockstep_ite (fun _ => hm) fun _ => hn

theorem answers_handleReadRegs : Answers handleReadRegs :=
  answers_after quiet_freshContext fun _ => answers_get (fun _ _ => rfl) fun _ =>
    answers_after (quiet_deref _) fun _ => answers_after (quiet_tcbReadRegisters _ _ _) fun regs =>
    lockstep_bind (writes_regs2hex regs) fun _ => lockstep_pure fun _ _ h => h

theorem answers_handleWriteRegs (ptr : List Byte) : Answers (handleWriteRegs ptr) :=
  answers_parse (noOverflow_peek _) fun _ => answers_after (quiet_assert _) fun _ =>
    answers_after quiet_freshContext fun _ => answers_parse (noOverflow_hex2regs _ _) fun _ =>
    answers_get (fun _ _ => rfl) fun _ => answers_after (quiet_deref _) fun _ =>
    answers_after (quiet_invoke _) fun _ => answers_text _

omit [Machine] in
/-- The length check wraps and the length is cut to an int, yet what passes fits the buffer. -/
theorem readSize_fits {size : Word} (small : ¬ BitVec.ofNat 64 (bufsize - 1) < size * 2) :
    0 + 2 * (intOfWord size).toNat < bufsize := by
  have le : (size * 2).toNat ≤ 2047 := by
    have := Nat.le_of_not_lt (fun lt => small (BitVec.lt_def.mpr lt))
    simpa [bufsize] using this
  rw [BitVec.toNat_mul] at le
  have low : (size.setWidth 32).toNat ≤ 1023 := by
    rw [BitVec.toNat_setWidth]
    have two : (2 : Word).toNat = 2 := rfl
    rw [two] at le
    have := size.isLt
    omega
  have int : intOfWord size = ((size.setWidth 32).toNat : Int) := by
    rw [intOfWord, BitVec.toInt_eq_toNat_of_lt (by omega)]
  rw [int, Int.toNat_natCast]
  simp only [bufsize]
  omega

theorem answers_handleReadMem (ptr : List Byte) : Answers (handleReadMem ptr) := by
  refine answers_parse (noOverflow_parseMemFormat _) fun parsed => ?_
  cases parsed with
  | none => exact answers_text _
  | some parsed =>
    refine lockstep_ite (fun _ => answers_text _) fun small =>
      answers_get (fun _ _ => rfl) fun s => ?_
    have read := writes_infMem2hexLoop s.targetThread _ 0 parsed.1 0 0 (readSize_fits small)
    refine lockstep_bind (lockstep_weaken read (fun o o' _ => agreeBelow_zero o o')
      fun _ _ _ h => h)
      fun last => ?_
    cases last with
    | none => exact writes_strlcpy _ _
    | some last => exact lockstep_pure fun _ _ h => h rfl

theorem answers_handleWriteMem (ptr : List Byte) : Answers (handleWriteMem ptr) := by
  refine answers_parse (noOverflow_parseMemFormat _) fun parsed => ?_
  cases parsed with
  | none => exact answers_text _
  | some parsed =>
    refine answers_parse (noOverflow_memchr _ _ _) fun found => ?_
    cases found with
    | none => exact answers_quiet (blind_pure _)
    | some found =>
      exact answers_get (fun _ _ => rfl) fun _ => answers_after (quiet_infHex2mem _ _ _ _) fun _ =>
        answers_ite (answers_text _) (answers_text _)

theorem answers_handleConfigureDebugEvents (ptr : List Byte) :
    Answers (handleConfigureDebugEvents ptr) := by
  have answer {op : Fin maxPds → Stub Bool} (quiet : ∀ pd, Quiet (op pd)) : Answers (do
      let success ← op (← targetInferior)
      strlcpy 0 (if success then str "OK" else str "E01") bufsize) :=
    answers_after quiet_targetInferior fun pd => answers_after (quiet pd) fun _ => answers_text _
  refine answers_parse (noOverflow_parseBreakpointFormat _) fun parsed => ?_
  cases parsed with
  | none => exact answers_text _
  | some parsed =>
    refine answers_after (quiet_textIs _ _ _) fun _ => answers_ite
      (answer fun pd => quiet_setSoftwareBreakpoint pd _) ?_
    refine answers_after (quiet_textIs _ _ _) fun _ => answers_ite
      (answer fun pd => quiet_unsetSoftwareBreakpoint pd _) ?_
    refine answers_after (quiet_textIs _ _ _) fun _ => answers_ite
      (answer fun pd => quiet_setHardwareBreakpoint pd _) ?_
    refine answers_after (quiet_textIs _ _ _) fun _ => answers_ite
      (answer fun pd => quiet_unsetHardwareBreakpoint pd _) ?_
    refine answers_parse (noOverflow_peek _) fun c => ?_
    cases watchpointAccess c with
    | none => exact answers_text _
    | some access =>
      exact answers_parse (noOverflow_peek _) fun _ => answers_ite
        (answer fun pd => quiet_setHardwareWatchpoint pd _ _ _)
        (answer fun pd => quiet_unsetHardwareWatchpoint pd _ _ _)

theorem answers_handleCheckThreadAlive (ptr : List Byte) :
    Answers (handleCheckThreadAlive ptr) := by
  refine answers_parse (noOverflow_peek _) fun _ => answers_after (quiet_assert _) fun _ =>
    answers_after quiet_freshInt fun _ =>
      answers_parse (noOverflow_parseThreadId _ _ _) fun id => ?_
  cases id.ptr with
  | none => exact answers_text _
  | some rest =>
    exact answers_get (fun _ _ => rfl) fun s =>
      answers_parse (noOverflow_lookupThread s _ _) fun _ =>
      answers_after (quiet_deref _) fun _ => answers_ite (answers_text _)
        (answers_quiet (blind_pure _))

theorem answers_confirmTarget : Answers confirmTarget :=
  answers_get (fun _ _ => rfl) fun _ => answers_after (quiet_deref _) fun _ =>
    answers_after (quiet_assert _) fun _ => answers_text _

theorem answers_handleSetInferior (ptr : List Byte) : Answers (handleSetInferior ptr) := by
  refine answers_after quiet_freshInt fun _ => answers_parse (noOverflow_peek _) fun _ =>
    answers_ite (answers_text _) (answers_parse (noOverflow_dashOne _) fun _ => answers_ite ?_ ?_)
  · exact answers_get (fun _ _ => rfl) fun _ => answers_after (quiet_assert _) fun _ =>
      answers_text _
  · refine answers_parse (noOverflow_parseThreadId _ _ _) fun id => ?_
    cases id.ptr with
    | none => exact answers_text _
    | some rest =>
      refine answers_after (quiet_assert _) fun _ => answers_ite answers_confirmTarget ?_
      refine answers_get (fun _ _ => rfl) fun s =>
        answers_parse (noOverflow_lookupInferior s _) fun found => ?_
      cases found with
      | none => exact answers_text _
      | some pd =>
        exact answers_ite answers_confirmTarget
          (answers_parse (noOverflow_lookupThread s _ _) fun _ =>
            answers_after (blind_modify fun _ _ => rfl) fun _ => answers_confirmTarget)

theorem answers_handleDetach : Answers handleDetach :=
  lockstep_bind (answers_text _) fun _ => answers_quiet (blind_forM _ fun pd =>
    blind_get_bind (fun _ _ => rfl) fun _ => blind_ite (quiet_detachInferior pd) (blind_pure _))

theorem answers_handleVcont (input : List Byte) : Answers (handleVcont input) := by
  refine answers_after (blind_modify fun _ _ => rfl) fun _ => ?_
  generalize input.length + 1 = fuel
  generalize input.drop 5 = input
  induction fuel generalizing input with
  | zero => exact answers_quiet (blind_throw (by decide))
  | succ fuel ih =>
    have act (stepping wakeup : Bool) : Answers (do
        modify fun s : State => setAllWakeup s wakeup
        let input ← vcontIds stepping fuel input.tail.tail
        vcontActions fuel input) :=
      answers_after (blind_modify fun _ _ => rfl) fun _ => answers_after (quiet_vcontIds _ _ _)
        fun _ => ih _
    exact answers_parse (noOverflow_peek _) fun c => answers_ite (answers_quiet (blind_pure _))
      (answers_after (quiet_assert _) fun _ => answers_parse (noOverflow_peek _) fun action =>
        answers_ite (act true false) (answers_ite (act false true) (answers_text _)))

end Libgdb
