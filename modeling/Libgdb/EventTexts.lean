import Libgdb.Registrations

/-!
The event texts: what registration, exit and faults write to the reply buffer when the threads
they name have an inferior.
-/
namespace Libgdb
open ByteMemory CheckedPrograms
variable [Machine]

/- A text that grows at its end. -/

theorem lay_append (s : State) (text more : List Byte) {next : Nat} (ends : next = text.length) :
    (s.lay 0 text).lay next more = s.lay 0 (text ++ more) :=
  lay_continue s text more (by omega)

theorem appendText_run (s : State) (text src : List Byte) {next : Nat} (ends : next = text.length)
    (fits : text.length + src.length < bufsize) :
    (strlcpy next src bufsize).run (s.lay 0 text) = .ok () (s.lay 0 (text ++ src)) := by
  rw [strlcpy_run _ _ _ _ (by omega) (by omega), lay_append s text src ends]

theorem appendId_run (s : State) (text : List Byte) {t : ThreadRef} {pd : Fin maxPds} {next : Nat}
    (ends : next = text.length) (owner : (s.thread t).inferior = some pd)
    (fits : text.length + 6 < bufsize) :
    (writeThreadId t next).run (s.lay 0 text) =
      .ok (text.length + 6) (s.lay 0 (text ++ threadIdText s t pd)) := by
  rw [writeThreadId_run t pd next (s.lay 0 text) owner (by omega), ends]
  exact congrArg _ (lay_append s text _ rfl)

omit [Machine] in
theorem append_ne_zero {a b : List Byte} (ha : ∀ c ∈ a, c ≠ 0) (hb : ∀ c ∈ b, c ≠ 0) :
    ∀ c ∈ a ++ b, c ≠ 0 := by
  intro c mem
  rcases List.mem_append.mp mem with left | right
  · exact ha c left
  · exact hb c right

/- The texts. -/

def cloneText (s : State) (t target : ThreadRef) (pd targetPd : Fin maxPds) : List Byte :=
  str "T05clone:" ++ threadIdText s t pd ++ str ";thread:" ++ threadIdText s target targetPd ++
    str ";"

theorem announceThread_run {s : State} {t target : ThreadRef} {pd targetPd : Fin maxPds}
    (known : s.targetThread = some target) (owner : (s.thread t).inferior = some pd)
    (targetOwner : (s.thread target).inferior = some targetPd) :
    (announceThread t).run s = .ok () (s.lay 0 (cloneText s t target pd targetPd)) := by
  have first : ∀ c ∈ str "T05clone:", c ≠ 0 := by decide
  have second : ∀ c ∈ str "T05clone:" ++ threadIdText s t pd ++ str ";thread:", c ≠ 0 :=
    append_ne_zero (append_ne_zero first (threadIdText_ne_zero s t pd)) (by decide)
  have nine : (str "T05clone:").length = 9 := by decide
  have eight : (str ";thread:").length = 8 := by decide
  unfold announceThread
  rw [run_bind_ok (EStateM.run_get s), known]
  dsimp only
  rw [run_bind_ok (strlcpy_run _ _ _ _ (by decide) (by decide)),
    run_bind_ok (outputLen_run s _ first (by decide)),
    run_bind_ok (appendId_run s _ rfl owner (by decide)),
    run_bind_ok (appendText_run s _ _ (by simp) (by simp [nine, eight, bufsize])),
    run_bind_ok (outputLen_run s _ second (by simp [nine, eight, bufsize])),
    run_bind_ok (appendId_run s _ rfl targetOwner (by simp [nine, eight, bufsize])),
    appendText_run s _ _ (by simp [nine, eight]) (by simp [nine, eight, bufsize]; decide)]
  rfl

def exitText (s : State) (t : ThreadRef) (pd : Fin maxPds) : List Byte :=
  str "w00;" ++ threadIdText s t pd

theorem announceExit_run {s : State} {t : ThreadRef} {pd : Fin maxPds}
    (owner : (s.thread t).inferior = some pd) :
    (announceExit t).run s = .ok .noError (s.lay 0 (exitText s t pd)) := by
  unfold announceExit
  rw [run_bind_ok (strlcpy_run _ _ _ _ (by decide) (by decide)),
    run_bind_ok (outputLen_run s _ (by decide) (by decide)),
    run_bind_ok (appendId_run s _ rfl owner (by decide))]
  rfl

def stopText (kind : String) (s : State) (t : ThreadRef) (pd : Fin maxPds) (more : List Byte) :
    List Byte := str kind ++ threadIdText s t pd ++ more

theorem handleFault_run {s : State} {t : ThreadRef} {pd : Fin maxPds}
    (owner : (s.thread t).inferior = some pd) :
    (handleFault t).run s = .ok false
      { s.lay 0 (stopText "T06thread:" s t pd (str ";")) with targetThread := some t } := by
  have ten : (str "T06thread:").length = 10 := by decide
  have one : (str ";").length = 1 := by decide
  unfold handleFault
  rw [run_bind_ok (strlcpy_run _ _ _ _ (by decide) (by decide)),
    run_bind_ok (outputLen_run s _ (by decide) (by decide)),
    run_bind_ok (appendId_run s _ rfl owner (by decide)),
    run_bind_ok (appendText_run s _ _ (by simp) (by simp [ten, one, bufsize]))]
  rfl

theorem handleSsHwbreakSwbreakException_run {s : State} {t : ThreadRef} {pd : Fin maxPds}
    (owner : (s.thread t).inferior = some pd) (reason : ExceptionReason) :
    (handleSsHwbreakSwbreakException t reason).run s = .ok ()
      { s.lay 0 (stopText "T05thread:" s t pd
        (if reason = .softwareBreakRequest then str ";swbreak:;" else str ";hwbreak:;")) with
        targetThread := some t } := by
  have ten : (str "T05thread:").length = 10 := by decide
  have more : ∀ src ∈ [str ";swbreak:;", str ";hwbreak:;"], src.length = 10 := by decide
  unfold handleSsHwbreakSwbreakException
  rw [run_bind_ok (strlcpy_run _ _ _ _ (by decide) (by decide)),
    run_bind_ok (outputLen_run s _ (by decide) (by decide)),
    run_bind_ok (appendId_run s _ rfl owner (by decide))]
  by_cases software : reason = .softwareBreakRequest
  · rw [if_pos software, if_pos software, run_bind_ok (appendText_run s _ _ (by simp)
      (by simp [ten, more, bufsize]))]
    rfl
  · rw [if_neg software, if_neg software, run_bind_ok (appendText_run s _ _ (by simp)
      (by simp [ten, more, bufsize]))]
    rfl

def watchText : BreakpointAccess → List Byte
  | .breakOnWrite => str ";watch:"
  | .breakOnRead => str ";rwatch:"
  | .breakOnReadWrite => str ";awatch:"

omit [Machine] in
theorem watchText_ne_zero (access : BreakpointAccess) : ∀ c ∈ watchText access, c ≠ 0 := by
  cases access <;> decide

omit [Machine] in
theorem watchText_length (access : BreakpointAccess) : (watchText access).length ≤ 8 := by
  cases access <;> decide

omit [Machine] in
theorem wordBytes_length (w : Word) : (wordBytes w).length = 8 := by simp [wordBytes]

/-- The register number comes from the kernel's message and may be past the table. -/
def watchSlot (bpNum : Word) : Option (Fin numExclusiveWatchpoints) :=
  if h : (bpNum - BitVec.ofNat 64 firstWatchpoint).toNat < numExclusiveWatchpoints then
    some ⟨_, h⟩
  else none

theorem watchpointType_run {s : State} {t : ThreadRef} {pd : Fin maxPds}
    (owner : (s.thread t).inferior = some pd) (bpNum : Word) :
    (watchpointType t bpNum).run s = match watchSlot bpNum with
      | some n => .ok ((s.inferiors pd).hardwareWatchpoints n).type s
      | none => .error .indexOutOfBounds s := by
  unfold watchpointType watchSlot
  rw [run_bind_ok (EStateM.run_get s), run_bind_ok (deref_run owner s)]
  dsimp only
  split <;> rfl

def watchpointText (s : State) (t : ThreadRef) (pd : Fin maxPds) (access : BreakpointAccess)
    (triggerAddress : Word) : List Byte :=
  stopText "T05thread:" s t pd
    (watchText access ++ hexDigits (wordBytes (archToBigEndian triggerAddress)) ++ str ";")

theorem handleWatchpointException_run {s : State} {t : ThreadRef} {pd : Fin maxPds}
    (owner : (s.thread t).inferior = some pd) (bpNum triggerAddress : Word) :
    (handleWatchpointException t bpNum triggerAddress).run s = match watchSlot bpNum with
      | some n => .ok ()
        { s.lay 0 (watchpointText s t pd ((s.inferiors pd).hardwareWatchpoints n).type
          triggerAddress) with
          targetThread := some t }
      | none => .error .indexOutOfBounds (s.lay 0 (str "T05thread:" ++ threadIdText s t pd)) := by
  have ten : (str "T05thread:").length = 10 := by decide
  have one : (str ";").length = 1 := by decide
  have head := append_ne_zero (a := str "T05thread:") (by decide) (threadIdText_ne_zero s t pd)
  have type := watchpointType_run (s := s.lay 0 (str "T05thread:" ++ threadIdText s t pd)) owner
      bpNum
  unfold handleWatchpointException
  rw [run_bind_ok (strlcpy_run _ _ _ _ (by decide) (by decide)),
    run_bind_ok (outputLen_run s _ (by decide) (by decide)),
    run_bind_ok (appendId_run s _ rfl owner (by decide))]
  cases slot : watchSlot bpNum with
  | none =>
    rw [slot] at type
    exact run_bind_error type _
  | some n =>
    rw [slot] at type
    rw [run_bind_ok type]
    dsimp only [lay_inferiors]
    generalize ((s.inferiors pd).hardwareWatchpoints n).type = access
    have short := watchText_length access
    have finish (next : Nat) (ends : next = (str "T05thread:" ++ threadIdText s t pd).length) : (do
        strlcpy next (watchText access) bufsize
        let ptr ← mem2hex (wordBytes (archToBigEndian triggerAddress)) (← outputLen)
        strlcpy ptr (str ";") bufsize
        modify fun s : State => { s with targetThread := some t } : Stub Unit).run
          (s.lay 0 (str "T05thread:" ++ threadIdText s t pd)) = .ok ()
        { s.lay 0 (watchpointText s t pd access triggerAddress) with targetThread := some t } := by
      rw [run_bind_ok (appendText_run s _ _ ends (by simp [ten, bufsize]; omega)),
        run_bind_ok (outputLen_run s _ (append_ne_zero head (watchText_ne_zero access))
          (by simp [ten, bufsize]; omega)),
        run_bind_ok (mem2hex_run _ _ _ (by simp [ten, bufsize, wordBytes_length]; omega)),
        lay_append s _ _ rfl,
        run_bind_ok (appendText_run s _ _ (by simp; omega) (by
          simp [ten, one, bufsize, wordBytes_length]; omega))]
      simp only [watchpointText, stopText, List.append_assoc]
      rfl
    cases access <;> exact finish ((str "T05thread:").length + 6) (by simp)

end Libgdb
