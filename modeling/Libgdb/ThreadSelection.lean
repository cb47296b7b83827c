import Libgdb.AliveQueries

/-!
Thread selection. An `H` packet names a thread by a process and a thread, either of which may be a
wildcard or missing; what is found is stored before it is checked, and a process without a thread
is read up to the next dot behind the packet.
-/
namespace Libgdb
open ByteMemory CheckedPrograms

/- Ids. -/

inductive SelectId where
  | all
  | any
  | everyProcess
  | process (proc : List Byte)
  | everyThread (proc : List Byte)
  | oneThread (proc thread : List Byte)

/-- `-1`, `0`, `p-1`, `p<P>`, `p<P>.-1` and `p<P>.<T>`, NUL-terminated. -/
def SelectId.text (tail : List Byte) : SelectId → List Byte
  | .all => str "-1" ++ 0 :: tail
  | .any => chr '0' :: 0 :: tail
  | .everyProcess => chr 'p' :: (str "-1" ++ 0 :: tail)
  | .process proc => chr 'p' :: (proc ++ 0 :: tail)
  | .everyThread proc => chr 'p' :: (proc ++ chr '.' :: (str "-1" ++ 0 :: tail))
  | .oneThread proc thread => chr 'p' :: (proc ++ chr '.' :: (thread ++ 0 :: tail))

def IsNumberText (text : List Byte) : Prop := text ≠ [] ∧ ∀ c ∈ text, IsHex c

def SelectId.WellFormed : SelectId → Prop
  | .all | .any | .everyProcess => True
  | .process proc | .everyThread proc => IsNumberText proc
  | .oneThread proc thread => IsNumberText proc ∧ IsNumberText thread

def selectPacket (kind : Byte) (id : SelectId) (tail : List Byte) : List Byte :=
  chr 'H' :: kind :: id.text tail

/- Fields. -/

/-- What an int holds once a field is stored in it: nothing readable makes it −1. -/
def storedInt (old : BitVec 32) : List Byte → BitVec 32
  | [] => -1
  | [c] => BitVec.ofInt 32 (hexcharToInt c)
  | field => overwriteInt old (pairBytes field)

theorem storeId_stored (field : List Byte) {stop : Byte} (ends : ¬ IsHex stop) (rest : List Byte)
    (old : BitVec 32) :
    storeId (field ++ stop :: rest) field.length old =
      if field.length < 10 then .ok (storedInt old field) else .error .localOverwrite := by
  match field with
  | [] =>
    have none : hexcharToInt stop = -1 := by simpa [IsHex] using ends
    rw [List.nil_append, storeId, if_pos (by simp)]
    simp [peek, none, storedInt, bind, Except.bind, pure, Except.pure]
  | [c] =>
    rw [storeId, if_pos (by simp)]
    rfl
  | hi :: lo :: field =>
    obtain ⟨left, read⟩ := hex2mem_pairs (hi :: lo :: field) (stop :: rest)
    rw [storeId, if_neg (by simp only [List.length_cons]; omega), read, ok_bind]
    dsimp only
    by_cases short : (hi :: lo :: field).length < 10
    · rw [if_pos short, if_pos (by omega)]
      rfl
    · rw [if_neg short, if_neg (by omega)]

theorem spanDot_ok_iff {text rest : List Byte} {n : Nat} :
    spanDot text = .ok (n, rest) ↔ ∃ field, text = field ++ chr '.' :: rest ∧
    (∀ c ∈ field, c ≠ chr '.') ∧
      n = field.length := by
  constructor
  · induction text generalizing n with
    | nil =>
      intro span
      cases span
    | cons c text ih =>
      intro span
      rw [spanDot] at span
      by_cases dot : c = chr '.'
      · rw [if_pos dot] at span
        cases span
        exact ⟨[], by rw [dot]; rfl, fun c mem => absurd mem List.not_mem_nil, rfl⟩
      · rw [if_neg dot] at span
        obtain ⟨⟨m, rest'⟩, later, made⟩ := bind_ok span
        cases made
        obtain ⟨field, rfl, plain, rfl⟩ := ih later
        exact ⟨c :: field, rfl, List.forall_mem_cons.mpr ⟨dot, plain⟩, rfl⟩
  · rintro ⟨field, rfl, plain, rfl⟩
    exact spanDot_text field rest plain

theorem spanDot_dotless {text : List Byte} (dotless : ∀ c ∈ text, c ≠ chr '.') :
    spanDot text = .error .inputOverread := by
  induction text with
  | nil => rfl
  | cons c text ih =>
    rw [spanDot, if_neg (dotless c List.mem_cons_self), ih fun d mem =>
      dotless d (List.mem_cons_of_mem _ mem)]
    rfl

theorem spanHex_ok_iff {text rest : List Byte} {n : Nat} :
    spanHex text = .ok (n, rest) ↔ ∃ field stop more, text = field ++ rest ∧ rest = stop :: more ∧
    (∀ c ∈ field, IsHex c) ∧
      ¬ IsHex stop ∧ n = field.length := by
  constructor
  · induction text generalizing n with
    | nil =>
      intro span
      cases span
    | cons c text ih =>
      intro span
      rw [spanHex] at span
      by_cases stops : hexcharToInt c = -1
      · rw [if_pos stops] at span
        cases span
        exact ⟨[], c, text, rfl, rfl, fun c mem => absurd mem List.not_mem_nil, fun hex =>
          hex stops, rfl⟩
      · rw [if_neg stops] at span
        obtain ⟨⟨m, rest'⟩, later, made⟩ := bind_ok span
        cases made
        obtain ⟨field, stop, more, rfl, rfl, digits, ends, rfl⟩ := ih later
        exact ⟨c :: field, stop, more, rfl, rfl, List.forall_mem_cons.mpr ⟨stops, digits⟩, ends,
          rfl⟩
  · rintro ⟨field, stop, more, rfl, rfl, digits, ends, rfl⟩
    exact spanHex_digits field digits ends more

/-- The thread behind the dot: `-1` at the end of a text, or the digits up to the first other
    character. -/
def ThreadReads (text : List Byte) (threadId : BitVec 32) : Prop :=
  (minusOne text = .ok true ∧ threadId = -1) ∨
    (minusOne text = .ok false ∧ ∃ field stop rest, text = field ++ stop :: rest ∧
      (∀ c ∈ field, IsHex c) ∧
      ¬ IsHex stop ∧ field.length < 10 ∧ threadId = storedInt 0 field)

/-- What the text behind the `p` is read as: the field up to the first dot, wherever it is, and the
    thread behind it. -/
def IdReads (old : BitVec 32) (text : List Byte) (procId threadId : BitVec 32) : Prop :=
  minusOne text = .ok false ∧ ∃ field rest, text = field ++ chr '.' :: rest ∧
    (∀ c ∈ field, c ≠ chr '.') ∧ field.length < 10 ∧ procId = storedInt old field ∧ ThreadReads rest threadId

theorem parseThread_reads {text : List Byte} {procId : BitVec 32} {id : ParsedId} :
    parseThread text procId 0 = .ok id → id.procId = procId ∧ id.ptr ≠ none ∧
    ThreadReads text id.threadId := by
  intro parsed
  rw [parseThread] at parsed
  obtain ⟨all, minus, parsed⟩ := bind_ok parsed
  cases all with
  | true =>
    cases parsed
    exact ⟨rfl, nofun, Or.inl ⟨minus, rfl⟩⟩
  | false =>
    obtain ⟨⟨n, rest⟩, span, parsed⟩ := bind_ok parsed
    obtain ⟨field, stop, more, rfl, rfl, digits, ends, rfl⟩ := spanHex_ok_iff.mp span
    obtain ⟨v, stored, made⟩ := bind_ok parsed
    cases made
    rw [storeId_stored field ends] at stored
    split at stored
    · rename_i short
      cases stored
      exact ⟨rfl, nofun, Or.inr ⟨minus, field, stop, more, rfl, digits, ends, short, rfl⟩⟩
    · cases stored

theorem parseThread_of_reads {text : List Byte} {threadId : BitVec 32}
    (reads : ThreadReads text threadId)
    (procId : BitVec 32) : ∃ ptr, parseThread text procId 0 = .ok ⟨some ptr, procId, threadId⟩ := by
  rcases reads with ⟨minus, rfl⟩ | ⟨minus, field, stop, rest, rfl, digits, ends, short, rfl⟩
  · refine ⟨text.drop 2, ?_⟩
    rw [parseThread, minus]
    rfl
  · refine ⟨stop :: rest, ?_⟩
    rw [parseThread, minus, ok_bind, if_neg (by decide), spanHex_digits field digits ends, ok_bind]
    dsimp only
    rw [storeId_stored field ends, if_pos short]
    rfl

theorem dot_not_hex : ¬ IsHex (chr '.') := by decide

theorem parseThreadId_undotted {text : List Byte} (dotless : ∀ c ∈ text, c ≠ chr '.')
    (more : minusOne text = .ok false) (procOld threadOld : BitVec 32) :
    parseThreadId (chr 'p' :: text) procOld threadOld = .error .inputOverread := by
  unfold parseThreadId
  simp only [peek, List.tail_cons, bind, Except.bind, ne_eq, not_true_eq_false, if_false, more,
    spanDot_dotless dotless]
  rfl

theorem parseThreadId_reads {text : List Byte} {old : BitVec 32} {id : ParsedId}
    (parsed : parseThreadId (chr 'p' :: text) old 0 = .ok id) :
    id.ptr ≠ none ∧ (id.procId = -1 ∨ IdReads old text id.procId id.threadId) := by
  have split : parseThreadId (chr 'p' :: text) old 0 = (do
      if ← minusOne text then
        return ⟨some (text.drop 2), -1, 0⟩
      else
        let span ← spanDot text
        let procId ← storeId text span.1 old
        parseThread span.2 procId 0) := rfl
  rw [split] at parsed
  obtain ⟨all, minus, parsed⟩ := bind_ok parsed
  cases all with
  | true =>
    cases parsed
    exact ⟨Option.some_ne_none _, Or.inl rfl⟩
  | false =>
    obtain ⟨⟨n, rest⟩, span, parsed⟩ := bind_ok parsed
    obtain ⟨field, rfl, plain, rfl⟩ := spanDot_ok_iff.mp span
    obtain ⟨v, stored, parsed⟩ := bind_ok parsed
    rw [storeId_stored field dot_not_hex] at stored
    split at stored
    · rename_i short
      cases stored
      obtain ⟨same, some, reads⟩ := parseThread_reads parsed
      exact ⟨some, Or.inr ⟨minus, field, rest, rfl, plain, short, same, reads⟩⟩
    · cases stored

theorem parseThreadId_of_reads {text : List Byte} {old procId threadId : BitVec 32}
    (reads : IdReads old text procId threadId) :
    ∃ ptr, parseThreadId (chr 'p' :: text) old 0 = .ok ⟨some ptr, procId, threadId⟩ := by
  obtain ⟨minus, field, rest, rfl, plain, short, rfl, thread⟩ := reads
  obtain ⟨ptr, parsed⟩ := parseThread_of_reads thread (storedInt old field)
  refine ⟨ptr, ?_⟩
  rw [parseThreadId_parts plain minus, storeId_stored field dot_not_hex, if_pos short]
  exact parsed

section
variable [Machine]

/- Outcomes. -/

theorem confirmTarget_ok_iff {s u : State} : confirmTarget.run s = .ok () u ↔
    ∃ t, s.targetThread = some t ∧ ((s.thread t).enabled = true ∧ (s.thread t).tcb ≠ 0) ∧
    u = s.lay 0 (str "OK") := by
  have reply : (strlcpy 0 (str "OK") bufsize).run s = .ok () (s.lay 0 (str "OK")) :=
    strlcpy_run 0 (str "OK") bufsize s (by decide) (by decide)
  unfold confirmTarget
  rw [run_bind_ok (EStateM.run_get s)]
  constructor
  · intro returns
    obtain ⟨t, target, rest⟩ := deref_bind_ok returns
    obtain ⟨usable, rest'⟩ := assert_bind_ok rest
    cases reply.symm.trans rest'
    exact ⟨t, target, usable, rfl⟩
  · rintro ⟨t, target, usable, rfl⟩
    rw [run_bind_ok (deref_run target s), run_bind_ok (assert_run usable s)]
    exact reply

structure Found (s : State) (p i : Int) (t : ThreadRef) : Prop where
  live : s.live t = true
  proc : ((s.inferiors t.pd).gdbId.toNat : Int) = p
  thread : ((s.thread t).gdbId.toNat : Int) = i
  tcb : (s.thread t).tcb ≠ 0

def State.target (s : State) (t : ThreadRef) : State := { s with targetThread := some t }

theorem store_ok_iff {s u : State} (ok : RegistryOk s) {p i : Int} (nonzero : i ≠ 0) :
    (do
      let t ← liftParse (lookupThreadFromGdbId s p i)
      modify fun s : State => { s with targetThread := t }
      confirmTarget : Stub Unit).run s = .ok () u ↔
    ∃ t, Found s p i t ∧ u = (s.target t).lay 0 (str "OK") := by
  have stored (t : Option ThreadRef) : (do
      modify fun s : State => { s with targetThread := t }
      confirmTarget : Stub Unit).run s = confirmTarget.run { s with targetThread := t } := rfl
  constructor
  · intro returns
    obtain ⟨t, lookup, rest⟩ := liftParse_bind_ok returns
    rw [stored, confirmTarget_ok_iff] at rest
    obtain ⟨t', some, ⟨enabled, tcb⟩, rfl⟩ := rest
    dsimp only at some
    subst some
    obtain ⟨r, inferior, proc, thread, positive⟩ := (store_safe_iff ok p i).mp (safe_of_ok returns)
    have found := lookupThread_named ok inferior (show 0 < (s.thread r).gdbId.toNat by omega)
    rw [proc, thread] at found
    cases found.symm.trans lookup
    exact ⟨_, ⟨Bool.and_eq_true_iff.mpr ⟨inferior, enabled⟩, proc, thread, tcb⟩, rfl⟩
  · rintro ⟨t, found, rfl⟩
    obtain ⟨inferior, enabled⟩ := Bool.and_eq_true_iff.mp found.live
    have thread := found.thread
    have lookup := lookupThread_named ok inferior (show 0 < (s.thread t).gdbId.toNat by omega)
    rw [found.proc, thread] at lookup
    rw [run_bind_ok (liftParse_run lookup s), stored, confirmTarget_ok_iff]
    exact ⟨t, rfl, ⟨enabled, found.tcb⟩, rfl⟩

/-- The states an `H` packet with these ids can leave behind: no inferior has the first and the
    target is kept, a wildcard keeps it too, or the thread looked up becomes the target. -/
inductive Selected (s : State) (p i : Int) : State → Prop where
  | unknown (missing : ¬ NamesInferior s p) (nonzero : p ≠ 0) (inside : IndexOk maxPds p) :
      Selected s p i (s.lay 0 (str "E02"))
  | kept (wild : p = 0 ∨ NamesInferior s p ∧ i = -1) {t : ThreadRef}
      (target : s.targetThread = some t)
      (enabled : (s.thread t).enabled = true) (tcb : (s.thread t).tcb ≠ 0) :
        Selected s p i (s.lay 0 (str "OK"))
  | stored (single : i ≠ -1) {t : ThreadRef} (found : Found s p (if i = 0 then 1 else i) t) :
      Selected s p i ((s.target t).lay 0 (str "OK"))

theorem Found.names {s : State} {p i : Int} {t : ThreadRef} (found : Found s p i t) :
    NamesInferior s p :=
  ⟨t.pd, (Bool.and_eq_true_iff.mp found.live).1, found.proc⟩

theorem Selected.not_all {s u : State} (ok : RegistryOk s) {p i : Int}
    (selected : Selected s p i u) : p ≠ -1 := by
  rintro rfl
  cases selected with
  | unknown _ _ inside =>
    rcases inside with positive | ⟨_, divides⟩
    · omega
    · exact absurd divides (by decide)
  | kept wild =>
    rcases wild with zero | ⟨names, _⟩
    · omega
    · exact absurd (namesInferior_pos ok names) (by decide)
  | stored _ found => exact absurd (namesInferior_pos ok found.names) (by decide)

theorem select_ok_iff {s u : State} (ok : RegistryOk s) (procId threadId : BitVec 32) :
    (IdUse.select.run procId threadId).run s = .ok () u ↔
    Selected s procId.toInt threadId.toInt u := by
  unfold IdUse.run
  dsimp only
  generalize procId.toInt = p
  generalize threadId.toInt = i
  by_cases all : p = -1
  · refine iff_of_false ?_ fun selected => selected.not_all ok all
    rw [assert, if_neg (fun ne => ne all)]
    intro returns
    cases returns
  rw [assert, if_pos all, pure_bind]
  by_cases any : p = 0
  · rw [if_pos any, confirmTarget_ok_iff]
    constructor
    · rintro ⟨t, target, ⟨enabled, tcb⟩, rfl⟩
      exact .kept (Or.inl any) target enabled tcb
    · rintro (⟨_, nonzero, _⟩ | ⟨_, target, enabled, tcb⟩ | ⟨_, found⟩)
      · exact absurd any nonzero
      · exact ⟨_, target, ⟨enabled, tcb⟩, rfl⟩
      · have positive := namesInferior_pos ok found.names
        omega
  rw [if_neg any, run_bind_ok (EStateM.run_get s)]
  rcases lookupInferior_cases ok p with ⟨names, pd, found⟩ | ⟨missing, inside, none⟩ |
    ⟨missing, outside, e, error, _⟩
  · rw [run_bind_ok (liftParse_run found s)]
    dsimp only
    by_cases every : i = -1
    · rw [if_pos every, confirmTarget_ok_iff]
      constructor
      · rintro ⟨t, target, ⟨enabled, tcb⟩, rfl⟩
        exact .kept (Or.inr ⟨names, every⟩) target enabled tcb
      · rintro (⟨missing, _, _⟩ | ⟨_, target, enabled, tcb⟩ | ⟨single, _⟩)
        · exact absurd names missing
        · exact ⟨_, target, ⟨enabled, tcb⟩, rfl⟩
        · exact absurd every single
    · rw [if_neg every, store_ok_iff ok (by split <;> omega)]
      constructor
      · rintro ⟨t, found, rfl⟩
        exact .stored every found
      · rintro (⟨missing, _, _⟩ | ⟨zero | ⟨_, every'⟩, _, _, _⟩ | ⟨_, found⟩)
        · exact absurd names missing
        · exact absurd zero any
        · exact absurd every' every
        · exact ⟨_, found, rfl⟩
  · have reply : (strlcpy 0 (str "E02") bufsize).run s = .ok () (s.lay 0 (str "E02")) :=
      strlcpy_run 0 (str "E02") bufsize s (by decide) (by decide)
    rw [run_bind_ok (liftParse_run none s)]
    constructor
    · intro returns
      cases reply.symm.trans returns
      exact .unknown missing any inside
    · rintro (_ | ⟨zero | ⟨names, _⟩, _, _, _⟩ | ⟨_, found⟩)
      · exact reply
      · exact absurd zero any
      · exact absurd names missing
      · exact absurd found.names missing
  · rw [run_bind_error (liftParse_error error s)]
    refine iff_of_false (fun returns => by cases returns) ?_
    rintro (⟨_, _, inside⟩ | ⟨zero | ⟨names, _⟩, _, _, _⟩ | ⟨_, found⟩)
    · exact outside inside
    · exact any zero
    · exact missing names
    · exact missing found.names

/- Packets. -/

def InProcess (s : State) (t : ThreadRef) (procId : Nat) : Prop :=
  procId = 0 ∨ (s.inferiors t.pd).gdbId.toNat = procId

def SelectId.Selects (s : State) (t : ThreadRef) : SelectId → Prop
  | .all | .any | .everyProcess => True
  | .process proc | .everyThread proc => InProcess s t (hexNumber proc)
  | .oneThread proc thread =>
      InProcess s t (hexNumber proc) ∧
      (hexNumber thread = 0 ∨ (s.thread t).gdbId.toNat = hexNumber thread)

/-- The packet returns, with OK and a live thread selected by the id for the target, or with an
    error and the target as it was. -/
def SelectionSettled (s : State) (kind : Byte) (id : SelectId) (tail : List Byte) : Prop :=
  ∃ u, (gdbHandlePacket (selectPacket kind id tail)).run s = .ok false u ∧
    ((u.reply = str "OK" ∧ ∃ t, u.targetThread = some t ∧ u.live t = true ∧ id.Selects s t) ∨
      ((∃ rest, u.reply = chr 'E' :: rest) ∧ u.targetThread = s.targetThread))

/-- No inferior has the first number, which is refused; or the target is kept and the id selects it;
    or the numbers are those of a live thread that the id selects. A target needs a TCB. -/
inductive Chooses (s : State) (id : SelectId) (p i : Int) : Prop where
  | unknown (missing : ¬ NamesInferior s p) (nonzero : p ≠ 0) (inside : IndexOk maxPds p)
  | kept (wild : p = 0 ∨ NamesInferior s p ∧ i = -1) {t : ThreadRef}
      (target : s.targetThread = some t) (tcb : (s.thread t).tcb ≠ 0) (selects : id.Selects s t)
  | stored (single : i ≠ -1) {t : ThreadRef} (found : Found s p (if i = 0 then 1 else i) t)
      (selects : id.Selects s t)

/-- `-1` and `0` are settled, and of the other ids those that are read as numbers to choose from. -/
def SelectionSafe (s : State) (id : SelectId) (tail : List Byte) : Prop :=
  id = .all ∨ id = .any ∨ ∃ text p i, id.text tail = chr 'p' :: text ∧
    IdReads (Machine.junkInt s.drawn) text p i ∧ Chooses s id p.toInt i.toInt

theorem selectPacket_run (kind : Byte) (id : SelectId) (tail : List Byte) (s : State) :
    (gdbHandlePacket (selectPacket kind id tail)).run s = (do
      handleSetInferior (selectPacket kind id tail)
      return false : Stub Bool).run (s.lay 0 []) := by
  rw [selectPacket, dispatch_setInferior, run_bind_ok (put_zero_run (by decide) s)]

theorem handleSetInferior_run {kind : Byte} (known : kind = chr 'g' ∨ kind = chr 'c')
    (id : SelectId) (tail : List Byte)
    (s : State) : (handleSetInferior (selectPacket kind id tail)).run s = (do
      if ← liftParse (dashOne (id.text tail)) then
        let s ← get
        assert (s.targetThread ≠ none)
        strlcpy 0 (str "OK") bufsize
      else
        let id ← liftParse (parseThreadId (id.text tail) (Machine.junkInt s.drawn) 0)
        match id.ptr with
        | none => strlcpy 0 (str "E02") bufsize
        | some _ => IdUse.select.run id.procId id.threadId : Stub Unit).run (s.draw 1) := by
  have head : peek (selectPacket kind id tail).tail = .ok kind := rfl
  have other : ¬ (kind ≠ chr 'g' ∧ kind ≠ chr 'c') := by
    rintro ⟨first, second⟩
    exact known.elim first second
  rw [handleSetInferior_uses, run_bind_ok (freshInt_run s), run_bind_ok (liftParse_run head _),
    if_neg other]
  rfl

theorem selectNumbers_ok_iff {s u : State} (ok : RegistryOk s) {kind : Byte}
    (known : kind = chr 'g' ∨ kind = chr 'c')
    {id : SelectId} {tail text : List Byte} (numbers : id.text tail = chr 'p' :: text) :
    (gdbHandlePacket (selectPacket kind id tail)).run s = .ok false u ↔
      ∃ p i, IdReads (Machine.junkInt s.drawn) text p i ∧
      Selected ((s.lay 0 []).draw 1) p.toInt i.toInt u := by
  have same : SameRegistry s ((s.lay 0 []).draw 1) := sameRegistry_of_eq rfl rfl
  have ok' := registryOk_of_same same ok
  have plain : dashOne (chr 'p' :: text) = .ok false := rfl
  have handled : (gdbHandlePacket (selectPacket kind id tail)).run s = .ok false u ↔
      (do
        let id ← liftParse (parseThreadId (chr 'p' :: text) (Machine.junkInt s.drawn) 0)
        match id.ptr with
        | none => strlcpy 0 (str "E02") bufsize
        | some _ => IdUse.select.run id.procId id.threadId : Stub Unit).run ((s.lay 0 []).draw 1) =
          .ok () u := by
    have run := handleSetInferior_run known id tail (s.lay 0 [])
    rw [numbers, run_bind_ok (liftParse_run plain _), if_neg (by decide)] at run
    rw [selectPacket_run]
    constructor
    · intro returns
      obtain ⟨_, v, first, last⟩ := ok_bind_run returns
      cases last
      exact run.symm.trans first
    · intro returns
      exact run_bind_ok (run.trans returns) _
  rw [handled]
  constructor
  · intro returns
    obtain ⟨parsed, parse, rest⟩ := liftParse_bind_ok returns
    obtain ⟨some, reads⟩ := parseThreadId_reads parse
    cases pointer : parsed.ptr with
    | none => exact absurd pointer some
    | some ptr =>
      rw [pointer] at rest
      have selected := (select_ok_iff ok' parsed.procId parsed.threadId).mp rest
      rcases reads with all | reads
      · rw [all] at selected
        exact absurd rfl (selected.not_all ok')
      · exact ⟨_, _, reads, selected⟩
  · rintro ⟨p, i, reads, selected⟩
    obtain ⟨ptr, parse⟩ := parseThreadId_of_reads reads
    rw [run_bind_ok (liftParse_run parse _)]
    exact (select_ok_iff ok' p i).mpr selected

theorem ok_reply (s : State) : (s.lay 0 (str "OK")).reply = str "OK" :=
  lay_reply s _ (by decide) (by decide)

theorem unknown_reply (s : State) : (s.lay 0 (str "E02")).reply = str "E02" :=
  lay_reply s _ (by decide) (by decide)

theorem numbers_settled_iff {s : State} (ok : RegistryOk s) {target : ThreadRef}
    (known : s.targetThread = some target)
    (live : s.live target = true) {kind : Byte} (op : kind = chr 'g' ∨ kind = chr 'c')
    {id : SelectId} {tail text : List Byte} (numbers : id.text tail = chr 'p' :: text) :
    SelectionSettled s kind id tail ↔
      ∃ p i, IdReads (Machine.junkInt s.drawn) text p i ∧ Chooses s id p.toInt i.toInt := by
  unfold SelectionSettled
  simp only [selectNumbers_ok_iff ok op numbers]
  have chosen {r : State} {t : ThreadRef} (here : r.targetThread = some t) (settled :
      ((r.lay 0 (str "OK")).reply = str "OK" ∧ ∃ t', (r.lay 0 (str "OK")).targetThread = some t' ∧
        (r.lay 0 (str "OK")).live t' = true ∧ id.Selects s t') ∨
      ((∃ rest, (r.lay 0 (str "OK")).reply = chr 'E' :: rest) ∧ (r.lay 0 (str "OK")).targetThread =
        s.targetThread)) :
      id.Selects s t := by
    rcases settled with ⟨_, t', there, _, selects⟩ | ⟨⟨rest, error⟩, _⟩
    · cases here.symm.trans there
      exact selects
    · rw [ok_reply] at error
      cases error
  constructor
  · rintro ⟨u, ⟨p, i, reads, selected⟩, settled⟩
    refine ⟨p, i, reads, ?_⟩
    cases selected with
    | unknown missing nonzero inside => exact .unknown missing nonzero inside
    | kept wild here _ tcb => exact .kept wild here tcb (chosen here settled)
    | stored single found =>
      exact .stored single ⟨found.live, found.proc, found.thread, found.tcb⟩ (chosen rfl settled)
  · rintro ⟨p, i, reads, chooses⟩
    cases chooses with
    | unknown missing nonzero inside =>
      exact ⟨_, ⟨p, i, reads, .unknown missing nonzero inside⟩,
        Or.inr ⟨⟨str "02", unknown_reply _⟩, rfl⟩⟩
    | kept wild here tcb selects =>
      cases known.symm.trans here
      have enabled : (s.thread target).enabled = true := (Bool.and_eq_true_iff.mp live).2
      exact ⟨_, ⟨p, i, reads, .kept wild here enabled tcb⟩, Or.inl ⟨ok_reply _, target, here,
        live, selects⟩⟩
    | stored single found selects =>
      have found' : Found ((s.lay 0 []).draw 1) p.toInt (if i.toInt = 0 then 1 else i.toInt) _ :=
        ⟨found.live, found.proc, found.thread, found.tcb⟩
      exact ⟨_, ⟨p, i, reads, .stored single found'⟩,
        Or.inl ⟨ok_reply _, _, rfl, found.live, selects⟩⟩

theorem plain_settled {s : State} {target : ThreadRef} (known : s.targetThread = some target)
    (live : s.live target = true) {kind : Byte} (op : kind = chr 'g' ∨ kind = chr 'c')
    {id : SelectId}
    (plain : id = .all ∨ id = .any) (tail : List Byte) : SelectionSettled s kind id tail := by
  have run := handleSetInferior_run op id tail (s.lay 0 [])
  have settled {u : State}
      (handled : (handleSetInferior (selectPacket kind id tail)).run (s.lay 0 []) = .ok () u) :
      (gdbHandlePacket (selectPacket kind id tail)).run s = .ok false u := by
    rw [selectPacket_run]
    exact run_bind_ok handled _
  rcases plain with rfl | rfl
  · have all : dashOne (SelectId.all.text tail) = .ok true := rfl
    have targeted : ((s.lay 0 []).draw 1).targetThread ≠ none :=
      fun none => nomatch known.symm.trans none
    refine ⟨((s.lay 0 []).draw 1).lay 0 (str "OK"), settled (run.trans ?_),
      Or.inl ⟨ok_reply _, target, known, live, trivial⟩⟩
    rw [run_bind_ok (liftParse_run all _), if_pos rfl, run_bind_ok (EStateM.run_get _),
      run_bind_ok (assert_run targeted _)]
    exact strlcpy_run 0 (str "OK") bufsize _ (by decide) (by decide)
  · have single : dashOne (SelectId.any.text tail) = .ok false := rfl
    have parse : parseThreadId (SelectId.any.text tail) (Machine.junkInt s.drawn) 0 =
        .ok ⟨none, Machine.junkInt s.drawn, 0⟩ := rfl
    refine ⟨((s.lay 0 []).draw 1).lay 0 (str "E02"), settled (run.trans ?_),
      Or.inr ⟨⟨str "02", unknown_reply _⟩, rfl⟩⟩
    rw [run_bind_ok (liftParse_run single _), if_neg (by decide)]
    exact (run_bind_ok (liftParse_run parse _) _).trans (strlcpy_run 0 (str "E02") bufsize _
      (by decide) (by decide))

/-- Thread selection is all-or-nothing exactly for `-1`, `0`, and the ids that are read as numbers
    which choose a thread the id selects, or which no inferior has. -/
theorem selection_settled_iff {s : State} (reachable : Reachable s) {target : ThreadRef}
    (known : s.targetThread = some target) (live : s.live target = true) {kind : Byte}
    (op : kind = chr 'g' ∨ kind = chr 'c') (id : SelectId) (tail : List Byte) :
    SelectionSettled s kind id tail ↔ SelectionSafe s id tail := by
  have numbers {text : List Byte} (here : id.text tail = chr 'p' :: text) (ne : id ≠ .all)
      (ne' : id ≠ .any) :
      SelectionSettled s kind id tail ↔ SelectionSafe s id tail := by
    rw [numbers_settled_iff (reachable_ok reachable) known live op here]
    constructor
    · rintro ⟨p, i, reads, chooses⟩
      exact Or.inr (Or.inr ⟨text, p, i, here, reads, chooses⟩)
    · rintro (all | any | ⟨text', p, i, there, reads, chooses⟩)
      · exact absurd all ne
      · exact absurd any ne'
      · cases here.symm.trans there
        exact ⟨p, i, reads, chooses⟩
  cases id with
  | all => exact iff_of_true (plain_settled known live op (Or.inl rfl) tail) (Or.inl rfl)
  | any => exact iff_of_true (plain_settled known live op (Or.inr rfl) tail) (Or.inr (Or.inl rfl))
  | everyProcess => exact numbers rfl nofun nofun
  | process proc => exact numbers rfl nofun nofun
  | everyThread proc => exact numbers rfl nofun nofun
  | oneThread proc thread => exact numbers rfl nofun nofun

omit [Machine] in
theorem solo_target : letI := obligingBoard
    soloState.targetThread = some ⟨0, 0⟩ ∧ soloState.live ⟨0, 0⟩ = true := by
  let _ := obligingBoard
  decide +kernel

omit [Machine] in
theorem solo_selection_settled : letI := obligingBoard
    SelectionSettled soloState (chr 'g') (.oneThread (str "1") (str "1")) [] := by
  let _ := obligingBoard
  obtain ⟨known, live⟩ := solo_target
  refine (selection_settled_iff solo_registered.reachable known live (Or.inl rfl) _ []).mpr
    (Or.inr (Or.inr ?_))
  have thread : ThreadReads (str "1" ++ [0]) 1 :=
    Or.inr ⟨rfl, str "1", 0, [], rfl, by decide, by decide, by decide, rfl⟩
  have reads : IdReads (Machine.junkInt soloState.drawn) (str "1.1" ++ [0]) 1 1 :=
    ⟨rfl, str "1", str "1" ++ [0], rfl, by decide, by decide, rfl, thread⟩
  have found : Found soloState 1 1 ⟨0, 0⟩ :=
    ⟨by decide +kernel, by decide +kernel, by decide +kernel, by decide +kernel⟩
  have selects : (SelectId.oneThread (str "1") (str "1")).Selects soloState ⟨0, 0⟩ :=
    ⟨Or.inr (by decide +kernel), Or.inr (by decide +kernel)⟩
  exact ⟨str "1.1" ++ [0], 1, 1, rfl, reads, .stored (by decide) found selects⟩

omit [Machine] in
theorem solo_unknown_selected : letI := obligingBoard
    value (gdbHandlePacket (selectPacket (chr 'g') (.oneThread (str "1") (str "2")) [])) soloState =
      none := by
  let _ := obligingBoard
  decide +kernel

omit [Machine] in
/-- `Hgp1.2` makes NULL the target and dereferences it where no thread 2 was ever registered. -/
theorem unknown_thread_selected : letI := obligingBoard
    ¬ ∀ s, Reachable s → ∀ target, s.targetThread = some target → s.live target = true →
    ∀ kind, kind = chr 'g' ∨ kind = chr 'c' →
      ∀ id : SelectId, id.WellFormed → ∀ tail, SelectionSettled s kind id tail := by
  let _ := obligingBoard
  intro all
  obtain ⟨known, live⟩ := solo_target
  have wellFormed : (SelectId.oneThread (str "1") (str "2")).WellFormed :=
    ⟨⟨by decide, by decide⟩, ⟨by decide, by decide⟩⟩
  obtain ⟨u, returns, _⟩ := all soloState solo_registered.reachable ⟨0, 0⟩ known live (chr 'g')
      (Or.inl rfl) _ wellFormed []
  have lost := solo_unknown_selected
  rw [value_ok returns] at lost
  cases lost

end

end Libgdb
