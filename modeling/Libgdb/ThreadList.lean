import Libgdb.ReplyBuffer
import Libgdb.AllStop
import Libgdb.RegistryInvariant

/-!
The thread list and what it does to the reply buffer: it alone can run past the end, with very
many threads, and it alone leaves its text without a NUL, with none.
-/
namespace Libgdb
open ByteMemory SlotTables CheckedPrograms TwoRuns

/- Literals at the start of a packet. -/

theorem strncmp_of_prefix {literal : List Byte} (nonzero : ∀ c ∈ literal, c ≠ 0)
    (rest : List Byte) :
    strncmp (literal ++ rest) (literal ++ [0]) literal.length = .ok 0 := by
  induction literal with
  | nil => rw [List.length_nil, strncmp]
  | cons c literal ih =>
    have same : ¬ ((c.toNat : Int) - c.toNat ≠ 0 ∨ c = 0) := by
      rintro (diff | zero)
      · exact diff (Int.sub_self _)
      · exact nonzero c (by simp) zero
    rw [List.cons_append, List.cons_append, List.length_cons, strncmp, if_neg same]
    exact ih fun d mem => nonzero d (by simp [mem])

theorem prefix_of_strncmp {literal ptr : List Byte} (nonzero : ∀ c ∈ literal, c ≠ 0)
    (equal : strncmp ptr (literal ++ [0]) literal.length = .ok 0) : literal <+: ptr := by
  induction literal generalizing ptr with
  | nil => exact List.nil_prefix
  | cons c literal ih =>
    cases ptr with
    | nil => simp [strncmp] at equal
    | cons b ptr =>
      rw [List.cons_append, List.length_cons, strncmp] at equal
      have same : b = c := by
        by_contra ne
        have diff : (b.toNat : Int) - c.toNat ≠ 0 :=
          fun zero => ne (BitVec.eq_of_toNat_eq (by omega))
        rw [if_pos (Or.inl diff)] at equal
        exact diff (by injection equal)
      subst same
      have stop : ¬ ((b.toNat : Int) - b.toNat ≠ 0 ∨ b = 0) := by
        rintro (diff | zero)
        · exact diff (Int.sub_self _)
        · exact nonzero b (by simp) zero
      rw [if_neg stop] at equal
      exact List.cons_prefix_cons.mpr ⟨rfl, ih (fun d mem => nonzero d (by simp [mem])) equal⟩

def ListsThreads (input : List Byte) : Prop := str "qfThreadInfo" <+: input

instance (input : List Byte) : Decidable (ListsThreads input) :=
  inferInstanceAs (Decidable (_ <+: _))

variable [Machine]

theorem answers_handleQuery {input : List Byte} (other : ¬ ListsThreads input) :
    Answers (handleQuery input) := by
  refine answers_after (quiet_textIs _ _ _) fun _ => answers_ite (answers_text _) ?_
  have rest : Answers (do
      if ← textIs input "qsThreadInfo" 12 then
        strlcpy 0 (str "l") bufsize
      else if ← textIs input "qC" 2 then
        strlcpy 0 (str "QCp1.1") bufsize
      else if ← textIs input "qSymbol" 7 then
        strlcpy 0 (str "OK") bufsize
      else if ← textIs input "qTStatus" 8 then
        strlcpy 0 (str "T0") bufsize
      else if ← textIs input "qAttached" 9 then
        strlcpy 0 (str "1") bufsize
      else if ← textIs input "QThreadEvents:1" 15 then
        strlcpy 0 (str "OK") bufsize
      else if ← textIs input "QThreadEvents:0" 15 then
        strlcpy 0 (str "OK") bufsize) :=
    answers_after (quiet_textIs _ _ _) fun _ => answers_ite (answers_text _) <|
    answers_after (quiet_textIs _ _ _) fun _ => answers_ite (answers_text _) <|
    answers_after (quiet_textIs _ _ _) fun _ => answers_ite (answers_text _) <|
    answers_after (quiet_textIs _ _ _) fun _ => answers_ite (answers_text _) <|
    answers_after (quiet_textIs _ _ _) fun _ => answers_ite (answers_text _) <|
    answers_after (quiet_textIs _ _ _) fun _ => answers_ite (answers_text _) <|
    answers_after (quiet_textIs _ _ _) fun _ => answers_ite (answers_text _)
      (answers_quiet (blind_pure _))
  unfold textIs at rest ⊢
  cases compared : strncmp input (str "qfThreadInfo" ++ [0]) 12 with
  | error e =>
    have good : e ≠ .outputOverflow := by
      rintro rfl
      exact noOverflow_strncmp _ _ _ compared
    exact answers_quiet (blind_throw good)
  | ok diff =>
    have differs : decide (diff = 0) = false := by
      rw [decide_eq_false_iff_not]
      rintro rfl
      exact other (prefix_of_strncmp (by decide) compared)
    change Answers (if decide (diff = 0) = true then _ else _)
    rw [differs, if_neg (by decide)]
    exact rest

/-- Every packet but the one for the thread list ends with one text in the buffer. -/
theorem packet_lockstep {input : List Byte} (other : ¬ ListsThreads input) :
    Writes (fun _ _ => True) (gdbHandlePacket input) fun _ => SameText := by
  have reset : Writes (fun _ _ => True) (put 0 0) fun _ => SameText :=
    lockstep_weaken (writes_put_zero (by decide)) (fun o o' _ => agreeBelow_zero o o')
      fun _ _ _ h => ⟨0, h⟩
  have reply {m : Stub Unit} {b : Bool} (h : Answers m) :
      Writes SameText (do m; return b) fun _ => SameText :=
    lockstep_bind h fun _ => lockstep_pure fun _ _ h => h
  have both {c : Prop} [Decidable c] {m n : Stub Bool} (hm : Writes SameText m fun _ => SameText)
      (hn : Writes SameText n fun _ => SameText) :
      Writes SameText (if c then m else n) fun _ => SameText :=
        lockstep_ite (fun _ => hm) fun _ => hn
  have after_text {literal : String} {n : Nat} {f : Bool → Stub Bool}
      (h : ∀ b, Writes SameText (f b) fun _ => SameText) :
      Writes SameText (textIs input literal n >>= f) fun _ => SameText :=
    lockstep_bind (lockstep_of_blind (quiet_textIs _ _ _)) h
  have nothing : Writes SameText (return false : Stub Bool) fun _ => SameText :=
    lockstep_pure fun _ _ h => h
  refine lockstep_bind reset fun _ =>
    lockstep_bind (lockstep_of_blind (quiet_liftParse (noOverflow_peek _))) fun c => ?_
  refine both (reply answers_handleReadRegs) (both (reply (answers_handleWriteRegs _)) ?_)
  refine both (reply (answers_handleReadMem _)) (both (reply (answers_handleWriteMem _)) ?_)
  refine both (reply (answers_handleQuery other)) (both (reply (answers_handleSetInferior _)) ?_)
  refine both (lockstep_bind answers_handleDetach fun _ =>
    reply (answers_quiet (blind_modify fun _ _ => rfl))) ?_
  refine both (reply (answers_handleCheckThreadAlive _)) (both (reply (answers_text _)) ?_)
  refine both (after_text fun _ => both (reply (answers_text _))
    (after_text fun _ => both (reply (answers_handleVcont _)) nothing)) ?_
  exact both (reply (answers_handleConfigureDebugEvents _)) (both (reply (answers_text _)) nothing)

/- The listing. -/

def liveThreads (s : State) : List ThreadRef := threadRefs.filter s.live

def idTexts (s : State) (ts : List ThreadRef) : List Byte :=
  ts.flatMap fun t => chr ',' :: threadIdText s t t.pd

theorem idTexts_length (s : State) (ts : List ThreadRef) :
    (idTexts s ts).length = 7 * ts.length := by
  induction ts with
  | nil => rfl
  | cons t ts ih =>
    have one : (idTexts s (t :: ts)).length = 7 + (idTexts s ts).length := by
      simp only [idTexts, List.flatMap_cons, List.length_append, List.length_cons,
        threadIdText_length]
    rw [one, ih, List.length_cons]
    omega

theorem idTexts_ne_zero (s : State) (ts : List ThreadRef) : ∀ c ∈ idTexts s ts, c ≠ 0 := by
  intro c mem
  obtain ⟨t, _, here⟩ := List.mem_flatMap.mp mem
  rcases List.mem_cons.mp here with rfl | here
  · decide
  · exact threadIdText_ne_zero s t t.pd c here

def threadListText (s : State) : List Byte := chr 'm' :: (idTexts s (liveThreads s)).tail

def LiveOwned (s : State) : Prop := ∀ t, s.live t = true → (s.thread t).inferior = some t.pd

theorem liveOwned_of_ok {s : State} (ok : RegistryOk s) : LiveOwned s := by
  intro t live
  simp only [State.live, Bool.and_eq_true] at live
  exact ok.owner live.2

/- One round of the loops. -/

theorem listThreads_skip {s : State} {t : ThreadRef} (off : s.live t = false) (ts : List ThreadRef)
    (n ptr : Nat) : (listThreads (t :: ts) n ptr).run s = (listThreads ts n ptr).run s := by
  rw [listThreads, run_bind_ok (EStateM.run_get s), off, if_neg (by decide)]

theorem listThreads_first {s : State} {t : ThreadRef} (live : s.live t = true) (ts : List ThreadRef)
    (ptr : Nat) : (listThreads (t :: ts) 0 ptr).run s =
      (writeThreadId t ptr >>= listThreads ts 1).run s := by
  rw [listThreads, run_bind_ok (EStateM.run_get s), live, if_pos rfl, if_neg (by omega)]

theorem listThreads_next {s : State} {t : ThreadRef} (live : s.live t = true) (ts : List ThreadRef)
    (n ptr : Nat) : (listThreads (t :: ts) (n + 1) ptr).run s = (do
      put ptr (chr ',')
      let outPtr ← writeThreadId t (ptr + 1)
      listThreads ts (n + 2) outPtr).run s := by
  rw [listThreads, run_bind_ok (EStateM.run_get s), live, if_pos rfl, if_pos (by omega)]

theorem listOne_run {s : State} (owned : LiveOwned s) {t : ThreadRef} (live : s.live t = true)
    (text : List Byte) (fits : text.length + 7 < bufsize) :
    (do put text.length (chr ',')
        writeThreadId t (text.length + 1)).run (s.lay 0 text) =
      .ok (text.length + 7) (s.lay 0 (text ++ chr ',' :: threadIdText s t t.pd)) := by
  have id := writeThreadId_run t t.pd (text.length + 1)
    ((s.lay 0 text).withOutput (layText (s.lay 0 text).output text.length [chr ',']))
    (owned t live) (by omega)
  rw [run_bind_ok (put_run (by omega) _ _), id, lay_after (s.lay 0 text) [chr ','] _ (by simp),
    lay_append s text _ rfl]
  rfl

theorem listThreads_more {s : State} (owned : LiveOwned s) (ts : List ThreadRef) (n : Nat)
    (text : List Byte) (fits : text.length + 7 * (ts.filter s.live).length < bufsize) :
    (listThreads ts (n + 1) text.length).run (s.lay 0 text) =
      .ok () (s.lay 0 (text ++ idTexts s (ts.filter s.live))) := by
  induction ts generalizing n text with
  | nil =>
    simp only [idTexts, List.filter_nil, List.flatMap_nil, List.append_nil]
    rfl
  | cons t ts ih =>
    have start : (s.lay 0 text).live t = s.live t := rfl
    cases live : s.live t with
    | false =>
      rw [List.filter_cons_of_neg (by simp [live])] at fits ⊢
      rw [listThreads_skip (start.trans live)]
      exact ih n text fits
    | true =>
      rw [List.filter_cons_of_pos live, List.length_cons] at fits
      rw [List.filter_cons_of_pos live, listThreads_next (start.trans live)]
      have one := listOne_run owned live text (by omega)
      have next := ih (n + 1) (text ++ chr ',' :: threadIdText s t t.pd) (by
        simp only [List.length_append, List.length_cons, threadIdText_length]
        omega)
      simp only [List.length_append, List.length_cons, threadIdText_length, List.append_assoc,
        List.cons_append] at next
      have whole := run_bind_ok one fun outPtr => listThreads ts (n + 2) outPtr
      rw [bind_assoc] at whole
      rw [whole, next]
      rfl

theorem put_overflow {ptr : Nat} (beyond : bufsize ≤ ptr) (b : Byte) (s : State) :
    (put ptr b).run s = .error .outputOverflow s := by
  rw [put, if_neg (by omega)]
  rfl

theorem mem2hex_overflow (c : Byte) (buf : Nat) (beyond : bufsize ≤ buf + 2) (s : State) :
    ∃ u, (mem2hex [c] buf).run s = .error .outputOverflow u := by
  unfold mem2hex
  by_cases first : buf < bufsize
  · rw [run_bind_ok (put_run first _ s)]
    by_cases second : buf + 1 < bufsize
    · rw [run_bind_ok (put_run second _ _), mem2hex]
      exact ⟨_, run_bind_error (put_overflow beyond _ _) _⟩
    · exact ⟨_, run_bind_error (put_overflow (by omega) _ _) _⟩
  · exact ⟨_, run_bind_error (put_overflow (by omega) _ _) _⟩

theorem writeThreadId_overflow {s : State} {t : ThreadRef} {pd : Fin maxPds} (ptr : Nat)
    (owner : (s.thread t).inferior = some pd) (beyond : bufsize ≤ ptr + 6) :
    ∃ u, (writeThreadId t ptr).run s = .error .outputOverflow u := by
  unfold writeThreadId
  by_cases first : ptr < bufsize
  · rw [run_bind_ok (put_run first _ s), run_bind_ok (EStateM.run_get _),
      run_bind_ok (deref_run (by rw [withOutput_thread, owner]) _)]
    by_cases inferior : ptr + 3 < bufsize
    · rw [run_bind_ok (mem2hex_run _ _ _ (by simp; omega))]
      have dot : ptr + 1 + 2 * ([((s.inferiors pd).gdbId.setWidth 8 : Byte)]).length = ptr + 3 := by
        simp
      rw [withOutput_inferiors, dot, run_bind_ok (put_run inferior _ _)]
      exact mem2hex_overflow _ _ (by omega) _
    · obtain ⟨u, run⟩ := mem2hex_overflow ((s.inferiors pd).gdbId.setWidth 8) (ptr + 1)
        (by omega) (s.withOutput (layText s.output ptr [chr 'p']))
      exact ⟨u, run_bind_error run _⟩
  · exact ⟨_, run_bind_error (put_overflow (by omega) _ _) _⟩

theorem listThreads_overflow {s : State} (owned : LiveOwned s) (ts : List ThreadRef) (n : Nat)
    (text : List Byte) (here : text.length < bufsize)
    (beyond : bufsize ≤ text.length + 7 * (ts.filter s.live).length) :
    ∃ u, (listThreads ts (n + 1) text.length).run (s.lay 0 text) = .error .outputOverflow u := by
  induction ts generalizing n text with
  | nil =>
    simp only [List.filter_nil, List.length_nil] at beyond
    omega
  | cons t ts ih =>
    have start : (s.lay 0 text).live t = s.live t := rfl
    cases live : s.live t with
    | false =>
      rw [List.filter_cons_of_neg (by simp [live])] at beyond
      rw [listThreads_skip (start.trans live)]
      exact ih n text here beyond
    | true =>
      rw [List.filter_cons_of_pos live, List.length_cons] at beyond
      rw [listThreads_next (start.trans live)]
      by_cases room : text.length + 7 < bufsize
      · have one := listOne_run owned live text room
        obtain ⟨u, next⟩ := ih (n + 1) (text ++ chr ',' :: threadIdText s t t.pd)
          (by simp only [List.length_append, List.length_cons, threadIdText_length]; omega)
          (by simp only [List.length_append, List.length_cons, threadIdText_length]; omega)
        simp only [List.length_append, List.length_cons, threadIdText_length] at next
        have whole := run_bind_ok one fun outPtr => listThreads ts (n + 2) outPtr
        rw [bind_assoc] at whole
        exact ⟨u, whole.trans next⟩
      · rw [run_bind_ok (put_run here _ _)]
        obtain ⟨u, run⟩ := writeThreadId_overflow (t := t)
          (s := (s.lay 0 text).withOutput (layText (s.lay 0 text).output text.length [chr ',']))
          (text.length + 1) (owned t live) (by omega)
        exact ⟨u, run_bind_error run _⟩

/-- The loops from the `m` on, when there are threads: the text when it fits, a write past the
    buffer when it does not. -/
theorem listThreads_run {s : State} (owned : LiveOwned s) (ts : List ThreadRef)
    (some : ts.filter s.live ≠ []) :
    let begun := s.withOutput (layText s.output 0 [chr 'm'])
    if 7 * (ts.filter s.live).length < bufsize then
      (listThreads ts 0 1).run begun =
        .ok () (s.lay 0 (chr 'm' :: (idTexts s (ts.filter s.live)).tail))
    else ∃ u, (listThreads ts 0 1).run begun = .error .outputOverflow u := by
  intro begun
  induction ts with
  | nil => exact absurd rfl some
  | cons t ts ih =>
    have start : begun.live t = s.live t := rfl
    cases live : s.live t with
    | false =>
      rw [List.filter_cons_of_neg (by simp [live])] at some ⊢
      rw [listThreads_skip (start.trans live)]
      exact ih some
    | true =>
      have first : (writeThreadId t 1).run begun =
          .ok 7 (s.lay 0 (chr 'm' :: threadIdText s t t.pd)) := by
        rw [writeThreadId_run t t.pd 1 begun (owned t live) (by decide),
          lay_after s [chr 'm'] _ (by simp)]
        rfl
      have length : (chr 'm' :: threadIdText s t t.pd).length = 7 := by simp
      have whole : (idTexts s (t :: ts.filter s.live)).tail =
        threadIdText s t t.pd ++ idTexts s (ts.filter s.live) := rfl
      rw [List.filter_cons_of_pos live, listThreads_first (start.trans live), run_bind_ok first,
        List.length_cons, whole]
      split
      · have more := listThreads_more owned ts 0 (chr 'm' :: threadIdText s t t.pd)
          (by rw [length]; omega)
        rw [length] at more
        exact more
      · have more := listThreads_overflow owned ts 0 (chr 'm' :: threadIdText s t t.pd)
          (by rw [length]; decide) (by rw [length]; omega)
        rw [length] at more
        exact more

theorem listThreads_none {s : State} (ts : List ThreadRef) (none : ts.filter s.live = [])
    (n ptr : Nat) : (listThreads ts n ptr).run s = .ok () s := by
  induction ts with
  | nil => rfl
  | cons t ts ih =>
    have all := List.filter_eq_nil_iff.mp none
    rw [listThreads_skip (by simpa using all t List.mem_cons_self)]
    exact ih (List.filter_eq_nil_iff.mpr fun r mem => all r (List.mem_cons_of_mem _ mem))

theorem listing_dispatch {input : List Byte} (lists : ListsThreads input) (s : State) :
    (gdbHandlePacket input).run s = (do
      listThreads threadRefs 0 1
      return false : Stub Bool).run
        ((s.lay 0 []).withOutput (layText (s.lay 0 []).output 0 [chr 'm'])) := by
  obtain ⟨rest, rfl⟩ := lists
  have supported : (textIs (str "qfThreadInfo" ++ rest) "qSupported" 10).run (s.lay 0 []) =
    .ok false (s.lay 0 []) := rfl
  have asked : (textIs (str "qfThreadInfo" ++ rest) "qfThreadInfo" 12).run (s.lay 0 []) =
      .ok true (s.lay 0 []) := by
    have equal : strncmp (str "qfThreadInfo" ++ rest) (str "qfThreadInfo" ++ [0]) 12 = .ok 0 :=
      strncmp_of_prefix (by decide) rest
    unfold textIs
    rw [run_bind_ok (liftParse_run equal _)]
    rfl
  have query : (handleQuery (str "qfThreadInfo" ++ rest)).run (s.lay 0 []) =
      (listThreads threadRefs 0 1).run
        ((s.lay 0 []).withOutput (layText (s.lay 0 []).output 0 [chr 'm'])) := by
    unfold handleQuery
    rw [run_bind_ok supported, if_neg (by decide), run_bind_ok asked, if_pos rfl,
      run_bind_ok (put_run (by decide) _ _)]
  have head : gdbHandlePacket (str "qfThreadInfo" ++ rest) = (do
    put 0 0
    handleQuery (str "qfThreadInfo" ++ rest)
    return false) := rfl
  rw [head, run_bind_ok (put_zero_run (by decide) s), EStateM.run_bind, query, ← EStateM.run_bind]

section
variable {s : State} {input : List Byte} (lists : ListsThreads input)
include lists

theorem listing_none (none : liveThreads s = []) : (gdbHandlePacket input).run s =
    .ok false ((s.lay 0 []).withOutput (layText (s.lay 0 []).output 0 [chr 'm'])) := by
  have quiet := listThreads_none
    (s := (s.lay 0 []).withOutput (layText (s.lay 0 []).output 0 [chr 'm'])) threadRefs none 0 1
  rw [listing_dispatch lists, run_bind_ok quiet]
  rfl

theorem listing_fits (owned : LiveOwned s) (some : liveThreads s ≠ [])
    (fits : 7 * (liveThreads s).length < bufsize) :
    (gdbHandlePacket input).run s = .ok false (s.lay 0 (threadListText s)) := by
  have run := listThreads_run (s := s.lay 0 []) owned threadRefs some
  dsimp only at run
  rw [if_pos (show 7 * (threadRefs.filter (s.lay 0 []).live).length < bufsize from fits)] at run
  rw [listing_dispatch lists, run_bind_ok run]
  exact congrArg (EStateM.Result.ok false) (lay_continue s [] (threadListText s) rfl)

theorem listing_overflow (owned : LiveOwned s) (many : ¬ 7 * (liveThreads s).length < bufsize) :
    ∃ u, (gdbHandlePacket input).run s = .error .outputOverflow u := by
  have some : liveThreads s ≠ [] := by
    intro none
    rw [none] at many
    exact many (by decide)
  have run := listThreads_run (s := s.lay 0 []) owned threadRefs some
  dsimp only at run
  rw [if_neg (show ¬ 7 * (threadRefs.filter (s.lay 0 []).live).length < bufsize from many)] at run
  obtain ⟨u, run⟩ := run
  exact ⟨u, by rw [listing_dispatch lists, run_bind_error run]⟩

/-- Without threads the reply goes on with what stood behind the first byte of the buffer. -/
theorem listing_none_reply (none : liveThreads s = []) (stale : List Byte)
    (nonzero : ∀ c ∈ stale, c ≠ 0) (fits : stale.length + 1 < bufsize) :
    ∃ t, (gdbHandlePacket input).run (s.lay 1 stale) = .ok false t ∧
      t.reply = chr 'm' :: stale := by
  have text : layText ((s.lay 1 stale).lay 0 []).output 0 [chr 'm'] =
      layText s.output 0 ((chr 'm' :: stale) ++ [0]) := by
    funext k
    rcases k with _ | k
    · rfl
    · have inside : k + 1 < 1 + (stale.length + 1) ↔ k ≤ stale.length := by omega
      simp [layText, inside]
  have whole : ((s.lay 1 stale).lay 0 []).withOutput
      (layText ((s.lay 1 stale).lay 0 []).output 0 [chr 'm']) = s.lay 0 (chr 'm' :: stale) := by
    rw [text]
    rfl
  refine ⟨_, listing_none lists (s := s.lay 1 stale) none, ?_⟩
  rw [whole]
  refine lay_reply s _ ?_ fits
  intro c mem
  rcases List.mem_cons.mp mem with rfl | mem
  · decide
  · exact nonzero c mem

end
theorem threadListText_reply {s : State} (some : liveThreads s ≠ [])
    (fits : 7 * (liveThreads s).length < bufsize) (o : Nat → Byte) :
    ((s.withOutput o).lay 0 (threadListText s)).reply = threadListText s := by
  refine lay_reply _ _ ?_ ?_
  · intro c mem
    rcases List.mem_cons.mp mem with rfl | mem
    · decide
    · exact idTexts_ne_zero s _ c (List.mem_of_mem_tail mem)
  · have length := idTexts_length s (liveThreads s)
    have some := List.length_pos_of_ne_nil some
    simp only [threadListText, List.length_cons, List.length_tail]
    omega

/- Two runs of one packet. -/

/-- Whatever the buffer holds before, the packet returns the same and leaves the same reply, or
    stops at the same fault. -/
def RepliesAlike (s : State) (input : List Byte) : Prop :=
  ∀ o o', (∃ b t t', (gdbHandlePacket input).run (s.withOutput o) = .ok b t ∧
      (gdbHandlePacket input).run (s.withOutput o') = .ok b t' ∧ t.reply = t'.reply) ∨
    ∃ e t t', (gdbHandlePacket input).run (s.withOutput o) = .error e t ∧
      (gdbHandlePacket input).run (s.withOutput o') = .error e t'

theorem not_alike_of_empty {s : State} {input : List Byte} (lists : ListsThreads input)
    (none : liveThreads s = []) : ¬ RepliesAlike s input := by
  intro alike
  obtain ⟨t, run, reply⟩ := listing_none_reply lists none [] (by simp) (by decide)
  obtain ⟨t', run', reply'⟩ := listing_none_reply lists none [chr 'x'] (by decide) (by decide)
  unfold State.lay at run run'
  rcases alike (layText s.output 1 ([] ++ [0])) (layText s.output 1 ([chr 'x'] ++ [0])) with
    ⟨b, u, u', first, second, same⟩ | ⟨e, u, u', first, _⟩
  · rw [run] at first
    rw [run'] at second
    cases first
    cases second
    rw [reply, reply'] at same
    exact absurd same (by decide)
  · rw [run] at first
    cases first

/-- Only the packet for the thread list, and only without threads, answers with what an earlier
    reply left in the buffer. -/
theorem replies_alike_iff {s : State} (reachable : Reachable s) (input : List Byte) :
    RepliesAlike s input ↔ ¬ (ListsThreads input ∧ liveThreads s = []) := by
  have owned := liveOwned_of_ok (reachable_ok reachable)
  by_cases lists : ListsThreads input
  · by_cases none : liveThreads s = []
    · exact iff_of_false (not_alike_of_empty lists none) fun h => h ⟨lists, none⟩
    · refine iff_of_true (fun o o' => ?_) fun h => none h.2
      by_cases fits : 7 * (liveThreads s).length < bufsize
      · exact Or.inl ⟨false, _, _, listing_fits (s := s.withOutput o) lists owned none fits,
          listing_fits (s := s.withOutput o') lists owned none fits,
          (threadListText_reply none fits o).trans (threadListText_reply none fits o').symm⟩
      · obtain ⟨u, run⟩ := listing_overflow (s := s.withOutput o) lists owned fits
        obtain ⟨u', run'⟩ := listing_overflow (s := s.withOutput o') lists owned fits
        exact Or.inr ⟨_, u, u', run, run'⟩
  · refine iff_of_true (fun o o' => ?_) fun h => lists h.1
    rcases lockstep_outcome (packet_lockstep lists) s o o' trivial with
      ⟨b, t, q, q', run, run', same⟩ | ⟨e, t, q, q', _, run, run'⟩
    · exact Or.inl ⟨b, _, _, run, run', sameText_cstring same⟩
    · exact Or.inr ⟨e, _, _, run, run'⟩

omit [Machine] in
theorem solo_replies_alike : letI := obligingBoard
    RepliesAlike soloState (str "qfThreadInfo" ++ [0]) := by
  let _ := obligingBoard
  refine (replies_alike_iff solo_registered.reachable _).mpr fun h => ?_
  have listed : (⟨0, 0⟩ : ThreadRef) ∈ liveThreads soloState :=
    List.mem_filter.mpr ⟨mem_threadRefs _, rfl⟩
  rw [h.2] at listed
  cases listed

omit [Machine] in
/-- Before any registration the list is an `m` followed by what the buffer held. -/
theorem empty_list_not_alike : letI := obligingBoard
    ¬ ∀ s, Reachable s → ∀ input, RepliesAlike s input := by
  let _ := obligingBoard
  intro all
  have none : liveThreads blankState = [] := List.filter_eq_nil_iff.mpr fun t _ on => by cases on
  exact not_alike_of_empty ⟨[0], rfl⟩ none
    (all blankState (.boot _ _) (str "qfThreadInfo" ++ [0]))

/- The end of the buffer. -/

/- Registries by shape. -/

theorem crowd_live {k : Nat} {sizes : Fin maxPds → Nat} {s : State} (crowd : Crowd k sizes s)
    (unused : ∀ pd, k ≤ pd.val → sizes pd = 0) (pd : Fin maxPds) (slot : Fin maxThreads) :
    s.live ⟨pd, slot⟩ = decide (slot.val < sizes pd) := by
  have core : (s.thread ⟨pd, slot⟩).enabled = ((s.inferiors pd).core.threads slot).enabled := rfl
  rw [State.live, crowd.enabled, core, crowd.inferiors]
  by_cases registered : pd.val < k
  · by_cases seated : slot.val < sizes pd
    · simp [registered, crowdInferior, seated, crowdThread]
    · simp [registered, crowdInferior, seated, Thread.zero]
  · simp [registered, unused pd (by omega)]

theorem crowd_count {k : Nat} {sizes : Fin maxPds → Nat} {s : State} (crowd : Crowd k sizes s)
    (unused : ∀ pd, k ≤ pd.val → sizes pd = 0) (room : ∀ pd, sizes pd ≤ maxThreads) :
    (liveThreads s).length = ∑ pd, sizes pd := by
  have row (pd : Fin maxPds) :
      ((List.finRange maxThreads).filter fun slot => s.live ⟨pd, slot⟩).length = sizes pd := by
    simp only [crowd_live crowd unused]
    have count : (Finset.univ.filter fun slot : Fin maxThreads => slot.val < sizes pd).card =
        sizes pd := by
      rw [Fin.card_filter_val_lt, Nat.min_eq_right (room pd)]
    exact count
  rw [liveThreads, threadRefs, List.filter_flatMap, List.length_flatMap, Fin.sum_univ_def]
  simp only [List.filter_map, List.length_map, Function.comp_def, row]

/-- Two inferiors with as many threads each. -/
def pairSizes (n : Nat) (pd : Fin maxPds) : Nat := if pd.val < 2 then n else 0

omit [Machine] in
theorem pair_crowds : letI := obligingBoard
    ∀ n ≤ maxThreads, ∃ s, Reachable s ∧ Crowd 2 (pairSizes n) s ∧
    (liveThreads s).length = 2 * n := by
  let _ := obligingBoard
  intro n few
  have unused : ∀ pd : Fin maxPds, 2 ≤ pd.val → pairSizes n pd = 0 := fun pd le => if_neg (by omega)
  have room : ∀ pd, pairSizes n pd ≤ maxThreads := by
    intro pd
    unfold pairSizes
    split
    · exact few
    · exact Nat.zero_le _
  obtain ⟨s, registered, crowd⟩ :=
    crowd_registered (fun _ => 0) blankKernel 2 (by decide) (pairSizes n) unused room
  refine ⟨s, registered.reachable, crowd, ?_⟩
  rw [crowd_count crowd unused room]
  unfold pairSizes
  rw [← Finset.sum_filter, Finset.sum_const, Fin.card_filter_val_lt]
  rfl

/- Inside the buffer. -/

/-- From `s` the program writes to the reply buffer only inside its bounds. -/
def StaysInside {α : Type} (m : Stub α) (s : State) : Prop :=
  ∀ u, m.run s ≠ .error .outputOverflow u

theorem inside_of_ok {α : Type} {m : Stub α} {s t : State} {a : α} (run : m.run s = .ok a t) :
    StaysInside m s := by
  intro u bad
  rw [run] at bad
  cases bad

theorem inside_map {α β : Type} {m : Stub α} {s : State} (inside : StaysInside m s) (f : α → β) :
    StaysInside (m >>= fun a => pure (f a)) s := by
  intro u bad
  cases run : m.run s with
  | ok a t =>
    rw [run_bind_ok run] at bad
    cases bad
  | error e t =>
    rw [run_bind_error run] at bad
    cases bad
    exact inside u run

theorem inside_of_lockstep {α : Type} {m : Stub α} {B : α → (Nat → Byte) → (Nat → Byte) → Prop}
    (h : Writes (fun _ _ => True) m B) (s : State) : StaysInside m s := by
  intro u bad
  rcases lockstep_outcome h s s.output s.output trivial with
    ⟨a, t, q, _, run, _⟩ | ⟨e, t, q, _, good, run, _⟩
  · rw [show m.run s = _ from run] at bad
    cases bad
  · rw [show m.run s = _ from run] at bad
    cases bad
    exact good rfl

theorem registerInferior_inside (s : State) (inferiorId vspace : Word) :
    StaysInside (gdbRegisterInferior inferiorId vspace) s := by
  intro u run
  unfold gdbRegisterInferior at run
  rw [run_bind_ok (EStateM.run_get s)] at run
  cases lookup : lookupInferiorFromId s inferiorId with
  | some pd =>
    rw [lookup] at run
    dsimp only at run
    split at run <;> cases run
  | none =>
    rw [lookup] at run
    dsimp only at run
    split at run
    · cases run
    · split at run <;> cases run

theorem registerThread_inside {s : State} (owned : TargetOwned s) (inferiorId threadId tcb : Word) :
    StaysInside (gdbRegisterThread inferiorId threadId tcb) s := by
  intro u run
  unfold gdbRegisterThread at run
  rw [run_bind_ok (EStateM.run_get s)] at run
  cases lookup : lookupInferiorFromId s inferiorId with
  | none =>
    rw [lookup] at run
    cases run
  | some pd =>
    rw [lookup] at run
    dsimp only at run
    cases found : lookupThreadFromId (s.inferiors pd) threadId with
    | some slot =>
      rw [found] at run
      dsimp only at run
      split at run <;> cases run
    | none =>
      rw [found] at run
      dsimp only at run
      split at run
      · cases run
      · split at run
        · cases run
        · rename_i idx slot _
          obtain ⟨v, returns, _⟩ := introduceThread_returns
            (withThread_owner s pd idx slot threadId tcb)
            (targetOwned_withThread owned pd idx slot threadId tcb)
          exact inside_of_ok returns u run

theorem threadExit_inside {s : State} (ok : RegistryOk s) (inferiorId threadId : Word) :
    StaysInside (gdbThreadExit inferiorId threadId) s := by
  rcases gdbThreadExit_cases s inferiorId threadId with ⟨_, missing⟩ | ⟨pd, slot, _, found, run⟩
  · intro u run
    unfold gdbThreadExit at run
    rw [run_bind_ok (EStateM.run_get s)] at run
    cases lookup : lookupInferiorFromId s inferiorId with
    | none =>
      rw [lookup] at run
      cases run
    | some pd =>
      rw [lookup] at run
      dsimp only at run
      cases found : lookupThreadFromId (s.inferiors pd) threadId with
      | none =>
        rw [found] at run
        cases run
      | some slot => exact missing pd slot lookup found
  · have owner := ok.owner (t := ⟨pd, slot⟩) (lookupThreadFromId_some found).1
    let off : Thread := { s.thread ⟨pd, slot⟩ with enabled := false }
    have owner' : ((s.setThread ⟨pd, slot⟩ off).thread ⟨pd, slot⟩).inferior = some pd := by
      rw [setThread_thread]
      exact owner
    exact inside_of_ok (run.trans (announceExit_run owner'))

theorem fault_inside {s : State} (ok : RegistryOk s) (inferiorId threadId : Word)
    (message : FaultMessage) : StaysInside (gdbHandleFault inferiorId threadId message) s := by
  have owned (pd : Fin maxPds) (slot : Fin maxThreads)
      (found : lookupThreadFromId (s.inferiors pd) threadId = some slot) :
      (s.thread ⟨pd, slot⟩).inferior = some pd :=
        ok.owner (t := ⟨pd, slot⟩) (lookupThreadFromId_some found).1
  have exception (pd : Fin maxPds) (slot : Fin maxThreads)
      (owner : (s.thread ⟨pd, slot⟩).inferior = some pd)
      (reason : ExceptionReason) (triggerAddress bpNum : Word) :
      StaysInside (handleDebugException ⟨pd, slot⟩ reason triggerAddress bpNum) s := by
    have stop (reason : ExceptionReason) :
        StaysInside (handleSsHwbreakSwbreakException ⟨pd, slot⟩ reason) s :=
      inside_of_ok (handleSsHwbreakSwbreakException_run owner reason)
    cases reason with
    | instructionBreakpoint => exact inside_map (stop _) fun _ => true
    | singleStep => exact inside_map (stop _) fun _ => true
    | softwareBreakRequest => exact inside_map (stop _) fun _ => true
    | other => exact inside_of_ok rfl
    | dataBreakpoint =>
      refine inside_map ?_ fun _ => true
      have run := handleWatchpointException_run owner bpNum triggerAddress
      intro u bad
      rw [run] at bad
      split at bad <;> cases bad
  intro u run
  unfold gdbHandleFault at run
  rw [run_bind_ok (EStateM.run_get s)] at run
  cases lookup : lookupInferiorFromId s inferiorId with
  | none =>
    rw [lookup] at run
    cases run
  | some pd =>
    rw [lookup] at run
    dsimp only at run
    cases found : lookupThreadFromId (s.inferiors pd) threadId with
    | none =>
      rw [found] at run
      cases run
    | some slot =>
      rw [found] at run
      have owner := owned pd slot found
      cases message with
      | debugException reason triggerAddress bpNum =>
        exact inside_map (exception pd slot owner reason triggerAddress bpNum)
          (fun haveReply => (DebuggerError.noError, some haveReply)) u run
      | other =>
        exact inside_map (inside_of_ok (handleFault_run owner))
          (fun haveReply => (DebuggerError.noError, some haveReply)) u run

/-- A call runs past the end of the reply buffer exactly when it lists too many threads. -/
theorem stays_inside_iff {s : State} (reachable : Reachable s) (e : Event) :
    StaysInside e.run s ↔
      ∀ input, e = .packet input → ListsThreads input → (liveThreads s).length ≤ 292 := by
  have ok := reachable_ok reachable
  have owned := reachable_targetOwned reachable
  cases e with
  | registerInferior inferiorId vspace =>
    exact iff_of_true (inside_map (registerInferior_inside s inferiorId vspace) fun _ => ())
      fun _ eq => by cases eq
  | registerThread inferiorId threadId tcb =>
    exact iff_of_true (inside_map (registerThread_inside owned inferiorId threadId tcb) fun _ => ())
      fun _ eq => by cases eq
  | threadExit inferiorId threadId =>
    exact iff_of_true (inside_map (threadExit_inside ok inferiorId threadId) fun _ => ())
      fun _ eq => by cases eq
  | fault inferiorId threadId message =>
    exact iff_of_true (inside_map (fault_inside ok inferiorId threadId message) fun _ => ())
      fun _ eq => by cases eq
  | suspend =>
    refine iff_of_true ?_ fun _ eq => by cases eq
    exact inside_of_lockstep (lockstep_of_blind (m := suspendSystem) quiet_suspendSystem) s
  | resume =>
    refine iff_of_true ?_ fun _ eq => by cases eq
    exact inside_of_lockstep (lockstep_of_blind (m := resumeSystem) quiet_resumeSystem) s
  | packet input =>
    by_cases lists : ListsThreads input
    · have live := liveOwned_of_ok ok
      constructor
      · intro inside input' eq _
        cases eq
        by_contra many
        obtain ⟨u, run⟩ := listing_overflow lists live
          (show ¬ 7 * (liveThreads s).length < bufsize by simp only [bufsize]; omega)
        exact inside u (run_bind_error run _)
      · intro few
        have fits := few input rfl lists
        refine inside_map ?_ fun _ => ()
        by_cases none : liveThreads s = []
        · exact inside_of_ok (listing_none lists none)
        · exact inside_of_ok (listing_fits lists live none (by simp only [bufsize]; omega))
    · refine iff_of_true (inside_map (inside_of_lockstep (packet_lockstep lists) s) fun _ => ()) ?_
      intro input' eq lists'
      cases eq
      exact absurd lists' lists

omit [Machine] in
/-- The longest list that fits. -/
theorem full_list_inside : letI := obligingBoard
    ∃ s, Reachable s ∧ (liveThreads s).length = 292 ∧
      StaysInside (Event.packet (str "qfThreadInfo" ++ [0])).run s := by
  let _ := obligingBoard
  obtain ⟨s, reachable, _, count⟩ := pair_crowds 146 (by decide)
  exact ⟨s, reachable, count, (stays_inside_iff reachable _).mpr fun _ _ _ => count.le⟩

omit [Machine] in
/-- Two inferiors with 256 threads each: the list would take 3584 characters. -/
theorem long_list_overflows : letI := obligingBoard
    ¬ ∀ s, Reachable s → ∀ e : Event, StaysInside e.run s := by
  let _ := obligingBoard
  intro all
  obtain ⟨s, reachable, _, count⟩ := pair_crowds 256 le_rfl
  have long : ¬ 7 * (liveThreads s).length < bufsize := by
    rw [count]
    decide
  obtain ⟨u, run⟩ := listing_overflow (⟨[0], rfl⟩ : ListsThreads (str "qfThreadInfo" ++ [0]))
    (liveOwned_of_ok (reachable_ok reachable)) long
  exact all s reachable (.packet (str "qfThreadInfo" ++ [0])) u (run_bind_error run _)

end Libgdb
