import Libgdb.Library.CheckedPrograms
import Libgdb.HexText

/-!
The reply buffer as text: every writer of the stub lays a text into the buffer at a known
place when it fits, and the reply is what stands before the first NUL.
-/
namespace Libgdb
open ByteMemory CheckedPrograms

def layText (output : Nat → Byte) (dest : Nat) (text : List Byte) : Nat → Byte := fun k =>
  if dest ≤ k ∧ k < dest + text.length then text.getD (k - dest) 0 else output k

theorem layText_nil (output : Nat → Byte) (dest : Nat) : layText output dest [] = output := by
  funext k
  simp only [layText, List.length_nil]
  rw [if_neg (by omega)]

theorem layText_single (output : Nat → Byte) (dest : Nat) (b : Byte) :
    layText output dest [b] = Function.update output dest b := by
  funext k
  by_cases here : k = dest
  · subst here
    simp [layText]
  · rw [Function.update_of_ne here, layText, List.length_singleton, if_neg (by omega)]

theorem layText_append (output : Nat → Byte) {dest next : Nat} (first second : List Byte)
    (follows : next = dest + first.length) :
    layText (layText output dest first) next second = layText output dest (first ++ second) := by
  subst follows
  funext k
  simp only [layText, List.length_append]
  by_cases low : k < dest
  · rw [if_neg (by omega), if_neg (by omega), if_neg (by omega)]
  · by_cases inFirst : k < dest + first.length
    · rw [if_neg (by omega), if_pos (by omega), if_pos (by omega),
        List.getD_append _ _ _ _ (by omega)]
    · by_cases inSecond : k < dest + first.length + second.length
      · rw [if_pos (by omega), if_pos (by omega), List.getD_append_right _ _ _ _ (by omega)]
        congr 1
        omega
      · rw [if_neg (by omega), if_neg (by omega), if_neg (by omega)]

/-- A second text that starts on the NUL of the first continues it. -/
theorem layText_continue (output : Nat → Byte) {dest next : Nat} (first second : List Byte)
    (nonempty : second ≠ []) (follows : next = dest + first.length) :
    layText (layText output dest (first ++ [0])) next second =
      layText output dest (first ++ second) := by
  subst follows
  have pos := List.length_pos_iff.mpr nonempty
  rw [← layText_append output first second rfl, ← layText_append output first [0] rfl]
  funext k
  by_cases here : k = dest + first.length
  · subst here
    simp only [layText]
    rw [if_pos (by omega), if_pos (by omega)]
  · simp only [layText, List.length_singleton]
    by_cases inside : dest + first.length ≤ k ∧ k < dest + first.length + second.length
    · rw [if_pos inside, if_pos inside]
    · rw [if_neg inside, if_neg (by omega), if_neg inside]

theorem layText_zero (output : Nat → Byte) (text : List Byte) (b : Byte) (k : Nat)
    (lt : k < text.length) : layText output 0 (text ++ [b]) k = text.getD k 0 := by
  simp only [layText, List.length_append, List.length_singleton]
  rw [if_pos (by omega), Nat.sub_zero, List.getD_append _ _ _ _ lt]

theorem strnlen_text (s : Nat → Byte) (text : List Byte) (max : Nat)
    (nonzero : ∀ c ∈ text, c ≠ 0) (fits : text.length < max)
    (here : ∀ k < text.length, s k = text.getD k 0) (ends : s text.length = 0) :
    strnlen s max = text.length := by
  induction text generalizing s max with
  | nil =>
    cases max with
    | zero => simp at fits
    | succ max => simp_all [strnlen]
  | cons c text ih =>
    cases max with
    | zero => simp at fits
    | succ max =>
      have first : s 0 = c := here 0 (by simp)
      have rest := ih (fun i => s (i + 1)) max (fun d mem => nonzero d (by simp [mem]))
        (by simpa using fits) (fun k lt => here (k + 1) (by simpa using lt)) ends
      rw [strnlen, if_neg (by rw [first]; exact nonzero c (by simp)), rest, List.length_cons]

theorem cstring_text (s : Nat → Byte) (text : List Byte) (max : Nat)
    (nonzero : ∀ c ∈ text, c ≠ 0) (fits : text.length < max)
    (here : ∀ k < text.length, s k = text.getD k 0) (ends : s text.length = 0) :
    cstring s max = text := by
  induction text generalizing s max with
  | nil =>
    cases max with
    | zero => simp at fits
    | succ max => simp_all [cstring]
  | cons c text ih =>
    cases max with
    | zero => simp at fits
    | succ max =>
      have first : s 0 = c := here 0 (by simp)
      have rest := ih (fun i => s (i + 1)) max (fun d mem => nonzero d (by simp [mem]))
        (by simpa using fits) (fun k lt => here (k + 1) (by simpa using lt)) ends
      rw [cstring, if_neg (by rw [first]; exact nonzero c (by simp)), rest, first]

theorem layText_ends (output : Nat → Byte) (text : List Byte) :
    layText output 0 (text ++ [0]) text.length = 0 := by
  simp [layText]

section
variable [Machine]

/-- The reply a caller sends: the text in the buffer. -/
def State.reply (s : State) : List Byte := cstring s.output bufsize

def State.lay (s : State) (dest : Nat) (text : List Byte) : State :=
  s.withOutput (layText s.output dest (text ++ [0]))

@[simp] theorem lay_kernel (s : State) (dest : Nat) (text : List Byte) :
    (s.lay dest text).kernel = s.kernel := rfl
@[simp] theorem lay_inferiors (s : State) (dest : Nat) (text : List Byte) :
    (s.lay dest text).inferiors = s.inferiors := rfl
@[simp] theorem lay_targetThread (s : State) (dest : Nat) (text : List Byte) :
    (s.lay dest text).targetThread = s.targetThread := rfl
@[simp] theorem lay_output (s : State) (dest : Nat) (text : List Byte) :
    (s.lay dest text).output = layText s.output dest (text ++ [0]) := rfl
@[simp] theorem lay_thread (s : State) (dest : Nat) (text : List Byte) (t : ThreadRef) :
    (s.lay dest text).thread t = s.thread t := rfl

theorem lay_continue (s : State) {dest next : Nat} (first second : List Byte)
    (follows : next = dest + first.length) :
    (s.lay dest first).lay next second = s.lay dest (first ++ second) := by
  simp only [State.lay, withOutput_output, withOutput_withOutput]
  rw [layText_continue _ _ _ (by simp) follows, List.append_assoc]

theorem lay_after (s : State) {dest next : Nat} (first second : List Byte)
    (follows : next = dest + first.length) :
    (s.withOutput (layText s.output dest first)).lay next second = s.lay dest
    (first ++ second) := by
  simp only [State.lay, withOutput_output, withOutput_withOutput]
  rw [layText_append _ _ _ follows, List.append_assoc]

theorem lay_reply (s : State) (text : List Byte) (nonzero : ∀ c ∈ text, c ≠ 0)
    (fits : text.length < bufsize) : (s.lay 0 text).reply = text :=
  cstring_text _ text _ nonzero fits (fun k lt => layText_zero _ _ _ k lt) (layText_ends _ _)

theorem put_run {ptr : Nat} (fits : ptr < bufsize) (b : Byte) (s : State) :
    (put ptr b).run s = .ok () (s.withOutput (layText s.output ptr [b])) := by
  rw [layText_single, put, if_pos fits]
  rfl

theorem put_zero_run {ptr : Nat} (fits : ptr < bufsize) (s : State) :
    (put ptr 0).run s = .ok () (s.lay ptr []) := put_run fits 0 s

theorem strlcpyFrom_run (dest len size : Nat) (src : List Byte) (s : State)
    (whole : len + src.length < size) (fits : dest + len + src.length < bufsize) :
    (strlcpyFrom dest len size src).run s = .ok () (s.lay (dest + len) src) := by
  induction src generalizing len s with
  | nil => exact put_zero_run fits s
  | cons b src ih =>
    simp only [List.length_cons] at whole fits
    rw [strlcpyFrom, if_pos (by omega), run_bind_ok (put_run (by omega) b s),
      ih (len + 1) _ (by omega) (by omega)]
    rw [lay_after _ _ _ (by rfl)]
    rfl

theorem strlcpy_run (dest : Nat) (src : List Byte) (size : Nat) (s : State)
    (whole : src.length < size) (fits : dest + src.length < bufsize) :
    (strlcpy dest src size).run s = .ok () (s.lay dest src) := by
  have run := strlcpyFrom_run dest 0 size src s (by omega) (by omega)
  rwa [Nat.add_zero] at run

theorem outputLen_run (s : State) (text : List Byte) (nonzero : ∀ c ∈ text, c ≠ 0)
    (fits : text.length < bufsize) :
    outputLen.run (s.lay 0 text) = .ok text.length (s.lay 0 text) := by
  have len : strnlen (s.lay 0 text).output bufsize = text.length :=
    strnlen_text _ text _ nonzero fits (fun k lt => layText_zero _ _ _ k lt) (layText_ends _ _)
  rw [outputLen, run_bind_ok (EStateM.run_get _), len]
  rfl

theorem mem2hex_run (mem : List Byte) (buf : Nat) (s : State)
    (fits : buf + 2 * mem.length < bufsize) :
    (mem2hex mem buf).run s = .ok (buf + 2 * mem.length) (s.lay buf (hexDigits mem)) := by
  induction mem generalizing buf s with
  | nil =>
    rw [mem2hex, run_bind_ok (put_zero_run (by simpa using fits) s)]
    rfl
  | cons c mem ih =>
    simp only [List.length_cons] at fits
    rw [mem2hex, run_bind_ok (put_run (by omega) _ s), run_bind_ok (put_run (by omega) _ _),
      ih _ _ (by omega)]
    rw [withOutput_output, withOutput_withOutput, layText_append _ _ _ (by rfl),
      lay_after _ _ _ (by rfl),
      show buf + 2 + 2 * mem.length = buf + 2 * (mem.length + 1) by omega]
    rfl

def threadIdText (s : State) (t : ThreadRef) (pd : Fin maxPds) : List Byte :=
  chr 'p' :: hexDigits [(s.inferiors pd).gdbId.setWidth 8] ++
    chr '.' :: hexDigits [(s.thread t).gdbId.setWidth 8]

@[simp] theorem threadIdText_length (s : State) (t : ThreadRef) (pd : Fin maxPds) :
    (threadIdText s t pd).length = 6 := by
  simp [threadIdText]

theorem threadIdText_ne_zero (s : State) (t : ThreadRef) (pd : Fin maxPds) :
    ∀ c ∈ threadIdText s t pd, c ≠ 0 := by
  intro c mem
  simp only [threadIdText, List.mem_append, List.mem_cons] at mem
  rcases mem with (rfl | mem) | rfl | mem
  · decide
  · exact hexDigits_ne_zero _ c mem
  · decide
  · exact hexDigits_ne_zero _ c mem

theorem writeThreadId_run (t : ThreadRef) (pd : Fin maxPds) (ptr : Nat) (s : State)
    (owner : (s.thread t).inferior = some pd) (fits : ptr + 6 < bufsize) :
    (writeThreadId t ptr).run s = .ok (ptr + 6) (s.lay ptr (threadIdText s t pd)) := by
  have fill (a b : Byte) (u : State) : (((u.lay (ptr + 1) (hexDigits [a])).withOutput
      (layText (u.lay (ptr + 1) (hexDigits [a])).output (ptr + 3) [chr '.'])).lay (ptr + 4)
      (hexDigits [b])) = u.lay (ptr + 1) (hexDigits [a] ++ chr '.' :: hexDigits [b]) := by
    rw [lay_after _ [chr '.'] _ (by rfl), lay_continue _ _ _ (by simp)]
    rfl
  unfold writeThreadId
  rw [run_bind_ok (put_run (by omega) _ s), run_bind_ok (EStateM.run_get _),
    run_bind_ok (deref_run (by rw [withOutput_thread, owner]) _),
    run_bind_ok (mem2hex_run _ _ _ (by simp; omega)), run_bind_ok (put_run (by simp; omega) _ _),
    mem2hex_run _ _ _ (by simp; omega)]
  simp only [List.length_singleton, Nat.mul_one, Nat.add_assoc, Nat.reduceAdd]
  rw [fill, lay_after _ [chr 'p'] _ (by rfl)]
  rfl

end
end Libgdb
