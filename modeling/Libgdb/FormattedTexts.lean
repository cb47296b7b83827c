import Libgdb.Model.Printf
import Libgdb.ReplyText

/-!
What a format prints is one text, whichever output function it goes through: the buffer of
`snprintf` holds what fits of it, and `printf` and `fctprintf` pass it on without its NULs.
-/
namespace Libgdb
open ByteMemory (Byte Word)

/- The texts. -/

def padded (left : Bool) (width : Nat) (text : List Byte) : List Byte :=
  let spaces := List.replicate (width - text.length) (chr ' ')
  if left then text ++ spaces else spaces ++ text

/-- Zeros take the place of the spaces before a number. -/
def revText (buf : List Byte) (width : Nat) (flags : PrintfFlags) : List Byte :=
  if !flags.left && flags.zeropad then buf.reverse else padded flags.left width buf.reverse

def numberDigits (value base : Nat) (flags : PrintfFlags) : List Byte :=
  if !flags.precision || value ≠ 0 then ntoaDigits base flags.uppercase ntoaBufferSize value else []

def numberBuf (value : Nat) (negative : Bool) (base prec width : Nat) (flags : PrintfFlags) :
    List Byte :=
  let width := ntoaWidth negative width flags
  ntoaSign (ntoaHash (ntoaPad (numberDigits value base flags) prec width flags) base prec width
    flags) negative flags

def ntoaText (value : Nat) (negative : Bool) (base prec width : Nat) (flags : PrintfFlags) :
    List Byte :=
  let flags := if value = 0 then { flags with hash := false } else flags
  revText (numberBuf value negative base prec width flags) (ntoaWidth negative width flags) flags

def stringText : List Byte → Option Nat → Except Fault (List Byte)
  | [], _ => .error .inputOverread
  | c :: p, limit =>
    if c = 0 then .ok []
    else match limit with
      | some 0 => .ok []
      | some (n + 1) => (stringText p (some n)).map (c :: ·)
      | none => (stringText p none).map (c :: ·)

def integerText (d : Directive) (specifier : Byte) (a : PrintfArg) : Except Fault (List Byte) :=
  let flags := integerFlags d.flags specifier
  if isSigned specifier then
    (signedValue flags a.word).map fun value =>
      ntoaText value.2 value.1 (baseOf specifier) d.precision d.width flags
  else .ok (ntoaText (unsignedValue flags a.word) false (baseOf specifier)
    d.precision d.width flags)

def floatText [FloatTexts] (d : Directive) (specifier : Byte) (a : PrintfArg) :
    Except Fault (List Byte) :=
  if specifier = chr 'f' ∨ specifier = chr 'F' then
    let flags := if specifier = chr 'F' then { d.flags with uppercase := true } else d.flags
    FloatTexts.ftoa a.word d.precision d.width flags
  else
    let flags := if specifier = chr 'g' ∨ specifier = chr 'G' then { d.flags with adaptExp := true }
        else d.flags
    let flags := if specifier = chr 'E' ∨ specifier = chr 'G' then { flags with uppercase := true }
        else flags
    FloatTexts.etoa a.word d.precision d.width flags

def charText (d : Directive) (a : PrintfArg) : Except Fault (List Byte) :=
  .ok (padded d.flags.left d.width [a.word.setWidth 8])

/-- The padding is for the length that was counted. -/
def fieldText (d : Directive) (a : PrintfArg) : Except Fault (List Byte) := do
  let l ← stringLength d a.text
  let text ← stringText a.text (if d.flags.precision then some d.precision else none)
  let spaces := List.replicate (d.width - l) (chr ' ')
  return if d.flags.left then text ++ spaces else spaces ++ text

def addressText (d : Directive) (a : PrintfArg) : Except Fault (List Byte) :=
  .ok (ntoaText a.word.toNat false 16 d.precision 16
    { d.flags with zeropad := true, uppercase := true })

def withArgument (args : List PrintfArg) (f : PrintfArg → Except Fault (List Byte)) :
    Except Fault (List Byte × List PrintfArg) := do
  let (a, args) ← vaArg args
  let text ← f a
  return (text, args)

def directiveText [FloatTexts] (d : Directive) (specifier : Byte) (args : List PrintfArg) :
    Except Fault (List Byte × List PrintfArg) :=
  if (str "diuxXob").contains specifier then withArgument args (integerText d specifier)
  else if (str "fFeEgG").contains specifier then withArgument args (floatText d specifier)
  else if specifier = chr 'c' then withArgument args (charText d)
  else if specifier = chr 's' then withArgument args (fieldText d)
  else if specifier = chr 'p' then withArgument args (addressText d)
  else .ok ([specifier], args)

def loopText [FloatTexts] : Nat → List Byte → List PrintfArg → Except Fault (List Byte)
  | 0, _, _ => .error .inputOverread
  | n + 1, format, args => do
    let c ← peek format
    if c = 0 then return []
    else if c ≠ chr '%' then
      let rest ← loopText n format.tail args
      return c :: rest
    else
      let (d, format, args) ← parseDirective format.tail args
      let specifier ← peek format
      let (text, args) ← directiveText d specifier args
      let rest ← loopText n format.tail args
      return text ++ rest

def formatText [FloatTexts] (format : List Byte) (args : List PrintfArg) :
    Except Fault (List Byte) :=
  loopText format.length format args

/- Writing texts. -/

section
variable {σ : Type} (out : OutFct σ) (maxlen : Nat)

@[simp] theorem all_nil (w : Written σ) : w.all out maxlen [] = w := rfl

theorem all_cons (w : Written σ) (c : Byte) (text : List Byte) :
    w.all out maxlen (c :: text) = (w.next out maxlen c).all out maxlen text := rfl

theorem all_append (w : Written σ) (first second : List Byte) :
    w.all out maxlen (first ++ second) = (w.all out maxlen first).all out maxlen second :=
  List.foldl_append

theorem all_idx (w : Written σ) (text : List Byte) :
    (w.all out maxlen text).idx = w.idx + text.length := by
  induction text generalizing w with
  | nil => rfl
  | cons c text ih =>
    rw [all_cons, ih, List.length_cons]
    show w.idx + 1 + text.length = _
    omega

theorem spaces_padded (w : Written σ) (left : Bool) (width : Nat) (text : List Byte) :
    (if left then ((w.all out maxlen text).spaces out maxlen (width - text.length)) else
      (w.spaces out maxlen (width - text.length)).all out maxlen text) =
        w.all out maxlen (padded left width text) := by
  unfold padded Written.spaces
  cases left with
  | true => exact (all_append out maxlen _ _ _).symm
  | false => exact (all_append out maxlen _ _ _).symm

theorem outRev_text (w : Written σ) (buf : List Byte) (width : Nat) (flags : PrintfFlags) :
    outRev out maxlen w buf width flags = w.all out maxlen (revText buf width flags) := by
  have padding := spaces_padded out maxlen w flags.left width buf.reverse
  rw [List.length_reverse] at padding
  unfold outRev revText
  cases left : flags.left with
  | true =>
    rw [left] at padding
    have passed : (w.all out maxlen buf.reverse).idx - w.idx = buf.length := by
      rw [all_idx, List.length_reverse]
      omega
    simp only [Bool.not_true, Bool.false_and, Bool.false_eq_true, if_false, if_true] at padding ⊢
    rw [passed, padding]
  | false =>
    rw [left] at padding
    cases zeropad : flags.zeropad with
    | true => simp
    | false =>
      simp only [Bool.not_false, Bool.and_false, Bool.true_and, Bool.false_eq_true, if_false,
        if_true] at padding ⊢
      exact padding

theorem ntoaLong_text (w : Written σ) (value : Nat) (negative : Bool) (base prec width : Nat)
    (flags : PrintfFlags) :
    ntoaLong out maxlen w value negative base prec width flags =
      w.all out maxlen (ntoaText value negative base prec width flags) :=
        outRev_text out maxlen _ _ _ _

theorem outString_text (w : Written σ) (p : List Byte) (limit : Option Nat) :
    outString out maxlen w p limit = (stringText p limit).map (w.all out maxlen) := by
  induction p generalizing w limit with
  | nil => rfl
  | cons c p ih =>
    by_cases nul : c = 0
    · subst nul
      cases limit <;> rfl
    · cases limit with
      | none =>
        rw [outString, stringText, if_neg nul, if_neg nul, ih]
        cases stringText p none <;> rfl
      | some n =>
        cases n with
        | zero =>
          rw [outString, stringText, if_neg nul, if_neg nul]
          rfl
        | succ n =>
          rw [outString, stringText, if_neg nul, if_neg nul, ih]
          cases stringText p (some n) <;> rfl

/- A conversion writes the text of its directive. -/

def Written.found (w : Written σ) (found : List Byte × List PrintfArg) :
    Written σ × List PrintfArg :=
  (w.all out maxlen found.1, found.2)

variable (w : Written σ) (d : Directive) (specifier : Byte) (args : List PrintfArg)

theorem convertInteger_text : convertInteger out maxlen w d specifier args =
    (withArgument args (integerText d specifier)).map (w.found out maxlen) := by
  unfold convertInteger withArgument integerText
  cases vaArg args with
  | error e => rfl
  | ok found =>
    obtain ⟨a, args⟩ := found
    cases isSigned specifier with
    | false =>
      show Except.ok (ntoaLong out maxlen w _ _ _ _ _ _, args) =
          Except.ok (w.all out maxlen _, args)
      rw [ntoaLong_text]
    | true =>
      show (signedValue (integerFlags d.flags specifier) a.word >>= fun value =>
          Except.ok (ntoaLong out maxlen w value.2 value.1 _ _ _ _, args)) = _
      cases signed : signedValue (integerFlags d.flags specifier) a.word with
      | error e =>
        show _ = Except.map _ ((signedValue (integerFlags d.flags specifier) a.word).map _ >>= _)
        rw [signed]
        rfl
      | ok value =>
        show _ = Except.map _ ((signedValue (integerFlags d.flags specifier) a.word).map _ >>= _)
        rw [signed]
        show Except.ok (ntoaLong out maxlen w _ _ _ _ _ _, args) =
            Except.ok (w.all out maxlen _, args)
        rw [ntoaLong_text]

theorem convertChar_text : convertChar out maxlen w d args =
    (withArgument args (charText d)).map (w.found out maxlen) := by
  unfold convertChar withArgument charText
  cases vaArg args with
  | error e => rfl
  | ok found =>
    have padding := spaces_padded out maxlen w d.flags.left d.width [found.1.word.setWidth 8]
    cases left : d.flags.left with
    | false =>
      rw [left] at padding
      exact congrArg (fun v => Except.ok (v, found.2)) padding
    | true =>
      rw [left] at padding
      exact congrArg (fun v => Except.ok (v, found.2)) padding

theorem convertString_text : convertString out maxlen w d args =
    (withArgument args (fieldText d)).map (w.found out maxlen) := by
  unfold convertString withArgument fieldText
  cases vaArg args with
  | error e => rfl
  | ok found =>
    obtain ⟨a, args⟩ := found
    show (stringLength d a.text >>= _) = Except.map _ ((stringLength d a.text >>= _) >>= _)
    cases stringLength d a.text with
    | error e => rfl
    | ok l =>
      cases left : d.flags.left with
      | false =>
        show (outString out maxlen (w.spaces out maxlen _) a.text _ >>= _) =
          Except.map _ ((stringText a.text _ >>= _) >>= _)
        rw [outString_text]
        cases stringText a.text (if d.flags.precision then some d.precision else none) with
        | error e => rfl
        | ok text => exact congrArg (fun v => Except.ok (v, args)) (all_append out maxlen w _ _).symm
      | true =>
        show (outString out maxlen w a.text _ >>= _) = Except.map _ ((stringText a.text _ >>= _) >>= _)
        rw [outString_text]
        cases stringText a.text (if d.flags.precision then some d.precision else none) with
        | error e => rfl
        | ok text => exact congrArg (fun v => Except.ok (v, args)) (all_append out maxlen w _ _).symm

theorem convertPointer_text : convertPointer out maxlen w d args =
    (withArgument args (addressText d)).map (w.found out maxlen) := by
  unfold convertPointer withArgument addressText
  cases vaArg args with
  | error e => rfl
  | ok found => exact congrArg (fun v => Except.ok (v, found.2)) (ntoaLong_text out maxlen w _ _ _ _ _ _)

variable [FloatTexts]

theorem convertFloat_text : convertFloat out maxlen w d specifier args =
    (withArgument args (floatText d specifier)).map (w.found out maxlen) := by
  unfold convertFloat withArgument floatText
  cases vaArg args with
  | error e => rfl
  | ok found =>
    obtain ⟨a, args⟩ := found
    show (if _ then _ else _) = Except.map _ ((if _ then _ else _) >>= _)
    by_cases fixed : specifier = chr 'f' ∨ specifier = chr 'F'
    · rw [if_pos fixed, if_pos fixed]
      dsimp only
      cases FloatTexts.ftoa a.word d.precision d.width _ <;> rfl
    · rw [if_neg fixed, if_neg fixed]
      dsimp only
      cases FloatTexts.etoa a.word d.precision d.width _ <;> rfl

theorem convert_text : convert out maxlen w d specifier args =
    (directiveText d specifier args).map (w.found out maxlen) := by
  unfold convert directiveText
  simp only [List.contains_iff_mem]
  split_ifs
  · exact convertInteger_text out maxlen w d specifier args
  · exact convertFloat_text out maxlen w d specifier args
  · exact convertChar_text out maxlen w d args
  · exact convertString_text out maxlen w d args
  · exact convertPointer_text out maxlen w d args
  · rfl

theorem vsnprintfLoop_text (n : Nat) (format : List Byte) :
    vsnprintfLoop out maxlen n w format args =
    (loopText n format args).map (w.all out maxlen) := by
  induction n generalizing w format args with
  | zero => rfl
  | succ n ih =>
    rw [vsnprintfLoop, loopText]
    cases peek format with
    | error e => rfl
    | ok c =>
      show (if c = 0 then Except.ok w else if c ≠ chr '%' then _ else _) =
        Except.map _ (if c = 0 then Except.ok [] else if c ≠ chr '%' then _ else _)
      by_cases nul : c = 0
      · rw [if_pos nul, if_pos nul]
        rfl
      · rw [if_neg nul, if_neg nul]
        by_cases literal : c ≠ chr '%'
        · rw [if_pos literal, if_pos literal, ih]
          cases loopText n format.tail args <;> rfl
        · rw [if_neg literal, if_neg literal]
          cases parseDirective format.tail args with
          | error e => rfl
          | ok parsed =>
            obtain ⟨d, format, args⟩ := parsed
            show (peek format >>= _) = Except.map _ (peek format >>= _)
            cases peek format with
            | error e => rfl
            | ok specifier =>
              show (convert out maxlen w d specifier args >>= _) =
                  Except.map _ (directiveText d specifier args >>= _)
              rw [convert_text]
              cases directiveText d specifier args with
              | error e => rfl
              | ok found =>
                obtain ⟨text, args⟩ := found
                show vsnprintfLoop out maxlen n (w.all out maxlen text) format.tail args =
                  Except.map _ (loopText n format.tail args >>= _)
                rw [ih]
                cases loopText n format.tail args with
                | error e => rfl
                | ok rest => exact congrArg Except.ok (all_append out maxlen w _ _).symm

end

/- The output functions. -/

def finished {σ : Type} (out : OutFct σ) (buffer : σ) (maxlen : Word) (text : List Byte) :
    PrintfResult σ :=
  ⟨(BitVec.ofNat 32 text.length).toInt,
    out 0 ((Written.mk buffer 0).all out maxlen.toNat text).buffer
      (if text.length < maxlen.toNat then text.length else (maxlen - 1).toNat) maxlen.toNat⟩

theorem vsnprintf_text {σ : Type} [FloatTexts] (out : OutFct σ) (null : Bool) (buffer : σ)
    (maxlen : Word)
    (format : List Byte) (args : List PrintfArg) : vsnprintf out null buffer maxlen format args =
      (formatText format args).map (finished (if null then outNull else out) buffer maxlen) := by
  unfold vsnprintf formatText
  show (vsnprintfLoop _ _ _ _ _ _ >>= _) = _
  rw [vsnprintfLoop_text]
  cases loopText format.length format args with
  | error e => rfl
  | ok text =>
    have counted := all_idx (if null then outNull else out) maxlen.toNat (Written.mk buffer 0) text
    rw [Nat.zero_add] at counted
    show Except.ok (PrintfResult.mk (BitVec.ofNat 32 (Written.all _ _ _ text).idx).toInt
      ((if null then outNull else out) 0 _ 
        (if (Written.all _ _ _ text).idx < _ then (Written.all _ _ _ text).idx else _) _)) = _
    rw [counted]
    rfl

theorem outBuffer_all (buffer : Nat → Byte) (idx maxlen : Nat) (text : List Byte) :
    ((Written.mk buffer idx).all outBuffer maxlen text).buffer = layText buffer idx
    (text.take (maxlen - idx)) := by
  induction text generalizing buffer idx with
  | nil => rw [List.take_nil, layText_nil, all_nil]
  | cons c text ih =>
    rw [all_cons]
    by_cases room : idx < maxlen
    · have next : Written.next outBuffer maxlen ⟨buffer, idx⟩ c =
          ⟨Function.update buffer idx c, idx + 1⟩ :=
        congrArg (Written.mk · (idx + 1)) (if_pos room)
      obtain ⟨left, split⟩ : ∃ left, maxlen - idx = left + 1 := ⟨maxlen - idx - 1, by omega⟩
      have rest : maxlen - (idx + 1) = left := by omega
      rw [next, ih, split, List.take_succ_cons, rest, ← layText_single]
      exact layText_append buffer [c] _ rfl
    · have next : Written.next outBuffer maxlen ⟨buffer, idx⟩ c = ⟨buffer, idx + 1⟩ :=
        congrArg (Written.mk · (idx + 1)) (if_neg room)
      have none : maxlen - idx = 0 := by omega
      have none' : maxlen - (idx + 1) = 0 := by omega
      rw [next, ih, none, none', List.take_zero, List.take_zero, layText_nil, layText_nil]

theorem outNull_all {σ : Type} (w : Written σ) (maxlen : Nat) (text : List Byte) :
    (w.all outNull maxlen text).buffer = w.buffer := by
  induction text generalizing w with
  | nil => rfl
  | cons c text ih => exact ih _

theorem outFct_all {τ : Type} (fct : Byte → τ → τ) (w : Written τ) (maxlen : Nat)
    (text : List Byte) :
    (w.all (outFct fct) maxlen text).buffer =
      (text.filter (· ≠ 0)).foldl (fun arg character => fct character arg) w.buffer := by
  induction text generalizing w with
  | nil => rfl
  | cons c text ih =>
    rw [all_cons, ih]
    by_cases nul : c = 0
    · have next : (w.next (outFct fct) maxlen c).buffer = w.buffer := if_neg (not_not.mpr nul)
      rw [next, List.filter_cons_of_neg (by simpa using nul)]
    · have next : (w.next (outFct fct) maxlen c).buffer = fct c w.buffer := if_pos nul
      rw [next, List.filter_cons_of_pos (by simpa using nul)]
      rfl

theorem foldl_snoc (shown text : List Byte) :
    text.foldl (fun shown character => shown ++ [character]) shown = shown ++ text := by
  induction text generalizing shown with
  | nil => simp
  | cons c text ih => simp [ih]

section
variable [FloatTexts]

/-- `snprintf` stores the first `count - 1` characters of the text and a NUL behind them, and
    nothing besides, whatever is left of the text; it returns the length of the whole text, as an
    int. -/
theorem snprintf_stores (null : Bool) (buffer : Nat → Byte) (count : Word) (format : List Byte)
    (args : List PrintfArg) :
    snprintf null buffer count format args = (formatText format args).map fun text =>
      ⟨(BitVec.ofNat 32 text.length).toInt,
        if null ∨ count = 0 then buffer
          else layText buffer 0 (text.take (count.toNat - 1) ++ [0])⟩ := by
  unfold snprintf
  rw [vsnprintf_text]
  cases formatText format args with
  | error e => rfl
  | ok text =>
    refine congrArg Except.ok ?_
    unfold finished
    cases null with
    | true =>
      refine congrArg (PrintfResult.mk _) ?_
      exact (outNull_all _ _ _).trans (if_pos (Or.inl rfl)).symm
    | false =>
      rw [if_neg (by decide), outBuffer_all, Nat.sub_zero]
      refine congrArg (PrintfResult.mk _) ?_
      by_cases none : count = 0
      · subst none
        rw [if_pos (show false = true ∨ (0 : Word) = 0 from Or.inr rfl)]
        show (if _ < 0 then _ else layText buffer 0 (text.take 0)) = buffer
        rw [if_neg (by omega), List.take_zero, layText_nil]
      · rw [if_neg (show ¬(false = true ∨ count = 0) by simpa using none)]
        have positive : 0 < count.toNat := by
          rw [Nat.pos_iff_ne_zero]
          exact fun zero => none (BitVec.eq_of_toNat_eq zero)
        have before : (count - 1).toNat = count.toNat - 1 := by bv_omega
        rw [before]
        by_cases fits : text.length < count.toNat
        · have whole : text.take (count.toNat - 1) = text := List.take_of_length_le (by omega)
          have whole' : text.take count.toNat = text := List.take_of_length_le (by omega)
          rw [if_pos fits, whole, whole', outBuffer, if_pos fits, ← layText_single,
            layText_append buffer text [0] (Nat.zero_add _).symm]
        · obtain ⟨n, size⟩ : ∃ n, count.toNat = n + 1 := ⟨count.toNat - 1, by omega⟩
          have short : (text.take n).length = n := List.length_take_of_le (by omega)
          rw [if_neg fits, outBuffer, if_pos (by omega), size, Nat.add_sub_cancel,
            List.take_succ_eq_append_getElem (by omega),
              ← layText_append buffer (text.take n) _ rfl,
            ← layText_append buffer (text.take n) [0] rfl, short, Nat.zero_add, layText_single,
              layText_single,
            Function.update_idem]

/-- `fctprintf` calls its function on the characters of the text in order, NULs left out, and
    returns the length of the whole text, and so does `printf` with `_putchar`. -/
theorem fctprintf_passes_on {τ : Type} (fct : Byte → τ → τ) (arg : τ) (format : List Byte)
    (args : List PrintfArg) :
    (fctprintf fct arg format args = (formatText format args).map fun text =>
      ⟨(BitVec.ofNat 32 text.length).toInt,
        (text.filter (· ≠ 0)).foldl (fun arg character => fct character arg) arg⟩) ∧
    printf format args = (formatText format args).map fun text =>
      ⟨(BitVec.ofNat 32 text.length).toInt, text.filter (· ≠ 0)⟩ := by
  have passed {τ : Type} (fct : Byte → τ → τ) (arg : τ) : fctprintf fct arg format args =
      (formatText format args).map fun text => ⟨(BitVec.ofNat 32 text.length).toInt,
        (text.filter (· ≠ 0)).foldl (fun arg character => fct character arg) arg⟩ := by
    unfold fctprintf
    rw [vsnprintf_text, if_neg (by decide)]
    cases formatText format args with
    | error e => rfl
    | ok text =>
      refine congrArg (fun buffer => Except.ok (PrintfResult.mk _ buffer)) ?_
      exact outFct_all fct ⟨arg, 0⟩ _ text
  refine ⟨passed fct arg, ?_⟩
  have shown : printf format args = fctprintf (fun character shown => shown ++ [character])
      [] format args := rfl
  rw [shown, passed]
  cases formatText format args with
  | error e => rfl
  | ok text => exact congrArg (fun shown => Except.ok (PrintfResult.mk _ shown)) (foldl_snoc [] _)

end
/- Strings. -/

def beforeNul (text : List Byte) : List Byte := text.takeWhile (· ≠ 0)

theorem beforeNul_cons {c : Byte} (other : c ≠ 0) (text : List Byte) :
    beforeNul (c :: text) = c :: beforeNul text :=
  List.takeWhile_cons_of_pos (by simpa using other)

theorem beforeNul_whole {text : List Byte} (endless : 0 ∉ text) : beforeNul text = text :=
  List.takeWhile_eq_self_iff.mpr fun c mem => by
    rw [decide_eq_true_eq]
    rintro rfl
    exact endless mem

/-- The count reads a byte more than it may count. -/
theorem strnlenS_eq (text : List Byte) (maxsize : Nat) : strnlenS text maxsize =
    if 0 ∈ text ∨ maxsize < text.length then .ok (min (beforeNul text).length maxsize)
    else .error .inputOverread := by
  induction text generalizing maxsize with
  | nil => simp [strnlenS]
  | cons c text ih =>
    by_cases nul : c = 0
    · subst nul
      rw [if_pos (Or.inl List.mem_cons_self)]
      cases maxsize <;> simp [strnlenS, beforeNul]
    · cases maxsize with
      | zero =>
        have reads : 0 ∈ c :: text ∨ 0 < (c :: text).length := Or.inr (Nat.succ_pos _)
        rw [if_pos reads, strnlenS, if_neg nul, Nat.min_zero]
      | succ n =>
        have same : (0 ∈ c :: text ∨ n + 1 < (c :: text).length) ↔
            (0 ∈ text ∨ n < text.length) := by
          rw [List.mem_cons, List.length_cons, or_iff_right (Ne.symm nul), Nat.add_lt_add_iff_right]
        rw [strnlenS, if_neg nul, ih, beforeNul_cons nul]
        by_cases reads : 0 ∈ text ∨ n < text.length
        · rw [if_pos reads, if_pos (same.mpr reads), List.length_cons, Nat.add_min_add_right]
          rfl
        · rw [if_neg reads, if_neg (fun both => reads (same.mp both))]
          rfl

theorem stringText_none (text : List Byte) : stringText text none =
    if 0 ∈ text then .ok (beforeNul text) else .error .inputOverread := by
  induction text with
  | nil => rfl
  | cons c text ih =>
    by_cases nul : c = 0
    · subst nul
      rw [if_pos List.mem_cons_self]
      rfl
    · rw [stringText, if_neg nul, ih, beforeNul_cons nul]
      by_cases ends : 0 ∈ text
      · rw [if_pos ends, if_pos (List.mem_cons_of_mem c ends)]
        rfl
      · rw [if_neg ends, if_neg (fun mem => (List.mem_cons.mp mem).elim (Ne.symm nul) ends)]
        rfl

theorem stringText_some (text : List Byte) (n : Nat) : stringText text (some n) =
    if 0 ∈ text ∨ n < text.length then
    .ok ((beforeNul text).take n) else .error .inputOverread := by
  induction text generalizing n with
  | nil => simp [stringText]
  | cons c text ih =>
    by_cases nul : c = 0
    · subst nul
      rw [if_pos (Or.inl List.mem_cons_self)]
      exact congrArg Except.ok (List.take_nil).symm
    · cases n with
      | zero =>
        have reads : 0 ∈ c :: text ∨ 0 < (c :: text).length := Or.inr (Nat.succ_pos _)
        rw [if_pos reads, stringText, if_neg nul, List.take_zero]
      | succ n =>
        have same : (0 ∈ c :: text ∨ n + 1 < (c :: text).length) ↔
            (0 ∈ text ∨ n < text.length) := by
          rw [List.mem_cons, List.length_cons, or_iff_right (Ne.symm nul), Nat.add_lt_add_iff_right]
        rw [stringText, if_neg nul, ih, beforeNul_cons nul]
        by_cases reads : 0 ∈ text ∨ n < text.length
        · rw [if_pos reads, if_pos (same.mpr reads)]
          rfl
        · rw [if_neg reads, if_neg (fun both => reads (same.mp both))]
          rfl

theorem parsePrecision_counts {flags flags' : PrintfFlags} {format behind : List Byte}
    {args args' : List PrintfArg} {n : Nat}
    (parse : parsePrecision flags format args = .ok (flags', n, behind, args')) :
    flags'.precision = true ∨ n = 0 := by
  unfold parsePrecision at parse
  cases format with
  | nil => cases parse
  | cons c format =>
    change (if c = chr '.' then _ else _) = _ at parse
    by_cases dot : c = chr '.'
    · rw [if_pos dot] at parse
      refine Or.inl ?_
      cases format with
      | nil => cases parse
      | cons c format =>
        change (if isDigit c = true then _ else if c = chr '*' then _ else _) = _ at parse
        by_cases digit : isDigit c = true
        · rw [if_pos digit] at parse
          obtain ⟨_, _, parse⟩ := CheckedPrograms.bind_ok parse
          cases parse
          rfl
        · rw [if_neg digit] at parse
          by_cases star : c = chr '*'
          · rw [if_pos star] at parse
            cases args with
            | nil => cases parse
            | cons a args =>
              cases parse
              rfl
          · rw [if_neg star] at parse
            cases parse
            rfl
    · rw [if_neg dot] at parse
      cases parse
      exact Or.inr rfl

theorem parseLength_precision {flags flags' : PrintfFlags} {format behind : List Byte}
    (parse : parseLength flags format = .ok (flags', behind)) :
    flags'.precision = flags.precision := by
  unfold parseLength at parse
  cases format with
  | nil => cases parse
  | cons c format =>
    change (if c = chr 'l' then _ else if c = chr 'h' then _ else
      if c = chr 't' ∨ c = chr 'j' ∨ c = chr 'z' then _ else _) = _ at parse
    cases format with
    | nil =>
      split_ifs at parse
      all_goals cases parse
      all_goals rfl
    | cons c' format =>
      change (if c = chr 'l' then (if c' = chr 'l' then _ else _) else
        if c = chr 'h' then (if c' = chr 'h' then _ else _) else
        if c = chr 't' ∨ c = chr 'j' ∨ c = chr 'z' then _ else _) = _ at parse
      split_ifs at parse
      all_goals cases parse
      all_goals rfl

theorem parseDirective_precision {format behind : List Byte} {args rest : List PrintfArg}
    {d : Directive} (parse : parseDirective format args = .ok (d, behind, rest))
    (none : d.flags.precision = false) : d.precision = 0 := by
  obtain ⟨⟨_, format⟩, _, parse⟩ := CheckedPrograms.bind_ok parse
  obtain ⟨⟨flags, _, format, args⟩, _, parse⟩ := CheckedPrograms.bind_ok parse
  obtain ⟨⟨flags, precision, format, args⟩, counted, parse⟩ := CheckedPrograms.bind_ok parse
  obtain ⟨⟨flags', format⟩, long, parse⟩ := CheckedPrograms.bind_ok parse
  cases parse
  have same : flags'.precision = flags.precision := parseLength_precision long
  refine (parsePrecision_counts counted).resolve_left fun some => ?_
  rw [← same, none] at some
  cases some

theorem fieldText_printed (d : Directive) (a : PrintfArg) (counted : d.flags.precision = false →
      d.precision = 0) (int : (beforeNul a.text).length < 2 ^ 32) : fieldText d a =
      if 0 ∈ a.text ∨ d.precision ≠ 0 ∧ d.precision < a.text.length then
        .ok (padded d.flags.left d.width
          (if d.flags.precision then (beforeNul a.text).take d.precision else beforeNul a.text))
      else .error .inputOverread := by
  have length : strnlenS a.text (if d.precision ≠ 0 then d.precision else 2 ^ 64 - 1) =
      if 0 ∈ a.text ∨ d.precision ≠ 0 ∧ d.precision < a.text.length then
        .ok (if d.precision ≠ 0 then min (beforeNul a.text).length d.precision
          else (beforeNul a.text).length)
      else .error .inputOverread := by
    rw [strnlenS_eq]
    by_cases ends : 0 ∈ a.text
    · rw [if_pos (Or.inl ends), if_pos (Or.inl ends)]
      split_ifs
      · rfl
      · rw [Nat.min_eq_left (by omega)]
    · have whole := beforeNul_whole ends
      rw [whole] at int ⊢
      by_cases zero : d.precision = 0
      · rw [if_neg (not_not.mpr zero), if_neg (not_or.mpr ⟨ends, by omega⟩),
          if_neg (not_or.mpr ⟨ends, by omega⟩)]
      · rw [if_pos zero]
        by_cases reads : d.precision < a.text.length
        · rw [if_pos (Or.inr reads), if_pos (Or.inr ⟨zero, reads⟩), if_pos zero]
        · rw [if_neg (not_or.mpr ⟨ends, reads⟩),
            if_neg (not_or.mpr ⟨ends, fun both => reads both.2⟩)]
  unfold fieldText stringLength
  rw [length]
  by_cases reads : 0 ∈ a.text ∨ d.precision ≠ 0 ∧ d.precision < a.text.length
  · rw [if_pos reads, if_pos reads]
    cases flag : d.flags.precision with
    | false =>
      have zero := counted flag
      have ends : 0 ∈ a.text := reads.resolve_right fun both => both.1 zero
      show (stringText a.text none >>= fun text => _) = _
      rw [stringText_none, if_pos ends, if_neg (not_not.mpr zero), Nat.mod_eq_of_lt int]
      unfold padded
      cases d.flags.left <;> rfl
    | true =>
      have passed : 0 ∈ a.text ∨ d.precision < a.text.length := reads.imp_right And.right
      have length : min ((if d.precision ≠ 0 then min (beforeNul a.text).length d.precision
          else (beforeNul a.text).length) %
          2 ^ 32) d.precision = ((beforeNul a.text).take d.precision).length := by
        rw [List.length_take]
        split_ifs
        · rw [Nat.mod_eq_of_lt (by omega)]
          omega
        · omega
      show (stringText a.text (some d.precision) >>= fun text => _) = _
      rw [stringText_some, if_pos passed]
      show Except.ok (if d.flags.left then _ ++ List.replicate (d.width - min _ d.precision)
          (chr ' ') else
        List.replicate (d.width - min _ d.precision) (chr ' ') ++ _) = _
      rw [length]
      rfl
  · rw [if_neg reads, if_neg reads]
    rfl

/-- `%s` prints its string up to the NUL, and no more than the precision of it, in the field. It
    reads a byte past a precision, and with the precision 0 the whole string. -/
theorem string_printed_iff {format behind : List Byte} {args rest : List PrintfArg} {d : Directive}
    (parsed : parseDirective format args = .ok (d, behind, rest)) (a : PrintfArg)
    (int : (beforeNul a.text).length < 2 ^ 32) : fieldText d a =
      if 0 ∈ a.text ∨ d.precision ≠ 0 ∧ d.precision < a.text.length then
        .ok (padded d.flags.left d.width
          (if d.flags.precision then (beforeNul a.text).take d.precision else beforeNul a.text))
      else .error .inputOverread :=
  fieldText_printed d a (parseDirective_precision parsed) int

/-- `%.2s` of two characters without a NUL, and of three. -/
theorem two_characters_overread :
    fieldText ⟨{ precision := true }, 0, 2⟩ ⟨0, str "ok"⟩ = .error .inputOverread ∧
      fieldText ⟨{ precision := true }, 0, 2⟩ ⟨0, str "ok?"⟩ = .ok (str "ok") := by
  have parsed : parseDirective (str ".2s") [] = .ok (⟨{ precision := true }, 0, 2⟩,
      str "s", []) := rfl
  exact ⟨(string_printed_iff parsed ⟨0, str "ok"⟩ (by decide)).trans (if_neg (by decide)),
    (string_printed_iff parsed ⟨0, str "ok?"⟩ (by decide)).trans (if_pos (by decide))⟩

end Libgdb
