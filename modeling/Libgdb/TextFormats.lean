import Libgdb.MemoryReads

/-!
The parsers of addresses and lengths against their grammars. Both take a number without digits for
zero; a breakpoint packet is read no further than its length, and one that does not begin as it
should meets an assertion.
-/
namespace Libgdb
open ByteMemory CheckedPrograms

/- Grammars. -/

structure NumberText (text : List Byte) : Prop where
  word : WordText text
  nonempty : text ≠ []

/-- `m` or `M`, the two numbers, and for `M` perhaps a colon and more. -/
def MemText (text addr size : List Byte) : Prop :=
  ∃ first rest, text = first :: (addr ++ chr ',' :: (size ++ rest)) ∧
    (rest = [] ∨ first = chr 'M' ∧ ∃ more, rest = chr ':' :: more)

def KindText (kind : List Byte) : Prop := hexNumber kind ∈ [1, 2, 4, 8]

instance (kind : List Byte) : Decidable (KindText kind) := inferInstanceAs (Decidable (_ ∈ _))

/-- `z` or `Z`, a digit from 0 to 4, and the two numbers. -/
def BreakpointText (text addr kind : List Byte) : Prop :=
  ∃ first digit, text = first :: digit :: chr ',' :: (addr ++ chr ',' :: kind) ∧
    chr '0' ≤ digit ∧ digit ≤ chr '4' ∧ KindText kind

def MemPacket (text : List Byte) : Prop := text.head? = some (chr 'm') ∨ text.head? = some (chr 'M')

def BreakpointPacket (text : List Byte) : Prop :=
  text.head? = some (chr 'z') ∨ text.head? = some (chr 'Z')

/-- The parser returns, with the two numbers for what the grammar derives and for nothing else. -/
def Recognizes (parse : List Byte → Except Fault (Option (Word × Word)))
    (grammar : List Byte → List Byte → List Byte → Prop) (text tail : List Byte) : Prop :=
  ∃ r, parse (text ++ 0 :: tail) = .ok r ∧ ∀ a n, r = some (a, n) ↔
    ∃ addr size, NumberText addr ∧ NumberText size ∧ grammar text addr size ∧
    a.toNat = hexNumber addr ∧ n.toNat = hexNumber size

structure ParsesExactly (text tail : List Byte) : Prop where
  mem : MemPacket text → Recognizes parseMemFormat MemText text tail
  breakpoint : BreakpointPacket text → Recognizes parseBreakpointFormat BreakpointText text tail

/- Scanning digits. -/

structure DigitRun (n : Nat) (text rest : List Byte) : Prop where
  digits : ∀ c ∈ text, IsHex c
  fits : text.length ≤ n
  ends : text.length = n ∨ ∀ c ∈ rest.head?, ¬ IsHex c

theorem DigitRun.not_longer {n : Nat} {text rest more : List Byte}
    (run : DigitRun n text (more ++ rest))
    (longer : ∀ c ∈ text ++ more, IsHex c) (fits : (text ++ more).length ≤ n) : more = [] := by
  cases more with
  | nil => rfl
  | cons c more =>
    rcases run.ends with full | ends
    · rw [List.length_append, List.length_cons] at fits
      omega
    · exact absurd (longer c (by simp)) (ends c (by simp))

theorem DigitRun.unique {n : Nat} {text rest text' rest' : List Byte} (run : DigitRun n text rest)
    (run' : DigitRun n text' rest') (same : text ++ rest = text' ++ rest') :
    text = text' ∧ rest = rest' := by
  rcases List.append_eq_append_iff.mp same with ⟨more, rfl, rfl⟩ | ⟨more, rfl, rfl⟩
  · have none := run.not_longer run'.digits run'.fits
    simp [none]
  · have none := run'.not_longer run.digits run.fits
    simp [none]

theorem WordText.run {text rest : List Byte} (word : WordText text)
    (ends : ∀ c ∈ rest.head?, ¬ IsHex c) :
    DigitRun 16 text rest := ⟨word.digits, word.fits, Or.inr ends⟩

theorem hexstrToInt_scan {text : List Byte} (nonzero : ∀ c ∈ text, c ≠ 0) (tail : List Byte)
    (n : Nat) (val : Word) :
    ∃ digits rest, text = digits ++ rest ∧ DigitRun n digits rest ∧ hexstrToInt
    (text ++ 0 :: tail) n val =
      .ok (rest ++ 0 :: tail, BitVec.ofNat 64 (digits.foldl appendDigit val.toNat)) := by
  induction text generalizing n val with
  | nil => exact ⟨[], [], rfl, ⟨nofun, Nat.zero_le n, Or.inr nofun⟩, by simp [hexstrToInt]⟩
  | cons c text ih =>
    have here : c ≠ 0 := nonzero c List.mem_cons_self
    cases n with
    | zero => exact ⟨[], c :: text, rfl, ⟨nofun, le_refl 0, Or.inl rfl⟩, by simp [hexstrToInt]⟩
    | succ n =>
      by_cases digit : IsHex c
      · obtain ⟨digits, rest, rfl, run, scan⟩ :=
          ih (fun d mem => nonzero d (List.mem_cons_of_mem _ mem)) n
          (BitVec.ofNat 64 (appendDigit val.toNat c))
        have ends : (c :: digits).length = n + 1 ∨ ∀ c ∈ rest.head?, ¬ IsHex c :=
          run.ends.imp_left (congrArg (· + 1))
        refine ⟨c :: digits, rest, rfl, ⟨List.forall_mem_cons.mpr ⟨digit, run.digits⟩,
          Nat.succ_le_succ run.fits, ends⟩, ?_⟩
        rw [List.cons_append, hexstrToInt_step digit, scan, foldl_digits_ofNat, List.foldl_cons]
      · refine ⟨[], c :: text, rfl, ⟨nofun, Nat.zero_le _, Or.inr (by simpa using digit)⟩, ?_⟩
        rw [List.cons_append, hexstrToInt, if_neg here]
        dsimp only
        rw [if_pos (hexByte_of_not c digit)]
        simp

/- What the parsers take. -/

theorem comma_not_hex : ¬ IsHex (chr ',') := by decide

theorem DigitRun.before_comma {text digits rest addr more : List Byte}
    (run : DigitRun 16 digits rest) (split : text = digits ++ rest) (word : WordText addr)
    (split' : text = addr ++ chr ',' :: more) :
    digits = addr ∧ rest = chr ',' :: more :=
  run.unique (word.run (by simpa using comma_not_hex)) (split.symm.trans split')

def MemEnd (first : Byte) (rest : List Byte) : Prop :=
  rest = [] ∨ first = chr 'M' ∧ ∃ more, rest = chr ':' :: more

theorem memEnd_not_hex {first : Byte} {rest : List Byte} (ends : MemEnd first rest) :
    ∀ c ∈ rest.head?, ¬ IsHex c := by
  rcases ends with rfl | ⟨_, more, rfl⟩
  · exact nofun
  · have colon : ¬ IsHex (chr ':') := by decide
    simpa using colon

theorem memEnd_iff {first : Byte} {rest : List Byte} (nonzero : ∀ c ∈ rest, c ≠ 0)
    (tail : List Byte) :
    ∃ c, peek (rest ++ 0 :: tail) = .ok c ∧ (c = 0 ∨ first = chr 'M' ∧ c = chr ':' ↔
      MemEnd first rest) := by
  cases rest with
  | nil => exact ⟨0, rfl, iff_of_true (Or.inl rfl) (Or.inl rfl)⟩
  | cons c rest =>
    refine ⟨c, rfl, ?_⟩
    have here : c ≠ 0 := nonzero c List.mem_cons_self
    rw [or_iff_right here]
    simp [MemEnd]

/-- What `parse_mem_format` returns: the two numbers, either of which may have no digits. -/
theorem parseMemFormat_reads {first : Byte} {text : List Byte} (nonzero : ∀ c ∈ text, c ≠ 0)
    (tail : List Byte) :
    ∃ r, parseMemFormat (first :: text ++ 0 :: tail) = .ok r ∧ ∀ a n, r = some (a, n) ↔
      ∃ addr size, WordText addr ∧ WordText size ∧ MemText (first :: text) addr size ∧
      a = wordOf addr ∧ n = wordOf size := by
  obtain ⟨addr, rest, rfl, run, scan⟩ := hexstrToInt_scan nonzero tail 16 0
  have parse : parseMemFormat (first :: (addr ++ rest) ++ 0 :: tail) = (do
      if (← peek (rest ++ 0 :: tail)) ≠ chr ',' then
        return none
      else
        let size ← hexstrToInt (rest ++ 0 :: tail).tail 16 0
        let last ← peek size.1
        if last = 0 ∨ (first = chr 'M' ∧ last = chr ':') then
          return some (wordOf addr, size.2)
        else
          return none) := by
    unfold parseMemFormat
    rw [List.cons_append]
    simp only [peek, List.tail_cons, scan, bind, Except.bind]
    rfl
  rw [parse]
  have noComma (missing : ∀ more, rest ≠ chr ',' :: more) (a n : Word) :
      (none : Option (Word × Word)) = some (a, n) ↔ ∃ addr' size, WordText addr' ∧ WordText size ∧
        MemText (first :: (addr ++ rest)) addr' size ∧ a = wordOf addr' ∧ n = wordOf size := by
    refine iff_of_false (fun same => by cases same) ?_
    rintro ⟨addr', size, word, _, ⟨_, more, split, _⟩, _⟩
    exact missing _ (run.before_comma rfl word (List.cons.inj split).2).2
  cases rest with
  | nil => exact ⟨none, rfl, noComma fun more same => by cases same⟩
  | cons c text =>
    by_cases comma : c = chr ','
    swap
    · refine ⟨none, ?_, noComma fun more same => comma (List.cons.inj same).1⟩
      simp only [List.cons_append, peek, ok_bind]
      rw [if_pos comma]
      rfl
    subst comma
    obtain ⟨size, last, rfl, run', scan'⟩ :=
      @hexstrToInt_scan text (fun d mem => nonzero d (by simp [mem])) tail 16 0
    obtain ⟨d, here, ended⟩ := @memEnd_iff first last (fun d mem => nonzero d (by simp [mem])) tail
    simp only [List.cons_append, List.tail_cons, scan',
      show peek (chr ',' :: (size ++ last ++ 0 :: tail)) = .ok (chr ',') from rfl,
      ok_bind, ne_eq, not_true, if_false, here]
    have only {addr' size' more : List Byte} (word : WordText addr') (word' : WordText size')
        (split : addr ++ chr ',' :: (size ++ last) = addr' ++ chr ',' :: (size' ++ more))
          (ends : MemEnd first more) :
        addr = addr' ∧ size = size' ∧ last = more := by
      obtain ⟨rfl, rest⟩ := run.before_comma rfl word split
      exact ⟨rfl, run'.unique (word'.run (memEnd_not_hex ends)) (List.cons.inj rest).2⟩
    by_cases accepted : MemEnd first last
    · refine ⟨some (wordOf addr,
        wordOf size), by rw [if_pos (ended.mpr accepted)]; rfl, fun a n => ⟨fun same => ?_, ?_⟩⟩
      · cases same
        exact ⟨addr, size, ⟨run.digits, run.fits⟩, ⟨run'.digits, run'.fits⟩,
          ⟨first, last, rfl, accepted⟩, rfl, rfl⟩
      · rintro ⟨addr', size', word, word', ⟨_, more, split, ends⟩, rfl, rfl⟩
        obtain ⟨rfl, fields⟩ := List.cons.inj split
        obtain ⟨rfl, rfl, _⟩ := only word word' fields ends
        rfl
    · refine ⟨none, by rw [if_neg (ended.not.mpr accepted)]; rfl, fun a n => iff_of_false (fun same => by cases same) ?_⟩
      rintro ⟨addr', size', word, word', ⟨_, more, split, ends⟩, _⟩
      obtain ⟨rfl, fields⟩ := List.cons.inj split
      obtain ⟨_, _, rfl⟩ := only word word' fields ends
      exact accepted ends

theorem kindText_iff {kind : List Byte} (word : WordText kind) :
    (wordOf kind ≠ 1 ∧ wordOf kind ≠ 2 ∧ wordOf kind ≠ 4 ∧ wordOf kind ≠ 8) ↔ ¬ KindText kind := by
  have value := wordOf_toNat word
  have only (k : Nat) (small : k < 2 ^ 64) : wordOf kind = BitVec.ofNat 64 k ↔
      hexNumber kind = k := by
    rw [← value]
    constructor
    · intro same
      rw [same, BitVec.toNat_ofNat, Nat.mod_eq_of_lt small]
    · intro same
      rw [← same, BitVec.ofNat_toNat, BitVec.setWidth_eq]
  have one := only 1 (by decide)
  have two := only 2 (by decide)
  have four := only 4 (by decide)
  have eight := only 8 (by decide)
  simp only [KindText, List.mem_cons, List.not_mem_nil, or_false, not_or]
  exact and_congr one.not (and_congr two.not (and_congr four.not eight.not))

def BreakpointHead (text : List Byte) : Prop :=
  ∃ first digit rest, text = first :: digit :: chr ',' :: rest ∧ chr '0' ≤ digit ∧ digit ≤ chr '4'

/-- What `parse_breakpoint_format` takes for the two numbers: the first may have no digits, and
    anything may follow the second. -/
def TakenFields (fields addr kind rest : List Byte) : Prop :=
  fields = addr ++ chr ',' :: (kind ++ rest) ∧ WordText addr ∧ DigitRun 16 kind rest ∧ KindText kind

theorem parseBreakpointFormat_fails {text : List Byte} (nonzero : ∀ c ∈ text, c ≠ 0)
    (odd : ¬ BreakpointHead text) (tail : List Byte) (r : Option (Word × Word)) :
    parseBreakpointFormat (text ++ 0 :: tail) ≠ .ok r := by
  intro parse
  match text, nonzero, odd with
  | [], _, _ => cases parse
  | [first], _, _ =>
    unfold parseBreakpointFormat at parse
    simp only [List.cons_append, List.nil_append, peek, List.tail_cons, ok_bind,
      assertParse] at parse
    split at parse
    · cases parse
    · cases parse
  | [first, digit], _, _ =>
    unfold parseBreakpointFormat at parse
    simp only [List.cons_append, List.nil_append, peek, List.tail_cons, ok_bind,
      assertParse] at parse
    split at parse
    · simp only [ok_bind] at parse
      split at parse <;> cases parse
    · cases parse
  | first :: digit :: c :: rest, _, odd =>
    unfold parseBreakpointFormat at parse
    simp only [List.cons_append, peek, List.tail_cons, ok_bind, assertParse] at parse
    split at parse
    · simp only [ok_bind] at parse
      split at parse
      · rename_i range
        simp only [ok_bind] at parse
        split at parse
        · rename_i comma
          subst comma
          exact odd ⟨first, digit, rest, rfl, range⟩
        · cases parse
      · cases parse
    · cases parse

theorem parseBreakpointFormat_reads {first digit : Byte} (kind : first = chr 'Z' ∨ first = chr 'z')
    (range : chr '0' ≤ digit ∧ digit ≤ chr '4') {fields : List Byte} (nonzero : ∀ c ∈ fields, c ≠ 0)
    (tail : List Byte) :
    ∃ r, parseBreakpointFormat (first :: digit :: chr ',' :: fields ++ 0 :: tail) = .ok r ∧
    ∀ a n, r = some (a, n) ↔
      ∃ addr kind rest, TakenFields fields addr kind rest ∧ a = wordOf addr ∧ n = wordOf kind := by
  obtain ⟨addr, rest, rfl, run, scan⟩ := hexstrToInt_scan nonzero tail 16 0
  have parse : parseBreakpointFormat (first :: digit :: chr ',' :: (addr ++ rest) ++
      0 :: tail) = (do
      if (← peek (rest ++ 0 :: tail)) ≠ chr ',' then
        return none
      else
        let kind ← hexstrToInt (rest ++ 0 :: tail).tail 16 0
        if kind.2 ≠ 1 ∧ kind.2 ≠ 2 ∧ kind.2 ≠ 4 ∧ kind.2 ≠ 8 then
          return none
        else
          return some (wordOf addr, kind.2)) := by
    unfold parseBreakpointFormat
    simp only [List.cons_append, peek, List.tail_cons, ok_bind, assertParse, if_pos kind,
      if_pos range, scan]
    rfl
  rw [parse]
  have noComma (missing : ∀ more, rest ≠ chr ',' :: more) (a n : Word) :
      (none : Option (Word × Word)) = some (a, n) ↔ ∃ addr' kind more,
        TakenFields (addr ++ rest) addr' kind more ∧
        a = wordOf addr' ∧ n = wordOf kind := by
    refine iff_of_false (fun same => by cases same) ?_
    rintro ⟨addr', size, more, ⟨split, word, _⟩, _⟩
    exact missing _ (run.before_comma rfl word split).2
  cases rest with
  | nil => exact ⟨none, rfl, noComma fun more same => by cases same⟩
  | cons c text =>
    by_cases comma : c = chr ','
    swap
    · refine ⟨none, ?_, noComma fun more same => comma (List.cons.inj same).1⟩
      simp only [List.cons_append, peek, ok_bind]
      rw [if_pos comma]
      rfl
    subst comma
    obtain ⟨size, last, rfl, run', scan'⟩ :=
      @hexstrToInt_scan text (fun d mem => nonzero d (by simp [mem])) tail 16 0
    have checked := kindText_iff ⟨run'.digits, run'.fits⟩
    simp only [List.cons_append, List.tail_cons, scan',
      show peek (chr ',' :: (size ++ last ++ 0 :: tail)) = .ok (chr ',') from rfl,
      ok_bind, ne_eq, not_true, if_false]
    have only {addr' size' more : List Byte}
        (taken : TakenFields (addr ++ chr ',' :: (size ++ last)) addr' size' more) :
        addr = addr' ∧ size = size' := by
      obtain ⟨split, word, run'', _⟩ := taken
      obtain ⟨rfl, rest⟩ := run.before_comma rfl word split
      exact ⟨rfl, (run'.unique run'' (List.cons.inj rest).2).1⟩
    by_cases known : KindText size
    · refine ⟨some (wordOf addr, wordOf size), ?_, fun a n => ⟨fun same => ?_, ?_⟩⟩
      · exact if_neg (checked.not.mpr (not_not.mpr known))
      · cases same
        exact ⟨addr, size, last, ⟨rfl, ⟨run.digits, run.fits⟩, run', known⟩, rfl, rfl⟩
      · rintro ⟨addr', size', more, taken, rfl, rfl⟩
        obtain ⟨rfl, rfl⟩ := only taken
        rfl
    · refine ⟨none, if_pos (checked.mpr known), fun a n =>
        iff_of_false (fun same => by cases same) ?_⟩
      rintro ⟨addr', size', more, taken, _⟩
      obtain ⟨_, rfl⟩ := only taken
      exact known taken.2.2.2

/- Which texts are parsed exactly. -/

/-- Neither number of a memory packet is left out, and a breakpoint packet begins as the assertions
    want it, has an address, and ends behind its length, unless it is rejected for that. -/
structure FormatSafe (text : List Byte) : Prop where
  mem : MemPacket text → ∀ addr size, WordText addr → WordText size → MemText text addr size →
    addr ≠ [] ∧ size ≠ []
  breakpoint : BreakpointPacket text → ∃ first digit fields,
    text = first :: digit :: chr ',' :: fields ∧
    (chr '0' ≤ digit ∧ digit ≤ chr '4') ∧
    ∀ addr kind rest, TakenFields fields addr kind rest → addr ≠ [] ∧ rest = []

theorem eq_wordOf_iff {text : List Byte} (word : WordText text) (w : Word) :
    w = wordOf text ↔ w.toNat = hexNumber text := by
  rw [← wordOf_toNat word]
  exact BitVec.toNat_inj.symm

theorem memText_unique {text addr size addr' size' : List Byte} (addrWord : WordText addr)
    (sizeWord : WordText size)
    (addrWord' : WordText addr') (sizeWord' : WordText size') (mem : MemText text addr size)
    (mem' : MemText text addr' size') : addr = addr' ∧ size = size' := by
  obtain ⟨first, rest, rfl, ends⟩ := mem
  obtain ⟨_, rest', split, ends'⟩ := mem'
  have run : DigitRun 16 addr (chr ',' :: (size ++ rest)) :=
    addrWord.run (by simpa using comma_not_hex)
  obtain ⟨rfl, fields⟩ := run.before_comma rfl addrWord' (List.cons.inj split).2
  have run' := sizeWord.run (memEnd_not_hex ends)
  exact ⟨rfl, (run'.unique (sizeWord'.run (memEnd_not_hex ends')) (List.cons.inj fields).2).1⟩

theorem takenFields_unique {fields addr kind rest addr' kind' rest' : List Byte}
    (taken : TakenFields fields addr kind rest)
    (taken' : TakenFields fields addr' kind' rest') : addr = addr' ∧ rest = rest' := by
  obtain ⟨rfl, word, run, _⟩ := taken
  obtain ⟨split, word', run', _⟩ := taken'
  have first : DigitRun 16 addr (chr ',' :: (kind ++ rest)) :=
    word.run (by simpa using comma_not_hex)
  obtain ⟨rfl, same⟩ := first.before_comma rfl word' split
  exact ⟨rfl, (run.unique run' (List.cons.inj same).2).2⟩

theorem mem_recognized_iff {first : Byte} {text : List Byte} (nonzero : ∀ c ∈ text, c ≠ 0)
    (tail : List Byte) :
    Recognizes parseMemFormat MemText (first :: text) tail ↔
      ∀ addr size, WordText addr → WordText size → MemText (first :: text) addr size → addr ≠ [] ∧
      size ≠ [] := by
  obtain ⟨r, parse, reads⟩ := @parseMemFormat_reads first text nonzero tail
  constructor
  · rintro ⟨r', parse', exactly⟩ addr size addrWord sizeWord mem
    cases parse.symm.trans parse'
    obtain ⟨addr', size', number, number', mem', _⟩ :=
      (exactly _ _).mp ((reads _ _).mpr ⟨addr, size, addrWord, sizeWord, mem, rfl, rfl⟩)
    obtain ⟨rfl, rfl⟩ := memText_unique addrWord sizeWord number.word number'.word mem mem'
    exact ⟨number.nonempty, number'.nonempty⟩
  · intro full
    refine ⟨r, parse, fun a n => (reads a n).trans ⟨?_, ?_⟩⟩
    · rintro ⟨addr, size, addrWord, sizeWord, mem, rfl, rfl⟩
      obtain ⟨some, some'⟩ := full addr size addrWord sizeWord mem
      exact ⟨addr, size, ⟨addrWord, some⟩, ⟨sizeWord, some'⟩, mem, wordOf_toNat addrWord,
        wordOf_toNat sizeWord⟩
    · rintro ⟨addr, size, number, number', mem, value, value'⟩
      exact ⟨addr, size, number.word, number'.word, mem, (eq_wordOf_iff number.word a).mpr value,
        (eq_wordOf_iff number'.word n).mpr value'⟩

theorem breakpoint_recognized_iff {first digit : Byte} (kind : first = chr 'Z' ∨ first = chr 'z')
    (range : chr '0' ≤ digit ∧ digit ≤ chr '4') {fields : List Byte} (nonzero : ∀ c ∈ fields, c ≠ 0)
    (tail : List Byte) :
    Recognizes parseBreakpointFormat BreakpointText (first :: digit :: chr ',' :: fields) tail ↔
      ∀ addr kind rest, TakenFields fields addr kind rest → addr ≠ [] ∧ rest = [] := by
  obtain ⟨r, parse, reads⟩ := parseBreakpointFormat_reads kind range nonzero tail
  have whole {addr size : List Byte} (number : NumberText addr) (number' : NumberText size) :
      BreakpointText (first :: digit :: chr ',' :: fields) addr size ↔
        TakenFields fields addr size [] := by
    constructor
    · rintro ⟨_, _, split, _, _, known⟩
      obtain ⟨_, tail⟩ := List.cons.inj split
      obtain ⟨_, tail'⟩ := List.cons.inj tail
      rw [(List.cons.inj tail').2]
      exact ⟨by rw [List.append_nil], number.word, number'.word.run nofun, known⟩
    · rintro ⟨split, _, _, known⟩
      rw [split, List.append_nil]
      exact ⟨first, digit, rfl, range.1, range.2, known⟩
  constructor
  · rintro ⟨r', parse', exactly⟩ addr size rest taken
    cases parse.symm.trans parse'
    obtain ⟨addr', size', number, number', text, _⟩ :=
      (exactly _ _).mp ((reads _ _).mpr ⟨addr, size, rest, taken, rfl, rfl⟩)
    obtain ⟨rfl, rfl⟩ := takenFields_unique taken ((whole number number').mp text)
    exact ⟨number.nonempty, rfl⟩
  · intro full
    refine ⟨r, parse, fun a n => (reads a n).trans ⟨?_, ?_⟩⟩
    · rintro ⟨addr, size, rest, taken, rfl, rfl⟩
      obtain ⟨some, rfl⟩ := full addr size rest taken
      have sizeWord : WordText size := ⟨taken.2.2.1.digits, taken.2.2.1.fits⟩
      have some' : size ≠ [] := by
        rintro rfl
        exact absurd taken.2.2.2 (by decide)
      have number : NumberText addr := ⟨taken.2.1, some⟩
      have number' : NumberText size := ⟨sizeWord, some'⟩
      exact ⟨addr, size, number, number', (whole number number').mpr taken,
        wordOf_toNat number.word, wordOf_toNat sizeWord⟩
    · rintro ⟨addr, size, number, number', text, value, value'⟩
      exact ⟨addr, size, [], (whole number number').mp text,
        (eq_wordOf_iff number.word a).mpr value,
        (eq_wordOf_iff number'.word n).mpr value'⟩

/-- The parsers accept exactly their grammars on the texts that leave nothing out, add nothing and
    meet no assertion. -/
theorem parses_exactly_iff {text : List Byte} (nonzero : ∀ c ∈ text, c ≠ 0) (tail : List Byte) :
    ParsesExactly text tail ↔ FormatSafe text := by
  have mem : (MemPacket text → Recognizes parseMemFormat MemText text tail) ↔ (MemPacket text →
      ∀ addr size, WordText addr → WordText size → MemText text addr size → addr ≠ [] ∧
        size ≠ []) := by
    refine imp_congr_right fun packet => ?_
    cases text with
    | nil => rcases packet with here | here <;> cases here
    | cons first text => exact mem_recognized_iff (fun c here =>
      nonzero c (List.mem_cons_of_mem _ here)) tail
  have breakpoint : (BreakpointPacket text →
      Recognizes parseBreakpointFormat BreakpointText text tail) ↔
      (BreakpointPacket text → ∃ first digit fields, text = first :: digit :: chr ',' :: fields ∧
        (chr '0' ≤ digit ∧ digit ≤ chr '4') ∧
        ∀ addr kind rest, TakenFields fields addr kind rest → addr ≠ [] ∧ rest = []) := by
    refine imp_congr_right fun packet => ?_
    by_cases head : BreakpointHead text
    · obtain ⟨first, digit, fields, rfl, range⟩ := head
      have kind : first = chr 'Z' ∨ first = chr 'z' := by
        rcases packet with here | here
        · exact Or.inr (Option.some_inj.mp here)
        · exact Or.inl (Option.some_inj.mp here)
      rw [breakpoint_recognized_iff kind range (fun c here => nonzero c (by simp [here])) tail]
      constructor
      · exact fun full => ⟨first, digit, fields, rfl, range, full⟩
      · rintro ⟨_, _, fields', split, _, full⟩
        obtain ⟨_, tail⟩ := List.cons.inj split
        obtain ⟨_, tail'⟩ := List.cons.inj tail
        rw [(List.cons.inj tail').2]
        exact full
    · refine iff_of_false ?_ ?_
      · rintro ⟨r, parse, _⟩
        exact parseBreakpointFormat_fails nonzero head tail r parse
      · rintro ⟨first, digit, fields, split, range, _⟩
        exact head ⟨first, digit, fields, split, range⟩
  exact ⟨fun ⟨hm, hb⟩ => ⟨mem.mp hm, breakpoint.mp hb⟩, fun ⟨hm, hb⟩ =>
    ⟨mem.mpr hm, breakpoint.mpr hb⟩⟩

theorem set_packet_parsed : ParsesExactly (str "Z0,1000,4") [] := by
  refine (parses_exactly_iff (by decide) []).mpr ⟨?_, fun _ => ⟨chr 'Z', chr '0', str "1000,4",
    rfl, by decide, ?_⟩⟩
  · rintro (here | here)
    · exact absurd here (by decide)
    · exact absurd here (by decide)
  · intro addr kind rest taken
    have fields : TakenFields (str "1000,4") (str "1000") (str "4") [] :=
      ⟨rfl, ⟨by decide, by decide⟩, ⟨by decide, by decide, Or.inr nofun⟩, by decide⟩
    obtain ⟨rfl, rfl⟩ := takenFields_unique fields taken
    exact ⟨by decide, rfl⟩

/-- `m,4` is taken for a read at address 0. -/
theorem missing_address_accepted :
    ¬ ∀ text : List Byte, (∀ c ∈ text, c ≠ 0) → ∀ tail, ParsesExactly text tail := by
  intro all
  have recognized := (all (str "m,4") (by decide) []).mem (Or.inl rfl)
  have full := (@mem_recognized_iff (chr 'm') (str ",4") (by decide) []).mp recognized
  exact (full [] (str "4") ⟨nofun, by decide⟩ ⟨by decide, by decide⟩ ⟨chr 'm', [], rfl,
    Or.inl rfl⟩).1 rfl

end Libgdb
