import Libgdb.AcceptedResumes

/-!
What the parsers read of the buffer behind a packet's NUL. A comparison, a number and the end of an
id stop there at the latest; the scan for the dot of an id goes on.
-/
namespace Libgdb
open ByteMemory CheckedPrograms

/- Texts. -/

theorem peek_behind (text tail tail' : List Byte) :
    peek (text ++ 0 :: tail) = peek (text ++ 0 :: tail') := by
  cases text with
  | nil => rfl
  | cons c text => rfl

theorem peek_cons (c : Byte) (text : List Byte) : peek (c :: text) = .ok c := rfl

theorem strncmp_behind (text literal : List Byte) (n : Nat) (tail tail' : List Byte) :
    strncmp (text ++ 0 :: tail) literal n = strncmp (text ++ 0 :: tail') literal n := by
  induction text generalizing literal n with
  | nil =>
    cases n with
    | zero => rw [strncmp, strncmp]
    | succ n =>
      cases literal with
      | nil => rfl
      | cons b literal => simp [strncmp]
  | cons c text ih =>
    cases n with
    | zero => rw [strncmp, strncmp]
    | succ n =>
      cases literal with
      | nil => rfl
      | cons b literal => simp only [List.cons_append, strncmp, ih]

theorem strncmp_differs {a b : Byte} (ne : a ≠ b) (s1 s2 : List Byte) (n : Nat) :
    ∃ d, d ≠ 0 ∧ strncmp (a :: s1) (b :: s2) (n + 1) = .ok d := by
  have diff : (a.toNat : Int) - b.toNat ≠ 0 := by
    intro zero
    exact ne (BitVec.eq_of_toNat_eq (Int.ofNat.inj (Int.sub_eq_zero.mp zero)))
  exact ⟨_, diff, by rw [strncmp, if_pos (Or.inl diff)]⟩

theorem minusOne_nul {text : List Byte} (nonzero : ∀ c ∈ text, c ≠ 0) (tail : List Byte) :
    minusOne (text ++ 0 :: tail) = .ok (decide (text = str "-1")) := by
  have differs {s : List Byte} {d : Int} (ne : d ≠ 0)
      (compared : strncmp s (str "-1" ++ [0]) 3 = .ok d) :
      minusOne s = .ok false := by
    rw [minusOne, compared, ok_bind, decide_eq_false ne]
    rfl
  by_cases all : text = str "-1"
  · subst all
    rfl
  rw [decide_eq_false all]
  cases text with
  | nil => rfl
  | cons c text =>
    by_cases dash : c = chr '-'
    · subst dash
      cases text with
      | nil => rfl
      | cons d text =>
        by_cases one : d = chr '1'
        · subst one
          cases text with
          | nil => exact absurd rfl all
          | cons e text =>
            obtain ⟨_, ne, compared⟩ :=
              strncmp_differs (nonzero e (by simp)) (text ++ 0 :: tail) [] 0
            exact differs ne compared
        · obtain ⟨_, ne, compared⟩ := strncmp_differs one (text ++ 0 :: tail) [0] 1
          exact differs ne compared
    · exact minusOne_other dash _

theorem hexstrToInt_behind (text : List Byte) (n : Nat) (val : Word) :
    ∃ rest v, rest <:+ text ∧ ∀ tail, hexstrToInt (text ++ 0 :: tail) n val =
    .ok (rest ++ 0 :: tail, v) := by
  induction text generalizing n val with
  | nil => exact ⟨[], val, List.suffix_refl [], fun tail => by simp [hexstrToInt]⟩
  | cons c text ih =>
    have stops (here : ∀ tail, hexstrToInt (c :: text ++ 0 :: tail) n val =
        .ok (c :: text ++ 0 :: tail, val)) :
        ∃ rest v, rest <:+ c :: text ∧
          ∀ tail, hexstrToInt (c :: text ++ 0 :: tail) n val = .ok (rest ++ 0 :: tail, v) :=
      ⟨c :: text, val, List.suffix_refl _, here⟩
    by_cases zero : c = 0
    · exact stops fun tail => by simp [hexstrToInt, zero]
    · cases n with
      | zero => exact stops fun tail => by simp only [List.cons_append, hexstrToInt, if_neg zero]
      | succ n =>
        by_cases other : BitVec.ofInt 8 (hexcharToInt c) = BitVec.ofInt 8 (-1)
        · exact stops fun tail => by
            simp only [List.cons_append, hexstrToInt, if_neg zero, if_pos other]
        · obtain ⟨rest, v, inside, read⟩ :=
            ih n ((val <<< 4) ||| (BitVec.ofInt 8 (hexcharToInt c) &&& 0xF#8).setWidth 64)
          refine ⟨rest, v, inside.trans (List.suffix_cons c text), fun tail => ?_⟩
          simp only [List.cons_append, hexstrToInt, if_neg zero, if_neg other, read]

theorem parseMemFormat_behind (first : Byte) (text tail tail' : List Byte) :
    parseMemFormat (first :: text ++ 0 :: tail) = parseMemFormat (first :: text ++ 0 :: tail') := by
  obtain ⟨rest, v, _, read⟩ := hexstrToInt_behind text 16 0
  simp only [parseMemFormat, List.cons_append, peek_cons, List.tail_cons, ok_bind, read]
  cases rest with
  | nil => rfl
  | cons c rest =>
    obtain ⟨rest', v', _, read'⟩ := hexstrToInt_behind rest 16 0
    simp only [List.cons_append, peek_cons, List.tail_cons, ok_bind, read',
      peek_behind rest' tail tail']

theorem parseBreakpointFormat_behind (first : Byte) (text tail tail' : List Byte) :
    parseBreakpointFormat (first :: text ++ 0 :: tail) = parseBreakpointFormat
    (first :: text ++ 0 :: tail') := by
  match text with
  | [] => rfl
  | [d] => rfl
  | d :: e :: text =>
    obtain ⟨rest, v, _, read⟩ := hexstrToInt_behind text 16 0
    simp only [parseBreakpointFormat, List.cons_append, peek_cons, List.tail_cons, ok_bind, read]
    cases rest with
    | nil => rfl
    | cons c rest =>
      obtain ⟨rest', v', _, read'⟩ := hexstrToInt_behind rest 16 0
      simp only [List.cons_append, peek_cons, List.tail_cons, ok_bind, read']

/- Ids. -/

def ParsedId.before (id : ParsedId) (tail : List Byte) : ParsedId :=
  { id with ptr := id.ptr.map (· ++ tail) }

/-- A process field the scan for its dot leaves, with room for the dot and what is read behind it.
    -/
def OpenField (room : Nat) (field : List Byte) : Prop :=
  (∀ c ∈ field, c ≠ chr '.') ∧ field ≠ str "-1" ∧ (2 ≤ room ∨ room = 1 ∧ 9 ≤ field.length)

def OpenId (room : Nat) (id : List Byte) : Prop :=
  ∃ field, id = chr 'p' :: field ∧ OpenField room field

theorem spanHex_behind (text : List Byte) :
    ∃ n rest, n ≤ text.length ∧ rest <:+ text ∧ ∀ tail, spanHex (text ++ 0 :: tail) =
    .ok (n, rest ++ 0 :: tail) := by
  induction text with
  | nil => exact ⟨0, [], le_refl 0, List.suffix_refl [], fun tail => rfl⟩
  | cons c text ih =>
    by_cases stop : hexcharToInt c = -1
    · exact ⟨0, c :: text, Nat.zero_le _, List.suffix_refl _,
        fun tail => by rw [List.cons_append, spanHex, if_pos stop]⟩
    · obtain ⟨n, rest, inside, suffix, span⟩ := ih
      refine ⟨n + 1, rest, Nat.succ_le_succ inside, suffix.trans (List.suffix_cons c text),
        fun tail => ?_⟩
      rw [List.cons_append, spanHex, if_neg stop, span]
      rfl

theorem storeId_behind {text : List Byte} {chars : Nat} (inside : chars ≤ text.length)
    (tail tail' : List Byte) (old : BitVec 32) : storeId (text ++ 0 :: tail) chars old = storeId
    (text ++ 0 :: tail') chars old := by
  have split (tail : List Byte) : text ++ 0 :: tail =
      text.take chars ++ (text.drop chars ++ 0 :: tail) := by
    rw [← List.append_assoc, List.take_append_drop]
  have length : (text.take chars).length = chars := List.length_take_of_le inside
  obtain ⟨left, read⟩ := hex2mem_pairs (text.take chars) (text.drop chars ++ 0 :: tail)
  obtain ⟨left', read'⟩ := hex2mem_pairs (text.take chars) (text.drop chars ++ 0 :: tail')
  rw [length, ← split] at read read'
  simp only [storeId, read, read', ok_bind, peek_behind text tail tail']

theorem parseThread_behind {text : List Byte} (nonzero : ∀ c ∈ text, c ≠ 0)
    (procId old : BitVec 32) :
    ∃ x : Except Fault ParsedId, (∀ v rest, x = .ok v → v.ptr = some rest → rest <:+ text) ∧
      ∀ tail, parseThread (text ++ 0 :: tail) procId old = x.map fun v => v.before (0 :: tail) := by
  by_cases all : text = str "-1"
  · subst all
    refine ⟨.ok ⟨some [], procId, -1⟩, fun v rest same ptr => ?_, fun tail => rfl⟩
    cases same
    cases ptr
    exact List.nil_suffix
  · obtain ⟨n, rest, inside, suffix, span⟩ := spanHex_behind text
    have parse (tail : List Byte) : parseThread (text ++ 0 :: tail) procId old = (do
        let threadId ← storeId (text ++ [0]) n old
        return ⟨some (rest ++ 0 :: tail), procId, threadId⟩) := by
      rw [parseThread, minusOne_nul nonzero, decide_eq_false all, ok_bind,
        if_neg (by decide), span, ok_bind]
      dsimp only
      rw [storeId_behind inside tail []]
    cases stored : storeId (text ++ [0]) n old with
    | error e =>
      refine ⟨.error e, (by intro v rest same; cases same), fun tail => ?_⟩
      rw [parse, stored]
      rfl
    | ok threadId =>
      refine ⟨.ok ⟨some rest, procId, threadId⟩, fun v rest' same ptr => ?_, fun tail => ?_⟩
      · cases same
        cases ptr
        exact suffix
      · rw [parse, stored]
        rfl

/-- Without room for what is read behind a dot the scan or the reading leaves the buffer. -/
theorem parseThreadId_cut {field tail : List Byte} (dotless : ∀ c ∈ field, c ≠ chr '.')
    (more : minusOne (field ++ 0 :: tail) = .ok false)
    (little : ¬ (2 ≤ tail.length ∨ tail.length = 1 ∧ 9 ≤ field.length))
    (procOld threadOld : BitVec 32) :
    parseThreadId (chr 'p' :: field ++ 0 :: tail) procOld threadOld = .error .inputOverread := by
  have front : ∀ c ∈ field ++ [0], c ≠ chr '.' := by
    intro c mem
    rcases List.mem_append.mp mem with here | there
    · exact dotless c here
    · rw [List.mem_singleton.mp there]
      decide
  match tail with
  | [] => exact parseThreadId_undotted front more procOld threadOld
  | [c] =>
    by_cases dot : c = chr '.'
    · subst dot
      have short : (field ++ [0]).length < 10 := by
        by_contra long
        rw [List.length_append, List.length_singleton] at long
        exact little (Or.inr ⟨rfl, by omega⟩)
      have text : chr 'p' :: field ++ 0 :: [chr '.'] = chr 'p' ::
          ((field ++ [0]) ++ chr '.' :: []) := by simp
      have more' : minusOne ((field ++ [0]) ++ chr '.' :: []) = .ok false := by
        rw [List.append_assoc]
        exact more
      rw [text, parseThreadId_parts front more', storeId_stored _ dot_not_hex, if_pos short]
      rfl
    · refine parseThreadId_undotted (fun d mem => ?_) more procOld threadOld
      have text : field ++ [0, c] = (field ++ [0]) ++ [c] := by simp
      rw [text] at mem
      rcases List.mem_append.mp mem with here | there
      · exact front d here
      · rw [List.mem_singleton.mp there]
        exact dot
  | c :: d :: tail =>
    simp only [List.length_cons] at little
    omega

def Undotted (id : List Byte) : Prop :=
  ∃ field, id = chr 'p' :: field ∧ (∀ c ∈ field, c ≠ chr '.') ∧ field ≠ str "-1"

theorem parseThreadId_front {id : List Byte} (nonzero : ∀ c ∈ id, c ≠ 0) (ends : ¬ Undotted id)
    (procOld threadOld : BitVec 32) :
    ∃ x : Except Fault ParsedId, (∀ v rest, x = .ok v → v.ptr = some rest → rest <:+ id) ∧
      ∀ tail, parseThreadId (id ++ 0 :: tail) procOld threadOld = x.map fun v =>
        v.before (0 :: tail) := by
  have other {c : Byte} (ne : c ≠ chr 'p') (rest : List Byte) :
      parseThreadId (c :: rest) procOld threadOld = .ok ⟨none, procOld, threadOld⟩ := by
    rw [parseThreadId, peek_cons, ok_bind, if_pos ne]
    rfl
  have missing (same : ∀ tail, parseThreadId (id ++ 0 :: tail) procOld threadOld =
      .ok ⟨none, procOld, threadOld⟩) :
      ∃ x : Except Fault ParsedId, (∀ v rest, x = .ok v → v.ptr = some rest → rest <:+ id) ∧
        ∀ tail, parseThreadId (id ++ 0 :: tail) procOld threadOld = x.map fun v =>
          v.before (0 :: tail) := by
    refine ⟨.ok ⟨none, procOld, threadOld⟩, fun v rest same ptr => ?_, same⟩
    cases same
    cases ptr
  cases id with
  | nil => exact missing fun tail => other (by decide) tail
  | cons c field =>
    by_cases process : c = chr 'p'
    · subst process
      have plain : ∀ c ∈ field, c ≠ 0 := fun c mem => nonzero c (List.mem_cons_of_mem _ mem)
      by_cases all : field = str "-1"
      · subst all
        refine ⟨.ok ⟨some [], -1, threadOld⟩, fun v rest same ptr => ?_, fun tail => rfl⟩
        cases same
        cases ptr
        exact List.nil_suffix
      have dotted : chr '.' ∈ field := by
        by_contra missing
        exact ends ⟨field, rfl, fun c mem same => missing (same ▸ mem), all⟩
      obtain ⟨proc, rest, rfl, fresh⟩ := List.eq_append_cons_of_mem dotted
      have dotless : ∀ c ∈ proc, c ≠ chr '.' := fun c mem same => fresh (same ▸ mem)
      have parts (tail : List Byte) :
          parseThreadId (chr 'p' :: (proc ++ chr '.' :: rest) ++ 0 :: tail) procOld threadOld =
            if proc.length < 10 then parseThread (rest ++ 0 :: tail)
              (storedInt procOld proc) threadOld
            else .error .localOverwrite := by
        have more : minusOne (proc ++ chr '.' :: (rest ++ 0 :: tail)) = .ok false := by
          have whole := minusOne_nul plain tail
          rw [decide_eq_false all, List.append_assoc] at whole
          exact whole
        have text : chr 'p' :: (proc ++ chr '.' :: rest) ++ 0 :: tail =
            chr 'p' :: (proc ++ chr '.' :: (rest ++ 0 :: tail)) := by simp
        have parse := parseThreadId_parts dotless more procOld threadOld
        rw [storeId_stored proc dot_not_hex] at parse
        rw [text]
        refine parse.trans ?_
        by_cases short : proc.length < 10
        · rw [if_pos short, if_pos short]
          rfl
        · rw [if_neg short, if_neg short]
          rfl
      have inside : rest <:+ chr 'p' :: (proc ++ chr '.' :: rest) :=
        ⟨chr 'p' :: (proc ++ [chr '.']), by simp⟩
      by_cases short : proc.length < 10
      · obtain ⟨x, suffix, parse⟩ := @parseThread_behind rest
          (fun c mem => plain c (List.mem_append_right _ (List.mem_cons_of_mem _ mem)))
            (storedInt procOld proc) threadOld
        refine ⟨x, fun v rest' same ptr => (suffix v rest' same ptr).trans inside, fun tail => ?_⟩
        rw [parts, if_pos short, parse]
      · refine ⟨.error .localOverwrite, (by intro v rest' same; cases same), fun tail => ?_⟩
        rw [parts, if_neg short]
        rfl
    · exact missing fun tail => other process _

theorem parseThreadId_closed {id tail : List Byte} (nonzero : ∀ c ∈ id, c ≠ 0)
    (undotted : Undotted id) (closed : ¬ OpenId tail.length id) (procOld threadOld : BitVec 32) :
    parseThreadId (id ++ 0 :: tail) procOld threadOld = .error .inputOverread := by
  obtain ⟨field, rfl, dotless, all⟩ := undotted
  have more : minusOne (field ++ 0 :: tail) = .ok false := by
    rw [minusOne_nul fun c mem => nonzero c (List.mem_cons_of_mem _ mem), decide_eq_false all]
  exact parseThreadId_cut dotless more (fun room => closed ⟨field, rfl, dotless, all, room⟩)
    procOld threadOld

theorem parseThreadId_alone {id rest : List Byte} (nonzero : ∀ c ∈ id, c ≠ 0)
    {procOld threadOld p t : BitVec 32}
    (parsed : parseThreadId (id ++ [0]) procOld threadOld = .ok ⟨some (rest ++ [0]), p, t⟩) :
    rest <:+ id ∧ ∀ tail, parseThreadId (id ++ 0 :: tail) procOld threadOld =
    .ok ⟨some (rest ++ 0 :: tail), p, t⟩ := by
  have ends : ¬ Undotted id := by
    intro undotted
    have closed : ¬ OpenId ([] : List Byte).length id := by
      rintro ⟨field, _, _, _, room⟩
      simp at room
    cases parsed.symm.trans (parseThreadId_closed nonzero undotted closed procOld threadOld)
  obtain ⟨x, suffix, parse⟩ := parseThreadId_front nonzero ends procOld threadOld
  have here := parse []
  rw [parsed] at here
  cases x with
  | error e => cases here
  | ok v =>
    obtain ⟨ptr, p', t'⟩ := v
    cases ptr with
    | none => cases here
    | some rest' =>
      have fields := Except.ok.inj here
      simp only [ParsedId.before, Option.map_some, ParsedId.mk.injEq, Option.some.injEq,
        List.append_cancel_right_eq]
        at fields
      obtain ⟨rfl, rfl, rfl⟩ := fields
      exact ⟨suffix _ _ rfl rfl, parse⟩

theorem parseThreadId_zeros {room : Nat} {field : List Byte} (opened : OpenField room field)
    (nonzero : ∀ c ∈ field, c ≠ 0) (procOld threadOld : BitVec 32) :
    parseThreadId (chr 'p' :: field ++ 0 :: List.replicate room 0) procOld threadOld =
    .error .inputOverread := by
  obtain ⟨dotless, all, _⟩ := opened
  have more : minusOne (field ++ 0 :: List.replicate room 0) = .ok false := by
    rw [minusOne_nul nonzero, decide_eq_false all]
  refine parseThreadId_undotted (fun c mem => ?_) more procOld threadOld
  rcases List.mem_append.mp mem with here | there
  · exact dotless c here
  · have zero : c = 0 := by
      rcases List.mem_cons.mp there with rfl | later
      · rfl
      · exact (List.mem_replicate.mp later).2
    rw [zero]
    decide

theorem parseThreadId_dotted {room : Nat} {field : List Byte} (opened : OpenField room field)
    (nonzero : ∀ c ∈ field, c ≠ 0) (procOld threadOld : BitVec 32) :
    ∃ dotted : List Byte, dotted.length = room ∧
      (parseThreadId (chr 'p' :: field ++ 0 :: dotted) procOld threadOld = .error .localOverwrite ∨
        ∃ rest procId threadId, parseThreadId (chr 'p' :: field ++ 0 :: dotted) procOld threadOld =
          .ok ⟨some (0 :: rest), procId, threadId⟩) := by
  obtain ⟨dotless, all, space⟩ := opened
  obtain ⟨more, rfl⟩ : ∃ n, room = n + 1 := ⟨room - 1, by omega⟩
  have front : ∀ c ∈ field ++ [0], c ≠ chr '.' := by
    intro c mem
    rcases List.mem_append.mp mem with here | there
    · exact dotless c here
    · rw [List.mem_singleton.mp there]
      decide
  have plain : minusOne ((field ++ [0]) ++ chr '.' :: List.replicate more 0) = .ok false := by
    rw [List.append_assoc]
    exact (minusOne_nul nonzero _).trans (by rw [decide_eq_false all])
  have text : chr 'p' :: field ++ 0 :: chr '.' :: List.replicate more 0 =
      chr 'p' :: ((field ++ [0]) ++ chr '.' :: List.replicate more 0) := by simp
  have parts := parseThreadId_parts front plain procOld threadOld
  rw [storeId_stored _ dot_not_hex] at parts
  refine ⟨chr '.' :: List.replicate more 0, by simp, ?_⟩
  rw [text, parts]
  by_cases short : (field ++ [0]).length < 10
  · rw [if_pos short, ok_bind]
    obtain ⟨more, rfl⟩ : ∃ n, more = n + 1 := by
      refine ⟨more - 1, ?_⟩
      simp only [List.length_append, List.length_singleton] at short
      omega
    exact Or.inr ⟨List.replicate more 0, _, _, rfl⟩
  · rw [if_neg short]
    exact Or.inl rfl

end Libgdb
