import Libgdb.IdNumbers
import Libgdb.ResumeScripts

/-!
vCont packets as they are written, and what the parser reads from them. An id whose thread is `-1`
leaves the parser at the minus sign unless it is the last thing in the packet.
-/
namespace Libgdb
open ByteMemory CheckedPrograms

/- Ids. -/

def IsHexText (text : List Byte) : Prop := text ≠ [] ∧ ∀ c ∈ text, IsHex c

/-- `p<proc>.<thread>` -/
structure IdText where
  proc : List Byte
  thread : List Byte

def IdText.text (id : IdText) : List Byte := chr 'p' :: (id.proc ++ chr '.' :: id.thread)

structure IdText.WellFormed (id : IdText) : Prop where
  proc : IsHexText id.proc
  thread : id.thread = str "-1" ∨ IsHexText id.thread

/-- What the parser makes of the id by itself. -/
def IdText.ParsesTo (id : IdText) (procOld threadOld : BitVec 32) (v : VcontId) : Prop :=
  parseThreadId (id.text ++ [0]) procOld threadOld = .ok ⟨some [0], v.procId, v.threadId⟩

theorem storeId_front {text : List Byte} (nonempty : text ≠ []) (rest rest' : List Byte)
    (old : BitVec 32) :
    storeId (text ++ rest) text.length old = storeId (text ++ rest') text.length old := by
  obtain ⟨left, read⟩ := hex2mem_pairs text rest
  obtain ⟨left', read'⟩ := hex2mem_pairs text rest'
  unfold storeId
  simp only [read, read', ok_bind]
  cases text with
  | nil => exact absurd rfl nonempty
  | cons c text => rfl

theorem hex_nodot {text : List Byte} (hex : ∀ c ∈ text, IsHex c) : ∀ c ∈ text, c ≠ chr '.' :=
  fun c mem => isHex_ne (hex c mem) (by decide)

theorem hexText_plain {text : List Byte} (hex : IsHexText text) (rest : List Byte) :
    minusOne (text ++ rest) = .ok false := by
  cases text with
  | nil => exact absurd rfl hex.1
  | cons c text => exact minusOne_other (isHex_ne (hex.2 c List.mem_cons_self) (by decide)) _

theorem parseId_context {id : IdText} (wellFormed : id.WellFormed) {procOld threadOld : BitVec 32}
    {v : VcontId}
    (parses : id.ParsesTo procOld threadOld v) {c : Byte} (ends : ¬ IsHex c) (rest : List Byte) :
    parseThreadId (id.text ++ c :: rest) procOld threadOld =
      .ok ⟨some (if id.thread = str "-1" ∧ c ≠ 0 then str "-1" ++ c :: rest else c :: rest),
        v.procId, v.threadId⟩ := by
  obtain ⟨proc, thread⟩ := id
  obtain ⟨vproc, vthread⟩ := v
  obtain ⟨procHex, threadText⟩ := wellFormed
  have split (tail : List Byte) :
      parseThreadId (IdText.text ⟨proc, thread⟩ ++ tail) procOld threadOld = (do
      let procId ← storeId (proc ++ chr '.' :: (thread ++ tail)) proc.length procOld
      parseThread (thread ++ tail) procId threadOld) := by
    have parts := @parseThreadId_parts proc (thread ++ tail) (hex_nodot procHex.2)
        (hexText_plain procHex _)
      procOld threadOld
    rw [← parts]
    simp [IdText.text]
  unfold IdText.ParsesTo at parses
  rw [split] at parses ⊢
  obtain ⟨procId, stored, parsed⟩ := bind_ok parses
  rw [storeId_front procHex.1 _ (chr '.' :: (thread ++ [0])), stored, ok_bind]
  rcases threadText with rfl | threadHex
  · dsimp only at parsed ⊢
    rw [parseThread_all] at parsed ⊢
    cases parsed
    by_cases last : c = 0
    · rw [if_pos last, if_neg fun h => h.2 last]
    · rw [if_neg last, if_pos ⟨rfl, last⟩]
  · dsimp only at parsed threadHex ⊢
    rw [parseThread_digits threadHex.1 threadHex.2 (by decide)] at parsed
    obtain ⟨threadId, stored', made⟩ := bind_ok parsed
    cases made
    rw [parseThread_digits threadHex.1 threadHex.2 ends, storeId_front threadHex.1 _ [0],
      stored', ok_bind,
      if_neg fun h => digits_not_all threadHex.2 h.1]
    rfl

/- Actions. -/

/-- `;s` or `;c` and the ids, each behind a colon. -/
structure ActionText where
  stepping : Bool
  ids : List IdText

def idsText (ids : List IdText) : List Byte := ids.flatMap fun id => chr ':' :: id.text

def ActionText.text (a : ActionText) : List Byte :=
  chr ';' :: (if a.stepping = true then chr 's' else chr 'c') :: idsText a.ids

def actionsText (actions : List ActionText) : List Byte := actions.flatMap ActionText.text

structure ActionText.WellFormed (a : ActionText) : Prop where
  some : a.ids ≠ []
  ids : ∀ id ∈ a.ids, id.WellFormed

section
variable (junk : Nat → BitVec 32)

def IdsParse : (drawn : Nat) → List IdText → List VcontId → Prop
  | _, [], [] => True
  | drawn, id :: ids, v :: vs => id.ParsesTo (junk drawn) (junk (drawn + 1)) v ∧
    IdsParse (drawn + 2) ids vs
  | _, _, _ => False

def ActionsParse : (drawn : Nat) → List ActionText → List VcontAction → Prop
  | _, [], [] => True
  | drawn, a :: actions, v :: script =>
      v.stepping = a.stepping ∧ IdsParse junk drawn a.ids v.ids ∧
      ActionsParse (drawn + 2 * a.ids.length) actions script
  | _, _, _ => False

end

/-- The thread is a number, or it is `-1` and the packet ends here. -/
def IdText.EndsBefore (id : IdText) (c : Byte) : Prop := id.thread ≠ str "-1" ∨ c = 0

instance (id : IdText) (c : Byte) : Decidable (id.EndsBefore c) :=
  inferInstanceAs (Decidable (id.thread ≠ str "-1" ∨ c = 0))

variable {junk : Nat → BitVec 32}

theorem idsParse_length {drawn : Nat} {ids : List IdText} {vs : List VcontId}
    (parse : IdsParse junk drawn ids vs) : ids.length = vs.length := by
  induction ids generalizing drawn vs with
  | nil =>
    cases vs with
    | nil => rfl
    | cons v vs => exact parse.elim
  | cons id ids ih =>
    cases vs with
    | nil => exact parse.elim
    | cons v vs => rw [List.length_cons, List.length_cons, ih parse.2]

theorem readIds_step {id : IdText} (wellFormed : id.WellFormed) {drawn : Nat} {v : VcontId}
    (parses : id.ParsesTo (junk drawn) (junk (drawn + 1)) v) {c : Byte}
    (ends : ¬ IsHex c) (fuel : Nat) (rest : List Byte) :
    readIds junk (fuel + 1) drawn (chr ':' :: (id.text ++ c :: rest)) =
      if id.EndsBefore c then
        if c = chr ':' then
          readIds junk fuel (drawn + 2) (c :: rest) >>= fun later => .ok (v :: later.1, later.2)
        else .ok ([v], c :: rest)
      else .ok ([v], str "-1" ++ c :: rest) := by
  rw [readIds, show peek (chr ':' :: (id.text ++ c :: rest)) = .ok (chr ':') from rfl, ok_bind,
    assertParse, if_pos rfl,
    ok_bind, List.tail_cons, parseId_context wellFormed parses ends, ok_bind]
  dsimp only
  by_cases stops : id.EndsBefore c
  · rw [if_pos stops, if_neg fun stray => stops.elim (fun ne => ne stray.1) stray.2,
      show peek (c :: rest) = .ok c from rfl, ok_bind]
    rfl
  · rw [if_neg stops, if_pos (not_or.mp stops |>.imp_left Decidable.not_not.mp),
      show peek (str "-1" ++ c :: rest) = .ok (chr '-') from rfl, ok_bind, if_neg (by decide)]
    rfl

theorem readIds_cons {id : IdText} (wellFormed : id.WellFormed) {drawn : Nat} {v : VcontId}
    (parses : id.ParsesTo (junk drawn) (junk (drawn + 1)) v) (plain : id.thread ≠ str "-1")
    {ids : List IdText} (more : ids ≠ []) (fuel : Nat) (rest : List Byte) :
    readIds junk (fuel + 1) drawn (idsText (id :: ids) ++ rest) =
      readIds junk fuel (drawn + 2) (idsText ids ++ rest) >>=
        fun later => .ok (v :: later.1, later.2) := by
  cases ids with
  | nil => exact absurd rfl more
  | cons next ids =>
    have text : idsText (id :: next :: ids) ++ rest =
        chr ':' :: (id.text ++ chr ':' :: (next.text ++ (idsText ids ++ rest))) := by simp [idsText]
    have later : idsText (next :: ids) ++ rest = chr ':' ::
        (next.text ++ (idsText ids ++ rest)) := by simp [idsText]
    have stops : id.EndsBefore (chr ':') := Or.inl plain
    rw [text, readIds_step wellFormed parses (by decide), if_pos stops, if_pos rfl, ← later]

theorem readIds_ends {ids : List IdText} (nonempty : ids ≠ [])
    (wellFormed : ∀ id ∈ ids, id.WellFormed) {drawn : Nat}
    {vs : List VcontId} (parse : IdsParse junk drawn ids vs) {c : Byte} (stop : c = chr ';' ∨ c = 0)
    (inner : ∀ id ∈ ids.dropLast, id.thread ≠ str "-1")
    (last : ∀ id ∈ ids.getLast?, id.EndsBefore c) {fuel : Nat}
    (room : ids.length ≤ fuel) (rest : List Byte) :
    readIds junk fuel drawn (idsText ids ++ c :: rest) = .ok (vs, c :: rest) := by
  induction ids generalizing drawn vs fuel with
  | nil => exact absurd rfl nonempty
  | cons id ids ih =>
    cases vs with
    | nil => exact parse.elim
    | cons v vs =>
      obtain ⟨fuel, rfl⟩ : ∃ f, fuel = f + 1 :=
        ⟨fuel - 1, by simp only [List.length_cons] at room; omega⟩
      have here := wellFormed id List.mem_cons_self
      cases ids with
      | nil =>
        cases vs with
        | nil =>
          have ends : ¬ IsHex c := by rcases stop with rfl | rfl <;> decide
          have text : idsText [id] ++ c :: rest = chr ':' :: (id.text ++ c :: rest) := by
            simp [idsText]
          rw [text, readIds_step here parse.1 ends, if_pos (last id rfl), if_neg]
          rcases stop with rfl | rfl <;> decide
        | cons w vs => exact parse.2.elim
      | cons next ids =>
        have more : next :: ids ≠ [] := List.cons_ne_nil _ _
        rw [readIds_cons here parse.1 (inner id List.mem_cons_self) more,
          ih more (fun id mem => wellFormed id (List.mem_cons_of_mem _ mem)) parse.2
            (fun id mem => inner id (List.mem_cons_of_mem _ mem)) last (by simpa using room)]
        rfl

/-- An id with thread `-1` that is followed by anything leaves the parser at its minus sign. -/
theorem readIds_stray {before after : List IdText} {id : IdText}
    (wellFormed : ∀ id' ∈ before ++ id :: after, id'.WellFormed) {drawn : Nat} {vs : List VcontId}
    (parse : IdsParse junk drawn (before ++ id :: after) vs) {c : Byte} (stop : c = chr ';' ∨ c = 0)
    (plain : ∀ id' ∈ before, id'.thread ≠ str "-1") (all : id.thread = str "-1")
    (followed : after ≠ [] ∨ c ≠ 0) {fuel : Nat} (room : (before ++ id :: after).length ≤ fuel)
    (rest : List Byte) :
    ∃ vs' rest', readIds junk fuel drawn (idsText (before ++ id :: after) ++ c :: rest) =
    .ok (vs', chr '-' :: rest') := by
  induction before generalizing drawn vs fuel with
  | nil =>
    cases vs with
    | nil => exact parse.elim
    | cons v vs =>
      obtain ⟨fuel, rfl⟩ : ∃ f, fuel = f + 1 :=
        ⟨fuel - 1, by simp only [List.nil_append, List.length_cons] at room; omega⟩
      have here := wellFormed id (by simp)
      cases after with
      | nil =>
        have nonzero : c ≠ 0 := followed.resolve_left fun h => h rfl
        have ends : ¬ IsHex c := by rcases stop with rfl | rfl <;> decide
        have text : idsText ([] ++ [id]) ++ c :: rest = chr ':' :: (id.text ++ c :: rest) := by
          simp [idsText]
        have stray : ¬ id.EndsBefore c := not_or.mpr ⟨fun ne => ne all, nonzero⟩
        rw [text, readIds_step here parse.1 ends, if_neg stray]
        exact ⟨_, _, rfl⟩
      | cons next after =>
        have text : idsText ([] ++ id :: next :: after) ++ c :: rest =
            chr ':' :: (id.text ++ chr ':' :: (next.text ++ (idsText after ++ c :: rest))) := by
          simp [idsText]
        have stray : ¬ id.EndsBefore (chr ':') := not_or.mpr ⟨fun ne => ne all, by decide⟩
        rw [text, readIds_step here parse.1 (by decide), if_neg stray]
        exact ⟨_, _, rfl⟩
  | cons first before ih =>
    cases vs with
    | nil => exact parse.elim
    | cons v vs =>
      obtain ⟨fuel, rfl⟩ : ∃ f, fuel = f + 1 :=
        ⟨fuel - 1, by simp only [List.cons_append, List.length_cons] at room; omega⟩
      obtain ⟨vs', rest', read⟩ :=
        ih (fun id mem => wellFormed id (List.mem_cons_of_mem _ mem)) parse.2
        (fun id mem => plain id (List.mem_cons_of_mem _ mem)) (by simpa using room)
      rw [List.cons_append, readIds_cons (wellFormed first List.mem_cons_self) parse.1
        (plain first List.mem_cons_self)
        (by simp), read]
      exact ⟨_, _, rfl⟩

/-- Every id but the last of the packet names its thread by number. -/
def NumbersFirst (actions : List ActionText) : Prop :=
  ∀ id ∈ (actions.flatMap ActionText.ids).dropLast, id.thread ≠ str "-1"

def ActionText.EndsBefore (a : ActionText) (c : Byte) : Prop :=
  (∀ id ∈ a.ids.dropLast, id.thread ≠ str "-1") ∧ ∀ id ∈ a.ids.getLast?, id.EndsBefore c

def followedBy (actions : List ActionText) : Byte :=
  match actions with
  | [] => 0
  | _ :: _ => chr ';'

theorem ids_nonempty {actions : List ActionText} (wellFormed : ∀ a ∈ actions, a.WellFormed)
    (some : actions ≠ []) :
    actions.flatMap ActionText.ids ≠ [] := by
  cases actions with
  | nil => exact absurd rfl some
  | cons a actions =>
    rw [List.flatMap_cons]
    exact List.append_ne_nil_of_left_ne_nil (wellFormed a List.mem_cons_self).some _

theorem numbersFirst_cons {a : ActionText} {actions : List ActionText}
    (wellFormed : ∀ b ∈ a :: actions, b.WellFormed) :
    NumbersFirst (a :: actions) ↔ a.EndsBefore (followedBy actions) ∧ NumbersFirst actions := by
  have some := (wellFormed a List.mem_cons_self).some
  unfold NumbersFirst
  rw [List.flatMap_cons]
  cases actions with
  | nil =>
    rw [List.flatMap_nil, List.append_nil]
    constructor
    · intro inner
      exact ⟨⟨inner, fun id _ => Or.inr rfl⟩, by simp⟩
    · exact fun ends => ends.1.1
  | cons b actions =>
    have later := ids_nonempty (fun c mem => wellFormed c (List.mem_cons_of_mem _ mem))
        (List.cons_ne_nil b actions)
    rw [List.dropLast_append_of_ne_nil later]
    have split : a.ids = a.ids.dropLast ++ [a.ids.getLast some] :=
      (List.dropLast_append_getLast some).symm
    constructor
    · intro plain
      refine ⟨⟨fun id mem => ?_, fun id mem => ?_⟩, fun id mem =>
        plain id (List.mem_append_right _ mem)⟩
      · exact plain id (List.mem_append_left _ (List.mem_of_mem_dropLast mem))
      · exact Or.inl (plain id (List.mem_append_left _ (List.mem_of_getLast? mem)))
    · rintro ⟨⟨inner, last⟩, others⟩ id mem
      rcases List.mem_append.mp mem with here | there
      · rw [split] at here
        rcases List.mem_append.mp here with front | back
        · exact inner id front
        · have final : id ∈ a.ids.getLast? := by
            rw [List.mem_singleton.mp back, List.getLast?_eq_getLast_of_ne_nil some]
            rfl
          exact (last id final).resolve_right (show chr ';' ≠ 0 by decide)
      · exact others id there

theorem actionsText_head (actions : List ActionText) (tail : List Byte) :
    ∃ rest, actionsText actions ++ 0 :: tail = followedBy actions :: rest := by
  cases actions with
  | nil => exact ⟨tail, rfl⟩
  | cons a actions => exact ⟨_, rfl⟩

theorem followedBy_cases (actions : List ActionText) :
    followedBy actions = chr ';' ∨ followedBy actions = 0 := by
  cases actions with
  | nil => exact Or.inr rfl
  | cons a actions => exact Or.inl rfl

theorem idsText_length (ids : List IdText) : ids.length ≤ (idsText ids).length := by
  induction ids with
  | nil => exact Nat.zero_le _
  | cons id ids ih =>
    simp only [idsText, List.flatMap_cons, List.length_append, List.length_cons] at ih ⊢
    omega

theorem actionsText_cons (a : ActionText) (actions : List ActionText) (rest : List Byte) :
    actionsText (a :: actions) ++ rest =
      chr ';' :: (if a.stepping = true then chr 's' else chr 'c') ::
        (idsText a.ids ++ (actionsText actions ++ rest)) := by
  simp [actionsText, ActionText.text]

theorem readActions_cons {a : ActionText} {ids : List VcontId} {fuel drawn : Nat}
    {input rest : List Byte}
    (read : readIds junk fuel drawn (idsText a.ids ++ input) = .ok (ids, rest)) :
    readActions junk (fuel + 1) drawn
        (chr ';' :: (if a.stepping = true then chr 's' else chr 'c') :: (idsText a.ids ++ input)) =
      readActions junk fuel (drawn + 2 * ids.length) rest >>=
        fun later => .ok (⟨a.stepping, ids⟩ :: later.1, later.2) := by
  have kind : (if a.stepping = true then chr 's' else chr 'c') = chr 's' ∧ a.stepping = true ∨
      (if a.stepping = true then chr 's' else chr 'c') = chr 'c' ∧ a.stepping = false := by
    cases a.stepping with
    | true => exact Or.inl ⟨rfl, rfl⟩
    | false => exact Or.inr ⟨rfl, rfl⟩
  exact readActions_round kind rfl rfl read

/-- A packet is read as it is written when only its last id has thread `-1`. -/
theorem readActions_ends {actions : List ActionText} (wellFormed : ∀ a ∈ actions, a.WellFormed)
    {drawn : Nat} {script : List VcontAction} (parse : ActionsParse junk drawn actions script)
    (numbers : NumbersFirst actions)
    (tail : List Byte) {fuel : Nat} (room : (actionsText actions).length < fuel) :
    readActions junk fuel drawn (actionsText actions ++ 0 :: tail) = .ok (script, true) := by
  induction actions generalizing drawn script fuel with
  | nil =>
    cases script with
    | cons v script => exact parse.elim
    | nil =>
      obtain ⟨fuel, rfl⟩ : ∃ f, fuel = f + 1 := ⟨fuel - 1, by omega⟩
      rfl
  | cons a actions ih =>
    cases script with
    | nil => exact parse.elim
    | cons v script =>
      obtain ⟨vstepping, vids⟩ := v
      obtain ⟨stepping, ids, later⟩ := parse
      obtain ⟨ends, others⟩ := (numbersFirst_cons wellFormed).mp numbers
      obtain ⟨fuel, rfl⟩ : ∃ f, fuel = f + 1 := ⟨fuel - 1, by omega⟩
      have length : (actionsText (a :: actions)).length =
          2 + ((idsText a.ids).length + (actionsText actions).length) := by
        have text := congrArg List.length (actionsText_cons a actions [])
        simp only [List.length_append, List.length_cons, List.length_nil] at text
        omega
      have short := idsText_length a.ids
      obtain ⟨rest, next⟩ := actionsText_head actions tail
      have first := wellFormed a List.mem_cons_self
      have read := readIds_ends first.some first.ids ids (followedBy_cases actions) ends.1 ends.2
        (show a.ids.length ≤ fuel by omega) rest
      rw [← next] at read
      have here := ih (fun b mem => wellFormed b (List.mem_cons_of_mem _ mem)) later others
        (show (actionsText actions).length < fuel by omega)
      rw [actionsText_cons, readActions_cons read, ← idsParse_length ids, here]
      dsimp only at stepping
      rw [stepping]
      rfl

theorem readActions_minus (fuel drawn : Nat) (rest : List Byte) :
    ∃ e, readActions junk fuel drawn (chr '-' :: rest) = .error e := by
  cases fuel with
  | zero => exact ⟨_, rfl⟩
  | succ fuel => exact ⟨_, rfl⟩

theorem readIds_not_ends {a : ActionText} (wellFormed : a.WellFormed) {drawn : Nat}
    {vs : List VcontId}
    (parse : IdsParse junk drawn a.ids vs) {c : Byte} (stop : c = chr ';' ∨ c = 0)
    (stray : ¬ a.EndsBefore c) {fuel : Nat} (room : a.ids.length ≤ fuel) (rest : List Byte) :
    ∃ vs' rest', readIds junk fuel drawn (idsText a.ids ++ c :: rest) =
    .ok (vs', chr '-' :: rest') := by
  cases found : a.ids.find? fun id => decide (id.thread = str "-1") with
  | none =>
    have plain : ∀ id ∈ a.ids, id.thread ≠ str "-1" := by simpa using found
    exact absurd ⟨fun id mem => plain id (List.mem_of_mem_dropLast mem),
      fun id mem => Or.inl (plain id (List.mem_of_getLast? mem))⟩ stray
  | some id =>
    obtain ⟨all, before, after, split, plain⟩ := List.find?_eq_some_iff_append.mp found
    replace all : id.thread = str "-1" := of_decide_eq_true all
    replace plain : ∀ id' ∈ before, id'.thread ≠ str "-1" := by simpa using plain
    have followed : after ≠ [] ∨ c ≠ 0 := by
      by_contra neither
      rw [not_or, not_not, not_not] at neither
      obtain ⟨rfl, rfl⟩ := neither
      refine stray ⟨?_, fun _ _ => Or.inr rfl⟩
      rw [split, List.dropLast_concat]
      exact plain
    have ids := wellFormed.ids
    rw [split] at parse ids room ⊢
    exact readIds_stray ids parse stop plain all followed room rest

theorem readActions_stray {actions : List ActionText} (wellFormed : ∀ a ∈ actions, a.WellFormed)
    {drawn : Nat} {script : List VcontAction} (parse : ActionsParse junk drawn actions script)
    (numbers : ¬ NumbersFirst actions)
    (tail : List Byte) {fuel : Nat} (room : (actionsText actions).length < fuel) :
    ∃ e, readActions junk fuel drawn (actionsText actions ++ 0 :: tail) = .error e := by
  induction actions generalizing drawn script fuel with
  | nil => exact absurd (by simp [NumbersFirst]) numbers
  | cons a actions ih =>
    cases script with
    | nil => exact parse.elim
    | cons v script =>
      obtain ⟨vstepping, vids⟩ := v
      obtain ⟨stepping, ids, later⟩ := parse
      obtain ⟨fuel, rfl⟩ : ∃ f, fuel = f + 1 := ⟨fuel - 1, by omega⟩
      have length : (actionsText (a :: actions)).length =
          2 + ((idsText a.ids).length + (actionsText actions).length) := by
        have text := congrArg List.length (actionsText_cons a actions [])
        simp only [List.length_append, List.length_cons, List.length_nil] at text
        omega
      have short := idsText_length a.ids
      obtain ⟨rest, next⟩ := actionsText_head actions tail
      have first := wellFormed a List.mem_cons_self
      by_cases ends : a.EndsBefore (followedBy actions)
      · have read := readIds_ends first.some first.ids ids (followedBy_cases actions) ends.1 ends.2
          (show a.ids.length ≤ fuel by omega) rest
        rw [← next] at read
        obtain ⟨e, error⟩ := ih (fun b mem => wellFormed b (List.mem_cons_of_mem _ mem)) later
          (fun others => numbers ((numbersFirst_cons wellFormed).mpr ⟨ends, others⟩))
          (show (actionsText actions).length < fuel by omega)
        rw [actionsText_cons, readActions_cons read, ← idsParse_length ids, error]
        exact ⟨e, rfl⟩
      · obtain ⟨vs', rest', read⟩ := readIds_not_ends first ids (followedBy_cases actions) ends
          (show a.ids.length ≤ fuel by omega) rest
        rw [← next] at read
        obtain ⟨e, error⟩ := @readActions_minus junk fuel (drawn + 2 * vs'.length) rest'
        rw [actionsText_cons, readActions_cons read, error]
        exact ⟨e, rfl⟩

end Libgdb
