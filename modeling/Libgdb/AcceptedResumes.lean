import Libgdb.ThreadSelection
import Libgdb.ResumeTexts
import Libgdb.ResumeEffects

/-!
The vCont packets that are taken, of those the stub invites. Its reply to `vCont?` lists `c`, `C`,
`s` and `S`, and GDB may leave out the thread-id of an action. What the parser takes for an action
without signal is one thread-id, and it reads `p-1` in front of another action as the process of
the next id that has a dot.
-/
namespace Libgdb
open ByteMemory CheckedPrograms

/- Packets. -/

/-- The kinds of action in the reply to `vCont?`. -/
inductive ResumeKind where
  | cont
  | contSignal (signal : List Byte)
  | step
  | stepSignal (signal : List Byte)

def ResumeKind.text : ResumeKind → List Byte
  | .cont => str "c"
  | .contSignal signal => chr 'C' :: signal
  | .step => str "s"
  | .stepSignal signal => chr 'S' :: signal

def ResumeKind.Plain : ResumeKind → Prop
  | .cont | .step => True
  | .contSignal _ | .stepSignal _ => False

/-- `p-1`, or `p<P>.-1` and `p<P>.<T>` -/
inductive ResumeId where
  | everyProcess
  | within (id : IdText)

def ResumeId.text : ResumeId → List Byte
  | .everyProcess => str "p-1"
  | .within id => id.text

structure ResumeRequest where
  kind : ResumeKind
  id : Option ResumeId

def ResumeRequest.text (a : ResumeRequest) : List Byte :=
  chr ';' :: (a.kind.text ++ match a.id with
    | none => []
    | some id => chr ':' :: id.text)

def requestsText (requests : List ResumeRequest) : List Byte := requests.flatMap ResumeRequest.text

def ResumeKind.WellFormed : ResumeKind → Prop
  | .cont | .step => True
  | .contSignal signal | .stepSignal signal => signal.length = 2 ∧ ∀ c ∈ signal, IsHex c

/-- A signal is two digits, and the numbers of an id are written in hex. -/
structure ResumeRequest.WellFormed (a : ResumeRequest) : Prop where
  kind : a.kind.WellFormed
  id : ∀ id, a.id = some (.within id) → id.WellFormed

section
variable [Machine]

/-- The ids name a registered inferior, and a live thread of it or all of them. -/
def ResumeRequest.Named (s : State) (a : ResumeRequest) : Prop :=
  ∀ id, a.id = some (.within id) → ∃ t : ThreadRef, (s.inferiors t.pd).enabled = true ∧
    (s.inferiors t.pd).gdbId.toNat = hexNumber id.proc ∧
    (id.thread = str "-1" ∨ s.live t = true ∧ (s.thread t).gdbId.toNat = hexNumber id.thread)

/-- The packet is read up to its NUL, whatever lies behind it, without a fault and without being
    answered with E04. -/
def PacketAccepted (s : State) (requests : List ResumeRequest) : Prop :=
  ∀ tail, ∃ u, (gdbHandlePacket (str "vCont" ++ (requestsText requests ++ 0 :: tail))).run s =
      .ok true u ∧
    u.reply ≠ str "E04"

/- What is taken. -/

/-- The process field and the thread behind its dot are stored over the next two of the
    uninitialised ints, and what comes out can be looked up. `-1` is a thread at the end of the
    packet only. -/
def FieldsTaken (s : State) (drawn : Nat) (field thread : List Byte) (later : List ResumeRequest) :
    Prop :=
  field.length < 10 ∧
    if thread = str "-1" then
      later = [] ∧ IdsInRange s (.resume true) (storedInt (Machine.junkInt drawn) field).toInt (-1)
    else
      thread.length < 10 ∧ IdsInRange s (.resume true)
        (storedInt (Machine.junkInt drawn) field).toInt
        (storedInt (Machine.junkInt (drawn + 1)) thread).toInt

/-- The requests that are taken, from here or from within a process field that still lacks its
    dot. The field swallows what comes before the dot. -/
def RequestsTaken (s : State) : (drawn : Nat) → (pending : Option (List Byte)) →
    List ResumeRequest → Prop
  | _, none, [] => True
  | drawn, none, a :: later =>
      a.kind.Plain ∧ match a.id with
        | none => False
        | some .everyProcess => later = [] ∨ RequestsTaken s drawn (some (str "-1")) later
        | some (.within id) =>
            FieldsTaken s drawn id.proc id.thread later ∧ RequestsTaken s (drawn + 2) none later
  | _, some _, [] => False
  | drawn, some field, a :: later =>
      match a.id with
      | none | some .everyProcess => RequestsTaken s drawn (some (field ++ a.text)) later
      | some (.within id) =>
          FieldsTaken s drawn (field ++ chr ';' :: (a.kind.text ++ str ":p" ++ id.proc))
            id.thread later ∧
            RequestsTaken s (drawn + 2) none later

/- Reading. -/

/-- The actions are read to the end and keep to the tables. -/
def Reads (s : State) (fuel drawn : Nat) (input : List Byte) : Prop :=
  ∃ script, readActions Machine.junkInt fuel drawn input = .ok (script, true) ∧ ScriptReach s script

def ReadsIds (s : State) (fuel drawn : Nat) (input : List Byte) : Prop :=
  ∃ ids rest, readIds Machine.junkInt fuel drawn input = .ok (ids, rest) ∧ IdsReach s true ids ∧
    Reads s fuel (drawn + 2 * ids.length) rest

theorem reads_end {s : State} {fuel : Nat} (room : 0 < fuel) (drawn : Nat) (tail : List Byte) :
    Reads s fuel drawn (0 :: tail) := by
  obtain ⟨fuel, rfl⟩ : ∃ f, fuel = f + 1 := ⟨fuel - 1, by omega⟩
  exact ⟨[], rfl, fun a mem => nomatch mem⟩

theorem reads_minus {s : State} {fuel drawn : Nat} {rest : List Byte} :
    ¬ Reads s fuel drawn (chr '-' :: rest) := by
  rintro ⟨script, read, _⟩
  obtain ⟨e, error⟩ := @readActions_minus Machine.junkInt fuel drawn rest
  cases error.symm.trans read

omit [Machine] in
theorem readActions_plain {junk : Nat → BitVec 32} {kind : ResumeKind} (plain : kind.Plain) :
    ∃ b, ∀ fuel drawn input, readActions junk (fuel + 1) drawn (chr ';' :: (kind.text ++ input)) =
      readIds junk fuel drawn input >>= fun read =>
        readActions junk fuel (drawn + 2 * read.1.length) read.2 >>= fun later =>
          .ok (⟨b, read.1⟩ :: later.1, later.2) := by
  cases kind with
  | cont => exact ⟨false, fun _ _ _ => rfl⟩
  | step => exact ⟨true, fun _ _ _ => rfl⟩
  | contSignal => exact plain.elim
  | stepSignal => exact plain.elim

theorem reads_plain {s : State} {kind : ResumeKind} (plain : kind.Plain) {fuel : Nat}
    (room : 0 < fuel) (drawn : Nat) (input : List Byte) :
    Reads s fuel drawn (chr ';' :: (kind.text ++ input)) ↔ ReadsIds s (fuel - 1) drawn input := by
  obtain ⟨fuel, rfl⟩ : ∃ f, fuel = f + 1 := ⟨fuel - 1, by omega⟩
  obtain ⟨b, round⟩ := @readActions_plain Machine.junkInt kind plain
  rw [Nat.add_sub_cancel]
  constructor
  · rintro ⟨script, read, reach⟩
    rw [round] at read
    obtain ⟨⟨ids, rest⟩, first, read⟩ := bind_ok read
    obtain ⟨⟨later, supported⟩, others, made⟩ := bind_ok read
    cases made
    obtain ⟨here, there⟩ := List.forall_mem_cons.mp reach
    exact ⟨ids, rest, first, here, later, others, there⟩
  · rintro ⟨ids, rest, first, here, later, others, there⟩
    refine ⟨⟨b, ids⟩ :: later, ?_, List.forall_mem_cons.mpr ⟨here, there⟩⟩
    rw [round, first, ok_bind, others]
    rfl

theorem reads_signal {s : State} {kind : ResumeKind} (signal : ¬ kind.Plain) {fuel drawn : Nat}
    {input : List Byte} :
    ¬ Reads s fuel drawn (chr ';' :: (kind.text ++ input)) := by
  rintro ⟨script, read, _⟩
  cases fuel with
  | zero => cases read
  | succ fuel =>
    cases kind with
    | cont => exact signal trivial
    | step => exact signal trivial
    | contSignal => cases read
    | stepSignal => cases read

theorem readsIds_missing {s : State} {fuel drawn : Nat} {c : Byte} (other : c ≠ chr ':')
    {rest : List Byte} :
    ¬ ReadsIds s fuel drawn (c :: rest) := by
  rintro ⟨ids, rest', read, _⟩
  cases fuel with
  | zero => cases read
  | succ fuel =>
    have failed : readIds Machine.junkInt (fuel + 1) drawn (c :: rest) = .error .assertFail := by
      rw [readIds, show peek (c :: rest) = .ok c from rfl, ok_bind, assertParse, if_neg other]
      rfl
    cases failed.symm.trans read

theorem readsIds_parsed {s : State} {fuel drawn : Nat} (room : 0 < fuel)
    {input : List Byte} {c : Byte} {rest : List Byte} (other : c ≠ chr ':') {p t : BitVec 32}
    (parsed : parseThreadId input (Machine.junkInt drawn) (Machine.junkInt (drawn + 1)) =
      .ok ⟨some (c :: rest), p, t⟩) :
    ReadsIds s fuel drawn (chr ':' :: input) ↔
      IdsInRange s (.resume true) p.toInt t.toInt ∧ Reads s fuel (drawn + 2) (c :: rest) := by
  obtain ⟨fuel, rfl⟩ : ∃ f, fuel = f + 1 := ⟨fuel - 1, by omega⟩
  have read : readIds Machine.junkInt (fuel + 1) drawn (chr ':' :: input) =
      .ok ([⟨p, t⟩], c :: rest) := by
    rw [readIds, show peek (chr ':' :: input) = .ok (chr ':') from rfl, ok_bind, assertParse,
      if_pos rfl, ok_bind,
      List.tail_cons, parsed, ok_bind]
    dsimp only
    rw [show peek (c :: rest) = .ok c from rfl, ok_bind, if_neg other]
    rfl
  constructor
  · rintro ⟨ids, rest', read', reach, later⟩
    cases read.symm.trans read'
    exact ⟨reach _ List.mem_cons_self, later⟩
  · rintro ⟨range, later⟩
    exact ⟨_, _, read, fun id mem => List.mem_singleton.mp mem ▸ range, later⟩

theorem readsIds_fault {s : State} {fuel drawn : Nat} {input : List Byte} {e : Fault}
    (fault : parseThreadId input (Machine.junkInt drawn) (Machine.junkInt (drawn + 1)) = .error e) :
    ¬ ReadsIds s fuel drawn (chr ':' :: input) := by
  rintro ⟨ids, rest, read, _⟩
  cases fuel with
  | zero => cases read
  | succ fuel =>
    have failed : readIds Machine.junkInt (fuel + 1) drawn (chr ':' :: input) = .error e := by
      rw [readIds, show peek (chr ':' :: input) = .ok (chr ':') from rfl, ok_bind, assertParse,
        if_pos rfl, ok_bind,
        List.tail_cons, fault]
      rfl
    cases failed.symm.trans read

/- Ids. -/

omit [Machine] in
theorem parseFields_number {field thread : List Byte} (dotless : ∀ c ∈ field, c ≠ chr '.')
    (digits : IsHexText thread)
    {tail : List Byte} {c : Byte} {rest : List Byte} (follows : tail = c :: rest) (ends : ¬ IsHex c)
    (more : minusOne (field ++ chr '.' :: (thread ++ tail)) = .ok false)
    (procOld threadOld : BitVec 32) :
    parseThreadId (chr 'p' :: (field ++ chr '.' :: (thread ++ tail))) procOld threadOld =
      if field.length < 10 then
        if thread.length < 10 then .ok ⟨some tail, storedInt procOld field,
          storedInt threadOld thread⟩
        else .error .localOverwrite
      else .error .localOverwrite := by
  subst follows
  rw [parseThreadId_parts dotless more, storeId_stored field dot_not_hex]
  by_cases short : field.length < 10
  · rw [if_pos short, if_pos short, ok_bind, parseThread_digits digits.1 digits.2 ends,
      storeId_stored thread ends]
    by_cases short' : thread.length < 10
    · rw [if_pos short', if_pos short']
      rfl
    · rw [if_neg short', if_neg short']
      rfl
  · rw [if_neg short, if_neg short]
    rfl

omit [Machine] in
theorem parseFields_all {field : List Byte} (dotless : ∀ c ∈ field, c ≠ chr '.') {c : Byte}
    {rest : List Byte} (more : minusOne (field ++ chr '.' :: (str "-1" ++ c :: rest)) = .ok false)
    (procOld threadOld : BitVec 32) :
    parseThreadId (chr 'p' :: (field ++ chr '.' :: (str "-1" ++ c :: rest))) procOld threadOld =
      if field.length < 10 then
        .ok ⟨some (if c = 0 then c :: rest else str "-1" ++ c :: rest), storedInt procOld field, -1⟩
      else .error .localOverwrite := by
  rw [parseThreadId_parts dotless more, storeId_stored field dot_not_hex]
  by_cases short : field.length < 10
  · rw [if_pos short, if_pos short, ok_bind, parseThread_all]
  · rw [if_neg short, if_neg short]
    rfl

omit [Machine] in
theorem requestsText_follows (later : List ResumeRequest) (tail : List Byte) :
    (later = [] ∧ requestsText later ++ 0 :: tail = 0 :: tail) ∨
      (later ≠ [] ∧ ∃ rest, requestsText later ++ 0 :: tail = chr ';' :: rest) := by
  cases later with
  | nil => exact Or.inl ⟨rfl, rfl⟩
  | cons a later => exact Or.inr ⟨List.cons_ne_nil _ _, _, rfl⟩

theorem readsIds_fields {s : State} {fuel : Nat} (room : 0 < fuel) (drawn : Nat)
    {field thread : List Byte}
    (dotless : ∀ c ∈ field, c ≠ chr '.') (text : thread = str "-1" ∨ IsHexText thread)
    (later : List ResumeRequest) (tail : List Byte)
    (more : minusOne (field ++ chr '.' :: (thread ++ (requestsText later ++ 0 :: tail))) =
      .ok false) :
    ReadsIds s fuel drawn (chr ':' :: chr 'p' ::
      (field ++ chr '.' :: (thread ++ (requestsText later ++ 0 :: tail)))) ↔
      FieldsTaken s drawn field thread later ∧ Reads s fuel (drawn + 2)
        (requestsText later ++ 0 :: tail) := by
  unfold FieldsTaken
  rcases text with rfl | digits
  · rw [if_pos rfl]
    rcases requestsText_follows later tail with ⟨last, follows⟩ | ⟨inner, rest, follows⟩
    · rw [follows] at more ⊢
      have parse := parseFields_all dotless more (Machine.junkInt drawn)
          (Machine.junkInt (drawn + 1))
      by_cases short : field.length < 10
      · rw [if_pos short, if_pos rfl] at parse
        rw [readsIds_parsed room (by decide) parse]
        simp [short, last]
      · rw [if_neg short] at parse
        exact iff_of_false (readsIds_fault parse) fun taken => short taken.1.1
    · rw [follows] at more ⊢
      have parse := parseFields_all dotless more (Machine.junkInt drawn)
          (Machine.junkInt (drawn + 1))
      refine iff_of_false ?_ fun taken => inner taken.1.2.1
      by_cases short : field.length < 10
      · rw [if_pos short, if_neg (by decide)] at parse
        intro reads
        exact reads_minus ((readsIds_parsed room (by decide) parse).mp reads).2
      · rw [if_neg short] at parse
        exact readsIds_fault parse
  · obtain ⟨c, rest, follows, ends, colon⟩ : ∃ c rest, requestsText later ++ 0 :: tail = c :: rest ∧
        ¬ IsHex c ∧
        c ≠ chr ':' := by
      rcases requestsText_follows later tail with ⟨_, follows⟩ | ⟨_, rest, follows⟩
      · exact ⟨0, tail, follows, by decide, by decide⟩
      · exact ⟨chr ';', rest, follows, by decide, by decide⟩
    rw [if_neg (digits_not_all digits.2)]
    have parse := parseFields_number dotless digits follows ends more (Machine.junkInt drawn)
      (Machine.junkInt (drawn + 1))
    by_cases short : field.length < 10
    · by_cases short' : thread.length < 10
      · rw [if_pos short, if_pos short', follows] at parse
        rw [follows, readsIds_parsed room colon parse]
        simp [short, short']
      · rw [if_pos short, if_neg short'] at parse
        exact iff_of_false (readsIds_fault parse) fun taken => short' taken.1.2.1
    · rw [if_neg short] at parse
      exact iff_of_false (readsIds_fault parse) fun taken => short taken.1.1

theorem readsIds_everyProcess {s : State} {fuel : Nat} (room : 0 < fuel) (drawn : Nat)
    (tail : List Byte) :
    ReadsIds s fuel drawn (chr ':' :: (str "p-1" ++ 0 :: tail)) := by
  have parse : parseThreadId (str "p-1" ++ 0 :: tail) (Machine.junkInt drawn)
      (Machine.junkInt (drawn + 1)) =
      .ok ⟨some (0 :: tail), -1, Machine.junkInt (drawn + 1)⟩ := rfl
  rw [readsIds_parsed room (by decide) parse]
  exact ⟨Or.inl rfl, reads_end room _ tail⟩

theorem readsIds_dotless {s : State} {fuel drawn : Nat} {text : List Byte}
    (dotless : ∀ c ∈ text, c ≠ chr '.')
    (more : minusOne text = .ok false) : ¬ ReadsIds s fuel drawn (chr ':' :: chr 'p' :: text) :=
  readsIds_fault (parseThreadId_undotted dotless more _ _)

/- Requests. -/

/-- What a process field has taken in so far, before another request. -/
structure PendingField (field : List Byte) : Prop where
  dotless : ∀ c ∈ field, c ≠ chr '.'
  more : ∀ rest, minusOne (field ++ chr ';' :: rest) = .ok false

omit [Machine] in
theorem pendingField_start : PendingField (str "-1") := ⟨by decide, fun _ => rfl⟩

omit [Machine] in
theorem kind_dotless {kind : ResumeKind} (wellFormed : kind.WellFormed) :
    ∀ c ∈ kind.text, c ≠ chr '.' := by
  have signal {first : Byte} (ne : first ≠ chr '.') {digits : List Byte}
      (hex : ∀ c ∈ digits, IsHex c) :
      ∀ c ∈ first :: digits, c ≠ chr '.' :=
    List.forall_mem_cons.mpr ⟨ne, hex_nodot hex⟩
  cases kind with
  | cont => decide
  | step => decide
  | contSignal digits => exact signal (by decide) wellFormed.2
  | stepSignal digits => exact signal (by decide) wellFormed.2

omit [Machine] in
theorem pendingField_append {field text : List Byte} (pending : PendingField field)
    (dotless : ∀ c ∈ text, c ≠ chr '.') : PendingField (field ++ chr ';' :: text) := by
  constructor
  · intro c mem
    rcases List.mem_append.mp mem with here | there
    · exact pending.dotless c here
    · rcases List.mem_cons.mp there with rfl | later
      · decide
      · exact dotless c later
  · intro rest
    rw [List.append_assoc]
    exact pending.more _

/-- What the stub makes of the rest of the packet, from the next request on or from within a
    process field. -/
def ReadsFrom (s : State) (fuel drawn : Nat) : Option (List Byte) → List Byte → Prop
  | none, input => Reads s fuel drawn input
  | some field, input => ReadsIds s fuel drawn (chr ':' :: chr 'p' :: (field ++ input))

theorem readsFrom_request {s : State} {fuel : Nat} (room : 1 < fuel) (drawn : Nat)
    {a : ResumeRequest}
    (wellFormed : a.WellFormed) (later : List ResumeRequest) (tail : List Byte) :
    ReadsFrom s fuel drawn none (requestsText (a :: later) ++ 0 :: tail) ↔
      a.kind.Plain ∧ match a.id with
        | none => False
        | some .everyProcess => later = [] ∨ ReadsFrom s (fuel - 1) drawn (some (str "-1"))
          (requestsText later ++ 0 :: tail)
        | some (.within id) => FieldsTaken s drawn id.proc id.thread later ∧
            ReadsFrom s (fuel - 1) (drawn + 2) none (requestsText later ++ 0 :: tail) := by
  obtain ⟨kind, id⟩ := a
  by_cases plain : kind.Plain
  · have read (ids : List Byte) : Reads s fuel drawn (chr ';' :: (kind.text ++ ids)) ↔
        ReadsIds s (fuel - 1) drawn ids :=
      reads_plain plain (by omega) drawn ids
    cases id with
    | none =>
      have text : requestsText (⟨kind, none⟩ :: later) ++ 0 :: tail =
          chr ';' :: (kind.text ++ (requestsText later ++ 0 :: tail)) := by
        simp [requestsText, ResumeRequest.text]
      rw [ReadsFrom, text, read]
      refine iff_of_false ?_ fun taken => taken.2
      rcases requestsText_follows later tail with ⟨_, follows⟩ | ⟨_, rest, follows⟩
      · rw [follows]
        exact readsIds_missing (by decide)
      · rw [follows]
        exact readsIds_missing (by decide)
    | some id =>
      cases id with
      | everyProcess =>
        have text : requestsText (⟨kind, some .everyProcess⟩ :: later) ++ 0 :: tail =
            chr ';' :: (kind.text ++ chr ':' ::
              (str "p-1" ++ (requestsText later ++ 0 :: tail))) := by
          simp [requestsText, ResumeRequest.text, ResumeId.text]
        rw [ReadsFrom, text, read]
        dsimp only
        rw [and_iff_right plain]
        cases later with
        | nil => exact iff_of_true (readsIds_everyProcess (by omega) drawn tail) (Or.inl rfl)
        | cons b later => exact (or_iff_right (List.cons_ne_nil _ _)).symm
      | within id =>
        have text : requestsText (⟨kind, some (.within id)⟩ :: later) ++ 0 :: tail =
            chr ';' :: (kind.text ++ chr ':' :: chr 'p' ::
              (id.proc ++ chr '.' :: (id.thread ++ (requestsText later ++ 0 :: tail)))) := by
          simp [requestsText, ResumeRequest.text, ResumeId.text, IdText.text]
        obtain ⟨proc, thread⟩ := wellFormed.id id rfl
        rw [ReadsFrom, text, read,
          readsIds_fields (by omega) drawn (hex_nodot proc.2) thread later tail
            (hexText_plain proc _), and_iff_right plain]
        rfl
  · have text : ∃ ids, requestsText (⟨kind, id⟩ :: later) ++ 0 :: tail = chr ';' ::
        (kind.text ++ ids) :=
      ⟨_, by
        rw [requestsText, List.flatMap_cons, ResumeRequest.text, List.cons_append, List.cons_append,
        List.append_assoc, List.append_assoc]⟩
    obtain ⟨ids, text⟩ := text
    rw [ReadsFrom, text]
    exact iff_of_false (reads_signal plain) fun taken => plain taken.1

theorem readsFrom_pending {s : State} {fuel : Nat} (room : 0 < fuel) (drawn : Nat)
    {field : List Byte}
    (pending : PendingField field) {a : ResumeRequest} (wellFormed : a.WellFormed)
    (later : List ResumeRequest) (tail : List Byte) :
    ReadsFrom s fuel drawn (some field) (requestsText (a :: later) ++ 0 :: tail) ↔
      match a.id with
      | none | some .everyProcess =>
          ReadsFrom s fuel drawn (some (field ++ a.text)) (requestsText later ++ 0 :: tail)
      | some (.within id) =>
          FieldsTaken s drawn (field ++ chr ';' :: (a.kind.text ++ str ":p" ++ id.proc))
            id.thread later ∧
            ReadsFrom s fuel (drawn + 2) none (requestsText later ++ 0 :: tail) := by
  obtain ⟨kind, id⟩ := a
  have swallowed : ReadsFrom s fuel drawn (some field)
      (requestsText (⟨kind, id⟩ :: later) ++ 0 :: tail) ↔
      ReadsFrom s fuel drawn (some (field ++ ResumeRequest.text ⟨kind, id⟩))
        (requestsText later ++ 0 :: tail) := by
    simp [ReadsFrom, requestsText]
  cases id with
  | none => exact swallowed
  | some id =>
    cases id with
    | everyProcess => exact swallowed
    | within id =>
      obtain ⟨proc, thread⟩ := wellFormed.id id rfl
      have front : ∀ c ∈ kind.text ++ str ":p" ++ id.proc, c ≠ chr '.' := by
        intro c mem
        rcases List.mem_append.mp mem with front | digit
        · rcases List.mem_append.mp front with here | there
          · exact kind_dotless wellFormed.kind c here
          · exact (show ∀ c ∈ str ":p", c ≠ chr '.' by decide) c there
        · exact hex_nodot proc.2 c digit
      have more : minusOne ((field ++ chr ';' :: (kind.text ++ str ":p" ++ id.proc)) ++ chr '.' ::
          (id.thread ++ (requestsText later ++ 0 :: tail))) = .ok false := by
        rw [List.append_assoc]
        exact pending.more _
      have text : requestsText (⟨kind, some (.within id)⟩ :: later) ++ 0 :: tail =
          chr ';' :: (kind.text ++ str ":p" ++ id.proc) ++ chr '.' ::
            (id.thread ++ (requestsText later ++ 0 :: tail)) := by
        simp [requestsText, ResumeRequest.text, ResumeId.text, IdText.text, str, chr]
      have fields := @readsIds_fields _ s _ room drawn _ _
          (pendingField_append pending front).dotless thread later tail more
      rw [List.append_assoc] at fields
      rw [text]
      exact fields

/-- Whatever lies behind the packet, it is read just when its requests are taken. -/
theorem readsFrom_iff {s : State} {requests : List ResumeRequest}
    (wellFormed : ∀ a ∈ requests, a.WellFormed)
    {pending : Option (List Byte)} (field : ∀ f, pending = some f → PendingField f)
    (last : ∀ f, pending = some f → requests = [] → minusOne (f ++ [0]) = .ok false) (drawn : Nat)
    {fuel : List Byte → Nat} (room : ∀ tail, requests.length < fuel tail) :
    (∀ tail, ReadsFrom s (fuel tail) drawn pending (requestsText requests ++ 0 :: tail)) ↔
      RequestsTaken s drawn pending requests := by
  induction requests generalizing drawn pending fuel with
  | nil =>
    cases pending with
    | none => exact iff_of_true (fun tail => reads_end (room tail) drawn tail) trivial
    | some f =>
      refine iff_of_false (fun reads => ?_) fun taken => taken
      have dotless : ∀ c ∈ f ++ [0], c ≠ chr '.' := by
        intro c mem
        rcases List.mem_append.mp mem with here | there
        · exact (field f rfl).dotless c here
        · rw [List.mem_singleton.mp there]
          decide
      exact readsIds_dotless dotless (last f rfl rfl) (reads [])
  | cons a later ih =>
    obtain ⟨here, others⟩ := List.forall_mem_cons.mp wellFormed
    have room' (tail : List Byte) : later.length + 1 < fuel tail := room tail
    have next (n : Nat) (fuel' : List Byte → Nat) (room : ∀ tail, later.length < fuel' tail) :
        (∀ tail, ReadsFrom s (fuel' tail) n none (requestsText later ++ 0 :: tail)) ↔
          RequestsTaken s n none later :=
      @ih others none (fun _ same => nomatch same) (fun _ same => nomatch same) n _ room
    cases pending with
    | none =>
      have step (tail : List Byte) :=
        @readsFrom_request _ s (fuel tail) (by have := room' tail; omega) drawn a here later tail
      simp only [step, RequestsTaken, forall_and, forall_const]
      obtain ⟨kind, id⟩ := a
      refine and_congr_right fun _ => ?_
      have fewer (tail : List Byte) : later.length < fuel tail - 1 := by
        have := room' tail
        omega
      cases id with
      | none => exact forall_const _
      | some id =>
        cases id with
        | everyProcess =>
          rw [forall_or_left]
          refine or_congr_right' fun inner => ?_
          refine ih others (fun f same => ?_) (fun f _ none => absurd none inner) drawn fewer
          cases same
          exact pendingField_start
        | within id =>
          rw [forall_and, forall_const]
          exact and_congr_right fun _ => next _ _ fewer
    | some f =>
      have pending := field f rfl
      have step (tail : List Byte) :=
        @readsFrom_pending _ s (fuel tail)
          (by have := room' tail; omega) drawn f pending a here later tail
      have fewer (tail : List Byte) : later.length < fuel tail := by
        have := room' tail
        omega
      have swallow (dotless : ∀ c ∈ a.text, c ≠ chr '.') :
          (∀ tail, ReadsFrom s (fuel tail) drawn (some (f ++ a.text))
            (requestsText later ++ 0 :: tail)) ↔
            RequestsTaken s drawn (some (f ++ a.text)) later := by
        refine ih others (fun g same => ?_) (fun g same _ => ?_) drawn fewer
        · cases same
          exact pendingField_append pending fun c mem => dotless c (List.mem_cons_of_mem _ mem)
        · cases same
          rw [List.append_assoc]
          exact pending.more _
      obtain ⟨kind, id⟩ := a
      have front := kind_dotless here.kind
      simp only [step]
      cases id with
      | none =>
        refine swallow (List.forall_mem_cons.mpr ⟨by decide, ?_⟩)
        rw [List.append_nil]
        exact front
      | some id =>
        cases id with
        | everyProcess =>
          refine swallow (List.forall_mem_cons.mpr ⟨by decide, fun c mem => ?_⟩)
          rcases List.mem_append.mp mem with here | there
          · exact front c here
          · exact (show ∀ c ∈ chr ':' :: str "p-1", c ≠ chr '.' by decide) c there
        | within id =>
          rw [forall_and, forall_const]
          exact and_congr_right fun _ => next _ _ fewer

/- Acceptance. -/

theorem script_output (script : List VcontAction) (s : State) :
    (script.foldl applyAction s).output = s.output := by
  refine script_keeps (f := State.output) (fun s b => rfl) (fun stepping s t => ?_) script s
  unfold touchThread
  split <;> rfl

theorem applied_reply (s : State) (script : List VcontAction) (n : Nat) :
    ((script.foldl applyAction (scriptStart s)).draw n).reply = [] := by
  have same : ((script.foldl applyAction (scriptStart s)).draw n).reply = (s.lay 0 []).reply :=
    congrArg (fun output => cstring output bufsize) (script_output script (scriptStart s))
  rw [same]
  exact lay_reply s [] nofun (by decide)

theorem accepted_iff_reads {s : State} (ok : RegistryOk s) (rest : List Byte) :
    (∃ u, (gdbHandlePacket (str "vCont;" ++ rest)).run s = .ok true u ∧ u.reply ≠ str "E04") ↔
      Reads s ((str "vCont;" ++ rest).length + 1) s.drawn (chr ';' :: rest) := by
  constructor
  · rintro ⟨u, returns, reply⟩
    obtain ⟨script, supported, read, reach, _, ends⟩ := vcont_outcome ok returns
    cases supported with
    | true => exact ⟨script, read, reach⟩
    | false =>
      refine absurd ?_ reply
      rw [ends]
      exact lay_reply _ (str "E04") (by decide) (by decide)
  · rintro ⟨script, read, reach⟩
    refine ⟨_, vcont_run ok read reach, ?_⟩
    dsimp only
    rw [if_pos rfl, applied_reply]
    decide

omit [Machine] in
theorem requestsText_length (requests : List ResumeRequest) :
    requests.length ≤ (requestsText requests).length := by
  induction requests with
  | nil => exact Nat.zero_le _
  | cons a later ih =>
    simp only [requestsText, List.flatMap_cons, List.length_append, ResumeRequest.text,
      List.length_cons] at ih ⊢
    omega

/-- A packet of the kind the stub invites is accepted exactly when its requests are taken: each
    action is `c` or `s` with a thread-id whose fields are shorter than ten characters and come out
    in range, and only the last can have `-1` for its thread or its process. A `p-1` before the last
    is the beginning of the next field. -/
theorem advertised_accepted_iff {s : State} (reachable : Reachable s)
    {requests : List ResumeRequest}
    (nonempty : requests ≠ []) (wellFormed : ∀ a ∈ requests, a.WellFormed) :
    PacketAccepted s requests ↔ RequestsTaken s s.drawn none requests := by
  obtain ⟨a, later, rfl⟩ := List.exists_cons_of_ne_nil nonempty
  have text (tail : List Byte) : ∃ rest, requestsText (a :: later) ++ 0 :: tail = chr ';' :: rest ∧
      str "vCont" ++ (requestsText (a :: later) ++ 0 :: tail) = str "vCont;" ++ rest :=
        ⟨_, rfl, rfl⟩
  have length := requestsText_length (a :: later)
  have room (tail : List Byte) : (a :: later).length <
      (str "vCont" ++ (requestsText (a :: later) ++ 0 :: tail)).length + 1 := by
    simp only [List.length_append] at length ⊢
    omega
  rw [← @readsFrom_iff _ s (a :: later) wellFormed none (fun _ same => nomatch same)
    (fun _ same => nomatch same)
    s.drawn _ room]
  unfold PacketAccepted
  refine forall_congr' fun tail => ?_
  obtain ⟨rest, start, packet⟩ := text tail
  rw [packet, start]
  exact accepted_iff_reads (reachable_ok reachable) rest

omit [Machine] in
theorem solo_accepts : letI := obligingBoard
    PacketAccepted soloState [⟨.cont, some (.within ⟨str "1", str "1"⟩)⟩] := by
  let _ := obligingBoard
  refine (advertised_accepted_iff solo_registered.reachable (List.cons_ne_nil _ _) ?_).mpr ?_
  · intro a mem
    rw [List.mem_singleton.mp mem]
    refine ⟨trivial, fun id same => ?_⟩
    cases same
    exact ⟨⟨by decide, by decide⟩, Or.inr ⟨by decide, by decide⟩⟩
  · have named : NamesInferior soloState 1 := ⟨0, by decide +kernel, by decide +kernel⟩
    have range : IdsInRange soloState (.resume true) 1 1 :=
      Or.inr ⟨Or.inl (by decide), Or.inr ⟨named, Or.inr ⟨by decide, by decide⟩⟩⟩
    exact ⟨trivial, ⟨by decide, by decide, range⟩, trivial⟩

omit [Machine] in
theorem solo_default_fails : letI := obligingBoard
    value (gdbHandlePacket (str "vCont" ++ (requestsText [⟨.cont, none⟩] ++ [0]))) soloState =
      none := by
  let _ := obligingBoard
  decide +kernel

omit [Machine] in
/-- `vCont;c` fails the assertion that a colon follows the action. -/
theorem default_action_not_accepted : letI := obligingBoard
    ¬ ∀ s, Reachable s → ∀ requests : List ResumeRequest, requests ≠ [] →
      (∀ a ∈ requests, a.WellFormed ∧ a.Named s) → PacketAccepted s requests := by
  let _ := obligingBoard
  intro all
  have named : ∀ a ∈ [⟨.cont, none⟩], ResumeRequest.WellFormed a ∧ a.Named soloState := by
    intro a mem
    rw [List.mem_singleton.mp mem]
    exact ⟨⟨trivial, nofun⟩, nofun⟩
  obtain ⟨u, returns, _⟩ :=
    all soloState solo_registered.reachable _ (List.cons_ne_nil _ _) named []
  have failed := solo_default_fails
  rw [value_ok returns] at failed
  cases failed

end

end Libgdb
