import Libgdb.ResumeScripts
import Libgdb.UnreadTails

/-!
`H`, `T` and vCont packets with an id whose dot is not in the packet. The scan for the dot goes on
behind the NUL, so what such a packet does depends on what an earlier one left there, unless its
handler never comes to the id.
-/
namespace Libgdb
open ByteMemory CheckedPrograms

/- Runs that depend on what is behind the NUL, and runs that do not. -/

/-- The value does not depend on the characters behind the NUL, of which there are `room`. -/
def Unread {α : Type} (room : Nat) (f : List Byte → α) : Prop :=
  ∀ tail tail', tail.length = room → tail'.length = room → f tail = f tail'

theorem unread_of_eq {α : Type} {room : Nat} {f : List Byte → α} {a : α}
    (same : ∀ tail, f tail = a) : Unread room f :=
  fun tail tail' _ _ => (same tail).trans (same tail').symm

theorem unread_congr {α : Type} {room : Nat} {f g : List Byte → α}
    (same : ∀ tail, tail.length = room → f tail = g tail)
    (unread : Unread room g) : Unread room f := by
  intro tail tail' here there
  rw [same tail here, same tail' there]
  exact unread tail tail' here there

variable [Machine]

theorem run_bind_same {α β : Type} {m m' : Stub α} {s s' : State} (same : m.run s = m'.run s')
    (f : α → Stub β) :
    (m >>= f).run s = (m' >>= f).run s' := by
  rw [EStateM.run_bind, EStateM.run_bind, same]

theorem unread_before {α β : Type} {room : Nat} {m : List Byte → Stub α} {s : State}
    (unread : Unread room fun tail => (m tail).run s) (f : α → Stub β) :
    Unread room fun tail => (m tail >>= f).run s :=
  fun tail tail' here there => run_bind_same (unread tail tail' here there) f

/-- The run leaves the buffer with some characters behind the NUL and not with others. -/
structure TellsApart {α : Type} (room : Nat) (run : List Byte → EStateM.Result Fault State α) :
    Prop where
  leaves : ∃ tail, tail.length = room ∧ ∃ u, run tail = .error .inputOverread u
  stays : ∃ tail, tail.length = room ∧ ∀ u, run tail ≠ .error .inputOverread u

theorem TellsApart.not_unread {α : Type} {room : Nat}
    {run : List Byte → EStateM.Result Fault State α}
    (apart : TellsApart room run) : ¬ Unread room run := by
  intro unread
  obtain ⟨⟨tail, here, u, leaves⟩, tail', there, stays⟩ := apart
  exact stays u ((unread tail tail' here there).symm.trans leaves)

theorem tellsApart_congr {α : Type} {room : Nat} {f g : List Byte → EStateM.Result Fault State α}
    (same : ∀ tail, tail.length = room → f tail = g tail) (apart : TellsApart room g) :
    TellsApart room f := by
  obtain ⟨⟨tail, here, u, leaves⟩, tail', there, stays⟩ := apart
  refine ⟨⟨tail, here, u, (same tail here).trans leaves⟩, tail', there, fun u bad => ?_⟩
  exact stays u ((same tail' there).symm.trans bad)

/- Programs that do not read the buffer. -/

def InBuffer {α : Type} (m : Stub α) : Prop := Avoids (· = .inputOverread) m

/-- What follows within the buffer does not hide that a run leaves it. -/
theorem TellsApart.before {α β : Type} {room : Nat} {m : List Byte → Stub α} {s : State}
    (apart : TellsApart room fun tail => (m tail).run s) {f : α → Stub β}
    (inside : ∀ a, InBuffer (f a)) :
    TellsApart room fun tail => (m tail >>= f).run s := by
  obtain ⟨⟨tail, here, u, leaves⟩, tail', there, stays⟩ := apart
  refine ⟨⟨tail, here, u, run_bind_error leaves f⟩, tail', there, fun v bad => ?_⟩
  cases first : (m tail').run s with
  | error e w =>
    rw [run_bind_error first] at bad
    cases bad
    exact stays _ first
  | ok a w =>
    rw [run_bind_ok first] at bad
    exact inside a w _ v bad rfl

omit [Machine] in
theorem idToIdx_inside (x : Int) (n : Nat) : idToIdx x n ≠ .error .inputOverread := by
  unfold idToIdx
  split <;> exact fun bad => by cases bad

omit [Machine] in
theorem tableIndex_inside (n : Nat) (i : Int) : tableIndex n i ≠ .error .inputOverread := by
  unfold tableIndex
  split <;> exact fun bad => by cases bad

omit [Machine] in
theorem inside_bind {α β : Type} {p : Except Fault α} {f : α → Except Fault β}
    (hp : p ≠ .error .inputOverread)
    (hf : ∀ a, f a ≠ .error .inputOverread) : (p >>= f) ≠ .error .inputOverread := by
  cases p with
  | ok a => exact hf a
  | error e => exact fun bad => hp (by injection bad with bad; rw [bad])

theorem lookupInferior_inside (s : State) (procId : Int) :
    lookupInferiorFromGdbId s procId ≠ .error .inputOverread :=
  inside_bind (idToIdx_inside _ _) fun _ => inside_bind (tableIndex_inside _ _) fun _ bad => by
    cases bad

theorem lookupThread_inside (s : State) (procId threadId : Int) :
    lookupThreadFromGdbId s procId threadId ≠ .error .inputOverread := by
  refine inside_bind (idToIdx_inside _ _) fun _ => inside_bind (tableIndex_inside _ _) fun pd => ?_
  split
  · exact fun bad => by cases bad
  · exact inside_bind (idToIdx_inside _ _) fun _ =>
      inside_bind (tableIndex_inside _ _) fun _ bad => by cases bad

theorem inBuffer_liftParse {α : Type} {p : Except Fault α} (inside : p ≠ .error .inputOverread) :
    InBuffer (liftParse p) := by
  cases p with
  | ok a => exact avoids_pure a
  | error e => exact avoids_throw fun bad => inside (by rw [bad])

theorem inBuffer_deref {α : Type} (p : Option α) : InBuffer (deref p) := by
  cases p with
  | some a => exact avoids_pure a
  | none => exact avoids_throw (by decide)

theorem inBuffer_assert (c : Prop) [Decidable c] : InBuffer (assert c) :=
  avoids_ite (fun _ => avoids_pure _) fun _ => avoids_throw (by decide)

theorem inBuffer_invoke (call : KernelCall) : InBuffer (invoke call) := by
  intro s e t run
  cases run

theorem inBuffer_strlcpy (dest : Nat) (src : List Byte) (size : Nat) : InBuffer (strlcpy dest src size) := by
  have puts (ptr : Nat) (b : Byte) : InBuffer (put ptr b) :=
    avoids_ite (fun _ => avoids_modify _) fun _ => avoids_throw (by decide)
  have copies (len : Nat) : InBuffer (strlcpyFrom dest len size src) := by
    induction src generalizing len with
    | nil => exact puts _ _
    | cons b src ih => exact avoids_ite (fun _ => avoids_then (puts _ _) fun _ => ih _) fun _ => puts _ _
  exact copies 0

theorem inBuffer_confirmTarget : InBuffer confirmTarget :=
  avoids_then avoids_get fun _ => avoids_then (inBuffer_deref _) fun _ =>
    avoids_then (inBuffer_assert _) fun _ =>
    inBuffer_strlcpy _ _ _

theorem inBuffer_vcontThreads (stepping : Bool) (inferior : Option (Fin maxPds)) (procId : Int)
    (count : Nat) (i : Int) :
    InBuffer (vcontThreads stepping inferior procId count i) := by
  induction count generalizing i with
  | zero => exact avoids_pure _
  | succ count ih =>
    refine avoids_then (inBuffer_deref _) fun pd =>
      avoids_then (inBuffer_liftParse (tableIndex_inside _ _)) fun slot =>
      avoids_then avoids_get fun s => avoids_ite (fun _ => ?_) fun _ => ih _
    refine avoids_then (inBuffer_liftParse (idToIdx_inside _ _)) fun index =>
      avoids_then (inBuffer_liftParse (tableIndex_inside _ _)) fun row =>
        avoids_ite (fun _ => ih _) fun _ => ?_
    have touched : InBuffer (do
        modify fun s : State =>
          { s with handled := Function.update s.handled row (Function.update (s.handled row) slot true) }
        modify fun s : State => s.setThread ⟨pd, slot⟩ { s.thread ⟨pd, slot⟩ with wakeup := true }
        vcontThreads stepping inferior procId count (i + 1) : Stub Unit) :=
      avoids_then (avoids_modify _) fun _ => avoids_then (avoids_modify _) fun _ => ih _
    cases stepping with
    | true =>
      exact avoids_then (avoids_then (avoids_modify _) fun _ => avoids_then avoids_get fun _ =>
        avoids_then (inBuffer_invoke _) fun _ => avoids_pure _) fun _ => touched
    | false =>
      exact avoids_then (avoids_then avoids_get fun _ => avoids_then (inBuffer_invoke _) fun _ =>
        avoids_pure _)
        fun _ => touched

theorem inBuffer_idUse (use : IdUse) (procId threadId : BitVec 32) :
    InBuffer (use.run procId threadId) := by
  cases use with
  | alive =>
    refine avoids_then avoids_get fun s =>
      avoids_then (inBuffer_liftParse (lookupThread_inside _ _ _)) fun found =>
      avoids_then (inBuffer_deref _) fun t => avoids_ite (fun _ => inBuffer_strlcpy _ _ _) fun _ =>
        avoids_pure _
  | select =>
    refine avoids_then (inBuffer_assert _) fun _ =>
      avoids_ite (fun _ => inBuffer_confirmTarget) fun _ =>
      avoids_then avoids_get fun s => avoids_then (inBuffer_liftParse (lookupInferior_inside _ _))
        fun found => ?_
    cases found with
    | none => exact inBuffer_strlcpy _ _ _
    | some pd =>
      exact avoids_ite (fun _ => inBuffer_confirmTarget) fun _ =>
        avoids_then (inBuffer_liftParse (lookupThread_inside _ _ _)) fun _ =>
          avoids_then (avoids_modify _) fun _ => inBuffer_confirmTarget
  | resume stepping =>
    refine avoids_ite (fun _ => ?_) fun _ => avoids_pure _
    exact avoids_then avoids_get fun s =>
      avoids_then (inBuffer_liftParse (lookupInferior_inside _ _)) fun found =>
      avoids_ite (fun _ => inBuffer_vcontThreads _ _ _ _ _) fun _ =>
        avoids_then (inBuffer_liftParse (idToIdx_inside _ _)) fun _ => inBuffer_vcontThreads _ _ _ _ _

/- One id. -/

theorem parsed_unread {α : Type} {room : Nat} {id : List Byte} (nonzero : ∀ c ∈ id, c ≠ 0) (closed : ¬ OpenId room id)
    (procOld threadOld : BitVec 32) {f : ParsedId → Stub α} {s : State}
    (later : ∀ v : ParsedId, (∀ tail, parseThreadId (id ++ 0 :: tail) procOld threadOld = .ok (v.before (0 :: tail))) →
      (∀ rest, v.ptr = some rest → rest <:+ id) → Unread room fun tail => (f (v.before (0 :: tail))).run s) :
    Unread room fun tail => (liftParse (parseThreadId (id ++ 0 :: tail) procOld threadOld) >>= f).run s := by
  by_cases undotted : Undotted id
  · intro tail tail' here there
    dsimp only
    subst here
    rw [parseThreadId_closed nonzero undotted closed, parseThreadId_closed nonzero undotted (by rw [there]; exact closed)]
  · obtain ⟨x, suffix, parse⟩ := parseThreadId_front nonzero undotted procOld threadOld
    cases x with
    | error e => exact unread_of_eq fun tail => congrArg (fun p => (liftParse p >>= f).run s) (parse tail)
    | ok v =>
      exact unread_congr (fun tail _ => congrArg (fun p => (liftParse p >>= f).run s) (parse tail))
        (later v parse fun rest ptr => suffix v rest rfl ptr)

theorem parsed_apart {α : Type} {room : Nat} {id : List Byte} (nonzero : ∀ c ∈ id, c ≠ 0)
    (opened : OpenId room id) (procOld threadOld : BitVec 32) {f : ParsedId → Stub α}
    (inside : ∀ rest p t, InBuffer (f ⟨some (0 :: rest), p, t⟩)) (s : State) :
    TellsApart room fun tail => (liftParse (parseThreadId (id ++ 0 :: tail) procOld threadOld) >>=
      f).run s := by
  obtain ⟨field, rfl, field'⟩ := opened
  have plain : ∀ c ∈ field, c ≠ 0 := fun c mem => nonzero c (List.mem_cons_of_mem _ mem)
  refine ⟨⟨List.replicate room 0, List.length_replicate, s, ?_⟩, ?_⟩
  · exact run_bind_error (liftParse_error (parseThreadId_zeros field' plain procOld threadOld) s) f
  · obtain ⟨dotted, length, parsed⟩ := parseThreadId_dotted field' plain procOld threadOld
    refine ⟨dotted, length, fun u leaves => ?_⟩
    rcases parsed with overwrites | ⟨rest, p, t, parsed⟩
    · rw [run_bind_error (liftParse_error overwrites s)] at leaves
      cases leaves
    · rw [run_bind_ok (liftParse_run parsed s)] at leaves
      exact inside rest p t s _ u leaves rfl

/- `H` and `T` packets. -/

def answerId (use : IdUse) (id : ParsedId) : Stub Unit :=
  match id.ptr with
  | none => strlcpy 0 (str "E02") bufsize
  | some _ => use.run id.procId id.threadId

theorem answerId_before (use : IdUse) (id : ParsedId) (tail : List Byte) :
    answerId use (id.before tail) = answerId use id := by
  obtain ⟨ptr, procId, threadId⟩ := id
  cases ptr <;> rfl

theorem answered_unread_iff {α : Type} {room : Nat} {id : List Byte} (nonzero : ∀ c ∈ id, c ≠ 0)
    (procOld threadOld : BitVec 32) (use : IdUse) (a : α) (s : State) :
    Unread room (fun tail => (liftParse (parseThreadId (id ++ 0 :: tail) procOld threadOld) >>=
      fun id => do
      answerId use id
      return a : Stub α).run s) ↔ ¬ OpenId room id := by
  constructor
  · intro unread opened
    refine (parsed_apart nonzero opened procOld threadOld (fun rest p t => ?_) s).not_unread unread
    exact avoids_then (inBuffer_idUse use p t) fun _ => avoids_pure a
  · intro closed
    refine parsed_unread nonzero closed procOld threadOld fun v _ _ tail tail' _ _ => ?_
    dsimp only
    rw [answerId_before, answerId_before]

/- The ids of vCont packets. -/

/-- What is done with an id once it is parsed, and with the ids behind it. -/
def takeId (stepping : Bool) (fuel : Nat) (id : ParsedId) : Stub (List Byte) := do
  (IdUse.resume stepping).run id.procId id.threadId
  let input ← deref id.ptr
  if (← liftParse (peek input)) = chr ':' then
    vcontIds stepping fuel input
  else
    return input

theorem vcontIds_colon {α : Type} (stepping : Bool) (fuel : Nat) (input : List Byte)
    (f : List Byte → Stub α) (s : State) :
    (vcontIds stepping (fuel + 1) (chr ':' :: input) >>= f).run s =
      (liftParse (parseThreadId input (Machine.junkInt s.drawn) (Machine.junkInt (s.drawn + 1))) >>=
        fun id =>
        takeId stepping fuel id >>= f).run (s.draw 2) := by
  have ids : (vcontIds stepping (fuel + 1) (chr ':' :: input)).run s =
      (liftParse (parseThreadId input (Machine.junkInt s.drawn) (Machine.junkInt (s.drawn + 1))) >>=
        takeId stepping fuel).run (s.draw 2) := by
    rw [vcontIds_uses]
    rfl
  rw [run_bind_same ids, bind_assoc]

theorem vcontIds_other {c : Byte} (other : c ≠ chr ':') (stepping : Bool) (fuel : Nat) :
    ∃ e, ∀ rest s, (vcontIds stepping fuel (c :: rest)).run s = .error e s := by
  cases fuel with
  | zero => exact ⟨.fuel, fun rest s => rfl⟩
  | succ fuel =>
    refine ⟨.assertFail, fun rest s => ?_⟩
    rw [vcontIds, run_bind_ok (liftParse_run (peek_cons c rest) s), assert, if_neg other]
    rfl

theorem takeId_run {α : Type} {stepping : Bool} {p t : BitVec 32} {s u : State}
    (applied : ((IdUse.resume stepping).run p t).run s = .ok () u) (fuel : Nat) (c : Byte)
    (rest : List Byte) (f : List Byte → Stub α) :
    (takeId stepping fuel ⟨some (c :: rest), p, t⟩ >>= f).run s =
      if c = chr ':' then (vcontIds stepping fuel (c :: rest) >>= f).run u
        else (f (c :: rest)).run u := by
  have taken : (takeId stepping fuel ⟨some (c :: rest), p, t⟩).run s =
      (if c = chr ':' then vcontIds stepping fuel (c :: rest) else return c :: rest).run u := by
    unfold takeId
    rw [run_bind_ok applied]
    rfl
  rw [run_bind_same taken]
  by_cases colon : c = chr ':'
  · rw [if_pos colon, if_pos colon]
  · rw [if_neg colon, if_neg colon]
    rfl

/-- An id that is read from the packet alone and keeps to the tables, and the text behind it. -/
def IdTaken (s : State) (drawn : Nat) (id rest : List Byte) : Prop :=
  ∃ p t, parseThreadId (id ++ [0]) (Machine.junkInt drawn) (Machine.junkInt (drawn + 1)) =
    .ok ⟨some (rest ++ [0]), p, t⟩ ∧
    IdsInRange s (.resume true) p.toInt t.toInt

/-- Behind ids that are taken there is an open one. -/
inductive ComesToOpen (s : State) (room : Nat) : (drawn : Nat) → (id : List Byte) → Prop where
  | here {drawn : Nat} {id : List Byte} (opened : OpenId room id) : ComesToOpen s room drawn id
  | nextId {drawn : Nat} {id later : List Byte} (taken : IdTaken s drawn id (chr ':' :: later))
      (comes : ComesToOpen s room (drawn + 2) later) : ComesToOpen s room drawn id
  | nextAction {drawn : Nat} {id later : List Byte} {action : Byte}
      (kind : action = chr 's' ∨ action = chr 'c')
      (taken : IdTaken s drawn id (chr ';' :: action :: chr ':' :: later))
      (comes : ComesToOpen s room (drawn + 2) later) : ComesToOpen s room drawn id

theorem resume_taken {s₀ s : State} (ok : RegistryOk s₀) (same : SameRegistry s₀ s)
    {p t : BitVec 32} (range : IdsInRange s₀ (.resume true) p.toInt t.toInt) (stepping : Bool) :
    ∃ u, ((IdUse.resume stepping).run p t).run (s.draw 2) = .ok () u ∧ SameRegistry s₀ u ∧
    u.drawn = s.drawn + 2 := by
  have drawn : SameRegistry s₀ (s.draw 2) := IsTrans.trans _ _ _ same (sameRegistry_draw s 2)
  have range' : IdsInRange (s.draw 2) (.resume stepping) p.toInt t.toInt :=
    (idsInRange_of_same drawn _ _ _).mpr range
  refine ⟨_, resume_run (registryOk_of_same drawn ok) stepping ⟨p, t⟩ range', ?_,
    touches_drawn _ _ _⟩
  exact IsTrans.trans _ _ _ drawn (sameRegistry_touches _ _ _)

theorem taken_of_resume {s₀ s u : State} (ok : RegistryOk s₀) (same : SameRegistry s₀ s)
    {p t : BitVec 32} {stepping : Bool}
    (applied : ((IdUse.resume stepping).run p t).run (s.draw 2) = .ok () u) :
    IdsInRange s₀ (.resume true) p.toInt t.toInt ∧ SameRegistry s₀ u ∧ u.drawn = s.drawn + 2 := by
  have drawn : SameRegistry s₀ (s.draw 2) := IsTrans.trans _ _ _ same (sameRegistry_draw s 2)
  have range : IdsInRange s₀ (.resume true) p.toInt t.toInt := (idsInRange_of_same drawn _ _ _).mp
    ((resume_safe_iff (registryOk_of_same drawn ok) stepping p t).mp (safe_of_ok applied))
  obtain ⟨v, run, rest⟩ := resume_taken ok same range stepping
  cases applied.symm.trans run
  exact ⟨range, rest⟩

theorem vcontActions_unsupported {action : Byte} (steps : action ≠ chr 's')
    (continues : action ≠ chr 'c') (fuel : Nat) (rest : List Byte) (s : State) :
    (vcontActions (fuel + 1) (chr ';' :: action :: rest)).run s =
    (strlcpy 0 (str "E04") bufsize).run s := by
  rw [vcontActions, run_bind_ok (liftParse_run (peek_cons _ _) s), if_neg (by decide),
    run_bind_ok (assert_run rfl s),
    List.tail_cons, run_bind_ok (liftParse_run (peek_cons _ _) s), if_neg steps, if_neg continues]

theorem vcontActions_unread {room fuel : Nat} {text : List Byte} {s : State}
    (nonzero : ∀ c ∈ text, c ≠ 0)
    (ids : ∀ action id b fuel', text = chr ';' :: action :: chr ':' :: id → fuel = fuel' + 1 →
      (action = chr 's' ∧ b = true ∨ action = chr 'c' ∧ b = false) →
      Unread room fun tail => (vcontIds b fuel' (chr ':' :: (id ++ 0 :: tail)) >>= fun input =>
        vcontActions fuel' input).run (setAllWakeup s (!b))) :
    Unread room fun tail => (vcontActions fuel (text ++ 0 :: tail)).run s := by
  cases fuel with
  | zero => exact fun _ _ _ _ => rfl
  | succ fuel =>
    cases text with
    | nil => exact fun _ _ _ _ => rfl
    | cons c text =>
      by_cases semicolon : c = chr ';'
      · subst semicolon
        have supported {action b} (rest : List Byte) (kind : action = chr 's' ∧ b = true ∨
            action = chr 'c' ∧ b = false) :
            (vcontActions (fuel + 1) (chr ';' :: action :: rest)).run s =
              (vcontIds b fuel rest >>= fun input => vcontActions fuel input).run
                (setAllWakeup s (!b)) :=
          vcontActions_round kind fuel rfl rfl s
        cases text with
        | nil =>
          exact unread_of_eq fun tail =>
            vcontActions_unsupported (show (0 : Byte) ≠ chr 's' by decide)
              (show (0 : Byte) ≠ chr 'c' by decide) fuel tail s
        | cons action text =>
          have supported' {b : Bool} (kind : action = chr 's' ∧ b = true ∨
              action = chr 'c' ∧ b = false) :
              Unread room fun tail => (vcontActions (fuel + 1)
                (chr ';' :: action :: (text ++ 0 :: tail))).run s := by
            refine unread_congr (fun tail _ => supported (text ++ 0 :: tail) kind) ?_
            cases text with
            | nil =>
              obtain ⟨e, error⟩ := vcontIds_other (show (0 : Byte) ≠ chr ':' by decide) b fuel
              exact unread_of_eq fun tail => run_bind_error (error tail _) _
            | cons c text =>
              by_cases colon : c = chr ':'
              · subst colon
                exact ids action text b fuel rfl rfl kind
              · obtain ⟨e, error⟩ := vcontIds_other colon b fuel
                exact unread_of_eq fun tail => run_bind_error (error _ _) _
          by_cases steps : action = chr 's'
          · exact supported' (Or.inl ⟨steps, rfl⟩)
          by_cases continues : action = chr 'c'
          · exact supported' (Or.inr ⟨continues, rfl⟩)
          · exact unread_of_eq fun tail => vcontActions_unsupported steps continues fuel _ s
      · refine unread_of_eq (a := .error .assertFail s) fun tail => ?_
        rw [List.cons_append, vcontActions, run_bind_ok (liftParse_run (peek_cons c _) s),
          if_neg (nonzero c List.mem_cons_self), assert, if_neg semicolon]
        exact run_bind_error rfl _

theorem vcontIds_unread {s₀ : State} (ok : RegistryOk s₀) {room : Nat} (bound : Nat)
    {id : List Byte} (short : id.length < bound)
    (nonzero : ∀ c ∈ id, c ≠ 0) (b : Bool) (fuel fuel' : Nat) {s : State} (same : SameRegistry s₀ s)
    (never : ¬ ComesToOpen s₀ room s.drawn id) :
    Unread room fun tail => (vcontIds b fuel (chr ':' :: (id ++ 0 :: tail)) >>=
      fun input => vcontActions fuel' input).run s := by
  induction bound generalizing id b fuel fuel' s with
  | zero => omega
  | succ bound ih =>
    cases fuel with
    | zero => exact fun _ _ _ _ => rfl
    | succ fuel =>
      refine unread_congr (fun tail _ => vcontIds_colon b fuel (id ++ 0 :: tail) _ s) ?_
      refine parsed_unread nonzero (fun opened => never (.here opened)) _ _ fun v parse suffix => ?_
      obtain ⟨ptr, p, t⟩ := v
      cases applied : ((IdUse.resume b).run p t).run (s.draw 2) with
      | error e u => exact unread_of_eq fun tail => run_bind_error (run_bind_error applied _) _
      | ok done u =>
        obtain ⟨range, same', drawn⟩ := taken_of_resume ok same applied
        cases ptr with
        | none =>
          refine unread_of_eq (a := .error .nullDereference u) fun tail => run_bind_error ?_ _
          exact run_bind_ok applied _
        | some rest =>
          have inside := suffix rest rfl
          have plain : ∀ c ∈ rest, c ≠ 0 := fun c mem => nonzero c (inside.subset mem)
          have length := inside.length_le
          have taken : IdTaken s₀ s.drawn id rest := ⟨p, t, parse [], range⟩
          cases rest with
          | nil =>
            refine unread_congr (fun tail _ => takeId_run applied fuel 0 tail _) ?_
            exact vcontActions_unread plain fun _ _ _ _ none => by cases none
          | cons c rest =>
            refine unread_congr (fun tail _ => takeId_run applied fuel c (rest ++ 0 :: tail) _) ?_
            have plain' : ∀ d ∈ rest, d ≠ 0 := fun d mem => plain d (List.mem_cons_of_mem _ mem)
            rw [List.length_cons] at length
            by_cases colon : c = chr ':'
            · subst colon
              simp only [if_true]
              refine ih (by omega) plain' b fuel fuel' same' fun comes => never ?_
              rw [drawn] at comes
              exact .nextId taken comes
            · simp only [if_neg colon]
              refine vcontActions_unread plain fun action id' b' fuel'' text _ kind => ?_
              obtain ⟨rfl, rfl⟩ := List.cons.inj text
              simp only [List.length_cons] at length
              have wakeup : SameRegistry s₀ (setAllWakeup u (!b')) :=
                IsTrans.trans _ _ _ same' (PacketFrame.allWakeup u _)
              refine ih (by omega) (fun d mem => plain' d (by simp [mem])) b' fuel'' fuel'' wakeup
                fun comes => never ?_
              rw [show (setAllWakeup u (!b')).drawn = s.drawn + 2 from drawn] at comes
              exact .nextAction (kind.imp And.left And.left) taken comes

theorem comesToOpen_apart {s₀ : State} (ok : RegistryOk s₀) {room drawn : Nat} {id : List Byte}
    (comes : ComesToOpen s₀ room drawn id) (nonzero : ∀ c ∈ id, c ≠ 0) (b : Bool)
    {fuel fuel' : Nat} {s : State}
    (same : SameRegistry s₀ s) (now : s.drawn = drawn) (enough : id.length < fuel)
    (enough' : id.length < fuel') :
    TellsApart room fun tail => (vcontIds b fuel (chr ':' :: (id ++ 0 :: tail)) >>= fun input =>
      vcontActions fuel' input).run s := by
  have read {drawn : Nat} {id rest : List Byte} (plain : ∀ c ∈ id, c ≠ 0)
      (taken : IdTaken s₀ drawn id rest) {s : State}
      (same : SameRegistry s₀ s) (now : s.drawn = drawn) (b : Bool) (fuel fuel' : Nat) :
      ∃ u p t, SameRegistry s₀ u ∧ u.drawn = drawn + 2 ∧ rest <:+ id ∧
        ((IdUse.resume b).run p t).run (s.draw 2) = .ok () u ∧
        ∀ tail, (vcontIds b (fuel + 1) (chr ':' :: (id ++ 0 :: tail)) >>=
          fun input => vcontActions fuel' input).run s =
          (takeId b fuel ⟨some (rest ++ 0 :: tail), p, t⟩ >>=
            fun input => vcontActions fuel' input).run (s.draw 2) := by
    obtain ⟨p, t, parsed, range⟩ := taken
    obtain ⟨suffix, parse⟩ := parseThreadId_alone plain parsed
    obtain ⟨u, applied, same', drawn'⟩ := resume_taken ok same range b
    refine ⟨u, p, t, same', by rw [drawn', now], suffix, applied, fun tail => ?_⟩
    rw [vcontIds_colon, now, run_bind_ok (liftParse_run (parse tail) _)]
  induction comes generalizing b fuel fuel' s with
  | @here drawn id opened =>
    obtain ⟨fuel, rfl⟩ : ∃ f, fuel = f + 1 := ⟨fuel - 1, by omega⟩
    refine tellsApart_congr (fun tail _ => vcontIds_colon b fuel (id ++ 0 :: tail) _ s) ?_
    refine parsed_apart nonzero opened _ _ (fun rest p t => ?_) _
    have ended : takeId b fuel ⟨some (0 :: rest), p, t⟩ = ((IdUse.resume b).run p t >>=
        fun _ => pure (0 :: rest)) := rfl
    rw [ended, bind_assoc]
    refine avoids_then (inBuffer_idUse _ p t) fun _ => ?_
    rw [pure_bind]
    obtain ⟨fuel', rfl⟩ : ∃ f, fuel' = f + 1 := ⟨fuel' - 1, by omega⟩
    exact avoids_pure ()
  | @nextId drawn id later taken comes ih =>
    obtain ⟨fuel, rfl⟩ : ∃ f, fuel = f + 1 := ⟨fuel - 1, by omega⟩
    obtain ⟨u, p, t, same', drawn', suffix, applied, run⟩ :=
      read nonzero taken same now b fuel fuel'
    have length := suffix.length_le
    rw [List.length_cons] at length
    refine tellsApart_congr (fun tail _ => (run tail).trans (takeId_run applied fuel (chr ':')
      (later ++ 0 :: tail) _)) ?_
    simp only [if_true]
    exact ih (fun c mem => nonzero c (suffix.subset (List.mem_cons_of_mem _ mem))) b same' drawn'
      (by omega) (by omega)
  | @nextAction drawn id later action kind taken comes ih =>
    obtain ⟨fuel, rfl⟩ : ∃ f, fuel = f + 1 := ⟨fuel - 1, by omega⟩
    obtain ⟨u, p, t, same', drawn', suffix, applied, run⟩ :=
      read nonzero taken same now b fuel fuel'
    have length := suffix.length_le
    simp only [List.length_cons] at length
    obtain ⟨fuel', rfl⟩ : ∃ f, fuel' = f + 1 := ⟨fuel' - 1, by omega⟩
    obtain ⟨b', kind'⟩ : ∃ b', action = chr 's' ∧ b' = true ∨ action = chr 'c' ∧ b' = false := by
      rcases kind with steps | continues
      · exact ⟨true, Or.inl ⟨steps, rfl⟩⟩
      · exact ⟨false, Or.inr ⟨continues, rfl⟩⟩
    have next (tail : List Byte) :
        (vcontActions (fuel' + 1) (chr ';' :: action :: chr ':' :: (later ++ 0 :: tail))).run u =
        (vcontIds b' fuel' (chr ':' :: (later ++ 0 :: tail)) >>=
          fun input => vcontActions fuel' input).run
          (setAllWakeup u (!b')) := vcontActions_round kind' fuel' rfl rfl u
    refine tellsApart_congr (fun tail _ => (run tail).trans ((takeId_run applied fuel (chr ';')
      (action :: chr ':' :: (later ++ 0 :: tail)) _).trans
        ((if_neg (by decide)).trans (next tail)))) ?_
    have wakeup : SameRegistry s₀ (setAllWakeup u (!b')) :=
      IsTrans.trans _ _ _ same' (PacketFrame.allWakeup u _)
    exact ih (fun c mem => nonzero c (suffix.subset (by simp [mem]))) b' wakeup drawn' (by omega)
      (by omega)

end Libgdb
