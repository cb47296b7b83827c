import Libgdb.ThreadIds

/-!
The ids of `H`, `T` and vCont packets: which pairs of ints keep every index they lead to inside
the tables and never reach NULL. C's remainder is negative for ids below one.
-/
namespace Libgdb
open ByteMemory SlotTables CheckedPrograms
variable [Machine]

/- What the handlers do with the two ints once they are parsed. -/

inductive IdUse where
  | alive
  | select
  | resume (stepping : Bool)

def IdUse.run : IdUse → (procId threadId : BitVec 32) → Stub Unit
  | .alive, procId, threadId => do
      let s ← get
      let t ← deref (← liftParse (lookupThreadFromGdbId s procId.toInt threadId.toInt))
      if (s.thread t).gdbId.toNat = threadId.toInt ∧ (s.thread t).enabled then
        strlcpy 0 (str "OK") bufsize
  | .select, procId, threadId => do
      let procId := procId.toInt
      let threadId := threadId.toInt
      assert (procId ≠ -1)
      if procId = 0 then
        confirmTarget
      else
        let s ← get
        match ← liftParse (lookupInferiorFromGdbId s procId) with
        | none => strlcpy 0 (str "E02") bufsize
        | some _ =>
          if threadId = -1 then
            confirmTarget
          else
            let t ← liftParse
              (lookupThreadFromGdbId s procId (if threadId = 0 then 1 else threadId))
            modify fun s : State => { s with targetThread := t }
            confirmTarget
  | .resume stepping, procId, threadId => do
      if procId.toInt ≠ -1 then
        vcontApply stepping procId.toInt threadId.toInt

theorem handleCheckThreadAlive_uses (ptr : List Byte) : handleCheckThreadAlive ptr = (do
    assert ((← liftParse (peek ptr)) = chr 'T')
    let procId ← freshInt
    let id ← liftParse (parseThreadId ptr.tail procId 0)
    match id.ptr with
    | none => strlcpy 0 (str "E02") bufsize
    | some _ => IdUse.alive.run id.procId id.threadId) := rfl

theorem handleSetInferior_uses (ptr : List Byte) : handleSetInferior ptr = (do
    let procId ← freshInt
    let c ← liftParse (peek ptr.tail)
    if c ≠ chr 'g' ∧ c ≠ chr 'c' then
      strlcpy 0 (str "E01") bufsize
    else
      let ptr := ptr.tail.tail
      if ← liftParse (dashOne ptr) then
        let s ← get
        assert (s.targetThread ≠ none)
        strlcpy 0 (str "OK") bufsize
      else
        let id ← liftParse (parseThreadId ptr procId 0)
        match id.ptr with
        | none => strlcpy 0 (str "E02") bufsize
        | some _ => IdUse.select.run id.procId id.threadId) := rfl

theorem vcontIds_uses (stepping : Bool) (fuel : Nat) (input : List Byte) :
    vcontIds stepping (fuel + 1) input = (do
      assert ((← liftParse (peek input)) = chr ':')
      let procId ← freshInt
      let threadId ← freshInt
      let id ← liftParse (parseThreadId input.tail procId threadId)
      (IdUse.resume stepping).run id.procId id.threadId
      let input ← deref id.ptr
      if (← liftParse (peek input)) = chr ':' then
        vcontIds stepping fuel input
      else
        return input) := by
  rw [vcontIds]
  refine congrArg _ (funext fun _ => congrArg _ (funext fun _ => congrArg _ (funext fun _ =>
    congrArg _ (funext fun _ => congrArg _ (funext fun id => ?_)))))
  simp only [IdUse.run]
  split <;> rfl

/-- The run returns or stops at a failed assertion: no index is outside its table, no arithmetic
    overflows, and NULL is not dereferenced. -/
def Safe (m : Stub Unit) (s : State) : Prop := ∀ f t, m.run s = .error f t → f = .assertFail

/-- The ids are safe in every state with the registry of `s`, as long as there is a target: an
    `H` packet for any process confirms the old one. -/
def IdsSafe (s : State) (use : IdUse) (procId threadId : BitVec 32) : Prop :=
  ∀ u, SameRegistry s u → u.targetThread ≠ none → Safe (use.run procId threadId) u

/- The condition. -/

/-- `(x - 1) % n` is not negative. -/
def IndexOk (n : Nat) (x : Int) : Prop := 0 < x ∨ x ≠ -2 ^ 31 ∧ (n : Int) ∣ x - 1

def NamesInferior (s : State) (procId : Int) : Prop :=
  ∃ pd, (s.inferiors pd).enabled = true ∧ ((s.inferiors pd).gdbId.toNat : Int) = procId

def NamesSlot (s : State) (procId threadId : Int) : Prop :=
  ∃ t : ThreadRef, (s.inferiors t.pd).enabled = true ∧
    ((s.inferiors t.pd).gdbId.toNat : Int) = procId ∧
    ((s.thread t).gdbId.toNat : Int) = threadId ∧ 0 < threadId

def IdsInRange (s : State) : IdUse → (procId threadId : Int) → Prop
  | .alive, procId, threadId => NamesSlot s procId threadId
  | .select, procId, threadId =>
      procId = -1 ∨ procId = 0 ∨ (¬ NamesInferior s procId ∧ IndexOk maxPds procId) ∨
      NamesInferior s procId ∧
        (threadId = -1 ∨ NamesSlot s procId (if threadId = 0 then 1 else threadId))
  | .resume _, procId, threadId =>
      procId = -1 ∨ IndexOk maxPds procId ∧
        ((-2 ^ 31 < threadId ∧ threadId ≤ -255) ∨
          NamesInferior s procId ∧ (threadId = -1 ∨ 0 < threadId ∧ threadId ≤ 256))

/- Indices. -/

omit [Machine] in
theorem indexOk_iff {n : Nat} (positive : 0 < n) {x : Int} :
    IndexOk n x ↔ x ≠ -2 ^ 31 ∧ 0 ≤ (x - 1).tmod n := by
  have lt := Int.emod_lt_of_pos (x - 1) (Int.natCast_pos.mpr positive)
  have nonneg := Int.emod_nonneg (x - 1) (Int.natCast_ne_zero.mpr (by omega : n ≠ 0))
  unfold IndexOk
  rw [Int.tmod_eq_emod, Int.natAbs_natCast]
  by_cases up : 0 ≤ x - 1
  · rw [if_pos (Or.inl up)]
    exact iff_of_true (Or.inl (by omega)) ⟨by omega, by omega⟩
  · by_cases divides : (n : Int) ∣ x - 1
    · rw [if_pos (Or.inr divides)]
      constructor
      · rintro (pos | ⟨ne, _⟩)
        · omega
        · exact ⟨ne, by omega⟩
      · exact fun h => Or.inr ⟨h.1, divides⟩
    · rw [if_neg (by rintro (h | h); exacts [up h, divides h])]
      refine iff_of_false ?_ ?_
      · rintro (pos | ⟨_, h⟩)
        · omega
        · exact divides h
      · rintro ⟨_, h⟩
        omega

omit [Machine] in
theorem index_cases {n : Nat} (positive : 0 < n) (x : Int) :
    (IndexOk n x ∧ ∃ i : Fin n, (idToIdx x n >>= tableIndex n) = .ok i ∧
      (i.val : Int) = (x - 1).tmod n) ∨
    (¬ IndexOk n x ∧ ∃ e, (idToIdx x n >>= tableIndex n) = .error e ∧ e ≠ .assertFail) := by
  have iff := indexOk_iff positive (x := x)
  have lt : (x - 1).tmod n < n := Int.tmod_lt_of_pos _ (Int.natCast_pos.mpr positive)
  unfold idToIdx
  by_cases least : x = -2 ^ 31
  · refine Or.inr ⟨fun h => (iff.mp h).1 least, .intOverflow, ?_, by decide⟩
    rw [if_pos least]
    rfl
  · rw [if_neg least]
    by_cases inside : 0 ≤ (x - 1).tmod n
    · refine Or.inl ⟨iff.mpr ⟨least, inside⟩, ⟨((x - 1).tmod n).toNat, by omega⟩, ?_, ?_⟩
      · change tableIndex n _ = _
        rw [tableIndex, dif_pos ⟨inside, lt⟩]
      · exact Int.toNat_of_nonneg inside
    · refine Or.inr ⟨fun h => inside (iff.mp h).2, .indexOutOfBounds, ?_, by decide⟩
      change tableIndex n _ = _
      rw [tableIndex, dif_neg fun h => inside h.1]

/- Lookups. -/

theorem namesInferior_pos {s : State} (ok : RegistryOk s) {procId : Int}
    (names : NamesInferior s procId) : 0 < procId := by
  obtain ⟨pd, enabled, rfl⟩ := names
  have id := ok.inferiorId pd
  rw [if_pos enabled] at id
  omega

/-- The index of an id never leads to a free inferior with this id: theirs is zero, and the
    index of zero is negative. -/
theorem enabled_of_gdbId {s : State} (ok : RegistryOk s) {pd : Fin maxPds} {procId : Int}
    (at_pd : (pd.val : Int) = (procId - 1).tmod maxPds)
    (same : ((s.inferiors pd).gdbId.toNat : Int) = procId) : (s.inferiors pd).enabled = true := by
  by_contra off
  have id := ok.inferiorId pd
  rw [if_neg off] at id
  have zero : procId = 0 := by omega
  rw [zero] at at_pd
  have least : ((0 : Int) - 1).tmod maxPds = -1 := rfl
  omega

theorem lookupInferior_cases {s : State} (ok : RegistryOk s) (procId : Int) :
    (NamesInferior s procId ∧ ∃ pd, lookupInferiorFromGdbId s procId = .ok (some pd)) ∨
    (¬ NamesInferior s procId ∧ IndexOk maxPds procId ∧
      lookupInferiorFromGdbId s procId = .ok none) ∨
    (¬ NamesInferior s procId ∧ ¬ IndexOk maxPds procId ∧
      ∃ e, lookupInferiorFromGdbId s procId = .error e ∧ e ≠ .assertFail) := by
  have split : lookupInferiorFromGdbId s procId = (idToIdx procId maxPds >>= tableIndex maxPds) >>=
      fun pd => .ok (if (s.inferiors pd).gdbId.toNat ≠ procId then none else some pd) := by
    unfold lookupInferiorFromGdbId
    rw [bind_assoc]
    rfl
  by_cases names : NamesInferior s procId
  · obtain ⟨pd, enabled, rfl⟩ := names
    have id := ok.inferiorId pd
    rw [if_pos enabled] at id
    exact Or.inl ⟨⟨pd, enabled, rfl⟩, pd, by rw [id]; exact lookupInferior_registered ok enabled⟩
  rcases index_cases (show 0 < maxPds by decide) procId with ⟨inside, pd, index, at_pd⟩ |
    ⟨outside, e, error, kind⟩
  · refine Or.inr (Or.inl ⟨names, inside, ?_⟩)
    have other : ((s.inferiors pd).gdbId.toNat : Int) ≠ procId :=
      fun same => names ⟨pd, enabled_of_gdbId ok at_pd same, same⟩
    rw [split, index, ok_bind, if_pos other]
  · exact Or.inr (Or.inr ⟨names, outside, e, by rw [split, error, error_bind], kind⟩)

theorem lookupThread_named {s : State} (ok : RegistryOk s) {t : ThreadRef}
    (enabled : (s.inferiors t.pd).enabled = true) (positive : 0 < (s.thread t).gdbId.toNat) :
    lookupThreadFromGdbId s (s.inferiors t.pd).gdbId.toNat (s.thread t).gdbId.toNat =
    .ok (some t) := by
  have proc := ok.inferiorId t.pd
  rw [if_pos enabled] at proc
  obtain ⟨n, succ⟩ := Nat.exists_eq_succ_of_ne_zero (Nat.ne_of_gt positive)
  have here : Fin.ofNat maxThreads n = t.slot := by
    apply Fin.ext
    rcases ok.threads t with ⟨_, _, unused⟩ | ⟨_, _, place⟩
    · rw [unused] at positive
      exact absurd positive (by decide)
    · have slot := t.slot.isLt
      rw [Fin.val_ofNat]
      simp only [maxThreads] at slot place ⊢
      omega
  rw [proc, succ, lookupThread_registered ok enabled n, here, if_pos succ]

theorem lookupThread_cases {s : State} (ok : RegistryOk s) (procId threadId : Int) :
    (NamesSlot s procId threadId ∧ ∃ t, lookupThreadFromGdbId s procId threadId = .ok (some t)) ∨
    (¬ NamesSlot s procId threadId ∧ (lookupThreadFromGdbId s procId threadId = .ok none ∨
      ∃ e, lookupThreadFromGdbId s procId threadId = .error e ∧ e ≠ .assertFail)) := by
  by_cases names : NamesSlot s procId threadId
  · obtain ⟨t, enabled, rfl, rfl, positive⟩ := names
    exact Or.inl ⟨⟨t, enabled, rfl, rfl, positive⟩, t, lookupThread_named ok enabled (by omega)⟩
  refine Or.inr ⟨names, ?_⟩
  have split : lookupThreadFromGdbId s procId threadId = (idToIdx procId maxPds >>=
      tableIndex maxPds) >>=
      fun pd => if (s.inferiors pd).gdbId.toNat ≠ procId then .ok none else
        (idToIdx threadId maxThreads >>= tableIndex maxThreads) >>= fun slot =>
          .ok (if ((s.inferiors pd).threads slot).gdbId.toNat ≠ threadId then none
            else some ⟨pd, slot⟩) := by
    unfold lookupThreadFromGdbId
    rw [bind_assoc]
    refine congrArg _ (funext fun i => congrArg _ (funext fun pd => ?_))
    split
    · rfl
    · rw [bind_assoc]
      rfl
  rw [split]
  rcases index_cases (show 0 < maxPds by decide) procId with ⟨_, pd, index, at_pd⟩ |
    ⟨_, e, error, kind⟩
  · rw [index, ok_bind]
    by_cases other : ((s.inferiors pd).gdbId.toNat : Int) ≠ procId
    · exact Or.inl (if_pos other)
    rw [if_neg other]
    rcases index_cases (show 0 < maxThreads by decide) threadId with ⟨inside, slot, index', _⟩ |
      ⟨_, e, error, kind⟩
    · rw [index', ok_bind]
      refine Or.inl (congrArg Except.ok (if_pos fun same => ?_))
      have used := enabled_of_gdbId ok at_pd (not_not.mp other)
      refine names ⟨⟨pd, slot⟩, used, not_not.mp other, same, ?_⟩
      rcases inside with positive | ⟨_, divides⟩
      · exact positive
      · -- an id that is not positive is zero, and zero leads before the table
        have zero : threadId = 0 := by
          have := Int.natCast_nonneg ((s.inferiors pd).threads slot).gdbId.toNat
          by_contra ne
          have positive : 0 < threadId := by omega
          exact names ⟨⟨pd, slot⟩, used, not_not.mp other, same, positive⟩
        rw [zero] at divides
        exact absurd divides (by decide)
    · exact Or.inr ⟨e, by rw [error, error_bind], kind⟩
  · exact Or.inr ⟨e, by rw [error, error_bind], kind⟩

/- Runs. -/

theorem safe_of_ok {m : Stub Unit} {s t : State} (run : m.run s = .ok () t) : Safe m s := by
  intro f u bad
  rw [run] at bad
  cases bad

theorem not_safe {m : Stub Unit} {s t : State} {f : Fault} (run : m.run s = .error f t)
    (kind : f ≠ .assertFail) : ¬ Safe m s := fun safe => kind (safe f t run)

theorem confirmTarget_safe {s : State} (target : s.targetThread ≠ none) : Safe confirmTarget s := by
  obtain ⟨t, known⟩ := Option.ne_none_iff_exists'.mp target
  unfold confirmTarget
  intro f u bad
  rw [run_bind_ok (EStateM.run_get s), run_bind_ok (deref_run known s)] at bad
  by_cases here : (s.thread t).enabled = true ∧ (s.thread t).tcb ≠ 0
  · rw [run_bind_ok (assert_run here s), strlcpy_run _ _ _ _ (by decide) (by decide)] at bad
    cases bad
  · rw [assert, if_neg here] at bad
    cases bad
    rfl

theorem liftParse_error {α : Type} {p : Except Fault α} {e : Fault} (h : p = .error e) (s : State) :
    (liftParse p).run s = .error e s := by
  subst h
  rfl

theorem liftParse_bind_ok {α β : Type} {p : Except Fault α} {f : α → Stub β} {s u : State} {b : β}
    (run : (liftParse p >>= f).run s = .ok b u) : ∃ a, p = .ok a ∧ (f a).run s = .ok b u := by
  cases p with
  | error f => cases run
  | ok a => exact ⟨a, rfl, run⟩

theorem assert_bind_ok {c : Prop} [Decidable c] {β : Type} {f : Unit → Stub β} {s u : State} {b : β}
    (run : (assert c >>= f).run s = .ok b u) : c ∧ (f ()).run s = .ok b u := by
  by_cases holds : c
  · rw [run_bind_ok (assert_run holds s)] at run
    exact ⟨holds, run⟩
  · rw [show assert c = throw .assertFail from if_neg holds] at run
    cases run

theorem deref_bind_ok {α β : Type} {p : Option α} {f : α → Stub β} {s u : State} {b : β}
    (run : (deref p >>= f).run s = .ok b u) : ∃ a, p = some a ∧ (f a).run s = .ok b u := by
  cases p with
  | none => cases run
  | some a => exact ⟨a, rfl, run⟩

theorem alive_safe_iff {s : State} (ok : RegistryOk s) (procId threadId : BitVec 32) :
    Safe (IdUse.alive.run procId threadId) s ↔ IdsInRange s .alive procId.toInt threadId.toInt := by
  unfold IdUse.run IdsInRange
  rcases lookupThread_cases ok procId.toInt threadId.toInt with ⟨names, t, found⟩ | ⟨missing, lost⟩
  · refine iff_of_true ?_ names
    intro f u bad
    rw [run_bind_ok (EStateM.run_get s), run_bind_ok (liftParse_run found s), deref_some,
      pure_bind] at bad
    split at bad
    · rw [strlcpy_run _ _ _ _ (by decide) (by decide)] at bad
      cases bad
    · cases bad
  · refine iff_of_false ?_ missing
    rcases lost with none | ⟨e, error, kind⟩
    · refine not_safe (f := .nullDereference) (t := s) ?_ (by decide)
      rw [run_bind_ok (EStateM.run_get s), run_bind_ok (liftParse_run none s)]
      rfl
    · refine not_safe (t := s) ?_ kind
      rw [run_bind_ok (EStateM.run_get s), run_bind_error (liftParse_error error s)]

theorem store_safe_iff {s : State} (ok : RegistryOk s) (p i : Int) :
    Safe (do
      let t ← liftParse (lookupThreadFromGdbId s p i)
      modify fun s : State => { s with targetThread := t }
      confirmTarget) s ↔ NamesSlot s p i := by
  rcases lookupThread_cases ok p i with ⟨names, t, found⟩ | ⟨missing, lost⟩
  · refine iff_of_true ?_ names
    intro f u bad
    rw [run_bind_ok (liftParse_run found s)] at bad
    exact confirmTarget_safe (s := { s with targetThread := some t }) (by simp) f u bad
  · refine iff_of_false ?_ missing
    rcases lost with missed | ⟨e, error, kind⟩
    · refine not_safe (f := .nullDereference) (t := { s with targetThread := none }) ?_ (by decide)
      rw [run_bind_ok (liftParse_run missed s)]
      rfl
    · exact not_safe (run_bind_error (liftParse_error error s) _) kind

theorem select_safe_iff {s : State} (ok : RegistryOk s) (target : s.targetThread ≠ none)
    (procId threadId : BitVec 32) :
    Safe (IdUse.select.run procId threadId) s ↔
      IdsInRange s .select procId.toInt threadId.toInt := by
  unfold IdUse.run IdsInRange
  dsimp only
  generalize procId.toInt = p
  generalize threadId.toInt = i
  by_cases all : p = -1
  · refine iff_of_true ?_ (Or.inl all)
    intro f u bad
    rw [assert, if_neg (fun ne => ne all)] at bad
    cases bad
    rfl
  rw [assert, if_pos all, pure_bind]
  by_cases any : p = 0
  · rw [if_pos any]
    exact iff_of_true (confirmTarget_safe target) (Or.inr (Or.inl any))
  rw [if_neg any]
  rcases lookupInferior_cases ok p with ⟨names, pd, found⟩ | ⟨missing, inside, none⟩ |
    ⟨missing, outside, e, error, kind⟩
  · have start {m : Stub Unit} (h : Safe m s) (m' : Stub Unit) (same : m'.run s = m.run s) :
        Safe m' s := fun f u bad => h f u (same ▸ bad)
    by_cases every : i = -1
    · refine iff_of_true (start (confirmTarget_safe target) _ ?_)
        (Or.inr (Or.inr (Or.inr ⟨names, Or.inl every⟩)))
      rw [run_bind_ok (EStateM.run_get s), run_bind_ok (liftParse_run found s)]
      dsimp only
      rw [if_pos every]
    · have store := store_safe_iff ok p (if i = 0 then 1 else i)
      have chosen : NamesSlot s p (if i = 0 then 1 else i) ↔
          p = -1 ∨ p = 0 ∨ (¬ NamesInferior s p ∧ IndexOk maxPds p) ∨
          NamesInferior s p ∧ (i = -1 ∨ NamesSlot s p (if i = 0 then 1 else i)) := by
        simp only [all, any, names, every, not_true_eq_false, false_and, false_or, true_and]
      rw [← chosen, ← store]
      unfold Safe
      rw [run_bind_ok (EStateM.run_get s), run_bind_ok (liftParse_run found s)]
      dsimp only
      rw [if_neg every]
  · refine iff_of_true ?_ (Or.inr (Or.inr (Or.inl ⟨missing, inside⟩)))
    refine safe_of_ok (t := s.lay 0 (str "E02")) ?_
    rw [run_bind_ok (EStateM.run_get s), run_bind_ok (liftParse_run none s)]
    exact strlcpy_run _ _ _ _ (by decide) (by decide)
  · refine iff_of_false ?_ ?_
    · refine not_safe (t := s) ?_ kind
      rw [run_bind_ok (EStateM.run_get s), run_bind_error (liftParse_error error s)]
    · rintro (h | h | ⟨_, h⟩ | ⟨h, _⟩)
      · exact all h
      · exact any h
      · exact outside h
      · exact missing h

/- vCont's loop over the threads of an inferior. -/

theorem vcontThreads_null (stepping : Bool) (procId : Int) (count : Nat) (i : Int) (s : State) :
    (vcontThreads stepping none procId (count + 1) i).run s = .error .nullDereference s := rfl

theorem vcontThreads_outside (stepping : Bool) (pd : Fin maxPds) (procId : Int)
    (count : Nat) {i : Int} (outside : i < 0 ∨ (maxThreads : Int) ≤ i) (s : State) :
    (vcontThreads stepping (some pd) procId (count + 1) i).run s = .error .indexOutOfBounds s := by
  have index : tableIndex maxThreads i = .error .indexOutOfBounds := by
    rw [tableIndex, dif_neg]
    rintro ⟨lower, upper⟩
    omega
  rw [vcontThreads, deref_some, pure_bind, run_bind_error (liftParse_error index s)]

theorem vcontThreads_round {stepping : Bool} {pd : Fin maxPds} {procId : Int} {row : Fin maxPds}
    (names : (idToIdx procId maxPds >>= tableIndex maxPds) = .ok row) (count : Nat) {i : Int}
    (lower : 0 ≤ i) (upper : i < maxThreads) (s : State) :
    ∃ u, (vcontThreads stepping (some pd) procId (count + 1) i).run s =
      (vcontThreads stepping (some pd) procId count (i + 1)).run u := by
  obtain ⟨index, first, second⟩ := bind_ok names
  have slot : tableIndex maxThreads i = .ok ⟨i.toNat, by omega⟩ := by
    rw [tableIndex, dif_pos ⟨lower, upper⟩]
  rw [vcontThreads, deref_some, pure_bind, run_bind_ok (liftParse_run slot s),
    run_bind_ok (EStateM.run_get s)]
  dsimp only
  split
  · rw [run_bind_ok (liftParse_run first s), run_bind_ok (liftParse_run second s)]
    split
    · exact ⟨s, rfl⟩
    · cases stepping <;> exact ⟨_, rfl⟩
  · exact ⟨s, rfl⟩

theorem vcontThreads_returns (stepping : Bool) (pd : Fin maxPds) {procId : Int} {row : Fin maxPds}
    (names : (idToIdx procId maxPds >>= tableIndex maxPds) = .ok row) (count : Nat) {i : Int}
    (lower : 0 ≤ i) (upper : i + count ≤ maxThreads) (s : State) :
    ∃ u, (vcontThreads stepping (some pd) procId count i).run s = .ok () u := by
  induction count generalizing i s with
  | zero => exact ⟨s, rfl⟩
  | succ count ih =>
    obtain ⟨u, round⟩ := vcontThreads_round names count lower (by omega) s
    rw [round]
    exact ih (by omega) (by omega) u

theorem vcontThreads_runs_out (stepping : Bool) (pd : Fin maxPds) {procId : Int} {row : Fin maxPds}
    (names : (idToIdx procId maxPds >>= tableIndex maxPds) = .ok row) (count : Nat) {i : Int}
    (lower : 0 ≤ i) (start : i ≤ maxThreads) (beyond : (maxThreads : Int) < i + count) (s : State) :
    ∃ u, (vcontThreads stepping (some pd) procId count i).run s = .error .indexOutOfBounds u := by
  induction count generalizing i s with
  | zero => omega
  | succ count ih =>
    by_cases last : i = maxThreads
    · exact ⟨s, vcontThreads_outside _ _ _ _ (Or.inr (by omega)) s⟩
    · obtain ⟨u, round⟩ := vcontThreads_round names count lower (by omega) s
      rw [round]
      exact ih (by omega) (by omega) (by omega) u

omit [Machine] in
/-- Where C's remainder puts the loop for an id, and how many rounds it makes. -/
theorem loop_range (q : Int) :
    (q ≤ -255 → (q - (q - 1).tmod maxThreads).toNat = 0) ∧
    (-255 < q → q ≤ 0 → (q - 1).tmod maxThreads < 0 ∧ (q - (q - 1).tmod maxThreads).toNat = 1) ∧
    (0 < q → 0 ≤ (q - 1).tmod maxThreads ∧ (q - 1).tmod maxThreads < maxThreads ∧
      0 < (q - (q - 1).tmod maxThreads).toNat ∧
      (q - 1).tmod maxThreads + (q - (q - 1).tmod maxThreads).toNat = q) := by
  rw [Int.tmod_eq_emod]
  simp only [maxThreads, Int.natAbs_natCast]
  split <;> omega

theorem vcontApply_run {s : State} {p : Int} {found : Option (Fin maxPds)}
    (lookup : lookupInferiorFromGdbId s p = .ok found) (stepping : Bool) (q : Int) :
    (vcontApply stepping p q).run s =
      if q = -1 then (vcontThreads stepping found p maxThreads 0).run s
      else if q = -2 ^ 31 then .error .intOverflow s
      else (vcontThreads stepping found p (q - (q - 1).tmod maxThreads).toNat
        ((q - 1).tmod maxThreads)).run s := by
  unfold vcontApply
  rw [run_bind_ok (EStateM.run_get s), run_bind_ok (liftParse_run lookup s)]
  by_cases minus : q = -1
  · rw [if_pos minus, if_pos minus]
  rw [if_neg minus, if_neg minus]
  by_cases least : q = -2 ^ 31
  · rw [if_pos least]
    exact run_bind_error (liftParse_error (p := idToIdx q maxThreads) (if_pos least) s) _
  · rw [if_neg least]
    exact run_bind_ok (liftParse_run (p := idToIdx q maxThreads) (if_neg least) s) _

theorem resume_safe_iff {s : State} (ok : RegistryOk s) (stepping : Bool)
    (procId threadId : BitVec 32) :
    Safe ((IdUse.resume stepping).run procId threadId) s ↔
      IdsInRange s (.resume stepping) procId.toInt threadId.toInt := by
  unfold IdUse.run IdsInRange
  dsimp only
  have least_int : -2 ^ 31 ≤ threadId.toInt := BitVec.le_toInt threadId
  have size : (maxThreads : Int) = 256 := rfl
  generalize procId.toInt = p
  generalize threadId.toInt = q at least_int ⊢
  by_cases all : p = -1
  · rw [if_neg fun ne => ne all]
    exact iff_of_true (safe_of_ok rfl) (Or.inl all)
  rw [if_pos all]
  have inLoop {found : Option (Fin maxPds)} (lookup : lookupInferiorFromGdbId s p = .ok found)
      (single : q ≠ -1) (whole : q ≠ -2 ^ 31) : (vcontApply stepping p q).run s =
      (vcontThreads stepping found p (q - (q - 1).tmod maxThreads).toNat
        ((q - 1).tmod maxThreads)).run s := by
    rw [vcontApply_run lookup, if_neg single, if_neg whole]
  have overflows {found : Option (Fin maxPds)} (lookup : lookupInferiorFromGdbId s p = .ok found)
      (least : q = -2 ^ 31) : (vcontApply stepping p q).run s = .error .intOverflow s := by
    rw [vcontApply_run lookup, if_neg (by omega), if_pos least]
  have every {found : Option (Fin maxPds)} (lookup : lookupInferiorFromGdbId s p = .ok found)
      (minus : q = -1) : (vcontApply stepping p q).run s =
      (vcontThreads stepping found p maxThreads 0).run s := by
    rw [vcontApply_run lookup, if_pos minus]
  obtain ⟨far, before, inside⟩ := loop_range q
  rcases lookupInferior_cases ok p with ⟨names, pd, found⟩ | ⟨missing, index, missed⟩ |
    ⟨missing, outside, e, error, kind⟩
  · have index : IndexOk maxPds p := Or.inl (namesInferior_pos ok names)
    obtain ⟨row, named⟩ : ∃ row, (idToIdx p maxPds >>= tableIndex maxPds) = .ok row := by
      rcases index_cases (show 0 < maxPds by decide) p with ⟨_, row, named, _⟩ | ⟨outside, _⟩
      · exact ⟨row, named⟩
      · exact absurd index outside
    by_cases minus : q = -1
    · obtain ⟨u, run⟩ := vcontThreads_returns stepping pd named maxThreads
        (le_refl 0) (by omega) s
      exact iff_of_true (safe_of_ok ((every found minus).trans run))
        (Or.inr ⟨index, Or.inr ⟨names, Or.inl minus⟩⟩)
    by_cases least : q = -2 ^ 31
    · refine iff_of_false (not_safe (overflows found least) (by decide)) ?_
      rintro (h | ⟨_, ⟨h, _⟩ | ⟨_, h | h⟩⟩) <;> omega
    have loop := inLoop found minus least
    by_cases low : q ≤ -255
    · rw [far low] at loop
      exact iff_of_true (safe_of_ok loop) (Or.inr ⟨index, Or.inl ⟨by omega, low⟩⟩)
    by_cases positive : 0 < q
    · obtain ⟨lower, upper, _, last⟩ := inside positive
      by_cases single : q ≤ 256
      · obtain ⟨u, run⟩ := vcontThreads_returns stepping pd named
          (q - (q - 1).tmod maxThreads).toNat lower (by omega) s
        exact iff_of_true (safe_of_ok (loop.trans run))
          (Or.inr ⟨index, Or.inr ⟨names, Or.inr ⟨positive, single⟩⟩⟩)
      · obtain ⟨u, run⟩ := vcontThreads_runs_out stepping pd named
          (q - (q - 1).tmod maxThreads).toNat lower (by omega) (by omega) s
        refine iff_of_false (not_safe (loop.trans run) (by decide)) ?_
        rintro (h | ⟨_, ⟨_, h⟩ | ⟨_, h | h⟩⟩) <;> omega
    · obtain ⟨negative, once⟩ := before (by omega) (by omega)
      rw [once, vcontThreads_outside _ _ _ _ (Or.inl negative)] at loop
      refine iff_of_false (not_safe loop (by decide)) ?_
      rintro (h | ⟨_, ⟨_, h⟩ | ⟨_, h | h⟩⟩) <;> omega
  · have unnamed : ¬ (p = -1 ∨ IndexOk maxPds p ∧ ((-2 ^ 31 < q ∧ q ≤ -255) ∨
        NamesInferior s p ∧ (q = -1 ∨ 0 < q ∧ q ≤ 256))) ↔ ¬ (-2 ^ 31 < q ∧ q ≤ -255) := by
      simp only [all, index, missing, false_or, true_and, false_and, or_false]
    by_cases minus : q = -1
    · exact iff_of_false (not_safe ((every missed minus).trans
        (vcontThreads_null stepping p 255 0 s)) (by decide)) (unnamed.mpr (by omega))
    by_cases least : q = -2 ^ 31
    · exact iff_of_false (not_safe (overflows missed least) (by decide)) (unnamed.mpr (by omega))
    have loop := inLoop missed minus least
    by_cases low : q ≤ -255
    · rw [far low] at loop
      exact iff_of_true (safe_of_ok loop) (Or.inr ⟨index, Or.inl ⟨by omega, low⟩⟩)
    · obtain ⟨rounds, some⟩ : ∃ rounds, (q - (q - 1).tmod maxThreads).toNat = rounds + 1 := by
        by_cases positive : 0 < q
        · have range := inside positive
          exact ⟨(q - (q - 1).tmod maxThreads).toNat - 1, by omega⟩
        · exact ⟨0, (before (by omega) (by omega)).2⟩
      rw [some, vcontThreads_null] at loop
      exact iff_of_false (not_safe loop (by decide)) (unnamed.mpr (by omega))
  · refine iff_of_false ?_ ?_
    · refine not_safe (t := s) ?_ kind
      unfold vcontApply
      rw [run_bind_ok (EStateM.run_get s), run_bind_error (liftParse_error error s)]
    · rintro (h | ⟨h, _⟩)
      · exact all h
      · exact outside h

/- Every pair of ids. -/

theorem namesInferior_of_same {s u : State} (same : SameRegistry s u) (procId : Int) :
    NamesInferior u procId ↔ NamesInferior s procId := by
  unfold NamesInferior
  simp only [same.enabled, same.gdbId]

theorem namesSlot_of_same {s u : State} (same : SameRegistry s u) (procId threadId : Int) :
    NamesSlot u procId threadId ↔ NamesSlot s procId threadId := by
  unfold NamesSlot
  simp only [same.enabled, same.gdbId, same.threadGdbId]

theorem idsInRange_of_same {s u : State} (same : SameRegistry s u) (use : IdUse)
    (procId threadId : Int) :
    IdsInRange u use procId threadId ↔ IdsInRange s use procId threadId := by
  cases use <;> simp only [IdsInRange, namesInferior_of_same same, namesSlot_of_same same]

theorem safe_iff {s : State} (ok : RegistryOk s) (target : s.targetThread ≠ none) (use : IdUse)
    (procId threadId : BitVec 32) :
    Safe (use.run procId threadId) s ↔ IdsInRange s use procId.toInt threadId.toInt := by
  cases use with
  | alive => exact alive_safe_iff ok procId threadId
  | select => exact select_safe_iff ok target procId threadId
  | resume stepping => exact resume_safe_iff ok stepping procId threadId

/-- Which pairs of ids keep `T`, `H` and vCont packets inside the tables and off NULL. -/
theorem ids_safe_iff {s : State} (reachable : Reachable s) (use : IdUse)
    (procId threadId : BitVec 32) :
    IdsSafe s use procId threadId ↔ IdsInRange s use procId.toInt threadId.toInt := by
  have ok := reachable_ok reachable
  constructor
  · intro safe
    let u : State := { s with targetThread := some ⟨0, 0⟩ }
    have same : SameRegistry s u := sameRegistry_of_eq rfl rfl
    rw [← idsInRange_of_same same]
    exact (safe_iff (registryOk_of_same same ok) (by simp [u]) use procId threadId).mp
      (safe u same (by simp [u]))
  · intro range u same target
    rw [safe_iff (registryOk_of_same same ok) target, idsInRange_of_same same]
    exact range

omit [Machine] in
theorem solo_ids_safe : letI := obligingBoard
    IdsSafe soloState (.resume true) 1 1 := by
  let _ := obligingBoard
  exact (ids_safe_iff solo_registered.reachable (.resume true) 1 1).mpr
    (Or.inr ⟨Or.inl (by decide), Or.inr ⟨⟨0, rfl, rfl⟩, Or.inr ⟨by decide, by decide⟩⟩⟩)

omit [Machine] in
/-- The packet Tp0.1 reads the table of inferiors at index -1. -/
theorem process_zero_not_safe : letI := obligingBoard
    ¬ ∀ s, Reachable s → ∀ use procId threadId, IdsSafe s use procId threadId := by
  let _ := obligingBoard
  intro all
  have safe := all soloState solo_registered.reachable .alive 0 1 soloState (Std.Refl.refl _)
    (by decide)
  obtain ⟨t, enabled, gdbId, _⟩ :=
    (alive_safe_iff (reachable_ok solo_registered.reachable) 0 1).mp safe
  have id := (reachable_ok solo_registered.reachable).inferiorId t.pd
  rw [if_pos enabled] at id
  have zero : (0 : BitVec 32).toInt = 0 := rfl
  omega

end Libgdb
