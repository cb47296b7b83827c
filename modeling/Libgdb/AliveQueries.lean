import Libgdb.IdLookups
import Libgdb.IdNumbers

/-!
Queries whether a thread is alive. The handler looks the parsed ids up and reads the thread without
asking whether there is one, and a thread that exited is answered with an empty reply.
-/
namespace Libgdb
open ByteMemory CheckedPrograms
variable [Machine]

def aliveQuery (proc thread tail : List Byte) : List Byte :=
  chr 'T' :: chr 'p' :: (proc ++ chr '.' :: (thread ++ 0 :: tail))

def NamesLive (s : State) (procId threadId : Nat) : Prop :=
  ∃ t, s.live t = true ∧ (s.inferiors t.pd).gdbId.toNat = procId ∧
    (s.thread t).gdbId.toNat = threadId

/-- The query is answered OK for a live thread and with an error for any other. -/
def AliveExact (s : State) (proc thread tail : List Byte) : Prop :=
  ∃ u, (gdbHandlePacket (aliveQuery proc thread tail)).run s = .ok false u ∧
    (u.reply = str "OK" ↔ NamesLive s (hexNumber proc) (hexNumber thread)) ∧
    (¬ NamesLive s (hexNumber proc) (hexNumber thread) → ∃ rest, u.reply = chr 'E' :: rest)

/-- The ids name a live thread, and so do the numbers that are stored for them. -/
structure AliveRead (s : State) (proc thread : List Byte) : Prop where
  live : NamesLive s (hexNumber proc) (hexNumber thread)
  read : ∃ p i, ReadAs (Machine.junkInt s.drawn) proc p ∧ ReadAs 0 thread i ∧ 0 < i ∧
    NamesLive s p i

/- Lookups. -/

theorem namesLive_of_same {s u : State} (same : SameRegistry s u) (p i : Nat) :
    NamesLive u p i ↔ NamesLive s p i := by
  unfold NamesLive
  simp only [same.live, same.gdbId, same.threadGdbId]

omit [Machine] in
theorem toInt_of_gdbId {v : BitVec 32} {id : BitVec 16} (same : id.toNat = v.toNat) :
    v.toInt = id.toNat := by
  have lt := id.isLt
  rw [same]
  exact BitVec.toInt_eq_toNat_of_lt (by omega)

theorem alive_run {s : State} (ok : RegistryOk s) {procId threadId : BitVec 32}
    (names : NamesLive s procId.toNat threadId.toNat) (positive : 0 < threadId.toNat) :
    (IdUse.alive.run procId threadId).run s = .ok () (s.lay 0 (str "OK")) := by
  obtain ⟨t, live, proc, thread⟩ := names
  obtain ⟨inferior, enabled⟩ := Bool.and_eq_true_iff.mp live
  have found := lookupThread_named ok inferior (thread ▸ positive)
  unfold IdUse.run
  dsimp only
  rw [toInt_of_gdbId proc, toInt_of_gdbId thread, run_bind_ok (EStateM.run_get s),
    run_bind_ok (liftParse_run found s),
    deref_some, pure_bind, if_pos ⟨rfl, enabled⟩]
  exact strlcpy_run 0 (str "OK") bufsize s (by decide) (by decide)

theorem alive_outcome {s u : State} (ok : RegistryOk s) {procId threadId : BitVec 32}
    (returns : (IdUse.alive.run procId threadId).run s = .ok () u) :
    (NamesLive s procId.toNat threadId.toNat ∧ 0 < threadId.toNat) ∨ u = s := by
  obtain ⟨t, inferior, proc, thread, positive⟩ :=
    (alive_safe_iff ok procId threadId).mp (safe_of_ok returns)
  have found := lookupThread_named ok inferior (show 0 < (s.thread t).gdbId.toNat by omega)
  by_cases enabled : (s.thread t).enabled = true
  · have small : procId.toInt = procId.toNat := by
      rw [BitVec.toInt_eq_toNat_cond] at proc ⊢
      split at proc <;> omega
    have small' : threadId.toInt = threadId.toNat := by
      rw [BitVec.toInt_eq_toNat_cond] at thread ⊢
      split at thread <;> omega
    exact Or.inl ⟨⟨t, Bool.and_eq_true_iff.mpr ⟨inferior, enabled⟩, by omega, by omega⟩, by omega⟩
  · unfold IdUse.run at returns
    dsimp only at returns
    rw [← proc, ← thread, run_bind_ok (EStateM.run_get s), run_bind_ok (liftParse_run found s),
      deref_some, pure_bind,
      if_neg fun both => enabled both.2] at returns
    cases returns
    exact Or.inr rfl

/- Packets. -/

omit [Machine] in
theorem parseThreadId_numbers {proc thread : List Byte} (procHex : ∀ c ∈ proc, IsHex c)
    (nonempty : thread ≠ [])
    (threadHex : ∀ c ∈ thread, IsHex c) (tail : List Byte) (procOld threadOld : BitVec 32) :
    parseThreadId (chr 'p' :: (proc ++ chr '.' :: (thread ++ 0 :: tail))) procOld threadOld = (do
      let procId ← storeId (proc ++ chr '.' :: (thread ++ 0 :: tail)) proc.length procOld
      let threadId ← storeId (thread ++ 0 :: tail) thread.length threadOld
      return ⟨some (0 :: tail), procId, threadId⟩) := by
  have plain := minusOne_digits proc procHex (chr '.') (by decide) (thread ++ 0 :: tail)
  have dot : ¬ IsHex (chr '.') := by decide
  rw [parseThreadId_parts (fun c mem => isHex_ne (procHex c mem) dot) plain]
  refine congrArg _ (funext fun procId => ?_)
  exact parseThread_digits nonempty threadHex (by decide) tail procId threadOld

theorem handleCheckThreadAlive_run (proc thread tail : List Byte) (s : State) :
    (handleCheckThreadAlive (aliveQuery proc thread tail)).run s = (do
      let id ← liftParse (parseThreadId (aliveQuery proc thread tail).tail
          (Machine.junkInt s.drawn) 0)
      match id.ptr with
      | none => strlcpy 0 (str "E02") bufsize
      | some _ => IdUse.alive.run id.procId id.threadId : Stub Unit).run (s.draw 1) := by
  have head : peek (aliveQuery proc thread tail) = .ok (chr 'T') := rfl
  rw [handleCheckThreadAlive_uses, run_bind_ok (liftParse_run head s),
    run_bind_ok (assert_run rfl s)]
  exact run_bind_ok (freshInt_run s) _

theorem aliveQuery_run (proc thread tail : List Byte) (s : State) :
    (gdbHandlePacket (aliveQuery proc thread tail)).run s = (do
      handleCheckThreadAlive (aliveQuery proc thread tail)
      return false : Stub Bool).run (s.lay 0 []) := by
  have dispatched : gdbHandlePacket (aliveQuery proc thread tail) = (do
      put 0 0
      handleCheckThreadAlive (aliveQuery proc thread tail)
      return false) := rfl
  rw [dispatched, run_bind_ok (put_zero_run (by decide) s)]

theorem aliveQuery_reads {s u : State} {proc thread : List Byte} (procHex : ∀ c ∈ proc, IsHex c)
    (nonempty : thread ≠ [])
    (threadHex : ∀ c ∈ thread, IsHex c) {tail : List Byte} {procId threadId : BitVec 32}
    (procStore : storeId (proc ++ chr '.' :: (thread ++ 0 :: tail)) proc.length
      (Machine.junkInt s.drawn) = .ok procId)
    (threadStore : storeId (thread ++ 0 :: tail) thread.length 0 = .ok threadId)
    (looked : (IdUse.alive.run procId threadId).run ((s.lay 0 []).draw 1) = .ok () u) :
    (gdbHandlePacket (aliveQuery proc thread tail)).run s = .ok false u := by
  have parsed : parseThreadId (aliveQuery proc thread tail).tail (Machine.junkInt s.drawn) 0 =
      .ok ⟨some (0 :: tail), procId, threadId⟩ := by
    refine (parseThreadId_numbers procHex nonempty threadHex tail _ 0).trans ?_
    rw [procStore, ok_bind, threadStore]
    rfl
  have handled : (handleCheckThreadAlive (aliveQuery proc thread tail)).run (s.lay 0 []) =
      .ok () u := by
    rw [handleCheckThreadAlive_run]
    exact (run_bind_ok (liftParse_run parsed _) _).trans looked
  rw [aliveQuery_run, run_bind_ok handled]
  rfl

theorem aliveQuery_returns {s u : State} {proc thread : List Byte} (procHex : ∀ c ∈ proc, IsHex c)
    (nonempty : thread ≠ []) (threadHex : ∀ c ∈ thread, IsHex c) {tail : List Byte}
    (returns : (gdbHandlePacket (aliveQuery proc thread tail)).run s = .ok false u) :
    ∃ procId threadId,
      storeId (proc ++ chr '.' :: (thread ++ 0 :: tail)) proc.length (Machine.junkInt s.drawn) =
        .ok procId ∧
      storeId (thread ++ 0 :: tail) thread.length 0 = .ok threadId ∧
      (IdUse.alive.run procId threadId).run ((s.lay 0 []).draw 1) = .ok () u := by
  rw [aliveQuery_run] at returns
  obtain ⟨_, v, handled, last⟩ := ok_bind_run returns
  cases last
  rw [handleCheckThreadAlive_run] at handled
  obtain ⟨id, parsed, looked⟩ := liftParse_bind_ok handled
  have split := (parseThreadId_numbers procHex nonempty threadHex tail (Machine.junkInt s.drawn)
      0).symm.trans parsed
  obtain ⟨procId, procStore, rest⟩ := bind_ok split
  obtain ⟨threadId, threadStore, made⟩ := bind_ok rest
  cases made
  exact ⟨procId, threadId, procStore, threadStore, looked⟩

/-- A query is answered exactly for the live threads whose ids are stored as those of a live
    thread, and for no others. -/
theorem alive_exact_iff {s : State} (reachable : Reachable s) {proc thread : List Byte}
    (procNonempty : proc ≠ [])
    (procHex : ∀ c ∈ proc, IsHex c) (nonempty : thread ≠ []) (threadHex : ∀ c ∈ thread, IsHex c)
    (tail : List Byte) :
    AliveExact s proc thread tail ↔ AliveRead s proc thread := by
  have ok := reachable_ok reachable
  have same : SameRegistry s ((s.lay 0 []).draw 1) := sameRegistry_of_eq rfl rfl
  have ok' := registryOk_of_same same ok
  have procReads := storeId_readAs procNonempty procHex (chr '.' :: (thread ++ 0 :: tail))
      (Machine.junkInt s.drawn)
  have threadReads := storeId_readAs nonempty threadHex (0 :: tail) 0
  constructor
  · rintro ⟨u, returns, answered, refused⟩
    obtain ⟨procId, threadId, procStore, threadStore, looked⟩ :=
      aliveQuery_returns procHex nonempty threadHex returns
    rcases alive_outcome ok' looked with ⟨names, positive⟩ | rfl
    · have reply := looked.symm.trans (alive_run ok' names positive)
      cases reply
      have live := answered.mp (lay_reply _ (str "OK") (by decide) (by decide))
      exact ⟨live, procId.toNat, threadId.toNat, (procReads _).mp ⟨_, procStore, rfl⟩,
        (threadReads _).mp ⟨_, threadStore, rfl⟩, positive, (namesLive_of_same same _ _).mp names⟩
    · -- the reply is empty, which is right for no thread
      have empty : ((s.lay 0 []).draw 1).reply = [] := lay_reply s [] nofun (by decide)
      have dead : ¬ NamesLive s (hexNumber proc) (hexNumber thread) := by
        rw [← answered, empty]
        decide
      obtain ⟨rest, error⟩ := refused dead
      rw [empty] at error
      cases error
  · rintro ⟨live, p, i, procRead, threadRead, positive, names⟩
    obtain ⟨procId, procStore, rfl⟩ := (procReads p).mpr procRead
    obtain ⟨threadId, threadStore, rfl⟩ := (threadReads i).mpr threadRead
    have looked := alive_run ok' ((namesLive_of_same same _ _).mpr names) positive
    have reply : (((s.lay 0 []).draw 1).lay 0 (str "OK")).reply = str "OK" :=
      lay_reply _ _ (by decide) (by decide)
    exact ⟨_, aliveQuery_reads procHex nonempty threadHex procStore threadStore looked,
      iff_of_true reply live,
      fun dead => absurd live dead⟩

omit [Machine] in
theorem solo_alive_exact : letI := obligingBoard
    AliveExact soloState (str "1") (str "1") [] := by
  let _ := obligingBoard
  have live : NamesLive soloState 1 1 :=
    ⟨⟨0, 0⟩, by decide +kernel, by decide +kernel, by decide +kernel⟩
  exact (alive_exact_iff solo_registered.reachable (by decide) (by decide) (by decide)
    (by decide) []).mpr
    ⟨live, 1, 1, Or.inl (by decide), Or.inl (by decide), by decide, live⟩

omit [Machine] in
theorem solo_unknown_thread : letI := obligingBoard
    value (gdbHandlePacket (aliveQuery (str "1") (str "2") [])) soloState = none := by
  let _ := obligingBoard
  decide +kernel

omit [Machine] in
/-- `Tp1.2` dereferences NULL where no thread 2 was ever registered. -/
theorem unknown_thread_dereferenced : letI := obligingBoard
    ¬ ∀ s, Reachable s → ∀ proc thread : List Byte, proc ≠ [] →
    (∀ c ∈ proc, IsHex c) → thread ≠ [] →
      (∀ c ∈ thread, IsHex c) → 0 < hexNumber proc → 0 < hexNumber thread →
      ∀ tail, AliveExact s proc thread tail := by
  let _ := obligingBoard
  intro all
  obtain ⟨u, returns, _⟩ := all soloState solo_registered.reachable (str "1") (str "2") (by decide)
      (by decide) (by decide)
    (by decide) (by decide) (by decide) []
  have lost := solo_unknown_thread
  rw [value_ok returns] at lost
  cases lost

end Libgdb
