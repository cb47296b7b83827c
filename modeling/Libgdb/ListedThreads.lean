import Libgdb.ThreadIds
import Libgdb.RegisterMirror
import Libgdb.ThreadList

/-!
The thread list names each live thread once. Ids keep one byte each, which is enough: the gdb ids
of the slots of an inferior differ modulo the table size however far they have grown.
-/
namespace Libgdb
open ByteMemory CheckedPrograms
variable [Machine]

def writtenId (s : State) (t : ThreadRef) : List Byte := (after (writeThreadId t 0) s).reply

/-- The ids of the live threads in a row, each of them once, and of no thread that has exited. -/
structure NamesLiveThreads (s : State) (ids : List (List Byte)) : Prop where
  apart : ids.Nodup
  complete : ∀ t, s.live t = true → ids.count (writtenId s t) = 1
  sound : ∀ id ∈ ids, ∃ t, s.live t = true ∧ id = writtenId s t
  exited : ∀ t, s.live t = false → (s.thread t).inferior ≠ none → writtenId s t ∉ ids

/- Texts. -/

theorem writtenId_text {s : State} {t : ThreadRef} (owner : (s.thread t).inferior = some t.pd) :
    writtenId s t = threadIdText s t t.pd := by
  unfold writtenId
  rw [after_ok (writeThreadId_run t t.pd 0 s owner (by decide))]
  exact lay_reply _ _ (threadIdText_ne_zero s t t.pd) (by rw [threadIdText_length]; decide)

omit [Machine] in
theorem hexDigits_injective {a b : Byte} (same : hexDigits [a] = hexDigits [b]) : a = b := by
  have first := hex2mem_digits (hexDigits_hexOf [a]) []
  have second := hex2mem_digits (hexDigits_hexOf [b]) []
  rw [same] at first
  cases first.symm.trans second
  rfl

theorem threadIdText_injective {s : State} (ok : RegistryOk s) {t r : ThreadRef}
    (owner : (s.thread t).inferior = some t.pd) (owner' : (s.thread r).inferior = some r.pd)
    (same : threadIdText s t t.pd = threadIdText s r r.pd) : t = r := by
  have used {t : ThreadRef} (owner : (s.thread t).inferior = some t.pd) :
      (s.inferiors t.pd).enabled = true ∧ (s.thread t).gdbId.toNat % maxThreads =
        (t.slot.val + 1) % maxThreads := by
    rcases ok.threads t with ⟨unused, _⟩ | ⟨_, enabled, slot⟩
    · rw [owner] at unused
      cases unused
    · exact ⟨enabled, slot⟩
  obtain ⟨enabled, slot⟩ := used owner
  obtain ⟨enabled', slot'⟩ := used owner'
  have place := ok.inferiorId t.pd
  have place' := ok.inferiorId r.pd
  rw [if_pos enabled] at place
  rw [if_pos enabled'] at place'
  simp only [threadIdText, List.cons_append, List.cons.injEq, true_and] at same
  obtain ⟨procs, threads⟩ := List.append_inj same (by rw [hexDigits_length, hexDigits_length]; rfl)
  have pds := congrArg BitVec.toNat (hexDigits_injective procs)
  have slots := congrArg BitVec.toNat (hexDigits_injective (List.cons.inj threads).2)
  rw [BitVec.toNat_setWidth, BitVec.toNat_setWidth] at pds slots
  obtain ⟨⟨pd, pd_lt⟩, ⟨i, i_lt⟩⟩ := t
  obtain ⟨⟨pd', pd_lt'⟩, ⟨j, j_lt⟩⟩ := r
  have small : pd < 64 := pd_lt
  have small' : pd' < 64 := pd_lt'
  have few : i < 256 := i_lt
  have few' : j < 256 := j_lt
  simp only [maxThreads] at place place' slot slot' pds slots
  simp only [ThreadRef.mk.injEq, Fin.mk.injEq]
  omega

/- The list. -/

omit [Machine] in
theorem threadRefs_nodup : threadRefs.Nodup := by
  refine List.nodup_flatMap.mpr ⟨fun pd _ => (List.nodup_finRange _).map fun i j same => ?_, ?_⟩
  · exact congrArg ThreadRef.slot same
  · refine (List.nodup_finRange maxPds).imp fun {a b} ne => ?_
    rw [Function.onFun, List.disjoint_left]
    intro t mem mem'
    obtain ⟨_, _, rfl⟩ := List.mem_map.mp mem
    obtain ⟨_, _, same⟩ := List.mem_map.mp mem'
    exact ne (congrArg ThreadRef.pd same).symm

theorem mem_liveThreads {s : State} {t : ThreadRef} : t ∈ liveThreads s ↔ s.live t = true := by
  simp [liveThreads, mem_threadRefs]

theorem idTexts_intercalate (s : State) (ts : List ThreadRef) :
    (idTexts s ts).tail = List.intercalate [chr ','] (ts.map fun t => threadIdText s t t.pd) := by
  cases ts with
  | nil => rfl
  | cons t ts =>
    rw [idTexts, List.flatMap_cons, List.cons_append, List.tail_cons]
    induction ts generalizing t with
    | nil => simp
    | cons r ts ih =>
      rw [List.flatMap_cons, List.cons_append, ih r, List.map_cons, List.map_cons, List.map_cons,
        List.intercalate_cons_cons]
      simp

theorem names_live_threads {s : State} (ok : RegistryOk s) :
    NamesLiveThreads s ((liveThreads s).map fun t => threadIdText s t t.pd) := by
  have owned := liveOwned_of_ok ok
  have apart : ((liveThreads s).map fun t => threadIdText s t t.pd).Nodup := by
    refine (threadRefs_nodup.filter _).map_on fun t mem r mem' same => ?_
    have live := mem_liveThreads.mp mem
    have live' := mem_liveThreads.mp mem'
    exact threadIdText_injective ok (owned t live) (owned r live') same
  refine ⟨apart, fun t live => ?_, fun id mem => ?_, fun t off used mem => ?_⟩
  · rw [writtenId_text (owned t live)]
    exact List.count_eq_one_of_mem apart (List.mem_map.mpr ⟨t, mem_liveThreads.mpr live, rfl⟩)
  · obtain ⟨t, mem', rfl⟩ := List.mem_map.mp mem
    have live := mem_liveThreads.mp mem'
    exact ⟨t, live, (writtenId_text (owned t live)).symm⟩
  · have owner : (s.thread t).inferior = some t.pd := by
      rcases ok.threads t with ⟨unused, _⟩ | ⟨owner, _⟩
      · exact absurd unused used
      · exact owner
    obtain ⟨r, mem', same⟩ := List.mem_map.mp mem
    rw [writtenId_text owner] at same
    have live := mem_liveThreads.mp mem'
    rw [threadIdText_injective ok (owned r live) owner same, off] at live
    cases live

/-- The list of up to 292 live threads is complete and unambiguous. -/
theorem thread_list_complete {s : State} (reachable : Reachable s)
    (some : 1 ≤ (liveThreads s).length)
    (few : (liveThreads s).length ≤ 292) {input : List Byte} (lists : ListsThreads input) :
    ∃ u ids, (gdbHandlePacket input).run s = .ok false u ∧ u.reply = chr 'm' :: List.intercalate
    [chr ','] ids ∧
      NamesLiveThreads s ids := by
  have ok := reachable_ok reachable
  have nonempty : liveThreads s ≠ [] := List.ne_nil_of_length_pos some
  have fits : 7 * (liveThreads s).length < bufsize := by
    simp only [bufsize]
    omega
  refine ⟨_, _, listing_fits lists (liveOwned_of_ok ok) nonempty fits, ?_, names_live_threads ok⟩
  rw [← idTexts_intercalate]
  exact threadListText_reply nonempty fits s.output

omit [Machine] in
/-- 146 threads in each of two inferiors. -/
theorem full_list_complete : letI := obligingBoard
    ∃ s u ids, Crowd 2 (pairSizes 146) s ∧ (liveThreads s).length = 292 ∧
      (gdbHandlePacket (str "qfThreadInfo" ++ [0])).run s = .ok false u ∧
      u.reply = chr 'm' :: List.intercalate [chr ','] ids ∧ NamesLiveThreads s ids := by
  let _ := obligingBoard
  obtain ⟨s, reachable, crowd, count⟩ := pair_crowds 146 (by decide)
  obtain ⟨u, ids, listed⟩ := thread_list_complete reachable (by omega) count.le ⟨[0], rfl⟩
  exact ⟨s, u, ids, crowd, count, listed⟩

end Libgdb
