import Libgdb.Frames
import Libgdb.SoftwareBreakpoints

/-!
Writes made while a software breakpoint is set. Its removal writes back eight bytes saved when
it was set, so a later write to the four bytes behind the instruction is lost.
-/
namespace Libgdb
open ByteMemory SlotTables GuardedRuns CheckedPrograms
variable [Machine]

/-- A store of the debuggee, or an `M` packet. -/
inductive OtherWrite where
  | store (address : Word) (b : Byte)
  | packet (rest : List Byte)

def applyWrite (pd : Fin maxPds) (s : State) : OtherWrite → State
  | .store address b => s.withKernel { s.kernel with
      memory := Function.update s.kernel.memory (s.inferiors pd).vspace
        (Function.update (vspaceMemory s pd) address b) }
  | .packet rest => after (gdbHandlePacket (chr 'M' :: rest)) s

def Outside (pd : Fin maxPds) (a : Word) (s : State) (w : OtherWrite) : Prop :=
  ∀ k < 4, vspaceMemory (applyWrite pd s w) pd (a + BitVec.ofNat 64 k) =
    vspaceMemory s pd (a + BitVec.ofNat 64 k)

instance (pd : Fin maxPds) (a : Word) (s : State) (w : OtherWrite) : Decidable (Outside pd a s w) :=
  inferInstanceAs (Decidable (∀ k < 4, _ = _))

/-- Memory after the removal: the instruction as it was before the breakpoint was set in `s`,
    and every other byte as it was before the removal in `t`. -/
def LosesNothing (pd : Fin maxPds) (a : Word) (s t u : State) : Prop :=
  ∀ x, vspaceMemory u pd x = if (x - a).toNat < 4 then vspaceMemory s pd x else vspaceMemory t pd x

/-- The word the removal will write back for a breakpoint set in `s`: the one read now, unless
    an earlier slot is in use for the same address. -/
def savedWord (s : State) (pd : Fin maxPds) (a : Word) : Word :=
  match swSlot s pd 0, swSlot s pd a with
  | some i, some j =>
    if j < i then ((s.inferiors pd).softwareBreakpoints j).origWord else load (vspaceMemory s pd) a
  | _, _ => load (vspaceMemory s pd) a

/- The tables between the set and the removal. -/

def SameInferiors (s t : State) : Prop := t.inferiors = s.inferiors

instance : Frame SameInferiors where
  refl _ := rfl
  trans _ _ _ first second := Eq.trans second first
  output _ _ := rfl
  drawn _ _ := rfl

theorem write_sameInferiors (pd : Fin maxPds) (s : State) (w : OtherWrite) :
    SameInferiors s (applyWrite pd s w) := by
  cases w with
  | store address b => rfl
  | packet rest =>
    have word (thread : Option ThreadRef) (mem : Word) :
        Stays SameInferiors (readInferiorWord thread mem) :=
      stays_readInferiorWord (fun _ _ _ => rfl) thread mem
    have write (thread : Option ThreadRef) (mem value : Word) :
        Stays SameInferiors (writeInferiorWord thread mem value) :=
      stays_bind stays_get fun _ => stays_bind (stays_deref _) fun _ =>
        stays_bind (stays_deref _) fun _ => fun _ => rfl
    have handler : Stays SameInferiors (handleWriteMem (chr 'M' :: rest)) :=
      stays_handleWriteMem _ fun thread => stays_infHex2mem (word thread) (write thread)
    have whole : Stays SameInferiors (gdbHandlePacket (chr 'M' :: rest)) := by
      rw [dispatch_writeMem]
      exact stays_bind (stays_put _ _) fun _ => stays_bind handler fun _ => stays_pure _
    exact whole s

theorem writes_sameInferiors (pd : Fin maxPds) (ws : List OtherWrite) (s : State) :
    SameInferiors s (ws.foldl (applyWrite pd) s) := by
  induction ws generalizing s with
  | nil => rfl
  | cons w ws ih => exact Eq.trans (ih (applyWrite pd s w)) (write_sameInferiors pd s w)

/- A set and a removal that succeed, whichever other calls fail. -/

theorem vspaceReadWord_cases (vspace address : Word) (s : State) :
    ∃ k, k.memory = s.kernel.memory ∧
      ((vspaceReadWord vspace address).run s = .ok none (s.withKernel k) ∨
        (vspaceReadWord vspace address).run s =
          .ok (some (load (s.kernel.memory vspace) address)) (s.withKernel k)) := by
  have memory : (s.kernel.record (.vspaceReadWord vspace address)).memory = s.kernel.memory := by
    unfold Kernel.record
    dsimp only
    split <;> rfl
  refine ⟨s.kernel.record (.vspaceReadWord vspace address), memory, ?_⟩
  cases fails : Machine.fails s.kernel.calls (.vspaceReadWord vspace address) with
  | true => exact Or.inl (by simp [vspaceReadWord, fails])
  | false => exact Or.inr (by simp [vspaceReadWord, fails, memory])

theorem setSoftwareBreakpoint_true {pd : Fin maxPds} {a : Word} {s t : State}
    (set : (setSoftwareBreakpoint pd a).run s = .ok true t) :
    ∃ i, swSlot s pd 0 = some i ∧
      t.inferiors pd = (s.inferiors pd).setSwBreak i ⟨a, load (vspaceMemory s pd) a⟩ := by
  obtain ⟨k, memory, missed | read⟩ := vspaceReadWord_cases (s.inferiors pd).vspace a s
  · unfold setSoftwareBreakpoint at set
    rw [run_bind_ok (EStateM.run_get s), run_bind_ok missed] at set
    cases set
  unfold setSoftwareBreakpoint at set
  rw [run_bind_ok (EStateM.run_get s), run_bind_ok read] at set
  dsimp only at set
  rw [vspaceWriteWord, run_bind_ok (invoke_run _ _)] at set
  split at set
  · cases set
  · cases slot : swSlot s pd 0 with
    | none =>
      unfold swSlot at slot
      rw [slot] at set
      cases set
    | some i =>
      refine ⟨i, rfl, ?_⟩
      unfold swSlot at slot
      rw [slot] at set
      cases set
      rw [setInferior_inferiors, Function.update_self]
      rfl

theorem unsetSoftwareBreakpoint_true {pd : Fin maxPds} {a : Word} {s t : State}
    {i : Fin maxSwBreaks}
    (slot : swSlot s pd a = some i) (unset : (unsetSoftwareBreakpoint pd a).run s = .ok true t) :
    vspaceMemory t pd =
      store (vspaceMemory s pd) a ((s.inferiors pd).softwareBreakpoints i).origWord := by
  unfold unsetSoftwareBreakpoint at unset
  unfold swSlot at slot
  rw [run_bind_ok (EStateM.run_get s), slot] at unset
  dsimp only at unset
  rw [vspaceWriteWord, run_bind_ok (invoke_run _ _)] at unset
  split at unset
  · cases unset
  · rename_i success
    rw [Bool.not_eq_true] at success
    cases unset
    simp [vspaceMemory, Inferior.setSwBreak, record_of_ok success, KernelCall.effect,
      Kernel.storeWord]

theorem slot_after_set {pd : Fin maxPds} {a : Word} {s t : State} {i : Fin maxSwBreaks}
    (free : swSlot s pd 0 = some i)
    (table : t.inferiors pd = (s.inferiors pd).setSwBreak i ⟨a, load (vspaceMemory s pd) a⟩) :
    ∃ j, swSlot t pd a = some j ∧
      ((t.inferiors pd).softwareBreakpoints j).origWord = savedWord s pd a := by
  have entry (j : Fin maxSwBreaks) : (t.inferiors pd).softwareBreakpoints j =
      if j = i then ⟨a, load (vspaceMemory s pd) a⟩
      else (s.inferiors pd).softwareBreakpoints j := by
    rw [table, setSwBreak_at]
  obtain ⟨j, found, le⟩ := firstSlot_exists (i := i)
    (p := fun j => ((t.inferiors pd).softwareBreakpoints j).addr == a) (by simp [entry])
  refine ⟨j, found, ?_⟩
  have at_j : ((t.inferiors pd).softwareBreakpoints j).addr = a := by
    simpa using (firstSlot_some found).1
  have before (k : Fin maxSwBreaks) (lt : k < j) :
      ((s.inferiors pd).softwareBreakpoints k).addr ≠ a := by
    have other := (firstSlot_some found).2 k lt
    rw [entry, if_neg (by omega)] at other
    simpa using other
  unfold savedWord
  rw [free]
  by_cases same : j = i
  · subst same
    rw [entry, if_pos rfl]
    cases old : swSlot s pd a with
    | none => rfl
    | some k =>
      have at_k : ((s.inferiors pd).softwareBreakpoints k).addr = a := by
        simpa using (firstSlot_some old).1
      dsimp only
      rw [if_neg fun lt => before k lt at_k]
  · have lt : j < i := by omega
    rw [entry, if_neg same] at at_j ⊢
    have old : swSlot s pd a = some j := by
      obtain ⟨k, found', le'⟩ := firstSlot_exists (i := j)
        (p := fun j => ((s.inferiors pd).softwareBreakpoints j).addr == a) (by simp [at_j])
      have at_k : ((s.inferiors pd).softwareBreakpoints k).addr = a := by
        simpa using (firstSlot_some found').1
      rcases Nat.lt_or_eq_of_le le' with less | equal
      · exact absurd at_k (before k less)
      · rwa [Fin.ext equal] at found'
    rw [old]
    dsimp only
    rw [if_pos lt]

/-- A removal restores the instruction and loses no write made since the set exactly when the
    word it writes back is the old instruction followed by the four bytes memory holds now. -/
theorem removal_loses_nothing_iff {pd : Fin maxPds} {a : Word} {s t u : State}
    (set : (setSoftwareBreakpoint pd a).run s = .ok true t) (ws : List OtherWrite)
    (unset : (unsetSoftwareBreakpoint pd a).run (ws.foldl (applyWrite pd) t) = .ok true u) :
    LosesNothing pd a s (ws.foldl (applyWrite pd) t) u ↔
      (∀ k < 4, byteOf (savedWord s pd a) k = vspaceMemory s pd (a + BitVec.ofNat 64 k)) ∧
      ∀ k < 8, 4 ≤ k → byteOf (savedWord s pd a) k =
        vspaceMemory (ws.foldl (applyWrite pd) t) pd (a + BitVec.ofNat 64 k) := by
  obtain ⟨i, free, table⟩ := setSoftwareBreakpoint_true set
  have kept : (ws.foldl (applyWrite pd) t).inferiors = t.inferiors := writes_sameInferiors pd ws t
  generalize ws.foldl (applyWrite pd) t = v at unset kept ⊢
  obtain ⟨j, slot, saved⟩ := slot_after_set free ((congrFun kept pd).trans table)
  rw [LosesNothing, unsetSoftwareBreakpoint_true slot unset, saved]
  constructor
  · intro all
    constructor
    · intro k lt
      have here := all (a + BitVec.ofNat 64 k)
      rwa [store_at _ _ _ (by omega), offset_add _ (by omega), if_pos lt] at here
    · intro k lt le
      have here := all (a + BitVec.ofNat 64 k)
      rwa [store_at _ _ _ lt, offset_add _ (by omega), if_neg (by omega)] at here
  · rintro ⟨low, high⟩ x
    by_cases word : (x - a).toNat < 8
    · rw [store_inside _ _ _ _ word]
      by_cases instruction : (x - a).toNat < 4
      · rw [if_pos instruction, low _ instruction, add_offset]
      · rw [if_neg instruction, high _ word (by omega), add_offset]
    · rw [store_outside _ _ _ _ word, if_neg (by omega)]

omit [Machine] in
theorem distant_write_kept : letI := obligingBoard
    LosesNothing 0 0x1000 blankState
      (applyWrite 0 (after (setSoftwareBreakpoint 0 0x1000) blankState) (.store 0x1008 1))
      (after (unsetSoftwareBreakpoint 0 0x1000)
        (applyWrite 0 (after (setSoftwareBreakpoint 0 0x1000) blankState) (.store 0x1008 1))) := by
  let _ := obligingBoard
  exact (removal_loses_nothing_iff (s := blankState) rfl [.store 0x1008 1] rfl).mpr
    ⟨by decide, by decide⟩

omit [Machine] in
/-- The debuggee stores to the byte behind the instruction, and the removal puts the old one back.
    -/
theorem neighbouring_write_lost : letI := obligingBoard
    ¬ ∀ s t u pd a ws, (setSoftwareBreakpoint pd a).run s = .ok true t →
      Guarded (applyWrite pd) (Outside pd a) ws t →
      (unsetSoftwareBreakpoint pd a).run (ws.foldl (applyWrite pd) t) = .ok true u →
      LosesNothing pd a s (ws.foldl (applyWrite pd) t) u := by
  let _ := obligingBoard
  intro all
  have lost := all blankState _ _ 0 0x1000 [.store 0x1004 1] rfl ⟨by decide, trivial⟩ rfl 0x1004
  revert lost
  decide

end Libgdb
