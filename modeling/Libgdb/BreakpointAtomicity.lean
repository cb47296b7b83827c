import Libgdb.OtherWrites

/-!
Software breakpoint calls when some addresses cannot be read or written. A call that fails changes
nothing. One that succeeds has recorded what its removal needs unless an earlier slot is in use
for the same address.
-/
namespace Libgdb
open ByteMemory SlotTables CheckedPrograms
variable [Machine]

/-- A read or write of a word is refused outside a fixed set of addresses of each vspace, and
    there only. -/
structure FixedAccess (readable writable : Word → Word → Bool) : Prop where
  read : ∀ calls vspace address, Machine.fails calls (.vspaceReadWord vspace address) =
    !readable vspace address
  write : ∀ calls vspace address value,
    Machine.fails calls (.vspaceWriteWord vspace address value) = !writable vspace address

def MemoryKept (s t : State) : Prop := t.kernel.memory = s.kernel.memory ∧ t.inferiors = s.inferiors

/-- Exactly one slot, free before, has changed and records the address and the original word. -/
def RecordsWord (s : State) (pd : Fin maxPds) (a : Word) (t : State) : Prop :=
  ∃ i, ((s.inferiors pd).softwareBreakpoints i).addr = 0 ∧
    (t.inferiors pd).softwareBreakpoints i = ⟨a, load (vspaceMemory s pd) a⟩ ∧
    ∀ j, (t.inferiors pd).softwareBreakpoints j ≠ (s.inferiors pd).softwareBreakpoints j ↔ j = i

/-- Whatever memory has become since, the removal puts the original word back. -/
def RemovalRestores (s : State) (pd : Fin maxPds) (a : Word) (t : State) : Prop :=
  ∀ k : Kernel, ∃ u, (unsetSoftwareBreakpoint pd a).run (t.withKernel k) = .ok true u ∧
    load (vspaceMemory u pd) a = load (vspaceMemory s pd) a

/-- The two calls return, leave everything as it was where they report failure, and a set that
    reports success can be undone. -/
structure BreakpointAtomic (s : State) (pd : Fin maxPds) (a : Word) : Prop where
  set : ∃ done t, (setSoftwareBreakpoint pd a).run s = .ok done t ∧
    (done = false → MemoryKept s t) ∧
    (done = true → RecordsWord s pd a t ∧ RemovalRestores s pd a t)
  unset : ∃ done t, (unsetSoftwareBreakpoint pd a).run s = .ok done t ∧
    (done = false → MemoryKept s t)

/-- The first free slot is not already what the set makes of it, which takes address 0, and no
    earlier slot is in use for the address with another word. -/
def Recordable (s : State) (pd : Fin maxPds) (a : Word) : Prop :=
  ∀ i, swSlot s pd 0 = some i →
    (s.inferiors pd).softwareBreakpoints i ≠ ⟨a, load (vspaceMemory s pd) a⟩ ∧
    savedWord s pd a = load (vspaceMemory s pd) a

/- Calls that are refused. -/

section
variable {readable writable : Word → Word → Bool} (access : FixedAccess readable writable)
include access

theorem vspaceReadWord_refused {vspace address : Word}
    (unreadable : readable vspace address = false) (s : State) :
    ∃ k : Kernel, k.memory = s.kernel.memory ∧ (vspaceReadWord vspace address).run s = .ok none
    (s.withKernel k) := by
  have fails : Machine.fails s.kernel.calls (.vspaceReadWord vspace address) = true := by
    rw [access.read, unreadable]; rfl
  refine ⟨s.kernel.record (.vspaceReadWord vspace address), ?_, ?_⟩
  · rw [record_of_fail fails]
  · simp [vspaceReadWord, fails]

theorem vspaceReadWord_granted {vspace address : Word} (ok : readable vspace address = true)
    (s : State) :
    ∃ k : Kernel, k.memory = s.kernel.memory ∧ (vspaceReadWord vspace address).run s =
      .ok (some (load (s.kernel.memory vspace) address)) (s.withKernel k) := by
  have succeeds : Machine.fails s.kernel.calls (.vspaceReadWord vspace address) = false := by
    rw [access.read, ok]; rfl
  refine ⟨s.kernel.record (.vspaceReadWord vspace address), ?_, ?_⟩
  · rw [record_of_ok succeeds]
    rfl
  · simp [vspaceReadWord, succeeds, record_of_ok succeeds, KernelCall.effect]

theorem vspaceWriteWord_refused {vspace address : Word}
    (unwritable : writable vspace address = false) (value : Word)
    (s : State) : ∃ k : Kernel, k.memory = s.kernel.memory ∧
      (vspaceWriteWord vspace address value).run s = .ok true (s.withKernel k) := by
  have fails : Machine.fails s.kernel.calls (.vspaceWriteWord vspace address value) = true := by
    rw [access.write, unwritable]
    rfl
  refine ⟨s.kernel.record (.vspaceWriteWord vspace address value), ?_, ?_⟩
  · rw [record_of_fail fails]
  · rw [vspaceWriteWord, invoke_run, fails]

theorem vspaceWriteWord_granted {vspace address : Word} (ok : writable vspace address = true)
    (value : Word) (s : State) : ∃ k : Kernel,
      k.memory = Function.update s.kernel.memory vspace
        (store (s.kernel.memory vspace) address value) ∧
      (vspaceWriteWord vspace address value).run s = .ok false (s.withKernel k) := by
  have succeeds : Machine.fails s.kernel.calls (.vspaceWriteWord vspace address value) = false := by
    rw [access.write, ok]
    rfl
  refine ⟨s.kernel.record (.vspaceWriteWord vspace address value), ?_, ?_⟩
  · rw [record_of_ok succeeds]
    rfl
  · rw [vspaceWriteWord, invoke_run, succeeds]

/- The set. -/

/-- The write made before a slot is searched for is undone: it can be, at the same address. -/
theorem setSoftwareBreakpoint_kept {s : State} {pd : Fin maxPds} {a : Word}
    (short : readable (s.inferiors pd).vspace a = true → writable (s.inferiors pd).vspace a = true →
      swSlot s pd 0 = none) :
    ∃ t, (setSoftwareBreakpoint pd a).run s = .ok false t ∧ MemoryKept s t := by
  unfold setSoftwareBreakpoint
  rw [run_bind_ok (EStateM.run_get s)]
  cases canRead : readable (s.inferiors pd).vspace a with
  | false =>
    obtain ⟨k, memory, run⟩ := vspaceReadWord_refused access canRead s
    exact ⟨s.withKernel k, by rw [run_bind_ok run]; rfl, memory, rfl⟩
  | true =>
    obtain ⟨k₁, memory₁, run₁⟩ := vspaceReadWord_granted access canRead s
    rw [run_bind_ok run₁]
    dsimp only
    cases canWrite : writable (s.inferiors pd).vspace a with
    | false =>
      obtain ⟨k₂, memory₂, run₂⟩ := vspaceWriteWord_refused access canWrite
        (brkWord (load (s.kernel.memory (s.inferiors pd).vspace) a)) (s.withKernel k₁)
      exact ⟨s.withKernel k₂, by rw [run_bind_ok run₂]; rfl, memory₂.trans memory₁, rfl⟩
    | true =>
      obtain ⟨k₂, memory₂, run₂⟩ := vspaceWriteWord_granted access canWrite
        (brkWord (load (s.kernel.memory (s.inferiors pd).vspace) a)) (s.withKernel k₁)
      obtain ⟨k₃, memory₃, run₃⟩ := vspaceWriteWord_granted access canWrite
        (load (s.kernel.memory (s.inferiors pd).vspace) a) (s.withKernel k₂)
      have full := short canRead canWrite
      unfold swSlot at full
      refine ⟨s.withKernel k₃, ?_, ?_, rfl⟩
      · rw [run_bind_ok run₂, if_neg Bool.false_ne_true, full]
        dsimp only
        rw [show ((s.withKernel k₁).withKernel k₂) = s.withKernel k₂ from rfl, run_bind_ok run₃]
        rfl
      · simp only [withKernel_kernel] at memory₂ memory₃ ⊢
        rw [memory₃, memory₂, memory₁]
        simp [store_store, store_load]

theorem setSoftwareBreakpoint_done {s : State} {pd : Fin maxPds} {a : Word}
    (canRead : readable (s.inferiors pd).vspace a = true)
    (canWrite : writable (s.inferiors pd).vspace a = true)
    {i : Fin maxSwBreaks} (free : swSlot s pd 0 = some i) :
    ∃ t, (setSoftwareBreakpoint pd a).run s = .ok true t ∧
      t.inferiors pd = (s.inferiors pd).setSwBreak i ⟨a, load (vspaceMemory s pd) a⟩ := by
  obtain ⟨k₁, memory₁, run₁⟩ := vspaceReadWord_granted access canRead s
  obtain ⟨k₂, memory₂, run₂⟩ := vspaceWriteWord_granted access canWrite
    (brkWord (load (s.kernel.memory (s.inferiors pd).vspace) a)) (s.withKernel k₁)
  have set : (setSoftwareBreakpoint pd a).run s = .ok true
      ((s.withKernel k₂).setInferior pd ((s.inferiors pd).setSwBreak i ⟨a,
        load (vspaceMemory s pd) a⟩)) := by
    unfold setSoftwareBreakpoint
    rw [run_bind_ok (EStateM.run_get s), run_bind_ok run₁]
    dsimp only
    unfold swSlot at free
    rw [run_bind_ok run₂, if_neg Bool.false_ne_true, free]
    rfl
  exact ⟨_, set, by simp⟩

/- The removal. -/

theorem unsetSoftwareBreakpoint_outcome (s : State) (pd : Fin maxPds) (a : Word) :
    ∃ done t, (unsetSoftwareBreakpoint pd a).run s = .ok done t ∧
    (done = false → MemoryKept s t) := by
  unfold unsetSoftwareBreakpoint
  rw [run_bind_ok (EStateM.run_get s)]
  cases firstSlot fun i => ((s.inferiors pd).softwareBreakpoints i).addr == a with
  | none => exact ⟨true, s, rfl, nofun⟩
  | some i =>
    dsimp only
    cases canWrite : writable (s.inferiors pd).vspace a with
    | false =>
      obtain ⟨k, memory, run⟩ := vspaceWriteWord_refused access canWrite
        ((s.inferiors pd).softwareBreakpoints i).origWord s
      exact ⟨false, s.withKernel k, by rw [run_bind_ok run]; rfl, fun _ => ⟨memory, rfl⟩⟩
    | true =>
      obtain ⟨k, _, run⟩ := vspaceWriteWord_granted access canWrite
        ((s.inferiors pd).softwareBreakpoints i).origWord s
      exact ⟨true, _, by rw [run_bind_ok run]; rfl, nofun⟩

theorem unsetSoftwareBreakpoint_granted {s : State} {pd : Fin maxPds} {a : Word}
    (canWrite : writable (s.inferiors pd).vspace a = true) {i : Fin maxSwBreaks}
    (slot : swSlot s pd a = some i) :
    ∃ u, (unsetSoftwareBreakpoint pd a).run s = .ok true u ∧
      load (vspaceMemory u pd) a = ((s.inferiors pd).softwareBreakpoints i).origWord := by
  obtain ⟨k, memory, run⟩ := vspaceWriteWord_granted access canWrite
    ((s.inferiors pd).softwareBreakpoints i).origWord s
  unfold swSlot at slot
  refine ⟨_, by unfold unsetSoftwareBreakpoint; rw [run_bind_ok (EStateM.run_get s), slot]; exact run_bind_ok run _, ?_⟩
  simp [vspaceMemory, Inferior.setSwBreak, memory, load_store]

/- After a set that succeeds. -/

omit access in
theorem recordsWord_iff {s t : State} {pd : Fin maxPds} {a : Word} {i : Fin maxSwBreaks}
    (free : swSlot s pd 0 = some i)
    (table : t.inferiors pd = (s.inferiors pd).setSwBreak i ⟨a, load (vspaceMemory s pd) a⟩) :
    RecordsWord s pd a t ↔ (s.inferiors pd).softwareBreakpoints i ≠
    ⟨a, load (vspaceMemory s pd) a⟩ := by
  have here : (t.inferiors pd).softwareBreakpoints i = ⟨a, load (vspaceMemory s pd) a⟩ := by
    rw [table, setSwBreak_at, if_pos rfl]
  have others {j : Fin maxSwBreaks} (other : j ≠ i) :
      (t.inferiors pd).softwareBreakpoints j = (s.inferiors pd).softwareBreakpoints j := by
    rw [table, setSwBreak_at, if_neg other]
  constructor
  · rintro ⟨j, _, _, changed⟩ same
    have moved : (t.inferiors pd).softwareBreakpoints j ≠ (s.inferiors pd).softwareBreakpoints j :=
      (changed j).mpr rfl
    by_cases at_i : j = i
    · subst at_i
      exact moved (here.trans same.symm)
    · exact moved (others at_i)
  · intro fresh
    have unused : ((s.inferiors pd).softwareBreakpoints i).addr = 0 := by
      simpa using (firstSlot_some free).1
    refine ⟨i, unused, here, fun j => ⟨fun moved => ?_, ?_⟩⟩
    · by_contra other
      exact moved (others other)
    · rintro rfl
      rw [here]
      exact fresh.symm

theorem removalRestores_iff {s t : State} {pd : Fin maxPds} {a : Word}
    (canWrite : writable (s.inferiors pd).vspace a = true) {i : Fin maxSwBreaks}
    (free : swSlot s pd 0 = some i)
    (table : t.inferiors pd = (s.inferiors pd).setSwBreak i ⟨a, load (vspaceMemory s pd) a⟩) :
    RemovalRestores s pd a t ↔ savedWord s pd a = load (vspaceMemory s pd) a := by
  obtain ⟨j, slot, saved⟩ := slot_after_set free table
  have canWrite' : writable (t.inferiors pd).vspace a = true := by
    rw [table]
    exact canWrite
  have removal (k : Kernel) : ∃ u, (unsetSoftwareBreakpoint pd a).run (t.withKernel k) =
      .ok true u ∧
      load (vspaceMemory u pd) a = savedWord s pd a := by
    rw [← saved]
    exact unsetSoftwareBreakpoint_granted access (s := t.withKernel k) canWrite' slot
  constructor
  · intro restores
    obtain ⟨u, run, original⟩ := restores t.kernel
    obtain ⟨v, run', word⟩ := removal t.kernel
    cases run.symm.trans run'
    exact word.symm.trans original
  · intro same k
    obtain ⟨u, run, word⟩ := removal k
    exact ⟨u, run, word.trans same⟩

theorem recordable_of_atomic {s : State} {pd : Fin maxPds} {a : Word}
    (atomic : BreakpointAtomic s pd a) (canRead : readable (s.inferiors pd).vspace a = true)
    (canWrite : writable (s.inferiors pd).vspace a = true) : Recordable s pd a := by
  intro i free
  obtain ⟨t, run, table⟩ := setSoftwareBreakpoint_done access canRead canWrite free
  obtain ⟨done, t', run', _, recorded⟩ := atomic.set
  cases run.symm.trans run'
  exact (recorded rfl).imp (recordsWord_iff free table).mp
    (removalRestores_iff access canWrite free table).mp

/-- Whatever cannot be read or written, the calls are atomic exactly when a set that goes through
    finds no earlier slot in use for its address with another word. -/
theorem breakpoint_atomic_iff (s : State) (pd : Fin maxPds) (a : Word) :
    BreakpointAtomic s pd a ↔ (readable (s.inferiors pd).vspace a = true →
      writable (s.inferiors pd).vspace a = true →
      Recordable s pd a) := by
  have unset := unsetSoftwareBreakpoint_outcome access s pd a
  by_cases through : readable (s.inferiors pd).vspace a = true ∧
    writable (s.inferiors pd).vspace a = true ∧
      ∃ i, swSlot s pd 0 = some i
  · obtain ⟨canRead, canWrite, i, free⟩ := through
    refine ⟨recordable_of_atomic access, fun recordable => ?_⟩
    obtain ⟨t, run, table⟩ := setSoftwareBreakpoint_done access canRead canWrite free
    have held := (recordable canRead canWrite i free).imp (recordsWord_iff free table).mpr
      (removalRestores_iff access canWrite free table).mpr
    exact ⟨⟨true, t, run, nofun, fun _ => held⟩, unset⟩
  · have short : readable (s.inferiors pd).vspace a = true →
        writable (s.inferiors pd).vspace a = true →
        swSlot s pd 0 = none := fun canRead canWrite =>
      Option.eq_none_iff_forall_ne_some.mpr fun i free => through ⟨canRead, canWrite, i, free⟩
    obtain ⟨t, run, kept⟩ := setSoftwareBreakpoint_kept access short
    refine iff_of_true ⟨⟨false, t, run, fun _ => kept, nofun⟩, unset⟩ fun canRead
      canWrite i free => ?_
    rw [short canRead canWrite] at free
    cases free

end

/- On the obliging board. -/

omit [Machine] in
theorem obliging_access : letI := obligingBoard
    FixedAccess (fun _ _ => true) fun _ _ => true := by
  let _ := obligingBoard
  exact ⟨fun _ _ _ => rfl, fun _ _ _ _ => rfl⟩

omit [Machine] in
theorem first_breakpoint_atomic : letI := obligingBoard
    BreakpointAtomic soloState 0 0x1000 := by
  let _ := obligingBoard
  refine (breakpoint_atomic_iff obliging_access soloState 0 0x1000).mpr fun _ _ i free => ?_
  have first : swSlot soloState 0 0 = some 0 := by decide +kernel
  cases first.symm.trans free
  exact ⟨by decide +kernel, by decide +kernel⟩

def brokenState : @State obligingBoard :=
  let _ := obligingBoard
  after (setSoftwareBreakpoint 0 0x1000) soloState

omit [Machine] in
/-- Set again, it is recorded a second time, and the removal puts back the word before the first. -/
theorem second_breakpoint_not_atomic : letI := obligingBoard
    ¬ ∀ readable writable, FixedAccess readable writable → ∀ s pd a, BreakpointAtomic s pd a := by
  let _ := obligingBoard
  intro all
  have atomic := all _ _ obliging_access brokenState 0 0x1000
  have free : swSlot brokenState 0 0 = some 1 := by decide +kernel
  have saved : savedWord brokenState 0 0x1000 ≠ load (vspaceMemory brokenState 0) 0x1000 := by
    decide +kernel
  exact saved (recordable_of_atomic obliging_access atomic rfl rfl 1 free).2

end Libgdb
