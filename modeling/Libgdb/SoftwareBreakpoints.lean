import Libgdb.Library.GuardedRuns
import Libgdb.Library.CheckedPrograms
import Libgdb.Library.Patches
import Libgdb.Model.ArchGdb

/-!
Software breakpoints as an overlay: which runs of sets and unsets leave the inferior's memory
equal to the original with the BRK instruction laid over exactly the addresses that are set.
A table entry records eight bytes for a four-byte instruction, so an entry can be stale.
-/
namespace Libgdb
open ByteMemory SlotTables Patches GuardedRuns CheckedPrograms
variable [Machine]

def brkByte (k : Nat) : Byte := byteOf (aarch64BreakKgdbDynDbg.setWidth 64) k

inductive SwCall where
  | set (address : Word)
  | unset (address : Word)

def SwCall.address : SwCall → Word
  | .set address => address
  | .unset address => address

def SwCall.run (pd : Fin maxPds) : SwCall → Stub Bool
  | .set address => setSoftwareBreakpoint pd address
  | .unset address => unsetSoftwareBreakpoint pd address

structure SwSession where
  state : State
  laid : Word → Bool

def SwCall.lays : SwCall → Bool
  | .set _ => true
  | .unset _ => false

def swStep (pd : Fin maxPds) (c : SwSession) (call : SwCall) : SwSession where
  state := after (call.run pd) c.state
  laid :=
    if value (call.run pd) c.state = some true then Function.update c.laid call.address call.lays
    else c.laid

def vspaceMemory (s : State) (pd : Fin maxPds) : Memory := s.kernel.memory (s.inferiors pd).vspace

/-- The inferior's memory is `m` with BRK laid over the addresses set. -/
def Overlaid (pd : Fin maxPds) (m : Memory) (c : SwSession) : Prop :=
  vspaceMemory c.state pd = overlay brkByte m c.laid

def swSlot (s : State) (pd : Fin maxPds) (address : Word) : Option (Fin maxSwBreaks) :=
  firstSlot fun i => ((s.inferiors pd).softwareBreakpoints i).addr == address

/-- An unset is sound when the word saved in the slot it uses is not stale: its lower half is
    the instruction of `m`, its upper half what memory holds there now. Without a slot the
    address must not be set, unless `m` itself has BRK there. -/
def SwSound (pd : Fin maxPds) (m : Memory) (c : SwSession) : SwCall → Prop
  | .set _ => True
  | .unset address =>
      match swSlot c.state pd address with
      | some i =>
        let saved := ((c.state.inferiors pd).softwareBreakpoints i).origWord
        (∀ k < 4, byteOf saved k = m (address + BitVec.ofNat 64 k)) ∧
        ∀ k < 8, 4 ≤ k → byteOf saved k = vspaceMemory c.state pd (address + BitVec.ofNat 64 k)
      | none => c.laid address = true → ∀ k < 4, m (address + BitVec.ofNat 64 k) = brkByte k

theorem setSwBreak_at (i : Inferior) (slot : Fin maxSwBreaks) (entry : SwBreak)
    (j : Fin maxSwBreaks) :
    (i.setSwBreak slot entry).softwareBreakpoints j = if j = slot then entry
    else i.softwareBreakpoints j :=
  Function.update_apply _ _ _ _

theorem setSoftwareBreakpoint_run (ok : MemoryCallsSucceed) (pd : Fin maxPds) (address : Word)
    (s : State) :
    ∃ t, (t.inferiors pd).vspace = (s.inferiors pd).vspace ∧
      match swSlot s pd 0 with
      | some i =>
        (setSoftwareBreakpoint pd address).run s = .ok true t ∧
        vspaceMemory t pd =
          store (vspaceMemory s pd) address (brkWord (load (vspaceMemory s pd) address)) ∧
        t.inferiors pd =
          (s.inferiors pd).setSwBreak i ⟨address, load (vspaceMemory s pd) address⟩
      | none =>
        (setSoftwareBreakpoint pd address).run s = .ok false t ∧
        vspaceMemory t pd = vspaceMemory s pd ∧ t.inferiors = s.inferiors := by
  obtain ⟨k₁, mem₁, tcb₁, run₁⟩ := vspaceReadWord_run ok (s.inferiors pd).vspace address s
  obtain ⟨k₂, mem₂, tcb₂, run₂⟩ := vspaceWriteWord_run ok (s.inferiors pd).vspace address
    (brkWord (load (s.kernel.memory (s.inferiors pd).vspace) address)) (s.withKernel k₁)
  rw [withKernel_kernel, mem₁] at mem₂
  cases slot : swSlot s pd 0 with
  | some i =>
    refine ⟨(s.withKernel k₂).setInferior pd
      ((s.inferiors pd).setSwBreak i ⟨address, load (vspaceMemory s pd) address⟩), ?_, ?_, ?_, ?_⟩
    · simp [Inferior.setSwBreak]
    · unfold setSoftwareBreakpoint
      rw [run_bind_ok (EStateM.run_get s), run_bind_ok run₁]
      dsimp only
      rw [run_bind_ok run₂]
      simp only [Bool.false_eq_true, if_false]
      unfold swSlot at slot
      rw [slot]
      rfl
    · simp [vspaceMemory, Inferior.setSwBreak, mem₂]
    · simp
  | none =>
    obtain ⟨k₃, mem₃, tcb₃, run₃⟩ := vspaceWriteWord_run ok (s.inferiors pd).vspace address
      (load (s.kernel.memory (s.inferiors pd).vspace) address) (s.withKernel k₂)
    rw [withKernel_kernel, mem₂] at mem₃
    refine ⟨s.withKernel k₃, rfl, ?_, ?_, rfl⟩
    · unfold setSoftwareBreakpoint
      rw [run_bind_ok (EStateM.run_get s), run_bind_ok run₁]
      dsimp only
      rw [run_bind_ok run₂]
      simp only [Bool.false_eq_true, if_false]
      unfold swSlot at slot
      rw [slot]
      dsimp only
      rw [withKernel_withKernel, run_bind_ok run₃]
      rfl
    · simp [vspaceMemory, mem₃, store_store, store_load]

theorem unsetSoftwareBreakpoint_run (ok : MemoryCallsSucceed) (pd : Fin maxPds) (address : Word)
    (s : State) :
    ∃ t, (unsetSoftwareBreakpoint pd address).run s = .ok true t ∧
      (t.inferiors pd).vspace = (s.inferiors pd).vspace ∧
      match swSlot s pd address with
      | some i =>
        vspaceMemory t pd = store (vspaceMemory s pd) address
          ((s.inferiors pd).softwareBreakpoints i).origWord ∧
        t.inferiors pd = (s.inferiors pd).setSwBreak i
          { (s.inferiors pd).softwareBreakpoints i with addr := 0 }
      | none => t = s := by
  cases slot : swSlot s pd address with
  | some i =>
    obtain ⟨k, mem, tcb, run⟩ := vspaceWriteWord_run ok (s.inferiors pd).vspace address
      ((s.inferiors pd).softwareBreakpoints i).origWord s
    refine ⟨(s.withKernel k).setInferior pd ((s.inferiors pd).setSwBreak i
      { (s.inferiors pd).softwareBreakpoints i with addr := 0 }), ?_, ?_, ?_, ?_⟩
    · unfold unsetSoftwareBreakpoint
      rw [run_bind_ok (EStateM.run_get s)]
      unfold swSlot at slot
      rw [slot]
      dsimp only
      rw [run_bind_ok run]
      rfl
    · simp [Inferior.setSwBreak]
    · simp [vspaceMemory, Inferior.setSwBreak, mem]
    · simp
  | none =>
    refine ⟨s, ?_, rfl, rfl⟩
    unfold unsetSoftwareBreakpoint
    rw [run_bind_ok (EStateM.run_get s)]
    unfold swSlot at slot
    rw [slot]
    rfl

omit [Machine] in
theorem byteOf_brkWord (value : Word) {k : Nat} (h : k < 8) :
    byteOf (brkWord value) k = if k < 4 then brkByte k else byteOf value k :=
  byteOf_or_mask _ _ h

theorem set_keeps_overlaid (ok : MemoryCallsSucceed) (pd : Fin maxPds) (m : Memory)
    (c : SwSession) (address : Word) (aligned : address.toNat % 4 = 0)
    (before : Overlaid pd m c) : Overlaid pd m (swStep pd c (.set address)) := by
  unfold Overlaid at before
  obtain ⟨t, vspace, result⟩ := setSoftwareBreakpoint_run ok pd address c.state
  cases slot : swSlot c.state pd 0 with
  | some i =>
    rw [slot] at result
    obtain ⟨run, memory, _⟩ := result
    have lays : swStep pd c (.set address) = ⟨t, Function.update c.laid address true⟩ := by
      simp [swStep, SwCall.run, SwCall.address, SwCall.lays, after_ok run, value_ok run]
    rw [lays, Overlaid, memory, before]
    apply store_lays_patch _ _ _ aligned
    · intro k lt
      rw [byteOf_brkWord _ (by omega), if_pos lt]
    · intro k lt le
      rw [byteOf_brkWord _ lt, if_neg (by omega), byteOf_load _ _ lt]
  | none =>
    rw [slot] at result
    obtain ⟨run, memory, _⟩ := result
    have lays : swStep pd c (.set address) = ⟨t, c.laid⟩ := by
      simp [swStep, SwCall.run, after_ok run, value_ok run]
    rw [lays, Overlaid, memory, before]

/-- An unset removes BRK from its address and nothing else exactly when it is sound. -/
theorem unset_overlaid_iff (ok : MemoryCallsSucceed) (pd : Fin maxPds) (m : Memory)
    (c : SwSession) (address : Word) (aligned : address.toNat % 4 = 0)
    (before : Overlaid pd m c) :
    Overlaid pd m (swStep pd c (.unset address)) ↔ SwSound pd m c (.unset address) := by
  unfold Overlaid at before
  obtain ⟨t, run, vspace, result⟩ := unsetSoftwareBreakpoint_run ok pd address c.state
  have lifts : swStep pd c (.unset address) = ⟨t, Function.update c.laid address false⟩ := by
    simp [swStep, SwCall.run, SwCall.address, SwCall.lays, after_ok run, value_ok run]
  rw [lifts, Overlaid]
  simp only [SwSound]
  cases slot : swSlot c.state pd address with
  | some i =>
    rw [slot] at result
    rw [result.1, before]
    exact store_removes_patch_iff _ _ _ aligned
  | none =>
    rw [slot] at result
    subst t
    rw [before]
    exact overlay_drop_iff _ _ _ aligned

theorem sw_step_overlaid_iff (ok : MemoryCallsSucceed) (pd : Fin maxPds) (m : Memory)
    (c : SwSession) (call : SwCall) (aligned : call.address.toNat % 4 = 0)
    (before : Overlaid pd m c) :
    Overlaid pd m (swStep pd c call) ↔ SwSound pd m c call := by
  cases call with
  | set address =>
    exact iff_of_true (set_keeps_overlaid ok pd m c address aligned before) trivial
  | unset address => exact unset_overlaid_iff ok pd m c address aligned before

/-- A run of sets and unsets keeps memory overlaid with exactly the addresses that are set, in
    every state it reaches, if and only if every unset in it is sound. -/
theorem software_breakpoints_overlaid_iff (ok : MemoryCallsSucceed) (pd : Fin maxPds) (s : State)
    (calls : List SwCall) (aligned : ∀ call ∈ calls, call.address.toNat % 4 = 0) :
    Along (swStep pd) (Overlaid pd (vspaceMemory s pd)) calls ⟨s, fun _ => false⟩ ↔
      Guarded (swStep pd) (SwSound pd (vspaceMemory s pd)) calls ⟨s, fun _ => false⟩ := by
  apply along_iff_guarded (fun _ => True) (fun _ call => call.address.toNat % 4 = 0)
  · intro c call _ _
    trivial
  · intro c call _ align before
    exact sw_step_overlaid_iff ok pd _ c call align before
  · trivial
  · exact (overlay_nothing _ _ _ (fun _ => rfl)).symm
  · exact guarded_of_forall calls _ aligned

omit [Machine] in
theorem set_then_unset_overlaid : letI := obligingBoard
    Along (swStep 0) (Overlaid 0 (vspaceMemory blankState 0))
      [.set 0x1000, .unset 0x1000] ⟨blankState, fun _ => false⟩ := by
  let _ := obligingBoard
  refine (software_breakpoints_overlaid_iff ⟨fun _ _ _ => rfl, fun _ _ _ _ => rfl⟩ 0 blankState
    [.set 0x1000, .unset 0x1000] (by decide)).mpr ⟨trivial, ?_, trivial⟩
  refine ⟨?_, ?_⟩
  · decide
  · decide

omit [Machine] in
/-- The word saved for the first of two neighbouring instructions wipes out the second. -/
theorem neighbours_not_overlaid : letI := obligingBoard
    ¬ Along (swStep 0) (Overlaid 0 (vspaceMemory blankState 0))
      [.set 0x1000, .set 0x1004, .unset 0x1000] ⟨blankState, fun _ => false⟩ := by
  intro along
  have third := congrFun along.2.2.1 0x1005
  revert third
  decide

/- A discipline that keeps every unset sound: no address zero, no address set twice, and no
   two neighbouring instructions set at once. -/

def SwSpaced (c : SwSession) : SwCall → Prop
  | .set address => address ≠ 0 ∧ c.laid address = false ∧ c.laid (address + 4) = false ∧
      c.laid (address - 4) = false
  | .unset address => address ≠ 0

/-- Under the discipline a slot in use belongs to one set address and saves the word of `m`. -/
structure SwTidy (pd : Fin maxPds) (m : Memory) (c : SwSession) : Prop where
  overlaid : Overlaid pd m c
  used : ∀ i, ((c.state.inferiors pd).softwareBreakpoints i).addr ≠ 0 →
    c.laid ((c.state.inferiors pd).softwareBreakpoints i).addr = true ∧
    ((c.state.inferiors pd).softwareBreakpoints i).origWord =
      load m ((c.state.inferiors pd).softwareBreakpoints i).addr
  alone : ∀ i j, ((c.state.inferiors pd).softwareBreakpoints i).addr ≠ 0 →
    ((c.state.inferiors pd).softwareBreakpoints i).addr =
      ((c.state.inferiors pd).softwareBreakpoints j).addr → i = j
  covered : ∀ a, c.laid a = true → a ≠ 0 ∧
    ∃ i, ((c.state.inferiors pd).softwareBreakpoints i).addr = a
  apart : ∀ a, c.laid a = true → c.laid (a + 4) = false

theorem tidy_sound (pd : Fin maxPds) (m : Memory) (c : SwSession) (call : SwCall)
    (aligned : call.address.toNat % 4 = 0) (tidy : SwTidy pd m c) (spaced : SwSpaced c call) :
    SwSound pd m c call := by
  cases call with
  | set address => trivial
  | unset address =>
    have nonzero : address ≠ 0 := spaced
    have align : address.toNat % 4 = 0 := aligned
    simp only [SwSound]
    cases slot : swSlot c.state pd address with
    | none =>
      intro on
      obtain ⟨_, i, addr⟩ := tidy.covered address on
      have := firstSlot_none slot i
      simp [addr] at this
    | some i =>
      have addr : ((c.state.inferiors pd).softwareBreakpoints i).addr = address := by
        simpa using (firstSlot_some slot).1
      obtain ⟨on, saved⟩ := tidy.used i (by rw [addr]; exact nonzero)
      rw [addr] at on saved
      refine ⟨?_, ?_⟩
      · intro k lt
        rw [saved, byteOf_load _ _ (by omega)]
      · intro k lt le
        have off := tidy.apart address on
        rw [saved, byteOf_load _ _ lt, tidy.overlaid, overlay, base4_upper align lt le, off]
        rfl

theorem set_keeps_tidy (ok : MemoryCallsSucceed) (pd : Fin maxPds) (m : Memory) (c : SwSession)
    (address : Word) (aligned : address.toNat % 4 = 0) (tidy : SwTidy pd m c)
    (spaced : SwSpaced c (.set address)) : SwTidy pd m (swStep pd c (.set address)) := by
  have overlaid := set_keeps_overlaid ok pd m c address aligned tidy.overlaid
  obtain ⟨nonzero, unset, above, below⟩ := spaced
  obtain ⟨t, vspace, result⟩ := setSoftwareBreakpoint_run ok pd address c.state
  cases slot : swSlot c.state pd 0 with
  | none =>
    rw [slot] at result
    obtain ⟨run, _, same⟩ := result
    have lays : swStep pd c (.set address) = ⟨t, c.laid⟩ := by
      simp [swStep, SwCall.run, after_ok run, value_ok run]
    rw [lays] at overlaid ⊢
    exact ⟨overlaid, by simpa [same] using tidy.used, by simpa [same] using tidy.alone,
      by simpa [same] using tidy.covered, tidy.apart⟩
  | some i =>
    rw [slot] at result
    obtain ⟨run, _, table⟩ := result
    have lays : swStep pd c (.set address) = ⟨t, Function.update c.laid address true⟩ := by
      simp [swStep, SwCall.run, SwCall.address, SwCall.lays, after_ok run, value_ok run]
    have free : ((c.state.inferiors pd).softwareBreakpoints i).addr = 0 := by
      simpa using (firstSlot_some slot).1
    have word : load (vspaceMemory c.state pd) address = load m address := by
      rw [tidy.overlaid]
      exact load_overlay_clear _ _ _ aligned unset above
    rw [lays] at overlaid ⊢
    have entry (j : Fin maxSwBreaks) : (t.inferiors pd).softwareBreakpoints j =
        if j = i then ⟨address, load m address⟩
        else (c.state.inferiors pd).softwareBreakpoints j := by
      rw [table, word, setSwBreak_at]
    refine ⟨overlaid, ?_, ?_, ?_, ?_⟩
    · intro j used
      dsimp only at used ⊢
      rw [entry j] at used ⊢
      by_cases h : j = i
      · simp [h]
      · rw [if_neg h] at used ⊢
        obtain ⟨on, saved⟩ := tidy.used j used
        refine ⟨?_, saved⟩
        by_cases same : ((c.state.inferiors pd).softwareBreakpoints j).addr = address
        · rw [same, Function.update_self]
        · rw [Function.update_of_ne same]
          exact on
    · have fresh : ∀ j, ((c.state.inferiors pd).softwareBreakpoints j).addr ≠ address := by
        intro j same
        have := (tidy.used j (by rw [same]; exact nonzero)).1
        rw [same, unset] at this
        contradiction
      intro j k used same
      dsimp only at used same
      rw [entry j] at used same
      rw [entry k] at same
      by_cases hj : j = i
      · by_cases hk : k = i
        · rw [hj, hk]
        · rw [if_pos hj, if_neg hk] at same
          exact absurd same.symm (fresh k)
      · by_cases hk : k = i
        · rw [if_neg hj, if_pos hk] at same
          exact absurd same (fresh j)
        · rw [if_neg hj] at used
          rw [if_neg hj, if_neg hk] at same
          exact tidy.alone j k used same
    · intro a on
      dsimp only at on ⊢
      by_cases here : a = address
      · exact ⟨by rw [here]; exact nonzero, i, by rw [entry i, if_pos rfl, here]⟩
      · rw [Function.update_of_ne here] at on
        obtain ⟨ne, j, addr⟩ := tidy.covered a on
        have other : j ≠ i := by
          rintro rfl
          exact ne (addr.symm.trans free)
        exact ⟨ne, j, by rw [entry j, if_neg other, addr]⟩
    · intro a on
      dsimp only at on ⊢
      have shift : a + 4 ≠ a := by bv_omega
      by_cases here : a = address
      · subst here
        rw [Function.update_of_ne shift]
        exact above
      · rw [Function.update_of_ne here] at on
        have away : a + 4 ≠ address := by
          rintro rfl
          rw [show a + 4 - 4 = a by bv_omega, on] at below
          contradiction
        rw [Function.update_of_ne away]
        exact tidy.apart a on

theorem unset_keeps_tidy (ok : MemoryCallsSucceed) (pd : Fin maxPds) (m : Memory) (c : SwSession)
    (address : Word) (aligned : address.toNat % 4 = 0) (tidy : SwTidy pd m c)
    (spaced : SwSpaced c (.unset address)) : SwTidy pd m (swStep pd c (.unset address)) := by
  have sound := tidy_sound pd m c (.unset address) aligned tidy spaced
  have overlaid := (unset_overlaid_iff ok pd m c address aligned tidy.overlaid).mpr sound
  obtain ⟨t, run, vspace, result⟩ := unsetSoftwareBreakpoint_run ok pd address c.state
  have lifts : swStep pd c (.unset address) = ⟨t, Function.update c.laid address false⟩ := by
    simp [swStep, SwCall.run, SwCall.address, SwCall.lays, after_ok run, value_ok run]
  rw [lifts] at overlaid ⊢
  cases slot : swSlot c.state pd address with
  | none =>
    rw [slot] at result
    subst t
    have off : c.laid address = false := by
      by_contra on
      obtain ⟨_, i, addr⟩ := tidy.covered address (by simpa using on)
      have := firstSlot_none slot i
      simp [addr] at this
    rw [← off, Function.update_eq_self]
    exact tidy
  | some i =>
    rw [slot] at result
    have table := result.2
    have addr : ((c.state.inferiors pd).softwareBreakpoints i).addr = address := by
      simpa using (firstSlot_some slot).1
    have entry (j : Fin maxSwBreaks) : (t.inferiors pd).softwareBreakpoints j =
        if j = i then { (c.state.inferiors pd).softwareBreakpoints i with addr := 0 }
        else (c.state.inferiors pd).softwareBreakpoints j := by
      rw [table, setSwBreak_at]
    refine ⟨overlaid, ?_, ?_, ?_, ?_⟩
    · intro j used
      dsimp only at used ⊢
      rw [entry j] at used ⊢
      by_cases h : j = i
      · simp [h] at used
      · rw [if_neg h] at used ⊢
        have other : ((c.state.inferiors pd).softwareBreakpoints j).addr ≠ address := by
          intro same
          exact h (tidy.alone j i used (same.trans addr.symm))
        rw [Function.update_of_ne other]
        exact tidy.used j used
    · intro j k used same
      dsimp only at used same
      rw [entry j] at used same
      rw [entry k] at same
      by_cases hj : j = i
      · simp [hj] at used
      · rw [if_neg hj] at used
        by_cases hk : k = i
        · rw [if_neg hj, if_pos hk] at same
          exact absurd same used
        · rw [if_neg hj, if_neg hk] at same
          exact tidy.alone j k used same
    · intro a on
      dsimp only at on ⊢
      by_cases here : a = address
      · rw [here, Function.update_self] at on
        contradiction
      · rw [Function.update_of_ne here] at on
        obtain ⟨ne, j, at_j⟩ := tidy.covered a on
        have other : j ≠ i := by
          rintro rfl
          exact here (at_j.symm.trans addr)
        exact ⟨ne, j, by rw [entry j, if_neg other, at_j]⟩
    · intro a on
      dsimp only at on ⊢
      by_cases here : a = address
      · rw [here, Function.update_self] at on
        contradiction
      · rw [Function.update_of_ne here] at on
        by_cases away : a + 4 = address
        · rw [away, Function.update_self]
        · rw [Function.update_of_ne away]
          exact tidy.apart a on

/-- A spaced run on an empty table keeps memory overlaid throughout. -/
theorem spaced_run_overlaid (ok : MemoryCallsSucceed) (pd : Fin maxPds) (s : State)
    (calls : List SwCall) (aligned : ∀ call ∈ calls, call.address.toNat % 4 = 0)
    (empty : (s.inferiors pd).softwareBreakpoints = fun _ => .zero)
    (spaced : Guarded (swStep pd) SwSpaced calls ⟨s, fun _ => false⟩) :
    Along (swStep pd) (Overlaid pd (vspaceMemory s pd)) calls ⟨s, fun _ => false⟩ := by
  have both := guarded_and calls _ spaced (guarded_of_forall calls _ aligned)
  have tidy : SwTidy pd (vspaceMemory s pd) ⟨s, fun _ => false⟩ := by
    refine ⟨(overlay_nothing _ _ _ (fun _ => rfl)).symm, ?_, ?_, ?_, ?_⟩
    · intro i used
      simp [empty, SwBreak.zero] at used
    · intro i j used
      simp [empty, SwBreak.zero] at used
    · intro a on
      simp at on
    · intro a on
      simp at on
  apply along_mono (P := SwTidy pd (vspaceMemory s pd)) (fun c tidy => tidy.overlaid)
  refine invariant_along ?_ _ _ tidy both
  rintro c (address | address) tidy ⟨spaced, align⟩
  · exact set_keeps_tidy ok pd _ c address align tidy spaced
  · exact unset_keeps_tidy ok pd _ c address align tidy spaced

end Libgdb
