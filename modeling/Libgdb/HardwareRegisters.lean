import Libgdb.Library.KeyedUpdates
import Libgdb.Library.RefusedCalls
import Libgdb.Registrations

/-!
Hardware breakpoints and watchpoints: what the loops over an inferior's threads do to their debug
registers, and, when the kernel calls succeed, what setting and removing one does to the table of
its inferior and to these registers.
-/
namespace Libgdb
open ByteMemory SlotTables CheckedPrograms KeyedUpdates RefusedCalls
variable [Machine]

structure DebugCallsSucceed : Prop where
  set : ∀ calls tcb bpNum setting, Machine.fails calls (.tcbSetBreakpoint tcb bpNum setting) = false
  unset : ∀ calls tcb bpNum, Machine.fails calls (.tcbUnsetBreakpoint tcb bpNum) = false

omit [Machine] in
def Tcb.setDebug (t : Tcb) (bpNum : Nat) (setting : Option DebugSetting) : Tcb :=
  { t with debug := Function.update t.debug bpNum setting }

def Inferior.tcbs (i : Inferior) (slots : List (Fin maxThreads)) : List Word :=
  (slots.filter fun j => (i.threads j).enabled).map fun j => (i.threads j).tcb

/-- Register `bpNum` of the TCBs holds the setting, and nothing else of the kernel's objects
    differs. -/
structure Rewired (k : Kernel) (tcbs : List Word) (bpNum : Nat) (setting : Option DebugSetting)
    (k' : Kernel) : Prop where
  memory : k'.memory = k.memory
  tcb : k'.tcb = touchAll (fun t => t.setDebug bpNum setting) tcbs k.tcb

omit [Machine] in
theorem Rewired.apply {k k' : Kernel} {tcbs : List Word} {bpNum : Nat}
    {setting : Option DebugSetting} (rewired : Rewired k tcbs bpNum setting k') (x : Word) :
    k'.tcb x = if x ∈ tcbs then (k.tcb x).setDebug bpNum setting else k.tcb x := by
  rw [rewired.tcb]
  exact touchAll_apply (fun t => by simp [Tcb.setDebug]) tcbs k.tcb x

omit [Machine] in
theorem Rewired.debug {k k' : Kernel} {tcbs : List Word} {bpNum : Nat}
    {setting : Option DebugSetting}
    (rewired : Rewired k tcbs bpNum setting k') (x : Word) (m : Nat) :
    (k'.tcb x).debug m = if x ∈ tcbs ∧ m = bpNum then setting else (k.tcb x).debug m := by
  rw [rewired.apply]
  by_cases used : x ∈ tcbs
  · by_cases here : m = bpNum
    · subst here
      simp [used, Tcb.setDebug]
    · simp [used, here, Tcb.setDebug]
  · simp [used]

omit [Machine] in
theorem Rewired.cons {k₀ k k' : Kernel} {tcb : Word} {tcbs : List Word} {bpNum : Nat}
    {setting : Option DebugSetting} (first : Rewired k₀ [tcb] bpNum setting k)
    (rest : Rewired k tcbs bpNum setting k') : Rewired k₀ (tcb :: tcbs) bpNum setting k' :=
  ⟨rest.memory.trans first.memory, by rw [rest.tcb, first.tcb]; rfl⟩

/- The loops over the threads, which stop at the first refusal when they set and go on when they
   unset. -/

def armCall (bpNum : Nat) (setting : DebugSetting) (tcb : Word) : KernelCall :=
  .tcbSetBreakpoint tcb bpNum setting

def disarmCall (bpNum : Nat) (tcb : Word) : KernelCall := .tcbUnsetBreakpoint tcb bpNum

theorem record_accepted {k : Kernel} {tcb : Word} {bpNum : Nat} {setting : DebugSetting}
    (accepts : Machine.fails k.calls (.tcbSetBreakpoint tcb bpNum setting) = false) :
    Rewired k [tcb] bpNum (some setting) (k.record (.tcbSetBreakpoint tcb bpNum setting)) := by
  rw [record_of_ok accepts]
  exact ⟨rfl, rfl⟩

theorem record_cleared {k : Kernel} {tcb : Word} {bpNum : Nat}
    (accepts : Machine.fails k.calls (.tcbUnsetBreakpoint tcb bpNum) = false) :
    Rewired k [tcb] bpNum none (k.record (.tcbUnsetBreakpoint tcb bpNum)) := by
  rw [record_of_ok accepts]
  exact ⟨rfl, rfl⟩

theorem armThreads_cases {bpNum : Nat} {setting : DebugSetting} (pd : Fin maxPds)
    (js : List (Fin maxThreads)) (s : State) :
    (Accepted Machine.fails (armCall bpNum setting) s.kernel.calls ((s.inferiors pd).tcbs js) ∧
      ∃ k, (armThreads pd bpNum setting js).run s = .ok true (s.withKernel k) ∧
        Rewired s.kernel ((s.inferiors pd).tcbs js) bpNum (some setting) k) ∨
    ∃ armed refused k, StoppedAfter Machine.fails (armCall bpNum setting) s.kernel.calls
        ((s.inferiors pd).tcbs js) armed refused ∧
      (armThreads pd bpNum setting js).run s = .ok false (s.withKernel k) ∧
      Rewired s.kernel armed bpNum (some setting) k := by
  induction js generalizing s with
  | nil => exact Or.inl ⟨trivial, s.kernel, rfl, rfl, rfl⟩
  | cons j js ih =>
    rw [armThreads, run_bind_ok (EStateM.run_get s)]
    dsimp only
    by_cases enabled : ((s.inferiors pd).threads j).enabled = true
    · rw [if_pos enabled, tcbSetBreakpoint, run_bind_ok (invoke_run _ s), Inferior.tcbs,
        List.filter_cons_of_pos (by exact enabled), List.map_cons]
      cases call : Machine.fails s.kernel.calls
          (.tcbSetBreakpoint ((s.inferiors pd).threads j).tcb bpNum setting) with
      | true =>
        refine Or.inr ⟨[], _, _, stoppedAfter_first _ call, rfl, ?_⟩
        rw [record_of_fail call]
        exact ⟨rfl, rfl⟩
      | false =>
        have first := record_accepted call
        rcases ih (s.withKernel
          (s.kernel.record (.tcbSetBreakpoint ((s.inferiors pd).threads j).tcb bpNum setting))) with
          ⟨accepted, k, run, rest⟩ | ⟨armed, refused, k, stopped, run, rest⟩
        · exact Or.inl ⟨⟨call, accepted⟩, k, run, first.cons rest⟩
        · exact Or.inr ⟨_, refused, k, stoppedAfter_later call stopped, run, first.cons rest⟩
    · rw [if_neg enabled, Inferior.tcbs, List.filter_cons_of_neg (by exact enabled)]
      exact ih s

theorem disarmThreads_outcome (pd : Fin maxPds) (bpNum : Nat)
    (js : List (Fin maxThreads)) (s : State) :
    ∃ k, (disarmThreads pd bpNum js).run s = .ok () (s.withKernel k) ∧
      Rewired s.kernel (unrefused Machine.fails (disarmCall bpNum) s.kernel.calls
        ((s.inferiors pd).tcbs js))
        bpNum none k := by
  induction js generalizing s with
  | nil => exact ⟨s.kernel, rfl, rfl, rfl⟩
  | cons j js ih =>
    rw [disarmThreads, run_bind_ok (EStateM.run_get s)]
    dsimp only
    by_cases enabled : ((s.inferiors pd).threads j).enabled = true
    · obtain ⟨k, run, rest⟩ := ih (s.withKernel
        (s.kernel.record (.tcbUnsetBreakpoint ((s.inferiors pd).threads j).tcb bpNum)))
      refine ⟨k, ?_, ?_⟩
      · rw [if_pos enabled, tcbUnsetBreakpoint, run_bind_ok (invoke_run _ s)]
        exact run
      · rw [Inferior.tcbs, List.filter_cons_of_pos (by exact enabled), List.map_cons, unrefused]
        cases call : Machine.fails s.kernel.calls
          (.tcbUnsetBreakpoint ((s.inferiors pd).threads j).tcb bpNum) with
        | false =>
          rw [if_neg (by rw [disarmCall, call]; decide)]
          exact (record_cleared call).cons rest
        | true =>
          rw [if_pos (by rw [disarmCall, call])]
          have kept : s.kernel.record (.tcbUnsetBreakpoint ((s.inferiors pd).threads j).tcb bpNum) =
              { s.kernel with calls := .tcbUnsetBreakpoint ((s.inferiors pd).threads j).tcb bpNum :: s.kernel.calls } :=
            record_of_fail call
          exact ⟨rest.memory.trans (by rw [withKernel_kernel, kept]),
            rest.tcb.trans (by rw [withKernel_kernel, kept]; rfl)⟩
    · obtain ⟨k, run, rest⟩ := ih s
      refine ⟨k, ?_, ?_⟩
      · rw [if_neg enabled]
        exact run
      · rw [Inferior.tcbs, List.filter_cons_of_neg (by exact enabled)]
        exact rest

theorem armThreads_run (ok : DebugCallsSucceed) (pd : Fin maxPds) (bpNum : Nat)
    (setting : DebugSetting) (js : List (Fin maxThreads)) (s : State) :
    ∃ k, (armThreads pd bpNum setting js).run s = .ok true (s.withKernel k) ∧
      Rewired s.kernel ((s.inferiors pd).tcbs js) bpNum (some setting) k := by
  rcases @armThreads_cases _ bpNum setting pd js s with ⟨_, done⟩ | ⟨armed, refused, _, stopped, _⟩
  · exact done
  · have fails := stopped.refused
    rw [armCall, ok.set] at fails
    cases fails

theorem disarmThreads_run (ok : DebugCallsSucceed) (pd : Fin maxPds) (bpNum : Nat)
    (js : List (Fin maxThreads)) (s : State) :
    ∃ k, (disarmThreads pd bpNum js).run s = .ok () (s.withKernel k) ∧
      Rewired s.kernel ((s.inferiors pd).tcbs js) bpNum none k := by
  have never : ∀ record, ∀ tcb ∈ (s.inferiors pd).tcbs js,
      Machine.fails record (disarmCall bpNum tcb) = false :=
    fun record tcb _ => ok.unset record tcb bpNum
  have outcome := disarmThreads_outcome pd bpNum js s
  rwa [unrefused_of_accepted (accepted_of_never never _)] at outcome

/- The operations. -/

abbrev Inferior.allTcbs (i : Inferior) : List Word := i.tcbs (List.finRange maxThreads)

theorem mem_allTcbs {i : Inferior} {x : Word} :
    x ∈ i.allTcbs ↔ ∃ slot, (i.threads slot).enabled = true ∧ (i.threads slot).tcb = x := by
  simp [Inferior.tcbs]

theorem setHardwareBreakpoint_run (ok : DebugCallsSucceed) (pd : Fin maxPds) (address : Word)
    (s : State) :
    match firstSlot (fun i => ((s.inferiors pd).hardwareBreakpoints i).addr == 0) with
    | none => (setHardwareBreakpoint pd address).run s = .ok false s
    | some i => ∃ k, (setHardwareBreakpoint pd address).run s =
          .ok true ((s.withKernel k).setInferior pd ((s.inferiors pd).setHwBreak i ⟨address⟩)) ∧
        Rewired s.kernel (s.inferiors pd).allTcbs (firstBreakpoint + i)
          (some (HwBreak.mk address).setting) k := by
  unfold setHardwareBreakpoint
  rw [run_bind_ok (EStateM.run_get s)]
  cases firstSlot (fun i => ((s.inferiors pd).hardwareBreakpoints i).addr == 0) with
  | none => rfl
  | some i =>
    obtain ⟨k, run, rewired⟩ := armThreads_run ok pd (firstBreakpoint + i)
      (HwBreak.mk address).setting (List.finRange maxThreads) s
    exact ⟨k, run_bind_ok run _, rewired⟩

theorem unsetHardwareBreakpoint_run (ok : DebugCallsSucceed) (pd : Fin maxPds) (address : Word)
    (s : State) :
    match firstSlot (fun i => ((s.inferiors pd).hardwareBreakpoints i).addr == address) with
    | none => (unsetHardwareBreakpoint pd address).run s = .ok false s
    | some i => ∃ k, (unsetHardwareBreakpoint pd address).run s =
          .ok true ((s.withKernel k).setInferior pd ((s.inferiors pd).setHwBreak i ⟨0⟩)) ∧
        Rewired s.kernel (s.inferiors pd).allTcbs (firstBreakpoint + i) none k := by
  unfold unsetHardwareBreakpoint
  rw [run_bind_ok (EStateM.run_get s)]
  cases firstSlot (fun i => ((s.inferiors pd).hardwareBreakpoints i).addr == address) with
  | none => rfl
  | some i =>
    obtain ⟨k, run, rewired⟩ := disarmThreads_run ok pd (firstBreakpoint + i)
      (List.finRange maxThreads) (s.setInferior pd ((s.inferiors pd).setHwBreak i ⟨0⟩))
    rw [setInferior_inferiors, Function.update_self] at rewired
    exact ⟨k, run_bind_ok run _, rewired⟩

theorem setHardwareWatchpoint_run (ok : DebugCallsSucceed) (pd : Fin maxPds) (wp : HwWatch)
    (s : State) :
    match firstSlot (fun i => ((s.inferiors pd).hardwareWatchpoints i).addr == 0) with
    | none => (setHardwareWatchpoint pd wp.addr wp.type wp.size).run s = .ok false s
    | some i => ∃ k, (setHardwareWatchpoint pd wp.addr wp.type wp.size).run s =
          .ok true ((s.withKernel k).setInferior pd ((s.inferiors pd).setHwWatch i wp)) ∧
        Rewired s.kernel (s.inferiors pd).allTcbs (firstWatchpoint + i) (some wp.setting) k := by
  unfold setHardwareWatchpoint
  rw [run_bind_ok (EStateM.run_get s)]
  cases firstSlot (fun i => ((s.inferiors pd).hardwareWatchpoints i).addr == 0) with
  | none => rfl
  | some i =>
    obtain ⟨k, run, rewired⟩ := armThreads_run ok pd (firstWatchpoint + i) wp.setting
      (List.finRange maxThreads) s
    exact ⟨k, run_bind_ok run _, rewired⟩

theorem unsetHardwareWatchpoint_run (ok : DebugCallsSucceed) (pd : Fin maxPds) (wp : HwWatch)
    (s : State) :
    match firstSlot (fun i => (s.inferiors pd).hardwareWatchpoints i == wp) with
    | none => (unsetHardwareWatchpoint pd wp.addr wp.type wp.size).run s = .ok false s
    | some i => ∃ k, (unsetHardwareWatchpoint pd wp.addr wp.type wp.size).run s =
          .ok true ((s.withKernel k).setInferior pd
            ((s.inferiors pd).setHwWatch i { wp with addr := 0 })) ∧
        Rewired s.kernel (s.inferiors pd).allTcbs (firstWatchpoint + i) none k := by
  unfold unsetHardwareWatchpoint
  rw [run_bind_ok (EStateM.run_get s)]
  cases firstSlot (fun i => (s.inferiors pd).hardwareWatchpoints i == wp) with
  | none => rfl
  | some i =>
    obtain ⟨k, run, rewired⟩ := disarmThreads_run ok pd (firstWatchpoint + i)
      (List.finRange maxThreads)
        (s.setInferior pd ((s.inferiors pd).setHwWatch i { wp with addr := 0 }))
    rw [setInferior_inferiors, Function.update_self] at rewired
    exact ⟨k, run_bind_ok run _, rewired⟩

/- Breakpoint and watchpoint registers under one name. -/

abbrev DebugRegister := Fin numExclusiveBreakpoints ⊕ Fin numExclusiveWatchpoints

def DebugRegister.num : DebugRegister → Nat
  | .inl n => firstBreakpoint + n
  | .inr n => firstWatchpoint + n

theorem DebugRegister.num_inj {r r' : DebugRegister} (same : r.num = r'.num) : r = r' := by
  have apart := Machine.apart
  cases r with
  | inl n =>
    cases r' with
    | inl n' => exact congrArg Sum.inl (Fin.ext (Nat.add_left_cancel same))
    | inr n' =>
      simp only [DebugRegister.num] at same
      omega
  | inr n =>
    cases r' with
    | inl n' =>
      simp only [DebugRegister.num] at same
      omega
    | inr n' => exact congrArg Sum.inr (Fin.ext (Nat.add_left_cancel same))

/-- What a table entry asks of its register: an entry whose address is zero is free. -/
def HwBreak.armed (bp : HwBreak) : Option DebugSetting :=
  if bp.addr = 0 then none else some bp.setting
def HwWatch.armed (wp : HwWatch) : Option DebugSetting :=
  if wp.addr = 0 then none else some wp.setting

def Inferior.wants (i : Inferior) : DebugRegister → Option DebugSetting
  | .inl n => (i.hardwareBreakpoints n).armed
  | .inr n => (i.hardwareWatchpoints n).armed

theorem wants_setHwBreak (i : Inferior) (n : Fin numExclusiveBreakpoints) (bp : HwBreak)
    (r : DebugRegister) :
    (i.setHwBreak n bp).wants r = if r = .inl n then bp.armed else i.wants r := by
  cases r with
  | inl m =>
    by_cases here : m = n
    · subst here
      simp [Inferior.wants, Inferior.setHwBreak]
    · simp [Inferior.wants, Inferior.setHwBreak, here]
  | inr m => simp [Inferior.wants, Inferior.setHwBreak]

theorem wants_setHwWatch (i : Inferior) (n : Fin numExclusiveWatchpoints) (wp : HwWatch)
    (r : DebugRegister) :
    (i.setHwWatch n wp).wants r = if r = .inr n then wp.armed else i.wants r := by
  cases r with
  | inl m => simp [Inferior.wants, Inferior.setHwWatch]
  | inr m =>
    by_cases here : m = n
    · subst here
      simp [Inferior.wants, Inferior.setHwWatch]
    · simp [Inferior.wants, Inferior.setHwWatch, here]

/- The registers of a new thread. -/

def Tcb.arm (wants : DebugRegister → Option DebugSetting) (t : Tcb) (r : DebugRegister) : Tcb :=
  match wants r with
  | none => t
  | some setting => t.setDebug r.num (some setting)

def Tcb.armAll (wants : DebugRegister → Option DebugSetting) (rs : List DebugRegister) (t : Tcb) :
    Tcb :=
  rs.foldl (Tcb.arm wants) t

theorem armAll_debug (wants : DebugRegister → Option DebugSetting)
    (rs : List DebugRegister) (t : Tcb) (r : DebugRegister) :
    (r ∈ rs → (t.armAll wants rs).debug r.num = (wants r).or (t.debug r.num)) ∧
    (r ∉ rs → (t.armAll wants rs).debug r.num = t.debug r.num) := by
  induction rs generalizing t with
  | nil => simp [Tcb.armAll]
  | cons q rs ih =>
    rw [show t.armAll wants (q :: rs) = (t.arm wants q).armAll wants rs from rfl]
    obtain ⟨armed, kept⟩ := ih (t.arm wants q)
    have first : (t.arm wants r).debug r.num = (wants r).or (t.debug r.num) := by
      unfold Tcb.arm
      cases wants r with
      | none => rfl
      | some setting => simp [Tcb.setDebug]
    have other (ne : r ≠ q) : (t.arm wants q).debug r.num = t.debug r.num := by
      unfold Tcb.arm
      cases wants q with
      | none => rfl
      | some setting => exact Function.update_of_ne (fun same =>
        ne (DebugRegister.num_inj same)) _ _
    constructor
    · intro mem
      by_cases here : r = q
      · subst here
        by_cases later : r ∈ rs
        · rw [armed later, first]
          cases wants r <;> rfl
        · rw [kept later, first]
      · rw [armed ((List.mem_cons.mp mem).resolve_left here), other here]
    · intro absent
      rw [List.mem_cons, not_or] at absent
      rw [kept absent.2, other absent.1]

def debugRegisters : List DebugRegister :=
  (List.finRange numExclusiveBreakpoints).map .inl ++
    (List.finRange numExclusiveWatchpoints).map .inr

theorem mem_debugRegisters (r : DebugRegister) : r ∈ debugRegisters := by
  cases r <;> simp [debugRegisters]

theorem armLoop_run {α : Type} {f : α → Stub Unit} {s : State} {x : Word}
    {wants : DebugRegister → Option DebugSetting} (register : α → DebugRegister)
    (round : ∀ a k, ∃ k' : Kernel, (f a).run (s.withKernel k) = .ok () (s.withKernel k') ∧
      k'.memory = k.memory ∧ k'.tcb = touch (fun t => t.arm wants (register a)) k.tcb x)
    (as : List α) (k : Kernel) :
    ∃ k' : Kernel, (as.forM f).run (s.withKernel k) = .ok () (s.withKernel k') ∧
      k'.memory = k.memory ∧ k'.tcb =
        touch (fun t => t.armAll wants (as.map register)) k.tcb x := by
  induction as generalizing k with
  | nil => exact ⟨k, rfl, rfl, (Function.update_eq_self x k.tcb).symm⟩
  | cons a as ih =>
    obtain ⟨k₁, first, memory₁, tcb₁⟩ := round a k
    obtain ⟨k₂, rest, memory₂, tcb₂⟩ := ih k₁
    refine ⟨k₂, (run_bind_ok first _).trans rest, memory₂.trans memory₁, ?_⟩
    rw [tcb₂, tcb₁]
    simp only [touch, Function.update_self, Function.update_idem]
    rfl

theorem armBreak_round (ok : DebugCallsSucceed) {s : State} {t : ThreadRef} {pd : Fin maxPds}
    (owner : (s.thread t).inferior = some pd) (n : Fin numExclusiveBreakpoints) (k : Kernel) :
    ∃ k' : Kernel, (do let _ ← threadEnableNthHwBreakpoint t n : Stub Unit).run (s.withKernel k) =
        .ok () (s.withKernel k') ∧ k'.memory = k.memory ∧
      k'.tcb = touch (fun u => u.arm (s.inferiors pd).wants (.inl n)) k.tcb (s.thread t).tcb := by
  unfold threadEnableNthHwBreakpoint
  rw [bind_assoc, run_bind_ok (EStateM.run_get _), bind_assoc, withKernel_thread,
    run_bind_ok (deref_run owner _)]
  dsimp only [withKernel_inferiors]
  by_cases zero : ((s.inferiors pd).hardwareBreakpoints n).addr = 0
  · rw [if_pos zero]
    have asked : (s.inferiors pd).wants (.inl n) = none := if_pos zero
    refine ⟨k, rfl, rfl, ?_⟩
    simp only [Tcb.arm, asked, touch, Function.update_eq_self]
  · rw [if_neg zero]
    have asked : (s.inferiors pd).wants (.inl n) =
      some ((s.inferiors pd).hardwareBreakpoints n).setting := if_neg zero
    have set := @record_accepted _ k (s.thread t).tcb (firstBreakpoint + n)
      ((s.inferiors pd).hardwareBreakpoints n).setting (ok.set _ _ _ _)
    refine ⟨_, rfl, set.memory, ?_⟩
    simp only [Tcb.arm, asked]
    exact set.tcb

theorem armWatch_round (ok : DebugCallsSucceed) {s : State} {t : ThreadRef} {pd : Fin maxPds}
    (owner : (s.thread t).inferior = some pd) (n : Fin numExclusiveWatchpoints) (k : Kernel) :
    ∃ k' : Kernel, (do let _ ← threadEnableNthHwWatchpoint t n : Stub Unit).run (s.withKernel k) =
        .ok () (s.withKernel k') ∧ k'.memory = k.memory ∧
      k'.tcb = touch (fun u => u.arm (s.inferiors pd).wants (.inr n)) k.tcb (s.thread t).tcb := by
  unfold threadEnableNthHwWatchpoint
  rw [bind_assoc, run_bind_ok (EStateM.run_get _), bind_assoc, withKernel_thread,
    run_bind_ok (deref_run owner _)]
  dsimp only [withKernel_inferiors]
  by_cases zero : ((s.inferiors pd).hardwareWatchpoints n).addr = 0
  · rw [if_pos zero]
    have asked : (s.inferiors pd).wants (.inr n) = none := if_pos zero
    refine ⟨k, rfl, rfl, ?_⟩
    simp only [Tcb.arm, asked, touch, Function.update_eq_self]
  · rw [if_neg zero]
    have asked : (s.inferiors pd).wants (.inr n) =
      some ((s.inferiors pd).hardwareWatchpoints n).setting := if_neg zero
    have set := @record_accepted _ k (s.thread t).tcb (firstWatchpoint + n)
      ((s.inferiors pd).hardwareWatchpoints n).setting (ok.set _ _ _ _)
    refine ⟨_, rfl, set.memory, ?_⟩
    simp only [Tcb.arm, asked]
    exact set.tcb

theorem introduceThread_arms (ok : DebugCallsSucceed) {s : State} {t : ThreadRef} {pd : Fin maxPds}
    (owner : (s.thread t).inferior = some pd) :
    ∃ k : Kernel, (introduceThread t).run s = (do
        announceThread t
        return DebuggerError.noError).run (s.withKernel k) ∧ k.memory = s.kernel.memory ∧
      k.tcb = touch (fun u => u.armAll (s.inferiors pd).wants debugRegisters) s.kernel.tcb
        (s.thread t).tcb := by
  obtain ⟨k₁, run₁, memory₁, tcb₁⟩ := armLoop_run .inl (armBreak_round ok owner)
    (List.finRange numExclusiveBreakpoints) s.kernel
  obtain ⟨k₂, run₂, memory₂, tcb₂⟩ := armLoop_run .inr (armWatch_round ok owner)
    (List.finRange numExclusiveWatchpoints) k₁
  refine ⟨k₂, ?_, memory₂.trans memory₁, ?_⟩
  · unfold introduceThread
    rw [show s.withKernel s.kernel = s from rfl] at run₁
    rw [run_bind_ok run₁, run_bind_ok run₂]
  · rw [tcb₂, tcb₁]
    simp only [touch, Function.update_self, Function.update_idem, Tcb.armAll, debugRegisters,
      List.foldl_append]

end Libgdb
