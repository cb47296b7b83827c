import Libgdb.HardwareRegisters

/-!
Detaching when the debug registers can be cleared: the tables left behind and the registers cleared,
whether or not the other kernel calls succeed, and what is written where they do. Each round looks a
slot up by its entry, so a free slot leads to the first slot with an equal entry.
-/
namespace Libgdb
open ByteMemory SlotTables CheckedPrograms KeyedUpdates
variable [Machine]

/- Software breakpoints. -/

theorem unsetSoftwareBreakpoint_exact (ok : MemoryCallsSucceed) (pd : Fin maxPds) (address : Word)
    (s : State) :
    match firstSlot (fun i => ((s.inferiors pd).softwareBreakpoints i).addr == address) with
    | none => (unsetSoftwareBreakpoint pd address).run s = .ok true s
    | some i => ∃ k : Kernel, (unsetSoftwareBreakpoint pd address).run s =
          .ok true ((s.withKernel k).setInferior pd ((s.inferiors pd).setSwBreak i
            { (s.inferiors pd).softwareBreakpoints i with addr := 0 })) ∧
        k.tcb = s.kernel.tcb ∧
        k.memory = touch (fun m =>
          store m address ((s.inferiors pd).softwareBreakpoints i).origWord)
          s.kernel.memory (s.inferiors pd).vspace := by
  unfold unsetSoftwareBreakpoint
  rw [run_bind_ok (EStateM.run_get s)]
  cases firstSlot (fun i => ((s.inferiors pd).softwareBreakpoints i).addr == address) with
  | none => rfl
  | some i =>
    obtain ⟨k, memory, tcb, run⟩ := vspaceWriteWord_run ok (s.inferiors pd).vspace address
      ((s.inferiors pd).softwareBreakpoints i).origWord s
    exact ⟨k, run_bind_ok run _, tcb, memory⟩

omit [Machine] in
def SwBreak.clear (entry : SwBreak) : SwBreak := { entry with addr := 0 }

/-- What the round for slot `n` stores: for a free slot the word saved in slot 0, at address 0. -/
def Inferior.restores (i : Inferior) (n : Fin maxSwBreaks) : Word × Word :=
  ((i.softwareBreakpoints n).addr,
    (i.softwareBreakpoints (if (i.softwareBreakpoints n).addr = 0 then 0 else n)).origWord)

omit [Machine] in
theorem swBreak_sweeps :
    Sweepable SwBreak.clear (fun e e' => e.addr == e'.addr) fun e => e.addr = 0 where
  cleared _ := rfl
  kept e free := by rw [SwBreak.clear, ← free]
  alike e e' same := by rw [eq_of_beq same]
  self e := beq_self_eq_true e.addr
  trans e e' e'' first second := by rwa [eq_of_beq first]

omit [Machine] in
theorem swBreak_hit (table : Fin maxSwBreaks → SwBreak) (j : Fin maxSwBreaks) :
    hit SwBreak.clear (fun e e' => e.addr == e'.addr) table j =
      some (if (table j).addr = 0 then 0 else j) := by
  by_cases free : (table j).addr = 0
  · rw [if_pos free]
    have zero : (swept SwBreak.clear table j.val 0).addr = 0 := by
      by_cases first : j = 0
      · subst first
        rw [swept, if_neg (lt_irrefl _), free]
      · have before : (0 : Fin maxSwBreaks).val < j.val :=
          Nat.pos_of_ne_zero fun eq => first (Fin.ext eq)
        rw [swept, if_pos before]
        rfl
    obtain ⟨i, found, le⟩ := firstSlot_exists (i := (0 : Fin maxSwBreaks))
      (p := fun i => (swept SwBreak.clear table j.val i).addr == (table j).addr)
        (by simp [zero, free])
    rw [hit, found, Fin.le_zero_iff.mp le]
  · rw [if_neg free]
    exact hit_used table swBreak_sweeps free

def restoreLoop (pd : Fin maxPds) : Stub Unit :=
  (List.finRange maxSwBreaks).forM fun i => do
    let s ← get
    let _ ← unsetSoftwareBreakpoint pd ((s.inferiors pd).softwareBreakpoints i).addr

def Inferior.withRestored (i : Inferior) (j : Nat) : Inferior :=
  { i with softwareBreakpoints := swept SwBreak.clear i.softwareBreakpoints j }

theorem restore_round (ok : MemoryCallsSucceed) (pd : Fin maxPds) (i : Inferior)
    (j : Fin maxSwBreaks) (s : State) :
    ∃ k : Kernel, (do
        let s ← get
        let _ ← unsetSoftwareBreakpoint pd ((s.inferiors pd).softwareBreakpoints j).addr :
            Stub Unit).run
          (s.setInferior pd (i.withRestored j.val)) =
        .ok () ((s.withKernel k).setInferior pd (i.withRestored (j.val + 1))) ∧
      k.tcb = s.kernel.tcb ∧
      k.memory = touch (fun m => store m (i.restores j).1 (i.restores j).2)
        s.kernel.memory i.vspace := by
  let table := i.softwareBreakpoints
  let u := s.setInferior pd (i.withRestored j.val)
  have inferior : u.inferiors pd = i.withRestored j.val := by simp [u]
  have probe : ((u.inferiors pd).softwareBreakpoints j).addr = (table j).addr := by
    rw [inferior]
    exact congrArg SwBreak.addr (swept_self table j)
  have step := unsetSoftwareBreakpoint_exact ok pd (table j).addr u
  obtain ⟨n, hit_n, next⟩ := swept_step table swBreak_sweeps j
  have chosen := hit_n
  rw [swBreak_hit, Option.some.injEq] at chosen
  have first : firstSlot (fun n =>
      ((u.inferiors pd).softwareBreakpoints n).addr == (table j).addr) = some n := by
    rw [inferior]
    exact hit_n
  rw [first, inferior] at step
  obtain ⟨k, run, tcb, memory⟩ := step
  refine ⟨k, ?_, tcb, ?_⟩
  · rw [run_bind_ok (EStateM.run_get _), show s.setInferior pd (i.withRestored j.val) =
      u from rfl, probe,
      run_bind_ok run]
    refine congrArg (EStateM.Result.ok ()) ?_
    have swapped : (i.withRestored j.val).setSwBreak n
        { (i.withRestored j.val).softwareBreakpoints n with addr := 0 } =
        i.withRestored (j.val + 1) :=
      congrArg (fun table => { i with softwareBreakpoints := table }) next
    rw [swapped]
    simp only [u, State.setInferior, State.withKernel, Function.update_idem]
  · rw [memory]
    have word : ((i.withRestored j.val).softwareBreakpoints n).origWord = (i.restores j).2 := by
      rw [Inferior.restores, chosen]
      have keeps (e : SwBreak) : e.clear.origWord = e.origWord := rfl
      exact swept_keeps table (f := SwBreak.origWord) keeps j.val n
    rw [word]
    rfl

theorem restoreLoop_run (ok : MemoryCallsSucceed) (pd : Fin maxPds) (s : State) :
    ∃ k : Kernel, (restoreLoop pd).run s = .ok () ((s.withKernel k).setInferior pd
        { s.inferiors pd with softwareBreakpoints := fun n => ((s.inferiors pd).softwareBreakpoints n).clear }) ∧
      k.tcb = s.kernel.tcb ∧
      k.memory = touch (storeAll ((List.finRange maxSwBreaks).map (s.inferiors pd).restores))
        s.kernel.memory (s.inferiors pd).vspace := by
  let i := s.inferiors pd
  let P (j : Nat) (u : State) : Prop := ∃ k : Kernel,
    u = (s.withKernel k).setInferior pd (i.withRestored j) ∧ k.tcb = s.kernel.tcb ∧
    k.memory = touch (storeAll (((List.finRange maxSwBreaks).take j).map i.restores))
      s.kernel.memory i.vspace
  have start : P 0 s := by
    refine ⟨s.kernel, ?_, rfl, ?_⟩
    · simp only [Inferior.withRestored, swept_zero]
      exact (congrArg (fun f => { s with inferiors := f })
        (Function.update_eq_self pd s.inferiors)).symm
    · simp [storeAll, touch]
  obtain ⟨u, run, k, rfl, tcb, memory⟩ := forM_counted (P := P) (by
    rintro j _ ⟨k, rfl, tcb, memory⟩
    obtain ⟨k', run, tcb', memory'⟩ := restore_round ok pd i j (s.withKernel k)
    refine ⟨_, run, k', rfl, tcb'.trans tcb, ?_⟩
    rw [memory', withKernel_kernel, memory, take_finRange_succ, List.map_append]
    simp [touch, storeAll]) s start
  refine ⟨k, ?_, tcb, ?_⟩
  · unfold restoreLoop
    rw [run, Inferior.withRestored, swept_all]
  · rw [memory, List.take_of_length_le (by simp)]

theorem unsetSoftwareBreakpoint_kept (pd : Fin maxPds) (address : Word) (s : State) :
    ∃ (b : Bool) (k : Kernel) (table : Fin maxSwBreaks → SwBreak),
    (unsetSoftwareBreakpoint pd address).run s =
        .ok b ((s.withKernel k).setInferior pd
          { s.inferiors pd with softwareBreakpoints := table }) ∧
      k.tcb = s.kernel.tcb := by
  have kept (k : Kernel) : (s.withKernel k).setInferior pd
      { s.inferiors pd with softwareBreakpoints := (s.inferiors pd).softwareBreakpoints } =
        s.withKernel k :=
    congrArg (fun f => { s.withKernel k with inferiors := f })
      (Function.update_eq_self pd s.inferiors)
  unfold unsetSoftwareBreakpoint
  rw [run_bind_ok (EStateM.run_get s)]
  cases firstSlot (fun i => ((s.inferiors pd).softwareBreakpoints i).addr == address) with
  | none => exact ⟨true, s.kernel, _, congrArg (EStateM.Result.ok true) (kept s.kernel).symm, rfl⟩
  | some i =>
    let entry := (s.inferiors pd).softwareBreakpoints i
    let call : KernelCall := .vspaceWriteWord (s.inferiors pd).vspace address entry.origWord
    let k := s.kernel.record call
    have tcb : k.tcb = s.kernel.tcb := by
      simp only [k, call, Kernel.record, KernelCall.effect, Kernel.storeWord]
      split <;> rfl
    have write : (vspaceWriteWord (s.inferiors pd).vspace address entry.origWord).run s =
        .ok (Machine.fails s.kernel.calls call) (s.withKernel k) := rfl
    dsimp only
    rw [run_bind_ok write]
    cases Machine.fails s.kernel.calls call with
    | true => exact ⟨false, k, _, congrArg (EStateM.Result.ok false) (kept k).symm, tcb⟩
    | false => exact ⟨true, k, _, rfl, tcb⟩

theorem restoreLoop_kept (pd : Fin maxPds) (s : State) :
    ∃ (k : Kernel) (table : Fin maxSwBreaks → SwBreak), (restoreLoop pd).run s =
        .ok () ((s.withKernel k).setInferior pd
          { s.inferiors pd with softwareBreakpoints := table }) ∧
      k.tcb = s.kernel.tcb := by
  let P (_ : Nat) (u : State) : Prop := ∃ (k : Kernel) (table : Fin maxSwBreaks → SwBreak),
    u = (s.withKernel k).setInferior pd { s.inferiors pd with softwareBreakpoints := table } ∧
    k.tcb = s.kernel.tcb
  have start : P 0 s := ⟨s.kernel, (s.inferiors pd).softwareBreakpoints,
    (congrArg (fun f => { s with inferiors := f }) (Function.update_eq_self pd s.inferiors)).symm,
      rfl⟩
  have round (j : Fin maxSwBreaks) (u : State) (now : P j.val u) : ∃ v, (do
      let s ← get
      let _ ← unsetSoftwareBreakpoint pd ((s.inferiors pd).softwareBreakpoints j).addr :
          Stub Unit).run u = .ok () v ∧
        P (j.val + 1) v := by
    obtain ⟨k, table, same, tcb⟩ := now
    obtain ⟨b, k', table', run, tcb'⟩ :=
      unsetSoftwareBreakpoint_kept pd ((u.inferiors pd).softwareBreakpoints j).addr u
    refine ⟨_, by rw [run_bind_ok (EStateM.run_get _), run_bind_ok run]; rfl, k', table', ?_, ?_⟩
    · simp only [same, State.setInferior, State.withKernel, Function.update_idem,
        Function.update_self]
    · rw [tcb', same]
      exact tcb
  obtain ⟨u, run, k, table, rfl, tcb⟩ := forM_counted (P := P) round s start
  exact ⟨k, table, run, tcb⟩

/-- What the loop leaves, and what it has written where nothing fails. -/
theorem restoreLoop_cases (pd : Fin maxPds) (s : State) :
    ∃ (k : Kernel) (table : Fin maxSwBreaks → SwBreak), (restoreLoop pd).run s =
        .ok () ((s.withKernel k).setInferior pd
          { s.inferiors pd with softwareBreakpoints := table }) ∧
      k.tcb = s.kernel.tcb ∧ (MemoryCallsSucceed →
        k.memory = touch (storeAll ((List.finRange maxSwBreaks).map (s.inferiors pd).restores))
          s.kernel.memory (s.inferiors pd).vspace) := by
  by_cases ok : MemoryCallsSucceed
  · obtain ⟨k, run, tcb, memory⟩ := restoreLoop_run ok pd s
    exact ⟨k, _, run, tcb, fun _ => memory⟩
  · obtain ⟨k, table, run, tcb⟩ := restoreLoop_kept pd s
    exact ⟨k, table, run, tcb, fun succeed => absurd succeed ok⟩

/- Hardware breakpoints and watchpoints. -/

omit [Machine] in
def HwBreak.clear (_ : HwBreak) : HwBreak := ⟨0⟩

omit [Machine] in
def HwWatch.clear (wp : HwWatch) : HwWatch := { wp with addr := 0 }

omit [Machine] in
theorem hwBreak_sweeps :
    Sweepable HwBreak.clear (fun e e' => e.addr == e'.addr) fun e => e.addr = 0 where
  cleared _ := rfl
  kept e free := by rw [HwBreak.clear, ← free]
  alike e e' same := by rw [eq_of_beq same]
  self e := beq_self_eq_true e.addr
  trans e e' e'' first second := by rwa [eq_of_beq first]

omit [Machine] in
theorem hwWatch_sweeps : Sweepable HwWatch.clear (fun e e' => e == e') fun e => e.addr = 0 where
  cleared _ := rfl
  kept e free := by rw [HwWatch.clear, ← free]
  alike e e' same := by rw [eq_of_beq same]
  self e := beq_self_eq_true e
  trans e e' e'' first second := by rwa [eq_of_beq first]

omit [Machine] in
def Tcb.disarm (ms : List Nat) (t : Tcb) : Tcb :=
  { t with debug := fun m => if m ∈ ms then none else t.debug m }

omit [Machine] in
theorem Rewired.disarm {k₀ k k' : Kernel} {tcbs : List Word} {ms : List Nat} {bpNum : Nat}
    (before : k.tcb = touchAll (Tcb.disarm ms) tcbs k₀.tcb)
    (rewired : Rewired k tcbs bpNum none k') :
    k'.tcb = touchAll (Tcb.disarm (ms ++ [bpNum])) tcbs k₀.tcb := by
  funext x
  have twice (ms : List Nat) (t : Tcb) : (t.disarm ms).disarm ms = t.disarm ms := by
    simp only [Tcb.disarm]
    congr 1
    funext m
    split <;> rfl
  rw [rewired.apply, before, touchAll_apply (twice ms), touchAll_apply (twice _)]
  by_cases used : x ∈ tcbs
  · rw [if_pos used, if_pos used, if_pos used]
    simp only [Tcb.disarm, Tcb.setDebug]
    congr 1
    funext m
    by_cases here : m = bpNum
    · subst here
      simp
    · simp [here]
  · rw [if_neg used, if_neg used, if_neg used]

def Inferior.breakHit (i : Inferior) (j : Fin numExclusiveBreakpoints) : Option Nat :=
  (hit HwBreak.clear (fun e e' => e.addr == e'.addr) i.hardwareBreakpoints j).map
    fun n => firstBreakpoint + n.val

def Inferior.watchHit (i : Inferior) (j : Fin numExclusiveWatchpoints) : Option Nat :=
  (hit HwWatch.clear (fun e e' => e == e') i.hardwareWatchpoints j).map
    fun n => firstWatchpoint + n.val

/-- A loop whose rounds move on from one inferior record to the next and clear a register each. -/
theorem sweepLoop_run {n : Nat} {f : Fin n → Stub Unit} {w : Nat → Inferior}
    {hits : Fin n → Option Nat}
    {pd : Fin maxPds} {tcbs : List Word} {s : State} (first : w 0 = s.inferiors pd)
    (round : ∀ (j : Fin n) (k : Kernel), ∃ (k' : Kernel) (m : Nat),
      (f j).run ((s.withKernel k).setInferior pd (w j)) =
        .ok () ((s.withKernel k').setInferior pd (w (j + 1))) ∧
      hits j = some m ∧ Rewired k tcbs m none k') :
    ∃ k : Kernel, ((List.finRange n).forM f).run s = .ok ()
    ((s.withKernel k).setInferior pd (w n)) ∧
      k.memory = s.kernel.memory ∧
      k.tcb = touchAll (Tcb.disarm ((List.finRange n).filterMap hits)) tcbs s.kernel.tcb := by
  let P (j : Nat) (u : State) : Prop := ∃ k : Kernel,
    u = (s.withKernel k).setInferior pd (w j) ∧ k.memory = s.kernel.memory ∧
    k.tcb = touchAll (Tcb.disarm (((List.finRange n).take j).filterMap hits)) tcbs s.kernel.tcb
  have start : P 0 s := by
    refine ⟨s.kernel, ?_, rfl, ?_⟩
    · rw [first]
      exact (congrArg (fun f => { s with inferiors := f })
        (Function.update_eq_self pd s.inferiors)).symm
    · funext x
      rw [touchAll_apply (by simp [Tcb.disarm])]
      simp [Tcb.disarm]
  obtain ⟨u, run, k, rfl, memory, tcb⟩ := forM_counted (P := P) (by
    rintro j _ ⟨k, rfl, memory, tcb⟩
    obtain ⟨k', m, run, hit_m, rewired⟩ := round j k
    refine ⟨_, run, k', rfl, rewired.memory.trans memory, ?_⟩
    rw [rewired.disarm tcb, take_finRange_succ]
    simp [hit_m]) s start
  refine ⟨k, run, memory, ?_⟩
  rw [tcb, List.take_of_length_le (by simp)]

def unbreakLoop (pd : Fin maxPds) : Stub Unit :=
  (List.finRange numExclusiveBreakpoints).forM fun i => do
    let s ← get
    let _ ← unsetHardwareBreakpoint pd ((s.inferiors pd).hardwareBreakpoints i).addr

def unwatchLoop (pd : Fin maxPds) : Stub Unit :=
  (List.finRange numExclusiveWatchpoints).forM fun i => do
    let s ← get
    let wp := (s.inferiors pd).hardwareWatchpoints i
    let _ ← unsetHardwareWatchpoint pd wp.addr wp.type wp.size

def Inferior.withUnbroken (i : Inferior) (j : Nat) : Inferior :=
  { i with hardwareBreakpoints := swept HwBreak.clear i.hardwareBreakpoints j }

def Inferior.withUnwatched (i : Inferior) (j : Nat) : Inferior :=
  { i with hardwareWatchpoints := swept HwWatch.clear i.hardwareWatchpoints j }

theorem unbreak_round (ok : DebugCallsSucceed) (pd : Fin maxPds) (i : Inferior)
    (j : Fin numExclusiveBreakpoints) (s : State) :
    ∃ (k : Kernel) (m : Nat), (do
        let s ← get
        let _ ← unsetHardwareBreakpoint pd ((s.inferiors pd).hardwareBreakpoints j).addr :
            Stub Unit).run
          (s.setInferior pd (i.withUnbroken j.val)) =
        .ok () ((s.withKernel k).setInferior pd (i.withUnbroken (j.val + 1))) ∧
      i.breakHit j = some m ∧ Rewired s.kernel i.allTcbs m none k := by
  let table := i.hardwareBreakpoints
  let u := s.setInferior pd (i.withUnbroken j.val)
  have inferior : u.inferiors pd = i.withUnbroken j.val := by simp [u]
  have probe : ((u.inferiors pd).hardwareBreakpoints j).addr = (table j).addr := by
    rw [inferior]
    exact congrArg HwBreak.addr (swept_self table j)
  have step := unsetHardwareBreakpoint_run ok pd (table j).addr u
  obtain ⟨n, hit_n, next⟩ := swept_step table hwBreak_sweeps j
  have first : firstSlot (fun n =>
      ((u.inferiors pd).hardwareBreakpoints n).addr == (table j).addr) = some n := by
    rw [inferior]
    exact hit_n
  rw [first, inferior] at step
  obtain ⟨k, run, rewired⟩ := step
  refine ⟨k, firstBreakpoint + n, ?_, congrArg (Option.map _) hit_n, rewired⟩
  rw [run_bind_ok (EStateM.run_get _), show s.setInferior pd (i.withUnbroken j.val) =
    u from rfl, probe,
    run_bind_ok run]
  refine congrArg (EStateM.Result.ok ()) ?_
  have swapped : (i.withUnbroken j.val).setHwBreak n ⟨0⟩ = i.withUnbroken (j.val + 1) :=
    congrArg (fun table => { i with hardwareBreakpoints := table }) next
  rw [swapped]
  simp only [u, State.setInferior, State.withKernel, Function.update_idem]

theorem unwatch_round (ok : DebugCallsSucceed) (pd : Fin maxPds) (i : Inferior)
    (j : Fin numExclusiveWatchpoints) (s : State) :
    ∃ (k : Kernel) (m : Nat), (do
        let s ← get
        let wp := (s.inferiors pd).hardwareWatchpoints j
        let _ ← unsetHardwareWatchpoint pd wp.addr wp.type wp.size : Stub Unit).run
          (s.setInferior pd (i.withUnwatched j.val)) =
        .ok () ((s.withKernel k).setInferior pd (i.withUnwatched (j.val + 1))) ∧
      i.watchHit j = some m ∧ Rewired s.kernel i.allTcbs m none k := by
  let table := i.hardwareWatchpoints
  let u := s.setInferior pd (i.withUnwatched j.val)
  have inferior : u.inferiors pd = i.withUnwatched j.val := by simp [u]
  have probe : (u.inferiors pd).hardwareWatchpoints j = table j := by
    rw [inferior]
    exact swept_self table j
  have step := unsetHardwareWatchpoint_run ok pd (table j) u
  obtain ⟨n, hit_n, next⟩ := swept_step table hwWatch_sweeps j
  have first : firstSlot (fun n => (u.inferiors pd).hardwareWatchpoints n == table j) = some n := by
    rw [inferior]
    exact hit_n
  rw [first, inferior] at step
  obtain ⟨k, run, rewired⟩ := step
  -- the entry found equals the one looked up, up to the address that is cleared
  have entry : { table j with addr := 0 } = (swept HwWatch.clear table j.val n).clear := by
    have same := (firstSlot_some hit_n).1
    rw [← eq_of_beq same]
    rfl
  refine ⟨k, firstWatchpoint + n, ?_, congrArg (Option.map _) hit_n, rewired⟩
  rw [run_bind_ok (EStateM.run_get _), show s.setInferior pd (i.withUnwatched j.val) = u from rfl]
  dsimp only
  rw [probe, run_bind_ok run]
  refine congrArg (EStateM.Result.ok ()) ?_
  have swapped : (i.withUnwatched j.val).setHwWatch n { table j with addr := 0 } =
      i.withUnwatched (j.val + 1) := by
    rw [entry]
    exact congrArg (fun table => { i with hardwareWatchpoints := table }) next
  rw [swapped]
  simp only [u, State.setInferior, State.withKernel, Function.update_idem]

theorem unbreakLoop_run (ok : DebugCallsSucceed) (pd : Fin maxPds) (s : State) :
    ∃ k : Kernel, (unbreakLoop pd).run s = .ok () ((s.withKernel k).setInferior pd
        ((s.inferiors pd).withUnbroken numExclusiveBreakpoints)) ∧
      k.memory = s.kernel.memory ∧
      k.tcb = touchAll (Tcb.disarm ((List.finRange numExclusiveBreakpoints).filterMap
        (s.inferiors pd).breakHit)) (s.inferiors pd).allTcbs s.kernel.tcb :=
  sweepLoop_run (w := (s.inferiors pd).withUnbroken) (by rw [Inferior.withUnbroken, swept_zero])
    fun j k => unbreak_round ok pd (s.inferiors pd) j (s.withKernel k)

theorem unwatchLoop_run (ok : DebugCallsSucceed) (pd : Fin maxPds) (s : State) :
    ∃ k : Kernel, (unwatchLoop pd).run s = .ok () ((s.withKernel k).setInferior pd
        ((s.inferiors pd).withUnwatched numExclusiveWatchpoints)) ∧
      k.memory = s.kernel.memory ∧
      k.tcb = touchAll (Tcb.disarm ((List.finRange numExclusiveWatchpoints).filterMap
        (s.inferiors pd).watchHit)) (s.inferiors pd).allTcbs s.kernel.tcb :=
  sweepLoop_run (w := (s.inferiors pd).withUnwatched) (by rw [Inferior.withUnwatched, swept_zero])
    fun j k => unwatch_round ok pd (s.inferiors pd) j (s.withKernel k)

def Inferior.hits (i : Inferior) : List Nat :=
  (List.finRange numExclusiveBreakpoints).filterMap i.breakHit ++
    (List.finRange numExclusiveWatchpoints).filterMap i.watchHit

/-- The register of an entry in use is cleared, and that of the first entry of its kind: free
    breakpoint entries are all alike, free watchpoint entries when type and size are. -/
def Inferior.clears (i : Inferior) : DebugRegister → Prop
  | .inl n => (i.hardwareBreakpoints n).addr ≠ 0 ∨ n.val = 0
  | .inr n => (i.hardwareWatchpoints n).addr ≠ 0 ∨
      ∀ k, k < n → (i.hardwareWatchpoints k).clear ≠ (i.hardwareWatchpoints n).clear

theorem breakHit_iff (i : Inferior) (n : Fin numExclusiveBreakpoints) :
    (∃ j, i.breakHit j = some (firstBreakpoint + n.val)) ↔ i.clears (.inl n) := by
  have only : (∃ j, i.breakHit j = some (firstBreakpoint + n.val)) ↔
      ∃ j, hit HwBreak.clear (fun e e' => e.addr == e'.addr) i.hardwareBreakpoints j = some n := by
    refine exists_congr fun j => ⟨?_, fun found => by rw [Inferior.breakHit, found]; rfl⟩
    intro found
    obtain ⟨m, hit_m, same⟩ := Option.map_eq_some_iff.mp found
    rwa [Fin.ext (Nat.add_left_cancel same)] at hit_m
  rw [only, hit_iff i.hardwareBreakpoints hwBreak_sweeps n]
  by_cases free : (i.hardwareBreakpoints n).addr = 0
  · simp only [Inferior.clears, free, HwBreak.clear, beq_self_eq_true, not_true_eq_false,
      false_or, ne_eq,
      Bool.true_eq_false, imp_false, not_lt]
    constructor
    · intro least
      exact Nat.eq_zero_of_le_zero (least ⟨0, Nat.zero_lt_of_lt n.isLt⟩)
    · intro zero k
      exact Fin.le_def.mpr (by omega)
  · exact iff_of_true (Or.inl free) (Or.inl free)

theorem watchHit_iff (i : Inferior) (n : Fin numExclusiveWatchpoints) :
    (∃ j, i.watchHit j = some (firstWatchpoint + n.val)) ↔ i.clears (.inr n) := by
  have only : (∃ j, i.watchHit j = some (firstWatchpoint + n.val)) ↔
      ∃ j, hit HwWatch.clear (fun e e' => e == e') i.hardwareWatchpoints j = some n := by
    refine exists_congr fun j => ⟨?_, fun found => by rw [Inferior.watchHit, found]; rfl⟩
    intro found
    obtain ⟨m, hit_m, same⟩ := Option.map_eq_some_iff.mp found
    rwa [Fin.ext (Nat.add_left_cancel same)] at hit_m
  rw [only, hit_iff i.hardwareWatchpoints hwWatch_sweeps n]
  by_cases free : (i.hardwareWatchpoints n).addr = 0
  · have own : (i.hardwareWatchpoints n).clear = i.hardwareWatchpoints n :=
      hwWatch_sweeps.kept _ free
    simp only [Inferior.clears, own, beq_eq_false_iff_ne]
  · exact iff_of_true (Or.inl free) (Or.inl free)

theorem mem_hits (i : Inferior) (r : DebugRegister) : r.num ∈ i.hits ↔ i.clears r := by
  have apart (n : Fin numExclusiveBreakpoints) (m : Fin numExclusiveWatchpoints) :
      firstBreakpoint + n.val ≠ firstWatchpoint + m.val := by
    have := Machine.apart
    omega
  have wrongBreak (j : Fin numExclusiveBreakpoints) (m : Fin numExclusiveWatchpoints) :
      i.breakHit j ≠ some (firstWatchpoint + m.val) := by
    intro found
    obtain ⟨n, _, same⟩ := Option.map_eq_some_iff.mp found
    exact apart n m same
  have wrongWatch (j : Fin numExclusiveWatchpoints) (n : Fin numExclusiveBreakpoints) :
      i.watchHit j ≠ some (firstBreakpoint + n.val) := by
    intro found
    obtain ⟨m, _, same⟩ := Option.map_eq_some_iff.mp found
    exact apart n m same.symm
  unfold Inferior.hits
  rw [List.mem_append, List.mem_filterMap, List.mem_filterMap]
  simp only [List.mem_finRange, true_and]
  cases r with
  | inl n =>
    rw [← breakHit_iff]
    exact or_iff_left fun ⟨j, found⟩ => wrongWatch j n found
  | inr m =>
    rw [← watchHit_iff]
    exact or_iff_right fun ⟨j, found⟩ => wrongBreak j m found

/- The threads of one inferior. -/

structure StepCallsSucceed : Prop where
  step : ∀ calls tcb n, Machine.fails calls (.tcbConfigureSingleStepping tcb n) = false

omit [Machine] in
/-- What detaching leaves in a slot: an enabled thread is to be woken up and not stepped. -/
def Thread.release (thread : Thread) : Thread :=
  if thread.enabled then { thread with ssEnabled := false, wakeup := true } else thread

def Inferior.withReleased (i : Inferior) (j : Nat) : Inferior :=
  { i with threads := swept Thread.release i.threads j }

omit [Machine] in
def Tcb.unstep (t : Tcb) : Tcb := { t with singleStepping := false }

def Inferior.stepTcbs (i : Inferior) (slots : List (Fin maxThreads)) : List Word :=
  (slots.filter fun j => (i.threads j).enabled && (i.threads j).ssEnabled).map fun j =>
    (i.threads j).tcb

omit [Machine] in
/-- Calls for single stepping: they leave memory and the debug registers, and do what `tcb` says
    where none fails. -/
structure StepsOnly (succeed : Prop) (before after : Kernel) (tcb : Word → Tcb) : Prop where
  memory : after.memory = before.memory
  debug : ∀ x, (after.tcb x).debug = (before.tcb x).debug
  exact : succeed → after.tcb = tcb

theorem disableSingleStep_run (t : ThreadRef) (s : State) :
    ∃ k : Kernel, (disableSingleStep t).run s = .ok true (s.withKernel k) ∧
      StepsOnly StepCallsSucceed s.kernel k (touch Tcb.unstep s.kernel.tcb (s.thread t).tcb) := by
  refine ⟨s.kernel.record (.tcbConfigureSingleStepping (s.thread t).tcb 0), rfl, ?_, fun x =>
    ?_, fun ok => ?_⟩
  · simp only [Kernel.record, KernelCall.effect, Kernel.updateTcb]
    split <;> rfl
  · simp only [Kernel.record, KernelCall.effect, Kernel.updateTcb]
    split
    · rfl
    · dsimp only
      by_cases here : x = (s.thread t).tcb
      · rw [here, Function.update_self]
      · rw [Function.update_of_ne here]
  · rw [record_of_ok (ok.step _ _ _)]
    rfl

theorem release_round (pd : Fin maxPds) (i : Inferior) (j : Fin maxThreads)
    (s : State) :
    ∃ k : Kernel, (detachThread ⟨pd, j⟩).run (s.setInferior pd (i.withReleased j.val)) =
        .ok () ((s.withKernel k).setInferior pd (i.withReleased (j.val + 1))) ∧
      StepsOnly StepCallsSucceed s.kernel k
        (touchAll Tcb.unstep (i.stepTcbs [j]) s.kernel.tcb) := by
  let u := s.setInferior pd (i.withReleased j.val)
  have thread : u.thread ⟨pd, j⟩ = i.threads j := by
    simp only [u, State.thread, setInferior_inferiors, Function.update_self]
    exact swept_self i.threads j
  have next (k : Kernel) (enabled : (i.threads j).enabled = true) :
      (u.withKernel k).setThread ⟨pd, j⟩ { i.threads j with ssEnabled := false, wakeup := true } =
        (s.withKernel k).setInferior pd (i.withReleased (j.val + 1)) := by
    have released : { i.threads j with ssEnabled := false, wakeup := true } =
        (i.threads j).release :=
      (if_pos enabled).symm
    have slots := @swept_succ _ _ Thread.release i.threads j
    rw [released]
    simp only [u, State.setThread, State.setInferior, State.withKernel, Function.update_idem,
      Function.update_self, Inferior.setThread, Inferior.withReleased, slots]
  have clear (k : Kernel) (enabled : (i.threads j).enabled = true) :
      (modify fun s : State => s.setThread ⟨pd, j⟩
        { s.thread ⟨pd, j⟩ with ssEnabled := false, wakeup := true } :
          Stub Unit).run (u.withKernel k) =
        .ok () ((s.withKernel k).setInferior pd (i.withReleased (j.val + 1))) := by
    rw [← next k enabled, ← thread]
    rfl
  unfold detachThread
  rw [run_bind_ok (EStateM.run_get _), show s.setInferior pd (i.withReleased j.val) =
    u from rfl, thread]
  by_cases enabled : (i.threads j).enabled = true
  · rw [if_pos enabled]
    by_cases stepping : (i.threads j).ssEnabled = true
    · obtain ⟨k, run, steps⟩ := disableSingleStep_run ⟨pd, j⟩ u
      refine ⟨k, ?_, steps.memory, steps.debug, fun ok => ?_⟩
      · rw [if_pos stepping, run_bind_ok run, clear k enabled]
      · rw [steps.exact ok, thread]
        simp [Inferior.stepTcbs, enabled, stepping, touchAll, u]
    · refine ⟨s.kernel, ?_, rfl, fun _ => rfl, fun _ => ?_⟩
      · rw [if_neg stepping]
        exact clear s.kernel enabled
      · simp [Inferior.stepTcbs, stepping, touchAll]
  · refine ⟨s.kernel, ?_, rfl, fun _ => rfl, fun _ => ?_⟩
    · rw [if_neg enabled]
      have same : i.withReleased (j.val + 1) = i.withReleased j.val := by
        have kept : (i.threads j).release = i.threads j := if_neg enabled
        rw [Inferior.withReleased, ← swept_succ, kept,
          Function.update_eq_self_iff.mpr (swept_self _ j).symm]
        rfl
      rw [same]
      rfl
    · simp [Inferior.stepTcbs, enabled, touchAll]

theorem releaseLoop_run (pd : Fin maxPds) (s : State) :
    ∃ k : Kernel, ((List.finRange maxThreads).forM fun slot => detachThread ⟨pd, slot⟩).run s =
        .ok () ((s.withKernel k).setInferior pd ((s.inferiors pd).withReleased maxThreads)) ∧
      StepsOnly StepCallsSucceed s.kernel k
        (touchAll Tcb.unstep ((s.inferiors pd).stepTcbs (List.finRange maxThreads))
          s.kernel.tcb) := by
  let i := s.inferiors pd
  let P (j : Nat) (u : State) : Prop := ∃ k : Kernel,
    u = (s.withKernel k).setInferior pd (i.withReleased j) ∧ StepsOnly StepCallsSucceed s.kernel k
      (touchAll Tcb.unstep (i.stepTcbs ((List.finRange maxThreads).take j)) s.kernel.tcb)
  have start : P 0 s := by
    refine ⟨s.kernel, ?_, rfl, fun _ => rfl, fun _ => rfl⟩
    rw [Inferior.withReleased, swept_zero]
    exact (congrArg (fun f => { s with inferiors := f })
      (Function.update_eq_self pd s.inferiors)).symm
  obtain ⟨u, run, k, rfl, steps⟩ := forM_counted (P := P) (by
    rintro j _ ⟨k, rfl, steps⟩
    obtain ⟨k', run, steps'⟩ := release_round pd i j (s.withKernel k)
    refine ⟨_, run, k', rfl, steps'.memory.trans steps.memory, fun x =>
      (steps'.debug x).trans (steps.debug x), ?_⟩
    intro ok
    rw [steps'.exact ok, withKernel_kernel, steps.exact ok, take_finRange_succ]
    simp [Inferior.stepTcbs, touchAll]) s start
  rw [List.take_of_length_le (by simp)] at steps
  exact ⟨k, run, steps⟩

/- One inferior. -/

def Inferior.detached (i : Inferior) : Inferior :=
  { i with
    threads := fun slot => (i.threads slot).release
    softwareBreakpoints := fun _ => .zero
    hardwareBreakpoints := fun _ => .zero
    hardwareWatchpoints := fun _ => .zero }

def Inferior.detachedTcb (i : Inferior) (x : Word) (t : Tcb) : Tcb :=
  let t := if x ∈ i.allTcbs then t.disarm i.hits else t
  if x ∈ i.stepTcbs (List.finRange maxThreads) then t.unstep else t

def Inferior.allRestores (i : Inferior) : List (Word × Word) :=
  (List.finRange maxSwBreaks).map i.restores

structure DetachCallsSucceed : Prop extends MemoryCallsSucceed, DebugCallsSucceed, StepCallsSucceed

omit [Machine] in
theorem disarm_disarm (ms ms' : List Nat) (t : Tcb) :
    (t.disarm ms).disarm ms' = t.disarm (ms ++ ms') := by
  simp only [Tcb.disarm, List.mem_append]
  congr 1
  funext m
  by_cases first : m ∈ ms <;> by_cases second : m ∈ ms' <;> simp [first, second]

theorem detachInferior_run (ok : DebugCallsSucceed) (pd : Fin maxPds) (s : State) :
    ∃ k : Kernel, (detachInferior pd).run s =
        .ok () ((s.withKernel k).setInferior pd (s.inferiors pd).detached) ∧
      (∀ x, (k.tcb x).debug = ((s.inferiors pd).detachedTcb x (s.kernel.tcb x)).debug) ∧
      (DetachCallsSucceed →
      k.memory = touch (storeAll (s.inferiors pd).allRestores) s.kernel.memory
        (s.inferiors pd).vspace ∧
      ∀ x, k.tcb x = (s.inferiors pd).detachedTcb x (s.kernel.tcb x)) := by
  let i := s.inferiors pd
  obtain ⟨k₁, table, run₁, tcb₁, memory₁⟩ := restoreLoop_cases pd s
  let s₁ := (s.withKernel k₁).setInferior pd { i with softwareBreakpoints := table }
  have i₁ : s₁.inferiors pd = { i with softwareBreakpoints := table } := by simp [s₁]
  obtain ⟨k₂, run₂, memory₂, tcb₂⟩ := unbreakLoop_run ok pd s₁
  let s₂ := (s₁.withKernel k₂).setInferior pd
      ((s₁.inferiors pd).withUnbroken numExclusiveBreakpoints)
  have i₂ : s₂.inferiors pd = (s₁.inferiors pd).withUnbroken numExclusiveBreakpoints := by simp [s₂]
  obtain ⟨k₃, run₃, memory₃, tcb₃⟩ := unwatchLoop_run ok pd s₂
  let s₃ := (s₂.withKernel k₃).setInferior pd
      ((s₂.inferiors pd).withUnwatched numExclusiveWatchpoints)
  have i₃ : s₃.inferiors pd = (s₂.inferiors pd).withUnwatched numExclusiveWatchpoints := by
    simp [s₃]
  let s₄ := s₃.setInferior pd { s₃.inferiors pd with
    softwareBreakpoints := fun _ => .zero
    hardwareBreakpoints := fun _ => .zero
    hardwareWatchpoints := fun _ => .zero }
  have i₄ : s₄.inferiors pd = { i with
      softwareBreakpoints := fun _ => .zero
      hardwareBreakpoints := fun _ => .zero
      hardwareWatchpoints := fun _ => .zero } := by
    simp only [s₄, setInferior_inferiors, Function.update_self, i₃, i₂, i₁]
    rfl
  obtain ⟨k₅, run₅, steps⟩ := releaseLoop_run pd s₄
  have twice (t : Tcb) : t.unstep.unstep = t.unstep := rfl
  have unstep (ts : List Word) (tcb : Word → Tcb) (x : Word) :
      touchAll Tcb.unstep ts tcb x = if x ∈ ts then (tcb x).unstep else tcb x :=
    touchAll_apply twice ts tcb x
  have disarm (ms : List Nat) (ts : List Word) (tcb : Word → Tcb) (x : Word) :
      touchAll (Tcb.disarm ms) ts tcb x = if x ∈ ts then (tcb x).disarm ms else tcb x :=
    touchAll_apply (fun t => by rw [disarm_disarm]; simp [Tcb.disarm]) ts tcb x
  have breaks : k₂.tcb = touchAll
      (Tcb.disarm ((List.finRange numExclusiveBreakpoints).filterMap i.breakHit))
      i.allTcbs s.kernel.tcb := by
    rw [tcb₂, i₁, show s₁.kernel.tcb = s.kernel.tcb from tcb₁]
    rfl
  have watches : k₃.tcb = touchAll
      (Tcb.disarm ((List.finRange numExclusiveWatchpoints).filterMap i.watchHit))
      i.allTcbs k₂.tcb := by
    rw [tcb₃, i₂, i₁]
    rfl
  have disarmed (x : Word) : k₃.tcb x = if x ∈ i.allTcbs then (s.kernel.tcb x).disarm i.hits
      else s.kernel.tcb x := by
    rw [watches, disarm, breaks, disarm]
    by_cases used : x ∈ i.allTcbs
    · rw [if_pos used, if_pos used, if_pos used, disarm_disarm]
      rfl
    · rw [if_neg used, if_neg used, if_neg used]
  refine ⟨k₅, ?_, fun x => ?_, fun all => ⟨?_, fun x => ?_⟩⟩
  · have whole : detachInferior pd = (do
        restoreLoop pd
        unbreakLoop pd
        unwatchLoop pd
        modify fun s : State => s.setInferior pd
          { s.inferiors pd with
            softwareBreakpoints := fun _ => .zero
            hardwareBreakpoints := fun _ => .zero
            hardwareWatchpoints := fun _ => .zero }
        (List.finRange maxThreads).forM fun slot => detachThread ⟨pd, slot⟩) := rfl
    have cleared : (modify fun s : State => s.setInferior pd
        { s.inferiors pd with
          softwareBreakpoints := fun _ => .zero
          hardwareBreakpoints := fun _ => .zero
          hardwareWatchpoints := fun _ => .zero } : Stub Unit).run s₃ = .ok () s₄ := rfl
    rw [whole, run_bind_ok run₁, run_bind_ok run₂, run_bind_ok run₃, run_bind_ok cleared, run₅]
    refine congrArg (EStateM.Result.ok ()) ?_
    have last : (s₄.inferiors pd).withReleased maxThreads = i.detached := by
      rw [i₄, Inferior.withReleased, swept_all]
      rfl
    rw [last]
    simp only [s₄, s₃, s₂, s₁, State.setInferior, State.withKernel, Function.update_idem]
    rfl
  · refine (steps.debug x).trans ((congrArg Tcb.debug (disarmed x)).trans ?_)
    simp only [Inferior.detachedTcb, apply_ite Tcb.debug, Tcb.unstep, ite_self]
    rfl
  · exact steps.memory.trans (memory₃.trans (memory₂.trans (memory₁ all.toMemoryCallsSucceed)))
  · rw [steps.exact all.toStepCallsSucceed, i₄, unstep, show s₄.kernel.tcb x =
      k₃.tcb x from rfl, disarmed]
    rfl

/- All inferiors. -/

def detachedInferiors (s : State) (pds : List (Fin maxPds)) : Fin maxPds → Inferior := fun pd =>
  if pd ∈ pds ∧ (s.inferiors pd).enabled = true then (s.inferiors pd).detached else s.inferiors pd

def detachWrites (s : State) (pds : List (Fin maxPds)) (vspace : Word) : List (Word × Word) :=
  (pds.filter fun pd => (s.inferiors pd).enabled && (s.inferiors pd).vspace == vspace).flatMap
    fun pd => (s.inferiors pd).allRestores

def detachedTcbs (s : State) (pds : List (Fin maxPds)) (x : Word) : Tcb :=
  (pds.filter fun pd => (s.inferiors pd).enabled).foldl
    (fun t pd => (s.inferiors pd).detachedTcb x t) (s.kernel.tcb x)

theorem detachedTcb_debug (i : Inferior) (x : Word) (t : Tcb) (m : Nat) :
    (i.detachedTcb x t).debug m = if x ∈ i.allTcbs ∧ m ∈ i.hits then none else t.debug m := by
  simp only [Inferior.detachedTcb, apply_ite Tcb.debug, Tcb.unstep, Tcb.disarm, ite_self]
  by_cases used : x ∈ i.allTcbs <;> by_cases cleared : m ∈ i.hits <;> simp [used, cleared]

theorem detachedTcbs_debug (s : State) (pds : List (Fin maxPds)) (x : Word) (m : Nat) :
    (detachedTcbs s pds x).debug m =
      if ∃ pd ∈ pds, (s.inferiors pd).enabled = true ∧ x ∈ (s.inferiors pd).allTcbs ∧
        m ∈ (s.inferiors pd).hits then none
      else (s.kernel.tcb x).debug m := by
  unfold detachedTcbs
  generalize s.kernel.tcb x = t
  induction pds generalizing t with
  | nil => simp
  | cons pd pds ih =>
    by_cases enabled : (s.inferiors pd).enabled = true
    · rw [List.filter_cons_of_pos (by exact enabled), List.foldl_cons, ih, detachedTcb_debug]
      by_cases here : x ∈ (s.inferiors pd).allTcbs ∧ m ∈ (s.inferiors pd).hits
      · simp [here, enabled]
      · simp [here, enabled]
    · rw [List.filter_cons_of_neg (by exact enabled), ih]
      simp [enabled]

/-- What the kernel is left with once these inferiors are detached from. -/
structure DetachedFrom (s : State) (pds : List (Fin maxPds)) (k : Kernel) : Prop where
  debug : ∀ x, (k.tcb x).debug = (detachedTcbs s pds x).debug
  memory : DetachCallsSucceed → ∀ v, k.memory v = storeAll (detachWrites s pds v)
    (s.kernel.memory v)
  tcbs : DetachCallsSucceed → ∀ x, k.tcb x = detachedTcbs s pds x

theorem handleDetach_run (ok : DebugCallsSucceed) (s : State) :
    ∃ k : Kernel, handleDetach.run s = .ok ()
        { (s.lay 0 (str "OK")).withKernel k with
          inferiors := detachedInferiors s (List.finRange maxPds) } ∧
      DetachedFrom s (List.finRange maxPds) k := by
  let P (j : Nat) (u : State) : Prop := ∃ k : Kernel,
    u = { (s.lay 0 (str "OK")).withKernel k with
      inferiors := detachedInferiors s ((List.finRange maxPds).take j) } ∧
    DetachedFrom s ((List.finRange maxPds).take j) k
  have start : P 0 (s.lay 0 (str "OK")) := by
    refine ⟨s.kernel, ?_, fun x => rfl, fun _ v => rfl, fun _ x => rfl⟩
    have none : detachedInferiors s [] = s.inferiors := by
      funext pd
      simp [detachedInferiors]
    rw [List.take_zero, none]
    rfl
  have round (j : Fin maxPds) (u : State) (now : P j.val u) : ∃ v, (do
      let s ← get
      if (s.inferiors j).enabled then
        detachInferior j : Stub Unit).run u = .ok () v ∧ P (j.val + 1) v := by
    obtain ⟨k, rfl, before⟩ := now
    let u : State := { (s.lay 0 (str "OK")).withKernel k with
      inferiors := detachedInferiors s ((List.finRange maxPds).take j.val) }
    have own : u.inferiors j = s.inferiors j := if_neg fun h => by
      have := mem_take_finRange.mp h.1
      omega
    by_cases enabled : (s.inferiors j).enabled = true
    · obtain ⟨k', run, debug', all'⟩ := detachInferior_run ok j u
      rw [own] at run debug' all'
      refine ⟨(u.withKernel k').setInferior j (s.inferiors j).detached, ?_, k', ?_, fun x => ?_,
        fun all v => ?_,
        fun all x => ?_⟩
      · rw [run_bind_ok (EStateM.run_get _), show (u.inferiors j).enabled =
          true by rw [own, enabled], if_pos rfl]
        exact run
      · have grown : detachedInferiors s ((List.finRange maxPds).take (j.val + 1)) =
            Function.update u.inferiors j (s.inferiors j).detached := by
          funext pd
          by_cases here : pd = j
          · subst here
            rw [Function.update_self]
            exact if_pos ⟨mem_take_finRange.mpr (by omega), enabled⟩
          · have := Fin.val_ne_of_ne here
            rw [Function.update_of_ne here]
            refine if_congr (and_congr_left fun _ => ?_) rfl rfl
            rw [mem_take_finRange, mem_take_finRange]
            omega
        rw [grown]
        rfl
      · funext m
        rw [congrFun (debug' x) m, detachedTcb_debug, show u.kernel.tcb = k.tcb from rfl,
          congrFun (before.debug x) m,
          ← detachedTcb_debug, take_finRange_succ, detachedTcbs, detachedTcbs, List.filter_append,
            List.foldl_append]
        simp [enabled]
      · rw [(all' all).1, take_finRange_succ, detachWrites, List.filter_append, List.flatMap_append]
        by_cases here : (s.inferiors j).vspace = v
        · subst here
          rw [touch_same, show u.kernel.memory = k.memory from rfl, before.memory all]
          simp [enabled, storeAll, detachWrites]
        · rw [touch_other _ (Ne.symm here), show u.kernel.memory = k.memory from rfl,
            before.memory all]
          simp [here, detachWrites]
      · rw [(all' all).2, show u.kernel.tcb = k.tcb from rfl, before.tcbs all, take_finRange_succ,
          detachedTcbs, detachedTcbs,
          List.filter_append, List.foldl_append]
        simp [enabled]
    · refine ⟨u, ?_, k, ?_, fun x => ?_, fun all v => ?_, fun all x => ?_⟩
      · rw [run_bind_ok (EStateM.run_get _), show (u.inferiors j).enabled =
          (s.inferiors j).enabled by rw [own],
          if_neg enabled]
        rfl
      · have same : detachedInferiors s ((List.finRange maxPds).take (j.val + 1)) =
            u.inferiors := by
          funext pd
          by_cases here : pd = j
          · subst here
            rw [own]
            exact if_neg fun h => enabled h.2
          · have := Fin.val_ne_of_ne here
            refine if_congr (and_congr_left fun _ => ?_) rfl rfl
            rw [mem_take_finRange, mem_take_finRange]
            omega
        rw [same]
      · rw [take_finRange_succ, before.debug, detachedTcbs, detachedTcbs, List.filter_append,
          List.foldl_append]
        simp [enabled]
      · rw [take_finRange_succ, detachWrites, List.filter_append, List.flatMap_append,
          before.memory all]
        simp [enabled, detachWrites]
      · rw [take_finRange_succ, before.tcbs all, detachedTcbs, detachedTcbs, List.filter_append,
          List.foldl_append]
        simp [enabled]
  obtain ⟨u, run, k, rfl, left⟩ := forM_counted (P := P) round (s.lay 0 (str "OK")) start
  rw [List.take_of_length_le (by simp)] at run left
  refine ⟨k, ?_, left⟩
  unfold handleDetach
  rw [run_bind_ok (strlcpy_run _ _ _ _ (by decide) (by decide))]
  exact run

end Libgdb
