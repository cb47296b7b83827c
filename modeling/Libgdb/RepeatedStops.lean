import Mathlib.Data.Fintype.Sum
import Mathlib.Data.Finset.Card
import Libgdb.IdLookups
import Libgdb.RefusedSets

/-!
Hardware stops that are set more than once. A set takes the first free entry and does not look for
an equal one, a removal clears the first equal entry, and the kernel's refusals to clear a register
are ignored.
-/
namespace Libgdb
open ByteMemory SlotTables CheckedPrograms KeyedUpdates RefusedCalls
variable [Machine]

/- Stops. -/

inductive HwStop where
  | breakpoint (bp : HwBreak)
  | watchpoint (wp : HwWatch)

omit [Machine] in
def HwStop.addr : HwStop → Word
  | .breakpoint bp => bp.addr
  | .watchpoint wp => wp.addr

omit [Machine] in
def HwStop.setting : HwStop → DebugSetting
  | .breakpoint bp => bp.setting
  | .watchpoint wp => wp.setting

/-- What an entry for the stop asks of its register; one for address zero is free. -/
def HwStop.armed (stop : HwStop) : Option DebugSetting :=
  if stop.addr = 0 then none else some stop.setting

def HwStop.set (pd : Fin maxPds) : HwStop → Stub Bool
  | .breakpoint bp => setHardwareBreakpoint pd bp.addr
  | .watchpoint wp => setHardwareWatchpoint pd wp.addr wp.type wp.size

def HwStop.unset (pd : Fin maxPds) : HwStop → Stub Bool
  | .breakpoint bp => unsetHardwareBreakpoint pd bp.addr
  | .watchpoint wp => unsetHardwareWatchpoint pd wp.addr wp.type wp.size

def Inferior.firstEntry (i : Inferior) : HwStop → Option DebugRegister
  | .breakpoint bp => (firstSlot fun n => (i.hardwareBreakpoints n).addr == bp.addr).map .inl
  | .watchpoint wp => (firstSlot fun n => i.hardwareWatchpoints n == wp).map .inr

omit [Machine] in
theorem setting_address (stop : HwStop) : stop.setting.address = stop.addr := by
  cases stop <;> rfl

/- One call. -/

/-- The entry of one register asks for something else, some TCBs hold something else there, and
    nothing else of the tables and the registers differs. -/
structure Rewires (s : State) (pd : Fin maxPds) (r : DebugRegister) (tcbs : List Word)
    (value entry : Option DebugSetting) (u : State) : Prop where
  same : SameRegistry s u
  target : u.targetThread = s.targetThread
  wants : ∀ pd' q, (u.inferiors pd').wants q =
    if pd' = pd ∧ q = r then entry else (s.inferiors pd').wants q
  debug : ∀ x m, (u.kernel.tcb x).debug m =
    if x ∈ tcbs ∧ m = r.num then value else (s.kernel.tcb x).debug m

structure HwKept (s u : State) : Prop where
  same : SameRegistry s u
  target : u.targetThread = s.targetThread
  wants : ∀ pd, (u.inferiors pd).wants = (s.inferiors pd).wants
  debug : ∀ x, (u.kernel.tcb x).debug = (s.kernel.tcb x).debug

instance : Std.Refl HwKept := ⟨fun _ => ⟨Std.Refl.refl _, rfl, fun _ => rfl, fun _ => rfl⟩⟩

instance : IsTrans State HwKept := ⟨fun _ _ _ first second =>
  ⟨IsTrans.trans _ _ _ first.same second.same, second.target.trans first.target,
    fun pd => (second.wants pd).trans (first.wants pd), fun x =>
      (second.debug x).trans (first.debug x)⟩⟩

theorem hwKept_lay (s : State) (dest : Nat) (text : List Byte) : HwKept s (s.lay dest text) :=
  ⟨sameRegistry_of_eq rfl rfl, rfl, fun _ => rfl, fun _ => rfl⟩

theorem armThreads_outcome (pd : Fin maxPds) (bpNum : Nat) (setting : DebugSetting)
    (js : List (Fin maxThreads)) (s : State) :
    ∃ done armed k, (armThreads pd bpNum setting js).run s = .ok done (s.withKernel k) ∧
      Rewired s.kernel armed bpNum (some setting) k ∧ (∀ x ∈ armed, x ∈ (s.inferiors pd).tcbs js) ∧
      (done = true → armed = (s.inferiors pd).tcbs js) := by
  rcases @armThreads_cases _ bpNum setting pd js s with ⟨_, k, run, rewired⟩ |
    ⟨armed, refused, k, stopped, run, rewired⟩
  · exact ⟨true, _, k, run, rewired, fun x mem => mem, fun _ => rfl⟩
  · have inside := (List.prefix_append armed [refused]).trans stopped.order
    exact ⟨false, armed, k, run, rewired, fun x mem => inside.subset mem,
      fun finished => by cases finished⟩

/- The tables and the registers together. -/

theorem rewires_entry {s : State} {pd : Fin maxPds} {i : Inferior} {k : Kernel} {r : DebugRegister}
    {tcbs : List Word}
    {value entry : Option DebugSetting} (tables : SameButTables (s.inferiors pd) i)
    (wants : ∀ q, i.wants q = if q = r then entry else (s.inferiors pd).wants q)
    (rewired : Rewired s.kernel tcbs r.num value k) :
    Rewires s pd r tcbs value entry ((s.withKernel k).setInferior pd i) := by
  have same : SameRegistry s ((s.withKernel k).setInferior pd i) :=
    IsTrans.trans _ (s.withKernel k) _ (sameRegistry_of_eq rfl rfl)
      (PacketFrame.tables (R := SameRegistry) _ pd i tables)
  refine ⟨same, rfl, fun pd' q => ?_, rewired.debug⟩
  rw [setInferior_inferiors]
  by_cases here : pd' = pd
  · subst here
    rw [Function.update_self, wants]
    simp
  · rw [Function.update_of_ne here, if_neg fun both => here both.1]
    rfl

theorem rewires_kernel {s : State} {pd : Fin maxPds} {k : Kernel} {r : DebugRegister}
    {tcbs : List Word}
    {value : Option DebugSetting} (rewired : Rewired s.kernel tcbs r.num value k) :
    Rewires s pd r tcbs value ((s.inferiors pd).wants r) (s.withKernel k) := by
  refine ⟨sameRegistry_of_eq rfl rfl, rfl, fun pd' q => ?_, rewired.debug⟩
  split
  · rename_i here
    rw [here.1, here.2]
    rfl
  · rfl

theorem armRound_outcome {pd : Fin maxPds} {r : DebugRegister} {entry : Option DebugSetting}
    {f : Inferior → Inferior} (tables : ∀ i, SameButTables i (f i))
    (wants : ∀ i q, (f i).wants q = if q = r then entry else i.wants q)
    (setting : DebugSetting) {s : State} (free : (s.inferiors pd).wants r = none) :
    ∃ done armed u, (do
        let armed ← armThreads pd r.num setting (List.finRange maxThreads)
        if armed then
          modify fun s : State => s.setInferior pd (f (s.inferiors pd))
          return true
        else
          return false : Stub Bool).run s = .ok done u ∧
      (∀ x ∈ armed, x ∈ (s.inferiors pd).allTcbs) ∧
      (done = true → armed = (s.inferiors pd).allTcbs) ∧
      Rewires s pd r armed (some setting) (if done = true then entry else none) u := by
  obtain ⟨done, armed, k, run, rewired, inside, all⟩ :=
    armThreads_outcome pd r.num setting (List.finRange maxThreads) s
  cases done with
  | true =>
    exact ⟨true, armed, _, run_bind_ok run _, inside, all, rewires_entry (tables _)
      (wants _) rewired⟩
  | false =>
    have kept : Rewires s pd r armed (some setting) ((s.inferiors pd).wants r) (s.withKernel k) :=
      rewires_kernel rewired
    rw [free] at kept
    exact ⟨false, armed, _, run_bind_ok run _, inside, all, kept⟩

theorem disarmRound_outcome {pd : Fin maxPds} {r : DebugRegister} {entry : Option DebugSetting}
    {f : Inferior → Inferior} (tables : ∀ i, SameButTables i (f i))
    (wants : ∀ i q, (f i).wants q = if q = r then entry else i.wants q) (s : State) :
    ∃ u, (do
        modify fun s : State => s.setInferior pd (f (s.inferiors pd))
        disarmThreads pd r.num (List.finRange maxThreads)
        return true : Stub Bool).run s = .ok true u ∧
      Rewires s pd r (unrefused Machine.fails (disarmCall r.num) s.kernel.calls
        (s.inferiors pd).allTcbs) none entry u := by
  obtain ⟨k, run, rewired⟩ := disarmThreads_outcome pd r.num (List.finRange maxThreads)
    (s.setInferior pd (f (s.inferiors pd)))
  have threads : (f (s.inferiors pd)).tcbs (List.finRange maxThreads) =
      (s.inferiors pd).allTcbs := by
    obtain ⟨sw, hb, hw, same⟩ := tables (s.inferiors pd)
    rw [same]
    rfl
  rw [setInferior_inferiors, Function.update_self, threads] at rewired
  exact ⟨(s.withKernel k).setInferior pd (f (s.inferiors pd)), run_bind_ok run _,
    rewires_entry (tables _) (wants _) rewired⟩

/-- A set finds no free entry, or arms TCBs of the inferior at one; it is done once it has armed
    all of them. -/
theorem HwStop.set_outcome (stop : HwStop) (pd : Fin maxPds) (s : State) :
    (stop.set pd).run s = .ok false s ∨
    ∃ r done armed u, (stop.set pd).run s = .ok done u ∧ (s.inferiors pd).wants r = none ∧
      (∀ x ∈ armed, x ∈ (s.inferiors pd).allTcbs) ∧
      (done = true → armed = (s.inferiors pd).allTcbs) ∧
      Rewires s pd r armed (some stop.setting) (if done = true then stop.armed else none) u := by
  cases stop with
  | breakpoint bp =>
    unfold HwStop.set setHardwareBreakpoint
    dsimp only
    rw [run_bind_ok (EStateM.run_get s)]
    cases free : firstSlot fun n => ((s.inferiors pd).hardwareBreakpoints n).addr == 0 with
    | none => exact Or.inl rfl
    | some n =>
      have unused : (s.inferiors pd).wants (.inl n) = none :=
        if_pos (by simpa using (firstSlot_some free).1)
      obtain ⟨done, armed, u, run, outcome⟩ :=
        @armRound_outcome _ pd (.inl n) bp.armed (fun i => i.setHwBreak n bp)
        (fun _ => ⟨_, _, _, rfl⟩) (fun i => wants_setHwBreak i n bp) bp.setting s unused
      exact Or.inr ⟨.inl n, done, armed, u, run, unused, outcome⟩
  | watchpoint wp =>
    unfold HwStop.set setHardwareWatchpoint
    dsimp only
    rw [run_bind_ok (EStateM.run_get s)]
    cases free : firstSlot fun n => ((s.inferiors pd).hardwareWatchpoints n).addr == 0 with
    | none => exact Or.inl rfl
    | some n =>
      have unused : (s.inferiors pd).wants (.inr n) = none :=
        if_pos (by simpa using (firstSlot_some free).1)
      obtain ⟨done, armed, u, run, outcome⟩ :=
        @armRound_outcome _ pd (.inr n) wp.armed (fun i => i.setHwWatch n wp)
        (fun _ => ⟨_, _, _, rfl⟩) (fun i => wants_setHwWatch i n wp) wp.setting s unused
      exact Or.inr ⟨.inr n, done, armed, u, run, unused, outcome⟩

/-- A removal finds no entry, or frees the first and clears the TCBs whose calls are accepted. -/
theorem HwStop.unset_outcome (stop : HwStop) (pd : Fin maxPds) (s : State) :
    (stop.unset pd).run s = .ok false s ∨
    ∃ r u, (s.inferiors pd).firstEntry stop = some r ∧ (stop.unset pd).run s = .ok true u ∧
      (s.inferiors pd).wants r = stop.armed ∧
      Rewires s pd r (unrefused Machine.fails (disarmCall r.num) s.kernel.calls
        (s.inferiors pd).allTcbs) none none u := by
  cases stop with
  | breakpoint bp =>
    unfold HwStop.unset unsetHardwareBreakpoint Inferior.firstEntry
    dsimp only
    rw [run_bind_ok (EStateM.run_get s)]
    cases found : firstSlot fun n => ((s.inferiors pd).hardwareBreakpoints n).addr == bp.addr with
    | none => exact Or.inl rfl
    | some n =>
      have same : ((s.inferiors pd).hardwareBreakpoints n).addr = bp.addr := by
        simpa using (firstSlot_some found).1
      have entry : (s.inferiors pd).wants (.inl n) = (HwStop.breakpoint bp).armed := by
        have whole : (s.inferiors pd).hardwareBreakpoints n = bp := congrArg HwBreak.mk same
        rw [Inferior.wants, whole]
        rfl
      obtain ⟨u, run, rewires⟩ :=
        @disarmRound_outcome _ pd (.inl n) none (fun i => i.setHwBreak n ⟨0⟩)
        (fun _ => ⟨_, _, _, rfl⟩) (fun i => wants_setHwBreak i n ⟨0⟩) s
      exact Or.inr ⟨.inl n, u, rfl, run, entry, rewires⟩
  | watchpoint wp =>
    unfold HwStop.unset unsetHardwareWatchpoint Inferior.firstEntry
    dsimp only
    rw [run_bind_ok (EStateM.run_get s)]
    cases found : firstSlot fun n => (s.inferiors pd).hardwareWatchpoints n == wp with
    | none => exact Or.inl rfl
    | some n =>
      have same : (s.inferiors pd).hardwareWatchpoints n = wp := by
        simpa using (firstSlot_some found).1
      have entry : (s.inferiors pd).wants (.inr n) = (HwStop.watchpoint wp).armed := by
        rw [Inferior.wants, same]
        rfl
      obtain ⟨u, run, rewires⟩ :=
        @disarmRound_outcome _ pd (.inr n) none (fun i => i.setHwWatch n { wp with addr := 0 })
        (fun _ => ⟨_, _, _, rfl⟩) (fun i => wants_setHwWatch i n { wp with addr := 0 }) s
      exact Or.inr ⟨.inr n, u, rfl, run, entry, rewires⟩

/- Software breakpoints. -/

theorem hwKept_invoke {call : KernelCall} (other : ∀ k : Kernel, (k.record call).tcb = k.tcb) :
    Stays HwKept (invoke call) :=
  fun s => ⟨sameRegistry_of_eq rfl rfl, rfl, fun _ => rfl, fun x =>
    congrArg Tcb.debug (congrFun (other s.kernel) x)⟩

theorem record_memory_tcb {call : KernelCall} (effect : ∀ k, (call.effect k).tcb = k.tcb)
    (k : Kernel) :
    (k.record call).tcb = k.tcb := by
  cases fails : Machine.fails k.calls call with
  | false =>
    rw [record_of_ok fails]
    exact effect k
  | true => rw [record_of_fail fails]

theorem hwKept_write (vspace address value : Word) :
    Stays HwKept (vspaceWriteWord vspace address value) :=
  hwKept_invoke (record_memory_tcb fun _ => rfl)

theorem hwKept_read (vspace address : Word) : Stays HwKept (vspaceReadWord vspace address) :=
  stays_bind (hwKept_invoke (record_memory_tcb fun _ => rfl)) fun _ =>
    stays_bind stays_get fun _ => stays_pure _

theorem hwKept_swBreak (pd : Fin maxPds) (i : Fin maxSwBreaks) (entry : SwBreak) (s : State) :
    HwKept s (s.setInferior pd ((s.inferiors pd).setSwBreak i entry)) := by
  refine ⟨PacketFrame.tables (R := SameRegistry) s pd _ ⟨_, _, _, rfl⟩, rfl, fun pd' =>
    ?_, fun _ => rfl⟩
  rw [setInferior_inferiors]
  by_cases here : pd' = pd
  · subst here
    rw [Function.update_self]
    funext r
    cases r <;> rfl
  · rw [Function.update_of_ne here]

theorem hwKept_setSoftware (pd : Fin maxPds) (address : Word) :
    Stays HwKept (setSoftwareBreakpoint pd address) := by
  unfold setSoftwareBreakpoint
  refine stays_bind stays_get fun s => stays_bind (hwKept_read _ _) fun read => ?_
  cases read with
  | none => exact stays_pure _
  | some value =>
    refine stays_bind (hwKept_write _ _ _) fun _ => stays_ite (stays_pure _) ?_
    cases firstSlot fun i => ((s.inferiors pd).softwareBreakpoints i).addr == 0 with
    | none => exact stays_bind (hwKept_write _ _ _) fun _ => stays_pure _
    | some i => exact stays_bind (stays_modify (hwKept_swBreak pd i _)) fun _ => stays_pure _

theorem hwKept_unsetSoftware (pd : Fin maxPds) (address : Word) :
    Stays HwKept (unsetSoftwareBreakpoint pd address) := by
  unfold unsetSoftwareBreakpoint
  refine stays_bind stays_get fun s => ?_
  cases firstSlot fun i => ((s.inferiors pd).softwareBreakpoints i).addr == address with
  | none => exact stays_pure _
  | some i =>
    refine stays_bind (hwKept_write _ _ _) fun _ => stays_ite (stays_pure _) ?_
    exact stays_bind (stays_modify (hwKept_swBreak pd i _)) fun _ => stays_pure _

/- Packets. -/

omit [Machine] in
def stopOf (d : Byte) (addr size : Word) : HwStop :=
  if d = chr '1' then .breakpoint ⟨addr⟩
  else if d = chr '2' then .watchpoint ⟨addr, size, .breakOnWrite⟩
  else if d = chr '3' then .watchpoint ⟨addr, size, .breakOnRead⟩
  else .watchpoint ⟨addr, size, .breakOnReadWrite⟩

def stopCall (c d : Byte) (addr size : Word) (pd : Fin maxPds) : Stub Bool :=
  if d = chr '0' then
    if c = chr 'Z' then setSoftwareBreakpoint pd addr else unsetSoftwareBreakpoint pd addr
  else
    if c = chr 'Z' then (stopOf d addr size).set pd else (stopOf d addr size).unset pd

omit [Machine] in
theorem digit_cases {d : Byte} (range : chr '0' ≤ d ∧ d ≤ chr '4') :
    d = chr '0' ∨ d = chr '1' ∨ d = chr '2' ∨ d = chr '3' ∨ d = chr '4' := by
  obtain ⟨low, high⟩ := range
  have low' : 48 ≤ d.toNat := low
  have high' : d.toNat ≤ 52 := high
  have eq (k : Char) (h : d.toNat = (chr k).toNat) : d = chr k := BitVec.eq_of_toNat_eq h
  have range : d.toNat = 48 ∨ d.toNat = 49 ∨ d.toNat = 50 ∨ d.toNat = 51 ∨ d.toNat = 52 := by omega
  rcases range with h | h | h | h | h
  · exact Or.inl (eq '0' h)
  · exact Or.inr (Or.inl (eq '1' h))
  · exact Or.inr (Or.inr (Or.inl (eq '2' h)))
  · exact Or.inr (Or.inr (Or.inr (Or.inl (eq '3' h))))
  · exact Or.inr (Or.inr (Or.inr (Or.inr (eq '4' h))))

theorem configure_run {c d : Byte} (kind : c = chr 'Z' ∨ c = chr 'z')
    (range : chr '0' ≤ d ∧ d ≤ chr '4') {rest : List Byte}
    {addr size : Word} (parse : parseBreakpointFormat (c :: d :: rest) = .ok (some (addr, size)))
    (s : State) :
    (handleConfigureDebugEvents (c :: d :: rest)).run s = (do
      let pd ← targetInferior
      let done ← stopCall c d addr size pd
      strlcpy 0 (if done then str "OK" else str "E01") bufsize : Stub Unit).run s := by
  unfold handleConfigureDebugEvents
  rw [run_bind_ok (liftParse_run parse s)]
  rcases kind with rfl | rfl
  · rcases digit_cases range with rfl | rfl | rfl | rfl | rfl
    · cases rest <;> rfl
    · cases rest <;> rfl
    · rfl
    · rfl
    · rfl
  · rcases digit_cases range with rfl | rfl | rfl | rfl | rfl
    · cases rest <;> rfl
    · cases rest <;> rfl
    · rfl
    · rfl
    · rfl

def State.targetPd (s : State) : Option (Fin maxPds) :=
  s.targetThread.bind fun t => (s.thread t).inferior

theorem targetPd_of_same {s u : State} (same : SameRegistry s u)
    (target : u.targetThread = s.targetThread) : u.targetPd = s.targetPd := by
  unfold State.targetPd
  rw [target]
  simp only [same.owner]

omit [Machine] in
theorem parseBreakpointFormat_range {c d : Byte} {rest : List Byte} {r : Option (Word × Word)}
    (parse : parseBreakpointFormat (c :: d :: rest) = .ok r) : chr '0' ≤ d ∧ d ≤ chr '4' := by
  unfold parseBreakpointFormat at parse
  obtain ⟨_, head, parse₁⟩ := bind_ok parse
  obtain ⟨_, _, parse₂⟩ := bind_ok parse₁
  obtain ⟨d', second, parse₃⟩ := bind_ok parse₂
  obtain ⟨_, range, _⟩ := bind_ok parse₃
  cases second
  by_contra outside
  rw [assertParse, if_neg outside] at range
  cases range

theorem stopPacket_returns {s u : State} {c d : Byte} (kind : c = chr 'Z' ∨ c = chr 'z')
    {rest : List Byte} (returns : (gdbHandlePacket (c :: d :: rest)).run s = .ok false u) :
    (parseBreakpointFormat (c :: d :: rest) = .ok none ∧ u = (s.lay 0 []).lay 0 (str "E01")) ∨
    ∃ addr size pd done v, parseBreakpointFormat (c :: d :: rest) = .ok (some (addr, size)) ∧
    s.targetPd = some pd ∧
      (stopCall c d addr size pd).run (s.lay 0 []) = .ok done v ∧
      u = v.lay 0 (if done then str "OK" else str "E01") := by
  rw [dispatch_debugEvents kind, run_bind_ok (put_zero_run (by decide) s)] at returns
  obtain ⟨_, v, handled, last⟩ := ok_bind_run returns
  cases last
  cases parse : parseBreakpointFormat (c :: d :: rest) with
  | error f =>
    unfold handleConfigureDebugEvents at handled
    rw [parse] at handled
    cases handled
  | ok parsed =>
    cases parsed with
    | none =>
      unfold handleConfigureDebugEvents at handled
      rw [run_bind_ok (liftParse_run parse _)] at handled
      cases (strlcpy_run 0 (str "E01") bufsize (s.lay 0 []) (by decide)
        (by decide)).symm.trans handled
      exact Or.inl ⟨rfl, rfl⟩
    | some pair =>
      obtain ⟨addr, size⟩ := pair
      rw [configure_run kind (parseBreakpointFormat_range parse) parse] at handled
      obtain ⟨pd, w, found, rest₁⟩ := ok_bind_run handled
      obtain ⟨done, v', made, rest₂⟩ := ok_bind_run rest₁
      unfold targetInferior at found
      obtain ⟨t, target, owned⟩ :=
        deref_bind_ok (found : (deref (s.lay 0 []).targetThread >>= fun t =>
        deref ((s.lay 0 []).thread t).inferior).run (s.lay 0 []) = _)
      cases owner : ((s.lay 0 []).thread t).inferior with
      | none =>
        rw [owner] at owned
        cases owned
      | some pd' =>
        rw [owner] at owned
        cases owned
        have reply (text : List Byte) (short : text.length < bufsize) :=
          strlcpy_run 0 text bufsize v' short (by omega)
        have known : s.targetPd = some pd := by
          rw [State.targetPd, show s.targetThread = some t from target]
          exact owner
        refine Or.inr ⟨addr, size, pd, done, v', rfl, known, made, ?_⟩
        cases done with
        | true =>
          cases (reply (str "OK") (by decide)).symm.trans rest₂
          rfl
        | false =>
          cases (reply (str "E01") (by decide)).symm.trans rest₂
          rfl

/- Where a stop is armed. -/

/-- No entry in use and no register of a live thread is for the stop. -/
structure StopAbsent (s : State) (setting : DebugSetting) : Prop where
  entries : ∀ pd r, (s.inferiors pd).wants r ≠ some setting
  registers : ∀ t, s.live t = true → ∀ m, (s.kernel.tcb (s.thread t).tcb).debug m ≠ some setting

def Inferior.entriesFor (i : Inferior) (setting : DebugSetting) : Finset DebugRegister :=
  Finset.univ.filter fun r => i.wants r = some setting

theorem mem_entriesFor {i : Inferior} {setting : DebugSetting} {r : DebugRegister} :
    r ∈ i.entriesFor setting ↔ i.wants r = some setting := by simp [Inferior.entriesFor]

/-- The stop has `n` entries, all of this inferior; the registers they stand for are armed in all
    its TCBs and no others are. -/
structure ArmedTimes (s : State) (pd : Fin maxPds) (setting : DebugSetting) (n : Nat) : Prop where
  count : ((s.inferiors pd).entriesFor setting).card = n
  elsewhere : ∀ pd', pd' ≠ pd → ∀ r, (s.inferiors pd').wants r ≠ some setting
  registers : ∀ t, s.live t = true → ∀ m, (s.kernel.tcb (s.thread t).tcb).debug m = some setting →
    (s.thread t).tcb ∈ (s.inferiors pd).allTcbs ∧ ∃ r : DebugRegister, m = r.num ∧
    (s.inferiors pd).wants r = some setting
  held : ∀ x ∈ (s.inferiors pd).allTcbs, ∀ r, (s.inferiors pd).wants r = some setting →
    (s.kernel.tcb x).debug r.num = some setting

theorem allTcbs_of_same {s u : State} (same : SameRegistry s u) (pd : Fin maxPds) (x : Word) :
    x ∈ (u.inferiors pd).allTcbs ↔ x ∈ (s.inferiors pd).allTcbs := by
  rw [mem_allTcbs, mem_allTcbs]
  refine exists_congr fun slot => ?_
  have enabled := same.threadEnabled ⟨pd, slot⟩
  have tcb := same.tcb ⟨pd, slot⟩
  unfold State.thread at enabled tcb
  rw [enabled, tcb]

theorem armedTimes_zero {s : State} {setting : DebugSetting} (absent : StopAbsent s setting)
    (pd : Fin maxPds) :
    ArmedTimes s pd setting 0 := by
  refine ⟨?_, fun pd' _ => absent.entries pd', fun t live m here =>
    absurd here (absent.registers t live m),
    fun x _ r here => absurd here (absent.entries pd r)⟩
  apply Finset.card_eq_zero.mpr
  apply Finset.filter_eq_empty_iff.mpr
  exact fun r _ => absent.entries pd r

section
variable {s u : State} {pd : Fin maxPds} {setting : DebugSetting} {n : Nat}
    (armed : ArmedTimes s pd setting n)
include armed

theorem ArmedTimes.kept (kept : HwKept s u) : ArmedTimes u pd setting n := by
  have entries : (u.inferiors pd).entriesFor setting = (s.inferiors pd).entriesFor setting := by
    unfold Inferior.entriesFor
    rw [kept.wants]
  refine ⟨by rw [entries, armed.count], fun pd' other r => ?_, fun t live m here => ?_, fun x mem r here => ?_⟩
  · rw [kept.wants]
    exact armed.elsewhere pd' other r
  · rw [kept.same.live] at live
    rw [kept.same.tcb, kept.debug] at here
    rw [kept.same.tcb, allTcbs_of_same kept.same, kept.wants]
    exact armed.registers t live m here
  · rw [kept.wants] at here
    rw [kept.debug]
    exact armed.held x ((allTcbs_of_same kept.same pd x).mp mem) r here

theorem ArmedTimes.other {r : DebugRegister} {tcbs : List Word} {value entry : Option DebugSetting}
    (rewires : Rewires s pd r tcbs value entry u) (before : (s.inferiors pd).wants r ≠ some setting)
    (newValue : value ≠ some setting) (newEntry : entry ≠ some setting) :
    ArmedTimes u pd setting n := by
  have wants (pd' : Fin maxPds) (q : DebugRegister) :
      (u.inferiors pd').wants q = some setting ↔ (s.inferiors pd').wants q = some setting := by
    rw [rewires.wants]
    split
    · rename_i here
      rw [here.1, here.2]
      exact iff_of_false newEntry before
    · rfl
  have debug (x : Word) (m : Nat) (here : (u.kernel.tcb x).debug m = some setting) :
      (s.kernel.tcb x).debug m = some setting := by
    rw [rewires.debug] at here
    split at here
    · exact absurd here newValue
    · exact here
  have entries : (u.inferiors pd).entriesFor setting = (s.inferiors pd).entriesFor setting := by
    unfold Inferior.entriesFor
    simp only [wants]
  refine ⟨by rw [entries, armed.count], fun pd' other q => ?_, fun t live m here => ?_, fun x mem q here => ?_⟩
  · rw [ne_eq, wants]
    exact armed.elsewhere pd' other q
  · rw [rewires.same.live] at live
    rw [rewires.same.tcb] at here ⊢
    obtain ⟨mem, q, place, asked⟩ := armed.registers t live m (debug _ m here)
    exact ⟨(allTcbs_of_same rewires.same pd _).mpr mem, q, place, (wants pd q).mpr asked⟩
  · have asked := (wants pd q).mp here
    have apart : ¬ (x ∈ tcbs ∧ q.num = r.num) := by
      rintro ⟨_, same⟩
      rw [DebugRegister.num_inj same] at asked
      exact before asked
    rw [rewires.debug, if_neg apart]
    exact armed.held x ((allTcbs_of_same rewires.same pd x).mp mem) q asked

theorem ArmedTimes.again {r : DebugRegister} (free : (s.inferiors pd).wants r = none)
    (rewires : Rewires s pd r (s.inferiors pd).allTcbs (some setting) (some setting) u) :
    ArmedTimes u pd setting (n + 1) := by
  have unused : r ∉ (s.inferiors pd).entriesFor setting := by
    rw [mem_entriesFor, free]
    exact nofun
  have wants (q : DebugRegister) : (u.inferiors pd).wants q = some setting ↔ q = r ∨
      (s.inferiors pd).wants q = some setting := by
    rw [rewires.wants]
    by_cases here : q = r
    · simp [here]
    · simp [here]
  have entries : (u.inferiors pd).entriesFor setting =
      insert r ((s.inferiors pd).entriesFor setting) := by
    ext q
    rw [Finset.mem_insert, mem_entriesFor, mem_entriesFor, wants]
  refine ⟨by
    rw [entries, Finset.card_insert_of_notMem unused, armed.count], fun pd' other q => ?_,
      fun t live m here => ?_,
    fun x mem q here => ?_⟩
  · rw [rewires.wants, if_neg fun both => other both.1]
    exact armed.elsewhere pd' other q
  · rw [rewires.same.live] at live
    rw [rewires.same.tcb, rewires.debug] at here
    rw [rewires.same.tcb, allTcbs_of_same rewires.same]
    split at here
    · rename_i hit
      exact ⟨hit.1, r, hit.2, (wants r).mpr (Or.inl rfl)⟩
    · obtain ⟨mem, q, place, asked⟩ := armed.registers t live m here
      exact ⟨mem, q, place, (wants q).mpr (Or.inr asked)⟩
  · have mem' := (allTcbs_of_same rewires.same pd x).mp mem
    rw [rewires.debug]
    split
    · rfl
    · rename_i miss
      rcases (wants q).mp here with rfl | asked
      · exact absurd ⟨mem', rfl⟩ miss
      · exact armed.held x mem' q asked

/-- A removal leaves nothing armed exactly when there was one entry, and every TCB is cleared. -/
theorem ArmedTimes.removed_iff (ok : RegistryOk s) {r : DebugRegister}
    (asked : (s.inferiors pd).wants r = some setting)
    {cleared : List Word} (rewires : Rewires s pd r cleared none none u) :
    StopAbsent u setting ↔ n = 1 ∧ ∀ x ∈ (s.inferiors pd).allTcbs, x ∈ cleared := by
  have first : r ∈ (s.inferiors pd).entriesFor setting := mem_entriesFor.mpr asked
  constructor
  · intro absent
    constructor
    · by_contra more
      rw [← armed.count] at more
      have several : 1 < ((s.inferiors pd).entriesFor setting).card := by
        have positive := Finset.card_pos.mpr ⟨r, first⟩
        omega
      obtain ⟨q, mem, other⟩ := Finset.exists_mem_ne several r
      apply absent.entries pd q
      rw [rewires.wants, if_neg fun both => other both.2]
      exact mem_entriesFor.mp mem
    · intro x mem
      by_contra kept
      obtain ⟨slot, enabled, tcb⟩ := mem_allTcbs.mp mem
      have live : u.live ⟨pd, slot⟩ = true := (rewires.same.live _).trans (ok.live enabled)
      apply absent.registers ⟨pd, slot⟩ live r.num
      rw [rewires.same.tcb, show (s.thread ⟨pd, slot⟩).tcb = x from tcb, rewires.debug,
        if_neg fun both => kept both.1]
      exact armed.held x mem r asked
  · rintro ⟨rfl, all⟩
    have only {q : DebugRegister} (here : (s.inferiors pd).wants q = some setting) : q = r :=
      Finset.card_le_one.mp (le_of_eq armed.count) q (mem_entriesFor.mpr here) r first
    constructor
    · intro pd' q
      rw [rewires.wants]
      split
      · exact nofun
      · rename_i apart
        intro here
        by_cases same : pd' = pd
        · subst same
          exact apart ⟨rfl, only here⟩
        · exact armed.elsewhere pd' same q here
    · intro t live m
      rw [rewires.same.live] at live
      rw [rewires.same.tcb, rewires.debug]
      split
      · exact nofun
      · rename_i apart
        intro here
        obtain ⟨mem, q, place, asked'⟩ := armed.registers t live m here
        rw [only asked'] at place
        exact apart ⟨all _ mem, place⟩

end

/- Sessions. -/

omit [Machine] in
def HwStop.digit : HwStop → Byte
  | .breakpoint _ => chr '1'
  | .watchpoint ⟨_, _, .breakOnWrite⟩ => chr '2'
  | .watchpoint ⟨_, _, .breakOnRead⟩ => chr '3'
  | .watchpoint ⟨_, _, .breakOnReadWrite⟩ => chr '4'

structure StopPacket (c : Byte) (stop : HwStop) (input : List Byte) : Prop where
  head : ∃ rest, input = c :: stop.digit :: rest
  parse : ∃ size, parseBreakpointFormat input = .ok (some (stop.addr, size)) ∧
    ∀ wp, stop = .watchpoint wp → size = wp.size

structure OtherPacket (addr : Word) (input : List Byte) : Prop where
  head : ∃ c rest, input = c :: rest ∧ (c = chr 'Z' ∨ c = chr 'z')
  parse : ∀ a size, parseBreakpointFormat input = .ok (some (a, size)) → a ≠ addr

/-- Packets from one state to another, of which `n` are the packet `z` and reply OK, and the others
    are not for the address. -/
inductive StopSession (z : List Byte) (addr : Word) (s : State) : Nat → State → Prop where
  | start : StopSession z addr s 0 s
  | again {n : Nat} {t u : State} (earlier : StopSession z addr s n t)
      (returns : (gdbHandlePacket z).run t = .ok false u) (replies : u.reply = str "OK") :
        StopSession z addr s (n + 1) u
  | other {n : Nat} {t u : State} (earlier : StopSession z addr s n t) {input : List Byte}
      (other : OtherPacket addr input)
      (returns : (gdbHandlePacket input).run t = .ok false u) : StopSession z addr s n u

theorem reachable_packet {s u : State} (reachable : Reachable s) {input : List Byte} {b : Bool}
    (returns : (gdbHandlePacket input).run s = .ok b u) : Reachable u :=
  .step (.packet input) reachable (run_bind_ok returns _)

theorem StopSession.reachable {z : List Byte} {addr : Word} {s t : State} {n : Nat}
    (session : StopSession z addr s n t) (start : Reachable s) : Reachable t := by
  induction session with
  | start => exact start
  | again _ returns _ ih => exact reachable_packet ih returns
  | other _ _ returns ih => exact reachable_packet ih returns

omit [Machine] in
theorem armed_address {stop : HwStop} {setting : DebugSetting}
    (other : stop.addr ≠ setting.address) :
    stop.armed ≠ some setting := by
  unfold HwStop.armed
  split
  · exact nofun
  · rintro here
    rw [← setting_address stop, Option.some_inj.mp here] at other
    exact other rfl

omit [Machine] in
theorem stopOf_addr (d : Byte) (addr size : Word) : (stopOf d addr size).addr = addr := by
  unfold stopOf
  split
  · rfl
  · split
    · rfl
    · split <;> rfl

omit [Machine] in
theorem stopOf_digit {stop : HwStop} {size : Word} (fits : ∀ wp, stop = .watchpoint wp →
      size = wp.size) :
    stopOf stop.digit stop.addr size = stop ∧ stop.digit ≠ chr '0' := by
  cases stop with
  | breakpoint bp => exact ⟨rfl, (by decide : chr '1' ≠ chr '0')⟩
  | watchpoint wp =>
    obtain rfl := fits wp rfl
    obtain ⟨addr, size, type⟩ := wp
    cases type with
    | breakOnRead => exact ⟨rfl, (by decide : chr '3' ≠ chr '0')⟩
    | breakOnWrite => exact ⟨rfl, (by decide : chr '2' ≠ chr '0')⟩
    | breakOnReadWrite => exact ⟨rfl, (by decide : chr '4' ≠ chr '0')⟩

theorem hwKept_packet {s v : State} (kept : HwKept (s.lay 0 []) v) (text : List Byte) :
    HwKept s (v.lay 0 text) :=
  IsTrans.trans _ _ _ (hwKept_lay s 0 []) (IsTrans.trans _ _ _ kept (hwKept_lay v 0 text))

theorem rewires_packet {s v : State} {pd : Fin maxPds} {r : DebugRegister} {tcbs : List Word}
    {value entry : Option DebugSetting} (rewires : Rewires (s.lay 0 []) pd r tcbs value entry v)
    (text : List Byte) :
    Rewires s pd r tcbs value entry (v.lay 0 text) :=
  ⟨IsTrans.trans _ _ _ (sameRegistry_of_eq rfl rfl : SameRegistry s (s.lay 0 []))
      (IsTrans.trans _ _ _ rewires.same (sameRegistry_of_eq rfl rfl)),
    rewires.target, rewires.wants, rewires.debug⟩

def ArmedForTarget (s : State) (setting : DebugSetting) (n : Nat) : Prop :=
  ∀ pd, s.targetPd = some pd → ArmedTimes s pd setting n

theorem other_keeps {s u : State} {setting : DebugSetting} {n : Nat}
    (armed : ArmedForTarget s setting n)
    {input : List Byte} (other : OtherPacket setting.address input)
    (returns : (gdbHandlePacket input).run s = .ok false u) : ArmedForTarget u setting n := by
  have ofKept (kept : HwKept s u) : ArmedForTarget u setting n := by
    intro pd known
    rw [targetPd_of_same kept.same kept.target] at known
    exact (armed pd known).kept kept
  obtain ⟨⟨c, rest, rfl, kind⟩, elsewhere⟩ := other
  cases rest with
  | nil =>
    -- no digit: the parser reads past the end
    rw [dispatch_debugEvents kind, run_bind_ok (put_zero_run (by decide) s)] at returns
    rcases kind with rfl | rfl
    · cases returns
    · cases returns
  | cons d rest =>
    rcases stopPacket_returns kind returns with ⟨_, rfl⟩ |
      ⟨addr, size, pd, done, v, parse, known, made, rfl⟩
    · exact ofKept (hwKept_packet (Std.Refl.refl _) _)
    have ne : addr ≠ setting.address := elsewhere addr size parse
    have ofRewires {r : DebugRegister} {tcbs : List Word} {value entry : Option DebugSetting}
        (rewires : Rewires (s.lay 0 []) pd r tcbs value entry v)
          (before : (s.inferiors pd).wants r ≠ some setting)
        (newValue : value ≠ some setting) (newEntry : entry ≠ some setting) :
        ArmedForTarget (v.lay 0 (if done then str "OK" else str "E01")) setting n := by
      have whole := rewires_packet rewires (if done then str "OK" else str "E01")
      intro pd' known'
      rw [targetPd_of_same whole.same whole.target, known] at known'
      cases known'
      exact (armed pd known).other whole before newValue newEntry
    have ofStays {m : Stub Bool} (stays : Stays HwKept m) (run : m.run (s.lay 0 []) = .ok done v) :
        ArmedForTarget (v.lay 0 (if done then str "OK" else str "E01")) setting n := by
      have kept := stays (s.lay 0 [])
      rw [after_ok run] at kept
      exact ofKept (hwKept_packet kept _)
    unfold stopCall at made
    by_cases software : d = chr '0'
    · rw [if_pos software] at made
      split at made
      · exact ofStays (hwKept_setSoftware pd addr) made
      · exact ofStays (hwKept_unsetSoftware pd addr) made
    · rw [if_neg software] at made
      have apart : (stopOf d addr size).addr ≠ setting.address := by rwa [stopOf_addr]
      have otherValue : some (stopOf d addr size).setting ≠ some setting := by
        intro here
        rw [← setting_address, Option.some_inj.mp here] at apart
        exact apart rfl
      split at made
      · rcases (stopOf d addr size).set_outcome pd (s.lay 0 []) with run |
          ⟨r, done', tcbs, w, run, free, _, _, rewires⟩
        · cases run.symm.trans made
          exact ofKept (hwKept_packet (Std.Refl.refl _) _)
        · cases run.symm.trans made
          refine ofRewires rewires ?_ otherValue ?_
          · rw [show (s.inferiors pd).wants r = none from free]
            exact nofun
          · split
            · exact armed_address apart
            · exact nofun
      · rcases (stopOf d addr size).unset_outcome pd (s.lay 0 []) with run |
          ⟨r, w, _, run, entry, rewires⟩
        · cases run.symm.trans made
          exact ofKept (hwKept_packet (Std.Refl.refl _) _)
        · cases run.symm.trans made
          refine ofRewires rewires ?_ nofun nofun
          rw [show (s.inferiors pd).wants r = _ from entry]
          exact armed_address apart

theorem stopPacket_call {c : Byte} (kind : c = chr 'Z' ∨ c = chr 'z') {stop : HwStop}
    {input : List Byte} (packet : StopPacket c stop input) {s u : State}
    (returns : (gdbHandlePacket input).run s = .ok false u) (replies : u.reply = str "OK") :
    ∃ pd v, s.targetPd = some pd ∧ u = v.lay 0 (str "OK") ∧
      (if c = chr 'Z' then stop.set pd else stop.unset pd).run (s.lay 0 []) = .ok true v := by
  obtain ⟨⟨rest, rfl⟩, size, parse, fits⟩ := packet
  obtain ⟨whole, hardware⟩ := stopOf_digit fits
  rcases stopPacket_returns kind returns with ⟨rejected, _⟩ |
    ⟨addr, size', pd, done, v, parse', known, made, rfl⟩
  · cases parse.symm.trans rejected
  · cases parse.symm.trans parse'
    have finished : done = true := by
      by_contra failed
      rw [if_neg failed, lay_reply _ (str "E01") (by decide) (by decide)] at replies
      exact absurd replies (by decide)
    subst finished
    unfold stopCall at made
    rw [if_neg hardware, whole] at made
    exact ⟨pd, v, known, rfl, made⟩

theorem again_keeps {stop : HwStop} (nonzero : stop.addr ≠ 0) {z : List Byte}
    (packet : StopPacket (chr 'Z') stop z)
    {s u : State} {n : Nat} (armed : ArmedForTarget s stop.setting n)
    (returns : (gdbHandlePacket z).run s = .ok false u) (replies : u.reply = str "OK") :
    ArmedForTarget u stop.setting (n + 1) := by
  obtain ⟨pd, v, known, rfl, made⟩ := stopPacket_call (Or.inl rfl) packet returns replies
  rw [if_pos rfl] at made
  rcases stop.set_outcome pd (s.lay 0 []) with full | ⟨r, done, tcbs, w, run, free, _, all, rewires⟩
  · cases full.symm.trans made
  · cases run.symm.trans made
    rw [if_pos rfl, all rfl, HwStop.armed, if_neg nonzero] at rewires
    have whole := rewires_packet rewires (str "OK")
    intro pd' known'
    rw [targetPd_of_same whole.same whole.target, known] at known'
    cases known'
    exact (armed pd known).again free whole

theorem StopSession.armed {stop : HwStop} (nonzero : stop.addr ≠ 0) {z : List Byte}
    (packet : StopPacket (chr 'Z') stop z)
    {s t : State} {n : Nat} (absent : StopAbsent s stop.setting)
    (session : StopSession z stop.addr s n t) :
    ArmedForTarget t stop.setting n := by
  induction session with
  | start => exact fun pd _ => armedTimes_zero absent pd
  | again _ returns replies ih => exact again_keeps nonzero packet ih returns replies
  | other _ other returns ih =>
    rw [← setting_address] at other
    exact other_keeps ih other returns

def State.disarmable (s : State) (pd : Fin maxPds) (r : DebugRegister) : List Word :=
  unrefused Machine.fails (disarmCall r.num) s.kernel.calls (s.inferiors pd).allTcbs

theorem removal {stop : HwStop} {y : List Byte} (packet : StopPacket (chr 'z') stop y) {s u : State}
    (returns : (gdbHandlePacket y).run s = .ok false u) (replies : u.reply = str "OK") :
    ∃ pd r, s.targetPd = some pd ∧ (s.inferiors pd).firstEntry stop = some r ∧
    (s.inferiors pd).wants r = stop.armed ∧
      Rewires s pd r (s.disarmable pd r) none none u := by
  obtain ⟨pd, v, known, rfl, made⟩ := stopPacket_call (Or.inr rfl) packet returns replies
  rw [if_neg (by decide)] at made
  rcases stop.unset_outcome pd (s.lay 0 []) with missing | ⟨r, w, found, run, entry, rewires⟩
  · cases missing.symm.trans made
  · cases run.symm.trans made
    exact ⟨pd, r, known, found, entry, rewires_packet rewires (str "OK")⟩

theorem wants_address {i : Inferior} {q : DebugRegister} {setting : DebugSetting}
    (asked : i.wants q = some setting) : setting.address ≠ 0 := by
  cases q with
  | inl n =>
    obtain ⟨used, here⟩ := Option.ite_none_left_eq_some.mp asked
    cases here
    exact used
  | inr n =>
    obtain ⟨used, here⟩ := Option.ite_none_left_eq_some.mp asked
    cases here
    exact used

/-- No entry stands for address zero, and no register for it is left if the call that clears the
    first free register reaches them all. -/
theorem zero_removed_iff {s u : State} {pd : Fin maxPds} {r : DebugRegister} {cleared : List Word}
    {setting : DebugSetting}
    (zero : setting.address = 0) (rewires : Rewires s pd r cleared none none u) :
    StopAbsent u setting ↔ ∀ t, s.live t = true →
    ∀ m, (s.kernel.tcb (s.thread t).tcb).debug m = some setting →
      (s.thread t).tcb ∈ cleared ∧ m = r.num := by
  constructor
  · intro absent t live m here
    by_contra missed
    apply absent.registers t ((rewires.same.live t).trans live) m
    rw [rewires.same.tcb, rewires.debug, if_neg missed]
    exact here
  · intro reached
    constructor
    · intro pd' q here
      exact wants_address here zero
    · intro t live m
      rw [rewires.same.live] at live
      rw [rewires.same.tcb, rewires.debug]
      split
      · exact nofun
      · rename_i missed
        exact fun here => missed (reached t live m here)

/-- The condition on the state before the removal: the stop was set once, and the kernel accepts
    every unset call. For address zero, which no entry can stand for, the register that the removal
    clears is the only one armed. -/
def RemovalSuffices (s : State) (stop : HwStop) (n : Nat) : Prop :=
  ∀ pd r, s.targetPd = some pd → (s.inferiors pd).firstEntry stop = some r →
    if stop.addr = 0 then
      ∀ t, s.live t = true → ∀ m, (s.kernel.tcb (s.thread t).tcb).debug m = some stop.setting →
        (s.thread t).tcb ∈ s.disarmable pd r ∧ m = r.num
    else n = 1 ∧ ∀ x ∈ (s.inferiors pd).allTcbs, x ∈ s.disarmable pd r

/-- One removal undoes the sets exactly when there was one of them and the kernel refuses nothing.
    -/
theorem one_removal_undoes_iff {s t u : State} (reachable : Reachable s) {stop : HwStop}
    {z y : List Byte} (set : StopPacket (chr 'Z') stop z) (unset : StopPacket (chr 'z') stop y)
    (absent : StopAbsent s stop.setting) {n : Nat} (session : StopSession z stop.addr s n t)
    (returns : (gdbHandlePacket y).run t = .ok false u)
    (replies : u.reply = str "OK") : StopAbsent u stop.setting ↔ RemovalSuffices t stop n := by
  obtain ⟨pd, r, known, found, entry, rewires⟩ := removal unset returns replies
  have condition : RemovalSuffices t stop n ↔ if stop.addr = 0 then
      ∀ w, t.live w = true → ∀ m, (t.kernel.tcb (t.thread w).tcb).debug m = some stop.setting →
        (t.thread w).tcb ∈ t.disarmable pd r ∧ m = r.num
      else n = 1 ∧ ∀ x ∈ (t.inferiors pd).allTcbs, x ∈ t.disarmable pd r := by
    constructor
    · exact fun enough => enough pd r known found
    · intro here pd' r' known' found'
      cases known.symm.trans known'
      cases found.symm.trans found'
      exact here
  rw [condition]
  by_cases zero : stop.addr = 0
  · rw [if_pos zero]
    exact zero_removed_iff ((setting_address stop).trans zero) rewires
  · rw [if_neg zero]
    have armed := session.armed zero set absent pd known
    rw [HwStop.armed, if_neg zero] at entry
    exact armed.removed_iff (reachable_ok (session.reachable reachable)) entry rewires

/- A breakpoint set once, and set twice. -/

section
omit [Machine]

def stopAt1000 : HwStop := .breakpoint ⟨0x1000⟩
def setPacket : List Byte := str "Z1,1000,4" ++ [0]
def unsetPacket : List Byte := str "z1,1000,4" ++ [0]

theorem setPacket_stop : StopPacket (chr 'Z') stopAt1000 setPacket :=
  ⟨⟨str ",1000,4" ++ [0], rfl⟩, 4, by decide +kernel, nofun⟩

theorem unsetPacket_stop : StopPacket (chr 'z') stopAt1000 unsetPacket :=
  ⟨⟨str ",1000,4" ++ [0], rfl⟩, 4, by decide +kernel, nofun⟩

theorem solo_absent : letI := obligingBoard
    StopAbsent soloState stopAt1000.setting := by
  let _ := obligingBoard
  have entries : ∀ pd r, (soloState.inferiors pd).wants r ≠ some stopAt1000.setting := by
    decide +kernel
  have registers : soloState.kernel.tcb = blankKernel.tcb := rfl
  refine ⟨entries, fun t _ m => ?_⟩
  rw [registers]
  exact nofun

def onceSet : @State obligingBoard :=
  let _ := obligingBoard
  after (gdbHandlePacket setPacket) soloState

def twiceSet : @State obligingBoard :=
  let _ := obligingBoard
  after (gdbHandlePacket setPacket) onceSet

theorem onceSet_session : letI := obligingBoard
    StopSession setPacket 0x1000 soloState 1 onceSet := by
  let _ := obligingBoard
  have returns : value (gdbHandlePacket setPacket) soloState = some false := by decide +kernel
  have replies : onceSet.reply = str "OK" := by decide +kernel
  exact .again .start (run_of_some returns) replies

theorem twiceSet_session : letI := obligingBoard
    StopSession setPacket 0x1000 soloState 2 twiceSet := by
  let _ := obligingBoard
  have returns : value (gdbHandlePacket setPacket) onceSet = some false := by decide +kernel
  have replies : twiceSet.reply = str "OK" := by decide +kernel
  exact .again onceSet_session (run_of_some returns) replies

theorem once_removed : letI := obligingBoard
    StopAbsent (after (gdbHandlePacket unsetPacket) onceSet) stopAt1000.setting := by
  let _ := obligingBoard
  have returns : value (gdbHandlePacket unsetPacket) onceSet = some false := by decide +kernel
  have replies : (after (gdbHandlePacket unsetPacket) onceSet).reply = str "OK" := by decide +kernel
  have removed := one_removal_undoes_iff solo_registered.reachable setPacket_stop unsetPacket_stop
      solo_absent onceSet_session
    (run_of_some returns) replies
  refine removed.mpr fun pd r _ _ => ?_
  rw [if_neg (by decide)]
  refine ⟨rfl, fun x mem => ?_⟩
  rwa [State.disarmable, unrefused_of_accepted (accepted_of_never (fun _ _ _ => rfl) _)]

def onceUnset : @State obligingBoard :=
  let _ := obligingBoard
  after (gdbHandlePacket unsetPacket) twiceSet

theorem onceUnset_run : letI := obligingBoard
    (gdbHandlePacket unsetPacket).run twiceSet = .ok false onceUnset ∧
    onceUnset.reply = str "OK" := by
  let _ := obligingBoard
  have returns : value (gdbHandlePacket unsetPacket) twiceSet = some false := by decide +kernel
  have replies : onceUnset.reply = str "OK" := by decide +kernel
  exact ⟨run_of_some returns, replies⟩

theorem onceUnset_entry : letI := obligingBoard
    (onceUnset.inferiors 0).wants (.inl 1) = some stopAt1000.setting := by
  let _ := obligingBoard
  decide +kernel

/-- Set twice, the breakpoint keeps its second entry after one removal. -/
theorem twice_set_not_removed : letI := obligingBoard
    ¬ ∀ s, Reachable s → ∀ (stop : HwStop) (z y : List Byte), StopPacket (chr 'Z') stop z →
    StopPacket (chr 'z') stop y →
      StopAbsent s stop.setting → ∀ n t, 1 ≤ n → StopSession z stop.addr s n t →
        ∀ u, (gdbHandlePacket y).run t = .ok false u → u.reply = str "OK" →
        StopAbsent u stop.setting := by
  let _ := obligingBoard
  intro all
  obtain ⟨returns, replies⟩ := onceUnset_run
  have absent := all soloState solo_registered.reachable stopAt1000 setPacket unsetPacket
      setPacket_stop unsetPacket_stop
    solo_absent 2 twiceSet (by decide) twiceSet_session onceUnset returns replies
  exact absent.entries 0 (.inl 1) onceUnset_entry

end

end Libgdb
