import Libgdb.Component

/-!
The three coroutines of the debugger component act as one machine that takes the received bytes and
the faults in order. `state` tells `t_event` which of the others to switch to, and a byte that has
arrived is read before the component comes to rest.
-/
namespace Libgdb
open ByteMemory (Byte Word)
open Simulations Component
variable [Machine]

/- What a move shows of itself. -/

def Component.Move.arrived : Move → List Byte
  | .arrive c => [c]
  | _ => []

def Component.Move.taken : Move → List Byte
  | .read c => [c]
  | _ => []

def Component.Move.inputs : Move → List Input
  | .read c => [.byte c]
  | .fault ch message => [.fault ch message]
  | .outside kernel => [.outside kernel]
  | _ => []

/- The programs of the coroutines on a session. -/

theorem session_run {α : Type} {s s' : Session} {m : Stub α} {f : α → State → Session}
    (returns : s.run m f = some s') :
    ∃ a t, m.run s.stub = .ok a t ∧ f a t = s' := by
  unfold Session.run at returns
  cases run : m.run s.stub with
  | error e t =>
    rw [run] at returns
    cases returns
  | ok a t =>
    rw [run] at returns
    exact ⟨a, t, rfl, Option.some.inj returns⟩

theorem mainByte_reporting {s s' : Session} {c : Byte} (returns : s.mainByte c = some s') :
    s'.reporting = s.reporting := by
  obtain ⟨_, _, _, rfl⟩ := session_run returns
  rfl

theorem faultByte_reporting {s s' : Session} (returns : s.faultByte = some s') :
    s'.reporting = s.reporting := by
  obtain ⟨_, _, _, rfl⟩ := session_run returns
  rfl

theorem fault_reporting {s s' : Session} {ch : Word} {message : FaultMessage}
    (returns : s.fault ch message = some s') : s'.reporting = true := by
  obtain ⟨_, _, _, rfl⟩ := session_run returns
  rfl

/- Who reads. -/

/-- The event loop is switched to only when no report is pending, and while `t_event` has the
    processor `state` says which of the two waits for a byte. -/
structure HandOver (w : Component) : Prop where
  main : w.active = .main → w.session.reporting = false ∧ w.behindFirst = false
  fault : w.active = .fault → w.session.reporting = true
  event : w.active = .event →
    w.state = if w.session.reporting then .waitingForInputFault else .waitingForInputEventLoop

theorem handOver_start (stub : State) : HandOver (.start stub) where
  main := fun _ => ⟨rfl, rfl⟩
  fault := fun other => by cases other
  event := fun other => by cases other

theorem HandOver.waiting {w : Component} (hand : HandOver w) (active : w.active = .event) :
    w.session.reporting = true ↔ w.state = .waitingForInputFault := by
  have state := hand.event active
  cases reporting : w.session.reporting with
  | false =>
    rw [reporting] at state
    rw [state]
    decide
  | true =>
    rw [reporting] at state
    rw [state]
    decide

theorem handOver_step {w w' : Component} {a : Move} (step : Step w a w') (hand : HandOver w) :
    HandOver w' := by
  cases step with
  | arrive c => exact ⟨hand.main, hand.fault, hand.event⟩
  | outside idle kernel => exact ⟨hand.main, hand.fault, hand.event⟩
  | notifiedFault idle signalled waiting =>
    have pending := (hand.waiting idle.1).mpr waiting
    exact ⟨(fun other => by cases other), fun _ => pending, (fun other => by cases other)⟩
  | notifiedOther idle signalled other =>
    exact ⟨(fun main => by rw [idle.1] at main; cases main), hand.fault, hand.event⟩
  | fault idle returns =>
    exact ⟨(fun other => by cases other), fun _ => fault_reporting returns,
      (fun other => by cases other)⟩
  | mainReads active rx returns =>
    have same := mainByte_reporting returns
    refine ⟨fun main => ?_, fun fault => ?_, fun event => ?_⟩
    · exact ⟨same.trans (hand.main main).1, (hand.main main).2⟩
    · exact same.trans (hand.fault fault)
    · rw [same]
      exact hand.event event
  | mainWaits active empty =>
    refine ⟨(fun other => by cases other), (fun other => by cases other), fun _ => ?_⟩
    rw [(hand.main active).1]
    rfl
  | faultReads active rx other returns =>
    have same := faultByte_reporting returns
    refine ⟨fun main => ?_, fun fault => ?_, fun event => ?_⟩
    · exact ⟨same.trans (hand.main main).1, (hand.main main).2⟩
    · exact same.trans (hand.fault fault)
    · rw [same]
      exact hand.event event
  | faultAcknowledged active rx =>
    exact ⟨(fun other => by cases other), (fun other => by cases other), fun _ => rfl⟩
  | faultWaits active empty =>
    refine ⟨(fun other => by cases other), (fun other => by cases other), fun _ => ?_⟩
    rw [hand.fault active]
    rfl
  | goOnMain active behind waiting =>
    have quiet : w.session.reporting = false := by
      rw [← Bool.not_eq_true, hand.waiting active, waiting]
      decide
    exact ⟨fun _ => ⟨quiet, rfl⟩, (fun other => by cases other), (fun other => by cases other)⟩
  | goOnReturn active behind other =>
    exact ⟨(fun main => by rw [active] at main; cases main), hand.fault, hand.event⟩

/- One machine. -/

/-- Each move of the component is the one machine taking what the move shows. -/
theorem component_follows : Follows Step (fun s i t => Session.take s i = some t) Move.inputs
    (fun w s => HandOver w ∧ w.session = s) := by
  rintro w a w' s step ⟨hand, rfl⟩
  have next := handOver_step step hand
  cases step with
  | arrive c => exact ⟨_, .stop _, next, rfl⟩
  | outside idle kernel => exact ⟨_, run_single rfl, next, rfl⟩
  | notifiedFault idle signalled waiting => exact ⟨_, .stop _, next, rfl⟩
  | notifiedOther idle signalled other => exact ⟨_, .stop _, next, rfl⟩
  | fault idle returns => exact ⟨_, run_single returns, next, rfl⟩
  | mainReads active rx returns =>
    refine ⟨_, run_single ?_, next, rfl⟩
    rw [Session.take, (hand.main active).1]
    exact returns
  | mainWaits active empty => exact ⟨_, .stop _, next, rfl⟩
  | faultReads active rx other returns =>
    refine ⟨_, run_single ?_, next, rfl⟩
    rw [Session.take, hand.fault active, if_pos rfl, if_neg other]
    exact returns
  | faultAcknowledged active rx =>
    refine ⟨_, run_single ?_, next, rfl⟩
    rw [Session.take, hand.fault active, if_pos rfl, if_pos rfl]
  | faultWaits active empty => exact ⟨_, .stop _, next, rfl⟩
  | goOnMain active behind waiting => exact ⟨_, .stop _, next, rfl⟩
  | goOnReturn active behind other => exact ⟨_, .stop _, next, rfl⟩

theorem step_queue {w w' : Component} {a : Move} (step : Step w a w') :
    w.rx ++ a.arrived = a.taken ++ w'.rx := by
  cases step with
  | mainReads active rx returns => simp [rx, Move.arrived, Move.taken]
  | faultReads active rx other returns => simp [rx, Move.arrived, Move.taken]
  | faultAcknowledged active rx => simp [rx, Move.arrived, Move.taken]
  | _ => simp [Move.arrived, Move.taken]

theorem run_queue {w w' : Component} {moves : List Move} (run : Run Step w moves w') :
    w.rx ++ moves.flatMap Move.arrived = moves.flatMap Move.taken ++ w'.rx := by
  induction run with
  | stop => simp
  | next first _ ih =>
    rw [List.flatMap_cons, List.flatMap_cons, ← List.append_assoc, step_queue first,
      List.append_assoc, ih,
      List.append_assoc]

/- A start character that arrives while the event loop waits, and one that is there before. -/

def dollarWaited : List Move := [.wait, .arrive (chr '$'), .notified, .goOn, .read (chr '$'), .wait]

def dollarEarly : List Move := [.arrive (chr '$'), .read (chr '$'), .wait, .notified, .goOn, .wait]

omit [Machine] in
theorem dollarWaited_run : letI := obligingBoard
    ∃ w, Run Step (.start soloState) dollarWaited w ∧ w.Idle ∧ w.signal = false := by
  let _ := obligingBoard
  exact ⟨_, .next (.mainWaits rfl rfl)
    (.next (.arrive _ _) (.next (.notifiedOther ⟨rfl, rfl⟩ rfl (by decide))
    (.next (.goOnMain rfl rfl rfl) (.next (.mainReads rfl rfl rfl)
      (.next (.mainWaits rfl rfl) (.stop _)))))),
    ⟨rfl, rfl⟩, rfl⟩

omit [Machine] in
theorem dollarEarly_run : letI := obligingBoard
    ∃ w, Run Step (.start soloState) dollarEarly w ∧ w.Idle ∧ w.signal = false := by
  let _ := obligingBoard
  exact ⟨_, .next (.arrive _ _) (.next (.mainReads rfl rfl rfl) (.next (.mainWaits rfl rfl)
    (.next (.notifiedOther ⟨rfl, rfl⟩ rfl (by decide)) (.next (.goOnMain rfl rfl rfl)
      (.next (.mainWaits rfl rfl) (.stop _)))))), ⟨rfl, rfl⟩, rfl⟩

theorem run_taken {stub : State} {moves : List Move} {w : Component}
    (run : Run Step (.start stub) moves w) :
    (Session.start stub).takes (moves.flatMap Move.inputs) = some w.session := by
  obtain ⟨t, taken, _, same⟩ := run_follows component_follows run ⟨handOver_start stub, rfl⟩
  rw [same]
  exact (run_iff_foldlM _ _ _ _).mp taken

/-- In every run, however arrivals, notifications and faults are interleaved with the coroutines,
    what the coroutines hold is told by the order of what they took, and the bytes taken and those
    still queued are the bytes received, each once and in order. -/
theorem component_takes_in_order {stub : State} {moves : List Move} {w : Component}
    (run : Run Step (.start stub) moves w) :
    (Session.start stub).takes (moves.flatMap Move.inputs) = some w.session ∧
      moves.flatMap Move.arrived = moves.flatMap Move.taken ++ w.rx :=
        ⟨run_taken run, run_queue run⟩

omit [Machine] in
theorem dollar_taken : letI := obligingBoard
    ∃ w, Run Step (.start soloState) dollarWaited w ∧
      (Session.start soloState).takes [.byte (chr '$')] = some w.session ∧
      [chr '$'] = [chr '$'] ++ w.rx := by
  let _ := obligingBoard
  obtain ⟨w, run, _⟩ := dollarWaited_run
  exact ⟨w, run, component_takes_in_order run⟩

/- Coming to rest. -/

/-- Bytes wait only while a notification is due, or a coroutine that empties the queue is running
    or about to be switched to. -/
def Attended (w : Component) : Prop :=
  w.rx ≠ [] → w.signal = true ∨ w.active = .main ∨
    w.behindFirst = true ∧ (w.active = .fault ∨ w.state = .waitingForInputEventLoop)

theorem attended_step {w w' : Component} {a : Move} (step : Step w a w') (hand : HandOver w)
    (attended : Attended w) : Attended w' := by
  cases step with
  | arrive c => exact fun _ => Or.inl rfl
  | outside idle kernel => exact attended
  | notifiedFault idle signalled waiting => exact fun _ => Or.inr (Or.inr ⟨rfl, Or.inl rfl⟩)
  | notifiedOther idle signalled other =>
    refine fun _ => Or.inr (Or.inr ⟨rfl, Or.inr ?_⟩)
    have state := hand.event idle.1
    split at state
    · exact absurd state other
    · exact state
  | fault idle returns =>
    intro nonempty
    rcases attended nonempty with signalled | main | ⟨behind, _⟩
    · exact Or.inl signalled
    · rw [idle.1] at main
      cases main
    · rw [idle.2] at behind
      cases behind
  | mainReads active rx returns => exact fun _ => Or.inr (Or.inl active)
  | mainWaits active empty => exact fun nonempty => absurd empty nonempty
  | faultReads active rx other returns =>
    intro _
    rcases attended (by rw [rx]; exact List.cons_ne_nil _ _) with signalled | main | behind
    · exact Or.inl signalled
    · rw [active] at main
      cases main
    · exact Or.inr (Or.inr ⟨behind.1, Or.inl active⟩)
  | faultAcknowledged active rx =>
    intro _
    rcases attended (by rw [rx]; exact List.cons_ne_nil _ _) with signalled | main | behind
    · exact Or.inl signalled
    · rw [active] at main
      cases main
    · exact Or.inr (Or.inr ⟨behind.1, Or.inr rfl⟩)
  | faultWaits active empty => exact fun nonempty => absurd empty nonempty
  | goOnMain active behind waiting => exact fun _ => Or.inr (Or.inl rfl)
  | goOnReturn active behind other =>
    intro nonempty
    rcases attended nonempty with signalled | main | ⟨_, fault | waiting⟩
    · exact Or.inl signalled
    · rw [active] at main
      cases main
    · rw [active] at fault
      cases fault
    · exact absurd waiting other

theorem run_attended {stub : State} {moves : List Move} {w : Component}
    (run : Run Step (.start stub) moves w) :
    HandOver w ∧ Attended w := by
  apply run_keeps (P := fun w => HandOver w ∧ Attended w) ?_ run
  · exact ⟨handOver_start stub, fun nonempty => absurd rfl nonempty⟩
  · intro w a w' step both
    exact ⟨handOver_step step both.1, attended_step step both.1 both.2⟩

def Component.AtRest (w : Component) : Prop := w.Idle ∧ w.signal = false

theorem rest_reads {stub : State} {moves : List Move} {w : Component}
    (run : Run Step (.start stub) moves w)
    (rest : w.AtRest) : moves.flatMap Move.taken = moves.flatMap Move.arrived := by
  have attended := (run_attended run).2
  have empty : w.rx = [] := by
    by_contra nonempty
    rcases attended nonempty with signalled | main | ⟨behind, _⟩
    · rw [rest.2] at signalled
      cases signalled
    · rw [rest.1.1] at main
      cases main
    · rw [rest.1.2] at behind
      cases behind
  have order := run_queue run
  rw [empty, List.append_nil] at order
  exact order.symm

/-- A component at rest has read every byte it was sent, and `state` tells whether the report of a
    fault awaits its acknowledgement. -/
theorem at_rest_all_read {stub : State} {moves : List Move} {w : Component}
    (run : Run Step (.start stub) moves w) (rest : w.AtRest) :
    moves.flatMap Move.taken = moves.flatMap Move.arrived ∧
      w.state = if w.session.reporting then .waitingForInputFault else .waitingForInputEventLoop :=
  ⟨rest_reads run rest, (run_attended run).1.event rest.1.1⟩

omit [Machine] in
theorem dollar_all_read : letI := obligingBoard
    ∃ w, Run Step (.start soloState) dollarWaited w ∧ w.AtRest ∧ [chr '$'] = [chr '$'] ∧
      w.state = if w.session.reporting then .waitingForInputFault
        else .waitingForInputEventLoop := by
  let _ := obligingBoard
  obtain ⟨w, run, rest⟩ := dollarWaited_run
  exact ⟨w, run, rest, at_rest_all_read run rest⟩

/- How bytes are spread over notifications. -/

def Component.Move.Plain : Move → Prop
  | .fault _ _ => False
  | .outside _ => False
  | _ => True

omit [Machine] in
theorem plain_inputs {moves : List Move} (plain : ∀ a ∈ moves, a.Plain) :
    moves.flatMap Move.inputs = (moves.flatMap Move.taken).map Input.byte := by
  induction moves with
  | nil => rfl
  | cons a moves ih =>
    rw [List.flatMap_cons, List.flatMap_cons, List.map_append, ih fun b mem =>
      plain b (List.mem_cons_of_mem _ mem)]
    have first := plain a List.mem_cons_self
    cases a with
    | fault ch message => cases first
    | outside kernel => cases first
    | _ => rfl

/-- Between faults it makes no difference how the bytes are spread over notifications, nor when
    they come: two runs on the same bytes that come to rest agree. -/
theorem spreading_immaterial {stub : State} {moves moves' : List Move} {w w' : Component}
    (run : Run Step (.start stub) moves w) (run' : Run Step (.start stub) moves' w')
    (plain : ∀ a ∈ moves, a.Plain) (plain' : ∀ a ∈ moves', a.Plain)
    (bytes : moves.flatMap Move.arrived = moves'.flatMap Move.arrived) (rest : w.AtRest)
    (rest' : w'.AtRest) : w.session = w'.session := by
  have took := run_taken run
  have took' := run_taken run'
  rw [plain_inputs plain, rest_reads run rest, bytes] at took
  rw [plain_inputs plain', rest_reads run' rest'] at took'
  exact Option.some.inj (took.symm.trans took')

omit [Machine] in
theorem dollar_spread : letI := obligingBoard
    ∃ w w', Run Step (.start soloState) dollarWaited w ∧
    Run Step (.start soloState) dollarEarly w' ∧
      w.session = w'.session := by
  let _ := obligingBoard
  obtain ⟨w, run, rest⟩ := dollarWaited_run
  obtain ⟨w', run', rest'⟩ := dollarEarly_run
  refine ⟨w, w', run, run', spreading_immaterial run run' ?_ ?_ rfl rest rest'⟩
  · simp [dollarWaited, Move.Plain]
  · simp [dollarEarly, Move.Plain]

end Libgdb
