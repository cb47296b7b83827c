import Mathlib.Data.List.Basic

/- Calls made in turn until one is refused. Whether a call is refused depends on it and on the
   calls on record, latest first. -/
namespace RefusedCalls
variable {α γ : Type} (refuses : List γ → γ → Bool) (call : α → γ)

def Accepted : List γ → List α → Prop
  | _, [] => True
  | record, a :: as => refuses record (call a) = false ∧ Accepted (call a :: record) as

def recorded (record : List γ) (as : List α) : List γ := (as.map call).reverse ++ record

/-- The calls for `done` are accepted, and the one for the next item is refused. -/
structure StoppedAfter (record : List γ) (as done : List α) (next : α) : Prop where
  order : done ++ [next] <+: as
  accepted : Accepted refuses call record done
  refused : refuses (recorded call record done) (call next) = true

/-- The items whose calls are not refused, when all calls are made. -/
def unrefused : List γ → List α → List α
  | _, [] => []
  | record, a :: as =>
      if refuses record (call a) = true then unrefused (call a :: record) as
      else a :: unrefused (call a :: record) as

variable {refuses call}

theorem accepted_of_never {as : List α} (never : ∀ record, ∀ a ∈ as, refuses record (call a) =
      false) (record : List γ) :
    Accepted refuses call record as := by
  induction as generalizing record with
  | nil => trivial
  | cons a as ih =>
    exact ⟨never record a List.mem_cons_self,
      ih (fun record b mem => never record b (List.mem_cons_of_mem _ mem)) _⟩

theorem unrefused_of_accepted {record : List γ} {as : List α}
    (accepted : Accepted refuses call record as) :
    unrefused refuses call record as = as := by
  induction as generalizing record with
  | nil => rfl
  | cons a as ih =>
    rw [unrefused, if_neg (by rw [accepted.1]; decide), ih accepted.2]

theorem recorded_cons (record : List γ) (a : α) (as : List α) :
    recorded call record (a :: as) = recorded call (call a :: record) as := by
  simp [recorded]

theorem stoppedAfter_first {record : List γ} {a : α} (as : List α)
    (refused : refuses record (call a) = true) : StoppedAfter refuses call record (a :: as) [] a :=
  ⟨List.prefix_append [a] as, trivial, refused⟩

theorem stoppedAfter_later {record : List γ} {a next : α} {as done : List α}
    (accepts : refuses record (call a) = false)
    (stopped : StoppedAfter refuses call (call a :: record) as done next) :
    StoppedAfter refuses call record (a :: as) (a :: done) next := by
  refine ⟨List.cons_prefix_cons.mpr ⟨rfl, stopped.order⟩, ⟨accepts, stopped.accepted⟩, ?_⟩
  rw [recorded_cons]
  exact stopped.refused

theorem StoppedAfter.tail {record : List γ} {a next : α} {as done : List α}
    (stopped : StoppedAfter refuses call record (a :: as) (a :: done) next) :
    StoppedAfter refuses call (call a :: record) as done next := by
  refine ⟨(List.cons_prefix_cons.mp stopped.order).2, stopped.accepted.2, ?_⟩
  rw [← recorded_cons]
  exact stopped.refused

theorem accepted_not_stopped {record : List γ} {as done : List α} {next : α}
    (accepted : Accepted refuses call record as) :
    ¬ StoppedAfter refuses call record as done next := by
  intro stopped
  induction done generalizing record as with
  | nil =>
    obtain ⟨rest, rfl⟩ := stopped.order
    have refused : refuses record (call next) = true := stopped.refused
    rw [accepted.1] at refused
    contradiction
  | cons a done ih =>
    obtain ⟨rest, rfl⟩ := stopped.order
    exact ih accepted.2 stopped.tail

theorem accepted_made {record : List γ} {as : List α} (accepted : Accepted refuses call record as)
    {later earlier : List γ} {c : γ} (made : (as.map call).reverse = later ++ c :: earlier) :
    refuses (earlier ++ record) c = false := by
  induction as generalizing record earlier with
  | nil => simp at made
  | cons a as ih =>
    rw [List.map_cons, List.reverse_cons] at made
    rcases List.eq_nil_or_concat earlier with rfl | ⟨earlier, first, rfl⟩
    · obtain ⟨_, same⟩ := List.append_inj' made rfl
      obtain rfl := (List.cons.inj same).1
      exact accepted.1
    · rw [List.concat_eq_append, ← List.cons_append, ← List.append_assoc] at made
      obtain ⟨rest, same⟩ := List.append_inj' made rfl
      obtain rfl := (List.cons.inj same).1
      rw [List.concat_eq_append, List.append_assoc]
      exact ih accepted.2 rest

theorem stoppedAfter_unique {record : List γ} {as done done' : List α} {next next' : α}
    (stopped : StoppedAfter refuses call record as done next)
    (stopped' : StoppedAfter refuses call record as done' next') : done = done' ∧ next = next' := by
  induction done generalizing record as done' with
  | nil =>
    obtain ⟨rest, order⟩ := stopped.order
    obtain ⟨rest', rfl⟩ := stopped'.order
    have refused : refuses record (call next) = true := stopped.refused
    cases done' with
    | nil => exact ⟨rfl, (List.cons.inj order).1⟩
    | cons a done' =>
      obtain ⟨rfl, _⟩ := List.cons.inj order
      rw [stopped'.accepted.1] at refused
      contradiction
  | cons a done ih =>
    obtain ⟨rest, rfl⟩ := stopped.order
    obtain ⟨rest', order⟩ := stopped'.order
    cases done' with
    | nil =>
      obtain ⟨rfl, _⟩ := List.cons.inj order
      have refused : refuses record (call next') = true := stopped'.refused
      rw [stopped.accepted.1] at refused
      contradiction
    | cons a' done' =>
      obtain ⟨rfl, tails⟩ := List.cons.inj order
      obtain ⟨rfl, rfl⟩ := ih stopped.tail stopped'.tail
      exact ⟨rfl, rfl⟩

/-- Calls are all accepted, or one of them is the first that is not. -/
theorem accepted_or_stopped (record : List γ) (as : List α) :
    Accepted refuses call record as ∨
    ∃ done next, StoppedAfter refuses call record as done next := by
  induction as generalizing record with
  | nil => exact Or.inl trivial
  | cons a as ih =>
    cases here : refuses record (call a) with
    | true => exact Or.inr ⟨[], a, stoppedAfter_first as here⟩
    | false =>
      rcases ih (call a :: record) with accepted | ⟨done, next, stopped⟩
      · exact Or.inl ⟨here, accepted⟩
      · exact Or.inr ⟨a :: done, next, stoppedAfter_later here stopped⟩

theorem StoppedAfter.append {record : List γ} {as done : List α} {next : α}
    (stopped : StoppedAfter refuses call record as done next) (more : List α) :
    StoppedAfter refuses call record (as ++ more) done next :=
  ⟨stopped.order.trans (List.prefix_append as more), stopped.accepted, stopped.refused⟩

theorem StoppedAfter.past {record : List γ} {front as done : List α} {a next : α}
    (stopped : StoppedAfter refuses call record (front ++ a :: as) done next)
    (accepted : Accepted refuses call record front) :
    ∃ more, done ++ [next] = front ++ a :: more := by
  induction front generalizing record done with
  | nil =>
    obtain ⟨rest, order⟩ := stopped.order
    cases done with
    | nil => exact ⟨[], congrArg (fun b => [b]) (List.cons.inj order).1⟩
    | cons d done => exact ⟨done ++ [next], congrArg (fun b => b :: (done ++ [next]))
      (List.cons.inj order).1⟩
  | cons b front ih =>
    obtain ⟨rest, order⟩ := stopped.order
    cases done with
    | nil =>
      have refused : refuses record (call next) = true := stopped.refused
      rw [(List.cons.inj order).1, accepted.1] at refused
      contradiction
    | cons d done =>
      obtain ⟨rfl, _⟩ := List.cons.inj order
      obtain ⟨more, same⟩ := ih stopped.tail accepted.2
      exact ⟨more, congrArg (List.cons d) same⟩

theorem recorded_same {record : List γ} {front as bs : List α} {a b : α}
    (same : recorded call record (front ++ a :: as) = recorded call record (front ++ b :: bs)) :
    call a = call b := by
  have order := congrArg List.reverse same
  simp only [recorded, List.map_append, List.map_cons, List.reverse_append, List.reverse_reverse,
    List.append_assoc, List.append_cancel_left_eq] at order
  exact (List.cons.inj order).1

end RefusedCalls
