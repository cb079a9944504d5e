import Resolvent.Proofs.Search.Unfolding

namespace Resolvent

variable {program : Program} {limit wider : Nat} {ledger : Ledger} {goal : TermId}
  {unfolded : (TermId → Ledger → List Emission) → List Emission}
  {solver other : TermId → Ledger → List Emission}

inductive Deepens : List Emission → List Emission → Prop where
  | nil : Deepens [] []
  | same {events others : List Emission} (event : Emission) (rest : Deepens events others) :
      Deepens (event :: events) (event :: others)
  | cut {events others : List Emission}
      (kept : (answersOf events).Sublist (answersOf others)) : Deepens (.cut :: events) others

theorem Deepens.refl (events : List Emission) : Deepens events events := by
  induction events with
  | nil => exact .nil
  | cons event rest ih => exact .same event ih

theorem Deepens.kept {events others : List Emission} (deepens : Deepens events others) :
    (answersOf events).Sublist (answersOf others) := by
  induction deepens with
  | nil => exact List.Sublist.refl _
  | same event _ ih =>
    cases event with
    | answer ledger => simpa [answersOf] using ih
    | cut | fault => exact ih
  | cut kept => exact kept

theorem Deepens.append {events others more rest : List Emission} (first : Deepens events others)
    (second : Deepens more rest) : Deepens (events ++ more) (others ++ rest) := by
  induction first with
  | nil => exact second
  | same event _ ih => exact .same event ih
  | cut kept =>
    rw [List.cons_append]
    refine .cut ?_
    rw [answersOf_append, answersOf_append]
    exact kept.append second.kept

theorem Deepens.flatMap {α : Type} {list : List α} {first second : α → List Emission}
    (each : ∀ entry ∈ list, Deepens (first entry) (second entry)) :
    Deepens (list.flatMap first) (list.flatMap second) := by
  induction list with
  | nil => exact .nil
  | cons entry rest ih =>
    rw [List.flatMap_cons, List.flatMap_cons]
    exact (each entry (by simp)).append (ih fun later member => each later (by simp [member]))

theorem sublist_flatMap {α β : Type} {list others : List α} {first second : α → List β}
    (kept : list.Sublist others) (each : ∀ entry ∈ list, (first entry).Sublist (second entry)) :
    (list.flatMap first).Sublist (others.flatMap second) := by
  induction kept with
  | slnil => exact List.Sublist.refl _
  | cons entry _ ih => exact (ih each).trans (List.sublist_append_right _ _)
  | cons_cons entry _ ih =>
    rw [List.flatMap_cons, List.flatMap_cons]
    exact (each entry (by simp)).append (ih fun later member => each later (by simp [member]))

theorem Deepens.follow {events others : List Emission} {first second : Ledger → List Emission}
    (deepens : Deepens events others)
    (each : ∀ ledger, .answer ledger ∈ events → Deepens (first ledger) (second ledger)) :
    Deepens (events.flatMap (Resolvent.follow first)) (others.flatMap (Resolvent.follow second)) := by
  induction deepens with
  | nil => exact .nil
  | same event _ ih =>
    rw [List.flatMap_cons, List.flatMap_cons]
    refine Deepens.append ?_ (ih fun ledger member => each ledger (by simp [member]))
    cases event with
    | answer ledger => exact each ledger (by simp)
    | cut | fault => exact .refl _
  | cut kept =>
    rw [List.flatMap_cons, Resolvent.follow, List.singleton_append]
    refine .cut ?_
    rw [answersOf_follow, answersOf_follow]
    exact sublist_flatMap kept fun ledger member =>
      (each ledger (by simp [mem_answersOf.mp member])).kept

theorem negate_hit {events : List Emission} (faultless : ∀ reason, .fault reason ∉ events) :
    negate ledger true events = [.cut] := by
  induction events with
  | nil => rfl
  | cons event rest ih =>
    cases event with
    | answer other => rfl
    | cut => exact ih fun reason member => faultless reason (by simp [member])
    | fault reason => exact absurd (by simp) (faultless reason)

theorem Deepens.negate {events others : List Emission} (deepens : Deepens events others)
    (faultless : ∀ reason, .fault reason ∉ events) (ledger : Ledger) :
    Deepens (Resolvent.negate ledger false events) (Resolvent.negate ledger false others) := by
  cases deepens with
  | nil => exact .refl _
  | same event _ =>
    cases event with
    | answer other => exact .refl _
    | cut =>
      rw [Resolvent.negate, negate_hit fun reason member => faultless reason (by simp [member])]
      exact .cut (List.nil_sublist _)
    | fault reason => exact absurd (by simp) (faultless reason)
  | cut =>
    rw [Resolvent.negate, negate_hit fun reason member => faultless reason (by simp [member])]
    exact .cut (List.nil_sublist _)

theorem Unfolds.deepens (regular : Regular program limit solver)
    (unfolds : Unfolds program goal ledger unfolded) (shallow : ledger.calls.length < limit)
    (deepens : ∀ {called later}, Quiet program later → later.arena.Callable anywhere called →
      Deeper limit ledger later → Deepens (solver called later) (other called later)) :
    Deepens (unfolded solver) (unfolded other) := by
  cases unfolds with
  | negation _ starts =>
    exact (deepens starts.quiet starts.callable (deeper_register shallow)).negate
      (regular.faultless starts.quiet starts.callable) _
  | conjunction _ first second =>
    refine (deepens first.quiet first.callable (deeper_register shallow)).follow
      fun middle member => ?_
    have onward := regular.onward first.quiet first.callable member
    obtain ⟨quiet, callable⟩ := second.next onward
    exact deepens quiet callable ((deeper_register shallow).onward onward)
  | disjunction _ first second =>
    exact (deepens first.quiet first.callable (deeper_register shallow)).append
      (deepens second.quiet second.callable (deeper_register shallow))
  | @builtin _ _ _ _ _ reply later _ _ registered _ advances replaced =>
    cases reply with
    | fails | answers => exact .refl _
    | delegates called =>
      have onward : Onward limit later _ := advances.onward registered
      exact deepens (advances.quiet registered) (replaced called rfl).1
        ((deeper_register shallow).onward onward)
  | predicate _ _ tried =>
    refine Deepens.flatMap fun candidate listed => ?_
    obtain ⟨equation, names, later, tried⟩ := tried candidate listed
    have opened := (deeper_register shallow).onward (tried.opening.advances.onward tried.registered)
    have callable := tried.equation.callable
    have head := deepens tried.quiet callable opened
    simp only [tries, tried.run, resolved]
    cases has : candidate.1.body with
    | none => exact head
    | some body =>
      refine head.follow fun middle member => ?_
      have onward := regular.onward tried.quiet callable member
      have quiet := onward.quiet tried.quiet
      obtain ⟨copy, named, start, begins⟩ := tried.begins has onward.grown quiet
      rw [begins.start, begins.start]
      exact deepens begins.quiet begins.callable ((opened.onward onward).onward (begins.onward quiet))

theorem solve_deepens (more : limit ≤ wider) (level : Nat) {further : Nat} (enough : level ≤ further)
    (quiet : Quiet program ledger) (callable : ledger.arena.Callable anywhere goal)
    (low : ledger.calls.length ≤ limit) (high : limit < ledger.calls.length + level) :
    Deepens (solve program limit level goal ledger) (solve program wider further goal ledger) := by
  induction level generalizing further goal ledger with
  | zero => omega
  | succ level ih =>
    obtain ⟨further, rfl⟩ : ∃ less, further = less + 1 := ⟨further - 1, by omega⟩
    rcases quiet.comes callable with ⟨-, same⟩ | ⟨-, unfolded, unfolds, same⟩
    · rw [same, same]
      exact .refl _
    · rw [same, same]
      by_cases deep : limit ≤ ledger.calls.length
      · rw [if_pos deep]
        exact .cut (List.nil_sublist _)
      · rw [if_neg deep, if_neg (by omega)]
        refine unfolds.deepens (solve_regular program limit level) (Nat.lt_of_not_le deep) ?_
        intro called later laterQuiet laterCallable deeper
        exact ih (by omega) laterQuiet laterCallable deeper.2 (by have := deeper.1; omega)

end Resolvent
