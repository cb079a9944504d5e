import Resolvent.Proofs.Search.Bookkeeping
import Resolvent.Proofs.Semantics.Acyclicity
import Resolvent.Proofs.Semantics.MostGeneral
import Resolvent.Proofs.Semantics.Rechecking

namespace Resolvent

def State.Attached (state : State) (id : ConstraintId) (var : TermId) : Prop :=
  ∃ cell, state.arena.var? var = some cell ∧ id ∈ cell.constraints

/-- A change to a term concerns a constraint: it is not discarded, and attached to a variable from
    which the term is reached over bindings and arguments. -/
def State.Concerns (state : State) (id : ConstraintId) (term : TermId) : Prop :=
  (∃ constraint, state.constraints.get id = .ok constraint ∧ constraint.discarded = false) ∧
    ∃ var, state.Attached id var ∧ Relation.ReflTransGen state.arena.Edge var term

def State.gather (state : State) (found : List ConstraintId) (terms : List TermId) :
    List ConstraintId :=
  (terms.foldl (fun (wakeup : Wakeup) term => wakeup.collect state term)
    { Wakeup.start state with found }).found

inductive State.Searches (state : State) : List TermId → Wakeup → Wakeup → Prop where
  | done {wakeup : Wakeup} : Searches state [] wakeup wakeup
  | again {id : TermId} {stack : List TermId} {wakeup last : Wakeup}
      (held : wakeup.isVisited id = true) (goesOn : Searches state stack wakeup last) :
      Searches state (id :: stack) wakeup last
  | visit {id : TermId} {stack : List TermId} {wakeup last : Wakeup}
      (fresh : wakeup.isVisited id = false)
      (goesOn : Searches state (state.arena.parents id ++ state.arena.previous id ++ stack)
        (wakeup.visit state id) last) : Searches state (id :: stack) wakeup last

def Arena.unknowns (arena : Arena) (constraint : Constraint) : List TermId :=
  (arena.value constraint.left).vars ++ (arena.value constraint.right).vars

def Adds (property : ConstraintId → Prop) (before after : List ConstraintId) : Prop :=
  ∃ added, after = before ++ added ∧ added.Nodup ∧ ∀ id ∈ added, id ∉ before ∧ property id

namespace Adds

variable {property other : ConstraintId → Prop} {first middle last : List ConstraintId}

theorem refl (found : List ConstraintId) : Adds property found found :=
  ⟨[], by simp, List.nodup_nil, by simp⟩

theorem single {id : ConstraintId} (fresh : id ∉ first) (holds : property id) :
    Adds property first (first ++ [id]) :=
  ⟨[id], rfl, by simp, by simpa using ⟨fresh, holds⟩⟩

theorem imp (adds : Adds property first last) (weaker : ∀ id, property id → other id) :
    Adds other first last := by
  obtain ⟨added, same, once, each⟩ := adds
  exact ⟨added, same, once, fun id member => (each id member).imp_right (weaker id)⟩

theorem trans (late : Adds property middle last) (early : Adds property first middle) :
    Adds property first last := by
  obtain ⟨earlier, rfl, once, each⟩ := early
  obtain ⟨later, rfl, onceLater, eachLater⟩ := late
  have apart (id : ConstraintId) (member : id ∈ later) : id ∉ first ∧ id ∉ earlier := by
    simpa using (eachLater id member).1
  refine ⟨earlier ++ later, List.append_assoc .., ?_, fun id member => ?_⟩
  · refine List.nodup_append.mpr ⟨once, onceLater, fun id member other memberLater => ?_⟩
    rintro rfl
    exact (apart id memberLater).2 member
  · rcases List.mem_append.mp member with old | new
    · exact each id old
    · exact ⟨(apart id new).1, (eachLater id new).2⟩

theorem foldl {α β : Type} (view : α → List ConstraintId) {step : α → β → α} {entries : List β}
    (each : ∀ found, ∀ entry ∈ entries, Adds property (view found) (view (step found entry)))
    (found : α) : Adds property (view found) (view (entries.foldl step found)) := by
  induction entries generalizing found with
  | nil => exact refl _
  | cons entry rest ih =>
    have here := each found entry (by simp)
    exact (ih (fun found entry member => each found entry (List.mem_cons_of_mem _ member)) _).trans
      here

end Adds

namespace Ledger

variable {ledger : Ledger} {id next : TermId} {constraint : ConstraintId}

theorem edge_iff (consistent : ledger.Consistent) :
    ledger.arena.Edge id next ↔ ledger.binding? id = some next ∨
      ∃ symbol args, ledger.shape? id = some (.compound symbol args) ∧ next ∈ args := by
  constructor
  · intro edge
    cases edge with
    | binding bound => exact .inl (consistent.binding?_arena id ▸ bound)
    | arg held member => exact .inr ⟨_, _, (shape_of_compound held).1, member⟩
  · rintro (bound | ⟨symbol, args, shape, member⟩)
    · exact .binding ((consistent.binding?_arena id).trans bound)
    · exact .arg (node_compound shape) member

theorem leads_iff (consistent : ledger.Consistent) :
    ledger.Leads id next ↔ Relation.ReflTransGen ledger.arena.Edge id next := by
  constructor
  · intro leads
    induction leads with
    | refl => exact .refl
    | bound bound _ ih => exact .head ((edge_iff consistent).mpr (.inl bound)) ih
    | arg shape member _ ih =>
      exact .head ((edge_iff consistent).mpr (.inr ⟨_, _, shape, member⟩)) ih
  · intro path
    induction path using Relation.ReflTransGen.head_induction_on with
    | refl => exact .refl
    | head edge _ ih =>
      rcases (edge_iff consistent).mp edge with bound | ⟨symbol, args, shape, member⟩
      · exact .bound bound ih
      · exact .arg shape member ih

def Concerns (ledger : Ledger) (constraint : ConstraintId) (id : TermId) : Prop :=
  constraint ∉ ledger.discards ∧ ∃ var, ledger.shape? var = some .var ∧
    constraint ∈ ledger.watchers var ∧ ledger.Leads var id

theorem Concerns.onward (concerns : ledger.Concerns constraint id) (leads : ledger.Leads id next) :
    ledger.Concerns constraint next := by
  obtain ⟨isOpen, var, isVar, watches, reached⟩ := concerns
  exact ⟨isOpen, var, isVar, watches, reached.trans leads⟩

theorem leads_of_source (consistent : ledger.Consistent) (live : ledger.Live id)
    (member : next ∈ ledger.sources id) : ledger.Leads next id := by
  rw [sources, parents_arena live, previous_arena live, List.mem_append] at member
  rcases member with parent | before
  · obtain ⟨symbol, args, shape, inside⟩ := mem_parents.mp parent
    exact .arg shape inside .refl
  · exact .bound (consistent.mem_previous.mp before) .refl

theorem note_adds (found : List ConstraintId) (posted : constraint.index < ledger.postings.length) :
    Adds (fun id => id = constraint ∧ id ∉ ledger.discards) found
      (Wakeup.note (ledger.state {}) found constraint) := by
  rw [Wakeup.note]
  split
  · exact .refl found
  · next isNew =>
    rw [constraints_state, Bool.or_eq_true, isDiscarded_iff posted, List.contains_iff_mem,
      not_or] at isNew
    exact .single isNew.2 ⟨rfl, isNew.1⟩

theorem visit_adds (wakeup : Wakeup) (live : ledger.Live id) :
    Adds (ledger.Concerns · id) wakeup.found (wakeup.visit (ledger.state {}) id).found := by
  simp only [Wakeup.visit, arena_state]
  split
  · next cell held =>
    have isVar := shape_of_var live held
    rw [node_var isVar] at held
    cases held
    refine Adds.foldl (fun found => found) (fun found constraint member => ?_) _
    rw [List.mem_reverse] at member
    refine (note_adds found (posted_watchers ledger id constraint member)).imp ?_
    rintro _ ⟨rfl, isOpen⟩
    exact ⟨isOpen, id, isVar, member, .refl⟩
  · exact .refl _

theorem Consistent.collectWithin_adds (consistent : ledger.Consistent) (fuel : Nat)
    (wakeup : Wakeup) (live : ledger.Live id) :
    Adds (ledger.Concerns · id) wakeup.found
      (Wakeup.collectWithin (ledger.state {}) fuel wakeup id).found := by
  induction fuel generalizing wakeup id with
  | zero => exact .refl _
  | succ fuel ih =>
    rw [Wakeup.collectWithin]
    split
    · exact .refl _
    · refine (Adds.foldl Wakeup.found (fun wakeup source member => ?_) _).trans
        (visit_adds wakeup live)
      -- A source leads to the term, so what concerns the source concerns the term.
      exact (ih wakeup (consistent.sources_live live source member)).imp fun constraint concerns =>
        concerns.onward (leads_of_source consistent live member)

/-- The search finds what a change to one of the terms concerns, and nothing else. -/
theorem Consistent.gathered_exact (consistent : ledger.Consistent) {ids : List TermId}
    (live : ∀ id ∈ ids, ledger.Live id) (found : List ConstraintId) :
    ∃ added, ledger.gathered found ids = found ++ added ∧ added.Nodup ∧
      ∀ constraint, constraint ∈ added ↔
        constraint ∉ found ∧ ∃ id ∈ ids, ledger.Concerns constraint id := by
  have adds : Adds (fun constraint => ∃ id ∈ ids, ledger.Concerns constraint id) found
      (ledger.gathered found ids) := by
    refine Adds.foldl Wakeup.found (fun wakeup id member => ?_) _
    refine (consistent.collectWithin_adds _ wakeup (live id member)).imp ?_
    exact fun constraint concerns => ⟨id, member, concerns⟩
  obtain ⟨added, same, once, each⟩ := adds
  refine ⟨added, same, once, fun constraint => ⟨each constraint, ?_⟩⟩
  rintro ⟨fresh, id, listed, isOpen, var, isVar, watches, leads⟩
  have member := mem_gathered consistent live listed leads isVar watches isOpen found
  rw [same, List.mem_append] at member
  exact member.resolve_left fresh

/-- If the loop does with a term on top of the stack what the recursion does, so it does with several
    terms, one after another. -/
theorem Consistent.searches_append (consistent : ledger.Consistent) {fuel : Nat} {last : Wakeup}
    (each : ∀ {wakeup : Wakeup} {id : TermId} {stack : List TermId},
      wakeup.visited.size = ledger.size → ledger.Live id → (ledger.unvisited wakeup).card ≤ fuel →
      (ledger.state {}).Searches stack (Wakeup.collectWithin (ledger.state {}) fuel wakeup id) last →
      (ledger.state {}).Searches (id :: stack) wakeup last)
    {ids stack : List TermId} {wakeup : Wakeup} (size : wakeup.visited.size = ledger.size)
    (live : ∀ id ∈ ids, ledger.Live id) (enough : (ledger.unvisited wakeup).card ≤ fuel)
    (goesOn : (ledger.state {}).Searches stack
      (ids.foldl (Wakeup.collectWithin (ledger.state {}) fuel) wakeup) last) :
    (ledger.state {}).Searches (ids ++ stack) wakeup last := by
  induction ids generalizing wakeup with
  | nil => exact goesOn
  | cons first rest ih =>
    have firstLive := live first (by simp)
    obtain ⟨explores, -⟩ := consistent.collectWithin_explores fuel size firstLive enough
    refine each size firstLive enough ?_
    exact ih (explores.size.trans size) (List.forall_mem_cons.mp live).2
      (explores.fewer.trans enough) goesOn

/-- What the recursion does with a term, the loop does before it turns to the rest of the stack. -/
theorem Consistent.searches_cons (consistent : ledger.Consistent) {fuel : Nat}
    {stack : List TermId} {wakeup last : Wakeup} (size : wakeup.visited.size = ledger.size)
    (live : ledger.Live id) (enough : (ledger.unvisited wakeup).card ≤ fuel)
    (goesOn : (ledger.state {}).Searches stack
      (Wakeup.collectWithin (ledger.state {}) fuel wakeup id) last) :
    (ledger.state {}).Searches (id :: stack) wakeup last := by
  induction fuel generalizing wakeup id stack with
  | zero =>
    -- Without fuel there is no place left that was not looked at.
    refine .again ?_ goesOn
    by_contra fresh
    have fewer := visit_fewer size live (by simpa using fresh)
    omega
  | succ fuel ih =>
    rw [Wakeup.collectWithin] at goesOn
    split at goesOn
    · next held => exact .again held goesOn
    · next fresh =>
      have unseen : wakeup.isVisited id = false := by simpa using fresh
      have fewer := visit_fewer size live unseen
      have sized : (wakeup.visit (ledger.state {}) id).visited.size = ledger.size := by
        simpa [Wakeup.visit] using size
      exact .visit unseen (consistent.searches_append ih sized (consistent.sources_live live)
        (by omega) goesOn)

theorem gather_state (ledger : Ledger) (counters : Counters) (found : List ConstraintId)
    (ids : List TermId) : (ledger.state counters).gather found ids = ledger.gathered found ids := by
  simp only [State.gather, gathered, Wakeup.collect, arena_state,
    collectWithin_counters ledger counters {}]
  rfl

theorem Searches.counters {counters others : Counters} {stack : List TermId} {wakeup last : Wakeup}
    (searches : (ledger.state counters).Searches stack wakeup last) :
    (ledger.state others).Searches stack wakeup last := by
  induction searches with
  | done => exact .done
  | again held _ ih => exact .again held ih
  | visit fresh _ ih => exact .visit fresh ih

theorem attached_iff (consistent : ledger.Consistent) {counters : Counters} {var : TermId} :
    (ledger.state counters).Attached constraint var ↔
      ledger.shape? var = some .var ∧ constraint ∈ ledger.watchers var := by
  constructor
  · rintro ⟨cell, held, member⟩
    rw [(consistent.var?_arena held).2] at member
    obtain ⟨posting, posted, inside⟩ := mem_watchers.mp member
    exact ⟨consistent.posting_var posting (List.mem_of_getElem? posted) var inside, member⟩
  · rintro ⟨isVar, member⟩
    exact ⟨_, by rw [arena_state, Arena.var?, node_var isVar], member⟩

theorem open_iff {counters : Counters} (posted : constraint.index < ledger.postings.length) :
    (∃ held, (ledger.state counters).constraints.get constraint = .ok held ∧
      held.discarded = false) ↔ constraint ∉ ledger.discards := by
  rw [constraints_state, get_constraints (List.getElem?_eq_getElem posted)]
  simp [Ledger.constraint]

theorem concerns_iff (consistent : ledger.Consistent) {counters : Counters} :
    (ledger.state counters).Concerns constraint id ↔ ledger.Concerns constraint id := by
  simp only [State.Concerns, Concerns, attached_iff consistent, arena_state, ← leads_iff consistent,
    and_assoc]
  constructor
  · rintro ⟨isOpen, var, isVar, watches, leads⟩
    have posted := posted_watchers ledger var constraint watches
    exact ⟨(open_iff posted).mp isOpen, var, isVar, watches, leads⟩
  · rintro ⟨isOpen, var, isVar, watches, leads⟩
    have posted := posted_watchers ledger var constraint watches
    exact ⟨(open_iff posted).mpr isOpen, var, isVar, watches, leads⟩

theorem Consistent.unique {other : Ledger} (consistent : ledger.Consistent)
    (otherConsistent : other.Consistent) {counters others : Counters}
    (same : ledger.state counters = other.state others) : other = ledger := by
  rw [← otherConsistent.ledger_state others, ← same, consistent.ledger_state]

/-- A constraint of all variables that were left in a term before concerns changes to those that are
    left in it now. -/
theorem Acyclic.concerns {first : Ledger} (acyclic : ledger.Acyclic) (firstAcyclic : first.Acyclic)
    (grown : ledger.Extends first) (wellFormed : ledger.WellFormed) (firstFormed : first.WellFormed)
    (live : first.Live id) (isOpen : constraint ∉ ledger.discards)
    (watched : ∀ old ∈ (first.value id).vars, constraint ∈ ledger.watchers old) {var : TermId}
    (member : var ∈ (ledger.value id).vars) : ledger.Concerns constraint var := by
  rw [firstAcyclic.value_later acyclic grown firstFormed wellFormed live, Value.vars_subst] at member
  obtain ⟨old, listed, inside⟩ := List.mem_flatMap.mp member
  have isVar := grown.shape (firstAcyclic.vars_open firstFormed live old listed).1
  exact ⟨isOpen, old, isVar, watched old listed,
    acyclic.leads wellFormed (live_of_shape isVar) inside⟩

/-- A change to an unassigned variable concerns the same constraints once it is bound. -/
theorem Concerns.bind {var : TermId} (concerns : ledger.Concerns constraint id) (target : TermId) :
    (ledger.bind var target).Concerns constraint id := by
  obtain ⟨isOpen, watch, isVar, watches, leads⟩ := concerns
  exact ⟨isOpen, watch, isVar, watches, leads.later (bind_extends ledger var target)⟩

theorem Consistent.mem_wakeup (consistent : ledger.Consistent) (live : ledger.Live id)
    (concerns : ledger.Concerns constraint id) (counters : Counters) :
    constraint ∈ ((ledger.state counters).wakeup [id]).found := by
  obtain ⟨isOpen, var, isVar, watches, leads⟩ := concerns
  rw [wakeup_state]
  exact mem_gathered consistent (by simpa using live) (by simp) leads isVar watches isOpen []

theorem Consistent.mem_wakeups (consistent : ledger.Consistent) {var : TermId}
    (isVar : ledger.shape? var = some .var) (unbound : ledger.binding? var = none)
    (concerns : ledger.Concerns constraint var) (counters : Counters) :
    constraint ∈ ((ledger.state counters).wakeup [var]).found ∧ ∀ target, ledger.Live target →
      constraint ∈ (((ledger.state counters).bind var target).wakeup [var]).found := by
  have live := live_of_shape isVar
  refine ⟨consistent.mem_wakeup live concerns counters, fun target targetLive => ?_⟩
  rw [bind_state isVar unbound]
  exact (consistent.bind isVar unbound targetLive).mem_wakeup live (concerns.bind target) counters

/-- A constraint of all variables that were left in a term before is found from those that are left
    in it now. -/
theorem Acyclic.wakes {first : Ledger} (acyclic : ledger.Acyclic) (firstAcyclic : first.Acyclic)
    (grown : ledger.Extends first) (wellFormed : ledger.WellFormed) (firstFormed : first.WellFormed)
    (live : first.Live id) (isOpen : constraint ∉ ledger.discards)
    (watched : ∀ old ∈ (first.value id).vars, constraint ∈ ledger.watchers old)
    (counters : Counters) {var : TermId} (member : var ∈ (ledger.value id).vars) :
    constraint ∈ ((ledger.state counters).wakeup [var]).found ∧ ∀ target, ledger.Live target →
      constraint ∈ (((ledger.state counters).bind var target).wakeup [var]).found := by
  obtain ⟨isVar, unbound⟩ := acyclic.vars_open wellFormed (grown.live live) var member
  have concerns :=
    acyclic.concerns firstAcyclic grown wellFormed firstFormed live isOpen watched member
  exact wellFormed.mem_wakeups isVar unbound concerns counters

end Ledger

theorem State.Sound.consistent {state : State} (sound : state.Sound) : state.Consistent := by
  obtain ⟨ledger, wellFormed, -, holds⟩ := sound
  exact ⟨ledger, wellFormed.toConsistent, holds⟩

theorem State.Sound.post {state : State} (sound : state.Sound) (relation : Relation)
    {left right : TermId} (leftInside : state.arena.contains left = true)
    (rightInside : state.arena.contains right = true) :
    (state.postConstraint relation left right).2.Sound := by
  obtain ⟨ledger, wellFormed, acyclic, counters, rfl⟩ := sound
  rw [Ledger.arena_state, Ledger.contains_arena] at leftInside rightInside
  have advances := Ledger.post_advances wellFormed relation leftInside rightInside
  have stays : (ledger.post (ledger.posting relation left right)).Stays ledger :=
    .marks advances.wellFormed advances.grown rfl rfl
  exact ⟨_, advances.wellFormed, stays.acyclic acyclic wellFormed, _, congrArg Prod.snd
    (Ledger.postConstraint_state wellFormed relation leftInside rightInside counters)⟩

/-- The search for the constraints that changes to some terms may concern adds those that it has not
    yet, are not discarded and are attached to a variable from which one of the terms is reached,
    each of them once, and no others. A loop over a stack of terms ends with the same. So a
    constraint that is attached to all variables that were unassigned in its sides is found from
    every variable that is left in them later, and from that variable again once it is bound. -/
theorem collect_exact {state : State} (consistent : state.Consistent) :
    (∀ {terms : List TermId}, (∀ term ∈ terms, state.arena.contains term = true) → ∀ found,
      ∃ added, state.gather found terms = found ++ added ∧ added.Nodup ∧
        ∀ id, id ∈ added ↔ id ∉ found ∧ ∃ term ∈ terms, state.Concerns id term) ∧
    (∀ {wakeup : Wakeup} {term : TermId}, wakeup.visited.size = state.arena.size →
      state.arena.contains term = true →
        state.Searches [term] wakeup (wakeup.collect state term)) ∧
    ∀ {start : State} {counters : Counters} {opened : List Snapshot}, start.Sound →
      Trail start { state with counters } opened → state.Sound →
      ∀ {id : ConstraintId} {constraint : Constraint},
      state.constraints.get id = .ok constraint → constraint.discarded = false →
      start.arena.contains constraint.left = true → start.arena.contains constraint.right = true →
      (∀ var ∈ start.arena.unknowns constraint, state.Attached id var) →
      ∀ var ∈ state.arena.unknowns constraint, id ∈ (state.wakeup [var]).found ∧
        ∀ target, state.arena.contains target = true →
          id ∈ ((state.bind var target).wakeup [var]).found := by
  obtain ⟨ledger, consistent, counters, rfl⟩ := consistent
  refine ⟨fun {terms} inside found => ?_, fun {wakeup term} size inside => ?_, ?_⟩
  · have live : ∀ term ∈ terms, ledger.Live term := fun term member =>
      (Ledger.contains_arena ledger term).mp (inside term member)
    simpa only [Ledger.gather_state, Ledger.concerns_iff consistent] using
      consistent.gathered_exact live found
  · have live : ledger.Live term := (Ledger.contains_arena ledger term).mp inside
    rw [Ledger.arena_state, Ledger.size_arena] at size
    refine Ledger.Searches.counters (consistent.searches_cons size live
      (ledger.unvisited_le wakeup) ?_)
    rw [Wakeup.collect, Ledger.collectWithin_counters ledger counters {}, Ledger.arena_state,
      Ledger.size_arena]
    exact .done
  · rintro start counted opened ⟨first, firstFormed, firstAcyclic, others, rfl⟩ trail
      ⟨same, wellFormed, acyclic, more, itself⟩ id constraint held isOpen leftInside rightInside
      attached var member
    -- The ledger that is in order goes on from the first one, as a state has no other.
    obtain ⟨last, stages, restores, reached, -, kept⟩ :=
      Ledger.stages_of_trail firstFormed.toConsistent trail
    obtain ⟨lastConsistent, -⟩ := List.forall_mem_cons.mp kept.consistent
    obtain ⟨grown, -⟩ := List.forall_mem_cons.mp kept.onward
    obtain rfl := consistent.unique lastConsistent reached
    obtain rfl := consistent.unique wellFormed.toConsistent itself
    obtain ⟨posting, posted, -⟩ := Ledger.get_constraints_ok.mp held
    have undiscarded := (Ledger.open_iff (List.getElem?_eq_some_iff.mp posted).1).mp
      ⟨constraint, held, isOpen⟩
    simp only [Arena.unknowns, Ledger.arena_state, List.mem_append, Ledger.contains_arena] at *
    have watched (old : TermId) (before : old ∈ (first.value constraint.left).vars ∨
        old ∈ (first.value constraint.right).vars) : id ∈ same.watchers old :=
      ((Ledger.attached_iff consistent).mp (attached old before)).2
    rcases member with left | right
    · exact acyclic.wakes firstAcyclic grown wellFormed firstFormed leftInside undiscarded
        (fun old before => watched old (.inl before)) counters left
    · exact acyclic.wakes firstAcyclic grown wellFormed firstFormed rightInside undiscarded
        (fun old before => watched old (.inr before)) counters right

namespace Watchful

def terms : List Shape :=
  [.var, .var, .compound (.user 0) [⟨1⟩], .compound (.user 1) []]

def state : State := { arena := (Arena.build? {} terms).getD {} }

def apart : Constraint where
  relation := .disunification
  left := ⟨0⟩
  right := ⟨3⟩
  occurrences := [(⟨0⟩, 1)]

def posted : State :=
  (((state.postConstraint .disunification ⟨0⟩ ⟨3⟩).2).postConstraint .disunification ⟨1⟩ ⟨3⟩).2

def bound : State := (posted.unify ⟨0⟩ ⟨2⟩).2

/-- The first constraint is found from `Y`, which is now left in it, before and after `Y` is bound. -/
theorem found_once : bound.Consistent ∧ posted.Sound ∧ bound.Sound ∧
    Trail posted { bound with counters := posted.counters } [posted.snapshot] ∧
    bound.gather [] [⟨1⟩, ⟨2⟩] = [⟨1⟩, ⟨0⟩] ∧
    (∀ id : ConstraintId, id ∈ ([⟨1⟩, ⟨0⟩] : List ConstraintId) ↔
      ∃ term ∈ ([⟨1⟩, ⟨2⟩] : List TermId), bound.Concerns id term) ∧
    bound.Searches [⟨1⟩] (Wakeup.start bound) (bound.wakeup [⟨1⟩]) ∧
    ⟨0⟩ ∈ (bound.wakeup [⟨1⟩]).found ∧ ⟨0⟩ ∈ ((bound.bind ⟨1⟩ ⟨3⟩).wakeup [⟨1⟩]).found := by
  have built : state.Sound := @sound_of_build terms _ {} (by decide +kernel)
  have sound : posted.Sound :=
    (built.post .disunification (by decide +kernel) (by decide +kernel)).post .disunification
      (by decide +kernel) (by decide +kernel)
  have run : posted.unify ⟨0⟩ ⟨2⟩ = (true, bound) := Prod.ext (by decide +kernel) rfl
  obtain ⟨-, unified, -⟩ := unify_correct sound (by decide +kernel) (by decide +kernel) run
  have boundSound := (unified rfl).1
  have consistent := boundSound.consistent
  have binds : posted.bind ⟨0⟩ ⟨2⟩ = { bound with counters := posted.counters } := by
    decide +kernel
  have trail : Trail posted { bound with counters := posted.counters } [posted.snapshot] :=
    binds ▸ .change .start (.bind (by decide +kernel) (by decide +kernel) (by decide +kernel))
  obtain ⟨gathers, loop, kept⟩ := collect_exact consistent
  have found : bound.gather [] [⟨1⟩, ⟨2⟩] = [⟨1⟩, ⟨0⟩] := by decide +kernel
  obtain ⟨added, same, -, each⟩ := @gathers [⟨1⟩, ⟨2⟩] (by decide +kernel) []
  obtain rfl : added = [⟨1⟩, ⟨0⟩] := same.symm.trans found
  have held : bound.constraints.get ⟨0⟩ = .ok apart := by decide +kernel
  have attached : ∀ var ∈ posted.arena.unknowns apart, bound.Attached ⟨0⟩ var := by
    have only : posted.arena.unknowns apart = [⟨0⟩] := by decide +kernel
    have cell : bound.arena.var? ⟨0⟩ = some { binding := some ⟨2⟩, constraints := [⟨0⟩] } := by
      decide +kernel
    simpa [only] using ⟨_, cell, by simp⟩
  have left : ⟨1⟩ ∈ bound.arena.unknowns apart := by decide +kernel
  obtain ⟨before, after⟩ := kept sound trail boundSound held rfl (by decide +kernel)
    (by decide +kernel) attached ⟨1⟩ left
  exact ⟨consistent, sound, boundSound, trail, found, by simpa using each,
    loop (by decide +kernel) (by decide +kernel), before, after ⟨3⟩ (by decide +kernel)⟩

end Watchful

end Resolvent
