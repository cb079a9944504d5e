import Mathlib.Data.Finset.Card
import Mathlib.Data.Finset.Range
import Resolvent.Proofs.Ledger.Constraints

namespace Resolvent

namespace Ledger

variable {ledger : Ledger} {id next var : TermId}

inductive Leads (ledger : Ledger) : TermId → TermId → Prop where
  | refl {id : TermId} : Leads ledger id id
  | bound {var target id : TermId} (bound : ledger.binding? var = some target)
      (rest : Leads ledger target id) : Leads ledger var id
  | arg {compound arg id : TermId} {symbol : Symbol} {args : List TermId}
      (shape : ledger.shape? compound = some (.compound symbol args)) (member : arg ∈ args)
      (rest : Leads ledger arg id) : Leads ledger compound id

theorem Leads.later {later : Ledger} (leads : ledger.Leads id next) (grown : later.Extends ledger) :
    later.Leads id next := by
  induction leads with
  | refl => exact .refl
  | bound bound _ ih => exact .bound (grown.binding? bound) ih
  | arg shape member _ ih => exact .arg (grown.shape shape) member ih

theorem Leads.trans {last : TermId} (leads : ledger.Leads id next) (onward : ledger.Leads next last) :
    ledger.Leads id last := by
  induction leads with
  | refl => exact onward
  | bound bound _ ih => exact .bound bound (ih onward)
  | arg shape member _ ih => exact .arg shape member (ih onward)

theorem Chain.leads (chain : ledger.Chain id next) : ledger.Leads id next := by
  induction chain with
  | refl => exact .refl
  | tail _ bound ih => exact ih.trans (.bound bound .refl)

theorem leads_deref (wellFormed : ledger.WellFormed) (id : TermId) :
    ledger.Leads id (ledger.arena.deref id) := (wellFormed.chain_deref id).leads

def sources (ledger : Ledger) (id : TermId) : List TermId :=
  ledger.arena.parents id ++ ledger.arena.previous id

theorem parents_arena (live : ledger.Live id) : ledger.arena.parents id = ledger.parents id := by
  obtain ⟨shape, known⟩ := live.shape
  rw [Arena.parents, getElem?_arena, show ledger.terms[id.index]? = some shape from known]
  rfl

theorem previous_arena (live : ledger.Live id) : ledger.arena.previous id = ledger.previous id := by
  obtain ⟨shape, known⟩ := live.shape
  rw [Arena.previous, getElem?_arena, show ledger.terms[id.index]? = some shape from known]
  rfl

theorem Consistent.mem_previous (consistent : ledger.Consistent) :
    var ∈ ledger.previous id ↔ ledger.binding? var = some id := by
  simp only [previous, List.mem_reverse, List.mem_map, List.mem_filter, beq_iff_eq]
  constructor
  · rintro ⟨binding, ⟨listed, rfl⟩, rfl⟩
    exact consistent.lookup_bindings listed
  · intro bound
    exact ⟨(var, id), ⟨mem_bindings_of_lookup bound, rfl⟩, rfl⟩

theorem mem_parents {compound : TermId} :
    compound ∈ ledger.parents id ↔
      ∃ symbol args, ledger.shape? compound = some (.compound symbol args) ∧ id ∈ args := by
  simp only [parents, List.mem_reverse, List.mem_flatMap, List.mem_replicate]
  constructor
  · rintro ⟨⟨shape, index⟩, listed, often, rfl⟩
    obtain ⟨low, same⟩ := List.mem_zipIdx' listed
    cases shape with
    | number | var => exact absurd rfl often
    | compound symbol args =>
      refine ⟨symbol, args, ?_, List.count_pos_iff.mp (Nat.pos_of_ne_zero often)⟩
      rw [shape?, List.getElem?_eq_getElem low, ← same]
  · rintro ⟨symbol, args, known, member⟩
    refine ⟨(.compound symbol args, compound.index), ?_,
      Nat.ne_of_gt (List.count_pos_iff.mpr member), rfl⟩
    exact List.mem_zipIdx_iff_getElem?.mpr known

theorem Consistent.sources_live (consistent : ledger.Consistent) (live : ledger.Live id) :
    ∀ source ∈ ledger.sources id, ledger.Live source := by
  intro source member
  rw [sources, parents_arena live, previous_arena live, List.mem_append] at member
  rcases member with parent | before
  · obtain ⟨symbol, args, known, -⟩ := mem_parents.mp parent
    exact live_of_shape known
  · have bound := consistent.mem_previous.mp before
    exact live_of_shape (consistent.bound_var _ (mem_bindings_of_lookup bound))

theorem mem_watchers {constraint : ConstraintId} :
    constraint ∈ ledger.watchers var ↔
      ∃ posting, ledger.postings[constraint.index]? = some posting ∧ var ∈ posting.vars := by
  simp only [watchers, List.mem_reverse, List.mem_map, List.mem_filter, decide_eq_true_eq]
  constructor
  · rintro ⟨⟨posting, index⟩, ⟨listed, inside⟩, rfl⟩
    exact ⟨posting, List.mem_zipIdx_iff_getElem?.mp listed, inside⟩
  · rintro ⟨posting, posted, inside⟩
    exact ⟨(posting, constraint.index), ⟨List.mem_zipIdx_iff_getElem?.mpr posted, inside⟩, rfl⟩

def Noted (ledger : Ledger) (found : List ConstraintId) (id : TermId) : Prop :=
  ledger.shape? id = some .var → ∀ constraint ∈ ledger.watchers id,
    constraint ∉ ledger.discards → constraint ∈ found

theorem isDiscarded_iff {constraint : ConstraintId}
    (posted : constraint.index < ledger.postings.length) :
    ledger.constraints.isDiscarded constraint = true ↔ constraint ∈ ledger.discards := by
  simp [ConstraintStore.isDiscarded, getElem?_constraints, List.getElem?_eq_getElem posted,
    Ledger.constraint]

theorem mem_note {found : List ConstraintId} {constraint : ConstraintId}
    (posted : constraint.index < ledger.postings.length) (isOpen : constraint ∉ ledger.discards) :
    constraint ∈ Wakeup.note (ledger.state {}) found constraint := by
  rw [Wakeup.note]
  split
  · next old =>
    rw [constraints_state, Bool.or_eq_true, isDiscarded_iff posted] at old
    exact List.contains_iff_mem.mp (old.resolve_left isOpen)
  · simp

theorem note_subset (found : List ConstraintId) (constraint : ConstraintId) :
    found ⊆ Wakeup.note (ledger.state {}) found constraint := by
  rw [Wakeup.note]
  split
  · exact List.Subset.refl _
  · exact List.subset_append_left _ _

theorem noted_all {constraints found : List ConstraintId} :
    found ⊆ constraints.foldl (Wakeup.note (ledger.state {})) found ∧
      ∀ constraint ∈ constraints, constraint.index < ledger.postings.length →
        constraint ∉ ledger.discards →
          constraint ∈ constraints.foldl (Wakeup.note (ledger.state {})) found := by
  induction constraints generalizing found with
  | nil => exact ⟨List.Subset.refl _, by simp⟩
  | cons first rest ih =>
    obtain ⟨kept, each⟩ := @ih (Wakeup.note (ledger.state {}) found first)
    refine ⟨fun _ member => kept (note_subset found first member), fun constraint member posted isOpen => ?_⟩
    rcases List.mem_cons.mp member with rfl | later
    · exact kept (mem_note posted isOpen)
    · exact each constraint later posted isOpen

def unvisited (ledger : Ledger) (wakeup : Wakeup) : Finset Nat :=
  (Finset.range ledger.size).filter fun index => wakeup.isVisited ⟨index⟩ = false

structure Explores (ledger : Ledger) (before after : Wakeup) : Prop where
  size : after.visited.size = before.visited.size
  visited : ∀ id, before.isVisited id = true → after.isVisited id = true
  found : before.found ⊆ after.found
  sources : ∀ id, after.isVisited id = true → before.isVisited id = false →
    ∀ source ∈ ledger.sources id, after.isVisited source = true
  noted : ∀ id, after.isVisited id = true → before.isVisited id = false → ledger.Noted after.found id

theorem Explores.refl (wakeup : Wakeup) : ledger.Explores wakeup wakeup where
  size := rfl
  visited _ held := held
  found := List.Subset.refl _
  sources id held fresh := by simp [held] at fresh
  noted id held fresh := by simp [held] at fresh

theorem Explores.trans {first middle last : Wakeup} (later : ledger.Explores middle last)
    (earlier : ledger.Explores first middle) : ledger.Explores first last where
  size := later.size.trans earlier.size
  visited id held := later.visited id (earlier.visited id held)
  found := fun _ member => later.found (earlier.found member)
  sources id held fresh source member := by
    cases between : middle.isVisited id with
    | true => exact later.visited source (earlier.sources id between fresh source member)
    | false => exact later.sources id held between source member
  noted id held fresh := by
    cases between : middle.isVisited id with
    | true =>
      exact fun isVar constraint watches isOpen =>
        later.found (earlier.noted id between fresh isVar constraint watches isOpen)
    | false => exact later.noted id held between

theorem Explores.fewer {before after : Wakeup} (explores : ledger.Explores before after) :
    (ledger.unvisited after).card ≤ (ledger.unvisited before).card := by
  apply Finset.card_le_card
  intro index member
  simp only [unvisited, Finset.mem_filter] at member ⊢
  refine ⟨member.1, ?_⟩
  cases held : before.isVisited ⟨index⟩ with
  | false => rfl
  | true => simp [explores.visited _ held] at member

theorem isVisited_visit {wakeup : Wakeup} (size : wakeup.visited.size = ledger.size)
    (live : ledger.Live id) (other : TermId) :
    (wakeup.visit (ledger.state {}) id).isVisited other = true ↔
      other = id ∨ wakeup.isVisited other = true := by
  have low : id.index < wakeup.visited.size := size ▸ live
  simp only [Wakeup.isVisited, Wakeup.visit, Array.getD_eq_getD_getElem?,
    Array.getElem?_setIfInBounds]
  by_cases same : id.index = other.index
  · have equal : other = id := by
      cases id
      cases other
      simp_all
    subst equal
    simp [low]
  · have different : other ≠ id := by
      rintro rfl
      exact same rfl
    simp [same, different]

theorem visit_found (wakeup : Wakeup) (id : TermId) :
    wakeup.found ⊆ (wakeup.visit (ledger.state {}) id).found ∧
      ledger.Noted (wakeup.visit (ledger.state {}) id).found id := by
  simp only [Wakeup.visit, arena_state]
  constructor
  · split
    · exact noted_all.1
    · exact List.Subset.refl _
  · intro isVar constraint watches isOpen
    rw [node_var isVar]
    exact noted_all.2 constraint (List.mem_reverse.mpr watches)
      (posted_watchers ledger id constraint watches) isOpen

theorem visit_fewer {wakeup : Wakeup} (size : wakeup.visited.size = ledger.size)
    (live : ledger.Live id) (fresh : wakeup.isVisited id = false) :
    (ledger.unvisited (wakeup.visit (ledger.state {}) id)).card < (ledger.unvisited wakeup).card := by
  apply Finset.card_lt_card
  refine Finset.ssubset_iff_of_subset ?_ |>.mpr ⟨id.index, ?_, ?_⟩
  · intro index member
    simp only [unvisited, Finset.mem_filter] at member ⊢
    refine ⟨member.1, ?_⟩
    cases held : wakeup.isVisited ⟨index⟩ with
    | false => rfl
    | true => simp [(isVisited_visit size live ⟨index⟩).mpr (.inr held)] at member
  · simp only [unvisited, Finset.mem_filter, Finset.mem_range]
    exact ⟨live, fresh⟩
  · simp only [unvisited, Finset.mem_filter, not_and]
    intro _
    simp [(isVisited_visit size live id).mpr (.inl rfl)]

theorem explores_each {step : Wakeup → TermId → Wakeup} {fuel : Nat}
    (each : ∀ {wakeup : Wakeup} {id : TermId}, wakeup.visited.size = ledger.size → ledger.Live id →
      (ledger.unvisited wakeup).card ≤ fuel →
        ledger.Explores wakeup (step wakeup id) ∧ (step wakeup id).isVisited id = true)
    {ids : List TermId} {wakeup : Wakeup} (size : wakeup.visited.size = ledger.size)
    (live : ∀ id ∈ ids, ledger.Live id) (enough : (ledger.unvisited wakeup).card ≤ fuel) :
    ledger.Explores wakeup (ids.foldl step wakeup) ∧
      ∀ id ∈ ids, (ids.foldl step wakeup).isVisited id = true := by
  induction ids generalizing wakeup with
  | nil => exact ⟨.refl wakeup, by simp⟩
  | cons first rest ih =>
    obtain ⟨here, held⟩ := each size (live first (by simp)) enough
    obtain ⟨onward, others⟩ := ih (here.size.trans size)
      (List.forall_mem_cons.mp live).2 (here.fewer.trans enough)
    refine ⟨onward.trans here, fun id member => ?_⟩
    rcases List.mem_cons.mp member with rfl | later
    · exact onward.visited _ held
    · exact others id later

theorem Consistent.collectWithin_explores (consistent : ledger.Consistent) (fuel : Nat) {wakeup : Wakeup}
    (size : wakeup.visited.size = ledger.size) (live : ledger.Live id)
    (enough : (ledger.unvisited wakeup).card ≤ fuel) :
    ledger.Explores wakeup (Wakeup.collectWithin (ledger.state {}) fuel wakeup id) ∧
      (Wakeup.collectWithin (ledger.state {}) fuel wakeup id).isVisited id = true := by
  induction fuel generalizing wakeup id with
  | zero =>
    refine ⟨.refl wakeup, ?_⟩
    cases held : wakeup.isVisited id with
    | true => exact held
    | false => exact absurd (visit_fewer size live held) (by omega)
  | succ fuel ih =>
    rw [Wakeup.collectWithin]
    split
    · next held => exact ⟨.refl wakeup, held⟩
    · next fresh =>
      have unseen : wakeup.isVisited id = false := by simpa using fresh
      have fewer := visit_fewer size live unseen
      have visited := isVisited_visit size live
      obtain ⟨kept, noted⟩ := @visit_found ledger wakeup id
      have sized : (wakeup.visit (ledger.state {}) id).visited.size = wakeup.visited.size := by
        simp [Wakeup.visit]
      obtain ⟨onward, sources⟩ := explores_each ih (sized.trans size)
        (consistent.sources_live live) (by omega)
      refine ⟨⟨onward.size.trans sized, fun other held => ?_, fun _ member => ?_, ?_, ?_⟩, ?_⟩
      · exact onward.visited other ((visited other).mpr (.inr held))
      · exact onward.found (kept member)
      · intro other held new source member
        by_cases same : other = id
        · subst same
          exact sources source member
        · refine onward.sources other held ?_ source member
          rw [Bool.eq_false_iff, ne_eq, visited]
          simp [same, new]
      · intro other held new
        by_cases same : other = id
        · subst same
          exact fun isVar constraint watches isOpen =>
            onward.found (noted isVar constraint watches isOpen)
        · refine onward.noted other held ?_
          rw [Bool.eq_false_iff, ne_eq, visited]
          simp [same, new]
      · exact onward.visited id ((visited id).mpr (.inl rfl))

theorem unvisited_le (ledger : Ledger) (wakeup : Wakeup) :
    (ledger.unvisited wakeup).card ≤ ledger.size := by
  simpa [unvisited] using Finset.card_filter_le (Finset.range ledger.size) _

theorem isVisited_start (state : State) (found : List ConstraintId) (id : TermId) :
    ({ Wakeup.start state with found } : Wakeup).isVisited id = false := by
  simp only [Wakeup.isVisited, Wakeup.start, Array.getD_eq_getD_getElem?, Array.getElem?_replicate]
  split <;> rfl

/-- If nothing was looked at before, all that leads to a term was looked at with it. -/
theorem Explores.reaches {before after : Wakeup} (explores : ledger.Explores before after)
    (consistent : ledger.Consistent) (fresh : ∀ id, before.isVisited id = false)
    (leads : ledger.Leads var id) (held : after.isVisited id = true) :
    after.isVisited var = true := by
  induction leads with
  | refl => exact held
  | @bound var target id bound _ ih =>
    have targetLive := consistent.target_live _ (mem_bindings_of_lookup bound)
    refine explores.sources target (ih held) (fresh target) var ?_
    rw [Ledger.sources, previous_arena targetLive, List.mem_append]
    exact .inr (consistent.mem_previous.mpr bound)
  | @arg compound arg id symbol args shape member _ ih =>
    refine explores.sources arg (ih held) (fresh arg) compound ?_
    rw [Ledger.sources, parents_arena (consistent.live_args shape arg member), List.mem_append]
    exact .inl (mem_parents.mpr ⟨symbol, args, shape, member⟩)

/-- What the search for some terms finds after other constraints. -/
def gathered (ledger : Ledger) (found : List ConstraintId) (ids : List TermId) :
    List ConstraintId :=
  (ids.foldl (fun (wakeup : Wakeup) id => wakeup.collect (ledger.state {}) id)
    { Wakeup.start (ledger.state {}) with found }).found

theorem mem_gathered (consistent : ledger.Consistent) {ids : List TermId}
    (live : ∀ id ∈ ids, ledger.Live id) (listed : id ∈ ids) (leads : ledger.Leads var id)
    (isVar : ledger.shape? var = some .var) {constraint : ConstraintId}
    (watches : constraint ∈ ledger.watchers var) (isOpen : constraint ∉ ledger.discards)
    (found : List ConstraintId) : constraint ∈ ledger.gathered found ids := by
  have size : ({ Wakeup.start (ledger.state {}) with found } : Wakeup).visited.size =
      ledger.size := by
    simp [Wakeup.start]
  obtain ⟨explores, each⟩ := explores_each (consistent.collectWithin_explores ledger.size) size live
    (unvisited_le ledger _)
  have fresh := isVisited_start (ledger.state {}) found
  have reached := explores.reaches consistent fresh leads (each id listed)
  have noted := explores.noted var reached (fresh var) isVar constraint watches isOpen
  simpa only [gathered, Wakeup.collect, arena_state, size_arena] using noted

/-- An open constraint is woken up by changes to what one of its variables leads to. -/
theorem mem_woken (wellFormed : ledger.WellFormed) {ids : List TermId}
    (live : ∀ id ∈ ids, ledger.Live id) (listed : id ∈ ids) (leads : ledger.Leads var id)
    {constraint : ConstraintId} {posting : Posting}
    (posted : ledger.postings[constraint.index]? = some posting) (watched : var ∈ posting.vars)
    (isOpen : constraint ∉ ledger.discards) : constraint ∈ ledger.woken ids := by
  have isVar := wellFormed.posting_var posting (List.mem_of_getElem? posted) var watched
  exact mem_gathered wellFormed.toConsistent live listed leads isVar
    (mem_watchers.mpr ⟨posting, posted, watched⟩) isOpen []

end Ledger

end Resolvent
