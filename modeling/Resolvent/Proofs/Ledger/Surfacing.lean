import Resolvent.Proofs.Ledger.Builtin
import Resolvent.Proofs.Ledger.Waking

namespace Resolvent

namespace Ledger

variable {ledger after : Ledger} {id var target : TermId}

theorem Chain.isDelayedWithin (chain : ledger.Chain var id) (wellFormed : ledger.WellFormed)
    {rank : TermId → Nat} (falls : ledger.Falls rank) (isVar : ledger.shape? id = some .var)
    (delayed : var ∈ ledger.delayed) {fuel : Nat} (enough : rank var < fuel + rank id) :
    ledger.arena.isDelayedWithin fuel id = true := by
  induction chain generalizing fuel with
  | refl =>
    cases fuel with
    | zero => omega
    | succ fuel => simp [Arena.isDelayedWithin, Arena.var?, node_var isVar, delayed]
  | @tail source target before bound ih =>
    have listed := mem_bindings_of_lookup bound
    have sourceVar := wellFormed.bound_var _ listed
    have lower : rank target < rank source := falls _ listed isVar
    cases fuel with
    | zero =>
      have inside : ledger.arena.isDelayedWithin 0 source = true := ih sourceVar (by omega)
      cases inside
    | succ fuel =>
      have inside : ledger.arena.isDelayedWithin fuel source = true := ih sourceVar (by omega)
      rw [Arena.isDelayedWithin, previous_arena (live_of_shape isVar), Bool.or_eq_true,
        List.any_eq_true]
      exact .inr ⟨source, wellFormed.mem_previous.mpr bound, inside⟩

theorem Chain.isDelayed (chain : ledger.Chain var id) (wellFormed : ledger.WellFormed)
    (isVar : ledger.shape? id = some .var) (delayed : var ∈ ledger.delayed) :
    ledger.arena.isDelayed id = true := by
  obtain ⟨rank, falls, low⟩ := wellFormed.ranked
  have enough := low var (live_of_shape (wellFormed.delayed_var var delayed))
  rw [Arena.isDelayed, size_arena]
  exact chain.isDelayedWithin wellFormed falls isVar delayed (by omega)

theorem Solves.binds_ends {fuel : Nat} {pairs : List (TermId × TermId)}
    {result : Except Ledger Ledger} (solves : Solves fuel ledger pairs result)
    (wellFormed : ledger.WellFormed) (live : ∀ pair ∈ pairs, ledger.LivePair pair)
    (unbound : ledger.binding? var = none) (bound : (held result).binding? var = some target) :
    ledger.binding? target = none := by
  -- What is unbound later was unbound before.
  have earlier {later ledger : Ledger} {id : TermId} (grown : later.Extends ledger)
      (free : later.binding? id = none) : ledger.binding? id = none := by
    cases known : ledger.binding? id with
    | none => rfl
    | some other => exact absurd (grown.binding? known) (by simp [free])
  induction solves with
  | done | spent | clashes => exact absurd bound (by simp [held, unbound])
  | same _ _ ih | sameNumber _ _ _ ih =>
    exact ih wellFormed (List.forall_mem_cons.mp live).2 unbound bound
  | @descends fuel ledger middle left right rest result symbol lefts rights leftShape rightShape
      sameLength inside goesOn insideIh ih =>
    have args := wellFormed.live_zip leftShape rightShape
    have first : middle.Binds ledger := inside.grows wellFormed args
    have others := first.livePairs (List.forall_mem_cons.mp live).2
    cases here : middle.binding? var with
    | none => exact earlier first.extends (ih first.wellFormed others here bound)
    | some other =>
      have kept := (goesOn.grows first.wellFormed others).extends.binding? here
      cases kept.symm.trans bound
      exact insideIh wellFormed args unbound here
  | fails leftShape rightShape _ _ ih =>
    exact ih wellFormed (wellFormed.live_zip leftShape rightShape) unbound bound
  | @binds fuel ledger left right source end_ rest result opens ends goesOn ih =>
    have first := opens.binds wellFormed
    have others := first.livePairs (List.forall_mem_cons.mp live).2
    cases here : (ledger.bind source end_).binding? var with
    | none => exact earlier first.extends (ih first.wellFormed others here bound)
    | some other =>
      have kept := (goesOn.grows first.wellFormed others).extends.binding? here
      cases kept.symm.trans bound
      have listed := mem_bindings_of_lookup here
      rcases List.mem_append.mp listed with old | new
      · exact absurd (wellFormed.lookup_bindings old) (by simp [unbound])
      · cases List.mem_singleton.mp new
        exact opens.ends

theorem Chain.newest (chain : after.Chain id target)
    (ends : ∀ {var target}, ledger.binding? var = none → after.binding? var = some target →
      ledger.binding? target = none) (unbound : ledger.binding? id = none) (goesOn : target ≠ id) :
    ∃ newest, after.Chain id newest ∧ after.binding? newest = some target ∧
      ledger.binding? newest = none := by
  induction chain with
  | refl => exact absurd rfl goesOn
  | @tail source target before bound ih =>
    by_cases still : source = id
    · exact ⟨source, before, bound, still ▸ unbound⟩
    · obtain ⟨newest, -, last, free⟩ := ih still
      exact ⟨source, before, bound, ends free last⟩

theorem boundSince_eq {pairs : List (TermId × TermId)}
    (bindings : after.bindings = ledger.bindings ++ pairs) :
    after.boundSince ledger = pairs.map Prod.fst := by
  simp [boundSince, State.assignedSince, state, bindings]

theorem Binds.mem_boundSince (grown : after.Binds ledger)
    (unbound : ledger.binding? var = none) (bound : after.binding? var = some target) :
    var ∈ after.boundSince ledger := by
  obtain ⟨wellFormed, pairs, rfl⟩ := grown
  rw [boundSince_eq rfl]
  rcases List.mem_append.mp (mem_bindings_of_lookup bound) with old | new
  · have known := lookup_of_mem (List.nodup_append.mp (List.map_append ▸ wellFormed.bound_once)).1 old
    exact absurd (unbound.symm.trans known) (by simp)
  · exact List.mem_map_of_mem new

theorem subset_surface (arena : Arena) (goals : List TermId) (var : TermId) :
    goals ⊆ arena.surface goals var := by
  rw [Arena.surface]
  split
  · exact List.Subset.refl _
  · split
    · exact List.Subset.refl _
    · split
      · exact List.Subset.refl _
      · exact List.subset_append_left _ _

theorem mem_surface (wellFormed : ledger.WellFormed) {goals : List TermId} {goal : TermId}
    {symbol : Symbol} {args : List TermId} (bound : ledger.binding? var = some goal)
    (shape : ledger.shape? goal = some (.compound symbol args))
    (delayed : ledger.arena.isDelayed var = true) (idle : goal ∉ ledger.calls) :
    goal ∈ ledger.arena.surface goals var := by
  have cell : ledger.arena.compound? goal = some { symbol, args, active := false } := by
    rw [Arena.compound?, node_compound shape]
    simp [idle]
  rw [Arena.surface, wellFormed.binding?_arena, bound]
  simp only [cell, delayed]
  split
  · next known => simpa using known
  · simp

theorem mem_surfaced (wellFormed : ledger.WellFormed) {vars : List TermId} {goal : TermId}
    {symbol : Symbol} {args : List TermId} (member : var ∈ vars)
    (bound : ledger.binding? var = some goal)
    (shape : ledger.shape? goal = some (.compound symbol args))
    (delayed : ledger.arena.isDelayed var = true) (idle : goal ∉ ledger.calls) :
    goal ∈ ledger.surfaced vars := by
  have kept (goals vars : List TermId) : goals ⊆ vars.foldl ledger.arena.surface goals := by
    induction vars generalizing goals with
    | nil => exact List.Subset.refl _
    | cons first rest ih => exact List.Subset.trans (subset_surface _ _ _) (ih _)
  obtain ⟨before, rest, rfl⟩ := List.append_of_mem member
  rw [surfaced, List.foldl_append, List.foldl_cons]
  exact kept _ _ (mem_surface wellFormed bound shape delayed idle)

/-- A delayed variable that unification gives a compound is noticed, however many variables lie
    between the two. -/
theorem Solves.surfaces {left right : TermId}
    (solves : Solves ledger.size ledger [(left, right)] (.ok after)) (wellFormed : ledger.WellFormed)
    (live : ∀ pair ∈ [(left, right)], ledger.LivePair pair) (delayed : var ∈ ledger.delayed)
    {symbol : Symbol} {args : List TermId}
    (shape : after.shape? (after.arena.deref var) = some (.compound symbol args)) :
    ledger.arena.deref var = after.arena.deref var ∨ after.arena.deref var ∈ ledger.calls ∨
      after.arena.deref var ∈ after.surfaced (after.boundSince ledger) := by
  have binds : after.Binds ledger := solves.grows wellFormed live
  have grown := binds.extends
  have afterFormed := binds.wellFormed
  have onward := grown.deref wellFormed afterFormed var
  by_cases still : ledger.arena.deref var = after.arena.deref var
  · exact .inl still
  refine .inr (or_iff_not_imp_left.mpr fun idle => ?_)
  have onto : after.Chain (ledger.arena.deref var) (after.arena.deref var) :=
    onward ▸ afterFormed.chain_deref _
  obtain ⟨newest, chain, bound, unbound⟩ := onto.newest
    (fun free known => solves.binds_ends wellFormed live free known)
    (wellFormed.unbound_deref var) (Ne.symm still)
  have newVar := afterFormed.bound_var _ (mem_bindings_of_lookup bound)
  have sameStacks : after.delayed = ledger.delayed ∧ after.calls = ledger.calls :=
    ⟨binds.advances.delayed, binds.advances.calls⟩
  have whole : after.Chain var newest :=
    ((wellFormed.chain_deref var).later grown).trans chain
  refine mem_surfaced afterFormed (binds.mem_boundSince unbound bound) bound shape
    (whole.isDelayed afterFormed newVar (sameStacks.1 ▸ delayed)) ?_
  rw [sameStacks.2]
  exact idle

theorem Rechecks.subset_goals {ids : List ConstraintId} {review last : Review}
    (rechecks : Rechecks ids review last) : review.goals ⊆ last.goals := by
  induction rechecks with
  | done | violated => exact List.Subset.refl _
  | undecided _ _ _ ih | satisfied _ _ _ ih => exact ih
  | solved _ _ _ ih => exact List.Subset.trans (List.subset_append_left _ _) ih

section

variable {later : Ledger} {left right : TermId} {reply : Reply}

inductive Leaves (later : Ledger) : Reply → List TermId → Prop where
  | answers : Leaves later .answers []
  | delegates {next : TermId} {base : Nat} {others : List TermId}
      (conjoins : later.Conjoins base next others) (old : ∀ id ∈ later.calls, id.index < base) :
      Leaves later (.delegates next) others

theorem WellFormed.calls_live (wellFormed : ledger.WellFormed) : ∀ id ∈ ledger.calls, ledger.Live id := by
  intro id member
  obtain ⟨symbol, args, shape⟩ := wellFormed.calls_compound id member
  exact live_of_shape shape

theorem leaves_goal (wellFormed : later.WellFormed) {next : TermId} (live : later.Live next) :
    Leaves later (.delegates next) [next] :=
  .delegates (.last live) wellFormed.calls_live

structure Unifies (ledger : Ledger) (left right : TermId) (after : Ledger) (last : Review)
    (later : Ledger) : Prop where
  solves : Solves ledger.size ledger [(left, right)] (.ok after)
  binds : after.Binds ledger
  rechecks : Rechecks (after.concerned ledger) (after.review ledger) last
  unviolated : last.violated = false
  checked : last.ledger.Allocates after
  settled : (last.ledger.settleAll last.discards).Advances last.ledger
  built : later.Allocates (last.ledger.settleAll last.discards)

theorem Equates.unifies (equates : ledger.Equates left right reply later)
    (wellFormed : ledger.WellFormed) (leftLive : ledger.Live left) (rightLive : ledger.Live right)
    (goesOn : reply ≠ .fails) :
    ∃ after last, Unifies ledger left right after last later ∧ later.Leaves reply last.goals := by
  have bound {after : Ledger}
      (solves : Solves ledger.size ledger [(left, right)] (.ok after)) : after.Binds ledger :=
    solves.grows wellFormed (leftLive.pair rightLive)
  cases equates with
  | clashes | violates => exact absurd rfl goesOn
  | @answers after last solves rechecks unviolated none =>
    have checked := rechecks.grows (bound solves).wellFormed
    have settled := settleAll_advances checked.wellFormed (rechecks.posted (bound solves).wellFormed)
    refine ⟨after, last, ⟨solves, bound solves, rechecks, unviolated, checked, settled,
      .refl settled.wellFormed⟩, ?_⟩
    rw [none]
    exact .answers
  | @delegates after later last next solves rechecks unviolated built conjoins =>
    have checked := rechecks.grows (bound solves).wellFormed
    have settled := settleAll_advances checked.wellFormed (rechecks.posted (bound solves).wellFormed)
    refine ⟨after, last, ⟨solves, bound solves, rechecks, unviolated, checked, settled, built⟩,
      .delegates conjoins ?_⟩
    rw [built.advances.calls, settled.calls]
    exact checked.wellFormed.calls_live

structure Keeps (later earlier : Ledger) : Prop where
  bindings : later.bindings = earlier.bindings
  discards : later.discards = earlier.discards

theorem Allocates.keeps (grown : later.Allocates ledger) : later.Keeps ledger :=
  ⟨grown.bindings, grown.discards⟩

theorem Keeps.post (keeps : later.Keeps ledger) (posting : Posting) :
    (later.post posting).Keeps ledger := ⟨keeps.bindings, keeps.discards⟩

theorem Differs.keeps (differs : ledger.Differs left right reply later) : later.Keeps ledger := by
  cases differs with
  | apart | equal => exact ⟨rfl, rfl⟩
  | posts _ _ grown => exact grown.keeps.post _

theorem Computes.keeps {builtin : Builtin} {comparison : Comparison}
    (computes : ledger.Computes left right builtin comparison reply later) : later.Keeps ledger := by
  cases computes with
  | fails grown | decides _ _ _ _ grown => exact grown.keeps
  | posts _ _ simplified => exact simplified.grown.keeps.post _
  | solves _ _ simplified _ _ grown => exact (grown.trans simplified.grown).keeps

theorem Unifies.onward {after : Ledger} {last : Review}
    (unifies : Unifies ledger left right after last later) : later.Advances after :=
  unifies.built.advances.trans (unifies.settled.trans unifies.checked.advances)

theorem Unifies.bindings {after : Ledger} {last : Review}
    (unifies : Unifies ledger left right after last later) : later.bindings = after.bindings := by
  rw [unifies.built.bindings, settleAll_bindings, unifies.checked.bindings]

/-- A builtin that goes on binds nothing and leaves at most one goal, or it unifies. -/
theorem Performs.goesOn {builtin : Builtin}
    (performs : ledger.Performs left right builtin reply later) (wellFormed : ledger.WellFormed)
    (leftLive : ledger.Live left) (rightLive : ledger.Live right) (goesOn : reply ≠ .fails) :
    (later.Keeps ledger ∧ ∃ others, later.Leaves reply others) ∨
      ∃ after last, Unifies ledger left right after last later ∧ later.Leaves reply last.goals := by
  have laterFormed := (performs.advances wellFormed leftLive rightLive).wellFormed
  have leaves : ∃ others, later.Leaves reply others := by
    cases reply with
    | fails => exact absurd rfl goesOn
    | answers => exact ⟨[], .answers⟩
    | delegates next => exact ⟨[next], leaves_goal laterFormed performs.delegated⟩
  cases performs with
  | relaxed relaxes => exact .inl ⟨relaxes.grown.keeps, leaves⟩
  | equates _ equates => exact .inr (equates.unifies wellFormed leftLive rightLive goesOn)
  | differs _ differs => exact .inl ⟨differs.keeps, leaves⟩
  | computes _ _ computes => exact .inl ⟨computes.keeps, leaves⟩

theorem Extends.deref_same (grown : later.Extends ledger) (wellFormed : ledger.WellFormed)
    (laterFormed : later.WellFormed) (same : later.bindings = ledger.bindings) (id : TermId) :
    later.arena.deref id = ledger.arena.deref id := by
  rw [← grown.deref wellFormed laterFormed]
  apply deref_of_unbound
  rw [laterFormed.binding?_arena, Ledger.binding?, same]
  exact wellFormed.unbound_deref id

end

end Ledger

end Resolvent
