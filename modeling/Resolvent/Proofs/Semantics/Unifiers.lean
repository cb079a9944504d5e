import Resolvent.Proofs.Semantics.Values

namespace Resolvent

namespace Ledger

variable {ledger later : Ledger} {id var target left right : TermId}

/-- A variable occurs in a term, or is the term, if it occurs in the value. -/
theorem Within.occurs_iff {fuel : Nat} (within : ledger.Within fuel id) (acyclic : ledger.Acyclic)
    (wellFormed : ledger.WellFormed) (live : ledger.Live id)
    (isVar : ledger.shape? var = some .var) :
    (ledger.arena.deref id = var ∨ ledger.arena.occursWithin var fuel (ledger.arena.deref id) = true) ↔
      var ∈ (ledger.value id).vars := by
  have notVar {id : TermId} {shape : Shape} (known : ledger.shape? id = some shape)
      (other : shape ≠ .var) : id ≠ var := by
    rintro rfl
    exact other (Option.some.inj (known.symm.trans isVar))
  induction within with
  | number shape =>
    rw [acyclic.value_number wellFormed live shape]
    simp [Arena.occursWithin, node_number shape, notVar shape]
  | var shape =>
    rw [acyclic.value_var wellFormed live shape]
    simp [Arena.occursWithin, node_var shape, eq_comm]
  | @compound fuel id symbol args shape _ ih =>
    rw [acyclic.value_compound wellFormed live shape, Value.vars_compound, List.mem_flatMap]
    simp only [Arena.occursWithin, node_compound shape, List.any_eq_true, Bool.or_eq_true,
      decide_eq_true_eq, List.mem_map, notVar shape (by simp), false_or]
    constructor
    · rintro ⟨arg, member, occurs⟩
      exact ⟨_, ⟨arg, member, rfl⟩,
        (ih arg member (wellFormed.live_args shape arg member)).mp occurs⟩
    · rintro ⟨_, ⟨arg, member, rfl⟩, inside⟩
      exact ⟨arg, member, (ih arg member (wellFormed.live_args shape arg member)).mpr inside⟩

theorem Acyclic.occurs_iff (acyclic : ledger.Acyclic) (wellFormed : ledger.WellFormed)
    (live : ledger.Live id) (isVar : ledger.shape? var = some .var) :
    (ledger.arena.deref id = var ∨ ledger.arena.occurs var (ledger.arena.deref id) = true) ↔
      var ∈ (ledger.value id).vars := by
  rw [Arena.occurs, size_arena]
  exact (acyclic.within wellFormed live).occurs_iff acyclic wellFormed live isVar

theorem deref_of_unassigned (wellFormed : ledger.WellFormed) (unbound : ledger.binding? id = none) :
    ledger.arena.deref id = id :=
  deref_of_unbound ((wellFormed.binding?_arena id).trans unbound)

theorem Acyclic.value_unassigned (acyclic : ledger.Acyclic) (wellFormed : ledger.WellFormed)
    (isVar : ledger.shape? var = some .var) (unbound : ledger.binding? var = none) :
    ledger.value var = .var var := by
  have still := deref_of_unassigned wellFormed unbound
  rw [acyclic.value_var wellFormed (live_of_shape isVar) (by rw [still]; exact isVar), still]

theorem Opens.not_mem_vars (opens : ledger.Opens var target) (acyclic : ledger.Acyclic)
    (wellFormed : ledger.WellFormed) : var ∉ (ledger.value target).vars := by
  have still := deref_of_unassigned wellFormed opens.ends
  rw [← acyclic.occurs_iff wellFormed opens.live opens.isVar, still]
  rintro (same | occurs)
  · exact opens.different same.symm
  · obtain ⟨shape, known⟩ := opens.live.shape
    cases shape with
    | number value =>
      have open_ : ∀ fuel, ledger.arena.occursWithin var fuel target = false := by
        intro fuel
        cases fuel <;> simp [Arena.occursWithin, node_number known]
      exact absurd occurs (by simp [Arena.occurs, open_])
    | var =>
      have open_ : ∀ fuel, ledger.arena.occursWithin var fuel target = false := by
        intro fuel
        cases fuel <;> simp [Arena.occursWithin, node_var known]
      exact absurd occurs (by simp [Arena.occurs, open_])
    | compound symbol args => exact absurd occurs (by simp [opens.absent symbol args known])

theorem Opens.acyclic (opens : ledger.Opens var target) (acyclic : ledger.Acyclic)
    (wellFormed : ledger.WellFormed) : (ledger.bind var target).Acyclic := by
  let base : TermId → Tree := fun _ => .number default
  let values : TermId → Tree := fun id =>
    if id = var then (ledger.value target).ground base else base id
  have models := acyclic.models wellFormed values
  refine ⟨_, ⟨models.number, models.compound⟩, fun binding member => ?_⟩
  rcases List.mem_append.mp member with old | new
  · exact models.bound binding old
  · rw [List.mem_singleton.mp new]
    simp only
    rw [acyclic.value_unassigned wellFormed opens.isVar opens.unbound, Value.ground_var]
    have unchanged : (ledger.value target).ground values = (ledger.value target).ground base := by
      apply Value.ground_congr
      intro other inside
      have different : other ≠ var := by
        rintro rfl
        exact opens.not_mem_vars acyclic wellFormed inside
      exact if_neg different
    rw [unchanged]
    exact if_pos rfl

theorem Solves.acyclic {fuel : Nat} {pairs : List (TermId × TermId)} {result : Except Ledger Ledger}
    (solves : Solves fuel ledger pairs result) (acyclic : ledger.Acyclic)
    (wellFormed : ledger.WellFormed) (live : ∀ pair ∈ pairs, ledger.LivePair pair) :
    (held result).Acyclic := by
  induction solves with
  | done | spent | clashes => exact acyclic
  | same _ _ ih | sameNumber _ _ _ ih =>
    exact ih acyclic wellFormed (List.forall_mem_cons.mp live).2
  | descends leftShape rightShape _ inside _ insideIh ih =>
    have args := wellFormed.live_zip leftShape rightShape
    have grown := inside.grows wellFormed args
    exact ih (insideIh acyclic wellFormed args) grown.wellFormed
      (grown.livePairs (List.forall_mem_cons.mp live).2)
  | fails leftShape rightShape _ _ ih =>
    exact ih acyclic wellFormed (wellFormed.live_zip leftShape rightShape)
  | binds opens _ _ ih =>
    have grown := opens.binds wellFormed
    exact ih (opens.acyclic acyclic wellFormed) grown.wellFormed
      (grown.livePairs (List.forall_mem_cons.mp live).2)

theorem Joined.value (joined : ledger.Joined left right) (acyclic : ledger.Acyclic)
    (wellFormed : ledger.WellFormed) (leftLive : ledger.Live left) (rightLive : ledger.Live right) :
    ledger.value left = ledger.value right := by
  induction joined with
  | same equal =>
    rw [← acyclic.value_deref wellFormed leftLive, equal, acyclic.value_deref wellFormed rightLive]
  | number leftShape rightShape =>
    rw [acyclic.value_number wellFormed leftLive leftShape,
      acyclic.value_number wellFormed rightLive rightShape]
  | compound leftShape rightShape sameLength _ ih =>
    have args := wellFormed.live_zip leftShape rightShape
    rw [acyclic.value_compound wellFormed leftLive leftShape,
      acyclic.value_compound wellFormed rightLive rightShape,
      map_eq_of_zip sameLength fun pair member =>
        ih pair member (args pair member).1 (args pair member).2]

theorem Solves.still {fuel : Nat} {pairs : List (TermId × TermId)} {result : Except Ledger Ledger}
    (solves : Solves fuel ledger pairs result) (acyclic : ledger.Acyclic)
    (wellFormed : ledger.WellFormed) (live : ∀ pair ∈ pairs, ledger.LivePair pair)
    (same : ∀ pair ∈ pairs, ledger.value pair.1 = ledger.value pair.2) : held result = ledger := by
  have argsSame {ledger : Ledger} {left right : TermId} {symbol : Symbol}
      {lefts rights : List TermId} {rest : List (TermId × TermId)} (acyclic : ledger.Acyclic)
      (wellFormed : ledger.WellFormed)
      (live : ∀ pair ∈ (left, right) :: rest, ledger.LivePair pair)
      (same : ∀ pair ∈ (left, right) :: rest, ledger.value pair.1 = ledger.value pair.2)
      (leftShape : ledger.shape? (ledger.arena.deref left) = some (.compound symbol lefts))
      (rightShape : ledger.shape? (ledger.arena.deref right) = some (.compound symbol rights)) :
      ∀ pair ∈ lefts.zip rights, ledger.value pair.1 = ledger.value pair.2 := by
    have here := live _ List.mem_cons_self
    have whole := same _ List.mem_cons_self
    rw [acyclic.value_compound wellFormed here.1 leftShape,
      acyclic.value_compound wellFormed here.2 rightShape, Value.compound.injEq] at whole
    exact zip_eq_of_map whole.2
  induction solves with
  | done | spent | clashes => rfl
  | same _ _ ih | sameNumber _ _ _ ih =>
    exact ih acyclic wellFormed (List.forall_mem_cons.mp live).2 (List.forall_mem_cons.mp same).2
  | descends leftShape rightShape _ inside _ insideIh ih =>
    have args := wellFormed.live_zip leftShape rightShape
    obtain rfl := insideIh acyclic wellFormed args
      (argsSame acyclic wellFormed live same leftShape rightShape)
    exact ih acyclic wellFormed (List.forall_mem_cons.mp live).2 (List.forall_mem_cons.mp same).2
  | fails leftShape rightShape _ _ ih =>
    exact ih acyclic wellFormed (wellFormed.live_zip leftShape rightShape)
      (argsSame acyclic wellFormed live same leftShape rightShape)
  | @binds fuel ledger left right var target rest result opens ends _ _ =>
    have here := live _ List.mem_cons_self
    have whole := same _ List.mem_cons_self
    rw [← acyclic.value_deref wellFormed here.1, ← acyclic.value_deref wellFormed here.2] at whole
    have values : ledger.value var = ledger.value target := by
      rcases ends with ⟨rfl, rfl⟩ | ⟨rfl, rfl⟩
      · exact whole
      · exact whole.symm
    rw [acyclic.value_unassigned wellFormed opens.isVar opens.unbound] at values
    exact absurd (values ▸ List.mem_singleton_self var) (opens.not_mem_vars acyclic wellFormed)

section

variable (acyclic : ledger.Acyclic) (wellFormed : ledger.WellFormed) (leftLive : ledger.Live left)
  (rightLive : ledger.Live right)

include acyclic wellFormed leftLive rightLive

theorem Solves.values_eq (solves : Solves ledger.size ledger [(left, right)] (.ok later)) :
    later.value left = later.value right := by
  have live := leftLive.pair rightLive
  have grown : later.Binds ledger := solves.grows wellFormed live
  have joined := solves.joined wellFormed live rfl (left, right) (by simp)
  exact joined.value (solves.acyclic acyclic wellFormed live) grown.wellFormed (grown.live leftLive)
    (grown.live rightLive)

theorem Solves.unify (solves : Solves ledger.size ledger [(left, right)] (.ok later)) :
    (ledger.value left).Unify (ledger.value right) := by
  have live := leftLive.pair rightLive
  have grown : later.Binds ledger := solves.grows wellFormed live
  have laterAcyclic : later.Acyclic := solves.acyclic acyclic wellFormed live
  have same := solves.values_eq acyclic wellFormed leftLive rightLive
  rw [acyclic.value_later laterAcyclic grown.extends wellFormed grown.wellFormed leftLive,
    acyclic.value_later laterAcyclic grown.extends wellFormed grown.wellFormed rightLive] at same
  exact Value.Unify.earlier ⟨fun _ => .number default, by rw [same]⟩

theorem Solves.apart (solves : Solves ledger.size ledger [(left, right)] (.error later)) :
    ¬ (ledger.value left).Unify (ledger.value right) := by
  rintro ⟨values, same⟩
  obtain ⟨after, ended, -⟩ :=
    solves.unifies wellFormed leftLive rightLive (acyclic.models wellFormed values) same
  cases ended

theorem Solves.differ (solves : Solves ledger.size ledger [(left, right)] (.ok later))
    (bound : later ≠ ledger) : ledger.value left ≠ ledger.value right := by
  intro same
  exact bound (solves.still acyclic wellFormed (leftLive.pair rightLive)
    (by simpa using same))

end

end Ledger

end Resolvent
