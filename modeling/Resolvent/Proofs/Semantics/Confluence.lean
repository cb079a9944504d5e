import Resolvent.Proofs.Semantics.Acyclicity
import Resolvent.Proofs.Semantics.MostGeneral
import Resolvent.Proofs.Semantics.Verdicts

namespace Resolvent

/-- What a term reads as is told by what the variables of its value read as. -/
theorem Models.ground_value {ledger : Ledger} {ρ : TermId → Tree} (models : Models ρ ledger)
    (wellFormed : ledger.WellFormed) {id : TermId} (live : ledger.Live id) :
    (ledger.value id).ground ρ = ρ id := by
  have acyclic : ledger.Acyclic := ⟨ρ, models⟩
  induction id, live using acyclic.induct wellFormed with
  | number id live value shape =>
    rw [acyclic.value_number wellFormed live shape, Value.ground_number, ← models.number shape,
      models.deref wellFormed]
  | var id live shape =>
    rw [acyclic.value_var wellFormed live shape, Value.ground_var, models.deref wellFormed]
  | compound id live symbol args shape ih =>
    rw [acyclic.value_compound wellFormed live shape, Value.ground_compound, List.map_map,
      ← models.deref wellFormed id, models.compound shape]
    congr 1
    exact List.map_congr_left fun arg member => ih arg member (wellFormed.live_args shape arg member)

namespace Ledger

variable {base first second later ledger : Ledger} {id : TermId}

/-- Every reading of the terms of one ledger is one of another, as far as older terms go. -/
def Covers (first second base : Ledger) : Prop :=
  ∀ ρ, Models ρ second → ∃ τ, Models τ first ∧ ∀ id, base.Live id → τ id = ρ id

def Closed (later base : Ledger) : Prop :=
  ∀ id, base.Live id → ∀ var ∈ (later.value id).vars, base.Live var

theorem Covers.value_subst (covers : Covers first second base) (firstFormed : first.WellFormed)
    (secondFormed : second.WellFormed) (secondAcyclic : second.Acyclic)
    (grown : first.Extends base) (closed : first.Closed base) (live : base.Live id) :
    (first.value id).subst second.value = second.value id := by
  refine Value.eq_of_ground fun values => ?_
  obtain ⟨τ, models, same⟩ := covers _ (secondAcyclic.models secondFormed values)
  rw [Value.ground_subst, ← same id live, ← models.ground_value firstFormed (grown.live live)]
  exact Value.ground_congr fun var inside => (same var (closed id live var inside)).symm

theorem Oriented.le_of_value (oriented : ledger.Oriented) {var : TermId} (live : ledger.Live id)
    (isVar : ledger.value id = .var var) : var.index ≤ id.index := by
  have wellFormed := oriented.wellFormed
  have acyclic := oriented.acyclic
  obtain ⟨shape, known⟩ := (wellFormed.live_deref live).shape
  cases shape with
  | number value =>
    rw [acyclic.value_number wellFormed live known] at isVar
    cases isVar
  | var =>
    rw [acyclic.value_var wellFormed live known] at isVar
    cases isVar
    exact oriented.deref_le known
  | compound symbol args =>
    rw [acyclic.value_compound wellFormed live known] at isVar
    cases isVar

theorem Oriented.value_eq (firstOriented : first.Oriented) (secondOriented : second.Oriented)
    (firstGrown : first.Extends base) (secondGrown : second.Extends base)
    (firstClosed : first.Closed base) (secondClosed : second.Closed base)
    (there : Covers first second base) (back : Covers second first base) (live : base.Live id) :
    first.value id = second.value id := by
  have forth {id : TermId} (live : base.Live id) := there.value_subst firstOriented.wellFormed
    secondOriented.wellFormed secondOriented.acyclic firstGrown firstClosed live
  have back {id : TermId} (live : base.Live id) := back.value_subst secondOriented.wellFormed
    firstOriented.wellFormed firstOriented.acyclic secondGrown secondClosed live
  rw [← forth live]
  symm
  refine (Value.subst_congr fun var inside => ?_).trans (Value.subst_self _)
  -- A variable that is not bound in one ledger is no other one in the second: each would have to be
  -- older than the other.
  obtain ⟨isVar, unbound⟩ := firstOriented.acyclic.vars_open firstOriented.wellFormed
    (firstGrown.live live) var inside
  have varLive := firstClosed id live var inside
  have own : first.value var = .var var :=
    firstOriented.acyclic.value_unassigned firstOriented.wellFormed isVar unbound
  have around := back varLive
  rw [own] at around
  cases known : second.value var with
  | number value => simp [known] at around
  | compound symbol args => simp [known] at around
  | var other =>
    rw [known, Value.subst_var] at around
    have otherLive : base.Live other := secondClosed var varLive other (by simp [known])
    have older := secondOriented.le_of_value (secondGrown.live varLive) known
    have younger := firstOriented.le_of_value (firstGrown.live otherLive) around
    have same : other = var := by
      cases other
      cases var
      simp only [TermId.mk.injEq] at older younger ⊢
      omega
    rw [same]

def Joins (ρ : TermId → Tree) (ledger : Ledger) (pairs : List (TermId × TermId)) : Prop :=
  Models ρ ledger ∧ ∀ pair ∈ pairs, ρ pair.1 = ρ pair.2

/-- The readings after unification are those before that read the two terms as the same. -/
theorem Solves.models_iff {ρ : TermId → Tree} {left right : TermId} (wellFormed : ledger.WellFormed)
    (live : ledger.LivePair (left, right))
    (solves : Solves ledger.size ledger [(left, right)] (.ok later)) :
    Models ρ later ↔ Joins ρ ledger [(left, right)] := by
  have lives : ∀ pair ∈ [(left, right)], ledger.LivePair pair := by simpa using live
  have grown : later.Binds ledger := solves.grows wellFormed lives
  constructor
  · intro models
    exact ⟨models.earlier grown.extends, solves.sound wellFormed lives rfl models⟩
  · rintro ⟨models, same⟩
    obtain ⟨after, ended, modelsToo⟩ :=
      solves.unifies wellFormed live.1 live.2 models (same _ List.mem_cons_self)
    cases ended
    exact modelsToo

end Ledger

def State.unifyAll (state : State) : List (TermId × TermId) → Option State
  | [] => some state
  | (left, right) :: rest =>
    match state.unify left right with
    | (true, later) => later.unifyAll rest
    | (false, _) => none

namespace Ledger

variable {later ledger : Ledger}

/-- Unifying pairs fails if no trees read both terms of each pair as the same, and leaves just those
    trees otherwise. -/
theorem Oriented.unifyAll (oriented : ledger.Oriented) {pairs : List (TermId × TermId)}
    (live : ∀ pair ∈ pairs, ledger.LivePair pair) (counters : Counters) :
    (∃ later : Ledger, later.Oriented ∧ later.Binds ledger ∧
      (∀ ρ, Models ρ later ↔ Joins ρ ledger pairs) ∧
      ∃ others, (ledger.state counters).unifyAll pairs = some (later.state others)) ∨
    (∀ ρ, ¬ Joins ρ ledger pairs) ∧ (ledger.state counters).unifyAll pairs = none := by
  induction pairs generalizing ledger counters with
  | nil =>
    exact .inl ⟨ledger, oriented, .refl oriented.wellFormed, by simp [Joins], counters, rfl⟩
  | cons pair rest ih =>
    obtain ⟨left, right⟩ := pair
    have here := live (left, right) List.mem_cons_self
    have lives : ∀ pair ∈ [(left, right)], ledger.LivePair pair := by simpa using here
    rcases unify_state oriented.wellFormed here.1 here.2 with
      ⟨middle, solves, grown, run⟩ | ⟨clash, solves, run⟩
    · obtain ⟨others, same⟩ := run counters
      have iff (ρ : TermId → Tree) : Joins ρ ledger ((left, right) :: rest) ↔ Joins ρ middle rest := by
        rw [Joins, Joins, solves.models_iff oriented.wellFormed here, Joins, and_assoc]
        simp
      simp only [State.unifyAll, same, iff]
      exact (ih (oriented.solves solves lives)
        (grown.livePairs (List.forall_mem_cons.mp live).2) others).imp_left
        fun ⟨later, laterOriented, more, readings, run⟩ =>
          ⟨later, laterOriented, more.trans grown, readings, run⟩
    · obtain ⟨others, same⟩ := run counters
      refine .inr ⟨fun ρ joins => ?_, by simp only [State.unifyAll, same]⟩
      obtain ⟨later, ended, -⟩ := solves.unifies oriented.wellFormed here.1 here.2 joins.1
        (joins.2 _ List.mem_cons_self)
      cases ended

theorem Binds.closed (grown : later.Binds ledger) (acyclic : later.Acyclic) :
    later.Closed ledger := by
  intro id live var inside
  have isVar := (acyclic.vars_open grown.wellFormed (grown.live live) var inside).1
  rw [grown.shape? var] at isVar
  exact live_of_shape isVar

theorem Oriented.value_eq_of_iff {first second : Ledger} (firstOriented : first.Oriented)
    (secondOriented : second.Oriented) (firstGrown : first.Binds ledger)
    (secondGrown : second.Binds ledger) (iff : ∀ ρ, Models ρ first ↔ Models ρ second) {id : TermId}
    (live : ledger.Live id) : first.value id = second.value id :=
  firstOriented.value_eq secondOriented firstGrown.extends secondGrown.extends
    (firstGrown.closed firstOriented.acyclic) (secondGrown.closed secondOriented.acyclic)
    (fun ρ models => ⟨ρ, (iff ρ).mpr models, fun _ _ => rfl⟩)
    (fun ρ models => ⟨ρ, (iff ρ).mp models, fun _ _ => rfl⟩) live

end Ledger

inductive State.Merges (start : State) : State → Prop where
  | start : Merges start start
  | unify {state later : State} (merges : Merges start state) {left right : TermId}
      (leftInside : state.arena.contains left = true)
      (rightInside : state.arena.contains right = true)
      (run : state.unify left right = (true, later)) : Merges start later

/-- The same pairs in another order, some of them turned round. -/
def Reordered (pairs others : List (TermId × TermId)) : Prop :=
  ∃ shuffled, pairs.Perm shuffled ∧
    List.Forall₂ (fun pair other => other = pair ∨ other = pair.swap) shuffled others

theorem Reordered.each {pairs others : List (TermId × TermId)} (reordered : Reordered pairs others)
    (property : TermId × TermId → Prop) (swap : ∀ pair, property pair → property pair.swap) :
    (∀ pair ∈ pairs, property pair) ↔ ∀ pair ∈ others, property pair := by
  obtain ⟨shuffled, perm, turned⟩ := reordered
  have shuffle : (∀ pair ∈ pairs, property pair) ↔ ∀ pair ∈ shuffled, property pair :=
    forall_congr' fun pair => by rw [perm.mem_iff]
  rw [shuffle]
  clear perm shuffle
  induction turned with
  | nil => exact Iff.rfl
  | @cons pair other rest others turned _ ih =>
    rw [List.forall_mem_cons, List.forall_mem_cons]
    refine and_congr ?_ ih
    rcases turned with rfl | rfl
    · exact Iff.rfl
    · exact ⟨swap pair, fun holds => by simpa using swap _ holds⟩

theorem State.Merges.oriented {start state : State} (merges : start.Merges state)
    (sound : start.Sound) (unbound : start.assigned = #[]) :
    ∃ ledger : Ledger, ledger.Oriented ∧ ∃ counters, state = ledger.state counters := by
  induction merges with
  | start =>
    obtain ⟨ledger, wellFormed, acyclic, counters, rfl⟩ := sound
    have none : ledger.bindings = [] := by simpa [Ledger.state] using unbound
    exact ⟨ledger, ⟨wellFormed, acyclic, by simp [Ledger.Falls, none]⟩, counters, rfl⟩
  | unify _ leftInside rightInside run ih =>
    obtain ⟨ledger, oriented, counters, rfl⟩ := ih
    obtain ⟨later, laterOriented, -, others, same⟩ :=
      oriented.unify ((Ledger.contains_arena ledger _).mp leftInside)
        ((Ledger.contains_arena ledger _).mp rightInside) counters
    exact ⟨later, laterOriented, others, by rw [← same, run]⟩

/-- Whether pairs of terms can be unified one after the other, and what values all terms have then,
    does not depend on the order of the pairs or on which term of a pair comes first. -/
theorem unifyAll_reordered {start state : State} (sound : start.Sound)
    (unbound : start.assigned = #[]) (merges : start.Merges state)
    {pairs others : List (TermId × TermId)}
    (inside : ∀ pair ∈ pairs,
      state.arena.contains pair.1 = true ∧ state.arena.contains pair.2 = true)
    (reordered : Reordered pairs others) :
    (state.unifyAll pairs).isSome = (state.unifyAll others).isSome ∧
    ∀ first second, state.unifyAll pairs = some first → state.unifyAll others = some second →
      ∀ id, state.arena.contains id = true → first.arena.value id = second.arena.value id := by
  obtain ⟨ledger, oriented, counters, rfl⟩ := merges.oriented sound unbound
  have live : ∀ pair ∈ pairs, ledger.LivePair pair := fun pair member =>
    ⟨(Ledger.contains_arena ledger _).mp (inside pair member).1,
      (Ledger.contains_arena ledger _).mp (inside pair member).2⟩
  have otherLive : ∀ pair ∈ others, ledger.LivePair pair :=
    (reordered.each ledger.LivePair fun _ live => ⟨live.2, live.1⟩).mp live
  have joins (ρ : TermId → Tree) : Ledger.Joins ρ ledger pairs ↔ Ledger.Joins ρ ledger others :=
    and_congr_right fun _ =>
      reordered.each (fun pair => ρ pair.1 = ρ pair.2) fun _ same => same.symm
  rcases oriented.unifyAll live counters with
    ⟨first, firstOriented, firstGrown, firstIff, firstCounters, firstRun⟩ | ⟨apart, failed⟩
  · rcases oriented.unifyAll otherLive counters with
      ⟨second, secondOriented, secondGrown, secondIff, secondCounters, secondRun⟩ | ⟨apart, failed⟩
    · rw [firstRun, secondRun]
      refine ⟨rfl, ?_⟩
      rintro _ _ ⟨⟩ ⟨⟩ id idInside
      refine firstOriented.value_eq_of_iff secondOriented firstGrown secondGrown (fun ρ => ?_)
        ((Ledger.contains_arena ledger id).mp idInside)
      rw [firstIff, secondIff, joins]
    · obtain ⟨ρ, models⟩ := firstOriented.acyclic
      exact absurd ((joins ρ).mp ((firstIff ρ).mp models)) (apart ρ)
  · rcases oriented.unifyAll otherLive counters with
      ⟨second, secondOriented, -, secondIff, -⟩ | ⟨-, alsoFailed⟩
    · obtain ⟨ρ, models⟩ := secondOriented.acyclic
      exact absurd ((joins ρ).mpr ((secondIff ρ).mp models)) (apart ρ)
    · rw [failed, alsoFailed]
      exact ⟨rfl, nofun⟩

namespace Shuffled

def terms : List Shape :=
  [.var, .var, .var, .var, .compound (.user 0) [⟨0⟩, ⟨1⟩], .compound (.user 0) [⟨2⟩, ⟨3⟩],
    .compound (.user 0) [⟨3⟩, ⟨3⟩]]

def start : State := { arena := (Arena.build? {} terms).getD {} }

def aliased : State := (start.unify ⟨2⟩ ⟨1⟩).2

def pairs : List (TermId × TermId) := [(⟨4⟩, ⟨5⟩), (⟨5⟩, ⟨6⟩)]

def others : List (TermId × TermId) := [(⟨6⟩, ⟨5⟩), (⟨4⟩, ⟨5⟩)]

theorem same_values : start.Sound ∧ start.assigned = #[] ∧ start.Merges aliased ∧
    Reordered pairs others ∧ (aliased.unifyAll pairs).isSome = true ∧
    (aliased.unifyAll pairs).map State.assigned ≠ (aliased.unifyAll others).map State.assigned ∧
    (aliased.unifyAll pairs).isSome = (aliased.unifyAll others).isSome ∧
    ∀ first second, aliased.unifyAll pairs = some first → aliased.unifyAll others = some second →
      ∀ id, aliased.arena.contains id = true → first.arena.value id = second.arena.value id := by
  have sound : start.Sound := @sound_of_build terms _ {} (by decide +kernel)
  have unbound : start.assigned = #[] := by decide +kernel
  have merges : start.Merges aliased :=
    .unify .start (by decide +kernel) (by decide +kernel) (Prod.ext (by decide +kernel) rfl)
  have reordered : Reordered pairs others :=
    ⟨[(⟨5⟩, ⟨6⟩), (⟨4⟩, ⟨5⟩)], .swap _ _ _, .cons (.inr rfl) (.cons (.inl rfl) .nil)⟩
  exact ⟨sound, unbound, merges, reordered, by decide +kernel, by decide +kernel,
    unifyAll_reordered sound unbound merges (by decide +kernel) reordered⟩

end Shuffled

end Resolvent
