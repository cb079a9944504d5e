import Resolvent.Proofs.Ledger.Surfacing
import Resolvent.Proofs.Semantics.Verdicts

namespace Resolvent

theorem Relation.Settled.later {relation : Relation} {ledger later : Ledger} {left right : TermId}
    (settled : relation.Settled (ledger.value left) (ledger.value right)) (acyclic : ledger.Acyclic)
    (laterAcyclic : later.Acyclic) (grown : later.Extends ledger) (wellFormed : ledger.WellFormed)
    (laterFormed : later.WellFormed) (leftLive : ledger.Live left) (rightLive : ledger.Live right) :
    relation.Settled (later.value left) (later.value right) := by
  have leftLater := acyclic.value_later laterAcyclic grown wellFormed laterFormed leftLive
  have rightLater := acyclic.value_later laterAcyclic grown wellFormed laterFormed rightLive
  cases relation with
  | disunification =>
    rw [leftLater, rightLater]
    exact fun unify => settled unify.earlier
  | arithmetic comparison =>
    intro unequal
    have related := settled unequal
    have leftVars := (Value.isGround_iff _).mp related.leftGround
    have rightVars := (Value.isGround_iff _).mp related.rightGround
    rw [acyclic.value_kept laterAcyclic grown wellFormed laterFormed leftLive (by simp [leftVars]),
      acyclic.value_kept laterAcyclic grown wellFormed laterFormed rightLive (by simp [rightVars])]
    exact related

namespace Ledger

variable {ledger later : Ledger}

inductive Judged (first last : Ledger) (id : ConstraintId) (verdict : Verdict) : Prop where
  | intro {base after : Ledger} {posting : Posting} (before : base.Allocates first)
      (posted : first.postings[id.index]? = some posting)
      (judges : base.Judges posting verdict after) (onward : last.Allocates after) :
      Judged first last id verdict

theorem Judged.earlier {first middle last : Ledger} {id : ConstraintId} {verdict : Verdict}
    (judged : middle.Judged last id verdict) (grown : middle.Allocates first) :
    first.Judged last id verdict := by
  obtain ⟨before, posted, judges, onward⟩ := judged
  exact ⟨before.trans grown, grown.postings ▸ posted, judges, onward⟩

/-- A verdict tells of the values that the sides had before any posting was decided. -/
theorem Judged.means {first last : Ledger} {id : ConstraintId} {verdict : Verdict}
    {posting : Posting} {meaning : Relation → Value → Value → Prop}
    (judged : first.Judged last id verdict) (acyclic : first.Acyclic) (wellFormed : first.WellFormed)
    (posted : first.postings[id.index]? = some posting)
    (sound : ∀ {base later : Ledger}, base.Acyclic → base.WellFormed → base.Live posting.left →
      base.Live posting.right → base.Judges posting verdict later →
        meaning posting.relation (base.value posting.left) (base.value posting.right)) :
    meaning posting.relation (first.value posting.left) (first.value posting.right) := by
  obtain ⟨before, found, judges, -⟩ := judged
  cases posted.symm.trans found
  have listed := List.mem_of_getElem? posted
  have leftLive := wellFormed.posting_left posting listed
  have rightLive := wellFormed.posting_right posting listed
  have meant := sound (acyclic.allocates wellFormed before) before.wellFormed (before.live leftLive)
    (before.live rightLive) judges
  rwa [acyclic.value_allocates wellFormed before leftLive,
    acyclic.value_allocates wellFormed before rightLive] at meant

structure Reviewed (ids : List ConstraintId) (review last : Review) : Prop where
  kept : ∀ id ∈ ids, id ∉ last.discards → review.ledger.Judged last.ledger id .undecided
  discarded : ∀ id ∈ last.discards, id ∈ review.discards ∨
    ∃ verdict, review.ledger.Judged last.ledger id verdict ∧
      (verdict = .satisfied ∨ ∃ goal ∈ last.goals, verdict = .solved goal)
  discards : review.discards ⊆ last.discards
  goals : review.goals ⊆ last.goals

theorem Reviewed.cons {id : ConstraintId} {ids : List ConstraintId} {review middle last : Review}
    (reviewed : Reviewed ids middle last) (grown : middle.ledger.Allocates review.ledger)
    (discards : review.discards ⊆ middle.discards) (goals : review.goals ⊆ middle.goals)
    (here : id ∉ last.discards → review.ledger.Judged last.ledger id .undecided)
    (new : ∀ other ∈ middle.discards, other ∈ review.discards ∨
      ∃ verdict, review.ledger.Judged last.ledger other verdict ∧
        (verdict = .satisfied ∨ ∃ goal ∈ middle.goals, verdict = .solved goal)) :
    Reviewed (id :: ids) review last where
  kept other member undiscarded := by
    rcases List.mem_cons.mp member with rfl | rest
    · exact here undiscarded
    · exact (reviewed.kept other rest undiscarded).earlier grown
  discarded other member := by
    rcases reviewed.discarded other member with old | ⟨verdict, judged, decided⟩
    · rcases new other old with before | ⟨verdict, judged, decided⟩
      · exact .inl before
      · refine .inr ⟨verdict, judged, decided.imp_right ?_⟩
        rintro ⟨goal, listed, same⟩
        exact ⟨goal, reviewed.goals listed, same⟩
    · exact .inr ⟨verdict, judged.earlier grown, decided⟩
  discards := fun _ member => reviewed.discards (discards member)
  goals := fun _ member => reviewed.goals (goals member)

theorem Rechecks.reviewed {ids : List ConstraintId} {review last : Review}
    (rechecks : Rechecks ids review last) (wellFormed : review.ledger.WellFormed)
    (unviolated : last.violated = false) : Reviewed ids review last := by
  induction rechecks with
  | done =>
    exact ⟨by simp, fun id member => .inl member, List.Subset.refl _, List.Subset.refl _⟩
  | violated => cases unviolated
  | undecided posted judges goesOn ih =>
    have grown := judges.grows wellFormed
    have onward := goesOn.grows grown.wellFormed
    exact (ih grown.wellFormed unviolated).cons grown (List.Subset.refl _) (List.Subset.refl _)
      (fun _ => ⟨.refl wellFormed, posted, judges, onward⟩) fun other member => .inl member
  | satisfied posted judges goesOn ih =>
    have grown := judges.grows wellFormed
    have onward := goesOn.grows grown.wellFormed
    have rest := ih grown.wellFormed unviolated
    refine rest.cons grown (List.subset_append_left _ _) (List.Subset.refl _)
      (fun undiscarded => absurd (rest.discards (by simp)) undiscarded) fun other member => ?_
    rcases List.mem_append.mp member with old | new
    · exact .inl old
    · rw [List.mem_singleton.mp new]
      exact .inr ⟨_, ⟨.refl wellFormed, posted, judges, onward⟩, .inl rfl⟩
  | @solved id ids review last posting later goal posted judges goesOn ih =>
    have grown := judges.grows wellFormed
    have onward := goesOn.grows grown.wellFormed
    have rest := ih grown.wellFormed unviolated
    refine rest.cons grown (List.subset_append_left _ _) (List.subset_append_left _ _)
      (fun undiscarded => absurd (rest.discards (by simp)) undiscarded) fun other member => ?_
    rcases List.mem_append.mp member with old | new
    · exact .inl old
    · rw [List.mem_singleton.mp new]
      exact .inr ⟨_, ⟨.refl wellFormed, posted, judges, onward⟩, .inr ⟨goal, by simp, rfl⟩⟩

theorem Acyclic.leads (acyclic : ledger.Acyclic) (wellFormed : ledger.WellFormed) {id : TermId}
    (live : ledger.Live id) {var : TermId} (member : var ∈ (ledger.value id).vars) :
    ledger.Leads id var := by
  induction id, live using acyclic.induct wellFormed with
  | number id live value shape => simp [acyclic.value_number wellFormed live shape] at member
  | var id live shape =>
    rw [acyclic.value_var wellFormed live shape, Value.vars_var, List.mem_singleton] at member
    rw [member]
    exact leads_deref wellFormed id
  | compound id live symbol args shape ih =>
    rw [acyclic.value_compound wellFormed live shape, Value.vars_compound] at member
    obtain ⟨value, listed, inside⟩ := List.mem_flatMap.mp member
    obtain ⟨arg, argListed, rfl⟩ := List.mem_map.mp listed
    have argLive := wellFormed.live_args shape arg argListed
    exact (leads_deref wellFormed id).trans (.arg shape argListed (ih arg argListed argLive inside))

/-- Every variable left in the sides of a constraint is reached from one that it was posted with. -/
def Watched (ledger : Ledger) (posting : Posting) : Prop :=
  ∀ var, var ∈ (ledger.value posting.left).vars ∨ var ∈ (ledger.value posting.right).vars →
    ∃ watch ∈ posting.vars, var ∈ (ledger.value watch).vars

/-- What holds of all constraints while a search goes on. -/
structure Upheld (ledger : Ledger) : Prop where
  acyclic : ledger.Acyclic
  watched : ∀ posting ∈ ledger.postings, ledger.Watched posting
  isOpen : ∀ {index : Nat} {posting : Posting}, ledger.postings[index]? = some posting →
    (⟨index⟩ : ConstraintId) ∉ ledger.discards →
      posting.relation.Open (ledger.value posting.left) (ledger.value posting.right)
  isSettled : ∀ {index : Nat} {posting : Posting}, ledger.postings[index]? = some posting →
    (⟨index⟩ : ConstraintId) ∈ ledger.discards →
      posting.relation.Settled (ledger.value posting.left) (ledger.value posting.right)

theorem Watched.onward {posting : Posting} (watched : ledger.Watched posting)
    (acyclic : ledger.Acyclic) (laterAcyclic : later.Acyclic) (grown : later.Extends ledger)
    (wellFormed : ledger.WellFormed) (laterFormed : later.WellFormed)
    (listed : posting ∈ ledger.postings) : later.Watched posting := by
  have values {id : TermId} (live : ledger.Live id) (var : TermId) :
      var ∈ (later.value id).vars ↔
        ∃ old ∈ (ledger.value id).vars, var ∈ (later.value old).vars := by
    rw [acyclic.value_later laterAcyclic grown wellFormed laterFormed live, Value.vars_subst,
      List.mem_flatMap]
  intro var member
  rw [values (wellFormed.posting_left posting listed),
    values (wellFormed.posting_right posting listed), ← exists_or] at member
  obtain ⟨old, inside⟩ := member
  obtain ⟨watch, watches, reached⟩ := watched old (inside.imp And.left And.left)
  have live := live_of_shape (wellFormed.posting_var posting listed watch watches)
  exact ⟨watch, watches, (values live var).mpr ⟨old, reached, inside.elim And.right And.right⟩⟩

theorem Upheld.stays (upheld : ledger.Upheld) (wellFormed : ledger.WellFormed)
    (stays : later.Stays ledger) (postings : later.postings = ledger.postings)
    (discards : later.discards = ledger.discards) : later.Upheld := by
  have acyclic := stays.acyclic upheld.acyclic wellFormed
  have same {id : TermId} (live : ledger.Live id) := stays.value upheld.acyclic wellFormed live
  refine ⟨acyclic, fun posting listed => ?_, fun posted undiscarded => ?_, fun posted discarded => ?_⟩
  · rw [postings] at listed
    exact (upheld.watched posting listed).onward upheld.acyclic acyclic stays.extends wellFormed
      stays.wellFormed listed
  · rw [postings] at posted
    rw [discards] at undiscarded
    have listed := List.mem_of_getElem? posted
    rw [same (wellFormed.posting_left _ listed), same (wellFormed.posting_right _ listed)]
    exact upheld.isOpen posted undiscarded
  · rw [postings] at posted
    rw [discards] at discarded
    have listed := List.mem_of_getElem? posted
    rw [same (wellFormed.posting_left _ listed), same (wellFormed.posting_right _ listed)]
    exact upheld.isSettled posted discarded

theorem Upheld.post (upheld : ledger.Upheld) (wellFormed : ledger.WellFormed) {relation : Relation}
    {left right : TermId} (leftLive : ledger.Live left) (rightLive : ledger.Live right)
    (isOpen : relation.Open (ledger.value left) (ledger.value right)) :
    (ledger.post (ledger.posting relation left right)).Upheld := by
  have advances := post_advances wellFormed relation leftLive rightLive
  have stays : (ledger.post (ledger.posting relation left right)).Stays ledger :=
    .marks advances.wellFormed advances.grown rfl rfl
  have acyclic := stays.acyclic upheld.acyclic wellFormed
  have same {id : TermId} (live : ledger.Live id) := stays.value upheld.acyclic wellFormed live
  -- The posting is the last one, and no place among the discards is its place.
  have cases {index : Nat} {posting : Posting}
      (posted : (ledger.post (ledger.posting relation left right)).postings[index]? = some posting) :
      ledger.postings[index]? = some posting ∨
        posting = ledger.posting relation left right ∧ index = ledger.postings.length := by
    rw [Ledger.post, List.getElem?_append] at posted
    split at posted
    · exact .inl posted
    · next past =>
      rw [List.getElem?_singleton] at posted
      split at posted
      · next here => exact .inr ⟨(Option.some.inj posted).symm, by omega⟩
      · cases posted
  refine ⟨acyclic, fun posting listed => ?_, fun posted undiscarded => ?_, fun posted discarded => ?_⟩
  · rcases List.mem_append.mp listed with old | new
    · exact (upheld.watched posting old).onward upheld.acyclic acyclic stays.extends wellFormed
        stays.wellFormed old
    · rw [List.mem_singleton.mp new]
      intro var inside
      have member : var ∈ (ledger.value left).vars ∨ var ∈ (ledger.value right).vars := by
        rw [← same leftLive, ← same rightLive]
        exact inside
      refine ⟨var, ?_, ?_⟩
      · rw [Posting.vars, Ledger.posting, Arena.occurrencesOfPair,
          upheld.acyclic.occurrences wellFormed leftLive,
          upheld.acyclic.occurrences wellFormed rightLive, vars_found, vars_found]
        simpa using member
      · obtain ⟨isVar, unbound⟩ := member.elim
          (upheld.acyclic.vars_open wellFormed leftLive var)
          (upheld.acyclic.vars_open wellFormed rightLive var)
        rw [same (live_of_shape isVar), upheld.acyclic.value_unassigned wellFormed isVar unbound]
        simp
  · rcases cases posted with old | ⟨rfl, -⟩
    · have listed := List.mem_of_getElem? old
      rw [same (wellFormed.posting_left _ listed), same (wellFormed.posting_right _ listed)]
      exact upheld.isOpen old undiscarded
    · rw [← same leftLive, ← same rightLive] at isOpen
      exact isOpen
  · rcases cases posted with old | ⟨-, rfl⟩
    · have listed := List.mem_of_getElem? old
      rw [same (wellFormed.posting_left _ listed), same (wellFormed.posting_right _ listed)]
      exact upheld.isSettled old discarded
    · exact absurd (wellFormed.discards_posted _ discarded) (Nat.lt_irrefl _)

theorem mem_settleAll (ledger : Ledger) (ids : List ConstraintId) (id : ConstraintId) :
    id ∈ (ledger.settleAll ids).discards ↔ id ∈ ledger.discards ∨ id ∈ ids := by
  induction ids generalizing ledger with
  | nil => simp [settleAll]
  | cons first rest ih =>
    rw [settleAll, List.foldl_cons, ← settleAll, ih, settle, List.mem_cons]
    split
    · next listed =>
      constructor
      · rintro (old | later)
        · exact .inl old
        · exact .inr (.inr later)
      · rintro (old | rfl | later)
        · exact .inl old
        · exact .inl listed
        · exact .inr later
    · simp only [discard, List.mem_append, List.mem_singleton]
      tauto

section

variable {left right : TermId} {after : Ledger} {last : Review}

theorem Upheld.unconcerned (upheld : ledger.Upheld) (wellFormed : ledger.WellFormed)
    (binds : after.Binds ledger) (afterAcyclic : after.Acyclic) {index : Nat} {posting : Posting}
    (posted : ledger.postings[index]? = some posting)
    (undiscarded : (⟨index⟩ : ConstraintId) ∉ ledger.discards)
    (asleep : (⟨index⟩ : ConstraintId) ∉ after.concerned ledger) :
    after.value posting.left = ledger.value posting.left ∧
      after.value posting.right = ledger.value posting.right := by
  have listed := List.mem_of_getElem? posted
  have unbound (var : TermId)
      (member : var ∈ (ledger.value posting.left).vars ∨ var ∈ (ledger.value posting.right).vars) :
      after.binding? var = none := by
    obtain ⟨watch, watches, reached⟩ := upheld.watched posting listed var member
    have live := live_of_shape (wellFormed.posting_var posting listed watch watches)
    obtain ⟨isVar, free⟩ := upheld.acyclic.vars_open wellFormed live var reached
    cases bound : after.binding? var with
    | none => rfl
    | some target =>
      refine absurd (mem_woken binds.wellFormed ?_ (binds.mem_boundSince free bound)
        ((upheld.acyclic.leads wellFormed live reached).later binds.extends) ?_ watches ?_) asleep
      · obtain ⟨formed, pairs, rfl⟩ := binds
        intro id member
        rw [boundSince_eq rfl] at member
        obtain ⟨binding, inside, rfl⟩ := List.mem_map.mp member
        exact live_of_shape (formed.bound_var binding (List.mem_append_right _ inside))
      · rw [binds.postings]
        exact posted
      · rw [binds.discards]
        exact undiscarded
  exact ⟨upheld.acyclic.value_kept afterAcyclic binds.extends wellFormed binds.wellFormed
      (wellFormed.posting_left posting listed) fun var member => unbound var (.inl member),
    upheld.acyclic.value_kept afterAcyclic binds.extends wellFormed binds.wellFormed
      (wellFormed.posting_right posting listed) fun var member => unbound var (.inr member)⟩

/-- After a unification every constraint that it concerns was decided again. -/
theorem Upheld.unified (upheld : ledger.Upheld) (wellFormed : ledger.WellFormed)
    (leftLive : ledger.Live left) (rightLive : ledger.Live right)
    (solves : Solves ledger.size ledger [(left, right)] (.ok after))
    (rechecks : Rechecks (after.concerned ledger) (after.review ledger) last)
    (unviolated : last.violated = false) : (last.ledger.settleAll last.discards).Upheld := by
  have live := leftLive.pair rightLive
  have binds : after.Binds ledger := solves.grows wellFormed live
  have afterAcyclic : after.Acyclic := solves.acyclic upheld.acyclic wellFormed live
  have reviewed := rechecks.reviewed binds.wellFormed unviolated
  have checked : last.ledger.Allocates after := rechecks.grows binds.wellFormed
  have discards := checked.discards.trans binds.discards
  have posted := rechecks.posted binds.wellFormed
  have advances := settleAll_advances checked.wellFormed posted
  have settles := settleAll_stays checked.wellFormed posted
  have lastAcyclic := afterAcyclic.allocates binds.wellFormed checked
  have acyclic := settles.acyclic lastAcyclic checked.wellFormed
  have grown := advances.grown.trans (checked.extends.trans binds.extends)
  have samePostings : (last.ledger.settleAll last.discards).postings = ledger.postings := by
    rw [settleAll_postings, checked.postings, binds.postings]
  have same {id : TermId} (live : after.Live id) :
      (last.ledger.settleAll last.discards).value id = after.value id := by
    rw [settles.value lastAcyclic checked.wellFormed (checked.live live),
      afterAcyclic.value_allocates binds.wellFormed checked live]
  refine ⟨acyclic, fun posting listed => ?_, fun {index posting} posted undiscarded => ?_,
    fun {index posting} posted discarded => ?_⟩
  · rw [samePostings] at listed
    exact (upheld.watched posting listed).onward upheld.acyclic acyclic grown wellFormed
      advances.wellFormed listed
  · rw [samePostings] at posted
    rw [mem_settleAll, discards, not_or] at undiscarded
    have listed := List.mem_of_getElem? posted
    rw [same (binds.live (wellFormed.posting_left posting listed)),
      same (binds.live (wellFormed.posting_right posting listed))]
    -- A constraint that was not woken reads as before, since nothing that it concerns was bound.
    by_cases awake : (⟨index⟩ : ConstraintId) ∈ after.concerned ledger
    · exact (reviewed.kept _ awake undiscarded.2).means afterAcyclic binds.wellFormed
        (binds.postings ▸ posted)
        fun acyclic wellFormed left right judges => judges.isOpen acyclic wellFormed left right
    · obtain ⟨leftSame, rightSame⟩ :=
        upheld.unconcerned wellFormed binds afterAcyclic posted undiscarded.1 awake
      rw [leftSame, rightSame]
      exact upheld.isOpen posted undiscarded.1
  · rw [samePostings] at posted
    have listed := List.mem_of_getElem? posted
    rw [mem_settleAll, discards] at discarded
    rcases discarded with old | new
    · exact (upheld.isSettled posted old).later upheld.acyclic acyclic grown wellFormed
        advances.wellFormed (wellFormed.posting_left posting listed)
        (wellFormed.posting_right posting listed)
    · rcases reviewed.discarded _ new with none | ⟨verdict, found, decided⟩
      · cases none
      · rw [same (binds.live (wellFormed.posting_left posting listed)),
          same (binds.live (wellFormed.posting_right posting listed))]
        refine found.means afterAcyclic binds.wellFormed (binds.postings ▸ posted)
          fun acyclic wellFormed left right judges =>
            judges.isSettled acyclic wellFormed left right (decided.imp_right ?_)
        rintro ⟨goal, -, same⟩
        exact ⟨goal, same⟩

end

end Ledger

end Resolvent
