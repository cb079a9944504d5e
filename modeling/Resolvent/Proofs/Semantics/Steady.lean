import Resolvent.Proofs.Search.Unfolding
import Resolvent.Proofs.Semantics.Fragment

namespace Resolvent

variable {program : Program} {base ledger later : Ledger} {ρ : TermId → Tree}

structure Steady (program : Program) (base ledger : Ledger) : Prop where
  quiet : Quiet program ledger
  grown : ledger.Extends base
  tame : Ledger.Tame base ledger
  relations : ∀ posting ∈ ledger.postings, posting.relation = .disunification
  settled : ∀ id ∈ ledger.discards, ∀ posting, ledger.postings[id.index]? = some posting →
    ∀ ρ, Models ρ ledger → ρ posting.left ≠ ρ posting.right

theorem Steady.wellFormed (steady : Steady program base ledger) : ledger.WellFormed :=
  steady.quiet.wellFormed

theorem Steady.onward (steady : Steady program base ledger) (quiet : Quiet program later)
    (grown : later.Extends ledger) (tame : Ledger.Tame base later)
    (relations : ∀ posting ∈ later.postings, posting.relation = .disunification)
    (discards : later.discards = ledger.discards) : Steady program base later where
  quiet := quiet
  grown := grown.trans steady.grown
  tame := tame
  relations := relations
  settled := by
    intro id member posting held ρ models
    rw [discards] at member
    have posted := steady.wellFormed.discards_posted id member
    have same : ledger.postings[id.index]? = some posting := by
      rw [← held, List.getElem?_eq_getElem posted]
      exact (List.prefix_iff_getElem?.mp grown.postings _ posted).symm
    exact steady.settled id member posting same ρ (models.earlier grown)

theorem Steady.allocates (steady : Steady program base ledger) (grown : later.Allocates ledger)
    (tame : Ledger.Tame base later) : Steady program base later := by
  refine steady.onward (grown.advances.quiet steady.quiet) grown.extends tame ?_ grown.discards
  rw [grown.postings]
  exact steady.relations

theorem Steady.register (steady : Steady program base ledger) {goal : TermId} {symbol : Symbol}
    {args : List TermId} (shape : ledger.shape? goal = some (.compound symbol args))
    (idle : goal ∉ ledger.calls) (choice : Option Choice) :
    Steady program base (ledger.register goal choice) :=
  steady.onward (steady.quiet.register shape idle choice) (ledger.register_extends goal choice)
    ⟨steady.tame.fine, steady.tame.bound⟩ steady.relations rfl

theorem Steady.discard (steady : Steady program base ledger) {discards : List ConstraintId}
    (quiet : Quiet program { ledger with discards })
    (grown : ({ ledger with discards } : Ledger).Extends base)
    (each : ∀ id ∈ discards, id ∈ ledger.discards ∨
      ∀ posting, ledger.postings[id.index]? = some posting →
        ∀ ρ, Models ρ ledger → ρ posting.left ≠ ρ posting.right) :
    Steady program base { ledger with discards } where
  quiet := quiet
  grown := grown
  tame := ⟨steady.tame.fine, steady.tame.bound⟩
  relations := steady.relations
  settled := by
    intro id member posting held ρ models
    have before : Models ρ ledger := ⟨⟨models.number, models.compound⟩, models.bound⟩
    rcases each id member with old | apart
    · exact steady.settled id old posting held ρ before
    · exact apart posting held ρ before

/-- What agrees with the bindings and violates no open constraint satisfies all constraints. -/
theorem Steady.satisfies (steady : Steady program base ledger) (models : Models ρ ledger)
    (apart : ∀ id : Nat, (⟨id⟩ : ConstraintId) ∉ ledger.discards → ∀ posting,
      ledger.postings[id]? = some posting → ρ posting.left ≠ ρ posting.right) :
    Satisfies ρ ledger where
  toModels := models
  apart := by
    intro posting member
    obtain ⟨index, held⟩ := List.getElem?_of_mem member
    by_cases discarded : (⟨index⟩ : ConstraintId) ∈ ledger.discards
    · exact steady.settled _ discarded posting held ρ models
    · exact apart index discarded posting held

theorem mem_active {constraint : Constraint} :
    constraint ∈ ledger.constraints.active ↔ ∃ index posting, ledger.postings[index]? = some posting ∧
      (⟨index⟩ : ConstraintId) ∉ ledger.discards ∧ constraint = ledger.constraint index posting := by
  rw [ConstraintStore.active, List.mem_reverse, List.mem_filter, Array.mem_toList_iff,
    Array.mem_iff_getElem?]
  simp only [Ledger.getElem?_constraints, Option.map_eq_some_iff]
  constructor
  · rintro ⟨⟨index, posting, held, rfl⟩, isOpen⟩
    exact ⟨index, posting, held, by simpa [Ledger.constraint] using isOpen, rfl⟩
  · rintro ⟨index, posting, held, isOpen, rfl⟩
    exact ⟨⟨index, posting, held, rfl⟩, by simpa [Ledger.constraint] using isOpen⟩

theorem Steady.covered (steady : Steady program base ledger) {counters : Counters}
    {values : TermId → Tree} (covers : (ledger.state counters).Covers values) :
    Satisfies (ledger.arena.ground values) ledger := by
  have wellFormed := steady.wellFormed
  refine steady.satisfies ⟨ground_reads wellFormed values, fun binding member => ?_⟩ ?_
  · rw [ground_var wellFormed values (wellFormed.bound_var binding member)]
    refine covers.bound binding.1 binding.2 ((wellFormed.binding?_arena _).trans ?_)
    exact wellFormed.lookup_bindings member
  · exact fun index isOpen posting held =>
      covers.apart _ (mem_active.mpr ⟨index, posting, held, isOpen, rfl⟩)

theorem Satisfies.ground (satisfies : Satisfies ρ ledger) (wellFormed : ledger.WellFormed)
    {id : TermId} (live : ledger.Live id) : ledger.arena.ground ρ id = ρ id :=
  (ground_reads wellFormed ρ).unique satisfies.toReads wellFormed
    (fun _ isVar => ground_var wellFormed ρ isVar) live

theorem Satisfies.covers (satisfies : Satisfies ρ ledger) (wellFormed : ledger.WellFormed)
    (counters : Counters) : (ledger.state counters).Covers ρ where
  bound := by
    intro var target bound
    have member := Ledger.mem_bindings_of_lookup ((wellFormed.binding?_arena var).symm.trans bound)
    rw [show (ledger.state counters).arena = ledger.arena from rfl,
      satisfies.ground wellFormed (wellFormed.target_live _ member)]
    exact satisfies.bound _ member
  apart := by
    intro constraint member
    obtain ⟨index, posting, held, -, rfl⟩ := mem_active.mp member
    have posted := List.mem_of_getElem? held
    have left := satisfies.ground wellFormed (wellFormed.posting_left posting posted)
    have right := satisfies.ground wellFormed (wellFormed.posting_right posting posted)
    exact fun same => satisfies.apart posting posted (left.symm.trans (same.trans right))

theorem Ledger.Judges.right {posting : Posting} {verdict : Verdict}
    (judges : ledger.Judges posting verdict later) (wellFormed : ledger.WellFormed)
    (relation : posting.relation = .disunification) (leftLive : ledger.Live posting.left)
    (rightLive : ledger.Live posting.right) :
    later = ledger ∧ (∀ goal, verdict ≠ .solved goal) ∧
      (verdict = .satisfied → ∀ ρ, Models ρ ledger → ρ posting.left ≠ ρ posting.right) ∧
      (verdict = .violated → ∀ ρ, Models ρ ledger → ρ posting.left = ρ posting.right) := by
  have leftEnd := wellFormed.live_deref leftLive
  have rightEnd := wellFormed.live_deref rightLive
  cases judges with
  | satisfied _ solves =>
    refine ⟨rfl, by simp, fun _ ρ models same => ?_, by simp⟩
    obtain ⟨unified, clash, -⟩ := solves.unifies wellFormed leftEnd rightEnd models
      ((models.deref_eq_iff wellFormed).mpr same)
    cases clash
  | violated _ solves =>
    refine ⟨rfl, by simp, by simp, fun _ ρ models => ?_⟩
    have same := solves.sound wellFormed (leftEnd.pair rightEnd) rfl models
    exact (models.deref_eq_iff wellFormed).mp (by simpa using same)
  | undecided => exact ⟨rfl, by simp, by simp, by simp⟩
  | arithmetic other => simp [relation] at other

/-- Where only inequalities were posted, deciding them again builds nothing and leaves no goal. -/
theorem Ledger.Rechecks.right {ids : List ConstraintId} {review last : Ledger.Review}
    (rechecks : Ledger.Rechecks ids review last) (wellFormed : review.ledger.WellFormed)
    (relations : ∀ posting ∈ review.ledger.postings, posting.relation = .disunification) :
    last.ledger = review.ledger ∧ last.goals = review.goals ∧
      (∀ id ∈ last.discards, id ∈ review.discards ∨
        ∀ posting, review.ledger.postings[id.index]? = some posting →
          ∀ ρ, Models ρ review.ledger → ρ posting.left ≠ ρ posting.right) ∧
      ∀ ρ, Satisfies ρ review.ledger → last.violated = review.violated := by
  have right {ledger later : Ledger} {posting : Posting} {verdict : Verdict} {id : ConstraintId}
      (wellFormed : ledger.WellFormed)
      (relations : ∀ posting ∈ ledger.postings, posting.relation = .disunification)
      (posted : ledger.postings[id.index]? = some posting)
      (judges : ledger.Judges posting verdict later) :=
    have listed := List.mem_of_getElem? posted
    judges.right wellFormed (relations posting listed) (wellFormed.posting_left posting listed)
      (wellFormed.posting_right posting listed)
  induction rechecks with
  | done => exact ⟨rfl, rfl, fun id member => .inl member, fun _ _ => rfl⟩
  | violated posted judges =>
    obtain ⟨rfl, -, -, same⟩ := right wellFormed relations posted judges
    refine ⟨rfl, rfl, fun id member => .inl member, fun ρ satisfies => ?_⟩
    exact absurd (same rfl ρ satisfies.toModels)
      (satisfies.apart _ (List.mem_of_getElem? posted))
  | solved posted judges =>
    obtain ⟨-, unsolved, -⟩ := right wellFormed relations posted judges
    exact absurd rfl (unsolved _)
  | undecided posted judges _ ih =>
    obtain ⟨rfl, -⟩ := right wellFormed relations posted judges
    exact ih wellFormed relations
  | @satisfied id ids review last posting later posted judges _ ih =>
    obtain ⟨rfl, -, apart, -⟩ := right wellFormed relations posted judges
    obtain ⟨sameLedger, sameGoals, discards, violated⟩ := ih wellFormed relations
    refine ⟨sameLedger, sameGoals, fun other member => ?_, violated⟩
    rcases discards other member with old | new
    · rcases List.mem_append.mp old with before | now
      · exact .inl before
      · rw [List.mem_singleton.mp now]
        refine .inr fun found held => ?_
        cases posted.symm.trans held
        exact apart rfl
    · exact .inr new

structure Decides (program : Program) (base ledger : Ledger) (holds : (TermId → Tree) → Prop)
    (reply : Reply) (later : Ledger) : Prop where
  replies : reply = .fails ∨ reply = .answers
  steady : reply = .answers → Steady program base later
  sound : reply = .answers → ∀ ρ, Satisfies ρ later → holds ρ
  complete : ∀ ρ, Satisfies ρ ledger → holds ρ → reply = .answers ∧
    ∃ extended, Satisfies extended later ∧ ∀ id, ledger.Live id → extended id = ρ id

section

variable {left right : TermId} {reply : Reply}

structure Unified (base ledger after : Ledger) (last : Ledger.Review) : Prop where
  binds : after.Binds ledger
  tame : Ledger.Tame base after
  same : last.ledger = after
  goals : last.goals = []
  apart : ∀ id ∈ last.discards, ∀ posting, after.postings[id.index]? = some posting →
    ∀ ρ, Models ρ after → ρ posting.left ≠ ρ posting.right
  unviolated : ∀ ρ, Satisfies ρ after → last.violated = false

theorem Steady.unified (steady : Steady program base ledger) (leftLive : ledger.Live left)
    (rightLive : ledger.Live right) (leftUsable : base.Usable left)
    (rightUsable : base.Usable right) {after : Ledger} {last : Ledger.Review}
    (solves : Ledger.Solves ledger.size ledger [(left, right)] (.ok after))
    (rechecks : Ledger.Rechecks (after.concerned ledger) (after.review ledger) last) :
    Unified base ledger after last := by
  have live := leftLive.pair rightLive
  have usable : ∀ pair ∈ [(left, right)], base.UsablePair pair := by
    simpa using ⟨leftUsable, rightUsable⟩
  have binds : after.Binds ledger := solves.grows steady.wellFormed live
  have undelayed := binds.advances.delayed.trans steady.quiet.undelayed
  have relations : ∀ posting ∈ after.postings, posting.relation = .disunification := by
    rw [binds.postings]
    exact steady.relations
  obtain ⟨same, goals, discards, violated⟩ := rechecks.right binds.wellFormed relations
  refine ⟨binds, solves.tame steady.wellFormed live steady.tame usable, same, ?_, ?_, violated⟩
  · rw [goals]
    exact Ledger.surfaced_none undelayed _
  · intro id member
    rcases discards id member with none | apart
    · cases none
    · exact apart

theorem Unified.satisfies {after : Ledger} {last : Ledger.Review}
    (unified : Unified base ledger after last) (models : Models ρ after)
    (satisfies : Satisfies ρ ledger) : Satisfies ρ after :=
  ⟨models, unified.binds.postings ▸ satisfies.apart⟩

theorem Ledger.Equates.decides (equates : ledger.Equates left right reply later)
    (steady : Steady program base ledger) (leftLive : ledger.Live left)
    (rightLive : ledger.Live right) (leftUsable : base.Usable left)
    (rightUsable : base.Usable right) :
    Decides program base ledger (fun ρ => ρ left = ρ right) reply later := by
  have wellFormed := steady.wellFormed
  have live := leftLive.pair rightLive
  have unified {after : Ledger} {last : Ledger.Review}
      (solves : Ledger.Solves ledger.size ledger [(left, right)] (.ok after))
      (rechecks : Ledger.Rechecks (after.concerned ledger) (after.review ledger) last) :=
    steady.unified leftLive rightLive leftUsable rightUsable solves rechecks
  -- A clash or a violation leaves no reading that makes both sides equal.
  cases equates with
  | clashes solves =>
    refine ⟨.inl rfl, by simp, by simp, fun ρ satisfies same => ?_⟩
    obtain ⟨after, clash, -⟩ := solves.unifies wellFormed leftLive rightLive satisfies.toModels same
    cases clash
  | violates solves rechecks violated =>
    refine ⟨.inl rfl, by simp, by simp, fun ρ satisfies same => ?_⟩
    obtain ⟨after, ended, models⟩ :=
      solves.unifies wellFormed leftLive rightLive satisfies.toModels same
    cases ended
    have after := unified solves rechecks
    rw [after.unviolated ρ (after.satisfies models satisfies)] at violated
    cases violated
  | delegates solves rechecks _ _ conjoins =>
    rw [(unified solves rechecks).goals] at conjoins
    cases conjoins
  | @answers after last solves rechecks unviolated none =>
    have joined := unified solves rechecks
    obtain rfl := joined.same
    have advances := (Ledger.Equates.answers solves rechecks unviolated none).advances wellFormed
      leftLive rightLive
    obtain ⟨discards, settled, each⟩ := last.ledger.settleAll_discards last.discards
    rw [settled] at advances ⊢
    have bound : Steady program base last.ledger := by
      refine steady.onward (joined.binds.advances.quiet steady.quiet) joined.binds.extends
        joined.tame ?_ joined.binds.discards
      rw [joined.binds.postings]
      exact steady.relations
    have onward : Steady program base { last.ledger with discards } :=
      bound.discard (advances.quiet steady.quiet) (advances.grown.trans steady.grown)
        fun id member => (each id member).imp_right fun new => joined.apart id new
    refine ⟨.inr rfl, fun _ => onward, fun _ ρ satisfies => ?_, fun ρ satisfies same => ⟨rfl, ρ, ?_, ?_⟩⟩
    · have models : Models ρ last.ledger :=
        ⟨⟨satisfies.number, satisfies.compound⟩, satisfies.bound⟩
      have sides := solves.sound wellFormed live rfl models
      simpa using sides
    · obtain ⟨after, ended, models⟩ :=
        solves.unifies wellFormed leftLive rightLive satisfies.toModels same
      cases ended
      have kept := joined.satisfies models satisfies
      exact ⟨⟨⟨kept.number, kept.compound⟩, kept.bound⟩, kept.apart⟩
    · exact fun _ _ => rfl

theorem Ledger.Differs.decides (differs : ledger.Differs left right reply later)
    (steady : Steady program base ledger) (leftLive : ledger.Live left)
    (rightLive : ledger.Live right) (leftUsable : base.Usable left)
    (rightUsable : base.Usable right) :
    Decides program base ledger (fun ρ => ρ left ≠ ρ right) reply later := by
  have wellFormed := steady.wellFormed
  have leftEnd := wellFormed.live_deref leftLive
  have rightEnd := wellFormed.live_deref rightLive
  have live := leftEnd.pair rightEnd
  cases differs with
  | apart solves =>
    have different (ρ : TermId → Tree) (models : Models ρ ledger) : ρ left ≠ ρ right := by
      intro same
      obtain ⟨after, clash, -⟩ := solves.unifies wellFormed leftEnd rightEnd models
        ((models.deref_eq_iff wellFormed).mpr same)
      cases clash
    exact ⟨.inr rfl, fun _ => steady, fun _ ρ satisfies => different ρ satisfies.toModels,
      fun ρ satisfies _ => ⟨rfl, ρ, satisfies, fun _ _ => rfl⟩⟩
  | equal solves =>
    refine ⟨.inl rfl, by simp, by simp, fun ρ satisfies different => ?_⟩
    have same := solves.sound wellFormed live rfl satisfies.toModels
    exact absurd ((satisfies.toModels.deref_eq_iff wellFormed).mp (by simpa using same)) different
  | @posts after stripped kept first second solves strips grown sides firstLive secondLive =>
    have ends : ∀ pair ∈ [(ledger.arena.deref left, ledger.arena.deref right)],
        base.UsablePair pair := by
      simpa using ⟨steady.tame.usable_deref wellFormed leftUsable,
        steady.tame.usable_deref wellFormed rightUsable⟩
    have built := steady.allocates grown (strips.tame wellFormed live steady.grown steady.tame ends).1
    have posted := Ledger.post_advances grown.wellFormed .disunification firstLive secondLive
    have onward : Steady program base
        (stripped.post (stripped.posting .disunification first second)) := by
      refine built.onward (posted.quiet built.quiet) posted.grown ⟨built.tame.fine, built.tame.bound⟩
        (fun posting member => ?_) rfl
      rcases List.mem_append.mp member with old | new
      · exact built.relations posting old
      · rw [List.mem_singleton.mp new]
        rfl
    -- What is left of the sides after stripping is equal just where the sides are.
    have equal {ρ : TermId → Tree} (models : Models ρ stripped) :
        ρ first = ρ second ↔ ρ left = ρ right :=
      (strips.sides_iff wellFormed live solves sides models).trans
        ((models.earlier grown.extends).deref_eq_iff wellFormed)
    refine ⟨.inr rfl, fun _ => onward, fun _ ρ satisfies same => ?_,
      fun ρ satisfies different => ⟨rfl, ?_⟩⟩
    · have models := satisfies.toModels.earlier posted.grown
      refine satisfies.apart (stripped.posting .disunification first second) ?_
        ((equal models).mpr same)
      simp [Ledger.post]
    · obtain ⟨extended, whole, kept, -⟩ := satisfies.extend wellFormed grown ρ
      refine ⟨extended, ⟨⟨⟨whole.number, whole.compound⟩, whole.bound⟩, fun posting member => ?_⟩, kept⟩
      rcases List.mem_append.mp member with old | new
      · exact whole.apart posting old
      · rw [List.mem_singleton.mp new]
        intro same
        apply different
        rw [← kept left leftLive, ← kept right rightLive]
        exact (equal whole.toModels).mp same

theorem Ledger.Performs.decides {builtin : Builtin}
    (performs : ledger.Performs left right builtin reply later)
    (steady : Steady program base ledger) (leftLive : ledger.Live left)
    (rightLive : ledger.Live right) (leftUsable : base.Usable left)
    (rightUsable : base.Usable right) :
    (builtin = .equality → Decides program base ledger (fun ρ => ρ left = ρ right) reply later) ∧
    (builtin = .inequality →
      Decides program base ledger (fun ρ => ρ left ≠ ρ right) reply later) := by
  have plain := steady.tame.not_arithmetic steady.wellFormed leftUsable rightUsable
  cases performs with
  | relaxed => exact ⟨nofun, nofun⟩
  | equates _ equates =>
    exact ⟨fun _ => equates.decides steady leftLive rightLive leftUsable rightUsable, nofun⟩
  | differs kind differs =>
    refine ⟨fun same => ?_,
      fun _ => differs.decides steady leftLive rightLive leftUsable rightUsable⟩
    rcases kind with rfl | ⟨comparison, rfl⟩ <;> cases same
  | computes arithmetic => exact ⟨fun same => absurd (arithmetic (.inl same)) plain,
      fun same => absurd (arithmetic (.inr same)) plain⟩

end

end Resolvent
