import Resolvent.Machine.Builtin
import Resolvent.Proofs.Ledger.Constraints
import Resolvent.Proofs.Ledger.Stripping

namespace Resolvent

namespace Ledger

variable {ledger : Ledger}

structure Advances (later earlier : Ledger) : Prop where
  wellFormed : later.WellFormed
  grown : later.Extends earlier
  calls : later.calls = earlier.calls
  delayed : later.delayed = earlier.delayed
  path : later.path = earlier.path

theorem Advances.refl (wellFormed : ledger.WellFormed) : ledger.Advances ledger :=
  ⟨wellFormed, .refl ledger, rfl, rfl, rfl⟩

theorem Advances.trans {last middle first : Ledger} (later : last.Advances middle)
    (earlier : middle.Advances first) : last.Advances first :=
  ⟨later.wellFormed, later.grown.trans earlier.grown, later.calls.trans earlier.calls,
    later.delayed.trans earlier.delayed, later.path.trans earlier.path⟩

theorem Allocates.advances {later earlier : Ledger} (grown : later.Allocates earlier) :
    later.Advances earlier := by
  refine ⟨grown.wellFormed, grown.extends, ?_, ?_, ?_⟩ <;>
  · obtain ⟨-, shapes, rfl⟩ := grown
    rfl

theorem Binds.advances {later earlier : Ledger} (grown : later.Binds earlier) :
    later.Advances earlier := by
  refine ⟨grown.wellFormed, grown.extends, ?_, ?_, ?_⟩ <;>
  · obtain ⟨-, pairs, rfl⟩ := grown
    rfl

def settleAll (ledger : Ledger) (ids : List ConstraintId) : Ledger := ids.foldl settle ledger

theorem settle_postings (ledger : Ledger) (id : ConstraintId) :
    (ledger.settle id).postings = ledger.postings := by
  rw [settle]
  split <;> rfl

theorem settleAll_discards (ledger : Ledger) (ids : List ConstraintId) :
    ∃ discards, ledger.settleAll ids = { ledger with discards } ∧
      ∀ id ∈ discards, id ∈ ledger.discards ∨ id ∈ ids := by
  induction ids generalizing ledger with
  | nil => exact ⟨ledger.discards, rfl, fun id member => .inl member⟩
  | cons first rest ih =>
    obtain ⟨discards, same, each⟩ := ih (ledger.settle first)
    refine ⟨discards, ?_, fun id member => ?_⟩
    · rw [settleAll, List.foldl_cons]
      refine same.trans ?_
      rw [settle]
      split <;> rfl
    · rcases each id member with old | new
      · rw [settle] at old
        split at old
        · exact .inl old
        · rcases List.mem_append.mp old with before | now
          · exact .inl before
          · exact .inr (by simp [List.mem_singleton.mp now])
      · exact .inr (by simp [new])

theorem settle_advances (wellFormed : ledger.WellFormed) {id : ConstraintId}
    (posted : id.index < ledger.postings.length) : (ledger.settle id).Advances ledger := by
  refine ⟨wellFormed.settle posted, settle_extends ledger id, ?_, ?_, ?_⟩ <;>
  · rw [settle]
    split <;> rfl

theorem settleAll_terms (ledger : Ledger) (ids : List ConstraintId) :
    (ledger.settleAll ids).terms = ledger.terms := by
  obtain ⟨discards, same, -⟩ := ledger.settleAll_discards ids
  rw [same]

theorem settleAll_bindings (ledger : Ledger) (ids : List ConstraintId) :
    (ledger.settleAll ids).bindings = ledger.bindings := by
  obtain ⟨discards, same, -⟩ := ledger.settleAll_discards ids
  rw [same]

theorem settleAll_postings (ledger : Ledger) (ids : List ConstraintId) :
    (ledger.settleAll ids).postings = ledger.postings := by
  obtain ⟨discards, same, -⟩ := ledger.settleAll_discards ids
  rw [same]

theorem settleAll_advances (wellFormed : ledger.WellFormed) {ids : List ConstraintId}
    (posted : ledger.Posted ids) : (ledger.settleAll ids).Advances ledger := by
  induction ids generalizing ledger with
  | nil => exact .refl wellFormed
  | cons id ids ih =>
    have first := settle_advances wellFormed (posted id (by simp))
    have rest : (ledger.settle id).Posted ids := by
      intro other member
      rw [settle_postings]
      exact posted other (by simp [member])
    exact (ih first.wellFormed rest).trans first

theorem settleAll_state {ids : List ConstraintId} (posted : ledger.Posted ids)
    (counters : Counters) :
    ∃ others, ids.foldlM State.discardAndCount (ledger.state counters) =
      .ok ((ledger.settleAll ids).state others) := by
  induction ids generalizing ledger counters with
  | nil => exact ⟨counters, rfl⟩
  | cons id ids ih =>
    have rest : (ledger.settle id).Posted ids := by
      intro other member
      rw [settle_postings]
      exact posted other (by simp [member])
    have first : State.discardAndCount (ledger.state counters) id =
        .ok ((ledger.settle id).state (counters.record .discarded 1)) := by
      rw [State.discardAndCount, discard_state (posted id (by simp))]
      rfl
    obtain ⟨others, run⟩ := ih rest (counters.record .discarded 1)
    refine ⟨others, ?_⟩
    rw [List.foldlM_cons, first]
    exact run

theorem isDelayed_of_mem {var : TermId} (live : ledger.Live var)
    (isVar : ledger.shape? var = some .var) (member : var ∈ ledger.delayed) :
    ledger.arena.isDelayed var = true := by
  rw [Arena.isDelayed, size_arena]
  cases fuel : ledger.size with
  | zero =>
    rw [Live, fuel] at live
    omega
  | succ fuel => simp [Arena.isDelayedWithin, Arena.var?, node_var isVar, member]

def boundSince (ledger earlier : Ledger) : List TermId :=
  (ledger.state {}).assignedSince earlier.bindings.length

def surfaced (ledger : Ledger) (vars : List TermId) : List TermId :=
  vars.foldl ledger.arena.surface []

def review (after earlier : Ledger) : Review where
  ledger := after
  goals := after.surfaced (after.boundSince earlier)

/-- The constraints that the bindings since an earlier ledger concern. -/
def concerned (after earlier : Ledger) : List ConstraintId :=
  after.woken (after.boundSince earlier)

theorem Rechecks.posted {after : Ledger} {last : Review}
    (rechecks : Rechecks (after.concerned ledger) (after.review ledger) last)
    (wellFormed : after.WellFormed) : last.ledger.Posted last.discards := by
  intro id member
  rw [(rechecks.grows wellFormed).postings]
  rcases rechecks.discards id member with old | new
  · cases old
  · exact posted_wakeup after {} _ id new

inductive Equates (ledger : Ledger) (left right : TermId) : Reply → Ledger → Prop where
  | clashes {clash : Ledger} (solves : Solves ledger.size ledger [(left, right)] (.error clash)) :
      Equates ledger left right .fails ledger
  | violates {after : Ledger} {last : Review}
      (solves : Solves ledger.size ledger [(left, right)] (.ok after))
      (rechecks : Rechecks (after.concerned ledger) (after.review ledger) last)
      (violated : last.violated = true) : Equates ledger left right .fails last.ledger
  | answers {after : Ledger} {last : Review}
      (solves : Solves ledger.size ledger [(left, right)] (.ok after))
      (rechecks : Rechecks (after.concerned ledger) (after.review ledger) last)
      (unviolated : last.violated = false) (none : last.goals = []) :
      Equates ledger left right .answers (last.ledger.settleAll last.discards)
  | delegates {after later : Ledger} {last : Review} {goal : TermId}
      (solves : Solves ledger.size ledger [(left, right)] (.ok after))
      (rechecks : Rechecks (after.concerned ledger) (after.review ledger) last)
      (unviolated : last.violated = false)
      (grown : later.Allocates (last.ledger.settleAll last.discards))
      (conjoins : later.Conjoins last.ledger.size goal last.goals) :
      Equates ledger left right (.delegates goal) later

theorem surface_live (wellFormed : ledger.WellFormed) {goals : List TermId}
    (live : ∀ goal ∈ goals, ledger.Live goal) (var : TermId) :
    ∀ goal ∈ ledger.arena.surface goals var, ledger.Live goal := by
  rw [Arena.surface, wellFormed.binding?_arena]
  cases bound : ledger.binding? var with
  | none => exact live
  | some target =>
    have targetLive := wellFormed.target_live _ (mem_bindings_of_lookup bound)
    simp only
    cases ledger.arena.compound? target with
    | none => exact live
    | some cell =>
      simp only
      split
      · exact live
      · intro goal member
        rcases List.mem_append.mp member with old | new
        · exact live goal old
        · rwa [List.mem_singleton.mp new]

theorem surfaced_live (wellFormed : ledger.WellFormed) (vars : List TermId) :
    ∀ goal ∈ ledger.surfaced vars, ledger.Live goal :=
  @List.foldlRecOn _ _ (fun goals : List TermId => ∀ goal ∈ goals, ledger.Live goal) vars _ []
    (by simp) fun _ kept var _ => surface_live wellFormed kept var

theorem Equates.advances {left right : TermId} {reply : Reply} {later : Ledger}
    (equates : ledger.Equates left right reply later) (wellFormed : ledger.WellFormed)
    (leftLive : ledger.Live left) (rightLive : ledger.Live right) : later.Advances ledger := by
  have bound {after : Ledger}
      (solves : Solves ledger.size ledger [(left, right)] (.ok after)) : after.Binds ledger :=
    solves.grows wellFormed (leftLive.pair rightLive)
  have checked {after : Ledger} {last : Review}
      (solves : Solves ledger.size ledger [(left, right)] (.ok after))
      (rechecks : Rechecks (after.concerned ledger) (after.review ledger) last) :
      last.ledger.Advances ledger ∧ last.ledger.Posted last.discards := by
    have first := bound solves
    have second := rechecks.grows first.wellFormed
    exact ⟨second.advances.trans first.advances, rechecks.posted first.wellFormed⟩
  cases equates with
  | clashes => exact .refl wellFormed
  | violates solves rechecks => exact (checked solves rechecks).1
  | answers solves rechecks =>
    obtain ⟨first, posted⟩ := checked solves rechecks
    exact (settleAll_advances first.wellFormed posted).trans first
  | delegates solves rechecks _ grown =>
    obtain ⟨first, posted⟩ := checked solves rechecks
    exact grown.advances.trans ((settleAll_advances first.wellFormed posted).trans first)

theorem conjunction?_onto (arena : Arena) (goals : List TermId) (goal : TermId) :
    arena.conjunction? (goals ++ [goal]) = some (arena.conjunctionOnto goal goals) := by
  simp [Arena.conjunction?]

/-- What unification does once the constraints that it concerns were decided again. -/
theorem unification_resumes {left right : TermId} {after : Ledger} {last : Review}
    (run : ∀ counters, ∃ others,
      (ledger.state counters).unify left right = (true, after.state others))
    (rerun : ∀ counters, ∃ others, Recheck.run (after.concerned ledger)
      ((after.review ledger).recheck counters) = .ok (last.recheck others))
    (posted : last.ledger.Posted last.discards) (counters : Counters) : ∃ others,
    (ledger.state counters).unification left right =
      if last.violated then .ok (.fails, last.ledger.state others)
      else ((last.ledger.settleAll last.discards).arena.conjunction? last.goals).elim
        (.ok (.answers, (last.ledger.settleAll last.discards).state others))
        fun found => .ok (.delegates found.1,
          { (last.ledger.settleAll last.discards).state others with arena := found.2 }) := by
  obtain ⟨others, unified⟩ := run counters
  obtain ⟨more, ran⟩ := rerun others
  have woken : ((after.state others).wakeup ((after.state others).assignedSince
      ledger.bindings.length)).found = after.concerned ledger := wakeup_state _ _ _
  have goals : ((after.state others).assignedSince ledger.bindings.length).foldl
      after.arena.surface [] = (after.review ledger).goals := rfl
  have start : ({ state := after.state others, goals := (after.review ledger).goals } : Recheck) =
      (after.review ledger).recheck others := rfl
  simp only [State.unification, unified, Bool.not_true, Bool.false_eq_true, if_false,
    size_assigned, arena_state, woken, goals, start, ran, Bind.bind, Except.bind]
  cases violated : last.violated with
  | true => exact ⟨more, by simp [Review.recheck, violated, pure, Except.pure]⟩
  | false =>
    obtain ⟨final, ended⟩ := settleAll_state posted more
    refine ⟨final, ?_⟩
    simp only [Review.recheck, violated, Bool.false_eq_true, if_false, ended, arena_state]
    cases (last.ledger.settleAll last.discards).arena.conjunction? last.goals <;> rfl

theorem unification_state (wellFormed : ledger.WellFormed) {left right : TermId}
    (leftLive : ledger.Live left) (rightLive : ledger.Live right) :
    ∃ reply later, ledger.Equates left right reply later ∧ ∀ counters, ∃ others,
      (ledger.state counters).unification left right = .ok (reply, later.state others) := by
  rcases unify_state wellFormed leftLive rightLive with
    ⟨after, solves, grown, run⟩ | ⟨clash, solves, run⟩
  · obtain ⟨last, rechecks, rerun⟩ := @recheck_state (after.concerned ledger)
      (after.review ledger) grown.wellFormed (posted_wakeup after {} _) rfl
    have checked := rechecks.grows grown.wellFormed
    have posted := rechecks.posted grown.wellFormed
    have settled := settleAll_advances checked.wellFormed posted
    have resume (counters : Counters) := unification_resumes run rerun posted counters
    cases violated : last.violated with
    | true =>
      refine ⟨_, _, .violates solves rechecks violated, fun counters => ?_⟩
      obtain ⟨others, resumed⟩ := resume counters
      exact ⟨others, by simpa [violated] using resumed⟩
    | false =>
      rcases List.eq_nil_or_concat last.goals with none | ⟨goals, goal, listed⟩
      · refine ⟨_, _, .answers solves rechecks violated none, fun counters => ?_⟩
        obtain ⟨others, resumed⟩ := resume counters
        exact ⟨others, by simpa [violated, none, Arena.conjunction?] using resumed⟩
      · rw [List.concat_eq_append] at listed
        have live : ∀ other ∈ last.goals, (last.ledger.settleAll last.discards).Live other := by
          intro other member
          apply settled.grown.live
          rcases rechecks.goals grown.wellFormed other member with old | new
          · exact checked.live (surfaced_live grown.wellFormed _ other old)
          · exact new.live
        rw [listed] at live
        obtain ⟨first, later, built, allocated, conjoins⟩ :=
          conjunctionOnto_allocates settled.wellFormed (live goal (by simp))
            fun other (member : other ∈ goals) => live other (by simp [member])
        have size : (last.ledger.settleAll last.discards).size = last.ledger.size :=
          congrArg List.length (settleAll_terms _ _)
        rw [size, ← listed] at conjoins
        refine ⟨_, _, .delegates solves rechecks violated allocated conjoins, fun counters => ?_⟩
        obtain ⟨others, resumed⟩ := resume counters
        refine ⟨others, ?_⟩
        rw [resumed, violated, listed, conjunction?_onto, built]
        simp only [Bool.false_eq_true, if_false, Option.elim_some, allocated.state]
  · refine ⟨_, _, .clashes solves, fun counters => ?_⟩
    obtain ⟨others, clashed⟩ := run counters
    refine ⟨others, ?_⟩
    simp [State.unification, clashed, pure, Except.pure]

def posting (ledger : Ledger) (relation : Relation) (left right : TermId) : Posting where
  relation := relation
  left := left
  right := right
  occurrences := ledger.arena.occurrencesOfPair left right

theorem posting_tracked (wellFormed : ledger.WellFormed) {left right : TermId}
    (leftLive : ledger.Live left) (rightLive : ledger.Live right) :
    ledger.Tracked (ledger.arena.occurrencesOfPair left right) :=
  occurrences_tracked wellFormed rightLive
    (occurrences_tracked wellFormed leftLive ledger.tracked_nil)

theorem post_advances (wellFormed : ledger.WellFormed) (relation : Relation) {left right : TermId}
    (leftLive : ledger.Live left) (rightLive : ledger.Live right) :
    (ledger.post (ledger.posting relation left right)).Advances ledger := by
  have tracked := posting_tracked wellFormed leftLive rightLive
  refine ⟨?_, post_extends ledger _, rfl, rfl, rfl⟩
  exact wellFormed.post leftLive rightLive tracked.1 fun id member => (tracked.2 id member).1

theorem postConstraint_state (wellFormed : ledger.WellFormed) (relation : Relation)
    {left right : TermId} (leftLive : ledger.Live left) (rightLive : ledger.Live right)
    (counters : Counters) :
    (ledger.state counters).postConstraint relation left right =
      (.answers, (ledger.post (ledger.posting relation left right)).state
        (counters.record .posted 1)) := by
  have once := (posting_tracked wellFormed leftLive rightLive).1
  have posted :=
    @post_state ledger wellFormed.toConsistent (ledger.posting relation left right) once counters
  simp only [State.postConstraint, arena_state]
  exact congrArg (fun state => (Reply.answers, state.record .posted)) posted

inductive Differs (ledger : Ledger) (left right : TermId) : Reply → Ledger → Prop where
  | apart {clash : Ledger}
      (solves : Solves ledger.size ledger
        [(ledger.arena.deref left, ledger.arena.deref right)] (.error clash)) :
      Differs ledger left right .answers ledger
  | equal
      (solves : Solves ledger.size ledger
        [(ledger.arena.deref left, ledger.arena.deref right)] (.ok ledger)) :
      Differs ledger left right .fails ledger
  | posts {after stripped : Ledger} {kept : Option (TermId × TermId)} {first second : TermId}
      (solves : Solves ledger.size ledger
        [(ledger.arena.deref left, ledger.arena.deref right)] (.ok after))
      (strips : Strips ledger [(ledger.arena.deref left, ledger.arena.deref right)] kept.toList
        stripped)
      (grown : stripped.Allocates ledger)
      (sides : kept.getD (ledger.arena.deref left, ledger.arena.deref right) = (first, second))
      (firstLive : stripped.Live first) (secondLive : stripped.Live second)
      (bound : after ≠ ledger) :
      Differs ledger left right .answers
        (stripped.post (stripped.posting .disunification first second))

theorem Differs.advances {left right : TermId} {reply : Reply} {later : Ledger}
    (differs : ledger.Differs left right reply later) (wellFormed : ledger.WellFormed) :
    later.Advances ledger := by
  cases differs with
  | apart | equal => exact .refl wellFormed
  | posts _ _ grown _ firstLive secondLive =>
    exact (post_advances grown.wellFormed _ firstLive secondLive).trans grown.advances

theorem disunification_state (wellFormed : ledger.WellFormed) {left right : TermId}
    (leftLive : ledger.Live left) (rightLive : ledger.Live right) :
    ∃ reply later, ledger.Differs left right reply later ∧ ∀ counters, ∃ others,
      (ledger.state counters).disunification left right = (reply, later.state others) := by
  have leftEnd := wellFormed.live_deref leftLive
  have rightEnd := wellFormed.live_deref rightLive
  rcases unify_state wellFormed leftEnd rightEnd with
    ⟨after, solves, grown, run⟩ | ⟨clash, solves, run⟩
  · have restored (counters : Counters) :=
      restore_state grown.wellFormed.toConsistent grown.extends counters
    by_cases same : after.bindings.length = ledger.bindings.length
    · obtain rfl := grown.same same
      refine ⟨_, _, .equal solves, fun counters => ?_⟩
      obtain ⟨others, unified⟩ := run counters
      simp only [State.disunification, arena_state, unified, Bool.not_true, Bool.false_eq_true,
        if_false, size_assigned, if_true, snapshot_state, restored]
      exact ⟨_, rfl⟩
    · obtain ⟨kept, stripped, ran, strips⟩ := strip_arena wellFormed leftEnd rightEnd
      obtain ⟨allocated, keptLive⟩ := strips.grows wellFormed (leftEnd.pair rightEnd)
      obtain ⟨first, second, sides⟩ : ∃ first second,
          kept.getD (ledger.arena.deref left, ledger.arena.deref right) = (first, second) :=
        ⟨_, _, rfl⟩
      have live : stripped.LivePair (first, second) := by
        rw [← sides]
        cases kept with
        | none => exact ⟨allocated.live leftEnd, allocated.live rightEnd⟩
        | some pair => exact keptLive pair (by simp)
      have bound : after ≠ ledger := by
        rintro rfl
        exact same rfl
      refine ⟨_, _, .posts solves strips allocated sides live.1 live.2 bound, fun counters => ?_⟩
      obtain ⟨others, unified⟩ := run counters
      simp only [State.disunification, arena_state, unified, Bool.not_true, Bool.false_eq_true,
        if_false, size_assigned, same, snapshot_state, restored, ran, sides, allocated.state]
      exact ⟨_, postConstraint_state allocated.wellFormed _ live.1 live.2 _⟩
  · refine ⟨_, _, .apart solves, fun counters => ?_⟩
    obtain ⟨others, clashed⟩ := run counters
    have kept := restore_state wellFormed.toConsistent (.refl ledger) others
    simp only [State.disunification, arena_state, clashed, Bool.not_false, if_true, snapshot_state,
      kept]
    exact ⟨_, rfl⟩

structure Simplifies (ledger : Ledger) (id result : TermId) (later : Ledger) : Prop where
  run : ledger.arena.simplify id = (result, later.arena)
  grown : later.Allocates ledger
  live : later.Live result

def Simplified (ledger : Ledger) (left right first second : TermId) (later : Ledger) : Prop :=
  ∃ middle, ledger.Simplifies left first middle ∧ middle.Simplifies right second later

theorem Simplified.grown {left right first second : TermId} {later : Ledger}
    (simplified : ledger.Simplified left right first second later) : later.Allocates ledger := by
  obtain ⟨middle, left, right⟩ := simplified
  exact right.grown.trans left.grown

theorem Simplified.live {left right first second : TermId} {later : Ledger}
    (simplified : ledger.Simplified left right first second later) : later.LivePair (first, second) := by
  obtain ⟨middle, left, right⟩ := simplified
  exact ⟨right.grown.live left.live, right.live⟩

theorem simplified_exists (wellFormed : ledger.WellFormed) {left right : TermId}
    (leftLive : ledger.Live left) (rightLive : ledger.Live right) :
    ∃ first second, ∃ middle later : Ledger, ledger.arena.simplify left = (first, middle.arena) ∧
      middle.arena.simplify right = (second, later.arena) ∧
      ledger.Simplified left right first second later := by
  obtain ⟨first, middle, leftRun, leftGrown, firstLive⟩ := simplify_allocates wellFormed leftLive
  obtain ⟨second, later, rightRun, rightGrown, secondLive⟩ :=
    simplify_allocates leftGrown.wellFormed (leftGrown.live rightLive)
  exact ⟨first, second, middle, later, leftRun, rightRun, middle,
    ⟨leftRun, leftGrown, firstLive⟩, ⟨rightRun, rightGrown, secondLive⟩⟩

inductive Computes (ledger : Ledger) (left right : TermId) (builtin : Builtin)
    (comparison : Comparison) : Reply → Ledger → Prop where
  | fails {later : Ledger} (grown : later.Allocates ledger)
      (unmet : builtin = .equality ∨ ledger.Unmet comparison left right) :
      Computes ledger left right builtin comparison .fails later
  | decides {first second : Evaluation} {leftTotal rightTotal : Rational} {later : Ledger}
      (evaluates : ledger.Evaluates left right first second)
      (leftKnown : first.value = some leftTotal) (rightKnown : second.value = some rightTotal)
      (holds : comparison.holds leftTotal rightTotal = .ok true) (grown : later.Allocates ledger) :
      Computes ledger left right builtin comparison .answers later
  | posts {first second : Evaluation} {newLeft newRight : TermId} {middle : Ledger}
      (evaluates : ledger.Evaluates left right first second)
      (unknown : first.value = none ∨ second.value = none)
      (simplified : ledger.Simplified left right newLeft newRight middle)
      (unsolved : builtin = .equality → ∀ side target,
        OneSided newLeft newRight first second side target →
          ∀ var, middle.arena.occurrences [] side ≠ [(var, 1)]) :
      Computes ledger left right builtin comparison .answers
        (middle.post (middle.posting (.arithmetic comparison) newLeft newRight))
  | solves {first second : Evaluation} {newLeft newRight side goal : TermId} {target : Rational}
      {middle later : Ledger} (equality : builtin = .equality)
      (evaluates : ledger.Evaluates left right first second)
      (simplified : ledger.Simplified left right newLeft newRight middle)
      (oneSided : OneSided newLeft newRight first second side target)
      (isolates : middle.Isolates side target (.solved goal) later)
      (grown : later.Allocates middle) :
      Computes ledger left right builtin comparison (.delegates goal) later

section

variable {left right : TermId} {builtin : Builtin} {comparison : Comparison} {reply : Reply}
  {later : Ledger}

theorem Computes.advances (computes : ledger.Computes left right builtin comparison reply later) :
    later.Advances ledger := by
  cases computes with
  | fails grown | decides _ _ _ _ grown => exact grown.advances
  | posts _ _ simplified =>
    exact (post_advances simplified.grown.wellFormed _ simplified.live.1 simplified.live.2).trans
      simplified.grown.advances
  | solves _ _ simplified _ _ grown => exact (grown.trans simplified.grown).advances

theorem Computes.delegated {goal : TermId}
    (computes : ledger.Computes left right builtin comparison (.delegates goal) later) :
    later.Equation goal := by
  cases computes with
  | solves _ _ _ _ isolates => exact isolates.equation

theorem Computes.fresh {goal : TermId}
    (computes : ledger.Computes left right builtin comparison (.delegates goal) later) :
    ledger.size ≤ goal.index := by
  cases computes with
  | solves _ _ simplified _ isolates _ =>
    exact Nat.le_trans simplified.grown.extends.size_le isolates.fresh

end

theorem solveOrPost_state (wellFormed : ledger.WellFormed) {left right side : TermId}
    (leftLive : ledger.Live left) (rightLive : ledger.Live right) (sideLive : ledger.Live side)
    (target : Rational) :
    ∃ verdict later, ledger.Isolates side target verdict later ∧ ∀ counters, ∃ others,
      (ledger.state counters).solveOrPost left right side target =
        match verdict with
        | .solved goal => (.delegates goal, later.state others)
        | .violated => (.fails, later.state others)
        | _ => (.answers, (later.post (later.posting (.arithmetic .equal) left right)).state others) := by
  obtain ⟨verdict, later, isolates, run⟩ := solveSingle_state wellFormed sideLive target
  refine ⟨verdict, later, isolates, fun counters => ?_⟩
  cases isolates with
  | solved | violated => exact ⟨counters, by simp only [State.solveOrPost, run]⟩
  | undecided =>
    refine ⟨counters.record .posted 1, ?_⟩
    simp only [State.solveOrPost, run]
    exact postConstraint_state wellFormed _ leftLive rightLive counters

theorem Evaluates.solveOrPost_state {left right newLeft newRight side : TermId}
    {first second : Evaluation} {target : Rational} {later : Ledger}
    (evaluates : ledger.Evaluates left right first second)
    (simplified : ledger.Simplified left right newLeft newRight later)
    (oneSided : OneSided newLeft newRight first second side target) :
    ∃ reply last, ledger.Computes left right .equality .equal reply last ∧
      ∀ counters, ∃ others, (later.state counters).solveOrPost newLeft newRight side target =
        (reply, last.state others) := by
  have grown := simplified.grown
  obtain ⟨newLeftLive, newRightLive⟩ := simplified.live
  have live : later.Live side := by
    cases oneSided with
    | left => exact newLeftLive
    | right => exact newRightLive
  obtain ⟨verdict, last, isolates, solved⟩ :=
    Ledger.solveOrPost_state grown.wellFormed newLeftLive newRightLive live target
  have onward := isolates.grows grown.wellFormed live
  cases isolates with
  | solved single valid =>
    exact ⟨_, _, .solves rfl evaluates simplified oneSided (.solved single valid) onward, solved⟩
  | violated => exact ⟨_, _, .fails grown (.inl rfl), solved⟩
  | undecided several =>
    refine ⟨_, _, .posts evaluates ?_ simplified fun _ other number othered => ?_, solved⟩
    · cases oneSided with
      | left unknown => exact .inl unknown
      | right _ unknown => exact .inr unknown
    · cases oneSided <;> cases othered <;> simp_all

theorem arithmeticEquality_state (wellFormed : ledger.WellFormed) {left right : TermId}
    (leftLive : ledger.Live left) (rightLive : ledger.Live right) {first second : Evaluation}
    (leftEvaluation : ledger.arena.evaluate left = some first)
    (rightEvaluation : ledger.arena.evaluate right = some second) :
    ∃ reply later, ledger.Computes left right .equality .equal reply later ∧
      ∀ counters, ∃ others, (ledger.state counters).arithmeticEquality left right first second =
        (reply, later.state others) := by
  cases invalid : first.isInvalid || second.isInvalid with
  | true =>
    refine ⟨.fails, ledger, .fails (.refl wellFormed) (.inl rfl), fun counters => ⟨counters, ?_⟩⟩
    simp only [State.arithmeticEquality, invalid, if_true]
  | false =>
    obtain ⟨leftValid, rightValid⟩ := Bool.or_eq_false_iff.mp invalid
    have evaluates : ledger.Evaluates left right first second :=
      ⟨leftEvaluation, rightEvaluation, leftValid, rightValid⟩
    obtain ⟨newLeft, newRight, middle, later, leftRun, rightRun, simplified⟩ :=
      simplified_exists wellFormed leftLive rightLive
    have grown := simplified.grown
    obtain ⟨newLeftLive, newRightLive⟩ := simplified.live
    -- Four ways to go on, by which sides have a value.
    have run (counters : Counters) :
        (ledger.state counters).arithmeticEquality left right first second =
          first.value.elim
            (second.value.elim
              ((later.state counters).postConstraint (.arithmetic .equal) newLeft newRight)
              ((later.state counters).solveOrPost newLeft newRight newLeft))
            fun value => second.value.elim
              ((later.state counters).solveOrPost newLeft newRight newRight value)
              fun other => (if value = other then .answers else .fails, later.state counters) := by
      cases leftValue : first.value <;> cases rightValue : second.value <;>
        simp only [State.arithmeticEquality, invalid, Bool.false_eq_true, if_false, arena_state,
          leftRun, rightRun, grown.state, leftValue, rightValue, Option.elim_none, Option.elim_some]
    cases leftValue : first.value with
    | some leftResult =>
      cases rightValue : second.value with
      | some rightResult =>
        by_cases same : leftResult = rightResult
        · refine ⟨.answers, later, .decides evaluates leftValue rightValue ?_ grown,
            fun counters => ⟨counters, ?_⟩⟩
          · simp [Comparison.holds, same]
          · rw [run, leftValue, rightValue, Option.elim_some, Option.elim_some, if_pos same]
        · refine ⟨.fails, later, .fails grown (.inl rfl), fun counters => ⟨counters, ?_⟩⟩
          rw [run, leftValue, rightValue, Option.elim_some, Option.elim_some, if_neg same]
      | none =>
        obtain ⟨reply, last, computes, solved⟩ :=
          evaluates.solveOrPost_state simplified (.right leftValue rightValue)
        refine ⟨reply, last, computes, fun counters => ?_⟩
        rw [run, leftValue, rightValue, Option.elim_some, Option.elim_none]
        exact solved counters
    | none =>
      cases rightValue : second.value with
      | some rightResult =>
        obtain ⟨reply, last, computes, solved⟩ :=
          evaluates.solveOrPost_state simplified (.left leftValue rightValue)
        refine ⟨reply, last, computes, fun counters => ?_⟩
        rw [run, leftValue, rightValue, Option.elim_none, Option.elim_some]
        exact solved counters
      | none =>
        refine ⟨.answers, _, .posts evaluates (.inl leftValue) simplified ?_,
          fun counters => ⟨counters.record .posted 1, ?_⟩⟩
        · rintro - side target (⟨-, known⟩ | ⟨known⟩)
          · simp [rightValue] at known
          · simp [leftValue] at known
        · rw [run, leftValue, rightValue]
          exact postConstraint_state grown.wellFormed _ newLeftLive newRightLive counters

theorem arithmeticComparison_state (wellFormed : ledger.WellFormed) {builtin : Builtin}
    (other : builtin ≠ .equality) (comparison : Comparison) {left right : TermId}
    (leftLive : ledger.Live left) (rightLive : ledger.Live right) {first second : Evaluation}
    (leftEvaluation : ledger.arena.evaluate left = some first)
    (rightEvaluation : ledger.arena.evaluate right = some second) :
    ∃ reply later, ledger.Computes left right builtin comparison reply later ∧
      ∀ counters, ∃ others,
        (ledger.state counters).arithmeticComparison comparison left right first second =
          .ok (reply, later.state others) := by
  cases invalid : first.isInvalid || second.isInvalid with
  | true =>
    have unmet : ledger.Unmet comparison left right :=
      unmet_of_invalid leftEvaluation rightEvaluation invalid
    refine ⟨.fails, ledger, .fails (.refl wellFormed) (.inr unmet), fun counters => ⟨counters, ?_⟩⟩
    simp only [State.arithmeticComparison, invalid, if_true]
  | false =>
    obtain ⟨leftValid, rightValid⟩ := Bool.or_eq_false_iff.mp invalid
    have evaluates : ledger.Evaluates left right first second :=
      ⟨leftEvaluation, rightEvaluation, leftValid, rightValid⟩
    by_cases known : ∃ leftResult rightResult,
        first.value = some leftResult ∧ second.value = some rightResult
    · obtain ⟨leftResult, rightResult, leftValue, rightValue⟩ := known
      obtain ⟨holds, compared⟩ := holds_valid comparison
        (valid_of_evaluation leftValue leftValid) (valid_of_evaluation rightValue rightValid)
      have run (counters : Counters) :
          (ledger.state counters).arithmeticComparison comparison left right first second =
            .ok (if holds then .answers else .fails, ledger.state counters) := by
        simp only [State.arithmeticComparison, invalid, Bool.false_eq_true, if_false, leftValue,
          rightValue, compared]
        rfl
      cases holds with
      | true =>
        exact ⟨_, _, .decides evaluates leftValue rightValue compared (.refl wellFormed),
          fun counters => ⟨counters, run counters⟩⟩
      | false =>
        have unmet := Unmet.otherwise evaluates leftValue rightValue compared
        exact ⟨_, _, .fails (.refl wellFormed) (.inr unmet), fun counters => ⟨counters, run counters⟩⟩
    · obtain ⟨newLeft, newRight, middle, later, leftRun, rightRun, simplified⟩ :=
        simplified_exists wellFormed leftLive rightLive
      have unknown : first.value = none ∨ second.value = none := by
        by_contra both
        simp only [not_or, Option.ne_none_iff_exists'] at both
        obtain ⟨⟨leftResult, leftValue⟩, ⟨rightResult, rightValue⟩⟩ := both
        exact known ⟨leftResult, rightResult, leftValue, rightValue⟩
      refine ⟨.answers, _, .posts evaluates unknown simplified fun equality => absurd equality other,
        fun counters => ⟨counters.record .posted 1, ?_⟩⟩
      have posted := postConstraint_state simplified.grown.wellFormed (.arithmetic comparison)
        simplified.live.1 simplified.live.2 counters
      simp only [State.arithmeticComparison, invalid, Bool.false_eq_true, if_false, arena_state,
        leftRun, rightRun, simplified.grown.state, posted]
      split
      · next leftResult rightResult leftValue rightValue =>
        exact absurd ⟨leftResult, rightResult, leftValue, rightValue⟩ known
      · rfl

def Arithmetic (ledger : Ledger) (left right : TermId) : Prop :=
  ∃ first second, ledger.arena.evaluate left = some first ∧
    ledger.arena.evaluate right = some second ∧ (0 < first.operations ∨ 0 < second.operations)

structure Relaxes (ledger : Ledger) (strict : Operator) (left right goal : TermId)
    (later : Ledger) : Prop where
  grown : later.Allocates ledger
  goals : ∃ equal strictly, later.shape? goal =
      some (.compound (.reserved .disjunction) [equal, strictly]) ∧
    later.shape? equal = some (.compound (.reserved .equal) [left, right]) ∧
    later.shape? strictly = some (.compound (.reserved strict) [left, right])

inductive Asserts : Builtin → Comparison → Prop where
  | equality : Asserts .equality .equal
  | inequality : Asserts .inequality .unequal
  | strict {comparison : Comparison} : Asserts (.strict comparison) comparison

inductive Performs (ledger : Ledger) (left right : TermId) :
    Builtin → Reply → Ledger → Prop where
  | relaxed {strict : Operator} {goal : TermId} {later : Ledger}
      (relaxes : ledger.Relaxes strict left right goal later) :
      Performs ledger left right (.relaxed strict) (.delegates goal) later
  | equates {reply : Reply} {later : Ledger} (structural : ¬ ledger.Arithmetic left right)
      (equates : ledger.Equates left right reply later) :
      Performs ledger left right .equality reply later
  | differs {builtin : Builtin} {reply : Reply} {later : Ledger}
      (kind : builtin = .inequality ∨ ∃ comparison, builtin = .strict comparison)
      (differs : ledger.Differs left right reply later)
      (structural : ∀ {first second : Evaluation}, ledger.arena.evaluate left = some first →
        ledger.arena.evaluate right = some second →
          builtin = .inequality ∧ first.operations + second.operations = 0) :
      Performs ledger left right builtin reply later
  | computes {builtin : Builtin} {comparison : Comparison} {reply : Reply} {later : Ledger}
      (arithmetic : builtin = .equality ∨ builtin = .inequality → ledger.Arithmetic left right)
      (asserts : Asserts builtin comparison)
      (computes : ledger.Computes left right builtin comparison reply later) :
      Performs ledger left right builtin reply later

theorem Performs.advances {left right : TermId} {builtin : Builtin} {reply : Reply}
    {later : Ledger} (performs : ledger.Performs left right builtin reply later)
    (wellFormed : ledger.WellFormed) (leftLive : ledger.Live left)
    (rightLive : ledger.Live right) : later.Advances ledger := by
  cases performs with
  | relaxed relaxes => exact relaxes.grown.advances
  | equates _ equates => exact equates.advances wellFormed leftLive rightLive
  | differs _ differs => exact differs.advances wellFormed
  | computes _ _ computes => exact computes.advances

theorem Performs.delegated {left right goal : TermId} {builtin : Builtin} {later : Ledger}
    (performs : ledger.Performs left right builtin (.delegates goal) later) : later.Live goal := by
  cases performs with
  | relaxed relaxes =>
    obtain ⟨equal, strictly, shape, -, -⟩ := relaxes.goals
    exact live_of_shape shape
  | equates _ equates =>
    cases equates with
    | delegates _ _ _ _ conjoins => exact conjoins.live
  | differs _ differs => cases differs
  | computes _ _ computes => exact computes.delegated.live

theorem relaxedComparison_state (wellFormed : ledger.WellFormed) (strict : Operator)
    {left right : TermId} (leftLive : ledger.Live left) (rightLive : ledger.Live right) :
    ∃ goal equal strictly later, ledger.Relaxes strict left right goal later ∧
      later.shape? goal = some (.compound (.reserved .disjunction) [equal, strictly]) ∧
      (∀ id ∈ [goal, equal, strictly], ledger.size ≤ id.index) ∧
      ∀ counters, (ledger.state counters).relaxedComparison strict left right =
        (.delegates goal, later.state counters) := by
  have sides {middle : Ledger} (grown : middle.Allocates ledger) :
      ∀ arg ∈ [left, right], middle.Live arg := by
    simp only [List.mem_cons, List.not_mem_nil, or_false]
    rintro arg (rfl | rfl)
    · exact grown.live leftLive
    · exact grown.live rightLive
  have first := allocate_allocates wellFormed
    (@admits_compound _ (.reserved .equal) _ (sides (.refl wellFormed)))
  have second := allocate_allocates first.wellFormed
    (@admits_compound _ (.reserved strict) _ (sides first))
  have branches : ∀ arg ∈ [(⟨ledger.size⟩ : TermId),
      ⟨(ledger.allocate (.compound (.reserved .equal) [left, right])).size⟩],
      ((ledger.allocate (.compound (.reserved .equal) [left, right])).allocate
        (.compound (.reserved strict) [left, right])).Live arg := by
    simp only [List.mem_cons, List.not_mem_nil, or_false]
    rintro arg (rfl | rfl)
    · exact second.live (live_allocate _ _)
    · exact live_allocate _ _
  have third := allocate_allocates second.wellFormed
    (@admits_compound _ (.reserved .disjunction) _ branches)
  refine ⟨_, _, _, _, ⟨third.trans (second.trans first), _, _, shape?_allocate_size _, ?_, ?_⟩,
    shape?_allocate_size _, ?_, fun counters => ?_⟩
  · exact (third.trans second).extends.shape (shape?_allocate_size _)
  · exact third.extends.shape (shape?_allocate_size _)
  · simp only [List.mem_cons, List.not_mem_nil, or_false, forall_eq_or_imp, forall_eq]
    exact ⟨(second.trans first).extends.size_le, Nat.le_refl _, first.extends.size_le⟩
  · simp only [State.relaxedComparison, arena_state, arena_operator wellFormed (sides (.refl wellFormed)),
      arena_operator first.wellFormed (sides first), arena_operator second.wellFormed branches]
    rw [(third.trans (second.trans first)).state]

theorem equality_state (wellFormed : ledger.WellFormed) {left right : TermId}
    (leftLive : ledger.Live left) (rightLive : ledger.Live right) :
    ∃ reply later, ledger.Performs left right .equality reply later ∧ ∀ counters, ∃ others,
      (ledger.state counters).equality left right = .ok (reply, later.state others) := by
  by_cases arithmetic : ledger.Arithmetic left right
  · obtain ⟨first, second, leftValue, rightValue, operations⟩ := arithmetic
    obtain ⟨reply, later, computes, run⟩ :=
      arithmeticEquality_state wellFormed leftLive rightLive leftValue rightValue
    refine ⟨reply, later, .computes (fun _ => ⟨first, second, leftValue, rightValue, operations⟩)
      .equality computes, fun counters => ?_⟩
    obtain ⟨others, ran⟩ := run counters
    refine ⟨others, ?_⟩
    simp [State.equality, leftValue, rightValue, operations, ran]
  · obtain ⟨reply, later, equates, run⟩ := unification_state wellFormed leftLive rightLive
    refine ⟨reply, later, .equates arithmetic equates, fun counters => ?_⟩
    obtain ⟨others, ran⟩ := run counters
    refine ⟨others, ?_⟩
    simp only [State.equality, arena_state, ran]
    split
    · next first second leftValue rightValue =>
      rw [if_neg]
      intro operations
      exact arithmetic ⟨first, second, leftValue, rightValue, by simpa using operations⟩
    · rfl

theorem inequality_state (wellFormed : ledger.WellFormed) {left right : TermId}
    (leftLive : ledger.Live left) (rightLive : ledger.Live right) :
    ∃ reply later, ledger.Performs left right .inequality reply later ∧ ∀ counters, ∃ others,
      (ledger.state counters).inequality left right = .ok (reply, later.state others) := by
  by_cases arithmetic : ledger.Arithmetic left right
  · obtain ⟨first, second, leftValue, rightValue, operations⟩ := arithmetic
    have other : Builtin.inequality ≠ .equality := by simp
    obtain ⟨reply, later, computes, run⟩ :=
      arithmeticComparison_state wellFormed other .unequal leftLive rightLive leftValue rightValue
    refine ⟨reply, later, .computes (fun _ => ⟨first, second, leftValue, rightValue, operations⟩)
      .inequality computes, fun counters => ?_⟩
    obtain ⟨others, ran⟩ := run counters
    refine ⟨others, ?_⟩
    have sum : first.operations + second.operations > 0 := by omega
    simp only [State.inequality, arena_state, leftValue, rightValue, sum, if_true, ran]
  · obtain ⟨reply, later, differs, run⟩ := disunification_state wellFormed leftLive rightLive
    have structural {first second : Evaluation} (leftValue : ledger.arena.evaluate left = some first)
        (rightValue : ledger.arena.evaluate right = some second) :
        first.operations + second.operations = 0 := by
      by_contra operations
      exact arithmetic ⟨first, second, leftValue, rightValue, by omega⟩
    refine ⟨reply, later, .differs (.inl rfl) differs fun leftValue rightValue =>
      ⟨rfl, structural leftValue rightValue⟩, fun counters => ?_⟩
    obtain ⟨others, ran⟩ := run counters
    refine ⟨others, ?_⟩
    simp only [State.inequality, arena_state, ran]
    split
    · next first second leftValue rightValue =>
      rw [if_neg (by simp [structural leftValue rightValue])]
    · rfl

theorem strictComparison_state (wellFormed : ledger.WellFormed) (comparison : Comparison)
    {left right : TermId} (leftLive : ledger.Live left) (rightLive : ledger.Live right) :
    ∃ reply later, ledger.Performs left right (.strict comparison) reply later ∧
      ∀ counters, ∃ others, (ledger.state counters).strictComparison comparison left right =
        .ok (reply, later.state others) := by
  by_cases known : ∃ first second, ledger.arena.evaluate left = some first ∧
      ledger.arena.evaluate right = some second
  · obtain ⟨first, second, leftValue, rightValue⟩ := known
    have other : Builtin.strict comparison ≠ .equality := by simp
    obtain ⟨reply, later, computes, run⟩ :=
      arithmeticComparison_state wellFormed other comparison leftLive rightLive leftValue rightValue
    refine ⟨reply, later, .computes (by simp) .strict computes, fun counters => ?_⟩
    obtain ⟨others, ran⟩ := run counters
    refine ⟨others, ?_⟩
    simp only [State.strictComparison, arena_state, leftValue, rightValue, ran]
  · obtain ⟨reply, later, differs, run⟩ := disunification_state wellFormed leftLive rightLive
    refine ⟨reply, later, .differs (.inr ⟨comparison, rfl⟩) differs fun leftValue rightValue =>
      absurd ⟨_, _, leftValue, rightValue⟩ known, fun counters => ?_⟩
    obtain ⟨others, ran⟩ := run counters
    refine ⟨others, ?_⟩
    simp only [State.strictComparison, arena_state, ran]
    split
    · next first second leftValue rightValue =>
      exact absurd ⟨first, second, leftValue, rightValue⟩ known
    · rfl

theorem perform_state (wellFormed : ledger.WellFormed) {left right : TermId}
    (leftLive : ledger.Live left) (rightLive : ledger.Live right) (builtin : Builtin) :
    ∃ reply later, ledger.Performs left right builtin reply later ∧ ∀ counters, ∃ others,
      (ledger.state counters).perform left right builtin = .ok (reply, later.state others) := by
  cases builtin with
  | relaxed strict =>
    obtain ⟨goal, -, -, later, relaxes, -, -, run⟩ :=
      relaxedComparison_state wellFormed strict leftLive rightLive
    refine ⟨_, later, .relaxed relaxes, fun counters => ⟨counters, ?_⟩⟩
    simp only [State.perform, run]
  | equality => exact equality_state wellFormed leftLive rightLive
  | inequality => exact inequality_state wellFormed leftLive rightLive
  | strict comparison => exact strictComparison_state wellFormed comparison leftLive rightLive

end Ledger

end Resolvent
