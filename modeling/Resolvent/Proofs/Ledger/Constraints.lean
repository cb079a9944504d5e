import Resolvent.Trail.Recheck
import Resolvent.Trail.Wakeup
import Resolvent.Proofs.Ledger.Counting
import Resolvent.Proofs.Ledger.Unification

namespace Resolvent

namespace Ledger

variable {ledger : Ledger}

def Tracked (ledger : Ledger) (found : Occurrences) : Prop :=
  (found.map Prod.fst).Nodup ∧
    ∀ id ∈ found.map Prod.fst, ledger.shape? id = some .var ∧ ledger.binding? id = none

theorem Tracked.addTimes {found : Occurrences} (tracked : ledger.Tracked found) {id : TermId}
    (isVar : ledger.shape? id = some .var) (unbound : ledger.binding? id = none) (times : Nat) :
    ledger.Tracked (found.addTimes times id) := by
  rw [Tracked, Occurrences.vars_addTimes]
  split
  · exact tracked
  · next absent =>
    refine ⟨List.nodup_append.mpr ⟨tracked.1, by simp, ?_⟩, ?_⟩
    · rintro other member new single rfl
      exact absent (List.mem_singleton.mp single ▸ member)
    · intro other member
      rcases List.mem_append.mp member with old | new
      · exact tracked.2 other old
      · rw [List.mem_singleton.mp new]
        exact ⟨isVar, unbound⟩

theorem occurrencesWithin_tracked (wellFormed : ledger.WellFormed) (fuel times : Nat)
    {found : Occurrences} {id : TermId} (live : ledger.Live id) (tracked : ledger.Tracked found) :
    ledger.Tracked (ledger.arena.occurrencesWithin fuel times found id) := by
  induction fuel generalizing times found id with
  | zero => exact tracked
  | succ fuel ih =>
    have target := wellFormed.live_deref live
    simp only [Arena.occurrencesWithin]
    split
    · exact tracked
    · next cell node =>
      exact tracked.addTimes (shape_of_var target node) (wellFormed.unbound_deref id) times
    · next cell node =>
      have args := wellFormed.live_args (shape_of_compound node).1
      exact List.foldlRecOn _ _ tracked fun found kept run member =>
        ih _ (args run.1 (mem_of_mem_runs member)) kept

theorem occurrences_tracked (wellFormed : ledger.WellFormed) {id : TermId}
    (live : ledger.Live id) {found : Occurrences} (tracked : ledger.Tracked found) :
    ledger.Tracked (ledger.arena.occurrences found id) :=
  occurrencesWithin_tracked wellFormed _ _ live tracked

theorem tracked_nil (ledger : Ledger) : ledger.Tracked [] := by
  simp [Tracked]

def Posted (ledger : Ledger) (ids : List ConstraintId) : Prop :=
  ∀ id ∈ ids, id.index < ledger.postings.length

theorem posted_watchers (ledger : Ledger) (id : TermId) : ledger.Posted (ledger.watchers id) := by
  intro watcher member
  simp only [watchers, List.mem_reverse, List.mem_map, List.mem_filter] at member
  obtain ⟨posting, ⟨listed, -⟩, rfl⟩ := member
  simpa using List.snd_lt_of_mem_zipIdx listed

theorem posted_note {counters : Counters} {found : List ConstraintId} {id : ConstraintId}
    (posted : ledger.Posted found) (known : id.index < ledger.postings.length) :
    ledger.Posted (Wakeup.note (ledger.state counters) found id) := by
  rw [Wakeup.note]
  split
  · exact posted
  · intro other member
    rcases List.mem_append.mp member with old | new
    · exact posted other old
    · rwa [List.mem_singleton.mp new]

theorem posted_visit {counters : Counters} {wakeup : Wakeup} (posted : ledger.Posted wakeup.found)
    (id : TermId) : ledger.Posted (wakeup.visit (ledger.state counters) id).found := by
  simp only [Wakeup.visit, arena_state]
  split
  · next cell node =>
    refine List.foldlRecOn _ _ posted fun found kept watcher member => ?_
    refine posted_note kept ?_
    rw [List.mem_reverse] at member
    rw [node_arena] at node
    cases known : ledger.shape? id with
    | none =>
      simp only [known, Option.map_none, Option.getD_none, Node.var.injEq] at node
      subst node
      cases member
    | some shape =>
      cases shape with
      | number | compound => simp [known, Ledger.node] at node
      | var =>
        simp only [known, Option.map_some, Option.getD_some, Ledger.node, Node.var.injEq] at node
        subst node
        exact posted_watchers ledger id watcher member
  · exact posted

theorem posted_collectWithin (counters : Counters) (fuel : Nat) {wakeup : Wakeup}
    (posted : ledger.Posted wakeup.found) (id : TermId) :
    ledger.Posted (Wakeup.collectWithin (ledger.state counters) fuel wakeup id).found := by
  induction fuel generalizing wakeup id with
  | zero => exact posted
  | succ fuel ih =>
    rw [Wakeup.collectWithin]
    split
    · exact posted
    · refine @List.foldlRecOn _ _ (fun reached : Wakeup => ledger.Posted reached.found) _ _ _
        (posted_visit posted id) fun reached kept next _ => ih kept next

theorem posted_wakeup (ledger : Ledger) (counters : Counters) (ids : List TermId) :
    ledger.Posted ((ledger.state counters).wakeup ids).found := by
  refine @List.foldlRecOn _ _ (fun reached : Wakeup => ledger.Posted reached.found) ids _ _ ?_ ?_
  · simp [Wakeup.start, Posted]
  · intro reached kept id _
    exact posted_collectWithin counters _ kept id

theorem collectWithin_counters (ledger : Ledger) (counters others : Counters) (fuel : Nat) :
    Wakeup.collectWithin (ledger.state counters) fuel =
      Wakeup.collectWithin (ledger.state others) fuel := by
  induction fuel with
  | zero => rfl
  | succ fuel ih =>
    funext wakeup id
    simp only [Wakeup.collectWithin, ih, arena_state]
    rfl

def woken (ledger : Ledger) (ids : List TermId) : List ConstraintId :=
  ((ledger.state {}).wakeup ids).found

theorem wakeup_state (ledger : Ledger) (counters : Counters) (ids : List TermId) :
    ((ledger.state counters).wakeup ids).found = ledger.woken ids := by
  simp only [woken, State.wakeup, Wakeup.collect, arena_state,
    collectWithin_counters ledger counters {}]
  rfl

def Equation (ledger : Ledger) (goal : TermId) : Prop :=
  ∃ left right, ledger.shape? goal = some (.compound (.reserved .equal) [left, right])

theorem Equation.live {goal : TermId} (equation : ledger.Equation goal) : ledger.Live goal := by
  obtain ⟨left, right, known⟩ := equation
  exact live_of_shape known

theorem Extends.equation {later earlier : Ledger} (grown : later.Extends earlier) {goal : TermId}
    (equation : earlier.Equation goal) : later.Equation goal := by
  obtain ⟨left, right, known⟩ := equation
  exact ⟨left, right, grown.shape known⟩

inductive Isolates (ledger : Ledger) (side : TermId) (target : Rational) :
    Verdict → Ledger → Prop where
  | solved {var : TermId} (single : ledger.arena.occurrences [] side = [(var, 1)])
      (valid : (ledger.arena.isolate var side target).isValid = true) :
      Isolates ledger side target (.solved ⟨ledger.size + 1⟩)
        ((ledger.allocate (.number (ledger.arena.isolate var side target))).allocate
          (.compound (.reserved .equal) [var, ⟨ledger.size⟩]))
  | violated {var : TermId} (single : ledger.arena.occurrences [] side = [(var, 1)])
      (invalid : (ledger.arena.isolate var side target).isValid = false) :
      Isolates ledger side target .violated ledger
  | undecided (several : ∀ var, ledger.arena.occurrences [] side ≠ [(var, 1)]) :
      Isolates ledger side target .undecided ledger

theorem Isolates.grows {side : TermId} {target : Rational} {verdict : Verdict} {later : Ledger}
    (isolates : ledger.Isolates side target verdict later) (wellFormed : ledger.WellFormed)
    (live : ledger.Live side) : later.Allocates ledger := by
  cases isolates with
  | violated | undecided => exact .refl wellFormed
  | @solved var single valid =>
    have tracked := occurrences_tracked wellFormed live ledger.tracked_nil
    rw [single] at tracked
    have first := allocate_allocates wellFormed
      (admits_number (ledger.arena.isolate var side target))
    refine (allocate_allocates first.wellFormed (admits_compound ?_)).trans first
    simp only [List.mem_cons, List.not_mem_nil, or_false]
    rintro arg (rfl | rfl)
    · exact first.live (live_of_shape (tracked.2 arg (by simp)).1)
    · exact live_allocate _ _

theorem Isolates.equation {side goal : TermId} {target : Rational} {later : Ledger}
    (isolates : ledger.Isolates side target (.solved goal) later) : later.Equation goal := by
  cases isolates with
  | @solved var _ _ =>
    have last : (⟨ledger.size + 1⟩ : TermId) =
        ⟨(ledger.allocate (.number (ledger.arena.isolate var side target))).size⟩ := by
      simp [allocate, size]
    rw [last]
    exact ⟨_, _, shape?_allocate_size _⟩

theorem Isolates.fresh {side goal : TermId} {target : Rational} {later : Ledger}
    (isolates : ledger.Isolates side target (.solved goal) later) : ledger.size ≤ goal.index := by
  cases isolates with
  | solved => exact Nat.le_succ _

structure Evaluates (ledger : Ledger) (left right : TermId) (first second : Evaluation) : Prop where
  left : ledger.arena.evaluate left = some first
  right : ledger.arena.evaluate right = some second
  leftValid : first.isInvalid = false
  rightValid : second.isInvalid = false

inductive OneSided {α : Type} (left right : α) (first second : Evaluation) : α → Rational → Prop where
  | left {target : Rational} (unknown : first.value = none) (known : second.value = some target) :
      OneSided left right first second left target
  | right {target : Rational} (known : first.value = some target) (unknown : second.value = none) :
      OneSided left right first second right target

theorem OneSided.unique {α β : Type} {left right side : α} {others : α → β} {first second : Evaluation}
    {target result : Rational} {image : β} (oneSided : OneSided left right first second side target)
    (also : OneSided (others left) (others right) first second image result) :
    image = others side ∧ result = target := by
  cases oneSided <;> cases also <;> simp_all

inductive Unmet (ledger : Ledger) (comparison : Comparison) (left right : TermId) : Prop where
  | unevaluated {side : TermId} (among : side = left ∨ side = right)
      (none : ledger.arena.evaluate side = none) : Unmet ledger comparison left right
  | invalid {side : TermId} {evaluation : Evaluation} (among : side = left ∨ side = right)
      (known : ledger.arena.evaluate side = some evaluation) (invalid : evaluation.isInvalid = true) :
      Unmet ledger comparison left right
  | otherwise {first second : Evaluation} {leftTotal rightTotal : Rational}
      (evaluates : ledger.Evaluates left right first second)
      (leftKnown : first.value = some leftTotal) (rightKnown : second.value = some rightTotal)
      (holds : comparison.holds leftTotal rightTotal = .ok false) :
      Unmet ledger comparison left right

theorem unmet_of_invalid {comparison : Comparison} {left right : TermId} {first second : Evaluation}
    (leftKnown : ledger.arena.evaluate left = some first)
    (rightKnown : ledger.arena.evaluate right = some second)
    (invalid : (first.isInvalid || second.isInvalid) = true) : ledger.Unmet comparison left right := by
  rcases (Bool.or_eq_true _ _).mp invalid with invalid | invalid
  · exact .invalid (.inl rfl) leftKnown invalid
  · exact .invalid (.inr rfl) rightKnown invalid

inductive Compares (ledger : Ledger) (comparison : Comparison) (left right : TermId) :
    Verdict → Ledger → Prop where
  | violated (unmet : ledger.Unmet comparison left right) :
      Compares ledger comparison left right .violated ledger
  | satisfied {first second : Evaluation} {leftTotal rightTotal : Rational}
      (evaluates : ledger.Evaluates left right first second)
      (leftKnown : first.value = some leftTotal) (rightKnown : second.value = some rightTotal)
      (holds : comparison.holds leftTotal rightTotal = .ok true) :
      Compares ledger comparison left right .satisfied ledger
  | isolates {first second : Evaluation} {side : TermId} {target : Rational} {verdict : Verdict}
      {later : Ledger} (equal : comparison = .equal)
      (evaluates : ledger.Evaluates left right first second)
      (oneSided : OneSided left right first second side target)
      (isolates : ledger.Isolates side target verdict later) (grown : later.Allocates ledger) :
      Compares ledger comparison left right verdict later
  | undecided {first second : Evaluation} (evaluates : ledger.Evaluates left right first second)
      (unknown : first.value = none ∨ second.value = none)
      (unsided : comparison = .equal → first.value = none ∧ second.value = none) :
      Compares ledger comparison left right .undecided ledger

theorem Compares.grows {comparison : Comparison} {left right : TermId} {verdict : Verdict}
    {later : Ledger} (compares : ledger.Compares comparison left right verdict later)
    (wellFormed : ledger.WellFormed) : later.Allocates ledger := by
  cases compares with
  | violated | satisfied | undecided => exact .refl wellFormed
  | isolates _ _ _ _ grown => exact grown

theorem Compares.equation {comparison : Comparison} {left right goal : TermId} {later : Ledger}
    (compares : ledger.Compares comparison left right (.solved goal) later) :
    later.Equation goal := by
  cases compares with
  | isolates _ _ _ isolates _ => exact isolates.equation

theorem Compares.fresh {comparison : Comparison} {left right goal : TermId} {later : Ledger}
    (compares : ledger.Compares comparison left right (.solved goal) later) :
    ledger.size ≤ goal.index := by
  cases compares with
  | isolates _ _ _ isolates _ => exact isolates.fresh

inductive Judges (ledger : Ledger) (posting : Posting) : Verdict → Ledger → Prop where
  | satisfied {clash : Ledger} (relation : posting.relation = .disunification)
      (solves : Solves ledger.size ledger
        [(ledger.arena.deref posting.left, ledger.arena.deref posting.right)] (.error clash)) :
      Judges ledger posting .satisfied ledger
  | violated (relation : posting.relation = .disunification)
      (solves : Solves ledger.size ledger
        [(ledger.arena.deref posting.left, ledger.arena.deref posting.right)] (.ok ledger)) :
      Judges ledger posting .violated ledger
  | undecided {after : Ledger} (relation : posting.relation = .disunification)
      (solves : Solves ledger.size ledger
        [(ledger.arena.deref posting.left, ledger.arena.deref posting.right)] (.ok after))
      (bound : after ≠ ledger) : Judges ledger posting .undecided ledger
  | arithmetic {comparison : Comparison} {verdict : Verdict} {later : Ledger}
      (relation : posting.relation = .arithmetic comparison)
      (compares : ledger.Compares comparison (ledger.arena.deref posting.left)
        (ledger.arena.deref posting.right) verdict later) : Judges ledger posting verdict later

theorem Judges.grows {posting : Posting} {verdict : Verdict} {later : Ledger}
    (wellFormed : ledger.WellFormed) (judges : ledger.Judges posting verdict later) :
    later.Allocates ledger := by
  cases judges with
  | satisfied | violated | undecided => exact .refl wellFormed
  | arithmetic _ compares => exact compares.grows wellFormed

theorem Judges.fresh {posting : Posting} {goal : TermId} {later : Ledger}
    (judges : ledger.Judges posting (.solved goal) later) : ledger.size ≤ goal.index := by
  cases judges with
  | arithmetic _ compares => exact compares.fresh

theorem Binds.same {later earlier : Ledger} (grown : later.Binds earlier)
    (same : later.bindings.length = earlier.bindings.length) : later = earlier := by
  obtain ⟨-, pairs, rfl⟩ := grown
  have none : pairs = [] := by simpa using same
  simp [none]

theorem judgeDisunification_state (wellFormed : ledger.WellFormed) {posting : Posting}
    (relation : posting.relation = .disunification) (leftLive : ledger.Live posting.left)
    (rightLive : ledger.Live posting.right) :
    ∃ verdict, ledger.Judges posting verdict ledger ∧ ∀ counters, ∃ others,
      (ledger.state counters).judgeDisunification (ledger.arena.deref posting.left)
        (ledger.arena.deref posting.right) = (verdict, ledger.state others) := by
  rcases unify_state wellFormed (wellFormed.live_deref leftLive) (wellFormed.live_deref rightLive)
    with ⟨later, solves, grown, run⟩ | ⟨clash, solves, run⟩
  · by_cases same : later.bindings.length = ledger.bindings.length
    · obtain rfl := grown.same same
      refine ⟨.violated, .violated relation solves, fun counters => ?_⟩
      obtain ⟨others, unified⟩ := run counters
      exact ⟨others, by simp [State.judgeDisunification, unified]⟩
    · have bound : later ≠ ledger := by
        rintro rfl
        exact same rfl
      refine ⟨.undecided, .undecided relation solves bound, fun counters => ?_⟩
      obtain ⟨others, unified⟩ := run counters
      refine ⟨others.record .restore 1, ?_⟩
      simp [State.judgeDisunification, unified, same,
        restore_state grown.wellFormed.toConsistent grown.extends]
  · refine ⟨.satisfied, .satisfied relation solves, fun counters => ?_⟩
    obtain ⟨others, clashed⟩ := run counters
    exact ⟨others, by simp [State.judgeDisunification, clashed]⟩

theorem solveSingle_state (wellFormed : ledger.WellFormed) {side : TermId}
    (live : ledger.Live side) (target : Rational) :
    ∃ verdict later, ledger.Isolates side target verdict later ∧
      ∀ counters, (ledger.state counters).solveSingle side target =
        (verdict, later.state counters) := by
  by_cases single : ∃ var, ledger.arena.occurrences [] side = [(var, 1)]
  · obtain ⟨var, single⟩ := single
    cases valid : (ledger.arena.isolate var side target).isValid with
    | false =>
      refine ⟨_, _, .violated single valid, fun counters => ?_⟩
      simp [State.solveSingle, single, valid]
    | true =>
      have isolates : ledger.Isolates side target _ _ := .solved single valid
      have grown := isolates.grows wellFormed live
      have tracked := occurrences_tracked wellFormed live ledger.tracked_nil
      rw [single] at tracked
      have first := allocate_allocates wellFormed
        (admits_number (ledger.arena.isolate var side target))
      have sides : ∀ arg ∈ [var, ⟨ledger.size⟩],
          (ledger.allocate (.number (ledger.arena.isolate var side target))).Live arg := by
        simp only [List.mem_cons, List.not_mem_nil, or_false]
        rintro arg (rfl | rfl)
        · exact first.live (live_of_shape (tracked.2 arg (by simp)).1)
        · exact live_allocate _ _
      have next : (ledger.allocate (.number (ledger.arena.isolate var side target))).size =
          ledger.size + 1 := by simp [allocate, size]
      refine ⟨_, _, isolates, fun counters => ?_⟩
      simp only [State.solveSingle, arena_state, single, valid, if_true, arena_number wellFormed,
        arena_operator first.wellFormed sides, next]
      rw [grown.state]
  · refine ⟨_, _, .undecided fun var found => single ⟨var, found⟩, fun counters => ?_⟩
    simp only [State.solveSingle, arena_state]
    split
    · next var found => exact absurd ⟨var, found⟩ single
    · rfl

theorem holds_valid (comparison : Comparison) {first second : Rational}
    (firstValid : first.isValid = true) (secondValid : second.isValid = true) :
    ∃ holds, comparison.holds first second = .ok holds := by
  obtain ⟨left, rfl⟩ : ∃ left, first = .valid left := by cases first <;> simp_all [Rational.isValid]
  obtain ⟨right, rfl⟩ : ∃ right, second = .valid right := by
    cases second <;> simp_all [Rational.isValid]
  cases comparison <;> exact ⟨_, rfl⟩

theorem valid_of_evaluation {evaluation : Evaluation} {value : Rational}
    (known : evaluation.value = some value) (valid : evaluation.isInvalid = false) :
    value.isValid = true := by
  simpa [Evaluation.isInvalid, known] using valid

/-- A comparison with one value is solved for the other side if it is an equation. -/
theorem Evaluates.solveSingle_state {left right side : TermId} {first second : Evaluation}
    {target : Rational} (evaluates : ledger.Evaluates left right first second)
    (wellFormed : ledger.WellFormed) (comparison : Comparison) (leftLive : ledger.Live left)
    (rightLive : ledger.Live right) (oneSided : OneSided left right first second side target) :
    ∃ verdict later, ledger.Compares comparison left right verdict later ∧ ∀ counters,
      (if comparison = .equal then (ledger.state counters).solveSingle side target
        else (.undecided, ledger.state counters)) = (verdict, later.state counters) := by
  by_cases equal : comparison = .equal
  · have live : ledger.Live side := by
      cases oneSided with
      | left => exact leftLive
      | right => exact rightLive
    obtain ⟨verdict, later, isolates, solved⟩ := Ledger.solveSingle_state wellFormed live target
    refine ⟨verdict, later,
      .isolates equal evaluates oneSided isolates (isolates.grows wellFormed live), ?_⟩
    intro counters
    rw [if_pos equal, solved]
  · refine ⟨_, _, .undecided evaluates ?_ fun same => absurd same equal, fun _ => if_neg equal⟩
    cases oneSided with
    | left unknown => exact .inl unknown
    | right _ unknown => exact .inr unknown

theorem judgeComparison_state (wellFormed : ledger.WellFormed) (comparison : Comparison)
    {left right : TermId} (leftLive : ledger.Live left) (rightLive : ledger.Live right) :
    ∃ verdict later, ledger.Compares comparison left right verdict later ∧
      ∀ counters, (ledger.state counters).judgeComparison comparison left right =
        .ok (verdict, later.state counters) := by
  cases first : ledger.arena.evaluate left with
  | none =>
    exact ⟨_, _, .violated (.unevaluated (.inl rfl) first), fun counters => by
      simp [State.judgeComparison, first]⟩
  | some leftEvaluation =>
    cases second : ledger.arena.evaluate right with
    | none =>
      exact ⟨_, _, .violated (.unevaluated (.inr rfl) second), fun counters => by
        simp [State.judgeComparison, second]⟩
    | some rightEvaluation =>
      cases invalid : leftEvaluation.isInvalid || rightEvaluation.isInvalid with
      | true =>
        exact ⟨_, _, .violated (unmet_of_invalid first second invalid), fun counters => by
          simp only [State.judgeComparison, arena_state, first, second, invalid, if_true]⟩
      | false =>
        obtain ⟨leftValid, rightValid⟩ := Bool.or_eq_false_iff.mp invalid
        have evaluates : ledger.Evaluates left right leftEvaluation rightEvaluation :=
          ⟨first, second, leftValid, rightValid⟩
        cases leftValue : leftEvaluation.value with
        | some leftResult =>
          cases rightValue : rightEvaluation.value with
          | some rightResult =>
            obtain ⟨holds, compared⟩ := holds_valid comparison
              (valid_of_evaluation leftValue leftValid) (valid_of_evaluation rightValue rightValid)
            have run (counters : Counters) :
                (ledger.state counters).judgeComparison comparison left right =
                  .ok (if holds then .satisfied else .violated, ledger.state counters) := by
              simp only [State.judgeComparison, arena_state, first, second, invalid, leftValue,
                rightValue, compared, Bool.false_eq_true, if_false]
              rfl
            cases holds with
            | true => exact ⟨_, _, .satisfied evaluates leftValue rightValue compared, run⟩
            | false =>
              exact ⟨_, _, .violated (.otherwise evaluates leftValue rightValue compared), run⟩
          | none =>
            obtain ⟨verdict, later, compares, solved⟩ := evaluates.solveSingle_state wellFormed
              comparison leftLive rightLive (.right leftValue rightValue)
            refine ⟨verdict, later, compares, fun counters => ?_⟩
            simp only [State.judgeComparison, arena_state, first, second, invalid, leftValue,
              rightValue, Bool.false_eq_true, if_false, solved]
        | none =>
          cases rightValue : rightEvaluation.value with
          | some rightResult =>
            obtain ⟨verdict, later, compares, solved⟩ := evaluates.solveSingle_state wellFormed
              comparison leftLive rightLive (.left leftValue rightValue)
            refine ⟨verdict, later, compares, fun counters => ?_⟩
            simp only [State.judgeComparison, arena_state, first, second, invalid, leftValue,
              rightValue, Bool.false_eq_true, if_false, solved]
          | none =>
            refine ⟨_, _, .undecided evaluates (.inl leftValue) fun _ => ⟨leftValue, rightValue⟩,
              fun counters => ?_⟩
            simp only [State.judgeComparison, arena_state, first, second, invalid, leftValue,
              rightValue, Bool.false_eq_true, if_false]

theorem judge_state (wellFormed : ledger.WellFormed) {posting : Posting}
    (leftLive : ledger.Live posting.left) (rightLive : ledger.Live posting.right) (index : Nat) :
    ∃ verdict later, ledger.Judges posting verdict later ∧ ∀ counters, ∃ others,
      (ledger.state counters).judge (ledger.constraint index posting) =
        .ok (verdict, later.state others) := by
  cases relation : posting.relation with
  | disunification =>
    obtain ⟨verdict, judges, run⟩ :=
      judgeDisunification_state wellFormed relation leftLive rightLive
    refine ⟨verdict, ledger, judges, fun counters => ?_⟩
    obtain ⟨others, judged⟩ := run counters
    exact ⟨others, by simp only [State.judge, constraint, relation, arena_state, judged]⟩
  | arithmetic comparison =>
    obtain ⟨verdict, later, compares, run⟩ := judgeComparison_state wellFormed comparison
      (wellFormed.live_deref leftLive) (wellFormed.live_deref rightLive)
    refine ⟨verdict, later, .arithmetic relation compares, fun counters => ⟨counters, ?_⟩⟩
    simp only [State.judge, constraint, relation, arena_state, run]

structure Review where
  ledger : Ledger
  violated : Bool := false
  discards : List ConstraintId := []
  goals : List TermId := []

def Review.recheck (review : Review) (counters : Counters) : Recheck where
  state := review.ledger.state counters
  violated := review.violated
  discards := review.discards
  goals := review.goals

inductive Rechecks : List ConstraintId → Review → Review → Prop where
  | done {review : Review} : Rechecks [] review review
  | violated {id : ConstraintId} {ids : List ConstraintId} {review : Review} {posting : Posting}
      {later : Ledger} (posted : review.ledger.postings[id.index]? = some posting)
      (judges : review.ledger.Judges posting .violated later) :
      Rechecks (id :: ids) review { review with ledger := later, violated := true }
  | satisfied {id : ConstraintId} {ids : List ConstraintId} {review last : Review}
      {posting : Posting} {later : Ledger}
      (posted : review.ledger.postings[id.index]? = some posting)
      (judges : review.ledger.Judges posting .satisfied later)
      (goesOn : Rechecks ids
        { review with ledger := later, discards := review.discards ++ [id] } last) :
      Rechecks (id :: ids) review last
  | solved {id : ConstraintId} {ids : List ConstraintId} {review last : Review}
      {posting : Posting} {later : Ledger} {goal : TermId}
      (posted : review.ledger.postings[id.index]? = some posting)
      (judges : review.ledger.Judges posting (.solved goal) later)
      (goesOn : Rechecks ids
        { review with
          ledger := later
          discards := review.discards ++ [id]
          goals := review.goals ++ [goal] } last) :
      Rechecks (id :: ids) review last
  | undecided {id : ConstraintId} {ids : List ConstraintId} {review last : Review}
      {posting : Posting} {later : Ledger}
      (posted : review.ledger.postings[id.index]? = some posting)
      (judges : review.ledger.Judges posting .undecided later)
      (goesOn : Rechecks ids { review with ledger := later } last) :
      Rechecks (id :: ids) review last

theorem recheck_state {ids : List ConstraintId} {review : Review}
    (wellFormed : review.ledger.WellFormed) (posted : review.ledger.Posted ids)
    (unviolated : review.violated = false) :
    ∃ last, Rechecks ids review last ∧ ∀ counters, ∃ others,
      Recheck.run ids (review.recheck counters) = .ok (last.recheck others) := by
  induction ids generalizing review with
  | nil => exact ⟨review, .done, fun counters => ⟨counters, rfl⟩⟩
  | cons id ids ih =>
    obtain ⟨posting, known⟩ : ∃ posting, review.ledger.postings[id.index]? = some posting :=
      ⟨_, List.getElem?_eq_getElem (posted id (by simp))⟩
    have listed := List.mem_of_getElem? known
    obtain ⟨verdict, later, judges, run⟩ := judge_state wellFormed
      (wellFormed.posting_left posting listed) (wellFormed.posting_right posting listed) id.index
    have grown := judges.grows wellFormed
    have remaining : later.Posted ids := by
      intro other member
      rw [grown.postings]
      exact posted other (by simp [member])
    have step (counters others : Counters)
        (judged : (review.ledger.state counters).judge (review.ledger.constraint id.index posting) =
          .ok (verdict, later.state others)) :
        Recheck.run (id :: ids) (review.recheck counters) =
          if ((({ review with ledger := later } : Review).recheck others).take id verdict).violated
          then .ok ((({ review with ledger := later } : Review).recheck others).take id verdict)
          else Recheck.run ids
            ((({ review with ledger := later } : Review).recheck others).take id verdict) := by
      simp only [Recheck.run, Review.recheck, constraints_state, get_constraints known, judged,
        Bind.bind, Except.bind]
      rfl
    -- Where the constraint is not violated, the others are decided in what it left.
    have onward {next : Review} (formed : next.ledger.WellFormed) (posted : next.ledger.Posted ids)
        (fine : next.violated = false)
        (grows : ∀ last, Rechecks ids next last → Rechecks (id :: ids) review last)
        (takes : ∀ others, (({ review with ledger := later } : Review).recheck others).take id
          verdict = next.recheck others) :
        ∃ last, Rechecks (id :: ids) review last ∧ ∀ counters, ∃ others,
          Recheck.run (id :: ids) (review.recheck counters) = .ok (last.recheck others) := by
      obtain ⟨last, goesOn, restRun⟩ := ih formed posted fine
      refine ⟨last, grows last goesOn, fun counters => ?_⟩
      obtain ⟨others, judged⟩ := run counters
      obtain ⟨more, ran⟩ := restRun others
      refine ⟨more, ?_⟩
      rw [step counters others judged, takes]
      simpa [Review.recheck, fine] using ran
    cases verdict with
    | violated =>
      refine ⟨_, .violated known judges, fun counters => ?_⟩
      obtain ⟨others, judged⟩ := run counters
      exact ⟨others, by rw [step counters others judged]; rfl⟩
    | satisfied =>
      exact @onward { review with ledger := later, discards := review.discards ++ [id] }
        grown.wellFormed remaining unviolated (fun _ => .satisfied known judges)
        fun others => by simp [Recheck.take, Review.recheck]
    | solved goal =>
      exact @onward
        { review with
          ledger := later, discards := review.discards ++ [id], goals := review.goals ++ [goal] }
        grown.wellFormed remaining unviolated (fun _ => .solved known judges)
        fun others => by simp [Recheck.take, Review.recheck]
    | undecided =>
      exact @onward { review with ledger := later } grown.wellFormed remaining unviolated
        (fun _ => .undecided known judges) fun _ => rfl

theorem Rechecks.grows {ids : List ConstraintId} {review last : Review}
    (rechecks : Rechecks ids review last) (wellFormed : review.ledger.WellFormed) :
    last.ledger.Allocates review.ledger := by
  induction rechecks with
  | done => exact .refl wellFormed
  | violated _ judges => exact judges.grows wellFormed
  | satisfied _ judges _ ih | solved _ judges _ ih | undecided _ judges _ ih =>
    have grown := judges.grows wellFormed
    exact (ih grown.wellFormed).trans grown

theorem Rechecks.discards {ids : List ConstraintId} {review last : Review}
    (rechecks : Rechecks ids review last) :
    ∀ id ∈ last.discards, id ∈ review.discards ∨ id ∈ ids := by
  induction rechecks with
  | done | violated => exact fun id member => .inl member
  | undecided _ _ _ ih =>
    intro id member
    rcases ih id member with old | later
    · exact .inl old
    · exact .inr (by simp [later])
  | satisfied _ _ _ ih | solved _ _ _ ih =>
    intro id member
    rcases ih id member with old | later
    · rcases List.mem_append.mp old with before | new
      · exact .inl before
      · exact .inr (by simp [List.mem_singleton.mp new])
    · exact .inr (by simp [later])

theorem Rechecks.goals {ids : List ConstraintId} {review last : Review}
    (rechecks : Rechecks ids review last) (wellFormed : review.ledger.WellFormed) :
    ∀ goal ∈ last.goals, goal ∈ review.goals ∨ last.ledger.Equation goal := by
  induction rechecks with
  | done | violated => exact fun goal member => .inl member
  | undecided _ judges _ ih | satisfied _ judges _ ih =>
    exact ih (judges.grows wellFormed).wellFormed
  | solved _ judges goesOn ih =>
    intro goal member
    have grown := judges.grows wellFormed
    rcases ih grown.wellFormed goal member with old | new
    · rcases List.mem_append.mp old with before | single
      · exact .inl before
      · have last := (goesOn.grows grown.wellFormed).extends
        rw [List.mem_singleton.mp single]
        cases judges with
        | arithmetic _ compares => exact .inr (last.equation compares.equation)
    · exact .inr new

theorem Rechecks.fresh {ids : List ConstraintId} {review last : Review}
    (rechecks : Rechecks ids review last) (wellFormed : review.ledger.WellFormed) :
    ∀ goal ∈ last.goals, goal ∈ review.goals ∨ review.ledger.size ≤ goal.index := by
  induction rechecks with
  | done | violated => exact fun goal member => .inl member
  | undecided _ judges _ ih | satisfied _ judges _ ih =>
    intro goal member
    have grown := judges.grows wellFormed
    exact (ih grown.wellFormed goal member).imp_right (Nat.le_trans grown.extends.size_le)
  | solved _ judges _ ih =>
    intro goal member
    have grown := judges.grows wellFormed
    rcases ih grown.wellFormed goal member with old | new
    · rcases List.mem_append.mp old with before | single
      · exact .inl before
      · exact .inr (List.mem_singleton.mp single ▸ judges.fresh)
    · exact .inr (Nat.le_trans grown.extends.size_le new)

end Ledger

end Resolvent
