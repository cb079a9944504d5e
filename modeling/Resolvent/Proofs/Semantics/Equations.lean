import Resolvent.Proofs.Search.Called
import Resolvent.Proofs.Semantics.Inversion
import Resolvent.Proofs.Semantics.Reachable

namespace Resolvent

namespace Ledger

variable {ledger middle later : Ledger} {goals others : List TermId}
  {left right first second : TermId}

/-- An equation that is still to be shown: one that is posted and not discarded, or a goal that is
    not called yet and says what number a term is. -/
inductive Owed (ledger : Ledger) (goals : List TermId) : TermId → TermId → Prop where
  | active {index : Nat} {posting : Posting} (posted : ledger.postings[index]? = some posting)
      (undiscarded : (⟨index⟩ : ConstraintId) ∉ ledger.discards)
      (equality : posting.relation = .arithmetic .equal) :
      Owed ledger goals posting.left posting.right
  | goal {id left right : TermId} {number : Rational} (listed : id ∈ goals)
      (idle : id ∉ ledger.calls)
      (shape : ledger.shape? id = some (.compound (.reserved .equal) [left, right]))
      (assigned : ledger.shape? right = some (.number number)) : Owed ledger goals left right

inductive Met (ledger : Ledger) (goals : List TermId) (left right : TermId) : Prop where
  | settles (settles : Value.Settles (ledger.value left) (ledger.value right)) :
      Met ledger goals left right
  | rests {first second : TermId} (owed : ledger.Owed goals first second)
      (rests : Value.Rests (ledger.value left) (ledger.value right) (ledger.value first)
        (ledger.value second)) : Met ledger goals left right

theorem Owed.live (owed : ledger.Owed goals first second) (wellFormed : ledger.WellFormed) :
    ledger.LivePair (first, second) := by
  cases owed with
  | active posted =>
    have listed := List.mem_of_getElem? posted
    exact ⟨wellFormed.posting_left _ listed, wellFormed.posting_right _ listed⟩
  | goal _ _ shape =>
    have sides := wellFormed.live_args shape
    exact ⟨sides _ (by simp), sides _ (by simp)⟩

theorem Owed.met (owed : ledger.Owed goals first second) : ledger.Met goals first second :=
  .rests owed (.refl _ _)

theorem Met.of_rests (met : ledger.Met goals first second)
    (rests : Value.Rests (ledger.value left) (ledger.value right) (ledger.value first)
      (ledger.value second)) : ledger.Met goals left right := by
  cases met with
  | settles settles => exact .settles (rests.settles settles)
  | rests owed onward => exact .rests owed (rests.trans onward)

/-- What is owed does not change with the goals, but for those that are not called yet. -/
theorem Met.among (met : ledger.Met goals left right)
    (kept : ∀ id ∈ goals, (∃ symbol args, ledger.shape? id = some (.compound symbol args)) →
      id ∈ ledger.calls ∨ id ∈ others) : ledger.Met others left right := by
  cases met with
  | settles settles => exact .settles settles
  | rests owed rests =>
    refine Met.rests ?_ rests
    cases owed with
    | active posted undiscarded equality => exact .active posted undiscarded equality
    | goal listed idle shape assigned =>
      exact .goal ((kept _ listed ⟨_, _, shape⟩).resolve_left idle) idle shape assigned

structure Readable (ledger : Ledger) : Prop where
  wellFormed : ledger.WellFormed
  acyclic : ledger.Acyclic

structure Resolves (later earlier : Ledger) (goals : List TermId) : Prop where
  discarded : ∀ {index : Nat} {posting : Posting}, later.postings[index]? = some posting →
    posting.relation = .arithmetic .equal → (⟨index⟩ : ConstraintId) ∈ later.discards →
      (⟨index⟩ : ConstraintId) ∉ earlier.discards → later.Met goals posting.left posting.right
  called : ∀ {id left right : TermId}, id ∈ later.calls → id ∉ earlier.calls →
    later.shape? id = some (.compound (.reserved .equal) [left, right]) →
      later.value left = later.value right ∨ later.Met goals left right

theorem Resolves.still (calls : later.calls = ledger.calls)
    (discards : later.discards = ledger.discards) : later.Resolves ledger goals where
  discarded _ _ discarded fresh := absurd (discards ▸ discarded) fresh
  called called fresh := absurd (calls ▸ called) fresh

theorem Resolves.among (resolves : later.Resolves ledger goals)
    (kept : ∀ id ∈ goals, (∃ symbol args, later.shape? id = some (.compound symbol args)) →
      id ∈ later.calls ∨ id ∈ others) : later.Resolves ledger others where
  discarded posted equality discarded fresh :=
    (resolves.discarded posted equality discarded fresh).among kept
  called called fresh shape := (resolves.called called fresh shape).imp_right (·.among kept)

theorem Extends.posting (grown : later.Extends ledger) {index : Nat} {posting : Posting}
    (posted : ledger.postings[index]? = some posting) : later.postings[index]? = some posting := by
  obtain ⟨rest, same⟩ := grown.postings
  rw [← same, List.getElem?_append_left (List.getElem?_eq_some_iff.mp posted).1, posted]

/-- What was owed is still owed, or nothing is left to show of it but what is owed. -/
theorem Resolves.owed (resolves : later.Resolves ledger goals) (onward : later.Readable)
    (grown : later.Extends ledger) (owed : ledger.Owed goals first second) :
    later.Met goals first second := by
  cases owed with
  | @active index posting posted undiscarded equality =>
    have known := grown.posting posted
    by_cases discarded : (⟨index⟩ : ConstraintId) ∈ later.discards
    · exact resolves.discarded known equality discarded undiscarded
    · exact (Owed.active known discarded equality).met
  | @goal id left right number listed idle shape assigned =>
    have known := grown.shape shape
    have knownNumber := grown.shape assigned
    by_cases called : id ∈ later.calls
    · refine (resolves.called called idle known).elim (fun same => .settles ?_) fun met => met
      have still : later.arena.deref second = second :=
        onward.wellFormed.deref_of_shape (by simp [knownNumber])
      rw [same, onward.acyclic.value_number onward.wellFormed (live_of_shape knownNumber)
        (by rw [still]; exact knownNumber)]
      exact Value.settles_number number
    · exact (Owed.goal listed called known knownNumber).met

section

variable (readable : ledger.Readable) (onward : later.Readable) (grown : later.Extends ledger)

include readable onward grown

theorem Resolves.met (resolves : later.Resolves ledger goals) (leftLive : ledger.Live left)
    (rightLive : ledger.Live right) (met : ledger.Met goals left right) :
    later.Met goals left right := by
  have value {id : TermId} (live : ledger.Live id) :
      later.value id = (ledger.value id).subst later.value :=
    readable.acyclic.value_later onward.acyclic grown readable.wellFormed onward.wellFormed live
  cases met with
  | settles settles =>
    have kept {id : TermId} (live : ledger.Live id) (ground : (ledger.value id).vars = []) :
        later.value id = ledger.value id :=
      readable.acyclic.value_kept onward.acyclic grown readable.wellFormed onward.wellFormed live
        (by simp [ground])
    refine .settles ?_
    rwa [kept leftLive settles.leftGround, kept rightLive settles.rightGround]
  | rests owed rests =>
    obtain ⟨firstLive, secondLive⟩ := owed.live readable.wellFormed
    refine (resolves.owed onward grown owed).of_rests ?_
    rw [value leftLive, value rightLive, value firstLive, value secondLive]
    exact rests.subst _

theorem Resolves.trans {earlier : Ledger} (resolves : later.Resolves ledger goals)
    (before : ledger.Resolves earlier goals) : later.Resolves earlier goals where
  discarded := by
    intro index posting posted equality discarded fresh
    by_cases early : (⟨index⟩ : ConstraintId) ∈ ledger.discards
    · have inside := readable.wellFormed.discards_posted _ early
      have known := List.getElem?_eq_getElem inside
      obtain rfl := Option.some.inj ((grown.posting known).symm.trans posted)
      have listed := List.getElem_mem inside
      exact resolves.met readable onward grown (readable.wellFormed.posting_left _ listed)
        (readable.wellFormed.posting_right _ listed) (before.discarded known equality early fresh)
    · exact resolves.discarded posted equality discarded early
  called := by
    intro id left right called fresh shape
    by_cases early : id ∈ ledger.calls
    · rw [grown.shape_eq (readable.wellFormed.calls_live id early)] at shape
      have sides := readable.wellFormed.live_args shape
      have leftLive := sides left (by simp)
      have rightLive := sides right (by simp)
      refine (before.called early fresh shape).imp (fun same => ?_)
        (resolves.met readable onward grown leftLive rightLive)
      have value {id : TermId} (live : ledger.Live id) :=
        readable.acyclic.value_later onward.acyclic grown readable.wellFormed onward.wellFormed live
      rw [value leftLive, value rightLive, same]
    · exact resolves.called called early shape

theorem Resolves.allocates {earlier : Ledger} (resolves : later.Resolves ledger goals)
    (built : ledger.Allocates earlier) : later.Resolves earlier goals :=
  resolves.trans readable onward grown (.still built.calls built.keeps.discards)

end

theorem Readable.same (readable : ledger.Readable) (onward : later.Readable)
    (grown : later.Extends ledger) (bindings : later.bindings = ledger.bindings) {id : TermId}
    (live : ledger.Live id) : later.value id = ledger.value id :=
  readable.acyclic.value_same onward.acyclic grown bindings readable.wellFormed onward.wellFormed live

/-- The goal that is left of an equation with a single unknown says what the unknown is. -/
theorem Isolates.assigns {side goal : TermId} {target : Rational} {built : Ledger}
    (isolates : ledger.Isolates side target (.solved goal) built) :
    ∃ var, ledger.arena.occurrences [] side = [(var, 1)] ∧
      (ledger.arena.isolate var side target).isValid = true ∧ ¬ ledger.Live goal ∧
      built.shape? goal = some (.compound (.reserved .equal) [var, ⟨ledger.size⟩]) ∧
      built.shape? ⟨ledger.size⟩ = some (.number (ledger.arena.isolate var side target)) := by
  cases isolates with
  | @solved var single valid =>
    have last : (⟨ledger.size + 1⟩ : TermId) =
        ⟨(ledger.allocate (.number (ledger.arena.isolate var side target))).size⟩ := by
      simp [allocate, size]
    refine ⟨var, single, valid, by simp [Live], ?_, ?_⟩
    · rw [last]
      exact shape?_allocate_size _
    · exact (allocate_extends _ _).shape (shape?_allocate_size _)

theorem Isolates.owed {side goal : TermId} {target : Rational} {built : Ledger}
    {leftEvaluation rightEvaluation : Evaluation}
    (isolates : ledger.Isolates side target (.solved goal) built) (readable : ledger.Readable)
    (leftLive : ledger.Live left) (rightLive : ledger.Live right)
    (leftKnown : (ledger.value left).evaluation = some leftEvaluation)
    (rightKnown : (ledger.value right).evaluation = some rightEvaluation)
    (oneSided : OneSided left right leftEvaluation rightEvaluation side target)
    (onward : later.Readable) (grown : later.Extends built) (calls : later.calls = ledger.calls)
    (bindings : later.bindings = ledger.bindings) (listed : goal ∈ goals) :
    ∃ first second, later.Owed goals first second ∧
      Value.Rests (ledger.value left) (ledger.value right) (later.value first)
        (later.value second) := by
  obtain ⟨wellFormed, acyclic⟩ := readable
  have sideLive : ledger.Live side := by
    cases oneSided with
    | left => exact leftLive
    | right => exact rightLive
  have older := (isolates.grows wellFormed sideLive).extends
  have sideKnown : (ledger.value side).evaluation.isSome = true := by
    cases oneSided with
    | left => rw [leftKnown, Option.isSome_some]
    | right => rw [rightKnown, Option.isSome_some]
  obtain ⟨var, single, valid, fresh, shape, number⟩ := isolates.assigns
  have vars := acyclic.single_of_isolate wellFormed sideLive sideKnown single valid
  obtain ⟨isVar, unbound⟩ := acyclic.vars_open wellFormed sideLive var (by simp [vars])
  rw [acyclic.isolate wellFormed sideLive isVar] at valid number
  have idle : goal ∉ later.calls := by
    rw [calls]
    exact fun called => fresh (wellFormed.calls_live goal called)
  refine ⟨var, _, .goal listed idle (grown.shape shape) (grown.shape number), ?_⟩
  have unassigned : later.binding? var = none := by rw [binding?, bindings, ← binding?, unbound]
  have still : later.arena.deref ⟨ledger.size⟩ = ⟨ledger.size⟩ :=
    onward.wellFormed.deref_of_shape (by simp [grown.shape number])
  rw [onward.acyclic.value_unassigned onward.wellFormed (grown.shape (older.shape isVar)) unassigned,
    onward.acyclic.value_number onward.wellFormed (live_of_shape (grown.shape number))
      (by rw [still]; exact grown.shape number)]
  refine Value.rests_isolate leftKnown rightKnown ?_ vars valid
  cases oneSided with
  | left unknown known => exact .left unknown known
  | right known unknown => exact .right known unknown

theorem Judges.met {posting : Posting} {verdict : Verdict} {built : Ledger}
    (judges : ledger.Judges posting verdict built) (readable : ledger.Readable)
    (leftLive : ledger.Live posting.left) (rightLive : ledger.Live posting.right)
    (equality : posting.relation = .arithmetic .equal)
    (decided : verdict = .satisfied ∨ ∃ goal ∈ goals, verdict = .solved goal)
    (onward : later.Readable) (grown : later.Extends built) (calls : later.calls = ledger.calls)
    (bindings : later.bindings = ledger.bindings) : later.Met goals posting.left posting.right := by
  have ⟨wellFormed, acyclic⟩ := readable
  have older := (judges.grows wellFormed).extends
  have same {id : TermId} (live : ledger.Live id) : later.value id = ledger.value id :=
    readable.same onward (grown.trans older) bindings live
  cases judges with
  | satisfied relation | violated relation | undecided relation => cases equality.symm.trans relation
  | arithmetic relation compares =>
    cases equality.symm.trans relation
    cases compares with
    | violated | undecided => simp at decided
    | satisfied evaluates leftValue rightValue holds =>
      obtain ⟨leftKnown, rightKnown⟩ := evaluates.values acyclic wellFormed leftLive rightLive
      rw [Comparison.holds] at holds
      obtain rfl : _ = _ := of_decide_eq_true (Except.ok.inj holds)
      refine .settles ?_
      rw [same leftLive, same rightLive]
      exact Value.settles_equal leftKnown rightKnown leftValue rightValue
    | isolates _ evaluates oneSided isolates =>
      obtain ⟨goal, listed, rfl⟩ := decided.resolve_left (by cases isolates <;> simp)
      obtain ⟨leftKnown, rightKnown⟩ := evaluates.values acyclic wellFormed leftLive rightLive
      rw [← acyclic.value_deref wellFormed leftLive] at leftKnown
      rw [← acyclic.value_deref wellFormed rightLive] at rightKnown
      obtain ⟨first, second, owed, rests⟩ := isolates.owed readable (wellFormed.live_deref leftLive)
        (wellFormed.live_deref rightLive) leftKnown rightKnown oneSided onward grown calls bindings
        listed
      rw [acyclic.value_deref wellFormed leftLive, acyclic.value_deref wellFormed rightLive,
        ← same leftLive, ← same rightLive] at rests
      exact .rests owed rests

section

variable {reply : Reply} (readable : ledger.Readable) (leftLive : ledger.Live left)
  (rightLive : ledger.Live right)

include readable leftLive rightLive

theorem Unifies.unified {after : Ledger} {last : Review}
    (unifies : Unifies ledger left right after last later) : after.Readable :=
  ⟨unifies.binds.wellFormed, unifies.solves.acyclic readable.acyclic readable.wellFormed
    (leftLive.pair rightLive)⟩

theorem Unifies.resolves {after : Ledger} {last : Review}
    (unifies : Unifies ledger left right after last later) (onward : later.Readable) :
    later.Resolves ledger last.goals := by
  have afterReadable := unifies.unified readable leftLive rightLive
  have advances := unifies.onward
  have bindings := unifies.bindings
  obtain ⟨solves, binds, rechecks, unviolated, checked, settled, built⟩ := unifies
  have reviewed := rechecks.reviewed binds.wellFormed unviolated
  refine ⟨fun {index posting} posted equality discarded fresh => ?_, fun called fresh => ?_⟩
  · rw [built.discards, mem_settleAll, checked.discards, binds.discards] at discarded
    obtain nothing | ⟨verdict, judged, decided⟩ :=
      reviewed.discarded _ (discarded.resolve_left fresh)
    · cases nothing
    obtain ⟨before, known, judges, reached⟩ := judged
    have same := advances.grown.posting known
    cases posted.symm.trans same
    have listed := List.mem_of_getElem? known
    exact judges.met ⟨before.wellFormed, afterReadable.acyclic.allocates binds.wellFormed before⟩
      (before.live (binds.wellFormed.posting_left _ listed))
      (before.live (binds.wellFormed.posting_right _ listed)) equality decided onward
      (built.extends.trans (settled.grown.trans reached.extends))
      (advances.calls.trans before.calls.symm) (bindings.trans before.keeps.bindings.symm)
  · rw [advances.calls, binds.advances.calls] at called
    exact absurd called fresh

theorem Computes.met {builtin : Builtin}
    (computes : ledger.Computes left right builtin .equal reply later) (onward : later.Readable)
    (goesOn : reply ≠ .fails) : ∃ goals, later.Leaves reply goals ∧ later.Met goals left right := by
  have ⟨wellFormed, acyclic⟩ := readable
  have advances := computes.advances
  have same {id : TermId} (live : ledger.Live id) : later.value id = ledger.value id :=
    readable.same onward advances.grown computes.keeps.bindings live
  have known {first second : Evaluation} (evaluates : ledger.Evaluates left right first second) :
      (ledger.value left).evaluation = some first ∧ (ledger.value right).evaluation = some second := by
    rw [← acyclic.evaluate wellFormed leftLive, ← acyclic.evaluate wellFormed rightLive]
    exact ⟨evaluates.left, evaluates.right⟩
  cases computes with
  | fails => exact absurd rfl goesOn
  | decides evaluates leftValue rightValue holds =>
    obtain ⟨leftKnown, rightKnown⟩ := known evaluates
    rw [Comparison.holds] at holds
    obtain rfl : _ = _ := of_decide_eq_true (Except.ok.inj holds)
    refine ⟨[], .answers, .settles ?_⟩
    rw [same leftLive, same rightLive]
    exact Value.settles_equal leftKnown rightKnown leftValue rightValue
  | @posts first second newLeft newRight middle evaluates unknown simplified =>
    have between : middle.Readable :=
      ⟨simplified.grown.wellFormed, acyclic.allocates wellFormed simplified.grown⟩
    obtain ⟨leftFolded, rightFolded⟩ := simplified.values acyclic wellFormed leftLive rightLive
    obtain ⟨newLeftLive, newRightLive⟩ : middle.Live newLeft ∧ middle.Live newRight := simplified.live
    have kept {id : TermId} (live : middle.Live id) :=
      between.same onward (post_extends middle _) rfl live
    have place : (middle.post (middle.posting (.arithmetic .equal) newLeft newRight)).postings[
        middle.postings.length]? = some (middle.posting (.arithmetic .equal) newLeft newRight) := by
      simp [post]
    refine ⟨[], .answers, .rests (.active place (fun discarded => ?_) rfl) ?_⟩
    · exact absurd (between.wellFormed.discards_posted _ discarded) (Nat.lt_irrefl _)
    · rw [same leftLive, same rightLive]
      simp only [posting]
      rw [← posting, kept newLeftLive, kept newRightLive, leftFolded, rightFolded]
      exact Value.rests_simplify _ _
  | @solves first second newLeft newRight side goal target middle later equality evaluates simplified
      oneSided isolates grown =>
    have between : middle.Readable :=
      ⟨simplified.grown.wellFormed, acyclic.allocates wellFormed simplified.grown⟩
    obtain ⟨leftFolded, rightFolded⟩ := simplified.values acyclic wellFormed leftLive rightLive
    obtain ⟨newLeftLive, newRightLive⟩ : middle.Live newLeft ∧ middle.Live newRight := simplified.live
    obtain ⟨leftEvaluation, leftKnown, leftValue⟩ := acyclic.folded wellFormed leftLive evaluates.left
    obtain ⟨rightEvaluation, rightKnown, rightValue⟩ :=
      acyclic.folded wellFormed rightLive evaluates.right
    have sides : OneSided newLeft newRight leftEvaluation rightEvaluation side target := by
      cases oneSided with
      | left unknown other => exact .left (leftValue.trans unknown) (rightValue.trans other)
      | right other unknown => exact .right (leftValue.trans other) (rightValue.trans unknown)
    rw [← leftFolded] at leftKnown
    rw [← rightFolded] at rightKnown
    obtain ⟨first, second, owed, rests⟩ := isolates.owed between newLeftLive newRightLive leftKnown
      rightKnown sides onward (.refl _) grown.calls grown.keeps.bindings (List.mem_singleton.mpr rfl)
    refine ⟨[goal], leaves_goal onward.wellFormed isolates.equation.live, .rests owed ?_⟩
    rw [leftFolded, rightFolded] at rests
    rw [same leftLive, same rightLive]
    exact (Value.rests_simplify _ _).trans rests

structure Concludes (later earlier : Ledger) (goals : List TermId) (left right : TermId) : Prop where
  arithmetic : earlier.Arithmetic left right → later.Met goals left right
  structural : ¬ earlier.Arithmetic left right → later.value left = later.value right

theorem Performs.resolves {builtin : Builtin}
    (performs : ledger.Performs left right builtin reply later) (onward : later.Readable)
    (goesOn : reply ≠ .fails) :
    ∃ goals, later.Leaves reply goals ∧ later.Resolves ledger goals ∧
      (builtin = .equality → later.Concludes ledger goals left right) := by
  have calls := (performs.advances readable.wellFormed leftLive rightLive).calls
  have goals : ∃ goals, later.Leaves reply goals := by
    cases reply with
    | fails => exact absurd rfl goesOn
    | answers => exact ⟨[], .answers⟩
    | delegates next => exact ⟨[next], leaves_goal onward.wellFormed performs.delegated⟩
  cases performs with
  | relaxed relaxes =>
    obtain ⟨goals, leaves⟩ := goals
    exact ⟨goals, leaves, .still calls relaxes.grown.keeps.discards, by simp⟩
  | equates structural equates =>
    obtain ⟨after, last, unifies, leaves⟩ :=
      equates.unifies readable.wellFormed leftLive rightLive goesOn
    refine ⟨_, leaves, unifies.resolves readable leftLive rightLive onward, fun _ =>
      ⟨fun arithmetic => absurd arithmetic structural, fun _ => ?_⟩⟩
    have after := unifies.unified readable leftLive rightLive
    have value {id : TermId} (live : ledger.Live id) :=
      after.same onward unifies.onward.grown unifies.bindings (unifies.binds.live live)
    rw [value leftLive, value rightLive]
    exact unifies.solves.values_eq readable.acyclic readable.wellFormed leftLive rightLive
  | differs kind differs =>
    obtain ⟨goals, leaves⟩ := goals
    refine ⟨goals, leaves, .still calls differs.keeps.discards, fun equality => ?_⟩
    rcases kind with other | ⟨comparison, other⟩ <;> cases equality.symm.trans other
  | computes arithmetic asserts computes =>
    by_cases equality : builtin = .equality
    · subst equality
      cases asserts
      obtain ⟨goals, leaves, met⟩ := computes.met readable leftLive rightLive onward goesOn
      exact ⟨goals, leaves, .still calls computes.keeps.discards, fun _ =>
        ⟨fun _ => met, fun structural => absurd (arithmetic (.inl rfl)) structural⟩⟩
    · obtain ⟨goals, leaves⟩ := goals
      exact ⟨goals, leaves, .still calls computes.keeps.discards,
        fun same => absurd same equality⟩

end

end Ledger

section

variable {program : Program} {goal : TermId} {ledger middle last : Ledger} {goals : List TermId}
  {symbol : Symbol} {args : List TermId}

theorem Opened.readable (opened : Opened program goal ledger symbol args) (upheld : ledger.Upheld)
    (choice : Option Choice) : (ledger.enter goal choice).Readable :=
  ⟨(opened.enter choice).1, (opened.upheld upheld choice).acyclic⟩

theorem Derives.readable (derives : Derives program goal ledger last) (upheld : ledger.Upheld) :
    last.Readable := ⟨derives.grows.1, (derives.upheld upheld).acyclic⟩

theorem Opened.resolves (opened : Opened program goal ledger symbol args) {choice : Option Choice}
    (resolves : last.Resolves (ledger.enter goal choice) goals) (grown : last.Extends ledger)
    (equation : ∀ left right, formOf symbol args = .builtin .equality left right →
      last.value left = last.value right ∨ last.Met goals left right) :
    last.Resolves ledger goals where
  discarded posted equality discarded fresh := resolves.discarded posted equality discarded fresh
  called := by
    intro id left right called fresh shape
    by_cases entered : id ∈ (ledger.enter goal choice).calls
    · obtain new := (List.mem_append.mp entered).resolve_left fresh
      rw [List.mem_singleton.mp new] at shape
      cases (grown.shape opened.shape).symm.trans shape
      exact equation left right rfl
    · exact resolves.called called entered shape

theorem Ledger.Concludes.either {later : Ledger} {left right : TermId}
    (concludes : later.Concludes ledger goals left right) :
    later.value left = later.value right ∨ later.Met goals left right :=
  (em (ledger.Arithmetic left right)).symm.imp concludes.structural concludes.arithmetic

/-- Once the goals that a builtin left to prove have answered nothing is owed to them. -/
theorem Ledger.Performs.delegated_resolves {left right next : TermId} {builtin : Builtin}
    (performs : ledger.Performs left right builtin (.delegates next) middle)
    (readable : ledger.Readable) (between : middle.Readable) (onward : last.Readable)
    (leftLive : ledger.Live left) (rightLive : ledger.Live right)
    (inner : Derives program next middle last) (rest : last.Resolves middle []) :
    last.Resolves ledger [] ∧ (builtin = .equality → last.Concludes ledger [] left right) := by
  obtain ⟨goals, leaves, resolves, concludes⟩ :=
    performs.resolves readable leftLive rightLive between (by simp)
  have advances := performs.advances readable.wellFormed leftLive rightLive
  have grown := inner.grows.2
  have called : ∀ id ∈ goals, (∃ symbol args, last.shape? id = some (.compound symbol args)) →
      id ∈ last.calls ∨ id ∈ ([] : List TermId) := by
    cases leaves with
    | delegates conjoins old =>
      exact fun id listed compound => .inl (inner.conjoined conjoins old id listed compound)
  have further : last.Resolves middle goals := rest.among (by simp)
  have sides := And.intro (advances.grown.live leftLive) (advances.grown.live rightLive)
  refine ⟨(further.trans between onward grown resolves).among called, fun equality =>
    ⟨fun arithmetic => ?_, fun structural => ?_⟩⟩
  · exact (further.met between onward grown sides.1 sides.2
      ((concludes equality).arithmetic arithmetic)).among called
  · have value {id : TermId} (live : middle.Live id) :=
      between.acyclic.value_later onward.acyclic grown between.wellFormed onward.wellFormed live
    rw [value sides.1, value sides.2, (concludes equality).structural structural]

theorem Ledger.Performs.answered_resolves {left right : TermId} {builtin : Builtin}
    (performs : ledger.Performs left right builtin .answers last) (readable : ledger.Readable)
    (onward : last.Readable) (leftLive : ledger.Live left) (rightLive : ledger.Live right) :
    last.Resolves ledger [] ∧ (builtin = .equality → last.Concludes ledger [] left right) := by
  obtain ⟨goals, leaves, resolves, concludes⟩ :=
    performs.resolves readable leftLive rightLive onward (by simp)
  cases leaves
  exact ⟨resolves, concludes⟩

/-- At an answer nothing is left to show of an equation but what is still posted. -/
theorem Derives.resolves (derives : Derives program goal ledger last) (upheld : ledger.Upheld) :
    last.Resolves ledger [] := by
  -- Only an equation that is called owes anything itself, so the other goals hand on what is owed
  -- inside.
  induction derives with
  | number | waits | active | delays => exact .still rfl rfl
  | negation opened form =>
    refine opened.resolves (.still rfl rfl) (opened.enter none).2 fun left right same => ?_
    cases form.symm.trans same
  | conjunction opened form first second firstIh secondIh =>
    have entered := opened.upheld upheld none
    have between := first.upheld entered
    refine opened.resolves ((secondIh between).trans (first.readable entered) (second.readable between)
      second.grows.2 (firstIh entered)) ?_ fun left right same => ?_
    · exact (Derives.conjunction opened form first second).grows.2
    · cases form.symm.trans same
  | disjunction opened form side inner ih =>
    refine opened.resolves (ih (opened.upheld upheld _)) ?_ fun left right same => ?_
    · exact (Derives.disjunction opened form side inner).grows.2
    · cases form.symm.trans same
  | answers opened form performs =>
    have derives := Derives.answers opened form performs
    have sides := opened.sides form none
    obtain ⟨resolves, concludes⟩ := performs.answered_resolves (opened.readable upheld none)
      (derives.readable upheld) sides.1 sides.2
    refine opened.resolves resolves derives.grows.2 fun left right same => ?_
    cases form.symm.trans same
    exact (concludes rfl).either
  | delegates opened form performs inner ih =>
    have derives := Derives.delegates opened form performs inner
    have sides := opened.sides form none
    have between := opened.performed upheld form performs (by simp)
    obtain ⟨resolves, concludes⟩ := performs.delegated_resolves (opened.readable upheld none)
      ⟨inner.called.wellFormed, between.acyclic⟩ (derives.readable upheld) sides.1 sides.2 inner
      (ih between)
    refine opened.resolves resolves derives.grows.2 fun left right same => ?_
    cases form.symm.trans same
    exact (concludes rfl).either
  | fact opened form held bodiless matched head ih =>
    have grown := matched.grows (opened.enter _).1
    have started := (opened.upheld upheld _).allocates (opened.enter _).1 grown
    refine opened.resolves ((ih started).allocates ⟨grown.wellFormed, started.acyclic⟩
      (head.readable started) head.grows.2 grown) ?_ fun left right same => ?_
    · exact (Derives.fact opened form held bodiless matched head).grows.2
    · cases form.symm.trans same
  | rule opened form held has matched head copied inner headIh ih =>
    have grown := matched.grows (opened.enter _).1
    have further := copied.grows head.grows.1
    have started := (opened.upheld upheld _).allocates (opened.enter _).1 grown
    have startedBody := (head.upheld started).allocates head.grows.1 further
    have onward := inner.readable startedBody
    have fromBody := (ih startedBody).allocates ⟨further.wellFormed, startedBody.acyclic⟩ onward
      inner.grows.2 further
    have fromHead := fromBody.trans (head.readable started) onward
      (inner.grows.2.trans further.extends) (headIh started)
    refine opened.resolves (fromHead.allocates ⟨grown.wellFormed, started.acyclic⟩ onward
      (inner.grows.2.trans (further.extends.trans head.grows.2)) grown) ?_ fun left right same => ?_
    · exact (Derives.rule opened form held has matched head copied inner).grows.2
    · cases form.symm.trans same

/-- A builtin goal that has an answer was performed, and what it left to prove has the answer. -/
theorem Derives.performs {left right : TermId} {builtin : Builtin}
    (derives : Derives program goal ledger last) (opened : Opened program goal ledger symbol args)
    (form : formOf symbol args = .builtin builtin left right) :
    (ledger.enter goal none).Performs left right builtin .answers last ∨
      ∃ next middle, (ledger.enter goal none).Performs left right builtin (.delegates next) middle ∧
        Derives program next middle last := by
  cases derives with
  | number _ shape => cases opened.shape.symm.trans shape
  | waits _ isVar | delays _ isVar => cases opened.shape.symm.trans isVar
  | active _ _ active => exact absurd active opened.idle
  | answers also known performs =>
    cases opened.shape.symm.trans also.shape
    cases form.symm.trans known
    exact .inl performs
  | delegates also known performs inner =>
    cases opened.shape.symm.trans also.shape
    cases form.symm.trans known
    exact .inr ⟨_, _, performs, inner⟩
  | negation also known | conjunction also known | disjunction also known | fact also known
  | rule also known =>
    cases opened.shape.symm.trans also.shape
    cases form.symm.trans known

section

variable {left right : TermId} (derives : Derives program goal ledger last)
  (opened : Opened program goal ledger symbol args)
  (form : formOf symbol args = .builtin .equality left right)

include derives opened form

/-- An equation between expressions that was called holds for good, or it comes down to one that is
    still posted. -/
theorem Derives.meets (upheld : ledger.Upheld)
    (arithmetic : (ledger.enter goal none).Arithmetic left right) : last.Met [] left right := by
  have onward := derives.readable upheld
  have entered := opened.readable upheld none
  have sides := opened.sides form none
  rcases derives.performs opened form with performs | ⟨next, middle, performs, inner⟩
  · exact ((performs.answered_resolves entered onward sides.1 sides.2).2 rfl).arithmetic arithmetic
  · have between := opened.performed upheld form performs (by simp)
    exact ((performs.delegated_resolves entered ⟨inner.called.wellFormed, between.acyclic⟩ onward
      sides.1 sides.2 inner (inner.resolves between)).2 rfl).arithmetic arithmetic

/-- Expressions that have values when they are equated have the same valid value. -/
theorem Derives.decides {first second : Evaluation} {total other : Rational}
    (leftKnown : (ledger.enter goal none).arena.evaluate left = some first)
    (rightKnown : (ledger.enter goal none).arena.evaluate right = some second)
    (operations : 0 < first.operations ∨ 0 < second.operations)
    (leftValue : first.value = some total) (rightValue : second.value = some other) :
    total = other ∧ total.isValid = true := by
  have arithmetic : (ledger.enter goal none).Arithmetic left right :=
    ⟨first, second, leftKnown, rightKnown, operations⟩
  have performed {reply : Reply} {later : Ledger}
      (performs : (ledger.enter goal none).Performs left right .equality reply later)
      (goesOn : reply ≠ .fails) : total = other ∧ total.isValid = true := by
    cases performs with
    | equates structural => exact absurd arithmetic structural
    | differs kind => simp at kind
    | computes _ asserts computes =>
      cases asserts
      cases computes with
      | fails => exact absurd rfl goesOn
      | decides evaluates leftTotal rightTotal holds =>
        cases leftKnown.symm.trans evaluates.left
        cases rightKnown.symm.trans evaluates.right
        cases leftValue.symm.trans leftTotal
        cases rightValue.symm.trans rightTotal
        rw [Comparison.holds] at holds
        exact ⟨of_decide_eq_true (Except.ok.inj holds),
          Ledger.valid_of_evaluation leftValue evaluates.leftValid⟩
      | posts evaluates unknown =>
        cases leftKnown.symm.trans evaluates.left
        cases rightKnown.symm.trans evaluates.right
        simp [leftValue, rightValue] at unknown
      | solves _ evaluates _ oneSided =>
        cases leftKnown.symm.trans evaluates.left
        cases rightKnown.symm.trans evaluates.right
        cases oneSided <;> simp_all
  rcases derives.performs opened form with performs | ⟨next, middle, performs, -⟩
  · exact performed performs (by simp)
  · exact performed performs (by simp)

end

end

end Resolvent
