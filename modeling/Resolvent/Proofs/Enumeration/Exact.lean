import Mathlib.Data.List.Nodup
import Resolvent.Proofs.Enumeration.Rounds
import Resolvent.Proofs.Search.Deepening
import Resolvent.Proofs.Search.Paths
import Resolvent.Proofs.Search.Ready

namespace Resolvent

section

variable {program : Program}

def State.account (vars : List TermId) (state : State) : Array Choice × Solution :=
  (state.path, state.solution vars)

def Ledger.account (vars : List TermId) (ledger : Ledger) : Array Choice × Solution :=
  (ledger.state {}).account vars

theorem Holds.account {state : State} {ledger : Ledger} (holds : Holds state ledger)
    (vars : List TermId) : state.account vars = ledger.account vars := by
  obtain ⟨counters, rfl⟩ := holds
  rfl

structure Poses (program : Program) (base : Ledger) (query : TermId) : Prop where
  quiet : Quiet program base
  idle : base.calls = []
  callable : base.arena.Callable anywhere query

def passOf (program : Program) (base : Ledger) (query : TermId) (limit : Nat) : List Emission :=
  solve program limit (limit + 1) query base

section

variable {base : Ledger} {query : TermId}

theorem Poses.stands (poses : Poses program base query) (limit : Nat) (counters : Counters) :
    Stands program base (.start query limit) (base.state counters)
      (passOf program base query limit) false :=
  stands_start poses.quiet.wellFormed poses.quiet.fits (Ledger.callable_live poses.callable) limit
    counters

theorem Poses.faultless (poses : Poses program base query) (limit : Nat) (reason : Fault) :
    .fault reason ∉ passOf program base query limit :=
  (solve_regular program limit (limit + 1)).faultless poses.quiet poses.callable reason

theorem Poses.deepens (poses : Poses program base query) {limit wider : Nat}
    (more : limit ≤ wider) :
    (answersOf (passOf program base query limit)).Sublist
      (answersOf (passOf program base query wider)) :=
  (solve_deepens more _ (by omega) poses.quiet poses.callable (by simp [poses.idle])
    (by omega)).kept

theorem Poses.diverge (poses : Poses program base query) (limit : Nat) :
    (answersOf (passOf program base query limit)).Pairwise Diverge :=
  solve_apart (limit + 1) poses.quiet poses.callable

theorem Poses.same_path (poses : Poses program base query) {limit : Nat} {first second : Ledger}
    (isFirst : first ∈ answersOf (passOf program base query limit))
    (isSecond : second ∈ answersOf (passOf program base query limit))
    (same : first.path = second.path) : first = second := by
  have apart := List.pairwise_map.mpr ((poses.diverge limit).imp Diverge.path_ne)
  exact List.inj_on_of_nodup_map apart isFirst isSecond same

theorem Holds.same_path (poses : Poses program base query) {limit : Nat} {answer other : State}
    {first second : Ledger} (isFirst : first ∈ answersOf (passOf program base query limit))
    (isSecond : second ∈ answersOf (passOf program base query limit))
    (holds : Holds answer first) (also : Holds other second) (same : answer.path = other.path) :
    first = second := by
  obtain ⟨counters, rfl⟩ := holds
  obtain ⟨others, rfl⟩ := also
  exact poses.same_path isFirst isSecond (by simpa [Ledger.state] using same)

structure Stage (program : Program) (base : Ledger) (query : TermId) (enumeration : Enumeration)
    (done rest : List Ledger) : Prop where
  split : answersOf (passOf program base query enumeration.depthLimit.toNat) = done ++ rest
  ended : enumeration.finished = true → rest = []
  ahead : enumeration.finished = false → ∃ events hit, rest = answersOf events ∧
    Stands program base enumeration.currentPass.1 enumeration.currentPass.2 events hit

structure Keeps (program : Program) (base : Ledger) (query : TermId) (findings : List Finding)
    (enumeration : Enumeration) : Prop where
  same_program : enumeration.program = program
  same_query : enumeration.query = query
  same_root : enumeration.root = base.snapshot
  stage : ∃ done rest, Stage program base query enumeration done rest ∧
    ∀ ledger ∈ done, ∃ answer ∈ reported findings, Holds answer ledger
  listed : ∀ answer ∈ reported findings,
    ∃ ledger ∈ answersOf (passOf program base query enumeration.depthLimit.toNat),
      Holds answer ledger
  seen : enumeration.seen = ((reported findings).map State.path).reverse
  once : ((reported findings).map State.path).Nodup
  repeats : ∀ before answer after, findings = before ++ .suppressed answer :: after →
    ∃ earlier ∈ reported before, ∃ ledger, Holds earlier ledger ∧ Holds answer ledger

theorem split_concat {α : Type} {list before after : List α} {first second : α}
    (same : list ++ [first] = before ++ second :: after) :
    (first = second ∧ list = before) ∨ ∃ between, list = before ++ second :: between := by
  rcases List.eq_nil_or_concat after with rfl | ⟨between, last, rfl⟩
  · have both := List.append_inj' same rfl
    exact .inl ⟨by simpa using both.2, both.1⟩
  · rw [List.concat_eq_append, ← List.cons_append, ← List.append_assoc] at same
    exact .inr ⟨between, (List.append_inj' same rfl).1⟩

theorem Stage.answered {enumeration : Enumeration} {done rest : List Ledger}
    (stage : Stage program base query enumeration done rest) (same : enumeration.program = program)
    (running : enumeration.finished = false) {search : Search} {state : State} {fuel : Nat}
    (next : enumeration.currentPass.1.next enumeration.program fuel enumeration.currentPass.2 =
      .done (true, search, state)) :
    ∃ ledger others, Holds state ledger ∧ rest = ledger :: others ∧
      ∀ event : Event, ∀ seen, Stage program base query
        { enumeration with pass := some search, seen, state := state.record event }
        (done ++ [ledger]) others := by
  obtain ⟨events, hit, rfl, stands⟩ := stage.ahead running
  rw [same] at next
  obtain ⟨ledger, onward, listed, ⟨counters, rfl⟩, -, -, after⟩ := stands.next_answer next
  refine ⟨ledger, _, ⟨counters, rfl⟩, listed, fun event seen => ⟨?_, ?_, fun _ => ?_⟩⟩
  · simpa [listed] using stage.split
  · simp [running]
  · exact ⟨onward, false, rfl, after (counters.record event 1)⟩

@[simp] theorem reported_reported (findings : List Finding) (state : State) :
    reported (findings ++ [.reported state]) = reported findings ++ [state] := by
  simp [reported, Finding.reported?]

@[simp] theorem reported_suppressed (findings : List Finding) (state : State) :
    reported (findings ++ [.suppressed state]) = reported findings := by
  simp [reported, Finding.reported?]

section

variable {findings : List Finding} {enumeration : Enumeration} {search : Search} {state : State}
  {fuel : Nat}

theorem Keeps.reports (keeps : Keeps program base query findings enumeration)
    (running : enumeration.finished = false)
    (next : enumeration.currentPass.1.next enumeration.program fuel enumeration.currentPass.2 =
      .done (true, search, state))
    (new : state.path ∉ enumeration.seen) :
    Keeps program base query (findings ++ [.reported state])
      { enumeration with
        pass := some search
        seen := state.path :: enumeration.seen
        state := state.record .solution } := by
  obtain ⟨done, rest, stage, held⟩ := keeps.stage
  obtain ⟨ledger, others, holds, rfl, onward⟩ := stage.answered keeps.same_program running next
  have seen := keeps.seen
  refine ⟨keeps.same_program, keeps.same_query, keeps.same_root, ⟨_, _, onward _ _, ?_⟩, ?_, ?_, ?_, ?_⟩
  · intro old member
    rw [reported_reported]
    rcases List.mem_append.mp member with before | now
    · obtain ⟨answer, listed, also⟩ := held old before
      exact ⟨answer, by simp [listed], also⟩
    · rw [List.mem_singleton.mp now]
      exact ⟨state, by simp, holds⟩
  · intro answer member
    rw [reported_reported] at member
    rcases List.mem_append.mp member with before | now
    · exact keeps.listed answer before
    · rw [List.mem_singleton.mp now]
      refine ⟨ledger, ?_, holds⟩
      rw [stage.split]
      simp
  · simp [seen]
  · rw [reported_reported, List.map_append, List.nodup_append]
    refine ⟨keeps.once, by simp, ?_⟩
    rintro path before other now rfl
    rw [seen, List.mem_reverse] at new
    rw [List.map_singleton, List.mem_singleton] at now
    exact new (now ▸ before)
  · intro before answer after split
    rcases split_concat split with ⟨other, -⟩ | ⟨between, earlier⟩
    · cases other
    · exact keeps.repeats before answer between earlier

/-- An answer of the pass with the path of one that was reported is the same. -/
theorem Keeps.known (poses : Poses program base query)
    (keeps : Keeps program base query findings enumeration) {ledger : Ledger}
    (now : ledger ∈ answersOf (passOf program base query enumeration.depthLimit.toNat))
    (holds : Holds state ledger) (old : state.path ∈ enumeration.seen) :
    ∃ earlier ∈ reported findings, Holds earlier ledger := by
  rw [keeps.seen, List.mem_reverse, List.mem_map] at old
  obtain ⟨earlier, listed, path⟩ := old
  obtain ⟨other, answered, also⟩ := keeps.listed earlier listed
  obtain rfl := also.same_path poses answered now holds path
  exact ⟨earlier, listed, also⟩

theorem Keeps.suppresses (poses : Poses program base query)
    (keeps : Keeps program base query findings enumeration) (running : enumeration.finished = false)
    (next : enumeration.currentPass.1.next enumeration.program fuel enumeration.currentPass.2 =
      .done (true, search, state))
    (old : state.path ∈ enumeration.seen) :
    Keeps program base query (findings ++ [.suppressed state])
      { enumeration with pass := some search, state := state.record .duplicate } := by
  obtain ⟨done, rest, stage, held⟩ := keeps.stage
  obtain ⟨ledger, others, holds, rfl, onward⟩ := stage.answered keeps.same_program running next
  obtain ⟨earlier, listed, also⟩ := keeps.known poses (by simp [stage.split]) holds old
  refine ⟨keeps.same_program, keeps.same_query, keeps.same_root, ⟨_, _, onward _ _, ?_⟩, ?_, ?_, ?_, ?_⟩
  · intro old member
    rw [reported_suppressed]
    rcases List.mem_append.mp member with before | now
    · exact held old before
    · rw [List.mem_singleton.mp now]
      exact ⟨earlier, listed, also⟩
  · rw [reported_suppressed]
    exact keeps.listed
  · rw [reported_suppressed]
    exact keeps.seen
  · rw [reported_suppressed]
    exact keeps.once
  · intro before answer after split
    rcases split_concat split with ⟨now, whole⟩ | ⟨between, earlier⟩
    · cases now
      rw [← whole]
      exact ⟨earlier, listed, ledger, also, holds⟩
    · exact keeps.repeats before answer between earlier

theorem Keeps.finishes (keeps : Keeps program base query findings enumeration)
    (running : enumeration.finished = false)
    (next : enumeration.currentPass.1.next enumeration.program fuel enumeration.currentPass.2 =
      .done (false, search, state)) :
    Keeps program base query findings
      { enumeration with
        pass := none
        finished := true
        state := state.restore enumeration.root } := by
  obtain ⟨done, rest, stage, held⟩ := keeps.stage
  obtain ⟨events, hit, rfl, stands⟩ := stage.ahead running
  rw [keeps.same_program] at next
  have none := (stands.next_end next).1
  refine ⟨keeps.same_program, keeps.same_query, keeps.same_root,
    ⟨done, [], ⟨?_, fun _ => rfl, by simp⟩, held⟩, keeps.listed, keeps.seen, keeps.once, keeps.repeats⟩
  simpa [none] using stage.split

/-- The next pass starts where the last one did, and comes to all that was found. -/
theorem Keeps.widens (poses : Poses program base query)
    (keeps : Keeps program base query findings enumeration) (running : enumeration.finished = false)
    (next : enumeration.currentPass.1.next enumeration.program fuel enumeration.currentPass.2 =
      .done (false, search, state))
    (low : enumeration.depthLimit < enumeration.policy.maximum) :
    Keeps program base query findings
      { enumeration with
        pass := none
        depthLimit := enumeration.policy.widen enumeration.depthLimit
        state := state.restore enumeration.root } := by
  obtain ⟨done, rest, stage, held⟩ := keeps.stage
  obtain ⟨events, hit, rfl, stands⟩ := stage.ahead running
  rw [keeps.same_program] at next
  obtain ⟨-, final, ⟨counters, rfl⟩, wellFormed, grown, -⟩ := stands.next_end next
  have back := Ledger.restore_state wellFormed.toConsistent grown counters
  refine ⟨keeps.same_program, keeps.same_query, keeps.same_root,
    ⟨[], _, ⟨rfl, by simp [running], fun _ => ⟨_, false, rfl, ?_⟩⟩, by simp⟩,
    fun answer member => ?_, keeps.seen, keeps.once, keeps.repeats⟩
  · have start := poses.stands (enumeration.policy.widen enumeration.depthLimit).toNat
      ((counters.record .restore 1).record .pass 1)
    simp only [Enumeration.currentPass, keeps.same_root, keeps.same_query, back]
    exact start
  · obtain ⟨ledger, listed, holds⟩ := keeps.listed answer member
    exact ⟨ledger, (poses.deepens (Nat.le_of_lt (widen_higher low))).subset listed, holds⟩

end

theorem Keeps.round (poses : Poses program base query) {findings found : List Finding}
    {enumeration later : Enumeration} (keeps : Keeps program base query findings enumeration)
    (round : enumeration.Round found later) :
    Keeps program base query (findings ++ found) later := by
  cases round with
  | reports running next new => exact keeps.reports running next new
  | suppresses running next old => exact keeps.suppresses poses running next old
  | finishes running next =>
    rw [List.append_nil]
    exact keeps.finishes running next
  | widens running next _ low =>
    rw [List.append_nil]
    exact keeps.widens poses running next low

theorem Keeps.rounds (poses : Poses program base query) {findings found : List Finding}
    {enumeration last : Enumeration} (keeps : Keeps program base query findings enumeration)
    (rounds : enumeration.Rounds found last) : Keeps program base query (findings ++ found) last := by
  induction rounds generalizing findings with
  | none => simpa using keeps
  | more round _ ih =>
    rw [← List.append_assoc]
    exact ih (keeps.round poses round)

theorem Poses.keeps (poses : Poses program base query) (policy : DepthPolicy)
    (counters : Counters) : Keeps program base query []
      (.start program policy (base.state counters) query) := by
  refine ⟨rfl, rfl, Ledger.snapshot_state base counters,
    ⟨[], _, ⟨rfl, nofun, fun _ => ⟨_, false, rfl, ?_⟩⟩, by simp⟩, by simp [reported], rfl,
    by simp [reported], by simp⟩
  exact poses.stands policy.first.toNat _

/-- The reported answers of an enumeration that is finished are those of its last pass. -/
theorem Keeps.exact (poses : Poses program base query) {findings : List Finding}
    {last : Enumeration} (keeps : Keeps program base query findings last)
    (finished : last.finished = true) (vars : List TermId) :
    ((reported findings).map (State.account vars)).Perm
      ((answersOf (passOf program base query last.depthLimit.toNat)).map (Ledger.account vars)) := by
  obtain ⟨done, rest, stage, held⟩ := keeps.stage
  have once : ((reported findings).map (State.account vars)).Nodup := by
    refine List.Nodup.of_map Prod.fst ?_
    rw [List.map_map]
    exact keeps.once
  have apart : ((answersOf (passOf program base query last.depthLimit.toNat)).map
      (Ledger.account vars)).Nodup := by
    refine List.pairwise_map.mpr ((poses.diverge last.depthLimit.toNat).imp ?_)
    intro first second diverge same
    have paths := congrArg Prod.fst same
    exact diverge.path_ne (by simpa [Ledger.account, State.account, Ledger.state] using paths)
  rw [List.perm_ext_iff_of_nodup once apart]
  intro account
  simp only [List.mem_map]
  constructor
  · rintro ⟨answer, member, rfl⟩
    obtain ⟨ledger, listed, holds⟩ := keeps.listed answer member
    exact ⟨ledger, listed, (holds.account vars).symm⟩
  · rintro ⟨ledger, member, rfl⟩
    rw [stage.split, stage.ended finished, List.append_nil] at member
    obtain ⟨answer, listed, holds⟩ := held ledger member
    exact ⟨answer, listed, holds.account vars⟩

end

/-- A query in which no variable is called is posed to a program in which none is. -/
theorem Ready.poses {state : State} {query : TermId} (ready : Ready program state)
    (bodies : ∀ clause ∈ program.clauses, ∀ body, clause.body = some body →
      state.arena.Callable anywhere body)
    (callable : state.arena.Callable anywhere query) :
    ∃ base : Ledger, state = base.state state.counters ∧ Poses program base query := by
  obtain ⟨base, same, untouched, wellFormed, fits⟩ := ready.ledger
  rw [same] at bodies callable
  refine ⟨base, same, ⟨wellFormed, fits, ?_, bodies⟩, ?_, callable⟩ <;>
  · rw [untouched]

/-- Iterative deepening neither loses nor repeats an answer. Where no variable is called, a pass ends,
    and a wider one has its answers among its own, in the same order, with their paths, bindings
    and constraints. An enumeration that has no more answers gave those of its last pass, each once,
    and an answer it left out was the same as one it had given. -/
theorem deepening_exact {state : State} {query : TermId} (ready : Ready program state)
    (bodies : ∀ clause ∈ program.clauses, ∀ body, clause.body = some body →
      state.arena.Callable anywhere body)
    (callable : state.arena.Callable anywhere query) :
    (∀ limit, ∃ answers truncated,
      (Search.start query limit).Pass program state answers truncated) ∧
    (∀ limit wider answers more truncated truncatedToo, limit ≤ wider →
      (Search.start query limit).Pass program state answers truncated →
      (Search.start query wider).Pass program state more truncatedToo →
      (answers.map (State.account (state.arena.vars query))).Sublist
        (more.map (State.account (state.arena.vars query)))) ∧
    ∀ policy solutions last,
      (Enumeration.start program policy state query).Drains solutions last →
      ∃ findings, (Enumeration.start program policy state query).Rounds findings last ∧
        (reported findings).map (fun answer => answer.solution (state.arena.vars query)) =
          solutions ∧
        ((reported findings).map State.path).Nodup ∧
        (∀ answers truncated,
          (Search.start query last.depthLimit.toNat).Pass program state answers truncated →
          ((reported findings).map (State.account (state.arena.vars query))).Perm
            (answers.map (State.account (state.arena.vars query)))) ∧
        ∀ before answer after, findings = before ++ .suppressed answer :: after →
          ∃ earlier ∈ reported before,
            earlier.account (state.arena.vars query) = answer.account (state.arena.vars query) := by
  obtain ⟨base, same, poses⟩ := ready.poses bodies callable
  -- All passes of a query start from one ledger, whatever was counted before.
  have stands (limit : Nat) : Stands program base (.start query limit) state
      (passOf program base query limit) false := by
    rw [same]
    exact poses.stands limit state.counters
  have accounts {limit : Nat} {answers : List State} {truncated : Bool} (vars : List TermId)
      (pass : (Search.start query limit).Pass program state answers truncated) :
      answers.map (State.account vars) =
        (answersOf (passOf program base query limit)).map (Ledger.account vars) := by
    have held := ((stands limit).pass pass).2.1
    rw [← List.forall₂_eq_eq_eq, List.forall₂_map_left_iff, List.forall₂_map_right_iff]
    exact held.imp fun answer ledger holds => holds.account vars
  refine ⟨fun limit => (stands limit).pass_exists (poses.faultless limit), ?_, ?_⟩
  · intro limit wider answers more truncated truncatedToo below pass passToo
    rw [accounts _ pass, accounts _ passToo]
    exact (poses.deepens below).map _
  · intro policy solutions last drains
    obtain ⟨findings, rounds, same_solutions, finished⟩ := drains.rounds
    have starts := poses.keeps policy state.counters
    rw [← same] at starts
    have keeps := starts.rounds poses rounds
    rw [List.nil_append] at keeps
    refine ⟨findings, rounds, same_solutions, keeps.once, fun answers truncated pass => ?_, ?_⟩
    · rw [accounts _ pass]
      exact keeps.exact poses finished _
    · intro before answer after split
      obtain ⟨earlier, listed, ledger, holds, also⟩ := keeps.repeats before answer after split
      exact ⟨earlier, listed, (holds.account _).trans (also.account _).symm⟩

end

namespace Widened

def terms : List Shape :=
  [.compound (.user 0) [], .compound (.user 1) [⟨0⟩], .compound (.user 2) [],
    .compound (.user 1) [⟨2⟩], .compound (.user 3) [], .compound (.user 1) [⟨4⟩],
    .compound (.reserved .not) [⟨5⟩], .compound (.reserved .clause) [⟨3⟩, ⟨6⟩]]

def queryTerms : List Shape := [.var, .compound (.user 1) [⟨8⟩]]

def program : Program where
  clauses := #[⟨⟨1⟩, none, .user 1, 1⟩, ⟨⟨3⟩, some ⟨6⟩, .user 1, 1⟩]

def state : State where
  arena := (Arena.build? {} (terms ++ queryTerms)).getD {}

def policy : DepthPolicy where
  initial := 2
  maximum := 8

theorem ready : Ready program state where
  accepted :=
    ⟨terms, queryTerms, [⟨1⟩, ⟨7⟩], (Arena.build? {} terms).getD {}, by decide +kernel, by rfl,
      by decide +kernel⟩
  untouched := rfl

theorem callable_query : state.arena.Callable anywhere ⟨9⟩ :=
  Arena.callable_of_within 1 (by decide +kernel)

theorem bodies : ∀ clause ∈ program.clauses, ∀ body, clause.body = some body →
    state.arena.Callable anywhere body := by
  have checked : ∀ clause ∈ program.clauses, ∀ body ∈ clause.body,
      state.arena.callableWithin anywhere 2 body = true := by decide +kernel
  exact fun clause listed body has => Arena.callable_of_within 2 (checked clause listed body has)

theorem gives_two : ∃ solutions last findings,
    (Enumeration.start program policy state ⟨9⟩).Drains solutions last ∧ solutions.length = 2 ∧
    (Enumeration.start program policy state ⟨9⟩).Rounds findings last ∧
    ((reported findings).map State.path).Nodup ∧ (reported findings).length = 2 := by
  have counted : ((Enumeration.start program policy state ⟨9⟩).count 200).map Prod.fst = .done 2 := by
    decide +kernel
  cases ran : (Enumeration.start program policy state ⟨9⟩).count 200 with
  | fault | unfinished => simp [ran, Outcome.map] at counted
  | done ended =>
    obtain ⟨total, after⟩ := ended
    obtain rfl : total = 2 := by simpa [ran, Outcome.map] using counted
    obtain ⟨solutions, last, drains, length, -⟩ := Enumeration.drains_of_count ran
    obtain ⟨findings, rounds, same, once, -, -⟩ :=
      (deepening_exact ready bodies callable_query).2.2 policy solutions last drains
    refine ⟨solutions, last, findings, drains, length, rounds, once, ?_⟩
    rw [← length, ← same, List.length_map]

end Widened

end Resolvent
