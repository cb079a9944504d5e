import Mathlib.Data.List.Pairwise
import Resolvent.Proofs.Ledger.Surfacing
import Resolvent.Proofs.Ledger.Undoing
import Resolvent.Proofs.Search.Asking
import Resolvent.Proofs.Search.Piles
import Resolvent.Query

namespace Resolvent

/-- Two variables had both been called and had different ends. Nothing was undone since, and now they
    have the same end, which has no value. -/
structure State.Fuses (earlier later : State) (first second : TermId) : Prop where
  called : first ∈ earlier.delayed ∧ second ∈ earlier.delayed
  onward : later.ledger.Extends earlier.ledger
  apart : earlier.arena.deref first ≠ earlier.arena.deref second
  together : later.arena.deref first = later.arena.deref second
  unassigned : later.arena.isUnassigned (later.arena.deref first) = true

structure Recorded (past : List Config) (ledger : Ledger) (index : Nat) (var : TermId)
    (moment : Ledger) : Prop where
  reached : ∃ config ∈ past, Holds config.2.state moment
  wellFormed : moment.WellFormed
  onward : ledger.Extends moment
  height : moment.delayed.length = index + 1
  unbound : moment.binding? var = none
  apart : ∀ other ∈ moment.delayed, other ≠ var → moment.arena.deref other ≠ var

structure Attested (program : Program) (past : List Config) (ledger : Ledger) : Prop where
  wellFormed : ledger.WellFormed
  fits : program.Fits ledger
  recorded : ∀ index var, ledger.delayed[index]? = some var →
    ∃ moment, Recorded past ledger index var moment

section

variable {program : Program} {past : List Config} {ledger after moment : Ledger} {var : TermId}
  {index : Nat} {config next : Config}

theorem Recorded.later (recorded : Recorded past ledger index var moment)
    (grown : after.Extends ledger) : Recorded past after index var moment :=
  { recorded with onward := grown.trans recorded.onward }

theorem Recorded.more (recorded : Recorded past ledger index var moment) :
    Recorded (next :: past) ledger index var moment :=
  { recorded with
    reached := by
      obtain ⟨config, listed, holds⟩ := recorded.reached
      exact ⟨config, List.mem_cons_of_mem _ listed, holds⟩ }

theorem attested_enduring (program : Program) (past : List Config) :
    Enduring program (Attested program past) where
  wellFormed held := held.wellFormed
  fits held := held.fits
  advances held advances := by
    refine ⟨advances.wellFormed, held.fits.later advances.grown, fun index var listed => ?_⟩
    rw [advances.delayed] at listed
    obtain ⟨moment, recorded⟩ := held.recorded index var listed
    exact ⟨moment, recorded.later advances.grown⟩
  register {ledger goal} choice held startable := by
    obtain ⟨symbol, args, shape, -⟩ := startable.shape
    have grown := ledger.register_extends goal choice
    refine ⟨held.wellFormed.register choice shape startable.idle, held.fits.later grown,
      fun index var listed => ?_⟩
    obtain ⟨moment, recorded⟩ := held.recorded index var listed
    exact ⟨moment, recorded.later grown⟩

/-- A variable that is not delayed is the end of no variable that was called. -/
theorem Ledger.WellFormed.apart_of_undelayed (wellFormed : ledger.WellFormed)
    (isVar : ledger.shape? var = some .var) (undelayed : ledger.arena.isDelayed var = false) :
    ∀ other ∈ ledger.delayed, ledger.arena.deref other ≠ var := by
  rintro other member rfl
  have chain := wellFormed.chain_deref other
  rw [chain.isDelayed wellFormed isVar member] at undelayed
  cases undelayed

theorem attested_handsOn (program : Program) (past : List Config) (next : Config) :
    HandsOn (Attested program past) (Attested program (next :: past)) next.2.state where
  keeps held := ⟨held.wellFormed, held.fits, fun index var listed => by
    obtain ⟨moment, recorded⟩ := held.recorded index var listed
    exact ⟨moment, recorded.more⟩⟩
  delays {ledger var} held isVar unbound undelayed reached := by
    have wellFormed := held.wellFormed
    have grown := ledger.delay_extends var
    have apart := wellFormed.apart_of_undelayed isVar undelayed
    have fresh : var ∉ ledger.delayed := by
      intro member
      rw [Ledger.isDelayed_of_mem (Ledger.live_of_shape isVar) isVar member] at undelayed
      cases undelayed
    have formed := wellFormed.delay isVar fresh
    refine ⟨formed, held.fits.later grown, fun index called listed => ?_⟩
    have split : (ledger.delayed ++ [var])[index]? = some called := listed
    rw [List.getElem?_append] at split
    split at split
    · obtain ⟨moment, recorded⟩ := held.recorded index called split
      exact ⟨moment, (recorded.later grown).more⟩
    · next high =>
      -- The variable that has just been called is recorded here.
      obtain ⟨same, rfl⟩ : index = ledger.delayed.length ∧ var = called := by
        rw [List.getElem?_singleton] at split
        split at split
        · next low => exact ⟨by omega, Option.some.inj split⟩
        · cases split
      refine ⟨ledger.delay var, ⟨next, by simp, reached⟩, formed, .refl _, ?_, unbound,
        fun other member different => ?_⟩
      · simp [Ledger.delay, same]
      · have old : other ∈ ledger.delayed := by
          rcases List.mem_append.mp member with old | new
          · exact old
          · exact absurd (List.mem_singleton.mp new) different
        rw [grown.deref_same wellFormed formed rfl]
        exact apart other old

theorem Ledger.pendingDelayed_state (ledger : Ledger) (counters : Counters) :
    (ledger.state counters).pendingDelayed =
      (ledger.delayed.reverse.map ledger.arena.deref).filter ledger.arena.isUnassigned := rfl

theorem Ledger.mem_pending (counters : Counters) {id : TermId} :
    id ∈ (ledger.state counters).pendingDelayed ↔ ledger.arena.isUnassigned id = true ∧
      ∃ var ∈ ledger.delayed, ledger.arena.deref var = id := by
  rw [pendingDelayed_state, List.mem_filter, List.mem_map, and_comm]
  simp only [List.mem_reverse]

def Ledger.Apart (ledger : Ledger) (first second : TermId) : Prop :=
  ledger.arena.deref first = ledger.arena.deref second →
    ledger.arena.isUnassigned (ledger.arena.deref first) = false

instance : Std.Symm ledger.Apart :=
  ⟨fun _ _ apart same => same ▸ apart same.symm⟩

theorem Ledger.nodup_pending_iff (counters : Counters) :
    (ledger.state counters).pendingDelayed.Nodup ↔ ledger.delayed.Pairwise ledger.Apart := by
  rw [pendingDelayed_state, List.Nodup, List.pairwise_filter, List.pairwise_map,
    List.pairwise_reverse]
  constructor
  · intro apart
    refine apart.imp fun {first second} differ same => ?_
    by_contra free
    have free : ledger.arena.isUnassigned (ledger.arena.deref first) = true := by simpa using free
    exact differ (same ▸ free) free same.symm
  · intro apart
    refine apart.imp fun {first second} bound free also same => ?_
    rw [bound same.symm] at also
    cases also

theorem Ledger.WellFormed.value_of_unassigned (wellFormed : ledger.WellFormed) {id : TermId}
    (live : ledger.Live id) (unassigned : ledger.arena.isUnassigned id = true) :
    ledger.arena.value id = .var id := by
  obtain ⟨isVar, unbound⟩ := shape_of_unassigned live unassigned
  have ends : ledger.arena.deref id = id := by
    apply deref_of_unbound
    rw [wellFormed.binding?_arena, unbound]
  rw [Arena.value, size_arena]
  cases ledger.size with
  | zero => rfl
  | succ fuel => simp only [Arena.valueWithin, ends, node_var isVar]

theorem Recorded.called (recorded : Recorded past ledger index var moment) {place : Nat}
    (inside : place ≤ index) : moment.delayed[place]? = ledger.delayed[place]? := by
  have tall : place < moment.delayed.length := by
    rw [recorded.height]
    exact Nat.lt_succ_of_le inside
  rw [List.prefix_iff_getElem?.mp recorded.onward.delayed place tall,
    List.getElem?_eq_getElem tall]

theorem Recorded.fuses {first second : TermId}
    (recorded : Recorded past ledger index second moment) (wellFormed : ledger.WellFormed)
    (counters : Counters) (calledFirst : first ∈ moment.delayed)
    (calledSecond : second ∈ moment.delayed) (different : first ≠ second)
    (same : ledger.arena.deref first = ledger.arena.deref second)
    (free : ledger.arena.isUnassigned (ledger.arena.deref first) = true) :
    ∃ config ∈ past, config.2.state.Fuses (ledger.state counters) first second := by
  have formed := recorded.wellFormed
  have ends : moment.arena.deref second = second := by
    apply Ledger.deref_of_unbound
    rw [formed.binding?_arena, recorded.unbound]
  obtain ⟨config, listed, others, reached⟩ := recorded.reached
  refine ⟨config, listed, ⟨?_, ?_⟩, ?_, ?_, same, free⟩
  · simpa [reached, Ledger.state] using calledFirst
  · simpa [reached, Ledger.state] using calledSecond
  · rw [reached, Ledger.ledger_state wellFormed, Ledger.ledger_state formed]
    exact recorded.onward
  · rw [reached, Ledger.arena_state, ends]
    exact recorded.apart first calledFirst different

/-- Two variables that were called and share an end were apart when the later of them had just been
    called. -/
theorem Attested.fused (attested : Attested program past ledger) (counters : Counters)
    (shared : ¬ ledger.delayed.Pairwise ledger.Apart) :
    ∃ config ∈ past, ∃ first second, config.2.state.Fuses (ledger.state counters) first second := by
  have wellFormed := attested.wellFormed
  obtain ⟨low, high, lowInside, highInside, order, same, free⟩ :
      ∃ low high, ∃ (lowInside : low < ledger.delayed.length)
        (highInside : high < ledger.delayed.length), low < high ∧
        ledger.arena.deref ledger.delayed[low] = ledger.arena.deref ledger.delayed[high] ∧
        ledger.arena.isUnassigned (ledger.arena.deref ledger.delayed[low]) = true := by
    simpa [List.pairwise_iff_getElem, Ledger.Apart] using shared
  have isFirst := List.getElem?_eq_getElem lowInside
  have isSecond := List.getElem?_eq_getElem highInside
  obtain ⟨moment, recorded⟩ := attested.recorded high _ isSecond
  have calledFirst := List.mem_of_getElem? ((recorded.called (Nat.le_of_lt order)).trans isFirst)
  have calledSecond := List.mem_of_getElem? ((recorded.called (Nat.le_refl high)).trans isSecond)
  -- The stack has no variable twice, so the two places are those of two variables.
  have different : ledger.delayed[low] ≠ ledger.delayed[high] := by
    intro equal
    exact Nat.ne_of_lt order ((List.Nodup.getElem_inj_iff wellFormed.delayed_once).mp equal)
  obtain ⟨config, listed, fuses⟩ :=
    recorded.fuses wellFormed counters calledFirst calledSecond different same free
  exact ⟨config, listed, _, _, fuses⟩

theorem State.Fuses.shared {earlier : State} {counters : Counters} {first second : TermId}
    (wellFormed : ledger.WellFormed) (fuses : earlier.Fuses (ledger.state counters) first second) :
    ¬ ledger.delayed.Pairwise ledger.Apart := by
  intro apart
  have called (var : TermId) (before : var ∈ earlier.delayed) : var ∈ ledger.delayed := by
    have later := fuses.onward.delayed.subset (Array.mem_toList_iff.mpr before)
    rwa [Ledger.ledger_state wellFormed] at later
  have different : first ≠ second := by
    rintro rfl
    exact fuses.apart rfl
  have bound := apart.forall (called first fuses.called.1) (called second fuses.called.2) different
    fuses.together
  have unassigned : ledger.arena.isUnassigned (ledger.arena.deref first) = true := fuses.unassigned
  rw [bound] at unassigned
  cases unassigned

end

section

variable {program : Program} {state : State} {goal : TermId} {limit : Nat} {config : Config}
  {past : List Config}

theorem Ready.attested (ready : Ready program state)
    (history : History program (Search.opening goal limit state) (config :: past)) :
    Piled (Attested program (config :: past)) config.2 := by
  obtain ⟨base, same, untouched, wellFormed, fits⟩ := ready.ledger
  rw [same] at history
  refine history.piled (piled_opening ⟨wellFormed, fits, fun index var listed => ?_⟩)
    (attested_enduring program) (attested_handsOn program)
  rw [untouched] at listed
  cases listed

/-- Every open obligation is reported, as the variable that it now is. It is reported once unless two
    variables were made one after both had been called. -/
theorem pending_once_iff (ready : Ready program state)
    (history : History program (Search.opening goal limit state) (config :: past)) :
    (∀ id, id ∈ config.2.state.pendingDelayed ↔ config.2.state.arena.isUnassigned id = true ∧
      ∃ var ∈ config.2.state.delayed, config.2.state.arena.deref var = id) ∧
    (∀ vars, (config.2.state.solution vars).delayed = config.2.state.pendingDelayed.map Value.var) ∧
    (config.2.state.pendingDelayed.Nodup ↔ ∀ moment ∈ config :: past, ∀ first second,
      ¬ moment.2.state.Fuses config.2.state first second) := by
  obtain ⟨ledger, ⟨counters, same⟩, piles⟩ := ready.attested history
  have attested := piles.held
  have wellFormed := attested.wellFormed
  rw [same]
  refine ⟨fun id => ?_, fun vars => ?_, ?_⟩
  · have pending := @Ledger.mem_pending ledger counters id
    simpa only [Ledger.state, List.mem_toArray] using pending
  · apply List.map_congr_left
    intro id listed
    obtain ⟨free, var, member, rfl⟩ := (Ledger.mem_pending counters).mp listed
    have live := Ledger.live_of_shape (wellFormed.delayed_var var member)
    exact wellFormed.value_of_unassigned (wellFormed.live_deref live) free
  · rw [Ledger.nodup_pending_iff]
    constructor
    · intro apart moment listed first second fuses
      exact fuses.shared wellFormed apart
    · intro none
      by_contra shared
      obtain ⟨moment, listed, first, second, fuses⟩ := attested.fused counters shared
      exact none moment listed first second fuses

end

namespace Fused

def early : List Shape :=
  [.var, .var, .compound (.reserved .equal) [⟨0⟩, ⟨1⟩],
    .compound (.reserved .conjunction) [⟨1⟩, ⟨0⟩], .compound (.reserved .conjunction) [⟨2⟩, ⟨3⟩]]

def late : List Shape :=
  [.var, .var, .compound (.reserved .equal) [⟨0⟩, ⟨1⟩],
    .compound (.reserved .conjunction) [⟨1⟩, ⟨2⟩], .compound (.reserved .conjunction) [⟨0⟩, ⟨3⟩]]

def program : Program where
  clauses := #[]

def state (query : List Shape) : State where
  arena := (Arena.build? {} query).getD {}

theorem ready_early : Ready program (state early) where
  accepted := ⟨[], early, [], {}, rfl, rfl, by decide +kernel⟩
  untouched := rfl

theorem ready_late : Ready program (state late) where
  accepted := ⟨[], late, [], {}, rfl, rfl, by decide +kernel⟩
  untouched := rfl

def run (query : List Shape) : List Config :=
  historyFrom program 9 [Search.opening ⟨4⟩ 10 (state query)]

def answered (query : List Shape) : Config :=
  (run query).headD (Search.opening ⟨4⟩ 10 (state query))

theorem run_played (query : List Shape) :
    History program (Search.opening ⟨4⟩ 10 (state query)) (answered query :: (run query).tail) := by
  have history : History program (Search.opening ⟨4⟩ 10 (state query)) (run query) :=
    History.start.steps 9
  rw [answered]
  cases whole : run query with
  | nil =>
    rw [whole] at history
    cases history
  | cons config past => exact whole ▸ history

theorem reported_once : Ready program (state early) ∧
    History program (Search.opening ⟨4⟩ 10 (state early)) (answered early :: (run early).tail) ∧
    (answered early).1 = .notify none .yielded ∧
    (answered early).2.state.assigned = #[⟨1⟩] ∧
    (answered early).2.state.pendingDelayed = [⟨0⟩] ∧
    ∀ moment ∈ answered early :: (run early).tail, ∀ first second,
      ¬ moment.2.state.Fuses (answered early).2.state first second := by
  have reported : (answered early).2.state.pendingDelayed = [⟨0⟩] := by decide +kernel
  refine ⟨ready_early, run_played early, by decide +kernel, by decide +kernel, reported, ?_⟩
  refine (pending_once_iff ready_early (run_played early)).2.2.mp ?_
  rw [reported]
  exact List.nodup_singleton _

theorem reported_twice : Ready program (state late) ∧
    History program (Search.opening ⟨4⟩ 10 (state late)) (answered late :: (run late).tail) ∧
    (answered late).1 = .notify none .yielded ∧
    (answered late).2.state.pendingDelayed = [⟨0⟩, ⟨0⟩] ∧
    ¬ (answered late).2.state.pendingDelayed.Nodup := by
  have reported : (answered late).2.state.pendingDelayed = [⟨0⟩, ⟨0⟩] := by decide +kernel
  refine ⟨ready_late, run_played late, by decide +kernel, reported, ?_⟩
  rw [reported]
  decide

end Fused

end Resolvent
