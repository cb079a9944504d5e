import Mathlib.Algebra.Group.Nat.Defs
import Mathlib.Data.List.Chain
import Resolvent.Proofs.Enumeration.Exact
import Resolvent.Proofs.Enumeration.Isolation
import Resolvent.Proofs.Search.Uncut

namespace Resolvent

theorem saturate_toNat (value : Nat) :
    (saturate value).toNat = min value (UInt64.size - 1) := by
  have small : min value (UInt64.size - 1) < UInt64.size := by
    simp only [UInt64.size]
    omega
  rw [saturate, UInt64.toNat_ofNat_of_lt' small]

namespace DepthPolicy

variable {policy : DepthPolicy}

theorem first_toNat (policy : DepthPolicy) :
    policy.first.toNat = min (max policy.initial.toNat 1) policy.maximum.toNat := by
  rw [first, UInt64.toNat_min, UInt64.toNat_max]
  rfl

theorem widen_toNat (policy : DepthPolicy) (limit : UInt64) :
    (policy.widen limit).toNat =
      min (max (limit.toNat * max policy.multiplier.toNat 2) (limit.toNat + 1))
        policy.maximum.toNat := by
  have factor : (max policy.multiplier 2).toNat = max policy.multiplier.toNat 2 := by
    rw [UInt64.toNat_max]
    rfl
  have word : policy.maximum.toNat < UInt64.size := policy.maximum.toNat_lt
  rw [widen, UInt64.toNat_min, UInt64.toNat_max, saturate_toNat, saturate_toNat, factor]
  -- What saturates would be above the maximum anyway, so nothing is lost.
  generalize limit.toNat * max policy.multiplier.toNat 2 = product
  generalize UInt64.size = size at word ⊢
  omega

def Follows (policy : DepthPolicy) (earlier later : UInt64) : Prop :=
  earlier < policy.maximum ∧ later = policy.widen earlier

theorem Follows.higher {earlier later : UInt64} (follows : policy.Follows earlier later) :
    earlier < later := by
  obtain ⟨low, rfl⟩ := follows
  exact UInt64.lt_iff_toNat_lt.mpr (widen_higher low)

theorem Follows.doubles {earlier later : UInt64} (follows : policy.Follows earlier later) :
    min policy.maximum.toNat (2 * earlier.toNat) ≤ later.toNat := by
  obtain ⟨-, rfl⟩ := follows
  have factor : earlier.toNat * 2 ≤ earlier.toNat * max policy.multiplier.toNat 2 :=
    Nat.mul_le_mul_left _ (Nat.le_max_right _ _)
  rw [widen_toNat]
  omega

structure Climbs (policy : DepthPolicy) (limits : List UInt64) : Prop where
  first : ∀ limit ∈ limits.head?,
    limit.toNat = min (max policy.initial.toNat 1) policy.maximum.toNat
  positive : policy.maximum ≠ 0 → ∀ limit ∈ limits, 1 ≤ limit.toNat
  rises : limits.Pairwise (· < ·)
  bounded : ∀ limit ∈ limits, limit ≤ policy.maximum
  doubles : limits.IsChain fun earlier later =>
    min policy.maximum.toNat (2 * earlier.toNat) ≤ later.toNat
  exact : limits.IsChain fun earlier later =>
    later.toNat =
      min (max (earlier.toNat * max policy.multiplier.toNat 2) (earlier.toNat + 1))
        policy.maximum.toNat
  few : limits.length ≤ 65

section

variable {limits : List UInt64}

theorem power_le (starts : ∀ limit ∈ limits.head?, limit = policy.first)
    (chain : limits.IsChain policy.Follows) (index : Nat) (within : index < limits.length) :
    min policy.maximum.toNat (2 ^ index) ≤ limits[index].toNat := by
  induction index with
  | zero =>
    have head := starts limits[0] (by simp [List.head?_eq_getElem?])
    rw [head, first_toNat]
    omega
  | succ index ih =>
    have before := ih (by omega)
    have next := (List.isChain_iff_getElem.mp chain index within).doubles
    rw [Nat.pow_succ]
    omega

theorem length_le (starts : ∀ limit ∈ limits.head?, limit = policy.first)
    (chain : limits.IsChain policy.Follows) : limits.length ≤ 65 := by
  by_contra many
  -- The limit of the 65th pass would be 2 ^ 64, which is no word, were the maximum not met before.
  have high := power_le starts chain 64 (by omega)
  have low := (List.isChain_iff_getElem.mp chain 64 (by omega)).1
  have word := policy.maximum.toNat_lt
  rw [UInt64.lt_iff_toNat_lt] at low
  omega

theorem first_le (policy : DepthPolicy) : policy.first ≤ policy.maximum := by
  rw [UInt64.le_iff_toNat_le, first_toNat]
  omega

theorem bounded_of_chain (starts : ∀ limit ∈ limits.head?, limit = policy.first)
    (chain : limits.IsChain policy.Follows) : ∀ limit ∈ limits, limit ≤ policy.maximum := by
  intro limit member
  obtain ⟨index, within, rfl⟩ := List.mem_iff_getElem.mp member
  cases index with
  | zero =>
    rw [starts limits[0] (by simp [List.head?_eq_getElem?])]
    exact policy.first_le
  | succ index =>
    rw [(List.isChain_iff_getElem.mp chain index within).2, UInt64.le_iff_toNat_le, widen_toNat]
    omega

theorem climbs_of_chain (starts : ∀ limit ∈ limits.head?, limit = policy.first)
    (chain : limits.IsChain policy.Follows) : policy.Climbs limits where
  first limit head := by rw [starts limit head, first_toNat]
  positive some limit member := by
    obtain ⟨index, within, rfl⟩ := List.mem_iff_getElem.mp member
    have high := power_le starts chain index within
    have large : policy.maximum.toNat ≠ 0 := fun none => some (UInt64.toNat_inj.mp none)
    have power := Nat.two_pow_pos index
    omega
  rises := (chain.imp fun _ _ => Follows.higher).pairwise
  bounded := bounded_of_chain starts chain
  doubles := chain.imp fun _ _ => Follows.doubles
  exact := chain.imp fun _ _ follows => by rw [follows.2, widen_toNat]
  few := length_le starts chain

end

theorem limitsFrom_of_chain {limit : UInt64} {rest : List UInt64}
    (chain : (limit :: rest).IsChain policy.Follows) :
    policy.limitsFrom (rest.length + 1) limit = limit :: rest := by
  induction rest generalizing limit with
  | nil =>
    rw [limitsFrom]
    split <;> rfl
  | cons next rest ih =>
    obtain ⟨⟨low, same⟩, onward⟩ := List.isChain_cons_cons.mp chain
    rw [List.length_cons, limitsFrom, if_pos low, ← same, ih onward]

theorem chain_limitsFrom (policy : DepthPolicy) (count : Nat) (limit : UInt64) :
    (policy.limitsFrom count limit).IsChain policy.Follows := by
  induction count generalizing limit with
  | zero => exact List.isChain_nil
  | succ count ih =>
    rw [limitsFrom]
    split
    · next low =>
      refine List.isChain_cons.mpr ⟨fun next head => ⟨low, ?_⟩, ih _⟩
      cases count with
      | zero => cases head
      | succ count =>
        rw [limitsFrom] at head
        exact (Option.some.inj head).symm
    · exact List.isChain_singleton limit

theorem limits_climb (policy : DepthPolicy) (count : Nat) : policy.Climbs (policy.limits count) := by
  refine climbs_of_chain ?_ (policy.chain_limitsFrom count policy.first)
  cases count with
  | zero => exact fun limit head => by cases head
  | succ count => exact fun limit head => (Option.some.inj head).symm

example : ({ initial := 3, maximum := 0xFFFFFFFFFFFFFFF0, multiplier := 0x8000000000000000 } :
    DepthPolicy).limits 4 = [3, 0xFFFFFFFFFFFFFFF0] := by decide

end DepthPolicy

structure Ended where
  limit : UInt64
  truncated : Bool
  deriving DecidableEq, Repr

namespace Enumeration

/-- The passes that have ended, oldest first, and where an enumeration stands after them. -/
inductive Passes (first : Enumeration) : List Ended → Enumeration → Prop where
  | start : Passes first [] first
  | answered {past : List Ended} {enumeration later : Enumeration} {finding : Finding}
      (passes : Passes first past enumeration) (round : Round enumeration [finding] later) :
      Passes first past later
  | ended {past : List Ended} {enumeration later : Enumeration} {search : Search} {state : State}
      {fuel : Nat} (passes : Passes first past enumeration)
      (next : enumeration.currentPass.1.next enumeration.program fuel enumeration.currentPass.2 =
        .done (false, search, state))
      (round : Round enumeration [] later) :
      Passes first (past ++ [⟨enumeration.depthLimit, search.truncated⟩]) later

def begun (past : List Ended) (last : Enumeration) : List UInt64 :=
  past.map Ended.limit ++ if last.finished then [] else [last.depthLimit]

/-- What a schedule may be relied on for, once some passes have ended. -/
structure Scheduled (policy : DepthPolicy) (past : List Ended) (last : Enumeration) : Prop where
  limits : begun past last = policy.limits (begun past last).length
  climbs : policy.Climbs (begun past last)
  running : ∀ search, last.pass = some search → search.depthLimit = last.depthLimit.toNat
  stops : last.finished = true ↔
    ∃ pass ∈ past.getLast?, pass.truncated = false ∨ pass.limit = policy.maximum
  continues : ∀ pass ∈ past.dropLast, pass.truncated = true ∧ pass.limit < policy.maximum
  closed : last.finished = true → ∀ findings later, ¬ last.Round findings later

structure Progress (policy : DepthPolicy) (past : List Ended) (last : Enumeration) : Prop where
  same_policy : last.policy = policy
  running : ∀ search, last.pass = some search → search.depthLimit = last.depthLimit.toNat
  starts : ∀ limit ∈ (begun past last).head?, limit = policy.first
  chain : (begun past last).IsChain policy.Follows
  cut : ∀ pass ∈ if last.finished then past.dropLast else past,
    pass.truncated = true ∧ pass.limit < policy.maximum
  final : last.finished = true →
    ∃ pass ∈ past.getLast?, pass.truncated = false ∨ policy.maximum ≤ pass.limit

section

variable {policy : DepthPolicy} {past : List Ended} {enumeration last later : Enumeration}

theorem currentPass_depthLimit
    (running : ∀ search, enumeration.pass = some search →
      search.depthLimit = enumeration.depthLimit.toNat) :
    enumeration.currentPass.1.depthLimit = enumeration.depthLimit.toNat := by
  rw [currentPass]
  cases held : enumeration.pass with
  | none => rfl
  | some search => exact running search held

theorem next_depthLimit {program : Program} {search after : Search}
    {state answer : State} {fuel : Nat} {found : Bool}
    (next : search.next program fuel state = .done (found, after, answer)) :
    after.depthLimit = search.depthLimit := by
  rcases Search.next_done next with ⟨-, -, rfl, -⟩ | ⟨-, signal, machine, -, -, -, rfl, -⟩ <;> rfl

theorem progress_start (program : Program) (policy : DepthPolicy) (state : State)
    (query : TermId) : Progress policy [] (start program policy state query) where
  same_policy := rfl
  running search none := by cases none
  starts limit head := (Option.some.inj head).symm
  chain := List.isChain_singleton _
  cut pass member := by cases member
  final finished := by cases finished

theorem Progress.answered {finding : Finding} (progress : Progress policy past enumeration)
    (round : Round enumeration [finding] later) : Progress policy past later := by
  -- An answer leaves the limit as it is, so only the pass that goes on is to be looked at.
  have kept := currentPass_depthLimit progress.running
  cases round with
  | reports _ next =>
    exact { progress with
      running := fun _ same => Option.some.inj same ▸ (next_depthLimit next).trans kept }
  | suppresses _ next =>
    exact { progress with
      running := fun _ same => Option.some.inj same ▸ (next_depthLimit next).trans kept }

theorem Progress.ended {search : Search} {state : State} {fuel : Nat}
    (progress : Progress policy past enumeration)
    (next : enumeration.currentPass.1.next enumeration.program fuel enumeration.currentPass.2 =
      .done (false, search, state))
    (round : Round enumeration [] later) :
    Progress policy (past ++ [⟨enumeration.depthLimit, search.truncated⟩]) later := by
  have going (running : enumeration.finished = false) :
      begun past enumeration = past.map Ended.limit ++ [enumeration.depthLimit] := by
    simp [begun, running]
  cases round with
  | finishes running again reached =>
    cases Search.next_alike next again
    have same := progress.same_policy
    refine ⟨same, fun _ none => (by cases none), ?_, ?_, ?_, fun _ => ?_⟩
    · simpa [begun, running] using progress.starts
    · simpa [begun, running] using progress.chain
    · simpa [running] using progress.cut
    · exact ⟨_, List.getLast?_concat, same ▸ reached⟩
  | widens running again cut low =>
    -- The round's own search is the given one, as more steps give the same outcome.
    cases Search.next_alike next again
    have same := progress.same_policy
    rw [same] at low
    have grown : begun (past ++ [⟨enumeration.depthLimit, search.truncated⟩])
        { enumeration with
          pass := none
          depthLimit := enumeration.policy.widen enumeration.depthLimit
          state := state.restore enumeration.root } =
        begun past enumeration ++ [policy.widen enumeration.depthLimit] := by
      simp [begun, running, same]
    refine ⟨same, fun _ none => (by cases none), ?_, ?_, ?_, fun finished => ?_⟩
    · rw [grown, List.head?_append_of_ne_nil _ (by simp [going running])]
      exact progress.starts
    · rw [grown]
      refine List.isChain_append.mpr ⟨progress.chain, List.isChain_singleton _, ?_⟩
      intro earlier isLast next head
      obtain rfl : enumeration.depthLimit = earlier := by
        simpa [going running] using isLast
      exact ⟨low, (Option.some.inj head).symm⟩
    · have before := progress.cut
      simp only [running, Bool.false_eq_true, if_false] at before ⊢
      intro pass member
      rcases List.mem_append.mp member with old | new
      · exact before pass old
      · rw [List.mem_singleton.mp new]
        exact ⟨cut, low⟩
    · rw [running] at finished
      cases finished

theorem Passes.progress {program : Program} {state : State} {query : TermId}
    (passes : (Enumeration.start program policy state query).Passes past last) :
    Progress policy past last := by
  induction passes with
  | start => exact progress_start program policy state query
  | answered _ round ih => exact ih.answered round
  | ended _ next round ih => exact ih.ended next round

theorem Progress.begun_ne_nil (progress : Progress policy past last) : begun past last ≠ [] := by
  cases finished : last.finished with
  | false => simp [begun, finished]
  | true =>
    obtain ⟨pass, isLast, -⟩ := progress.final finished
    have listed : pass.limit ∈ begun past last :=
      List.mem_append_left _ (List.mem_map_of_mem (List.mem_of_getLast? isLast))
    exact List.ne_nil_of_mem listed

theorem Progress.limits (progress : Progress policy past last) :
    begun past last = policy.limits (begun past last).length := by
  obtain ⟨limit, rest, same⟩ := List.exists_cons_of_ne_nil progress.begun_ne_nil
  have chain := progress.chain
  have first := progress.starts limit (by simp [same])
  rw [same] at chain ⊢
  rw [DepthPolicy.limits, ← first, List.length_cons, DepthPolicy.limitsFrom_of_chain chain]

theorem Progress.scheduled (progress : Progress policy past last) :
    Scheduled policy past last := by
  have climbs : policy.Climbs (begun past last) := by
    rw [progress.limits]
    exact policy.limits_climb _
  refine ⟨progress.limits, climbs, progress.running, ⟨fun finished => ?_, ?_⟩, ?_, ?_⟩
  · obtain ⟨pass, isLast, reached⟩ := progress.final finished
    have among : pass.limit ∈ begun past last :=
      List.mem_append_left _ (List.mem_map_of_mem (List.mem_of_getLast? isLast))
    exact ⟨pass, isLast, reached.imp_right fun high => UInt64.le_antisymm (climbs.bounded _ among) high⟩
  · rintro ⟨pass, isLast, reached⟩
    cases finished : last.finished with
    | true => rfl
    | false =>
      have cut := progress.cut pass (by simpa [finished] using List.mem_of_getLast? isLast)
      rcases reached with whole | high
      · rw [cut.1] at whole
        cases whole
      · rw [high] at cut
        exact absurd cut.2 (UInt64.lt_irrefl _)
  · intro pass member
    refine progress.cut pass ?_
    split
    · exact member
    · exact List.mem_of_mem_dropLast member
  · rintro finished findings later round
    cases round <;> simp_all

theorem Passes.rounds {first : Enumeration} {findings : List Finding}
    (passes : first.Passes past enumeration) (rounds : enumeration.Rounds findings last) :
    ∃ more, first.Passes more last := by
  induction rounds generalizing past with
  | none => exact ⟨past, passes⟩
  | more round _ ih =>
    cases round with
    | reports running next new => exact ih (passes.answered (.reports running next new))
    | suppresses running next old => exact ih (passes.answered (.suppresses running next old))
    | finishes running next reached => exact ih (passes.ended next (.finishes running next reached))
    | widens running next cut low => exact ih (passes.ended next (.widens running next cut low))

theorem Calls.finished {results : List (Option Solution)} (calls : enumeration.Calls results last)
    (closed : enumeration.finished = true ∨ Option.none ∈ results) : last.finished = true := by
  induction calls with
  | none => simpa using closed
  | @next enumeration middle last result results fuel next _ ih =>
    refine ih ?_
    obtain ⟨findings, rounds, -, ends⟩ := next_rounds next
    rcases closed with before | now
    · cases fuel with
      | zero => cases next
      | succ fuel =>
        rw [Enumeration.next, if_pos before] at next
        cases next
        exact .inl before
    · rcases List.mem_cons.mp now with same | after
      · exact .inl (ends same.symm)
      · exact .inr after

end

/-- The passes of a query follow its policy, whatever its three numbers are. -/
theorem passes_scheduled (program : Program) (policy : DepthPolicy) (state : State)
    (query : TermId) :
    (∀ past last, (start program policy state query).Passes past last →
      Scheduled policy past last) ∧
    ∀ results last, (start program policy state query).Calls results last →
      ∃ past, (start program policy state query).Passes past last ∧
        (none ∈ results → last.finished = true) := by
  refine ⟨fun past last passes => passes.progress.scheduled, fun results last calls => ?_⟩
  obtain ⟨findings, rounds⟩ := calls.rounds
  obtain ⟨past, passes⟩ := Passes.start.rounds rounds
  exact ⟨past, passes, fun asked => calls.finished (.inr asked)⟩

end Enumeration

/-- The query is asked for until there is no more, by then within the largest limit allowed. -/
theorem Widened.drained_scheduled : ∃ past results last,
    (Enumeration.start program policy state ⟨9⟩).Calls results last ∧ results.length = 3 ∧
    (Enumeration.start program policy state ⟨9⟩).Passes past last ∧
    last.finished = true ∧ last.depthLimit = 8 ∧ Enumeration.Scheduled policy past last := by
  obtain ⟨scheduled, asked⟩ := Enumeration.passes_scheduled program policy state ⟨9⟩
  have seen : (Enumeration.callsWithin 200 3 (Enumeration.start program policy state ⟨9⟩)).map
      (fun result => (result.1.length, result.2.finished, result.2.depthLimit)) =
        some (3, true, 8) := by decide +kernel
  obtain ⟨⟨results, last⟩, called, same⟩ := Option.map_eq_some_iff.mp seen
  simp only [Prod.mk.injEq] at same
  have calls := Enumeration.calls_of_within 200 3 called
  obtain ⟨past, passes, -⟩ := asked results last calls
  exact ⟨past, results, last, calls, same.1, passes, same.2.1, same.2.2,
    scheduled past last passes⟩

end Resolvent
