import Resolvent.Proofs.Search.Frames

namespace Resolvent

variable {program : Program} {limit : Nat}

def Waits (program : Program) (limit : Nat) (site : Site) (outer inner : Position) : Prop :=
  ∀ below ledger truncated counters, below.size = site.size → outer.Admits ledger →
    ∃ reached others, inner.Admits reached ∧
      Reaches program (outer.config limit below ledger truncated counters)
        (inner.config limit (below ++ #[site.entry (.negation site.base.snapshot truncated)]) reached
          false others)

theorem machine_site {site : Site} {below above : Array Entry} {frame : Frame} {ledger : Ledger}
    {truncated : Bool} {counters : Counters} :
    ledger.machine limit (below ++ #[site.entry frame] ++ above) truncated counters =
      site.machine limit below frame above ledger truncated counters := by
  simp [Ledger.machine, Site.machine]

section

variable {site : Site} {registered : Ledger} {outer inner : Position}

/-- What a negation does once the negated goal has no answer: where a goal was cut off it fails, else
    it succeeds. -/
theorem Site.advance_negation {below : Array Entry} {truncated hit : Bool} {counters : Counters}
    (small : below.size = site.size) :
    (site.machine limit below (.negation site.base.snapshot truncated) #[] registered hit
      counters).advance program (.notify (some site.size) .exhausted) =
    if hit then .ok ((registered.machine limit below hit counters).backtrack site.base.snapshot
      site.target)
    else .ok ((registered.machine limit below truncated counters).answer
      (some site.base.snapshot) site.target) := by
  rw [Site.advance_heard _ small]
  simp only [Machine.exhausted, Site.entry, Site.pop_machine small, Bind.bind, Except.bind]
  cases hit <;> rfl

theorem size_negation {below : Array Entry} (truncated : Bool) (small : below.size = site.size) :
    (below ++ #[site.entry (.negation site.base.snapshot truncated)]).size = site.size + 1 := by
  simp [small]

theorem Plays.negate_none {hit exact : Bool} (baseFormed : site.base.WellFormed)
    (fits : program.Fits site.base) (grown : registered.Extends site.base)
    (wellFormed : registered.WellFormed) (isExact : exact = true)
    (waits : Waits program limit site outer inner)
    (plays : Plays program limit ⟨some site.size, site.size + 1, registered, exact⟩ [] hit inner) :
    Plays program limit site (negate registered hit []) false outer := by
  have ended (below : Array Entry) (truncated : Bool) (counters : Counters)
      (small : below.size = site.size) :
      Orderly program registered (.notify (some site.size) .exhausted,
        site.machine limit below (.negation site.base.snapshot truncated) #[] registered hit
          counters) :=
    Site.orderly_heard wellFormed (fits.later grown) small (by simp)
  -- Both ends of the negation start from where the inner goal ends.
  have reach (below : Array Entry) (ledger : Ledger) (truncated : Bool) (counters : Counters)
      (small : below.size = site.size) (admits : outer.Admits ledger) : ∃ others,
      Reaches program (outer.config limit below ledger truncated counters)
        (.notify (some site.size) .exhausted,
          site.machine limit below (.negation site.base.snapshot truncated) #[] registered hit
            others) := by
    obtain ⟨reached, others, innerAdmits, way⟩ := waits below ledger truncated counters small admits
    obtain ⟨config, onward, final, last, -, -, same, rfl⟩ :=
      plays _ reached false others (size_negation truncated small) innerAdmits
    obtain rfl := same isExact
    refine ⟨last, way.trans ?_⟩
    have shape := @machine_site limit site below #[] (.negation site.base.snapshot truncated)
      final hit last
    simp only [Array.append_empty] at shape
    rw [← shape]
    simpa [Ledger.machine] using onward
  cases hit with
  | true =>
    intro below ledger truncated counters small admits
    obtain ⟨others, way⟩ := reach below ledger truncated counters small admits
    have step := @Site.advance_negation program limit site registered below truncated true others small
    simp only [if_true, Ledger.machine_backtrack wellFormed grown] at step
    exact ⟨_, way.trans (Reaches.one (ended below truncated others small) (by simp) step),
      ends_machine baseFormed (.refl _) (fun _ => rfl) (by simp)⟩
  | false =>
    refine ⟨wellFormed, grown, _, ?_, plays_once fits grown baseFormed⟩
    intro below ledger truncated counters small admits
    obtain ⟨others, way⟩ := reach below ledger truncated counters small admits
    have step := @Site.advance_negation program limit site registered below truncated false others small
    simp only [Bool.false_eq_true, if_false, Ledger.machine_answer] at step
    exact ⟨_, way.trans (Reaches.one (ended below truncated others small) (by simp) step),
      answers_machine (by simp)⟩

/-- The negated goal has an answer: the negation takes back all that it did, and fails. -/
theorem Waits.fails {answer : Ledger} {above : Array Entry} {hit exact : Bool}
    (baseFormed : site.base.WellFormed) (fits : program.Fits site.base)
    (grown : registered.Extends site.base) (answerFormed : answer.WellFormed)
    (answerGrown : answer.Extends registered) (waits : Waits program limit site outer inner)
    (leads : Leads program limit ⟨some site.size, site.size + 1, registered, exact⟩ inner
      (Answers limit ⟨some site.size, site.size + 1, registered, exact⟩ answer above hit)) :
    Leads program limit site outer (Ends limit site hit) := by
  intro below ledger truncated counters small admits
  obtain ⟨reached, others, innerAdmits, way⟩ := waits below ledger truncated counters small admits
  obtain ⟨config, onward, final, rfl⟩ :=
    leads _ reached false others (size_negation truncated small) innerAdmits
  have orderly := @Site.orderly_heard program limit site below above
    (.negation site.base.snapshot truncated) answer hit final .yielded answerFormed
    (fits.later (answerGrown.trans grown)) small (by simp)
  have step : (site.machine limit below (.negation site.base.snapshot truncated) above answer
      hit final).advance program (.notify (some site.size) .yielded) =
      .ok (.notify site.target .exhausted, site.base.machine limit below (truncated || hit)
        (final.record .restore 1)) := by
    rw [Site.advance_heard _ small]
    have shrunk := frames_shrink below (#[site.entry (.negation site.base.snapshot truncated)] ++ above)
    rw [small] at shrunk
    have back := @Ledger.machine_backtrack limit answer site.base below (truncated || hit) final
      answerFormed (answerGrown.trans grown) site.target
    simp only [Machine.yielded, Site.entry, Site.machine] at shrunk ⊢
    rw [shrunk]
    exact congrArg Except.ok back
  refine ⟨_, way.trans (Reaches.trans ?_ (Reaches.one orderly (by simp) step)),
    ends_machine baseFormed (.refl _) (fun _ => rfl) rfl⟩
  rw [← machine_site]
  simpa [Ledger.machine] using onward

theorem Plays.negate {events : List Emission} {hit exact : Bool} (baseFormed : site.base.WellFormed)
    (fits : program.Fits site.base) (grown : registered.Extends site.base)
    (wellFormed : registered.WellFormed)
    (isExact : (∀ ledger, .answer ledger ∉ events) → exact = true)
    (waits : Waits program limit site outer inner)
    (plays : Plays program limit ⟨some site.size, site.size + 1, registered, exact⟩ events hit inner) :
    Plays program limit site (negate registered hit events) false outer := by
  induction events generalizing hit with
  | nil => exact plays.negate_none baseFormed fits grown wellFormed (isExact (by simp)) waits
  | cons event rest ih =>
    cases event with
    | cut => exact ih (fun none => isExact fun ledger member => by simp [none] at member) plays
    | fault reason =>
      intro below ledger truncated counters small admits
      obtain ⟨reached, others, innerAdmits, way⟩ := waits below ledger truncated counters small admits
      obtain ⟨config, onward, stops⟩ :=
        plays _ reached false others (size_negation truncated small) innerAdmits
      exact ⟨config, way.trans onward, stops⟩
    | answer answer =>
      obtain ⟨answerFormed, answerGrown, above, leads, -⟩ := plays
      have ends := waits.fails baseFormed fits grown answerFormed answerGrown leads
      cases hit with
      | true => exact ends
      | false => exact ends

end

end Resolvent
