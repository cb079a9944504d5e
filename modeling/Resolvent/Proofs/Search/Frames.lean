import Resolvent.Proofs.Search.Composition

namespace Resolvent

variable {program : Program} {limit : Nat}

def Ledger.machine (ledger : Ledger) (limit : Nat) (frames : Array Entry) (truncated : Bool)
    (counters : Counters) : Machine where
  frames := frames
  depthLimit := limit
  truncated := truncated
  state := ledger.state counters

namespace Site

variable {site : Site} {below above : Array Entry} {frame : Frame} {ledger base : Ledger}
  {truncated : Bool} {counters : Counters}

theorem orderly_heard {signal : Signal} (wellFormed : ledger.WellFormed)
    (fits : program.Fits ledger) (small : below.size = site.size)
    (known : signal = .yielded → ∀ goal next expansion clause body,
      frame = .deduction goal next (some expansion) → expansion.inBody = false →
      program.clauses[expansion.clause]? = some clause → clause.body = some body →
      ledger.Known goal clause.head body expansion.undo.terms expansion.names) :
    Orderly program ledger (.notify (some site.size) signal,
      site.machine limit below frame above ledger truncated counters) where
  state := ⟨counters, rfl⟩
  wellFormed := wellFormed
  fits := fits
  called := by simp
  opened := by
    rintro index goal expansion clause body ⟨step, ⟨next, parent, entry⟩, outside, held, has⟩
    simp only [Step.notify.injEq, Option.some.injEq] at step
    obtain ⟨rfl, rfl⟩ := step
    have found := frames_get below above (site.entry frame)
    rw [small] at found
    have same := Option.some.inj (found.symm.trans entry)
    simp only [Site.entry, Entry.mk.injEq] at same
    exact known rfl goal next expansion clause body same.1 outside held has

theorem advance_heard (signal : Signal) (small : below.size = site.size) :
    (site.machine limit below frame above ledger truncated counters).advance program
        (.notify (some site.size) signal) =
      match signal with
      | .yielded => (site.machine limit below frame above ledger truncated counters).yielded program
          site.size (site.entry frame)
      | .exhausted => (site.machine limit below frame above ledger truncated counters).exhausted
          program site.size (site.entry frame) := by
  have found := frames_get below above (site.entry frame)
  rw [small] at found
  cases signal <;> simp only [Machine.advance, machine, found]

theorem setFrame_machine (other : Frame) (small : below.size = site.size) :
    (site.machine limit below frame above ledger truncated counters).setFrame site.size other
        site.target = site.machine limit below other above ledger truncated counters := by
  have set := frames_set below above (site.entry frame) (site.entry other)
  rw [small] at set
  simp only [Machine.setFrame, machine]
  exact congrArg (fun frames => Machine.mk frames limit truncated (ledger.state counters)) set

theorem pop_machine (small : below.size = site.size) :
    (site.machine limit below frame #[] ledger truncated counters).pop site.size =
      .ok (ledger.machine limit below truncated counters) := by
  have height : site.size + 1 = (below ++ (#[site.entry frame] ++ #[])).size := by
    simp [small]
  rw [Machine.pop, machine, if_pos height]
  simp [Ledger.machine]

theorem push_machine :
    (ledger.machine limit below truncated counters).push frame site.target =
      site.machine limit below frame #[] ledger truncated counters := by
  simp [Machine.push, machine, Ledger.machine, Site.entry]

theorem get_machine (small : below.size = site.size) :
    (site.machine limit below frame above ledger truncated counters).frames[site.size]? =
      some (site.entry frame) := by
  rw [← small]
  exact frames_get below above (site.entry frame)

theorem restore_machine (wellFormed : ledger.WellFormed) (grown : ledger.Extends base) :
    (site.machine limit below frame above ledger truncated counters).restore base.snapshot =
      site.machine limit below frame above base truncated (counters.record .restore 1) := by
  simp only [Machine.restore, machine, Ledger.restore_state wellFormed.toConsistent grown]

end Site

namespace Ledger

variable {ledger base : Ledger} {frames : Array Entry} {truncated : Bool} {counters : Counters}

theorem machine_backtrack (wellFormed : ledger.WellFormed) (grown : ledger.Extends base)
    (parent : Option Nat) :
    (ledger.machine limit frames truncated counters).backtrack base.snapshot parent =
      (.notify parent .exhausted,
        base.machine limit frames truncated (counters.record .restore 1)) := by
  simp only [Machine.backtrack, Machine.restore, machine, Machine.fail,
    restore_state wellFormed.toConsistent grown]

theorem machine_answer (undo : Option Snapshot) (parent : Option Nat) :
    (ledger.machine limit frames truncated counters).answer undo parent =
      (.notify parent .yielded,
        ledger.machine limit (frames ++ #[⟨.once undo, parent⟩]) truncated counters) := by
  simp [Machine.answer, Machine.push, machine]

theorem machine_redo (undo : Option Snapshot) (parent : Option Nat) :
    (ledger.machine limit (frames ++ #[⟨.once undo, parent⟩]) truncated counters).redo =
      match undo with
      | some undo => .ok ((ledger.machine limit frames truncated counters).backtrack undo parent)
      | none => .ok ((ledger.machine limit frames truncated counters).fail parent) := by
  cases undo <;> simp [Machine.redo, machine]

end Ledger

theorem orderly_redo {ledger : Ledger} (wellFormed : ledger.WellFormed)
    (fits : program.Fits ledger) (frames : Array Entry) (truncated : Bool) (counters : Counters) :
    Orderly program ledger (.redo, ledger.machine limit frames truncated counters) where
  state := ⟨counters, rfl⟩
  wellFormed := wellFormed
  fits := fits
  called := by simp
  opened := fun start => nomatch start.heard

theorem ends_machine {site : Site} {ledger : Ledger} {below : Array Entry}
    {hit truncated flag : Bool} {counters : Counters} (wellFormed : ledger.WellFormed)
    (grown : ledger.Extends site.base) (exact : site.exact = true → ledger = site.base)
    (flags : flag = (truncated || hit)) :
    Ends limit site hit below truncated
      (.notify site.target .exhausted, ledger.machine limit below flag counters) :=
  ⟨ledger, counters, wellFormed, grown, exact, by rw [flags]; rfl⟩

theorem answers_machine {site : Site} {ledger : Ledger} {below above : Array Entry}
    {hit truncated flag : Bool} {counters : Counters} (flags : flag = (truncated || hit)) :
    Answers limit site ledger above hit below truncated
      (.notify site.target .yielded, ledger.machine limit (below ++ above) flag counters) :=
  ⟨counters, by rw [flags]; rfl⟩

/-- A goal that changed the stacks has no other answer, and takes back what it did. -/
theorem plays_once {site : Site} {origin : Ledger} (fits : program.Fits site.base)
    (grown : origin.Extends site.base) (wellFormed : site.base.WellFormed) :
    Plays program limit site [] false
      ⟨.redo, #[site.entry (.once (some site.base.snapshot))], origin, true⟩ := by
  intro below ledger truncated counters small admits
  have reached := admits.extends.trans grown
  have orderly := @orderly_redo program limit ledger admits.wellFormed (fits.later reached)
    (below ++ #[site.entry (.once (some site.base.snapshot))]) truncated counters
  have step := ledger.machine_redo (some site.base.snapshot) site.target |>.trans
    (congrArg Except.ok (@Ledger.machine_backtrack limit ledger site.base below truncated counters
      admits.wellFormed reached site.target))
  exact ⟨_, Reaches.one orderly (by simp [Position.config]) step,
    ends_machine wellFormed (.refl _) (fun _ => rfl) (by simp)⟩

theorem plays_none {site : Site} {origin : Ledger} (fits : program.Fits site.base)
    (grown : origin.Extends site.base) (inexact : site.exact = false) :
    Plays program limit site [] false ⟨.redo, #[site.entry (.once none)], origin, true⟩ := by
  intro below ledger truncated counters small admits
  have reached := admits.extends.trans grown
  have orderly := @orderly_redo program limit ledger admits.wellFormed (fits.later reached)
    (below ++ #[site.entry (.once none)]) truncated counters
  have step := @Ledger.machine_redo limit ledger below truncated counters none site.target
  exact ⟨_, Reaches.one orderly (by simp [Position.config]) step,
    ends_machine admits.wellFormed reached (by simp [inexact]) (by simp)⟩

end Resolvent
