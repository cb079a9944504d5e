import Resolvent.Proofs.Search.Playing

namespace Resolvent

variable {program : Program} {limit : Nat}

theorem Reaches.one {config next : Config} {ledger : Ledger}
    (orderly : Orderly program ledger config) (running : ∀ signal, config.1 ≠ .notify none signal)
    (advances : config.2.advance program config.1 = .ok next) : Reaches program config next :=
  .step orderly running advances .refl

def Site.entry (site : Site) (frame : Frame) : Entry := ⟨frame, site.target⟩

def Site.machine (site : Site) (limit : Nat) (below : Array Entry) (frame : Frame)
    (above : Array Entry) (ledger : Ledger) (truncated : Bool) (counters : Counters) : Machine where
  frames := below ++ (#[site.entry frame] ++ above)
  depthLimit := limit
  truncated := truncated
  state := ledger.state counters

def Handles (program : Program) (limit : Nat) (site : Site) (base : Ledger) (frame : Frame)
    (signal : Signal) (result : Array Entry → Array Entry → Ledger → Bool → Counters →
      Except Fault Config) : Prop :=
  ∀ below above ledger truncated counters, below.size = site.size → ledger.WellFormed →
    ledger.Extends base →
    Orderly program ledger (.notify (some site.size) signal,
      site.machine limit below frame above ledger truncated counters) ∧
    (site.machine limit below frame above ledger truncated counters).advance program
      (.notify (some site.size) signal) = result below above ledger truncated counters

/-- A frame hands on the answers of the goal it called. -/
def Forwards (program : Program) (limit : Nat) (site : Site) (base : Ledger) (frame : Frame) :
    Prop :=
  Handles program limit site base frame .yielded fun below above ledger truncated counters =>
    .ok (.notify site.target .yielded,
      site.machine limit below frame above ledger truncated counters)

def Site.ended (site : Site) (frame : Frame) (between : Array Entry) (origin : Ledger) :
    Position where
  step := .notify (some site.size) .exhausted
  above := #[site.entry frame] ++ between
  origin := origin
  loose := true

def Site.Hears (site : Site) (limit : Nat) (frame : Frame) (above : Array Entry) (answer : Ledger)
    (hit : Bool) (below : Array Entry) (truncated : Bool) (config : Config) : Prop :=
  ∃ counters, config = (.notify (some site.size) .yielded,
    site.machine limit below frame above answer (truncated || hit) counters)

section

variable {site child : Site} {frame : Frame} {between : Array Entry} {hit : Bool}
  {position : Position}

theorem Leads.answered {answer : Ledger} {above : Array Entry}
    (leads : Leads program limit child position (Answers limit child answer above hit))
    (target : child.target = some site.size) (size : child.size = site.size + 1 + between.size) :
    Leads program limit site (position.atop (#[site.entry frame] ++ between))
      (site.Hears limit frame (between ++ above) answer hit) := by
  refine leads.atop (by simp [size, Nat.add_assoc]) ?_
  rintro below truncated config ⟨counters, rfl⟩
  exact ⟨counters, by simp [target, Site.machine, Array.append_assoc]⟩

theorem Plays.precedes_ended (plays : Plays program limit child [] hit position)
    (target : child.target = some site.size) (size : child.size = site.size + 1 + between.size) :
    Precedes program limit site hit false (position.atop (#[site.entry frame] ++ between))
      (site.ended frame between child.base) := by
  intro below ledger truncated counters small admits
  obtain ⟨config, way, later, others, wellFormed, grown, -, rfl⟩ :=
    plays (below ++ (#[site.entry frame] ++ between)) ledger truncated counters
      (by simp [size, small, Nat.add_assoc]) admits
  refine ⟨later, truncated || hit, others, ⟨wellFormed, grown, by simp [Site.ended]⟩, by simp, ?_⟩
  rw [Position.config_atop]
  simpa [target, Site.ended, Position.config] using way

/-- A goal that calls another and hands on its answers comes to what that comes to, and then to what
    it goes on with. -/
theorem Plays.forward {events rest : List Emission}
    (plays : Plays program limit child events hit position)
    (target : child.target = some site.size) (size : child.size = site.size + 1 + between.size)
    (base : child.base.Extends site.base)
    (forwards : Forwards program limit site child.base frame)
    (after : Plays program limit site rest false (site.ended frame between child.base)) :
    Plays program limit site (events ++ rest) hit
      (position.atop (#[site.entry frame] ++ between)) := by
  induction events generalizing hit position with
  | nil => exact Plays.after after (Plays.precedes_ended plays target size)
  | cons event others ih =>
    cases event with
    | answer answer =>
      obtain ⟨wellFormed, grown, above, leads, onward⟩ := plays
      refine ⟨wellFormed, grown.trans base, #[site.entry frame] ++ between ++ above, ?_,
        ih onward⟩
      refine (leads.answered target size).reaches ?_
      rintro below truncated config small ⟨counters, rfl⟩
      obtain ⟨orderly, heard⟩ := forwards below (between ++ above) answer (truncated || hit) counters
        small wellFormed grown
      exact ⟨_, .one orderly (by simp) heard, counters,
        by simp [Site.machine, Array.append_assoc]⟩
    | cut => exact ih plays
    | fault reason => exact Leads.atop plays (by simp [size, Nat.add_assoc]) fun _ _ _ => id

end

structure Seconds (program : Program) (limit : Nat) (site : Site) (base : Ledger)
    (second : Renaming → Ledger → Except Fault (TermId × Renaming × Ledger))
    (solve : TermId → Ledger → List Emission) (idle running : Renaming → Frame)
    (valid : Renaming → Prop) : Prop where
  starts : ∀ names, valid names → ∀ below above ledger truncated counters, below.size = site.size →
    ledger.WellFormed → ledger.Extends base → ∀ goal named later,
    second names ledger = .ok (goal, named, later) →
    Reaches program (.notify (some site.size) .yielded,
        site.machine limit below (idle names) above ledger truncated counters)
      (.call goal (some site.size),
        site.machine limit below (running named) above later truncated counters)
  stops : ∀ names, valid names → ∀ below above ledger truncated counters, below.size = site.size →
    ledger.WellFormed → ledger.Extends base → ∀ reason, second names ledger = .error reason →
    ∃ config, Reaches program (.notify (some site.size) .yielded,
        site.machine limit below (idle names) above ledger truncated counters) config ∧
      Stops program reason config
  grows : ∀ names ledger, valid names → ledger.WellFormed → ledger.Extends base →
    ∀ goal named later, second names ledger = .ok (goal, named, later) →
      valid named ∧ later.WellFormed ∧ later.Extends ledger
  plays : ∀ names ledger, valid names → ledger.WellFormed → ledger.Extends base →
    ∀ goal named later, second names ledger = .ok (goal, named, later) → ∀ size,
      Plays program limit ⟨some site.size, size, later, false⟩ (solve goal later) false
        ⟨.call goal (some site.size), #[], later, false⟩
  forwards : ∀ names, valid names → Forwards program limit site base (running names)
  resumes : ∀ names, valid names → Handles program limit site base (running names) .exhausted
    fun below above ledger truncated counters =>
      .ok (.redo, site.machine limit below (idle names) above ledger truncated counters)

theorem Plays.sequence {site child : Site}
    {second : Renaming → Ledger → Except Fault (TermId × Renaming × Ledger)}
    {solve : TermId → Ledger → List Emission} {idle running : Renaming → Frame}
    {valid : Renaming → Prop} {events rest : List Emission} {hit : Bool} {position : Position}
    (names : Renaming) (plays : Plays program limit child events hit position)
    (target : child.target = some site.size) (size : child.size = site.size + 1)
    (base : child.base.Extends site.base)
    (seconds : Seconds program limit site child.base second solve idle running valid)
    (after : ∀ names, valid names →
      Plays program limit site rest false (site.ended (idle names) #[] child.base))
    (isValid : valid names) :
    Plays program limit site (chain second solve names events ++ rest) hit
      (position.atop #[site.entry (idle names)]) := by
  -- Each answer may name more body variables, so the names with which the others go on are kept open.
  induction events generalizing hit position names with
  | nil => exact Plays.after (after names isValid) (Plays.precedes_ended plays target size)
  | cons event others ih =>
    cases event with
    | cut => exact ih names plays isValid
    | fault reason => exact Leads.atop plays size fun _ _ _ => id
    | answer answer =>
      obtain ⟨wellFormed, grown, above, leads, onward⟩ := plays
      have hears : Leads program limit site (position.atop (#[site.entry (idle names)] ++ #[]))
          (site.Hears limit (idle names) (#[] ++ above) answer hit) := leads.answered target size
      simp only [Array.append_empty, Array.empty_append] at hears
      rw [chain]
      cases started : second names answer with
      | error reason =>
        refine hears.reaches ?_
        rintro below truncated config small ⟨counters, rfl⟩
        exact seconds.stops names isValid below above answer (truncated || hit) counters small
          wellFormed grown reason started
      | ok result =>
        obtain ⟨goal, named, later⟩ := result
        obtain ⟨namedValid, laterFormed, laterGrown⟩ :=
          seconds.grows names answer isValid wellFormed grown goal named later started
        have inner := seconds.plays names answer isValid wellFormed grown goal named later started
          (site.size + 1 + above.size)
        -- Once the second goal has no more answers the first is asked again, with the names given so
        -- far.
        have back : Plays program limit site (chain second solve named others ++ rest) false
            (site.ended (running named) above later) := by
          refine Plays.after (ih named onward namedValid) ?_
          intro below ledger truncated counters small admits
          obtain ⟨orderly, heard⟩ := seconds.resumes named namedValid below above ledger truncated
            counters small admits.wellFormed (admits.extends.trans (laterGrown.trans grown))
          refine ⟨ledger, truncated, counters, ⟨admits.wellFormed, admits.extends.trans laterGrown,
            by simp [Position.atop]⟩, rfl, ?_⟩
          have step := Reaches.one orderly (by simp) heard
          simpa [Site.machine, Site.ended, Position.config, Position.atop] using step
        have forwards : Forwards program limit site later (running named) :=
          fun below above ledger truncated counters small wellFormed grownLater =>
            seconds.forwards named namedValid below above ledger truncated counters small wellFormed
              (grownLater.trans (laterGrown.trans grown))
        have joined := inner.forward rfl rfl (laterGrown.trans (grown.trans base)) forwards back
        rw [List.append_assoc]
        refine Plays.after joined ?_
        intro below ledger truncated counters small admits
        obtain ⟨config, way, final, rfl⟩ := hears below ledger truncated counters small admits
        have onward := seconds.starts names isValid below above answer (truncated || hit) final small
          wellFormed grown goal named later started
        refine ⟨later, truncated || hit, final, ⟨laterFormed, .refl later, fun _ => rfl⟩, by simp,
          way.trans ?_⟩
        simpa [Site.machine, Position.config, Position.atop, Array.append_assoc] using onward

end Resolvent
