import Resolvent.Proofs.Search.Reach

namespace Resolvent

/-- Who hears of what a goal comes to, how many frames lie below those of the goal, and the stacks
    to go back to at the end. If it is exact the end leaves just those. -/
structure Site where
  target : Option Nat
  size : Nat
  base : Ledger
  exact : Bool

structure Position where
  step : Step
  above : Array Entry
  origin : Ledger
  loose : Bool

namespace Position

def Admits (position : Position) (ledger : Ledger) : Prop :=
  ledger.WellFormed ∧ ledger.Extends position.origin ∧
    (position.loose = false → ledger = position.origin)

theorem Admits.wellFormed {position : Position} {ledger : Ledger}
    (admits : position.Admits ledger) : ledger.WellFormed := admits.1

theorem Admits.extends {position : Position} {ledger : Ledger} (admits : position.Admits ledger) :
    ledger.Extends position.origin := admits.2.1

def config (position : Position) (limit : Nat) (below : Array Entry) (ledger : Ledger)
    (truncated : Bool) (counters : Counters) : Config :=
  (position.step,
    { frames := below ++ position.above, depthLimit := limit, truncated,
      state := ledger.state counters })

def atop (position : Position) (frames : Array Entry) : Position :=
  { position with above := frames ++ position.above }

theorem config_atop (position : Position) (limit : Nat) (below frames : Array Entry)
    (ledger : Ledger) (truncated : Bool) (counters : Counters) :
    (position.atop frames).config limit below ledger truncated counters =
      position.config limit (below ++ frames) ledger truncated counters := by
  simp [config, atop, Array.append_assoc]

end Position

section

variable {program : Program} {limit : Nat}

def Leads (program : Program) (limit : Nat) (site : Site) (position : Position)
    (found : Array Entry → Bool → Config → Prop) : Prop :=
  ∀ below ledger truncated counters, below.size = site.size → position.Admits ledger →
    ∃ config, Reaches program (position.config limit below ledger truncated counters) config ∧
      found below truncated config

def Ends (limit : Nat) (site : Site) (hit : Bool) (below : Array Entry) (truncated : Bool)
    (config : Config) : Prop :=
  ∃ (ledger : Ledger) (counters : Counters), ledger.WellFormed ∧ ledger.Extends site.base ∧
    (site.exact = true → ledger = site.base) ∧
    config = (.notify site.target .exhausted,
      { frames := below, depthLimit := limit, truncated := truncated || hit,
        state := ledger.state counters })

def Answers (limit : Nat) (site : Site) (ledger : Ledger) (above : Array Entry) (hit : Bool)
    (below : Array Entry) (truncated : Bool) (config : Config) : Prop :=
  ∃ counters, config = (.notify site.target .yielded,
    { frames := below ++ above, depthLimit := limit, truncated := truncated || hit,
      state := ledger.state counters })

inductive Stale (program : Program) (ledger : Ledger) (config : Config) : Prop where
  | start {index : Nat} {goal : TermId} {expansion : Expansion} {clause : Clause} {body : TermId}
      (start : BodyStart program config index goal expansion clause body)
      (dead : ¬ ledger.NamesLive expansion.names) : Stale program ledger config
  | called {goal : TermId} {parent : Option Nat} {clause : Clause} {body : TermId}
      (calls : config.1 = .call goal parent)
      (stray : Stray program ledger config.2.frames parent goal clause body) :
      Stale program ledger config

structure Stops (program : Program) (reason : Fault) (config : Config) : Prop where
  stale : ∃ ledger, Orderly program ledger config ∧ Stale program ledger config
  fails : config.2.advance program config.1 = .error reason

theorem Stops.running {reason : Fault} {config : Config} (stops : Stops program reason config)
    (signal : Signal) : config.1 ≠ .notify none signal := by
  intro same
  have failed := stops.fails
  rw [same] at failed
  cases failed

/-- A run from a position plays out what a goal comes to, one after the other. -/
def Plays (program : Program) (limit : Nat) (site : Site) :
    List Emission → Bool → Position → Prop
  | [], hit, position => Leads program limit site position (Ends limit site hit)
  | .answer ledger :: rest, hit, position =>
    ledger.WellFormed ∧ ledger.Extends site.base ∧ ∃ above,
      Leads program limit site position (Answers limit site ledger above hit) ∧
      Plays program limit site rest false ⟨.redo, above, ledger, true⟩
  | .cut :: rest, _, position => Plays program limit site rest true position
  | .fault reason :: _, _, position =>
    Leads program limit site position fun _ _ config => Stops program reason config

def Precedes (program : Program) (limit : Nat) (site : Site) (hit hitLater : Bool)
    (position later : Position) : Prop :=
  ∀ below ledger truncated counters, below.size = site.size → position.Admits ledger →
    ∃ reached flag others, later.Admits reached ∧
      (flag || hitLater) = (truncated || hit) ∧
      Reaches program (position.config limit below ledger truncated counters)
        (later.config limit below reached flag others)

theorem Leads.after {site : Site} {hit hitLater : Bool} {position later : Position}
    {found : Array Entry → Bool → Config → Prop}
    (leads : Leads program limit site later fun below flag config =>
      ∀ truncated, (flag || hitLater) = (truncated || hit) → found below truncated config)
    (precedes : Precedes program limit site hit hitLater position later) :
    Leads program limit site position found := by
  intro below ledger truncated counters size admits
  obtain ⟨reached, flag, others, laterAdmits, flags, way⟩ :=
    precedes below ledger truncated counters size admits
  obtain ⟨config, onward, holds⟩ := leads below reached flag others size laterAdmits
  exact ⟨config, way.trans onward, holds truncated flags⟩

theorem Leads.imp {site : Site} {position : Position}
    {found wanted : Array Entry → Bool → Config → Prop}
    (leads : Leads program limit site position found)
    (implies : ∀ below truncated config, found below truncated config →
      wanted below truncated config) : Leads program limit site position wanted := by
  intro below ledger truncated counters size admits
  obtain ⟨config, way, holds⟩ := leads below ledger truncated counters size admits
  exact ⟨config, way, implies _ _ _ holds⟩

theorem Leads.reaches {site : Site} {position : Position}
    {found wanted : Array Entry → Bool → Config → Prop}
    (leads : Leads program limit site position found)
    (onward : ∀ below truncated config, below.size = site.size → found below truncated config →
      ∃ next, Reaches program config next ∧ wanted below truncated next) :
    Leads program limit site position wanted := by
  intro below ledger truncated counters size admits
  obtain ⟨config, way, holds⟩ := leads below ledger truncated counters size admits
  obtain ⟨next, rest, wished⟩ := onward below truncated config size holds
  exact ⟨next, way.trans rest, wished⟩

/-- Where a goal leads above the frames of its parent, the parent is led as well. -/
theorem Leads.atop {site child : Site} {frames : Array Entry} {position : Position}
    {found wanted : Array Entry → Bool → Config → Prop}
    (leads : Leads program limit child position found)
    (size : child.size = site.size + frames.size)
    (implies : ∀ below truncated config, found (below ++ frames) truncated config →
      wanted below truncated config) :
    Leads program limit site (position.atop frames) wanted := by
  intro below ledger truncated counters small admits
  obtain ⟨config, way, holds⟩ :=
    leads (below ++ frames) ledger truncated counters (by simp [size, small]) admits
  refine ⟨config, ?_, implies _ _ _ holds⟩
  rw [Position.config_atop]
  exact way

theorem Plays.after {site : Site} {events : List Emission} {hit hitLater : Bool}
    {position later : Position} (plays : Plays program limit site events hitLater later)
    (precedes : Precedes program limit site hit hitLater position later) :
    Plays program limit site events hit position := by
  induction events generalizing hit hitLater with
  | nil =>
    refine Leads.after (Leads.imp plays ?_) precedes
    rintro below flag config ⟨ledger, counters, wellFormed, grown, exact, rfl⟩ truncated flags
    exact ⟨ledger, counters, wellFormed, grown, exact, by rw [flags]⟩
  | cons event rest ih =>
    cases event with
    | answer ledger =>
      obtain ⟨wellFormed, grown, above, leads, onward⟩ := plays
      refine ⟨wellFormed, grown, above, Leads.after (Leads.imp leads ?_) precedes, onward⟩
      rintro below flag config ⟨counters, rfl⟩ truncated flags
      exact ⟨counters, by rw [flags]⟩
    | cut =>
      refine ih plays ?_
      intro below ledger truncated counters size admits
      obtain ⟨reached, flag, others, laterAdmits, flags, way⟩ :=
        precedes below ledger truncated counters size admits
      exact ⟨reached, flag, others, laterAdmits, by simp, way⟩
    | fault reason =>
      refine Leads.after (Leads.imp plays ?_) precedes
      intro below flag config stops truncated _
      exact stops

end

end Resolvent
