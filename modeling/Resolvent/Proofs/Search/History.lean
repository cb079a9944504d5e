import Resolvent.Proofs.Search.Standing

namespace Resolvent

inductive History (program : Program) (start : Config) : List Config → Prop where
  | start : History program start [start]
  | step {config next : Config} {past : List Config}
      (history : History program start (config :: past))
      (advances : config.2.advance program config.1 = .ok next) :
      History program start (next :: config :: past)
  | resume {machine : Machine} {past : List Config} (counters : Counters)
      (history : History program start ((.notify none .yielded, machine) :: past)) :
      History program start
        ((.redo, { machine with state := { machine.state with counters } }) ::
          (.notify none .yielded, machine) :: past)

def openedAt : List Config → Nat → Option Config
  | [], _ => none
  | config :: past, place =>
    if config.2.frames.size ≤ place then some config else openedAt past place

section

variable {program : Program} {start config next : Config} {past : List Config} {place : Nat}

theorem Visited.history (visited : Visited program start config) :
    ∃ past, History program start (config :: past) := by
  induction visited with
  | start => exact ⟨[], .start⟩
  | step _ advances ih =>
    obtain ⟨past, history⟩ := ih
    exact ⟨_, history.step advances⟩
  | resume counters _ ih =>
    obtain ⟨past, history⟩ := ih
    exact ⟨_, history.resume counters⟩

def historyFrom (program : Program) : Nat → List Config → List Config
  | 0, past => past
  | _ + 1, [] => []
  | count + 1, config :: past =>
    match config.2.advance program config.1 with
    | .ok next => historyFrom program count (next :: config :: past)
    | .error _ => config :: past

theorem History.steps (history : History program start past) (count : Nat) :
    History program start (historyFrom program count past) := by
  induction count generalizing past with
  | zero => exact history
  | succ count ih =>
    cases past with
    | nil => exact history
    | cons config past =>
      rw [historyFrom]
      split
      · next next advances => exact ih (history.step advances)
      · exact history

theorem History.first (history : History program start past) : ∃ later, past = later ++ [start] := by
  induction history with
  | start => exact ⟨[], rfl⟩
  | @step _ next _ _ _ ih =>
    obtain ⟨later, same⟩ := ih
    exact ⟨next :: later, by rw [same]; rfl⟩
  | resume counters _ ih =>
    obtain ⟨later, same⟩ := ih
    exact ⟨_ :: later, by rw [same]; rfl⟩

theorem History.earlier {later : List Config}
    (whole : History program start (later ++ config :: past)) :
    History program start (config :: past) := by
  induction later with
  | nil => exact whole
  | cons last later ih =>
    apply ih
    cases later <;> cases whole <;> assumption

theorem openedAt_later (low : place < next.2.frames.size) :
    openedAt (next :: past) place = openedAt past place := by
  rw [openedAt, if_neg (Nat.not_le_of_lt low)]

theorem openedAt_here (high : config.2.frames.size ≤ place) :
    openedAt (config :: past) place = some config := by
  rw [openedAt, if_pos high]

theorem openedAt_skip {later : List Config}
    (low : ∀ config ∈ later, place < config.2.frames.size) :
    openedAt (later ++ past) place = openedAt past place := by
  induction later with
  | nil => rfl
  | cons next later ih =>
    rw [List.cons_append, openedAt_later (low next (by simp))]
    exact ih (List.forall_mem_cons.mp low).2

/-- A frame after a step was there before, or is that of the goal that was called. -/
theorem Moves.frame {entry : Entry} (moves : Moves config next)
    (held : next.2.frames[place]? = some entry) :
    (∃ before, config.2.frames[place]? = some before ∧ before.parent = entry.parent) ∨
      place = config.2.frames.size ∧ ∃ goal, config.1 = .call goal entry.parent := by
  have pushed {frames : Array Entry} {top : Entry}
      (held : (frames.push top)[place]? = some entry) :
      frames[place]? = some entry ∨ place = frames.size ∧ top = entry := by
    rw [Array.getElem?_push] at held
    split at held
    · next same => exact .inr ⟨same, by simpa using held⟩
    · exact .inl held
  cases moves with
  | answers frames | enters frames | probes frames =>
    rw [frames] at held
    rcases pushed held with old | ⟨rfl, rfl⟩
    · exact .inl ⟨entry, old, rfl⟩
    · exact .inr ⟨rfl, _, rfl⟩
  | fails frames | cuts frames => exact .inl ⟨entry, frames ▸ held, rfl⟩
  | ends frames | closes frames | doubts frames =>
    exact .inl ⟨entry, by rw [frames]; exact get_push held, rfl⟩
  | empty | forwards | rests => exact .inl ⟨entry, held, rfl⟩
  | turns found _ frames =>
    rw [frames] at held
    obtain ⟨before, old, same, -⟩ := get_set found held
    exact .inl ⟨before, old, same⟩
  | finds _ frames =>
    rw [frames, get_shrink] at held
    split at held
    · exact .inl ⟨entry, held, rfl⟩
    · cases held
  | @misses _ undo aside parent _ _ frames _ after =>
    rw [after] at held
    rcases pushed held with old | ⟨rfl, rfl⟩
    · exact .inl ⟨entry, by rw [frames]; exact get_push old, rfl⟩
    · exact .inl ⟨⟨.negation undo aside, parent⟩, by rw [frames, Array.getElem?_push_size], rfl⟩

theorem History.opened (history : History program start (config :: past))
    (empty : start.2.frames = #[]) {entry : Entry} (held : config.2.frames[place]? = some entry) :
    ∃ goal machine, openedAt (config :: past) place = some (.call goal entry.parent, machine) ∧
      machine.frames.size = place := by
  generalize same : config :: past = configs at history
  induction history generalizing config past entry with
  | start =>
    cases same
    simp [empty] at held
  | @step config next past history advances ih =>
    cases same
    have low := (Array.getElem?_eq_some_iff.mp held).1
    rw [openedAt_later low]
    rcases (Machine.advance_moves advances).frame held with ⟨before, old, parent⟩ | ⟨rfl, goal, calls⟩
    · rw [← parent]
      exact ih old rfl
    · obtain ⟨step, machine⟩ := config
      obtain rfl : step = .call goal entry.parent := calls
      exact ⟨goal, machine, openedAt_here (Nat.le_refl _), rfl⟩
  | @resume machine past counters history ih =>
    cases same
    have low := (Array.getElem?_eq_some_iff.mp held).1
    rw [openedAt_later low]
    exact @ih (.notify none .yielded, machine) past entry held rfl

structure Lasts (history : List Config) (parent : Option Nat) (place height : Nat)
    (later : List Config) (answered : Config) (before : List Config) : Prop where
  split : history = later ++ answered :: before
  yielded : answered.1 = .notify parent .yielded
  held : ∃ frame, answered.2.frames[place]? = some ⟨frame, parent⟩
  owned : Owned answered.2.frames place
  size : answered.2.frames.size = height
  same : ∀ config ∈ later, ∀ other, place ≤ other → other < height →
    config.2.frames[other]? = answered.2.frames[other]?

def Lasting (history : List Config) (parent : Option Nat) (place height : Nat) : Prop :=
  ∃ later answered before, Lasts history parent place height later answered before

theorem Lasts.here {parent : Option Nat} {frame : Frame}
    (yielded : config.1 = .notify parent .yielded)
    (held : config.2.frames[place]? = some ⟨frame, parent⟩) (owned : Owned config.2.frames place) :
    Lasts (config :: past) parent place config.2.frames.size [] config past :=
  ⟨rfl, yielded, ⟨frame, held⟩, owned, rfl, by simp⟩

theorem Lasting.carries :
    Carries (Lasting (config :: past)) (Lasting (next :: config :: past)) config.2.frames
      next.2.frames := by
  rintro parent first last low same ⟨later, answered, before, lasts⟩
  refine ⟨next :: later, answered, before,
    { lasts with
      split := by rw [lasts.split]; rfl
      same := ?_ }⟩
  simp only [List.mem_cons, forall_eq_or_imp]
  refine ⟨fun other above below => ?_, lasts.same⟩
  rw [same other above below]
  cases later with
  | nil =>
    cases lasts.split
    rfl
  | cons head rest =>
    cases lasts.split
    exact lasts.same config (by simp) other above below

/-- Wherever a search stands, the frames that do not wait are those of goals whose answers last. -/
theorem History.standing {goal : TermId} {limit : Nat} {state : State}
    (history : History program (Search.opening goal limit state) (config :: past)) :
    Standing (Lasting (config :: past)) config := by
  generalize same : config :: past = configs at history
  induction history generalizing config past with
  | start =>
    cases same
    exact .called .nobody
  | step _ advances ih =>
    cases same
    exact (ih rfl).moves (Machine.advance_moves advances) Lasting.carries
      fun parent place frame yielded held owned => ⟨_, _, _, .here yielded held owned⟩
  | @resume machine past counters _ ih =>
    cases same
    have carries := @Lasting.carries (.notify none .yielded, machine)
      (.redo, { machine with state := { machine.state with counters } }) past
    cases @ih (.notify none .yielded, machine) past rfl with
    | answered waiting suspended =>
      exact .asked (waiting.carries carries (Nat.le_of_lt suspended.low) fun _ _ => rfl)
        (suspended.carries carries (Nat.le_refl _) fun _ _ _ => rfl)

end

end Resolvent
