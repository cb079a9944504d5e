import Resolvent.Proofs.Search.Truncation

namespace Resolvent

inductive Suspended (noted : Option Nat → Nat → Nat → Prop) (frames : Array Entry) :
    Option Nat → Nat → Nat → Prop where
  | once {parent : Option Nat} {place : Nat} {undo : Option Snapshot}
      (held : frames[place]? = some ⟨.once undo, parent⟩) (note : noted parent place (place + 1)) :
      Suspended noted frames parent place (place + 1)
  | single {parent : Option Nat} {place height : Nat} {frame : Frame}
      (held : frames[place]? = some ⟨frame, parent⟩) (branch : frame.branch? = some .left)
      (child : Suspended noted frames (some place) (place + 1) height)
      (note : noted parent place height) : Suspended noted frames parent place height
  | double {parent : Option Nat} {place middle height : Nat} {frame : Frame}
      (held : frames[place]? = some ⟨frame, parent⟩) (branch : frame.branch? = some .right)
      (left : Suspended noted frames (some place) (place + 1) middle)
      (right : Suspended noted frames (some place) middle height)
      (note : noted parent place height) : Suspended noted frames parent place height

inductive Waiting (noted : Option Nat → Nat → Nat → Prop) (frames : Array Entry) :
    Option Nat → Nat → Prop where
  | nobody : Waiting noted frames none 0
  | first {parent : Option Nat} {place : Nat} {frame : Frame}
      (below : Waiting noted frames parent place) (held : frames[place]? = some ⟨frame, parent⟩)
      (branch : frame.branch? = some .left) : Waiting noted frames (some place) (place + 1)
  | second {parent : Option Nat} {place height : Nat} {frame : Frame}
      (below : Waiting noted frames parent place) (held : frames[place]? = some ⟨frame, parent⟩)
      (branch : frame.branch? = some .right)
      (left : Suspended noted frames (some place) (place + 1) height) :
      Waiting noted frames (some place) height

/-- How the frames lie wherever a run stands. -/
inductive Standing (noted : Option Nat → Nat → Nat → Prop) : Config → Prop where
  | called {goal : TermId} {parent : Option Nat} {machine : Machine}
      (waiting : Waiting noted machine.frames parent machine.frames.size) :
      Standing noted (.call goal parent, machine)
  | ended {parent : Option Nat} {machine : Machine}
      (waiting : Waiting noted machine.frames parent machine.frames.size) :
      Standing noted (.notify parent .exhausted, machine)
  | answered {parent : Option Nat} {place : Nat} {machine : Machine}
      (waiting : Waiting noted machine.frames parent place)
      (suspended : Suspended noted machine.frames parent place machine.frames.size) :
      Standing noted (.notify parent .yielded, machine)
  | asked {parent : Option Nat} {place : Nat} {machine : Machine}
      (waiting : Waiting noted machine.frames parent place)
      (suspended : Suspended noted machine.frames parent place machine.frames.size) :
      Standing noted (.redo, machine)

section

variable {notes others : Option Nat → Nat → Nat → Prop} {frames after : Array Entry}
  {parent : Option Nat} {place height : Nat}

theorem Suspended.low (suspended : Suspended notes frames parent place height) : place < height := by
  induction suspended with
  | once => exact Nat.lt_succ_self _
  | single _ _ _ _ ih => exact Nat.lt_of_succ_lt ih
  | double _ _ _ _ _ leftIh rightIh => exact Nat.lt_of_succ_lt (Nat.lt_trans leftIh rightIh)

theorem within_frame {place first other : Nat} {target : Option Nat} (low : place ≤ first)
    (owned : other = first ∧ target = some place ∨ Within first target) : Within place target := by
  rcases owned with ⟨-, rfl⟩ | ⟨index, rfl, inside⟩
  · exact ⟨place, rfl, Nat.le_refl _⟩
  · exact ⟨index, rfl, Nat.le_trans low inside⟩

/-- The frames of a goal that has answered, but the first, were called by the first or above it. -/
theorem Suspended.owned (suspended : Suspended notes frames parent place height) {other : Nat}
    {entry : Entry} (held : frames[other]? = some entry) (low : place ≤ other)
    (high : other < height) : other = place ∧ entry.parent = parent ∨ Within place entry.parent := by
  have top {parent : Option Nat} {frame : Frame} (root : frames[other]? = some ⟨frame, parent⟩) :
      entry.parent = parent := by
    cases root.symm.trans held
    rfl
  induction suspended with
  | @once parent place _ root =>
    obtain rfl : other = place := by omega
    exact .inl ⟨rfl, top root⟩
  | @single parent place height frame root _ _ _ ih =>
    rcases Nat.eq_or_lt_of_le low with rfl | above
    · exact .inl ⟨rfl, top root⟩
    · exact .inr (within_frame (Nat.le_succ _) (ih above high))
  | @double parent place middle height frame root _ left _ _ leftIh rightIh =>
    rcases Nat.eq_or_lt_of_le low with rfl | above
    · exact .inl ⟨rfl, top root⟩
    · by_cases first : other < middle
      · exact .inr (within_frame (Nat.le_succ _) (leftIh above first))
      · exact .inr (within_frame (Nat.le_of_lt (Nat.lt_of_succ_lt left.low))
          (rightIh (Nat.le_of_not_lt first) high))

/-- What is so of frames stays so while the frames stay and what was notes of them. -/
theorem Suspended.later (suspended : Suspended notes frames parent place height)
    (same : ∀ other, place ≤ other → other < height → after[other]? = frames[other]?)
    (keep : ∀ parent first last, place ≤ first → last ≤ height → notes parent first last →
      others parent first last) : Suspended others after parent place height := by
  induction suspended with
  | once held note =>
    exact .once ((same _ (Nat.le_refl _) (Nat.lt_succ_self _)).trans held)
      (keep _ _ _ (Nat.le_refl _) (Nat.le_refl _) note)
  | @single parent place height frame held branch child note ih =>
    have inside := child.low
    refine .single ((same _ (Nat.le_refl _) (by omega)).trans held) branch (ih ?_ ?_)
      (keep _ _ _ (Nat.le_refl _) (Nat.le_refl _) note)
    · exact fun other low high => same other (Nat.le_of_succ_le low) high
    · exact fun _ _ _ low high => keep _ _ _ (Nat.le_of_succ_le low) high
  | @double parent place middle height frame held branch left right note leftIh rightIh =>
    have first := left.low
    have second := right.low
    refine .double ((same _ (Nat.le_refl _) (by omega)).trans held) branch (leftIh ?_ ?_)
      (rightIh ?_ ?_) (keep _ _ _ (Nat.le_refl _) (Nat.le_refl _) note)
    · exact fun other low high => same other (by omega) (by omega)
    · exact fun _ _ _ low high => keep _ _ _ (by omega) (by omega)
    · exact fun other low high => same other (by omega) high
    · exact fun _ _ _ low high => keep _ _ _ (by omega) high

theorem Waiting.later (waiting : Waiting notes frames parent height)
    (same : ∀ other < height, after[other]? = frames[other]?)
    (keep : ∀ parent first last, last ≤ height → notes parent first last →
      others parent first last) : Waiting others after parent height := by
  induction waiting with
  | nobody => exact .nobody
  | first below held branch ih =>
    refine .first (ih (fun other low => same other (Nat.lt_succ_of_lt low)) ?_)
      ((same _ (Nat.lt_succ_self _)).trans held) branch
    exact fun _ _ _ high => keep _ _ _ (Nat.le_succ_of_le high)
  | second below held branch left ih =>
    have inside := left.low
    refine .second (ih (fun other low => same other (by omega)) ?_)
      ((same _ (by omega)).trans held) branch (left.later ?_ ?_)
    · exact fun _ _ _ high => keep _ _ _ (by omega)
    · exact fun other _ high => same other high
    · exact fun _ _ _ _ high => keep _ _ _ high

/-- A goal that has answered is asked for its next answer at its last frame, which has no other. -/
theorem Suspended.reopen (suspended : Suspended notes frames parent place height)
    (waiting : Waiting notes frames parent place) :
    ∃ top undo above, height = top + 1 ∧ frames[top]? = some ⟨.once undo, above⟩ ∧
      Waiting notes frames above top := by
  induction suspended with
  | once held => exact ⟨_, _, _, rfl, held, waiting⟩
  | single held branch _ _ ih => exact ih (.first waiting held branch)
  | double held branch left _ _ _ ih => exact ih (.second waiting held branch left)

def Carries (notes others : Option Nat → Nat → Nat → Prop) (frames after : Array Entry) : Prop :=
  ∀ parent first last, last ≤ after.size →
    (∀ place, first ≤ place → place < last → after[place]? = frames[place]?) →
    notes parent first last → others parent first last

theorem Suspended.carries (suspended : Suspended notes frames parent place height)
    (carries : Carries notes others frames after) (low : height ≤ after.size)
    (same : ∀ other, place ≤ other → other < height → after[other]? = frames[other]?) :
    Suspended others after parent place height := by
  refine suspended.later same fun parent first last above below => ?_
  exact carries parent first last (Nat.le_trans below low) fun other from' to' =>
    same other (Nat.le_trans above from') (Nat.lt_of_lt_of_le to' below)

theorem Waiting.carries (waiting : Waiting notes frames parent height)
    (carries : Carries notes others frames after) (low : height ≤ after.size)
    (same : ∀ other < height, after[other]? = frames[other]?) :
    Waiting others after parent height := by
  refine waiting.later same fun parent first last below => ?_
  exact carries parent first last (Nat.le_trans below low) fun other _ to' =>
    same other (Nat.lt_of_lt_of_le to' below)

end

section

variable {notes others : Option Nat → Nat → Nat → Prop}

theorem get_push_below {frames : Array Entry} {entry : Entry} {place : Nat}
    (low : place < frames.size) : (frames.push entry)[place]? = frames[place]? := by
  rw [Array.getElem?_push, if_neg (Nat.ne_of_lt low)]

theorem get_set_of_ne {frames : Array Entry} {entry : Entry} {place other : Nat}
    (apart : other ≠ place) : (frames.setIfInBounds place entry)[other]? = frames[other]? := by
  rw [Array.getElem?_setIfInBounds, if_neg (Ne.symm apart)]

theorem pop_frame {frames rest : Array Entry} {entry : Entry} (same : frames = rest.push entry) :
    frames.size = rest.size + 1 ∧ frames[rest.size]? = some entry ∧
      ∀ place < rest.size, rest[place]? = frames[place]? := by
  subst same
  exact ⟨by simp, by simp, fun place low => (get_push_below low).symm⟩

theorem Waiting.first_of_left {frames : Array Entry} {index height : Nat} {entry : Entry}
    (waiting : Waiting notes frames (some index) height) (held : frames[index]? = some entry)
    (branch : entry.frame.branch? = some .left) :
    height = index + 1 ∧ Waiting notes frames entry.parent index := by
  cases waiting with
  | first below known _ =>
    cases held.symm.trans known
    exact ⟨rfl, below⟩
  | second _ known other _ =>
    cases held.symm.trans known
    cases branch.symm.trans other

theorem Waiting.second_of_right {frames : Array Entry} {index height : Nat} {entry : Entry}
    (waiting : Waiting notes frames (some index) height) (held : frames[index]? = some entry)
    (branch : entry.frame.branch? = some .right) :
    Waiting notes frames entry.parent index ∧
      Suspended notes frames (some index) (index + 1) height := by
  cases waiting with
  | first _ known other =>
    cases held.symm.trans known
    cases branch.symm.trans other
  | second below known _ left =>
    cases held.symm.trans known
    exact ⟨below, left⟩

theorem Standing.once {parent : Option Nat} {place : Nat} {undo : Option Snapshot}
    {machine : Machine} (waiting : Waiting others machine.frames parent place)
    (held : machine.frames[place]? = some ⟨.once undo, parent⟩)
    (tall : machine.frames.size = place + 1)
    (note : Owned machine.frames place → others parent place machine.frames.size) :
    Standing others (.notify parent .yielded, machine) := by
  have owned : Owned machine.frames place := fun other entry found above => by
    have low := (Array.getElem?_eq_some_iff.mp found).1
    omega
  have noted := note owned
  rw [tall] at noted
  exact .answered waiting (tall ▸ .once held noted)

theorem Waiting.enters {goal : TermId} {parent : Option Nat} {frame : Frame}
    {machine later : Machine} (waiting : Waiting notes machine.frames parent machine.frames.size)
    (carries : Carries notes others machine.frames later.frames)
    (frames : later.frames = machine.frames.push ⟨frame, parent⟩)
    (branch : frame.branch? = some .left) :
    Standing others (.call goal (some machine.frames.size), later) := by
  have below := waiting.carries carries (by simp [frames]) fun other low => by
    simp only [frames, get_push_below low]
  have called := Waiting.first below (by simp [frames]) branch
  exact .called (by simpa [frames] using called)

/-- A goal whose frame was on top and is removed, with all that it left below unchanged. -/
theorem Waiting.ends {parent : Option Nat} {machine later : Machine}
    (waiting : Waiting notes machine.frames parent later.frames.size)
    (carries : Carries notes others machine.frames later.frames)
    (same : ∀ other < later.frames.size, later.frames[other]? = machine.frames[other]?) :
    Standing others (.notify parent .exhausted, later) :=
  .ended (waiting.carries carries (Nat.le_refl _) same)

theorem Standing.forwards {index : Nat} {entry : Entry} {machine : Machine}
    (standing : Standing notes (.notify (some index) .yielded, machine))
    (carries : Carries notes others machine.frames machine.frames)
    (held : machine.frames[index]? = some entry)
    (note : Owned machine.frames index → others entry.parent index machine.frames.size) :
    Standing others (.notify entry.parent .yielded, machine) := by
  cases standing with
  | @answered _ place _ waiting suspended =>
    have later := suspended.carries carries (Nat.le_refl _) fun _ _ _ => rfl
    cases waiting with
    | @first parent _ frame below known branch =>
      cases held.symm.trans known
      have below := below.carries carries
        (Nat.le_of_lt (Array.getElem?_eq_some_iff.mp known).1) fun _ _ => rfl
      have owned : Owned machine.frames index := fun other inner found above => by
        have high := (Array.getElem?_eq_some_iff.mp found).1
        exact within_frame (Nat.le_succ _) (suspended.owned found above high)
      exact .answered below (.single known branch later (note owned))
    | @second parent _ _ frame below known branch left =>
      cases held.symm.trans known
      have between := left.low
      have inside := suspended.low
      have below := below.carries carries
        (Nat.le_of_lt (Array.getElem?_eq_some_iff.mp known).1) fun _ _ => rfl
      have owned : Owned machine.frames index := fun other inner found above => by
        have high := (Array.getElem?_eq_some_iff.mp found).1
        by_cases early : other < place
        · exact within_frame (Nat.le_succ _) (left.owned found above early)
        · exact within_frame (Nat.le_of_lt (Nat.lt_of_succ_lt between))
            (suspended.owned found (Nat.le_of_not_lt early) high)
      exact .answered below (.double known branch
        (left.carries carries (Nat.le_of_lt inside) fun _ _ _ => rfl) later (note owned))

theorem Standing.turns {index : Nat} {signal : Signal} {entry : Entry} {frame : Frame} {step : Step}
    {machine later : Machine} (standing : Standing notes (.notify (some index) signal, machine))
    (carries : Carries notes others machine.frames later.frames)
    (held : machine.frames[index]? = some entry)
    (frames : later.frames = machine.frames.setIfInBounds index ⟨frame, entry.parent⟩)
    (next : step = .redo ∨ ∃ goal, step = .call goal (some index))
    (turn : Turn signal entry.frame.branch? frame.branch? step) : Standing others (step, later) := by
  have inside := (Array.getElem?_eq_some_iff.mp held).1
  have tall : later.frames.size = machine.frames.size := by simp [frames]
  have set : later.frames[index]? = some ⟨frame, entry.parent⟩ := by simp [frames, inside]
  have same {other : Nat} (apart : other ≠ index) :
      later.frames[other]? = machine.frames[other]? := by
    rw [frames, get_set_of_ne apart]
  have stays (waiting : Waiting notes machine.frames entry.parent index) :
      Waiting others later.frames entry.parent index :=
    waiting.carries carries (tall ▸ Nat.le_of_lt inside) fun other below => same (Nat.ne_of_lt below)
  have kept {parent : Option Nat} {place height : Nat} (above : index < place)
      (low : height ≤ machine.frames.size)
      (suspended : Suspended notes machine.frames parent place height) :
      Suspended others later.frames parent place height :=
    suspended.carries carries (tall ▸ low) fun other high _ => same (by omega)
  generalize left : entry.frame.branch? = before at turn
  generalize now : frame.branch? = after at turn
  cases turn with
  | @onward goal place =>
    obtain rfl : place = index := by simpa using next
    cases standing with
    | answered waiting suspended =>
      obtain ⟨rfl, below⟩ := waiting.first_of_left held left
      exact .called (tall ▸ .second (stays below) set now
        (kept (Nat.lt_succ_self _) (Nat.le_refl _) suspended))
  | @again goal place =>
    obtain rfl : place = index := by simpa using next
    cases standing with
    | ended waiting =>
      obtain ⟨top, below⟩ := waiting.first_of_left held left
      have called := Waiting.first (stays below) set now
      exact .called (by rwa [tall, top])
  | back =>
    cases standing with
    | ended waiting =>
      obtain ⟨below, suspended⟩ := waiting.second_of_right held left
      exact .asked (.first (stays below) set now)
        (tall ▸ kept (Nat.lt_succ_self _) (Nat.le_refl _) suspended)

/-- How the frames lie after a step. What is new is noted of a goal that has just answered. -/
theorem Standing.moves {config next : Config} (standing : Standing notes config)
    (moves : Moves config next) (carries : Carries notes others config.2.frames next.2.frames)
    (note : ∀ parent place frame, next.1 = .notify parent .yielded →
      next.2.frames[place]? = some ⟨frame, parent⟩ → Owned next.2.frames place →
      others parent place next.2.frames.size) : Standing others next := by
  cases moves with
  | @answers goal parent undo machine later frames level =>
    cases standing with
    | called waiting =>
      have below := waiting.carries carries (by simp [frames]) fun other low => by
        simp only [frames, get_push_below low]
      have held : later.frames[machine.frames.size]? = some ⟨.once undo, parent⟩ := by simp [frames]
      exact .once below held (by simp [frames]) (note parent _ _ rfl held)
  | enters frames plain level branch =>
    cases standing with
    | called waiting => exact waiting.enters carries frames branch
  | probes frames truncated hits =>
    cases standing with
    | called waiting => exact waiting.enters carries frames rfl
  | fails frames level | cuts frames =>
    cases standing with
    | called waiting =>
      rw [← frames] at waiting
      exact Waiting.ends (frames ▸ waiting) carries fun _ _ => by rw [frames]
  | ends frames level =>
    obtain ⟨tall, found, same⟩ := pop_frame frames
    cases standing with
    | asked waiting suspended =>
      obtain ⟨top, undo, above, height, held, below⟩ := suspended.reopen waiting
      obtain rfl : top = _ := Nat.succ.inj (height.symm.trans tall)
      cases held.symm.trans found
      exact below.ends carries same
  | empty frames =>
    cases standing with
    | asked waiting suspended =>
      have busy := suspended.low
      simp [frames] at busy
  | forwards held plain waits => exact standing.forwards carries held (note _ _ _ rfl held)
  | turns held plain frames plainToo next level turn =>
    exact standing.turns carries held frames next turn
  | closes frames plain level branch =>
    obtain ⟨tall, found, same⟩ := pop_frame frames
    cases standing with
    | ended waiting => exact (waiting.first_of_left found branch).2.ends carries same
  | @finds index undo aside parent machine later held frames truncated hits =>
    have inside := (Array.getElem?_eq_some_iff.mp held).1
    have tall : later.frames.size = index := by
      simp [frames, Array.shrink_eq_take, Nat.le_of_lt inside]
    cases standing with
    | answered waiting suspended =>
      obtain ⟨-, below⟩ := waiting.first_of_left held rfl
      refine (tall ▸ below).ends carries fun other low => ?_
      rw [frames, get_shrink, if_pos (tall ▸ low)]
  | @misses rest undo aside parent machine later frames complete after truncated hits =>
    obtain ⟨tall, found, same⟩ := pop_frame frames
    cases standing with
    | ended waiting =>
      obtain ⟨-, below⟩ := waiting.first_of_left found rfl
      have held : later.frames[rest.size]? = some ⟨.once (some undo), parent⟩ := by simp [after]
      have below := below.carries carries (by simp [after]) fun other low => by
        rw [after, get_push_below low, same other low]
      exact .once below held (by simp [after]) (note parent _ _ rfl held)
  | doubts frames cut level =>
    obtain ⟨tall, found, same⟩ := pop_frame frames
    cases standing with
    | ended waiting => exact (waiting.first_of_left found rfl).2.ends carries same
  | rests =>
    cases standing with
    | ended waiting => exact .ended (waiting.carries carries (Nat.le_refl _) fun _ _ => rfl)
    | answered waiting suspended =>
      exact .answered (waiting.carries carries (Nat.le_of_lt suspended.low) fun _ _ => rfl)
        (suspended.carries carries (Nat.le_refl _) fun _ _ _ => rfl)

end

def Frame.Waits (frame : Frame) : Prop :=
  (∀ undo, frame ≠ .once undo) ∧ ∀ goal next, frame ≠ .deduction goal next none

theorem Frame.waits_of_branch {frame : Frame} {branch : Branch}
    (waits : frame.branch? = some branch) : frame.Waits := by
  constructor
  · rintro undo rfl
    cases waits
  · rintro goal next rfl
    cases waits

def Awaited (frames : Array Entry) (target : Option Nat) (height : Nat) : Prop :=
  ∀ index, target = some index →
    index < height ∧ ∃ entry, frames[index]? = some entry ∧ entry.frame.Waits

def Attended (frames : Array Entry) : Prop :=
  ∀ place entry, frames[place]? = some entry → Awaited frames entry.parent place

section

variable {notes : Option Nat → Nat → Nat → Prop} {frames : Array Entry} {parent : Option Nat}
  {place height : Nat}

theorem awaited_frame {entry : Entry} (held : frames[place]? = some entry) {branch : Branch}
    (waits : entry.frame.branch? = some branch) (low : place < height) :
    Awaited frames (some place) height := by
  rintro index same
  cases same
  exact ⟨low, entry, held, Frame.waits_of_branch waits⟩

theorem Suspended.awaited (suspended : Suspended notes frames parent place height)
    (below : Awaited frames parent place) {other : Nat} {entry : Entry}
    (held : frames[other]? = some entry) (low : place ≤ other) (high : other < height) :
    Awaited frames entry.parent other := by
  have root {place : Nat} {parent : Option Nat} {frame : Frame}
      (known : frames[place]? = some ⟨frame, parent⟩) (below : Awaited frames parent place)
      (same : other = place) : Awaited frames entry.parent other := by
    subst same
    cases known.symm.trans held
    exact below
  induction suspended with
  | once known => exact root known below (by omega)
  | @single _ place _ _ known branch _ _ ih =>
    rcases Nat.eq_or_lt_of_le low with same | above
    · exact root known below same.symm
    · exact ih (awaited_frame known branch (Nat.lt_succ_self _)) above high
  | @double _ place middle _ _ known branch left _ _ leftIh rightIh =>
    rcases Nat.eq_or_lt_of_le low with same | above
    · exact root known below same.symm
    · by_cases early : other < middle
      · exact leftIh (awaited_frame known branch (Nat.lt_succ_self _)) above early
      · exact rightIh (awaited_frame known branch (Nat.lt_of_succ_lt left.low))
          (Nat.le_of_not_lt early) high

theorem Waiting.target (waiting : Waiting notes frames parent height) :
    Awaited frames parent height := by
  cases waiting with
  | nobody => rintro _ ⟨⟩
  | first _ held branch => exact awaited_frame held branch (Nat.lt_succ_self _)
  | second _ held branch left => exact awaited_frame held branch (Nat.lt_of_succ_lt left.low)

theorem Waiting.awaited (waiting : Waiting notes frames parent height) {other : Nat} {entry : Entry}
    (held : frames[other]? = some entry) (high : other < height) :
    Awaited frames entry.parent other := by
  have root {place : Nat} {parent : Option Nat} {frame : Frame}
      (below : Waiting notes frames parent place) (known : frames[place]? = some ⟨frame, parent⟩)
      (same : other = place) : Awaited frames entry.parent other := by
    subst same
    cases known.symm.trans held
    exact below.target
  induction waiting with
  | nobody => cases high
  | @first _ place _ below known branch ih =>
    rcases Nat.eq_or_lt_of_le (Nat.le_of_lt_succ high) with same | lower
    · exact root below known same
    · exact ih lower
  | @second _ place height _ below known branch left ih =>
    rcases Nat.lt_trichotomy other place with lower | same | above
    · exact ih lower
    · exact root below known same
    · exact left.awaited (awaited_frame known branch (Nat.lt_succ_self _)) held above high

theorem Standing.attended {config : Config} (standing : Standing notes config) :
    Attended config.2.frames := by
  intro place entry held
  have high := (Array.getElem?_eq_some_iff.mp held).1
  cases standing with
  | called waiting | ended waiting => exact waiting.awaited held high
  | @answered _ height _ waiting suspended | @asked _ height _ waiting suspended =>
    by_cases low : place < height
    · exact waiting.awaited held low
    · exact suspended.awaited waiting.target held (Nat.le_of_not_lt low) high

theorem Awaited.higher {above : Nat} (awaited : Awaited frames parent height)
    (low : height ≤ above) : Awaited frames parent above :=
  fun index same => ⟨Nat.lt_of_lt_of_le (awaited index same).1 low, (awaited index same).2⟩

theorem Standing.call {config : Config} (standing : Standing notes config) (goal : TermId)
    (parent : Option Nat) (calls : config.1 = .call goal parent) :
    Awaited config.2.frames parent config.2.frames.size := by
  cases standing with
  | called waiting =>
    cases calls
    exact waiting.target
  | ended | answered | asked => cases calls

theorem Standing.notify {config : Config} (standing : Standing notes config) (target : Option Nat)
    (signal : Signal) (heard : config.1 = .notify target signal) :
    Awaited config.2.frames target config.2.frames.size := by
  cases standing with
  | ended waiting =>
    cases heard
    exact waiting.target
  | answered waiting suspended =>
    cases heard
    exact waiting.target.higher (Nat.le_of_lt suspended.low)
  | called | asked => cases heard

theorem Standing.redo {config : Config} (standing : Standing notes config)
    (asked : config.1 = .redo) :
    ∃ undo parent, config.2.frames.back? = some ⟨.once undo, parent⟩ := by
  cases standing with
  | asked waiting suspended =>
    obtain ⟨top, undo, above, height, held, -⟩ := suspended.reopen waiting
    refine ⟨undo, above, ?_⟩
    rw [Array.back?_eq_getElem?, height]
    exact held
  | called | ended | answered => cases asked

end

inductive Ancestor (frames : Array Entry) : Option Nat → Nat → Prop where
  | here {place : Nat} {entry : Entry} (held : frames[place]? = some entry) :
      Ancestor frames (some place) place
  | above {place other : Nat} {entry : Entry} (held : frames[place]? = some entry)
      (rest : Ancestor frames entry.parent other) : Ancestor frames (some place) other

section

variable {notes : Option Nat → Nat → Nat → Prop} {frames : Array Entry} {parent : Option Nat}
  {place height : Nat}

theorem Ancestor.held (ancestor : Ancestor frames parent place) :
    ∃ entry, frames[place]? = some entry := by
  induction ancestor with
  | here held => exact ⟨_, held⟩
  | above _ _ ih => exact ih

theorem Suspended.note_at (suspended : Suspended notes frames parent place height) {other : Nat}
    (low : place ≤ other) (high : other < height) :
    ∃ parent last, last ≤ height ∧ notes parent other last := by
  induction suspended with
  | @once parent place _ _ note =>
    obtain rfl : other = place := by omega
    exact ⟨parent, _, Nat.le_refl _, note⟩
  | @single parent place height _ _ _ _ note ih =>
    rcases Nat.eq_or_lt_of_le low with rfl | above
    · exact ⟨parent, _, Nat.le_refl _, note⟩
    · exact ih above high
  | @double parent place middle height _ _ _ _ right note leftIh rightIh =>
    rcases Nat.eq_or_lt_of_le low with rfl | above
    · exact ⟨parent, _, Nat.le_refl _, note⟩
    · by_cases first : other < middle
      · obtain ⟨above, last, inside, known⟩ := leftIh above first
        exact ⟨above, last, Nat.le_trans inside (Nat.le_of_lt right.low), known⟩
      · exact rightIh (Nat.le_of_not_lt first) high

/-- A frame waits for what is called, or is that of a goal that has answered before. -/
theorem Waiting.split (waiting : Waiting notes frames parent height) {other : Nat}
    (low : other < height) :
    Ancestor frames parent other ∨ ∃ above last, last ≤ height ∧ notes above other last := by
  induction waiting with
  | nobody => cases low
  | @first _ place _ below held _ ih =>
    rcases Nat.lt_or_eq_of_le (Nat.le_of_lt_succ low) with lower | rfl
    · refine (ih lower).imp (fun inner => .above held inner) ?_
      rintro ⟨above, last, inside, note⟩
      exact ⟨above, last, Nat.le_succ_of_le inside, note⟩
    · exact .inl (.here held)
  | @second _ place height _ below held _ left ih =>
    rcases Nat.lt_trichotomy other place with lower | rfl | higher
    · refine (ih lower).imp (fun inner => .above held inner) ?_
      rintro ⟨above, last, inside, note⟩
      exact ⟨above, last, Nat.le_trans inside (Nat.le_of_lt (Nat.lt_of_succ_lt left.low)), note⟩
    · exact .inl (.here held)
    · exact .inr (left.note_at higher low)

end

theorem Visited.standing {program : Program} {goal : TermId} {limit : Nat} {state : State}
    {config : Config} (visited : Visited program (Search.opening goal limit state) config) :
    Standing (fun _ _ _ => True) config := by
  induction visited with
  | start => exact .called .nobody
  | step _ advances ih =>
    exact ih.moves (Machine.advance_moves advances) (fun _ _ _ _ _ _ => trivial)
      fun _ _ _ _ _ _ => trivial
  | resume counters _ ih =>
    cases ih with
    | answered waiting suspended => exact .asked waiting suspended

end Resolvent
