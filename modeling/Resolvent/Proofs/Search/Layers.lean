import Resolvent.Proofs.Search.Fresh
import Resolvent.Proofs.Search.History
import Resolvent.Proofs.Search.Unfolding

namespace Resolvent

structure Call where
  parent : Option Nat
  goal : TermId
  depth : Nat

def called? (config : Config) : Option Call :=
  match config.1 with
  | .call goal parent =>
    some ⟨parent, config.2.state.arena.deref goal, config.2.state.callDepth⟩
  | .redo | .notify _ _ => none

def ancestors (called : Nat → Option Call) : Nat → Option Nat → List TermId
  | 0, _ => []
  | place + 1, target =>
    match called place with
    | none => ancestors called place target
    | some here =>
      if target = some place then here.goal :: ancestors called place here.parent
      else ancestors called place target

def avoiding (goals : List TermId) (id : TermId) (_ : Symbol) (_ : Nat) : Prop := id ∉ goals

section

variable {called others : Nat → Option Call} {here : Call} {target : Option Nat}
  {place low high : Nat}

theorem ancestors_top (opened : called place = some here) :
    ancestors called (place + 1) (some place) = here.goal :: ancestors called place here.parent := by
  simp [ancestors, opened]

theorem ancestors_skip (other : target ≠ some place) :
    ancestors called (place + 1) target = ancestors called place target := by
  rw [ancestors]
  cases called place <;> simp [other]

theorem ancestors_above (below : ∀ index, target = some index → index < low) (more : low ≤ high) :
    ancestors called high target = ancestors called low target := by
  induction more with
  | refl => rfl
  | @step place more ih =>
    rw [ancestors_skip, ih]
    rintro rfl
    exact absurd (below place rfl) (Nat.not_lt_of_le more)

theorem ancestors_frame (low : place < high) :
    ancestors called high (some place) = ancestors called (place + 1) (some place) := by
  refine ancestors_above ?_ low
  rintro _ ⟨⟩
  exact Nat.lt_succ_self place

theorem ancestors_congr (same : ∀ place < high, called place = others place) :
    ancestors called high target = ancestors others high target := by
  induction high generalizing target with
  | zero => rfl
  | succ place ih =>
    have lower := fun (target : Option Nat) => @ih target fun index low =>
      same index (Nat.lt_succ_of_lt low)
    rw [ancestors, ancestors, same place (Nat.lt_succ_self _)]
    cases others place <;> simp only [lower]

end

structure Mark where
  undo : Snapshot
  again : Option TermId
  pending : Option TermId

def Frame.mark : Frame → Option Mark
  | .once undo => undo.map fun undo => ⟨undo, none, none⟩
  | .delegate undo => some ⟨undo, none, none⟩
  | .conjunction undo right _ => some ⟨undo, none, some right⟩
  | .disjunction undo goal right _ => some ⟨undo, some goal, some right⟩
  | .negation undo _ => some ⟨undo, none, none⟩
  | .deduction goal _ current => current.map fun expansion => ⟨expansion.undo, some goal, none⟩

theorem Frame.mark_of_undone {frame : Frame} {undo : Snapshot} (takes : frame.undone? = some undo) :
    ∃ mark, frame.mark = some mark ∧ mark.undo = undo := by
  cases frame with
  | delegate =>
    cases takes
    exact ⟨_, rfl, rfl⟩
  | conjunction _ _ branch | disjunction _ _ _ branch =>
    cases branch <;> cases takes
    exact ⟨_, rfl, rfl⟩
  | once | negation | deduction => cases takes

def marks (frames : Array Entry) : List (Option Mark) :=
  (frames.toList.map fun entry => entry.frame.mark).reverse

section

variable {frames : Array Entry} {entry : Entry} {place : Nat}

@[simp] theorem length_marks (frames : Array Entry) : (marks frames).length = frames.size := by
  simp [marks]

@[simp] theorem marks_push (frames : Array Entry) (entry : Entry) :
    marks (frames.push entry) = entry.frame.mark :: marks frames := by
  simp [marks]

theorem marks_set {frame : Frame} {parent : Option Nat} (held : frames[place]? = some entry)
    (same : frame.mark = entry.frame.mark) :
    marks (frames.setIfInBounds place ⟨frame, parent⟩) = marks frames := by
  have low := (Array.getElem?_eq_some_iff.mp held).1
  have kept : (frames.toList.map fun entry => entry.frame.mark)[place]? = some frame.mark := by
    simp [held, same]
  obtain ⟨inside, kept⟩ := List.getElem?_eq_some_iff.mp kept
  simp only [marks, Array.toList_setIfInBounds, List.map_set, ← kept, List.set_getElem_self]

theorem marks_split (held : frames[place]? = some entry) :
    ∃ above, marks frames = above ++ entry.frame.mark :: marks (frames.shrink place) := by
  obtain ⟨low, rfl⟩ := Array.getElem?_eq_some_iff.mp held
  obtain ⟨rest, whole⟩ : ∃ rest, frames.toList =
      (frames.shrink place).toList ++ frames[place] :: rest := by
    refine ⟨frames.toList.drop (place + 1), ?_⟩
    have top : frames.toList.drop place = frames[place] :: frames.toList.drop (place + 1) :=
      List.drop_eq_getElem_cons low
    rw [← top]
    simp
  refine ⟨(rest.map fun entry => entry.frame.mark).reverse, ?_⟩
  rw [marks, marks, whole]
  simp

end

structure Floor where
  height : Nat
  ledger : Ledger

def Floor.Bears (floor : Floor) (height : Nat) (ledger : Ledger) : Prop :=
  floor.height ≤ height → ledger.Extends floor.ledger

structure Opening (called : Nat → Option Call) (place : Nat) (base : Ledger) (here : Call) :
    Prop where
  opened : called place = some here
  shape : ∃ symbol args, base.shape? here.goal = some (.compound symbol args)
  idle : here.goal ∉ base.calls
  depth : here.depth = base.calls.length

structure Mark.Suits (mark : Mark) (called : Nat → Option Call) (place : Nat) (base : Ledger)
    (here : Call) : Prop where
  undo : mark.undo = base.snapshot
  again : ∀ goal, mark.again = some goal → goal = here.goal
  pending : ∀ goal, mark.pending = some goal →
    base.arena.Callable (avoiding (ancestors called (place + 1) (some place))) goal

inductive Layers (program : Program) (called : Nat → Option Call) (floor : Floor) :
    List (Option Mark) → Ledger → Prop where
  | ground {ledger : Ledger} (quiet : Quiet program ledger) (idle : ledger.calls = [])
      (bears : floor.Bears 0 ledger) : Layers program called floor [] ledger
  | silent {rest : List (Option Mark)} {base ledger : Ledger} {here : Call}
      (below : Layers program called floor rest base) (opened : called rest.length = some here)
      (live : base.Live here.goal) (quiet : Quiet program ledger) (grown : ledger.Extends base)
      (calls : ledger.calls = base.calls) (bears : floor.Bears (rest.length + 1) ledger) :
      Layers program called floor (none :: rest) ledger
  | noted {rest : List (Option Mark)} {base ledger : Ledger} {here : Call} {mark : Mark}
      (below : Layers program called floor rest base)
      (opening : Opening called rest.length base here)
      (suits : mark.Suits called rest.length base here) (quiet : Quiet program ledger)
      (grown : ledger.Extends base) (calls : ledger.calls = base.calls ++ [here.goal])
      (bears : floor.Bears (rest.length + 1) ledger) :
      Layers program called floor (some mark :: rest) ledger

section

variable {program : Program} {called others : Nat → Option Call} {floor : Floor}
  {rest : List (Option Mark)} {ledger later : Ledger} {here : Call} {place : Nat}

theorem Floor.Bears.grow {height : Nat} (bears : floor.Bears height ledger)
    (grown : later.Extends ledger) : floor.Bears height later :=
  fun high => grown.trans (bears high)

namespace Layers

theorem quiet (layers : Layers program called floor rest ledger) : Quiet program ledger := by
  cases layers <;> assumption

theorem bears (layers : Layers program called floor rest ledger) :
    floor.Bears rest.length ledger := by
  cases layers <;> assumption

theorem grow (layers : Layers program called floor rest ledger) (quiet : Quiet program later)
    (grown : later.Extends ledger) (calls : later.calls = ledger.calls) :
    Layers program called floor rest later := by
  cases layers with
  | ground _ idle bears => exact .ground quiet (calls.trans idle) (bears.grow grown)
  | silent below opened live _ before same bears =>
    exact .silent below opened live quiet (grown.trans before) (calls.trans same) (bears.grow grown)
  | noted below opening suits _ before same bears =>
    exact .noted below opening suits quiet (grown.trans before) (calls.trans same)
      (bears.grow grown)

theorem drop {above : List (Option Mark)}
    (layers : Layers program called floor (above ++ rest) ledger) :
    ∃ base, Layers program called floor rest base ∧ ledger.Extends base := by
  induction above generalizing ledger with
  | nil => exact ⟨ledger, layers, .refl ledger⟩
  | cons mark above ih =>
    cases layers with
    | silent below _ _ _ grown | noted below _ _ _ grown =>
      obtain ⟨base, found, before⟩ := ih below
      exact ⟨base, found, grown.trans before⟩

theorem live (layers : Layers program called floor rest ledger) (low : place < rest.length)
    (opened : called place = some here) : ledger.Live here.goal := by
  induction layers with
  | ground => cases low
  | @silent rest base ledger known _ found live _ grown _ _ ih =>
    rcases Nat.lt_or_eq_of_le (Nat.le_of_lt_succ low) with lower | rfl
    · exact grown.live (ih lower)
    · cases found.symm.trans opened
      exact grown.live live
  | @noted rest base ledger known _ _ opening _ _ grown _ _ ih =>
    rcases Nat.lt_or_eq_of_le (Nat.le_of_lt_succ low) with lower | rfl
    · exact grown.live (ih lower)
    · cases opening.opened.symm.trans opened
      obtain ⟨symbol, args, shape⟩ := opening.shape
      exact grown.live (Ledger.live_of_shape shape)

/-- Whatever is on the call stack was put there for a frame, and is where it was put. -/
theorem mem_calls (layers : Layers program called floor rest ledger) {id : TermId}
    (member : id ∈ ledger.calls) : ∃ place here, place < rest.length ∧ called place = some here ∧
      here.goal = id ∧ ledger.calls[here.depth]? = some id := by
  induction layers with
  | ground _ idle => simp [idle] at member
  | silent below _ _ _ _ calls _ ih =>
    rw [calls] at member ⊢
    obtain ⟨place, here, low, found⟩ := ih member
    exact ⟨place, here, Nat.lt_succ_of_lt low, found⟩
  | @noted rest base ledger here _ _ opening _ _ _ calls _ ih =>
    rw [calls] at member ⊢
    rcases List.mem_append.mp member with old | new
    · obtain ⟨place, known, low, found, same, held⟩ := ih old
      refine ⟨place, known, Nat.lt_succ_of_lt low, found, same, ?_⟩
      rw [List.getElem?_append_left (List.getElem?_eq_some_iff.mp held).1, held]
    · obtain rfl := List.mem_singleton.mp new
      refine ⟨rest.length, here, Nat.lt_succ_self _, opening.opened, rfl, ?_⟩
      rw [opening.depth]
      simp

end Layers

theorem ancestors_live (layers : Layers program called floor rest ledger) {target : Option Nat}
    {id : TermId} (member : id ∈ ancestors called rest.length target) : ledger.Live id := by
  have each : ∀ height ≤ rest.length, ∀ target, id ∈ ancestors called height target →
      ledger.Live id := by
    intro height low
    induction height with
    | zero => simp [ancestors]
    | succ place ih =>
      intro target member
      rw [ancestors] at member
      cases opened : called place with
      | none =>
        rw [opened] at member
        exact ih (Nat.le_of_succ_le low) target member
      | some here =>
        simp only [opened] at member
        split at member
        · rcases List.mem_cons.mp member with rfl | inner
          · exact layers.live low opened
          · exact ih (Nat.le_of_succ_le low) _ inner
        · exact ih (Nat.le_of_succ_le low) _ member
  exact each _ (Nat.le_refl _) target member

theorem Opening.congr {base : Ledger} (opening : Opening called place base here)
    (same : called place = others place) : Opening others place base here :=
  { opening with opened := same.symm.trans opening.opened }

theorem Mark.Suits.congr {mark : Mark} {base : Ledger} (suits : mark.Suits called place base here)
    (same : ∀ index < place + 1, called index = others index) :
    mark.Suits others place base here where
  undo := suits.undo
  again := suits.again
  pending goal pending := by
    rw [← ancestors_congr same]
    exact suits.pending goal pending

theorem Layers.congr (layers : Layers program called floor rest ledger)
    (same : ∀ place < rest.length, called place = others place) :
    Layers program others floor rest ledger := by
  induction layers with
  | ground quiet idle bears => exact .ground quiet idle bears
  | silent below opened live quiet grown calls bears ih =>
    exact .silent (ih fun place low => same place (Nat.lt_succ_of_lt low))
      ((same _ (Nat.lt_succ_self _)).symm.trans opened) live quiet grown calls bears
  | noted below opening suits quiet grown calls bears ih =>
    exact .noted (ih fun place low => same place (Nat.lt_succ_of_lt low))
      (opening.congr (same _ (Nat.lt_succ_self _))) (suits.congr same) quiet grown calls bears

theorem Layers.under (layers : Layers program called floor rest ledger) {other : Floor}
    (high : rest.length < other.height) : Layers program called other rest ledger := by
  have free {height : Nat} {ledger : Ledger} (low : height < other.height) :
      other.Bears height ledger := fun high => absurd high (Nat.not_le_of_lt low)
  induction layers with
  | ground quiet idle _ => exact .ground quiet idle (free high)
  | silent below opened live quiet grown calls _ ih =>
    exact .silent (ih (Nat.lt_of_succ_lt high)) opened live quiet grown calls (free high)
  | noted below opening suits quiet grown calls _ ih =>
    exact .noted (ih (Nat.lt_of_succ_lt high)) opening suits quiet grown calls (free high)

/-- What the frames have put on the stacks is a floor for those pushed later. -/
theorem Layers.floored (layers : Layers program called floor rest ledger) :
    Layers program called ⟨rest.length, ledger⟩ rest ledger := by
  cases layers with
  | ground quiet idle _ => exact .ground quiet idle fun _ => .refl ledger
  | silent below opened live quiet grown calls _ =>
    exact .silent (below.under (Nat.lt_succ_self _)) opened live quiet grown calls
      fun _ => .refl ledger
  | noted below opening suits quiet grown calls _ =>
    exact .noted (below.under (Nat.lt_succ_self _)) opening suits quiet grown calls
      fun _ => .refl ledger

end

end Resolvent
