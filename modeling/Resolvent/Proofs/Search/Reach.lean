import Resolvent.Proofs.Search.Emission

namespace Resolvent

structure Program.Fits (program : Program) (ledger : Ledger) : Prop where
  head : ∀ {index : Nat} {clause : Clause}, program.clauses[index]? = some clause →
    ∃ args, ledger.shape? clause.head = some (.compound clause.symbol args) ∧
      args.length = clause.arity
  user : ∀ {index : Nat} {clause : Clause}, program.clauses[index]? = some clause →
    ∃ place, clause.symbol = .user place
  body : ∀ {index : Nat} {clause : Clause} {body : TermId},
    program.clauses[index]? = some clause → clause.body = some body → ledger.Live body

theorem Program.Fits.later {program : Program} {later ledger : Ledger} (fits : program.Fits ledger)
    (grown : later.Extends ledger) : program.Fits later where
  head held := by
    obtain ⟨args, shape, length⟩ := fits.head held
    exact ⟨args, grown.shape shape, length⟩
  user held := fits.user held
  body held has := grown.live (fits.body held has)

theorem Program.Fits.headLive {program : Program} {ledger : Ledger} (fits : program.Fits ledger)
    {index : Nat} {clause : Clause} (held : program.clauses[index]? = some clause) :
    ledger.Live clause.head := by
  obtain ⟨args, shape, -⟩ := fits.head held
  exact Ledger.live_of_shape shape

namespace Ledger

variable {ledger : Ledger}

structure HeadInstance (ledger : Ledger) (goal head : TermId) (since : Nat) (names : Renaming) :
    Prop where
  equated : ∃ copy equation : TermId, since ≤ equation.index ∧
    ledger.shape? equation = some (.compound (.reserved .equal) [goal, copy]) ∧
      ledger.Copies names since head copy
  once : (names.map Prod.fst).Nodup
  occurs : ∀ entry ∈ names, ledger.Occurs entry.1 head
  new : ∀ entry ∈ names, since ≤ entry.2.index
  isVar : ∀ entry ∈ names, ledger.shape? entry.2 = some .var
  apart : (names.map Prod.snd).Nodup

theorem HeadInstance.later {later : Ledger} {goal head : TermId} {since : Nat} {names : Renaming}
    (head_instance : ledger.HeadInstance goal head since names) (grown : later.Extends ledger) :
    later.HeadInstance goal head since names where
  equated := by
    obtain ⟨copy, equation, new, shape, copies⟩ := head_instance.equated
    exact ⟨copy, equation, new, grown.shape shape, copies.later grown (Nat.le_refl _) fun _ _ known => known⟩
  once := head_instance.once
  occurs entry member := (head_instance.occurs entry member).later grown
  new := head_instance.new
  isVar entry member := grown.shape (head_instance.isVar entry member)
  apart := head_instance.apart

theorem HeadInstance.namesLive {goal head : TermId} {since : Nat} {names : Renaming}
    (head_instance : ledger.HeadInstance goal head since names) : ledger.NamesLive names :=
  fun entry member => live_of_shape (head_instance.isVar entry member)

theorem Matches.head_instance {goal head equation : TermId} {names : Renaming} {later : Ledger}
    (matched : ledger.Matches goal head equation names later) (wellFormed : ledger.WellFormed)
    (live : ledger.Live head) : later.HeadInstance goal head ledger.size names := by
  obtain ⟨copied, rfl, goalLive, copyLive⟩ := matched
  rename_i copy middle
  have grown := copied.grows wellFormed
  have onward := allocate_allocates grown.wellFormed
    (@admits_compound _ (.reserved .equal) _ (live_sides goalLive copyLive))
  obtain ⟨added, same, held⟩ := copied.added wellFormed (by simpa using live)
  rw [List.append_nil] at same
  subst same
  exact
    { equated := ⟨_, _, grown.extends.size_le, shape?_allocate_size _,
        ((copied.copies wellFormed).2 (head, copy) (by simp)).later onward.extends (Nat.le_refl _)
          fun _ _ known => known⟩
      once := held.once
      occurs := by
        intro entry member
        obtain ⟨term, listed, occurs⟩ := held.occurs entry member
        rw [List.mem_singleton] at listed
        subst listed
        exact occurs.later (onward.trans grown).extends
      new := held.new
      isVar := fun entry member => onward.extends.shape (held.isVar entry member)
      apart := held.apart }

inductive Known (ledger : Ledger) (goal : TermId) (head body : TermId) (since : Nat) :
    Renaming → Prop where
  | first {names : Renaming} (head_instance : ledger.HeadInstance goal head since names) :
      Known ledger goal head body since names
  | again {names added : Renaming} (head_instance : ledger.HeadInstance goal head since names)
      (occurs : ∀ entry ∈ added, ledger.Occurs entry.1 body)
      (unnamed : ∀ entry ∈ added, names.lookup entry.1 = none)
      (every : ∀ var, ledger.Occurs var body → ∃ name, (added ++ names).lookup var = some name) :
      Known ledger goal head body since (added ++ names)

theorem Known.later {later : Ledger} {goal head body : TermId} {since : Nat} {names : Renaming}
    (known : ledger.Known goal head body since names) (grown : later.Extends ledger)
    (wellFormed : ledger.WellFormed) (live : ledger.Live body) :
    later.Known goal head body since names := by
  cases known with
  | first head_instance => exact .first (head_instance.later grown)
  | again head_instance occurs unnamed every =>
    refine .again (head_instance.later grown) (fun entry member => ?_) unnamed fun var occurs => ?_
    · exact (occurs entry member).later grown
    · exact every var (occurs.earlier grown wellFormed live)

theorem lookup_append_unnamed {added names : Renaming}
    (unnamed : ∀ entry ∈ added, names.lookup entry.1 = none) {var name : TermId}
    (known : names.lookup var = some name) : (added ++ names).lookup var = some name := by
  have absent : added.lookup var = none := by
    rw [List.lookup_eq_none_iff]
    intro entry member
    rw [bne_iff_ne]
    rintro rfl
    simp [unnamed entry member] at known
  rw [List.lookup_append, absent, known]
  rfl

theorem Known.copied {base later : Ledger} {goal head body copy : TermId} {since : Nat}
    {names named : Renaming} (known : base.Known goal head body since names)
    (grown : ledger.Extends base) (copied : Instantiates ledger names [body] [copy] later named)
    (baseFormed : base.WellFormed) (wellFormed : ledger.WellFormed) (live : base.Live body) :
    base.Known goal head body since named := by
  have onward := (copied.grows wellFormed).extends.trans grown
  obtain ⟨more, rfl, held⟩ := copied.added wellFormed (by simpa using grown.live live)
  have copies := (copied.copies wellFormed).2 (body, copy) (by simp)
  have inBody : ∀ entry ∈ more, base.Occurs entry.1 body := by
    intro entry member
    obtain ⟨term, listed, occurs⟩ := held.occurs entry member
    rw [List.mem_singleton.mp listed] at occurs
    exact occurs.earlier grown baseFormed live
  cases known with
  | first head_instance =>
    exact .again head_instance inBody held.unnamed fun var occurs =>
      copies.named (occurs.later onward)
  | @again names added head_instance occurs unnamed every =>
    rw [← List.append_assoc]
    refine .again head_instance ?_ ?_ fun var occurs => ?_
    · intro entry member
      rcases List.mem_append.mp member with new | old
      · exact inBody entry new
      · exact occurs entry old
    · intro entry member
      rcases List.mem_append.mp member with new | old
      · have absent := held.unnamed entry new
        rw [List.lookup_append, Option.or_eq_none_iff] at absent
        exact absent.2
      · exact unnamed entry old
    · rw [List.append_assoc]
      exact copies.named (occurs.later onward)

end Ledger

abbrev Config := Step × Machine

structure Stray (program : Program) (ledger : Ledger) (frames : Array Entry)
    (parent : Option Nat) (goal : TermId) (clause : Clause) (body : TermId) : Prop where
  called : ∃ index resolved next expansion above, parent = some index ∧
    frames[index]? = some ⟨.deduction resolved next (some expansion), above⟩ ∧
    program.clauses[expansion.clause]? = some clause ∧ expansion.names.lookup body = some goal
  has : clause.body = some body
  isVar : ledger.shape? body = some .var
  absent : ¬ ledger.Occurs body clause.head
  dead : ¬ ledger.Live goal

structure BodyStart (program : Program) (config : Config) (index : Nat) (goal : TermId)
    (expansion : Expansion) (clause : Clause) (body : TermId) : Prop where
  heard : config.1 = .notify (some index) .yielded
  frame : ∃ next parent,
    config.2.frames[index]? = some ⟨.deduction goal next (some expansion), parent⟩
  outside : expansion.inBody = false
  held : program.clauses[expansion.clause]? = some clause
  has : clause.body = some body

/-- What is so wherever a run stands. The state has the stacks of a ledger, a goal that is called
    is a term, and the names with which a body is to be copied come from the copy of its head. -/
structure Orderly (program : Program) (ledger : Ledger) (config : Config) : Prop where
  state : ∃ counters, config.2.state = ledger.state counters
  wellFormed : ledger.WellFormed
  fits : program.Fits ledger
  called : ∀ goal parent, config.1 = .call goal parent →
    ledger.Live goal ∨ ∃ clause body, Stray program ledger config.2.frames parent goal clause body
  opened : ∀ {index goal expansion clause body},
    BodyStart program config index goal expansion clause body →
    ledger.Known goal clause.head body expansion.undo.terms expansion.names

inductive Reaches (program : Program) : Config → Config → Prop where
  | refl {config : Config} : Reaches program config config
  | step {config next last : Config} {ledger : Ledger} (orderly : Orderly program ledger config)
      (running : ∀ signal, config.1 ≠ .notify none signal)
      (advances : config.2.advance program config.1 = .ok next)
      (rest : Reaches program next last) : Reaches program config last

theorem Reaches.trans {program : Program} {first middle last : Config}
    (earlier : Reaches program first middle) (later : Reaches program middle last) :
    Reaches program first last := by
  induction earlier with
  | refl => exact later
  | step orderly running advances _ ih => exact .step orderly running advances (ih later)

theorem frames_get (below above : Array Entry) (entry : Entry) :
    (below ++ (#[entry] ++ above))[below.size]? = some entry := by
  rw [Array.getElem?_append_right (Nat.le_refl _), Nat.sub_self,
    Array.getElem?_append_left (by simp)]
  rfl

theorem frames_set (below above : Array Entry) (entry other : Entry) :
    (below ++ (#[entry] ++ above)).setIfInBounds below.size other =
      below ++ (#[other] ++ above) := by
  apply Array.ext'
  simp [Array.toList_setIfInBounds]

theorem frames_shrink (below above : Array Entry) : (below ++ above).shrink below.size = below := by
  apply Array.ext'
  simp

end Resolvent
