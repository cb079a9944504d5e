import Resolvent.Proofs.Ledger.Operations
import Resolvent.Proofs.Ledger.Renaming
import Resolvent.Proofs.Semantics.Residue

namespace Resolvent

def Shape.node : Shape → Node
  | .number value => .number value
  | .var => .var {}
  | .compound symbol args => .compound { symbol, args }

theorem Shape.shape_node (shape : Shape) : shape.node.shape = shape := by
  cases shape <;> rfl

def Named (names : Renaming) (id : TermId) : Prop := ∃ var, names.lookup var = some id

namespace Arena

def layout (arena : Arena) : Ledger where
  terms := arena.slots.toList.map fun slot => slot.node.shape

def Founded (arena : Arena) : Prop :=
  ∀ id cell, arena.compound? id = some cell → ∀ arg ∈ cell.args, arg.index < id.index

def Renames (arena : Arena) (names : Renaming) : Prop :=
  ∀ entry ∈ names, arena.contains entry.2 = true ∧ (arena.var? entry.2).isSome = true

variable {arena before middle after : Arena} {names between named : Renaming} {id term : TermId}
  {shape : Shape}

theorem slot_outside (outside : arena.contains id = false) : arena.slots[id.index]? = none := by
  have high : ¬ id.index < arena.slots.size := of_decide_eq_false outside
  simpa using high

theorem node_outside (outside : arena.contains id = false) : arena.node id = .var {} := by
  simp [node, slot_outside outside]

instance (arena : Arena) : Decidable arena.Founded :=
  decidable_of_iff (∀ index : Fin arena.size, ∀ cell ∈ arena.compound? ⟨index⟩,
      ∀ arg ∈ cell.args, arg.index < index.val) <| by
    constructor
    · intro older id cell held
      have inside := contains_of_compound (compound?_eq_some.mp held)
      exact older ⟨id.index, of_decide_eq_true inside⟩ cell held
    · intro founded index cell held
      exact founded ⟨index⟩ cell held

theorem size_layout (arena : Arena) : arena.layout.size = arena.size := by
  simp [layout, Ledger.size, Arena.size]

theorem live_layout : arena.layout.Live id ↔ arena.contains id = true := by
  simp [Ledger.Live, size_layout, contains]

theorem shape?_layout (inside : arena.contains id = true) :
    arena.layout.shape? id = some (arena.node id).shape := by
  have low : id.index < arena.slots.size := of_decide_eq_true inside
  simp [layout, Ledger.shape?, node, low]

theorem shape_node (known : arena.layout.shape? id = some shape) :
    arena.contains id = true ∧ (arena.node id).shape = shape := by
  have inside := live_layout.mp (Ledger.live_of_shape known)
  exact ⟨inside, Option.some.inj ((shape?_layout inside).symm.trans known)⟩

theorem node_number {value : Rational} (known : arena.layout.shape? id = some (.number value)) :
    arena.node id = .number value := by
  have same := (shape_node known).2
  cases held : arena.node id with
  | number other =>
    rw [held] at same
    rw [Shape.number.inj same]
  | _ => simp [held, Node.shape] at same

theorem node_var (known : arena.layout.shape? id = some .var) :
    ∃ cell, arena.node id = .var cell := by
  have same := (shape_node known).2
  cases held : arena.node id with
  | var cell => exact ⟨cell, rfl⟩
  | _ => simp [held, Node.shape] at same

theorem node_compound {symbol : Symbol} {args : List TermId}
    (known : arena.layout.shape? id = some (.compound symbol args)) :
    ∃ active, arena.node id = .compound { symbol, args, active } := by
  have same := (shape_node known).2
  cases held : arena.node id with
  | compound cell =>
    rw [held, Node.shape, Shape.compound.injEq] at same
    exact ⟨cell.active, by rw [← same.1, ← same.2]⟩
  | _ => simp [held, Node.shape] at same

theorem Founded.wellFormed (founded : arena.Founded) : arena.layout.WellFormed where
  args_older := by
    intro id symbol args known
    obtain ⟨active, held⟩ := node_compound known
    exact founded id { symbol, args, active } (compound?_eq_some.mpr held)
  bound_once := by simp [layout]
  bound_var := by simp [layout]
  target_live := by simp [layout]
  delayed_once := by simp [layout]
  delayed_var := by simp [layout]
  calls_once := by simp [layout]
  calls_compound := by simp [layout]
  posting_once := by simp [layout]
  posting_var := by simp [layout]
  discards_once := by simp [layout]
  discards_posted := by simp [layout]
  chains_end := ⟨fun _ => 0, by simp [layout, Ledger.Falls]⟩
  posting_left := by simp [layout]
  posting_right := by simp [layout]

theorem founded_of_layout (wellFormed : arena.layout.WellFormed) : arena.Founded := by
  intro id cell held
  have node := compound?_eq_some.mp held
  exact wellFormed.args_older
    ((shape?_layout (contains_of_compound node)).trans (by rw [node, Node.shape]))

theorem getElem?_place (arena : Arena) (shape : Shape) (index : Nat) :
    (arena.place shape).2.slots[index]? =
      if index = arena.size then some { node := shape.node }
      else arena.slots[index]?.map fun slot =>
        { slot with parents := List.replicate (shape.count ⟨index⟩) ⟨arena.size⟩ ++ slot.parents } := by
  cases shape with
  | number value | var =>
    simp [place, number, fresh, push, Array.getElem?_push, Shape.count, Shape.node, size]
  | compound symbol args =>
    have kept : (args.foldl (addParent ⟨arena.size⟩) arena).slots.size = arena.size :=
      size_addParents arena _ args
    simp only [place, compound, push, Array.getElem?_push, kept, getElem?_addParents]
    rfl

theorem place_fst (arena : Arena) (shape : Shape) : (arena.place shape).1 = ⟨arena.size⟩ := by
  cases shape with
  | number | var => rfl
  | compound symbol args => exact congrArg TermId.mk (size_addParents arena _ args)

theorem layout_place (arena : Arena) (shape : Shape) :
    (arena.place shape).2.layout = arena.layout.allocate shape := by
  have terms : (arena.place shape).2.layout.terms = arena.layout.terms ++ [shape] := by
    apply List.ext_getElem?
    intro index
    simp only [layout, List.getElem?_map, Array.getElem?_toList, getElem?_place,
      List.getElem?_append, List.length_map, Array.length_toList]
    rcases Nat.lt_trichotomy index arena.slots.size with low | rfl | high
    · simp [low, Nat.ne_of_lt low, size]
    · cases shape <;> simp [size, Shape.node, Node.shape]
    · have past : index - arena.slots.size ≠ 0 := by omega
      simp [size, Nat.ne_of_gt high, Nat.not_lt_of_gt high, past]
  rw [layout, Ledger.allocate, ← terms]
  rfl

theorem place_inside (shape : Shape) (inside : arena.contains id = true) :
    (arena.place shape).2.slots[id.index]? = arena.slots[id.index]?.map fun slot =>
      { slot with parents := List.replicate (shape.count id) ⟨arena.size⟩ ++ slot.parents } := by
  have low : id.index < arena.size := of_decide_eq_true inside
  rw [getElem?_place, if_neg (Nat.ne_of_lt low)]

theorem parents_place (shape : Shape) (inside : arena.contains id = true) :
    (arena.place shape).2.parents id =
      List.replicate (shape.count id) ⟨arena.size⟩ ++ arena.parents id := by
  have low : id.index < arena.slots.size := of_decide_eq_true inside
  simp [parents, place_inside shape inside, low]

theorem size_place (arena : Arena) (shape : Shape) : (arena.place shape).2.size = arena.size + 1 := by
  rw [← size_layout, layout_place, Ledger.size_allocate, size_layout]

theorem adds_place (arena : Arena) (shape : Shape) : (arena.place shape).2.Adds arena where
  size_le := by simp [size_place]
  node id inside := by
    rw [node, node, place_inside shape inside]
    cases arena.slots[id.index]? <;> rfl
  previous id inside := by
    rw [previous, previous, place_inside shape inside]
    cases arena.slots[id.index]? <;> rfl
  parents id inside := by
    refine ⟨_, parents_place shape inside, fun parent member => ?_⟩
    rw [List.eq_of_mem_replicate member]
    simp [contains]

structure Copied (before : Arena) (names : Renaming) (copies : List TermId) (after : Arena)
    (named : Renaming) : Prop where
  adds : after.Adds before
  touched : ∀ id, before.contains id = true → after.parents id ≠ before.parents id → Named names id
  named : ∀ id, Named named id → Named names id ∨ before.contains id = false
  copies : ∀ copy ∈ copies, Named names copy ∨ before.contains copy = false
  bare : ∀ id, before.contains id = false → after.node id = (after.node id).shape.node

variable {copies rest : List TermId}

theorem Copied.refl (arena : Arena) (names : Renaming) : Copied arena names [] arena names where
  adds := .refl arena
  touched _ _ changed := absurd rfl changed
  named _ known := .inl known
  copies := by simp
  bare id outside := by rw [node_outside outside]; rfl

theorem Copied.place (copied : Copied before names copies middle named)
    (args : ∀ id, shape.count id ≠ 0 → id ∈ copies) :
    Copied before names [⟨middle.size⟩] (middle.place shape).2 named where
  adds := (adds_place middle shape).trans copied.adds
  touched id inside changed := by
    by_cases arg : shape.count id = 0
    · rw [parents_place shape (copied.adds.contains inside), arg] at changed
      exact copied.touched id inside changed
    · exact (copied.copies id (args id arg)).resolve_right (by simp [inside])
  named := copied.named
  copies copy member := by
    rw [List.mem_singleton.mp member]
    exact .inr (copied.adds.outside (by simp [contains]))
  bare id outside := by
    by_cases inside : middle.contains id = true
    · rw [(adds_place middle shape).node id inside]
      exact copied.bare id outside
    · rw [node, getElem?_place, slot_outside (Bool.eq_false_iff.mpr inside)]
      by_cases here : id.index = middle.size
      · rw [if_pos here, Shape.shape_node]
      · rw [if_neg here]
        rfl

theorem Copied.name (copied : Copied before names copies after named)
    (new : before.contains id = false) : Copied before names copies after ((term, id) :: named) where
  adds := copied.adds
  touched := copied.touched
  named := by
    rintro other ⟨var, known⟩
    rw [List.lookup_cons] at known
    split at known
    · cases known
      exact .inr new
    · exact copied.named other ⟨var, known⟩
  copies := copied.copies
  bare := copied.bare

theorem Copied.known (arena : Arena) {copy : TermId} (name : names.lookup term = some copy) :
    Copied arena names [copy] arena names :=
  { Copied.refl arena names with copies := by simpa using .inl ⟨term, name⟩ }

theorem Copied.number (arena : Arena) (names : Renaming) (value : Rational) :
    Copied arena names [⟨arena.size⟩] (arena.place (.number value)).2 names :=
  (Copied.refl arena names).place (by simp [Shape.count])

theorem Copied.fresh (arena : Arena) (names : Renaming) (term : TermId) :
    Copied arena names [⟨arena.size⟩] (arena.place .var).2 ((term, ⟨arena.size⟩) :: names) :=
  ((Copied.refl arena names).place (by simp [Shape.count])).name (by simp [contains])

theorem Copied.append (first : Copied before names copies middle between)
    (second : Copied middle between rest after named) :
    Copied before names (copies ++ rest) after named where
  adds := second.adds.trans first.adds
  touched id inside changed := by
    by_cases same : middle.parents id = before.parents id
    · rw [← same] at changed
      exact (first.named id (second.touched id (first.adds.contains inside) changed)).resolve_right
        (by simp [inside])
    · exact first.touched id inside same
  named id known := (second.named id known).elim (first.named id) fun outside =>
    .inr (first.adds.outside outside)
  copies copy member := by
    rcases List.mem_append.mp member with early | late
    · exact first.copies copy early
    · exact (second.copies copy late).elim (first.named copy) fun outside =>
        .inr (first.adds.outside outside)
  bare id outside := by
    by_cases inside : middle.contains id = true
    · rw [second.adds.node id inside]
      exact first.bare id outside
    · exact second.bare id (Bool.eq_false_iff.mpr inside)

theorem copyAll_cons {copy : Arena → Renaming → TermId → Except Fault (TermId × Arena × Renaming)}
    {first : TermId} {terms : List TermId} (head : copy arena names term = .ok (first, middle, between))
    (tail : copyAll copy middle between terms = .ok (rest, after, named)) :
    copyAll copy arena names (term :: terms) = .ok (first :: rest, after, named) := by
  rw [copyAll, head]
  simp only [Bind.bind, Except.bind, tail]
  rfl

theorem copyAll_single {copy : Arena → Renaming → TermId → Except Fault (TermId × Arena × Renaming)}
    {first : TermId} (run : copyAll copy arena names [term] = .ok ([first], after, named)) :
    copy arena names term = .ok (first, after, named) := by
  rw [copyAll] at run
  cases head : copy arena names term with
  | error reason => simp [head, Bind.bind, Except.bind] at run
  | ok copied =>
    simp only [head, Bind.bind, Except.bind, copyAll] at run
    cases run
    rfl

variable {fuel : Nat}

theorem instantiateWithin_number {value : Rational}
    (known : arena.layout.shape? term = some (.number value)) :
    instantiateWithin (fuel + 1) arena names term =
      .ok (⟨arena.size⟩, (arena.place (.number value)).2, names) := by
  simp only [instantiateWithin, require, (shape_node known).1, node_number known, if_true, Bind.bind,
    Except.bind]
  rfl

theorem instantiateWithin_known {copy : TermId} (known : arena.layout.shape? term = some .var)
    (name : names.lookup term = some copy) :
    instantiateWithin (fuel + 1) arena names term = .ok (copy, arena, names) := by
  obtain ⟨cell, held⟩ := node_var known
  simp only [instantiateWithin, require, (shape_node known).1, held, name, if_true, Bind.bind, Except.bind]
  rfl

theorem instantiateWithin_fresh (known : arena.layout.shape? term = some .var)
    (unnamed : names.lookup term = none) :
    instantiateWithin (fuel + 1) arena names term =
      .ok (⟨arena.size⟩, (arena.place .var).2, (term, ⟨arena.size⟩) :: names) := by
  obtain ⟨cell, held⟩ := node_var known
  simp only [instantiateWithin, require, (shape_node known).1, held, unnamed, if_true, Bind.bind,
    Except.bind]
  rfl

theorem instantiateWithin_compound {symbol : Symbol} {args : List TermId}
    (known : arena.layout.shape? term = some (.compound symbol args))
    (run : copyAll (instantiateWithin fuel) arena names args = .ok (copies, middle, between))
    (inside : ∀ copy ∈ copies, middle.contains copy = true) :
    instantiateWithin (fuel + 1) arena names term =
      .ok (⟨middle.size⟩, (middle.place (.compound symbol copies)).2, between) := by
  obtain ⟨active, held⟩ := node_compound known
  simp only [instantiateWithin, require, (shape_node known).1, held, run, requireAll_ok inside,
    if_true, Bind.bind, Except.bind]
  rw [← place_fst middle (.compound symbol copies)]
  rfl

end Arena

namespace Ledger

theorem Instantiates.run {ledger later : Ledger} {names named : Renaming} {terms copies : List TermId}
    (copied : Instantiates ledger names terms copies later named) (wellFormed : ledger.WellFormed)
    {arena : Arena} (same : arena.layout = ledger) {fuel : Nat} (low : ∀ term ∈ terms, term.index < fuel) :
    ∃ after, Arena.copyAll (Arena.instantiateWithin fuel) arena names terms = .ok (copies, after, named) ∧
      after.layout = later ∧ Arena.Copied arena names copies after named := by
  -- The derivation fixes the terms. An arena with these terms takes the same steps, whatever is bound
  -- in it, and has fuel left for the arguments, which are older.
  induction copied generalizing arena fuel with
  | @done ledger names => exact ⟨arena, rfl, same, .refl arena names⟩
  | @number ledger later names named term value terms copies shape goesOn ih =>
    obtain ⟨fuel, rfl⟩ := Nat.exists_eq_add_one.mpr (Nat.zero_lt_of_lt (low term (by simp)))
    subst same
    have grown := allocate_allocates wellFormed (admits_number value)
    obtain ⟨after, run, laid, rest⟩ := ih grown.wellFormed (Arena.layout_place arena _)
      fun other member => low other (by simp [member])
    rw [Arena.size_layout]
    exact ⟨after, Arena.copyAll_cons (Arena.instantiateWithin_number shape) run, laid,
      (Arena.Copied.number arena names value).append rest⟩
  | @known ledger later names named term copy terms copies shape name goesOn ih =>
    obtain ⟨fuel, rfl⟩ := Nat.exists_eq_add_one.mpr (Nat.zero_lt_of_lt (low term (by simp)))
    subst same
    obtain ⟨after, run, laid, rest⟩ := ih wellFormed rfl fun other member => low other (by simp [member])
    exact ⟨after, Arena.copyAll_cons (Arena.instantiateWithin_known shape name) run, laid,
      (Arena.Copied.known arena name).append rest⟩
  | @fresh ledger later names named term terms copies shape unnamed goesOn ih =>
    obtain ⟨fuel, rfl⟩ := Nat.exists_eq_add_one.mpr (Nat.zero_lt_of_lt (low term (by simp)))
    subst same
    have grown := allocate_allocates wellFormed admits_var
    obtain ⟨after, run, laid, rest⟩ := ih grown.wellFormed (Arena.layout_place arena .var)
      fun other member => low other (by simp [member])
    rw [Arena.size_layout] at run rest ⊢
    exact ⟨after, Arena.copyAll_cons (Arena.instantiateWithin_fresh shape unnamed) run, laid,
      (Arena.Copied.fresh arena names term).append rest⟩
  | @compound ledger middle later names between named term symbol args argCopies terms copies shape
      inside live goesOn insideIh ih =>
    obtain ⟨fuel, rfl⟩ := Nat.exists_eq_add_one.mpr (Nat.zero_lt_of_lt (low term (by simp)))
    have before := inside.grows wellFormed
    have grown := allocate_allocates before.wellFormed (@admits_compound _ symbol _ live)
    obtain ⟨made, argsRun, rfl, args⟩ := insideIh wellFormed same fun arg member =>
      Nat.lt_of_lt_of_le (wellFormed.args_older shape arg member)
        (Nat.le_of_lt_succ (low term (by simp)))
    subst same
    obtain ⟨after, run, laid, rest⟩ := ih grown.wellFormed (Arena.layout_place made _)
      fun other member => low other (by simp [member])
    have placed : Arena.Copied arena names [⟨made.size⟩]
        (made.place (.compound symbol argCopies)).2 between :=
      args.place fun id counted => by simpa [Shape.count, List.count_eq_zero] using counted
    have copiesInside : ∀ copy ∈ argCopies, made.contains copy = true :=
      fun copy member => Arena.live_layout.mp (live copy member)
    rw [Arena.size_layout]
    exact ⟨after, Arena.copyAll_cons (Arena.instantiateWithin_compound shape argsRun copiesInside) run,
      laid, placed.append rest⟩

end Ledger

structure Arena.Instance (before : Arena) (names : Renaming) (term copy : TermId) (after : Arena)
    (added : Renaming) : Prop where
  inside : after.contains copy = true
  copies : after.layout.Copies (added ++ names) before.size term copy
  kept : ∀ var name, names.lookup var = some name → (added ++ names).lookup var = some name
  needed : ∀ entry ∈ added, names.lookup entry.1 = none ∧ before.layout.Occurs entry.1 term
  once : (added.map Prod.fst).Nodup
  fresh : ∀ entry ∈ added, before.contains entry.2 = false ∧ after.contains entry.2 = true ∧
    after.node entry.2 = .var {}
  apart : (added.map Prod.snd).Nodup
  adds : after.Adds before
  touched : ∀ id, before.contains id = true → after.parents id ≠ before.parents id →
    ∃ var, names.lookup var = some id
  founded : after.Founded
  renames : after.Renames (added ++ names)

namespace Arena

variable {before after : Arena} {names named added : Renaming} {id term copy : TermId}

theorem Copied.new_var {copies : List TermId} (copied : Copied before names copies after named)
    (new : before.contains id = false) (isVar : after.layout.shape? id = some .var) :
    after.contains id = true ∧ after.node id = .var {} := by
  obtain ⟨inside, shape⟩ := shape_node isVar
  refine ⟨inside, ?_⟩
  rw [copied.bare id new, shape]
  rfl

theorem Renames.append (renames : before.Renames names) (adds : after.Adds before)
    (fresh : ∀ entry ∈ added, after.contains entry.2 = true ∧ after.node entry.2 = .var {}) :
    after.Renames (added ++ names) := by
  intro entry member
  rcases List.mem_append.mp member with new | old
  · obtain ⟨inside, isVar⟩ := fresh entry new
    exact ⟨inside, by rw [var?, isVar]; rfl⟩
  · obtain ⟨inside, isVar⟩ := renames entry old
    exact ⟨adds.contains inside, by rwa [var?, adds.node _ inside]⟩

/-- What a copy does to the terms and what it does to the rest of the arena, put together. -/
theorem Copied.isInstance (copied : Copied before names [copy] after named) (founded : before.Founded)
    (renames : before.Renames names) (inside : before.contains term = true)
    (made : Ledger.Instantiates before.layout names [term] [copy] after.layout named) :
    ∃ added, named = added ++ names ∧ before.Instance names term copy after added := by
  have wellFormed := founded.wellFormed
  obtain ⟨added, rfl, held⟩ := made.added wellFormed (by simpa using live_layout.mpr inside)
  obtain ⟨-, tree⟩ := made.copies wellFormed
  obtain ⟨-, reached⟩ := made.live wellFormed fun entry member =>
    live_layout.mpr (renames entry member).1
  have fresh : ∀ entry ∈ added, before.contains entry.2 = false ∧ after.contains entry.2 = true ∧
      after.node entry.2 = .var {} := by
    intro entry member
    have past := held.new entry member
    rw [size_layout] at past
    have new : before.contains entry.2 = false := decide_eq_false (Nat.not_lt_of_le past)
    exact ⟨new, copied.new_var new (held.isVar entry member)⟩
  exact ⟨added, rfl,
    { inside := live_layout.mp (reached copy (by simp))
      copies := by simpa [size_layout] using tree
      kept := fun _ _ => made.kept
      needed := fun entry member =>
        ⟨held.unnamed entry member, by simpa using held.occurs entry member⟩
      once := held.once
      fresh := fresh
      apart := held.apart
      adds := copied.adds
      touched := copied.touched
      founded := founded_of_layout (made.grows wellFormed).wellFormed
      renames := renames.append copied.adds fun entry member => (fresh entry member).2 }⟩

end Arena

/-- Any term is copied, whatever its variables are bound to. The numbers and compounds of the copy
    are new. Each variable gives way to its name, or to a new variable of its own if it has none.
    Nothing is done to older terms, but that names get new parents, and were other variables bound,
    the copy would be the same. -/
theorem instantiate_faithful {arena : Arena} {names : Renaming} {term : TermId}
    (founded : arena.Founded) (renames : arena.Renames names) (inside : arena.contains term = true) :
    ∃ copy after added, arena.instantiate names term = .ok (copy, after, added ++ names) ∧
      arena.Instance names term copy after added ∧
      ∀ other : Arena, other.layout = arena.layout →
        ∃ last, other.instantiate names term = .ok (copy, last, added ++ names) ∧
          last.layout = after.layout := by
  have wellFormed := founded.wellFormed
  have live : arena.layout.Live term := Arena.live_layout.mpr inside
  have namesLive : arena.layout.NamesLive names := fun entry member =>
    Arena.live_layout.mpr (renames entry member).1
  rcases Ledger.instantiate_arena wellFormed live names with
    ⟨copy, later, named, -, made⟩ | ⟨-, dead⟩
  · -- Copying reads the terms alone, so any arena with these terms will do.
    have runs (other : Arena) (same : other.layout = arena.layout) :
        ∃ last, other.instantiate names term = .ok (copy, last, named) ∧ last.layout = later ∧
          Arena.Copied other names [copy] last named := by
      have low : ∀ id ∈ [term], id.index < other.size + 1 := by
        rw [← Arena.size_layout, same]
        simpa using Nat.lt_succ_of_lt live
      obtain ⟨last, run, laid, copied⟩ := made.run wellFormed same low
      exact ⟨last, Arena.copyAll_single run, laid, copied⟩
    obtain ⟨after, run, rfl, copied⟩ := runs arena rfl
    obtain ⟨added, rfl, isInstance⟩ := copied.isInstance founded renames inside made
    refine ⟨copy, after, added, run, isInstance, fun other same => ?_⟩
    obtain ⟨last, ran, laid, -⟩ := runs other same
    exact ⟨last, ran, laid⟩
  · exact absurd namesLive dead

namespace Renamed

def terms : List Shape :=
  [.var, .var, .var, .number (.valid 1), .compound (.user 0) [⟨1⟩],
    .compound (.user 1) [⟨0⟩, ⟨4⟩, ⟨3⟩], .compound (.user 2) [⟨0⟩, ⟨2⟩]]

def unbound : Arena := (Arena.build? {} terms).getD {}

def bound : Arena := unbound.bind ⟨0⟩ ⟨3⟩

def headed : Arena := ((bound.instantiate [] ⟨5⟩).toOption.map fun copied => copied.2.1).getD {}

/-- A head and then a body are copied. The bound variable gets a name like any other, and the body
    shares it. -/
theorem clause_copied : bound.Founded ∧ bound.binding? ⟨0⟩ = some ⟨3⟩ ∧
    bound.Instance [] ⟨5⟩ ⟨11⟩ headed [(⟨1⟩, ⟨8⟩), (⟨0⟩, ⟨7⟩)] ∧
    (∃ last, unbound.instantiate [] ⟨5⟩ = .ok (⟨11⟩, last, [(⟨1⟩, ⟨8⟩), (⟨0⟩, ⟨7⟩)])) ∧
    ∃ after, headed.Instance [(⟨1⟩, ⟨8⟩), (⟨0⟩, ⟨7⟩)] ⟨6⟩ ⟨13⟩ after [(⟨2⟩, ⟨12⟩)] := by
  have founded : bound.Founded := by decide +kernel
  have head : bound.instantiate [] ⟨5⟩ = .ok (⟨11⟩, headed, [(⟨1⟩, ⟨8⟩), (⟨0⟩, ⟨7⟩)]) := by
    decide +kernel
  obtain ⟨copy, after, added, run, copied, others⟩ :=
    @instantiate_faithful bound [] ⟨5⟩ founded (by simp [Arena.Renames]) (by decide +kernel)
  rw [List.append_nil] at run others
  cases head.symm.trans run
  obtain ⟨last, same, -⟩ := others unbound rfl
  have body : (headed.instantiate [(⟨1⟩, ⟨8⟩), (⟨0⟩, ⟨7⟩)] ⟨6⟩).toOption.map
      (fun copied => (copied.1, copied.2.2)) =
        some (⟨13⟩, [(⟨2⟩, ⟨12⟩), (⟨1⟩, ⟨8⟩), (⟨0⟩, ⟨7⟩)]) := by
    decide +kernel
  obtain ⟨copyToo, after, more, ran, copiedToo, -⟩ :=
    @instantiate_faithful headed [(⟨1⟩, ⟨8⟩), (⟨0⟩, ⟨7⟩)] ⟨6⟩ copied.founded copied.renames
      (by decide +kernel)
  simp only [ran, Except.toOption, Option.map_some, Option.some.injEq, Prod.mk.injEq] at body
  obtain ⟨rfl, names⟩ := body
  obtain rfl : more = [(⟨2⟩, ⟨12⟩)] := List.append_cancel_right names
  exact ⟨founded, by decide +kernel, copied, ⟨last, same⟩, after, copiedToo⟩

end Renamed

end Resolvent
