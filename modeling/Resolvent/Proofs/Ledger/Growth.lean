import Mathlib.Logic.Function.Iterate
import Resolvent.Proofs.Ledger.Basic

namespace Resolvent

namespace Ledger

def allocate (ledger : Ledger) (shape : Shape) : Ledger :=
  { ledger with terms := ledger.terms ++ [shape] }

def bind (ledger : Ledger) (var target : TermId) : Ledger :=
  { ledger with bindings := ledger.bindings ++ [(var, target)] }

def delay (ledger : Ledger) (var : TermId) : Ledger :=
  { ledger with delayed := ledger.delayed ++ [var] }

def register (ledger : Ledger) (goal : TermId) (choice : Option Choice) : Ledger :=
  { ledger with calls := ledger.calls ++ [goal], path := ledger.path ++ choice.toList }

def post (ledger : Ledger) (posting : Posting) : Ledger :=
  { ledger with postings := ledger.postings ++ [posting] }

def discard (ledger : Ledger) (id : ConstraintId) : Ledger :=
  { ledger with discards := ledger.discards ++ [id] }

theorem allocate_extends (ledger : Ledger) (shape : Shape) :
    (ledger.allocate shape).Extends ledger := by
  constructor <;> simp [allocate]

theorem bind_extends (ledger : Ledger) (var target : TermId) :
    (ledger.bind var target).Extends ledger := by
  constructor <;> simp [bind]

theorem delay_extends (ledger : Ledger) (var : TermId) : (ledger.delay var).Extends ledger := by
  constructor <;> simp [delay]

theorem register_extends (ledger : Ledger) (goal : TermId) (choice : Option Choice) :
    (ledger.register goal choice).Extends ledger := by
  constructor <;> simp [register]

theorem post_extends (ledger : Ledger) (posting : Posting) :
    (ledger.post posting).Extends ledger := by
  constructor <;> simp [post]

theorem discard_extends (ledger : Ledger) (id : ConstraintId) :
    (ledger.discard id).Extends ledger := by
  constructor <;> simp [discard]

variable {ledger : Ledger}

theorem shape?_size (ledger : Ledger) : ledger.shape? ⟨ledger.size⟩ = none := by
  simp [shape?, size]

theorem lookup_eq_none {entries : List (TermId × TermId)} {id : TermId}
    (absent : ∀ entry ∈ entries, entry.1 ≠ id) : entries.lookup id = none := by
  rw [List.lookup_eq_none_iff]
  intro entry member
  simpa using Ne.symm (absent entry member)

theorem Consistent.binding?_free (consistent : ledger.Consistent) {id : TermId}
    (free : ledger.shape? id = none) : ledger.binding? id = none := by
  apply lookup_eq_none
  intro binding member same
  have bound := consistent.bound_var binding member
  rw [same, free] at bound
  contradiction

theorem not_live_of_free {id : TermId} (free : ledger.shape? id = none) : ¬ ledger.Live id := by
  intro live
  obtain ⟨shape, known⟩ := live.shape
  rw [free] at known
  contradiction

theorem Consistent.watchers_free (consistent : ledger.Consistent) {id : TermId}
    (free : ledger.shape? id = none) : ledger.watchers id = [] := by
  simp only [watchers, List.reverse_eq_nil_iff, List.map_eq_nil_iff, List.filter_eq_nil_iff]
  rintro ⟨posting, index⟩ member taken
  have listed := List.mem_zipIdx' member
  have known := consistent.posting_var posting (listed.2 ▸ List.getElem_mem _) id (by simpa using taken)
  rw [free] at known
  contradiction

theorem Consistent.previous_free (consistent : ledger.Consistent) {id : TermId}
    (free : ledger.shape? id = none) : ledger.previous id = [] := by
  simp only [previous, List.reverse_eq_nil_iff, List.map_eq_nil_iff, List.filter_eq_nil_iff]
  intro binding member same
  have live := consistent.target_live binding member
  rw [beq_iff_eq.mp same] at live
  exact not_live_of_free free live

theorem Consistent.parents_free (consistent : ledger.Consistent) {id : TermId}
    (free : ledger.shape? id = none) : ledger.parents id = [] := by
  simp only [parents, List.reverse_eq_nil_iff, List.flatMap_eq_nil_iff, List.replicate_eq_nil_iff]
  rintro ⟨shape, index⟩ member
  obtain ⟨low, same⟩ := List.mem_zipIdx' member
  cases shape with
  | number | var => rfl
  | compound symbol args =>
    apply List.count_eq_zero.mpr
    intro arg
    have known : ledger.shape? ⟨index⟩ = some (.compound symbol args) := by
      rw [shape?, List.getElem?_eq_getElem low, ← same]
    have older := consistent.args_older known id arg
    exact not_live_of_free free (Nat.lt_trans older low)

theorem Consistent.slot_free (consistent : ledger.Consistent) (shape : Shape) {id : TermId}
    (free : ledger.shape? id = none) :
    ledger.slot id shape =
      { node := match shape with
          | .number value => .number value
          | .var => .var {}
          | .compound symbol args => .compound { symbol, args } } := by
  have quiet : id ∉ ledger.delayed := by
    intro member
    have known := consistent.delayed_var id member
    rw [free] at known
    contradiction
  have idle : id ∉ ledger.calls := by
    intro member
    obtain ⟨symbol, args, known⟩ := consistent.calls_compound id member
    rw [free] at known
    contradiction
  cases shape <;>
    simp [slot, node, consistent.previous_free free, consistent.parents_free free, quiet, idle,
      consistent.binding?_free free, consistent.watchers_free free]

theorem parents_allocate (ledger : Ledger) (shape : Shape) (id : TermId) :
    (ledger.allocate shape).parents id =
      List.replicate (shape.count id) ⟨ledger.size⟩ ++ ledger.parents id := by
  simp [parents, allocate, List.zipIdx_append, size]

theorem slot_allocate (ledger : Ledger) (shape old : Shape) (id : TermId) :
    (ledger.allocate shape).slot id old =
      { ledger.slot id old with
        parents := List.replicate (shape.count id) ⟨ledger.size⟩ ++ ledger.parents id } := by
  rw [slot, parents_allocate]
  cases old <;> rfl

end Ledger

def Slot.editVariable (change : Variable → Variable) (slot : Slot) : Slot :=
  match slot.node with
  | .var cell => { slot with node := .var (change cell) }
  | _ => slot

def Slot.mark (active : Bool) (slot : Slot) : Slot :=
  match slot.node with
  | .compound cell => { slot with node := .compound { cell with active } }
  | _ => slot

namespace Arena

theorem modifyVariable_eq (arena : Arena) (id : TermId) (change : Variable → Variable) :
    arena.modifyVariable id change = arena.modify id (Slot.editVariable change) := rfl

theorem getElem?_modify (arena : Arena) (id : TermId) (change : Slot → Slot) (index : Nat) :
    (arena.modify id change).slots[index]? =
      if id.index = index then arena.slots[index]?.map change else arena.slots[index]? := by
  simp [modify, Array.getElem?_modify]

theorem size_modifyAll (arena : Arena) (change : Slot → Slot) (ids : List TermId) :
    (ids.foldl (fun arena id => arena.modify id change) arena).size = arena.size := by
  induction ids generalizing arena with
  | nil => rfl
  | cons id ids ih => rw [List.foldl_cons, ih]; simp [modify, size]

theorem getElem?_modifyAll (arena : Arena) (change : Slot → Slot) (ids : List TermId)
    (index : Nat) :
    (ids.foldl (fun arena id => arena.modify id change) arena).slots[index]? =
      arena.slots[index]?.map change^[ids.count ⟨index⟩] := by
  induction ids generalizing arena with
  | nil => simp
  | cons id ids ih =>
    rw [List.foldl_cons, ih, getElem?_modify, List.count_cons]
    by_cases same : id.index = index
    · have equal : id = ⟨index⟩ := by cases id; simp_all
      subst equal
      simp [Option.map_map, Function.iterate_succ]
    · have different : id ≠ ⟨index⟩ := by rintro rfl; exact same rfl
      simp [same, different]

theorem size_addParents (arena : Arena) (parent : TermId) (args : List TermId) :
    (args.foldl (addParent parent) arena).size = arena.size := size_modifyAll arena _ args

theorem getElem?_addParents (arena : Arena) (parent : TermId) (args : List TermId) (index : Nat) :
    (args.foldl (addParent parent) arena).slots[index]? =
      arena.slots[index]?.map fun slot =>
        { slot with parents := List.replicate (args.count ⟨index⟩) parent ++ slot.parents } := by
  refine (getElem?_modifyAll arena _ args index).trans (congrArg (Option.map · _) ?_)
  funext slot
  generalize args.count ⟨index⟩ = count
  induction count with
  | zero => rfl
  | succ count ih => rw [Function.iterate_succ_apply', ih]; rfl

theorem getElem?_removeParents (arena : Arena) (parent : TermId) (args : List TermId)
    (index : Nat) :
    (args.foldl (removeParent parent) arena).slots[index]? =
      arena.slots[index]?.map fun slot =>
        { slot with parents := (List.erase · parent)^[args.count ⟨index⟩] slot.parents } := by
  refine (getElem?_modifyAll arena _ args index).trans (congrArg (Option.map · _) ?_)
  funext slot
  generalize args.count ⟨index⟩ = count
  induction count with
  | zero => rfl
  | succ count ih => rw [Function.iterate_succ_apply', ih, Function.iterate_succ_apply']

theorem iterate_erase_replicate (count : Nat) (parent : TermId) (rest : List TermId) :
    (List.erase · parent)^[count] (List.replicate count parent ++ rest) = rest := by
  induction count with
  | zero => rfl
  | succ count ih => simpa [List.replicate_succ, Function.iterate_succ] using ih

theorem getElem?_editAll (change : Variable → Variable) (occurrences : Occurrences)
    (arena : Arena) (once : (occurrences.map Prod.fst).Nodup) (index : Nat) :
    (occurrences.foldl (fun arena occurrence => arena.modifyVariable occurrence.1 change)
        arena).slots[index]? =
      if (⟨index⟩ : TermId) ∈ occurrences.map Prod.fst then
        arena.slots[index]?.map (Slot.editVariable change)
      else arena.slots[index]? := by
  have each := getElem?_modifyAll arena (Slot.editVariable change) (occurrences.map Prod.fst) index
  rw [List.foldl_map, once.count] at each
  refine each.trans ?_
  split <;> simp

end Arena

def Arena.place (arena : Arena) : Shape → TermId × Arena
  | .number value => arena.number value
  | .var => arena.fresh
  | .compound symbol args => arena.compound symbol args

namespace Ledger

variable {ledger : Ledger}

def Admits (ledger : Ledger) (shape : Shape) : Prop :=
  ∀ symbol args, shape = .compound symbol args → ∀ arg ∈ args, ledger.Live arg

theorem Admits.count_eq_zero {shape : Shape} (admits : ledger.Admits shape) {id : TermId}
    (free : ¬ ledger.Live id) : shape.count id = 0 := by
  cases shape with
  | number | var => rfl
  | compound symbol args =>
    exact List.count_eq_zero.mpr fun member => free (admits symbol args rfl id member)

theorem slots_allocate {shape : Shape} (admits : ledger.Admits shape) (index : Nat) :
    (ledger.allocate shape).arena.slots[index]? =
      if index = ledger.size then some (ledger.slot ⟨index⟩ shape)
      else ledger.arena.slots[index]?.map fun slot =>
        { slot with
          parents := List.replicate (shape.count ⟨index⟩) ⟨ledger.size⟩ ++ slot.parents } := by
  simp only [getElem?_arena]
  rcases Nat.lt_trichotomy index ledger.size with low | rfl | high
  · have below : index < ledger.terms.length := low
    have old : (ledger.allocate shape).terms[index]? = ledger.terms[index]? := by
      simp [allocate, List.getElem?_append, below]
    simp only [old, Nat.ne_of_lt low, if_false, List.getElem?_eq_getElem below, Option.map_some]
    exact congrArg some (slot_allocate ledger shape _ ⟨index⟩)
  · have empty : shape.count ⟨ledger.size⟩ = 0 :=
      admits.count_eq_zero (not_live_of_free (shape?_size ledger))
    have new : (ledger.allocate shape).terms[ledger.size]? = some shape := by
      simp [allocate, size]
    rw [new, if_pos rfl, Option.map_some, slot_allocate, empty]
    rfl
  · have beyond : ledger.terms[index]? = none := List.getElem?_eq_none (Nat.le_of_lt high)
    have past : (ledger.allocate shape).terms[index]? = none := by
      apply List.getElem?_eq_none
      simpa [allocate, size] using Nat.succ_le_of_lt high
    rw [beyond, past, if_neg (Nat.ne_of_gt high)]
    rfl

theorem arena_place (consistent : ledger.Consistent) {shape : Shape}
    (admits : ledger.Admits shape) :
    ledger.arena.place shape = (⟨ledger.size⟩, (ledger.allocate shape).arena) := by
  have bare := consistent.slot_free shape (shape?_size ledger)
  have past : ledger.arena.slots.size = ledger.size := size_arena ledger
  cases shape with
  | number | var =>
    simp only [Arena.place, Arena.number, Arena.fresh, Arena.push, size_arena]
    congr 1
    apply Arena.ext_slots
    intro index
    rw [slots_allocate admits, Array.getElem?_push, past]
    split
    · next same => rw [same, bare]
    · simp [Shape.count]
  | compound symbol args =>
    have kept : (args.foldl (Arena.addParent ⟨ledger.size⟩) ledger.arena).size = ledger.size := by
      rw [Arena.size_addParents, size_arena]
    simp only [Arena.place, Arena.compound, Arena.push, size_arena, kept]
    congr 1
    apply Arena.ext_slots
    intro index
    rw [slots_allocate admits, Array.getElem?_push, show Array.size _ = _ from kept]
    split
    · next same => rw [same, bare]
    · rw [Arena.getElem?_addParents]
      rfl

theorem arena_pop {shape : Shape} (admits : ledger.Admits shape) :
    (ledger.allocate shape).arena.pop = ledger.arena := by
  have top : (ledger.allocate shape).shape? ⟨ledger.size⟩ = some shape := by
    simp [shape?, allocate, size]
  have tall : (ledger.allocate shape).arena.size - 1 = ledger.size := by
    simp [size, allocate]
  have popped (index : Nat) (slot : Slot) :
      ({ slot with
        parents := (List.erase · ⟨ledger.size⟩)^[shape.count ⟨index⟩]
          (List.replicate (shape.count ⟨index⟩) ⟨ledger.size⟩ ++ slot.parents) } : Slot) = slot := by
    rw [Arena.iterate_erase_replicate]
  have below (index : Nat) : (ledger.allocate shape).arena.slots.pop[index]? =
      ledger.arena.slots[index]?.map fun slot =>
        { slot with
          parents := List.replicate (shape.count ⟨index⟩) ⟨ledger.size⟩ ++ slot.parents } := by
    have last : (ledger.allocate shape).arena.slots.size - 1 = ledger.size := tall
    rw [Array.getElem?_pop, last, slots_allocate admits]
    by_cases low : index < ledger.size
    · rw [if_pos low, if_neg (Nat.ne_of_lt low)]
    · rw [if_neg low, getElem?_arena, List.getElem?_eq_none (Nat.le_of_not_lt low)]
      rfl
  apply Arena.ext_slots
  intro index
  rw [Arena.pop, tall, node_arena, top]
  cases shape with
  | number value | var =>
    simpa [node, Shape.count] using below index
  | compound symbol args =>
    simp only [Option.map_some, Option.getD_some, node]
    rw [Arena.getElem?_removeParents, below, Option.map_map]
    cases ledger.arena.slots[index]? with
    | none => rfl
    | some slot => exact congrArg some (popped index slot)

theorem binding?_bind (ledger : Ledger) (var target id : TermId) :
    (ledger.bind var target).binding? id =
      (ledger.binding? id).or (if id = var then some target else none) := by
  simp only [binding?, bind, List.lookup_append]
  congr 1
  by_cases same : id = var
  · simp [same]
  · have apart : (id == var) = false := by simpa using same
    simp [List.lookup_cons, same, apart]

theorem previous_bind (ledger : Ledger) (var target id : TermId) :
    (ledger.bind var target).previous id =
      if target = id then var :: ledger.previous id else ledger.previous id := by
  by_cases same : target = id <;> simp [previous, bind, List.filter_append, same]

theorem slot_bind (ledger : Ledger) (var target id : TermId) (shape : Shape) :
    (ledger.bind var target).slot id shape =
      { Slot.editVariable
          (fun cell => { cell with binding := (ledger.bind var target).binding? id })
          (ledger.slot id shape) with
        previous := (ledger.bind var target).previous id } := by
  cases shape <;> rfl

theorem arena_bind {var target : TermId} (known : ledger.shape? var = some .var)
    (unbound : ledger.binding? var = none) :
    ledger.arena.bind var target = (ledger.bind var target).arena := by
  have cell : ledger.arena.var? var = some
      { binding := none, delayed := decide (var ∈ ledger.delayed),
        constraints := ledger.watchers var } := by
    simp [Arena.var?, node_arena, known, node, unbound]
  rw [Arena.bind, cell, Arena.modifyVariable_eq]
  apply Arena.ext_slots
  intro index
  rw [Arena.getElem?_modify, Arena.getElem?_modify, getElem?_arena, getElem?_arena]
  rw [show (ledger.bind var target).terms = ledger.terms from rfl]
  have reaches : target = ⟨index⟩ ↔ target.index = index := by
    cases target
    simp
  cases held : ledger.terms[index]? with
  | none => simp
  | some shape =>
    have place : ledger.shape? ⟨index⟩ = some shape := held
    simp only [Option.map_some, slot_bind, previous_bind, binding?_bind, reaches]
    by_cases bound : var.index = index
    · have equal : var = ⟨index⟩ := by cases var; simp_all
      subst equal
      have isVar : shape = .var := Option.some.inj (place.symm.trans known)
      subst isVar
      by_cases reached : target.index = index <;>
        simp [reached, unbound, Slot.editVariable, slot, node]
    · have other : (⟨index⟩ : TermId) ≠ var := by rintro rfl; exact bound rfl
      have same : Slot.editVariable (fun cell => { cell with binding := ledger.binding? ⟨index⟩ })
          (ledger.slot ⟨index⟩ shape) = ledger.slot ⟨index⟩ shape := by
        cases shape <;> rfl
      by_cases reached : target.index = index <;> simp [reached, bound, other, same] <;> rfl

theorem arena_unbind {var target : TermId} (known : ledger.shape? var = some .var)
    (unbound : ledger.binding? var = none) :
    (ledger.bind var target).arena.unbind var = ledger.arena := by
  have bound : (ledger.bind var target).arena.binding? var = some target := by
    have kept : (ledger.bind var target).shape? var = some .var := known
    simp [Arena.binding?, node_arena, kept, node, binding?_bind, unbound]
  rw [Arena.unbind, bound, ← arena_bind known unbound]
  have cell : ledger.arena.var? var = some
      { binding := none, delayed := decide (var ∈ ledger.delayed),
        constraints := ledger.watchers var } := by
    simp [Arena.var?, node_arena, known, node, unbound]
  rw [Arena.bind, cell]
  simp only [Arena.modifyVariable_eq]
  apply Arena.ext_slots
  intro index
  simp only [Arena.getElem?_modify]
  cases held : ledger.arena.slots[index]? with
  | none => simp
  | some slot =>
    by_cases same : var.index = index
    · have equal : var = ⟨index⟩ := by cases var; simp_all
      subst equal
      have slotted : slot = ledger.slot ⟨index⟩ .var := by
        have place : ledger.terms[index]? = some .var := known
        rw [getElem?_arena, place] at held
        exact (Option.some.inj held).symm
      subst slotted
      by_cases reached : target.index = index <;>
        simp [reached, Slot.editVariable, Ledger.slot, node, unbound]
    · by_cases reached : target.index = index <;> simp [reached, same]

/-- Two ledgers of the same terms that differ in what they say of one place. -/
theorem arena_modify {after : Ledger} {id : TermId} {change : Slot → Slot}
    (terms : after.terms = ledger.terms)
    (there : ∀ shape, change (ledger.slot id shape) = after.slot id shape)
    (elsewhere : ∀ other, other ≠ id → ∀ shape, ledger.slot other shape = after.slot other shape) :
    ledger.arena.modify id change = after.arena := by
  apply Arena.ext_slots
  intro index
  rw [Arena.getElem?_modify, getElem?_arena, getElem?_arena, terms]
  cases ledger.terms[index]? with
  | none => simp
  | some shape =>
    by_cases same : id.index = index
    · subst same
      simpa using there shape
    · rw [if_neg same, Option.map_some, Option.map_some]
      exact congrArg some (elsewhere ⟨index⟩ (by rintro rfl; exact same rfl) shape)

theorem slot_delay (ledger : Ledger) (var id : TermId) (shape : Shape) :
    (ledger.delay var).slot id shape =
      Slot.editVariable (fun cell => { cell with delayed := decide (id ∈ ledger.delayed ∨ id = var) })
        (ledger.slot id shape) := by
  cases shape with
  | number value | compound symbol args => rfl
  | var => simp [slot, node, delay, Slot.editVariable, previous, parents, binding?, watchers]

theorem arena_delay (ledger : Ledger) (var : TermId) :
    ledger.arena.setDelayed var true = (ledger.delay var).arena := by
  refine arena_modify ?_ ?_ ?_
  · rfl
  · intro shape
    simp only [slot_delay, or_true, decide_true]
    rfl
  · intro other apart shape
    rw [slot_delay]
    cases shape <;> simp [Slot.editVariable, slot, node, apart]

theorem arena_undelay {var : TermId} (fresh : var ∉ ledger.delayed) :
    (ledger.delay var).arena.setDelayed var false = ledger.arena := by
  refine arena_modify ?_ ?_ ?_
  · rfl
  · intro shape
    rw [slot_delay]
    cases shape <;> simp [Slot.editVariable, slot, node, fresh]
  · intro other apart shape
    rw [slot_delay]
    cases shape <;> simp [Slot.editVariable, slot, node, apart]

theorem slot_register (ledger : Ledger) (goal id : TermId) (choice : Option Choice) (shape : Shape) :
    (ledger.register goal choice).slot id shape =
      Slot.mark (decide (id ∈ ledger.calls ∨ id = goal)) (ledger.slot id shape) := by
  cases shape with
  | number value | var => rfl
  | compound symbol args => simp [slot, node, register, Slot.mark, previous, parents]

theorem arena_register (ledger : Ledger) (goal : TermId) (choice : Option Choice) :
    ledger.arena.setActive goal true = (ledger.register goal choice).arena := by
  refine arena_modify ?_ ?_ ?_
  · rfl
  · intro shape
    simp only [slot_register, or_true, decide_true]
    rfl
  · intro other apart shape
    rw [slot_register]
    cases shape <;> simp [Slot.mark, slot, node, apart]

theorem arena_return {goal : TermId} (choice : Option Choice) (idle : goal ∉ ledger.calls) :
    (ledger.register goal choice).arena.setActive goal false = ledger.arena := by
  refine arena_modify ?_ ?_ ?_
  · rfl
  · intro shape
    rw [slot_register]
    cases shape <;> simp [Slot.mark, slot, node, idle]
  · intro other apart shape
    rw [slot_register]
    cases shape <;> simp [Slot.mark, slot, node, apart]

theorem watchers_post (ledger : Ledger) (posting : Posting) (id : TermId) :
    (ledger.post posting).watchers id =
      if id ∈ posting.vars then ⟨ledger.postings.length⟩ :: ledger.watchers id
      else ledger.watchers id := by
  by_cases watched : id ∈ posting.vars <;>
    simp [watchers, post, List.zipIdx_append, List.filter_append, watched]

theorem slot_post (ledger : Ledger) (posting : Posting) (id : TermId) (shape : Shape) :
    (ledger.post posting).slot id shape =
      Slot.editVariable (fun cell => { cell with constraints := (ledger.post posting).watchers id })
        (ledger.slot id shape) := by
  cases shape <;> rfl

/-- A change to the variables of a constraint leads from one arena to another where it does so for
    the slot of each of them. -/
theorem arena_editAll {before after : Ledger} {posting : Posting} (change : Variable → Variable)
    (once : posting.vars.Nodup) (terms : before.terms = after.terms)
    (watched : ∀ var ∈ posting.vars, ∀ shape,
      Slot.editVariable change (before.slot var shape) = after.slot var shape)
    (others : ∀ id, id ∉ posting.vars → ∀ shape, before.slot id shape = after.slot id shape) :
    posting.occurrences.foldl (fun arena occurrence => arena.modifyVariable occurrence.1 change)
      before.arena = after.arena := by
  apply Arena.ext_slots
  intro index
  rw [Arena.getElem?_editAll change _ _ once, getElem?_arena, getElem?_arena, terms]
  cases after.terms[index]? with
  | none => simp
  | some shape =>
    split
    · next member => exact congrArg some (watched _ member shape)
    · next missing => exact congrArg some (others _ missing shape)

theorem arena_post {posting : Posting} (once : posting.vars.Nodup) :
    posting.occurrences.foldl (Arena.attach ⟨ledger.postings.length⟩) ledger.arena =
      (ledger.post posting).arena := by
  refine arena_editAll
    (fun cell => { cell with constraints := ⟨ledger.postings.length⟩ :: cell.constraints }) once rfl
    (fun var member shape => ?_) fun id missing shape => ?_
  · rw [slot_post, watchers_post, if_pos member]
    cases shape <;> rfl
  · rw [slot_post, watchers_post, if_neg missing]
    cases shape <;> rfl

theorem arena_unpost {posting : Posting} (once : posting.vars.Nodup) :
    posting.occurrences.foldl (Arena.detach ⟨ledger.postings.length⟩) (ledger.post posting).arena =
      ledger.arena := by
  refine arena_editAll
    (fun cell => { cell with constraints := cell.constraints.erase ⟨ledger.postings.length⟩ })
    once rfl (fun var member shape => ?_) fun id missing shape => ?_
  · rw [slot_post, watchers_post, if_pos member]
    cases shape <;> simp [Slot.editVariable, slot, node]
  · rw [slot_post, watchers_post, if_neg missing]
    cases shape <;> rfl

end Ledger

end Resolvent
