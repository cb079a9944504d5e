import Mathlib.Data.List.Induction
import Resolvent.Proofs.Ledger.Preservation

namespace Resolvent

theorem since_append {α : Type} (kept extra : List α) :
    since (kept ++ extra).toArray kept.length = extra.reverse := by
  simp [since, List.extract_eq_take_drop]

theorem shrink_append {α : Type} (kept extra : List α) :
    (kept ++ extra).toArray.shrink kept.length = kept.toArray := by
  simp

/-- Taking entries off a stack, newest first, where each step undoes the push of its entry. -/
theorem foldl_undo {α β : Type} (undo : α → β → α) (view : List β → α) (kept extra : List β)
    (step : ∀ rest entry, kept ++ rest ++ [entry] <+: kept ++ extra →
      undo (view (kept ++ rest ++ [entry])) entry = view (kept ++ rest)) :
    extra.reverse.foldl undo (view (kept ++ extra)) = view kept := by
  induction extra using List.reverseRecOn with
  | nil => simp
  | append_singleton extra entry ih =>
    rw [List.reverse_append, List.foldl_append]
    have last := step extra entry (by simp)
    rw [List.append_assoc] at last
    simp only [List.reverse_singleton, List.foldl_cons, List.foldl_nil, last]
    apply ih
    intro rest other inside
    exact step rest other (inside.trans (by simp))

theorem not_mem_of_nodup {α : Type} {front stack : List α} {entry : α}
    (once : stack.Nodup) (inside : front ++ [entry] <+: stack) : entry ∉ front := by
  have front_once := once.sublist inside.sublist
  intro member
  exact (List.nodup_append.mp front_once).2.2 entry member entry (by simp) rfl

namespace Ledger

variable {ledger : Ledger}

@[simp] theorem arena_state (ledger : Ledger) (counters : Counters) :
    (ledger.state counters).arena = ledger.arena := rfl

@[simp] theorem constraints_state (ledger : Ledger) (counters : Counters) :
    (ledger.state counters).constraints = ledger.constraints := rfl

theorem unbindAll (kept extra : List (TermId × TermId))
    (once : ((kept ++ extra).map Prod.fst).Nodup)
    (known : ∀ binding ∈ kept ++ extra, ledger.shape? binding.1 = some .var) :
    (extra.map Prod.fst).reverse.foldl Arena.unbind
        { ledger with bindings := kept ++ extra }.arena =
      { ledger with bindings := kept }.arena := by
  have undone := foldl_undo (fun arena (binding : TermId × TermId) => Arena.unbind arena binding.1)
    (fun bindings => ({ ledger with bindings } : Ledger).arena) kept extra
  rw [← List.map_reverse, List.foldl_map]
  apply undone
  rintro rest ⟨var, target⟩ inside
  have member : (var, target) ∈ kept ++ extra := inside.subset (by simp)
  have unbound : ({ ledger with bindings := kept ++ rest } : Ledger).binding? var = none := by
    apply lookup_eq_none
    intro entry listed same
    have front : (kept ++ rest).map Prod.fst ++ [var] <+: (kept ++ extra).map Prod.fst := by
      have mapped := inside.map Prod.fst
      rwa [List.map_append, List.map_singleton] at mapped
    exact not_mem_of_nodup once front (List.mem_map.mpr ⟨entry, listed, same⟩)
  exact @arena_unbind { ledger with bindings := kept ++ rest } var target
    (known (var, target) member) unbound

theorem undelayAll (kept extra : List TermId) (once : (kept ++ extra).Nodup) :
    extra.reverse.foldl (fun arena var => arena.setDelayed var false)
        { ledger with delayed := kept ++ extra }.arena =
      { ledger with delayed := kept }.arena := by
  apply foldl_undo (fun arena var => Arena.setDelayed arena var false)
    (fun delayed => ({ ledger with delayed } : Ledger).arena)
  intro rest var inside
  have fresh : var ∉ ({ ledger with delayed := kept ++ rest } : Ledger).delayed :=
    not_mem_of_nodup once inside
  exact arena_undelay fresh

theorem returnAll (kept extra : List TermId) (once : (kept ++ extra).Nodup) :
    extra.reverse.foldl (fun arena goal => arena.setActive goal false)
        { ledger with calls := kept ++ extra }.arena =
      { ledger with calls := kept }.arena := by
  apply foldl_undo (fun arena goal => Arena.setActive arena goal false)
    (fun calls => ({ ledger with calls } : Ledger).arena)
  intro rest goal inside
  have idle : goal ∉ ({ ledger with calls := kept ++ rest } : Ledger).calls :=
    not_mem_of_nodup once inside
  exact arena_return none idle

theorem constraints_mark (kept : List ConstraintId) (discarded : Array ConstraintId)
    (id : ConstraintId) (fresh : id ∉ kept) :
    ConstraintStore.mark
        { ({ ledger with discards := kept ++ [id] } : Ledger).constraints with discarded } id false =
      { ({ ledger with discards := kept } : Ledger).constraints with discarded } := by
  simp only [ConstraintStore.mark, constraints]
  congr 1
  apply Array.ext_getElem?
  intro index
  simp only [Array.getElem?_modify, List.getElem?_toArray, List.getElem?_mapIdx]
  cases ledger.postings[index]? with
  | none => simp
  | some posting =>
    by_cases same : id.index = index
    · have equal : id = ⟨index⟩ := by cases id; simp_all
      subst equal
      simp [constraint, fresh]
    · have other : (⟨index⟩ : ConstraintId) ≠ id := by rintro rfl; exact same rfl
      simp [constraint, same, other]

theorem undiscardAll (kept extra : List ConstraintId) (once : (kept ++ extra).Nodup) :
    ({ ledger with discards := kept ++ extra } : Ledger).constraints.undiscard kept.length =
      ({ ledger with discards := kept } : Ledger).constraints := by
  have marked := foldl_undo (fun store id => ConstraintStore.mark store id false)
    (fun discards => { ({ ledger with discards } : Ledger).constraints with
      discarded := (kept ++ extra).toArray }) kept extra
    (fun rest id inside => constraints_mark (kept ++ rest) _ id
      (not_mem_of_nodup once inside))
  rw [ConstraintStore.undiscard, show ({ ledger with discards := kept ++ extra } :
    Ledger).constraints.discarded = (kept ++ extra).toArray from rfl, since_append]
  simp only [constraints] at marked ⊢
  rw [marked]
  simp

theorem getElem?_constraints (ledger : Ledger) (index : Nat) :
    ledger.constraints.constraints[index]? =
      ledger.postings[index]?.map (ledger.constraint index) := by
  simp [constraints]

theorem size_constraints (ledger : Ledger) : ledger.constraints.size = ledger.postings.length := by
  simp [constraints, ConstraintStore.size]

theorem constraints_push (posting : Posting) :
    (ledger.post posting).constraints.constraints =
      ledger.constraints.constraints.push
        (ledger.constraint ledger.postings.length posting) := by
  simp only [constraints, post, List.mapIdx_concat, List.push_toArray]
  rfl

theorem constraints_pop {posting : Posting} (once : posting.vars.Nodup) :
    ConstraintStore.pop (ledger.post posting).constraints (ledger.post posting).arena =
      (ledger.constraints, ledger.arena) := by
  have detached := @arena_unpost ledger posting once
  have height : (ledger.post posting).constraints.size - 1 = ledger.postings.length := by
    simp [size_constraints, post]
  rw [ConstraintStore.pop, height, constraints_push, Array.back?_push]
  simp only [Array.pop_push]
  exact congrArg (Prod.mk _) detached

theorem unpostAll (kept extra : List Posting) (once : ∀ posting ∈ extra, posting.vars.Nodup) :
    ConstraintStore.popMany { ledger with postings := kept ++ extra }.constraints
        { ledger with postings := kept ++ extra }.arena extra.length =
      ({ ledger with postings := kept }.constraints, { ledger with postings := kept }.arena) := by
  induction extra using List.reverseRecOn with
  | nil => simp [ConstraintStore.popMany]
  | append_singleton extra posting ih =>
    rw [List.length_append, List.length_singleton, ConstraintStore.popMany, ← List.append_assoc]
    have popped := @constraints_pop { ledger with postings := kept ++ extra } posting
      (once posting (by simp))
    simp only [post] at popped
    rw [popped]
    exact ih fun other member => once other (by simp [member])

theorem releaseAll (kept extra : List Shape)
    (older : ∀ id symbol args, ({ ledger with terms := kept ++ extra } : Ledger).shape? id =
      some (.compound symbol args) → ∀ arg ∈ args, arg.index < id.index) :
    Arena.popMany { ledger with terms := kept ++ extra }.arena extra.length =
      { ledger with terms := kept }.arena := by
  induction extra using List.reverseRecOn with
  | nil => simp [Arena.popMany]
  | append_singleton extra shape ih =>
    rw [List.length_append, List.length_singleton, Arena.popMany, ← List.append_assoc]
    have admits : ({ ledger with terms := kept ++ extra } : Ledger).Admits shape := by
      rintro symbol args rfl arg member
      apply older ⟨(kept ++ extra).length⟩ symbol args _ arg member
      simp [shape?]
    have popped := arena_pop admits
    simp only [allocate] at popped
    rw [popped]
    apply ih
    intro id symbol args known
    apply older id symbol args
    have live := live_of_shape known
    simp only [shape?] at known ⊢
    rw [← List.append_assoc, List.getElem?_append_left live, known]

theorem unbindTo_state (counters : Counters) (kept extra : List (TermId × TermId))
    (once : ((kept ++ extra).map Prod.fst).Nodup)
    (known : ∀ binding ∈ kept ++ extra, ledger.shape? binding.1 = some .var) :
    (({ ledger with bindings := kept ++ extra } : Ledger).state counters).unbindTo kept.length =
      ({ ledger with bindings := kept } : Ledger).state counters := by
  have undone := unbindAll kept extra once known
  have newest : since ((kept ++ extra).map Prod.fst).toArray kept.length =
      (extra.map Prod.fst).reverse := by
    have cut := since_append (kept.map Prod.fst) (extra.map Prod.fst)
    rwa [← List.map_append, List.length_map] at cut
  have shrunk : ((kept ++ extra).map Prod.fst).toArray.shrink kept.length =
      (kept.map Prod.fst).toArray := by
    have cut := shrink_append (kept.map Prod.fst) (extra.map Prod.fst)
    rwa [← List.map_append, List.length_map] at cut
  simp only [State.unbindTo, state, newest, undone, constraints, shrunk]
  rfl

theorem undelayTo_state (counters : Counters) (kept extra : List TermId)
    (once : (kept ++ extra).Nodup) :
    (({ ledger with delayed := kept ++ extra } : Ledger).state counters).undelayTo kept.length =
      ({ ledger with delayed := kept } : Ledger).state counters := by
  have undone := @undelayAll ledger kept extra once
  simp only [State.undelayTo, state, since_append, undone, shrink_append]
  rfl

theorem returnTo_state (counters : Counters) (kept extra : List TermId)
    (once : (kept ++ extra).Nodup) :
    (({ ledger with calls := kept ++ extra } : Ledger).state counters).returnTo kept.length =
      ({ ledger with calls := kept } : Ledger).state counters := by
  have undone := @returnAll ledger kept extra once
  simp only [State.returnTo, state, since_append, undone, shrink_append]
  rfl

theorem undiscardTo_state (counters : Counters) (kept extra : List ConstraintId)
    (once : (kept ++ extra).Nodup) :
    (({ ledger with discards := kept ++ extra } : Ledger).state counters).undiscardTo kept.length =
      ({ ledger with discards := kept } : Ledger).state counters := by
  have undone := @undiscardAll ledger kept extra once
  simp only [State.undiscardTo, state, undone]
  rfl

theorem unpostTo_state (counters : Counters) (kept extra : List Posting)
    (once : ∀ posting ∈ extra, posting.vars.Nodup) :
    (({ ledger with postings := kept ++ extra } : Ledger).state counters).unpostTo kept.length =
      ({ ledger with postings := kept } : Ledger).state counters := by
  have undone := @unpostAll ledger kept extra once
  have count : ({ ledger with postings := kept ++ extra } : Ledger).constraints.size - kept.length =
      extra.length := by
    simp [size_constraints]
  simp only [State.unpostTo, state, ConstraintStore.truncate, count, undone]

theorem releaseTo_state (counters : Counters) (kept extra : List Shape)
    (older : ∀ id symbol args, ({ ledger with terms := kept ++ extra } : Ledger).shape? id =
      some (.compound symbol args) → ∀ arg ∈ args, arg.index < id.index) :
    (({ ledger with terms := kept ++ extra } : Ledger).state counters).releaseTo kept.length =
      ({ ledger with terms := kept } : Ledger).state counters := by
  have undone := releaseAll kept extra older
  have count : ({ ledger with terms := kept ++ extra } : Ledger).arena.size - kept.length =
      extra.length := by
    simp [size]
  simp only [State.releaseTo, state, Arena.truncate, count, undone]
  rfl

theorem retraceTo_state (counters : Counters) (kept extra : List Choice) :
    (({ ledger with path := kept ++ extra } : Ledger).state counters).retraceTo kept.length =
      ({ ledger with path := kept } : Ledger).state counters := by
  simp only [State.retraceTo, state, shrink_append]
  rfl

/-- Going back to a snapshot undoes every push since, whatever order the pushes came in. -/
theorem restore_state {later earlier : Ledger} (consistent : later.Consistent)
    (grown : later.Extends earlier) (counters : Counters) :
    (later.state counters).restore earlier.snapshot =
      earlier.state (counters.record .restore 1) := by
  obtain ⟨terms, bindings, delayed, calls, postings, discards, path⟩ := later
  obtain ⟨kterms, kbindings, kdelayed, kcalls, kpostings, kdiscards, kpath⟩ := earlier
  obtain ⟨⟨terms', rfl⟩, ⟨bindings', rfl⟩, ⟨delayed', rfl⟩, ⟨calls', rfl⟩, ⟨postings', rfl⟩,
    ⟨discards', rfl⟩, ⟨path', rfl⟩⟩ := grown
  have unbound := @unbindTo_state
    ⟨kterms ++ terms', [], kdelayed ++ delayed', kcalls ++ calls', kpostings ++ postings',
      kdiscards ++ discards', kpath ++ path'⟩ (counters.record .restore 1) kbindings bindings'
    consistent.bound_once consistent.bound_var
  have undelayed := @undelayTo_state
    ⟨kterms ++ terms', kbindings, [], kcalls ++ calls', kpostings ++ postings',
      kdiscards ++ discards', kpath ++ path'⟩ (counters.record .restore 1) kdelayed delayed'
    consistent.delayed_once
  have returned := @returnTo_state
    ⟨kterms ++ terms', kbindings, kdelayed, [], kpostings ++ postings', kdiscards ++ discards',
      kpath ++ path'⟩ (counters.record .restore 1) kcalls calls' consistent.calls_once
  have undiscarded := @undiscardTo_state
    ⟨kterms ++ terms', kbindings, kdelayed, kcalls, kpostings ++ postings', [], kpath ++ path'⟩
    (counters.record .restore 1) kdiscards discards' consistent.discards_once
  have unposted := @unpostTo_state
    ⟨kterms ++ terms', kbindings, kdelayed, kcalls, [], kdiscards, kpath ++ path'⟩
    (counters.record .restore 1) kpostings postings'
    (fun posting member => consistent.posting_once posting (by simp [member]))
  have released := @releaseTo_state
    ⟨[], kbindings, kdelayed, kcalls, kpostings, kdiscards, kpath ++ path'⟩
    (counters.record .restore 1) kterms terms' (fun id symbol args => consistent.args_older)
  have retraced := @retraceTo_state
    ⟨kterms, kbindings, kdelayed, kcalls, kpostings, kdiscards, []⟩ (counters.record .restore 1)
    kpath path'
  dsimp only at unbound undelayed returned undiscarded unposted released retraced
  rw [State.restore, State.record]
  simp only [snapshot, size]
  refine Eq.trans ?_ retraced
  rw [← released, ← unposted, ← undiscarded, ← returned, ← undelayed, ← unbound]
  rfl

end Ledger

end Resolvent
