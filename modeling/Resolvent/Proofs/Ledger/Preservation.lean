import Resolvent.Proofs.Ledger.Growth

namespace Resolvent

namespace Ledger

variable {ledger : Ledger}

theorem shape?_allocate_of_ne {shape : Shape} {id : TermId} (different : id ≠ ⟨ledger.size⟩) :
    (ledger.allocate shape).shape? id = ledger.shape? id := by
  have apart : id.index ≠ ledger.terms.length := by
    intro same
    exact different (by cases id; simp_all [size])
  rw [shape?, shape?, allocate, List.getElem?_append]
  split
  · rfl
  · rw [List.getElem?_eq_none (by simp; omega), List.getElem?_eq_none (by omega)]

theorem shape?_allocate_size (shape : Shape) :
    (ledger.allocate shape).shape? ⟨ledger.size⟩ = some shape := by
  simp [shape?, allocate, size]

theorem Consistent.allocate (consistent : ledger.Consistent) {shape : Shape}
    (admits : ledger.Admits shape) : (ledger.allocate shape).Consistent := by
  have grown := allocate_extends ledger shape
  exact
    { args_older := by
        intro id symbol args known arg member
        by_cases new : id = ⟨ledger.size⟩
        · subst new
          rw [shape?_allocate_size, Option.some.injEq] at known
          exact admits symbol args known arg member
        · rw [shape?_allocate_of_ne new] at known
          exact consistent.args_older known arg member
      bound_once := consistent.bound_once
      bound_var := fun binding member => grown.shape (consistent.bound_var binding member)
      target_live := fun binding member => grown.live (consistent.target_live binding member)
      delayed_once := consistent.delayed_once
      delayed_var := fun id member => grown.shape (consistent.delayed_var id member)
      calls_once := consistent.calls_once
      calls_compound := by
        intro id member
        obtain ⟨symbol, args, known⟩ := consistent.calls_compound id member
        exact ⟨symbol, args, grown.shape known⟩
      posting_once := consistent.posting_once
      posting_var := fun posting member id watched =>
        grown.shape (consistent.posting_var posting member id watched)
      discards_once := consistent.discards_once
      discards_posted := consistent.discards_posted }

theorem WellFormed.allocate (wellFormed : ledger.WellFormed) {shape : Shape}
    (admits : ledger.Admits shape) : (ledger.allocate shape).WellFormed := by
  have grown := allocate_extends ledger shape
  exact
    { wellFormed.toConsistent.allocate admits with
      chains_end := by
        obtain ⟨rank, falls⟩ := wellFormed.chains_end
        refine ⟨rank, fun binding member known => falls binding member ?_⟩
        rwa [← grown.shape_eq (wellFormed.target_live binding member)]
      posting_left := fun posting member => grown.live (wellFormed.posting_left posting member)
      posting_right := fun posting member => grown.live (wellFormed.posting_right posting member) }

theorem not_bound_of_binding? {id : TermId} (unbound : ledger.binding? id = none) :
    id ∉ ledger.bindings.map Prod.fst := by
  intro member
  obtain ⟨binding, listed, same⟩ := List.mem_map.mp member
  have absent := List.lookup_eq_none_iff.mp unbound binding listed
  simp [same] at absent

theorem Consistent.bind (consistent : ledger.Consistent) {var target : TermId}
    (known : ledger.shape? var = some .var) (unbound : ledger.binding? var = none)
    (live : ledger.Live target) : (ledger.bind var target).Consistent :=
  { consistent with
    bound_once := by
      simp only [Ledger.bind, List.map_append, List.map_cons, List.map_nil]
      refine List.nodup_append.mpr ⟨consistent.bound_once, by simp, ?_⟩
      rintro id member other single rfl
      rw [List.mem_singleton] at single
      subst single
      exact not_bound_of_binding? unbound member
    bound_var := by
      intro binding member
      rcases List.mem_append.mp member with old | new
      · exact consistent.bound_var binding old
      · rw [List.mem_singleton] at new
        subst new
        exact known
    target_live := by
      intro binding member
      rcases List.mem_append.mp member with old | new
      · exact consistent.target_live binding old
      · rw [List.mem_singleton] at new
        subst new
        exact live }

theorem WellFormed.bind (wellFormed : ledger.WellFormed) {var target : TermId}
    (known : ledger.shape? var = some .var) (unbound : ledger.binding? var = none)
    (live : ledger.Live target) (ends : ledger.binding? target = none) (different : var ≠ target) :
    (ledger.bind var target).WellFormed :=
  { wellFormed.toConsistent.bind known unbound live with
    chains_end := by
      -- The target ends its chain, so it may come below all others.
      obtain ⟨rank, falls⟩ := wellFormed.chains_end
      refine ⟨fun id => if id = target then 0 else rank id + 1, fun binding member isVar => ?_⟩
      rcases List.mem_append.mp member with old | new
      · have source : binding.1 ≠ target := by
          rintro rfl
          exact not_bound_of_binding? ends (List.mem_map_of_mem old)
        have lower := falls binding old isVar
        simp only [source, if_false]
        split <;> omega
      · rw [List.mem_singleton] at new
        subst new
        simp [different]
    posting_left := wellFormed.posting_left
    posting_right := wellFormed.posting_right }

theorem Consistent.delay (consistent : ledger.Consistent) {var : TermId}
    (known : ledger.shape? var = some .var) (fresh : var ∉ ledger.delayed) :
    (ledger.delay var).Consistent :=
  { consistent with
    delayed_once := List.nodup_append.mpr
      ⟨consistent.delayed_once, by simp, by rintro id member other single rfl; simp_all⟩
    delayed_var := by
      intro id member
      rcases List.mem_append.mp member with old | new
      · exact consistent.delayed_var id old
      · rw [List.mem_singleton] at new
        subst new
        exact known }

theorem WellFormed.delay (wellFormed : ledger.WellFormed) {var : TermId}
    (known : ledger.shape? var = some .var) (fresh : var ∉ ledger.delayed) :
    (ledger.delay var).WellFormed :=
  { wellFormed.toConsistent.delay known fresh with
    chains_end := wellFormed.chains_end
    posting_left := wellFormed.posting_left
    posting_right := wellFormed.posting_right }

theorem Consistent.register (consistent : ledger.Consistent) {goal : TermId} {symbol : Symbol}
    {args : List TermId} (choice : Option Choice)
    (known : ledger.shape? goal = some (.compound symbol args)) (idle : goal ∉ ledger.calls) :
    (ledger.register goal choice).Consistent :=
  { consistent with
    calls_once := List.nodup_append.mpr
      ⟨consistent.calls_once, by simp, by rintro id member other single rfl; simp_all⟩
    calls_compound := by
      intro id member
      rcases List.mem_append.mp member with old | new
      · exact consistent.calls_compound id old
      · rw [List.mem_singleton] at new
        subst new
        exact ⟨symbol, args, known⟩ }

theorem WellFormed.register (wellFormed : ledger.WellFormed) {goal : TermId} {symbol : Symbol}
    {args : List TermId} (choice : Option Choice)
    (known : ledger.shape? goal = some (.compound symbol args)) (idle : goal ∉ ledger.calls) :
    (ledger.register goal choice).WellFormed :=
  { wellFormed.toConsistent.register choice known idle with
    chains_end := wellFormed.chains_end
    posting_left := wellFormed.posting_left
    posting_right := wellFormed.posting_right }

theorem Consistent.post (consistent : ledger.Consistent) {posting : Posting}
    (once : posting.vars.Nodup) (known : ∀ id ∈ posting.vars, ledger.shape? id = some .var) :
    (ledger.post posting).Consistent :=
  { consistent with
    posting_once := by
      intro other member
      rcases List.mem_append.mp member with old | new
      · exact consistent.posting_once other old
      · rw [List.mem_singleton] at new
        subst new
        exact once
    posting_var := by
      intro other member
      rcases List.mem_append.mp member with old | new
      · exact consistent.posting_var other old
      · rw [List.mem_singleton] at new
        subst new
        exact known
    discards_posted := by
      intro id member
      have low := consistent.discards_posted id member
      simp only [Ledger.post, List.length_append, List.length_singleton]
      omega }

theorem WellFormed.post (wellFormed : ledger.WellFormed) {posting : Posting}
    (left : ledger.Live posting.left) (right : ledger.Live posting.right)
    (once : posting.vars.Nodup) (known : ∀ id ∈ posting.vars, ledger.shape? id = some .var) :
    (ledger.post posting).WellFormed :=
  { wellFormed.toConsistent.post once known with
    chains_end := wellFormed.chains_end
    posting_left := by
      intro other member
      rcases List.mem_append.mp member with old | new
      · exact wellFormed.posting_left other old
      · rw [List.mem_singleton] at new
        subst new
        exact left
    posting_right := by
      intro other member
      rcases List.mem_append.mp member with old | new
      · exact wellFormed.posting_right other old
      · rw [List.mem_singleton] at new
        subst new
        exact right }

theorem Consistent.discard (consistent : ledger.Consistent) {id : ConstraintId}
    (posted : id.index < ledger.postings.length) (open' : id ∉ ledger.discards) :
    (ledger.discard id).Consistent :=
  { consistent with
    discards_once := List.nodup_append.mpr
      ⟨consistent.discards_once, by simp, by rintro other member single eq rfl; simp_all⟩
    discards_posted := by
      intro other member
      rcases List.mem_append.mp member with old | new
      · exact consistent.discards_posted other old
      · rw [List.mem_singleton] at new
        subst new
        exact posted }

theorem WellFormed.discard (wellFormed : ledger.WellFormed) {id : ConstraintId}
    (posted : id.index < ledger.postings.length) (open' : id ∉ ledger.discards) :
    (ledger.discard id).WellFormed :=
  { wellFormed.toConsistent.discard posted open' with
    chains_end := wellFormed.chains_end
    posting_left := wellFormed.posting_left
    posting_right := wellFormed.posting_right }

end Ledger

end Resolvent
