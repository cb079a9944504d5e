import Resolvent.Proofs.Search.Pass

namespace Resolvent

def Shape.args : Shape → List TermId
  | .compound _ args => args
  | .number _ | .var => []

def Arena.build? (arena : Arena) : List Shape → Option Arena
  | [] => some arena
  | shape :: shapes =>
    if shape.args.all arena.contains then (arena.place shape).2.build? shapes else none

structure Ready (program : Program) (state : State) : Prop where
  accepted : ∃ terms others entries arena, Arena.build? {} terms = some arena ∧
    Program.ofEntries arena entries = .ok program ∧ arena.build? others = some state.arena
  untouched : state = { arena := state.arena, counters := state.counters }

namespace Ledger

variable {ledger : Ledger}

theorem build?_allocates (wellFormed : ledger.WellFormed) {shapes : List Shape} {arena : Arena}
    (built : ledger.arena.build? shapes = some arena) :
    ∃ later : Ledger, arena = later.arena ∧ later.Allocates ledger := by
  induction shapes generalizing ledger with
  | nil =>
    cases built
    exact ⟨ledger, rfl, .refl wellFormed⟩
  | cons shape shapes ih =>
    rw [Arena.build?] at built
    split at built
    · next inside =>
      have admits : ledger.Admits shape := by
        rintro symbol args rfl arg member
        rw [List.all_eq_true] at inside
        exact (contains_arena ledger arg).mp (inside arg member)
      rw [arena_place wellFormed.toConsistent admits] at built
      have first := allocate_allocates wellFormed admits
      obtain ⟨later, same, grown⟩ := ih first.wellFormed built
      exact ⟨later, same, grown.trans first⟩
    · cases built

theorem wellFormed_empty : ({} : Ledger).WellFormed :=
  { consistent_empty with
    chains_end := ⟨fun _ => 0, by simp [Falls]⟩
    posting_left := by simp
    posting_right := by simp }

structure FitsClause (ledger : Ledger) (clause : Clause) : Prop where
  head : ∃ args, ledger.shape? clause.head = some (.compound clause.symbol args) ∧
    args.length = clause.arity
  user : ∃ place, clause.symbol = .user place
  body : ∀ {body : TermId}, clause.body = some body → ledger.Live body

theorem fits_ofHead {index : Nat} {head : TermId} {body : Option TermId} {clause : Clause}
    (live : ∀ {id : TermId}, body = some id → ledger.Live id)
    (accepted : Clause.ofHead ledger.arena index head body = .ok clause) :
    ledger.FitsClause clause := by
  unfold Clause.ofHead at accepted
  split at accepted
  · cases accepted
  · next cell held =>
    split at accepted
    · cases accepted
    · next place symbol =>
      cases accepted
      exact ⟨⟨cell.args, shape_of_compound? held, rfl⟩, ⟨place, symbol⟩, live⟩

theorem fits_ofEntry (wellFormed : ledger.WellFormed) {index : Nat} {entry : TermId}
    {clause : Clause} (accepted : Clause.ofEntry ledger.arena index entry = .ok clause) :
    ledger.FitsClause clause := by
  simp only [Clause.ofEntry] at accepted
  split at accepted
  · cases accepted
  · next cell held =>
    split at accepted
    · split at accepted
      · next head body args =>
        refine fits_ofHead ?_ accepted
        rintro id ⟨⟩
        exact wellFormed.live_args (shape_of_compound? held) _ (by simp [args])
      · cases accepted
    · exact fits_ofHead (by simp) accepted

theorem fits_clausesOf (wellFormed : ledger.WellFormed) {entries : List TermId} {index : Nat}
    {clauses : List Clause} (accepted : Program.clausesOf ledger.arena index entries = .ok clauses) :
    ∀ clause ∈ clauses, ledger.FitsClause clause := by
  induction entries generalizing index clauses with
  | nil =>
    cases accepted
    simp
  | cons entry entries ih =>
    rw [Program.clausesOf] at accepted
    cases first : Clause.ofEntry ledger.arena index entry with
    | error reason => simp [first, Bind.bind, Except.bind] at accepted
    | ok clause =>
      cases rest : Program.clausesOf ledger.arena (index + 1) entries with
      | error reason => simp [first, rest, Bind.bind, Except.bind] at accepted
      | ok others =>
        simp only [first, rest, Bind.bind, Except.bind, pure, Except.pure,
          Except.ok.injEq] at accepted
        subst accepted
        simp only [List.mem_cons, forall_eq_or_imp]
        exact ⟨fits_ofEntry wellFormed first, ih rest⟩

theorem fits_ofEntries (wellFormed : ledger.WellFormed) {entries : List TermId}
    {program : Program} (accepted : Program.ofEntries ledger.arena entries = .ok program) :
    program.Fits ledger := by
  cases listed : Program.clausesOf ledger.arena 0 entries with
  | error reason => simp [Program.ofEntries, listed, Bind.bind, Except.bind] at accepted
  | ok clauses =>
    simp only [Program.ofEntries, listed, Bind.bind, Except.bind, pure, Except.pure,
      Except.ok.injEq] at accepted
    subst accepted
    have each {index : Nat} {clause : Clause} (held : clauses.toArray[index]? = some clause) :
        ledger.FitsClause clause := by
      rw [List.getElem?_toArray] at held
      exact fits_clausesOf wellFormed listed clause (List.mem_of_getElem? held)
    exact ⟨fun held => (each held).head, fun held => (each held).user,
      fun held has => (each held).body has⟩

end Ledger

def Ledger.Untouched (ledger : Ledger) : Prop := ledger = { terms := ledger.terms }

/-- The ledger of the state goes on from one in which the program was accepted. -/
theorem Ready.grown {program : Program} {state : State} (ready : Ready program state) :
    ∃ (first ledger : Ledger) (entries : List TermId), first.WellFormed ∧
      Program.ofEntries first.arena entries = .ok program ∧ ledger.WellFormed ∧
      ledger.Extends first ∧ ledger.Untouched ∧ state = ledger.state state.counters := by
  obtain ⟨terms, others, entries, arena, built, accepted, grown⟩ := ready.accepted
  obtain ⟨first, rfl, early⟩ := @Ledger.build?_allocates {} Ledger.wellFormed_empty terms arena built
  obtain ⟨ledger, same, late⟩ := Ledger.build?_allocates early.wellFormed grown
  have untouched : ledger.Untouched := by
    obtain ⟨-, shapes, rfl⟩ := late.trans early
    rfl
  refine ⟨first, ledger, entries, early.wellFormed, accepted, late.wellFormed, late.extends,
    untouched, ?_⟩
  have all := ready.untouched
  rw [same] at all
  rw [untouched] at all ⊢
  exact all

theorem Ready.ledger {program : Program} {state : State} (ready : Ready program state) :
    ∃ ledger : Ledger, state = ledger.state state.counters ∧ ledger.Untouched ∧
      ledger.WellFormed ∧ program.Fits ledger := by
  obtain ⟨first, ledger, entries, formed, accepted, wellFormed, grown, untouched, same⟩ := ready.grown
  exact ⟨ledger, same, untouched, wellFormed, (Ledger.fits_ofEntries formed accepted).later grown⟩

end Resolvent
