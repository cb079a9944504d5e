import Resolvent.Proofs.Semantics.Steady

namespace Resolvent

variable {program : Program} {base ledger later : Ledger} {ρ : TermId → Tree} {goal : TermId}

theorem head_ne (fits : program.Fits base) (wellFormed : base.WellFormed) (values : TermId → Tree)
    {clause : Clause} (listed : clause ∈ program.clauses) {operator : Operator} {trees : List Tree} :
    base.arena.ground values clause.head ≠ .compound (.reserved operator) trees := by
  obtain ⟨index, held⟩ := Array.getElem?_of_mem listed
  obtain ⟨args, shape, -⟩ := fits.head held
  obtain ⟨place, symbol⟩ := fits.user held
  rw [(ground_reads wellFormed values).compound shape, symbol]
  simp

theorem Derivable.sides (fits : program.Fits base) (wellFormed : base.WellFormed)
    {left right : Tree}
    (derivable : Derivable program base.arena (.compound (.reserved .equal) [left, right])) :
    left = right := by
  cases derivable with
  | equality => rfl
  | clause values listed head => exact absurd head (head_ne fits wellFormed values listed)

theorem Derivable.both (fits : program.Fits base) (wellFormed : base.WellFormed)
    {left right : Tree}
    (derivable : Derivable program base.arena (.compound (.reserved .conjunction) [left, right])) :
    Derivable program base.arena left ∧ Derivable program base.arena right := by
  cases derivable with
  | conjunction first second => exact ⟨first, second⟩
  | clause values listed head => exact absurd head (head_ne fits wellFormed values listed)

theorem Derivable.either (fits : program.Fits base) (wellFormed : base.WellFormed)
    {left right : Tree}
    (derivable : Derivable program base.arena (.compound (.reserved .disjunction) [left, right])) :
    Derivable program base.arena left ∨ Derivable program base.arena right := by
  cases derivable with
  | left first => exact .inl first
  | right second => exact .inr second
  | clause values listed head => exact absurd head (head_ne fits wellFormed values listed)

theorem Derivable.different (fits : program.Fits base) (wellFormed : base.WellFormed)
    {left right : Tree}
    (derivable : Derivable program base.arena (.compound (.reserved .unequal) [left, right])) :
    left ≠ right := by
  cases derivable with
  | inequality different => exact different
  | clause values listed head => exact absurd head (head_ne fits wellFormed values listed)

theorem Derivable.resolved (fits : program.Fits base) (wellFormed : base.WellFormed) {place : Nat}
    {trees : List Tree} (derivable : Derivable program base.arena (.compound (.user place) trees)) :
    ∃ clause index values, (clause, index) ∈ program.candidates 0 (.user place) trees.length ∧
      base.arena.ground values clause.head = .compound (.user place) trees ∧
      ∀ body, clause.body = some body → Derivable program base.arena (base.arena.ground values body) := by
  cases derivable with
  | @clause clause _ values listed head body =>
    obtain ⟨index, held⟩ := Array.getElem?_of_mem listed
    obtain ⟨args, shape, arity⟩ := fits.head held
    have read := (ground_reads wellFormed values).compound shape
    rw [head, Tree.compound.injEq] at read
    obtain ⟨symbol, rfl⟩ := read
    refine ⟨clause, index, values, mem_candidates.mpr ⟨Nat.zero_le _, held, symbol.symm, ?_⟩, head, body⟩
    rw [List.length_map, arity]

/-- A copy reads as the term does, with what the names read as for its variables. -/
theorem Ledger.Copies.ground {names : Renaming} {since : Nat} {term copy : TermId}
    (copies : ledger.Copies names since term copy) (reads : Reads ρ ledger)
    (grown : ledger.Extends base) (wellFormed : base.WellFormed) (live : base.Live term)
    {values : TermId → Tree}
    (named : ∀ var name, names.lookup var = some name → values var = ρ name) :
    base.arena.ground values term = ρ copy := by
  have before := ground_reads wellFormed values
  induction copies with
  | number shape copyShape =>
    rw [grown.shape_eq live] at shape
    rw [before.number shape, reads.number copyShape]
  | var shape name =>
    rw [grown.shape_eq live] at shape
    rw [ground_var wellFormed values shape]
    exact named _ _ name
  | compound shape copyShape _ length _ ih =>
    rw [grown.shape_eq live] at shape
    rw [before.compound shape, reads.compound copyShape, map_eq_of_zip length]
    exact fun pair member =>
      ih pair member (wellFormed.live_args shape _ (List.of_mem_zip member).1)

theorem pure_builtin {symbol : Symbol} {args : List TermId} {builtin : Builtin}
    {left right : TermId} (pure : Arena.pureFunctor goal symbol args.length)
    (form : formOf symbol args = .builtin builtin left right) :
    symbol = .reserved .equal ∧ builtin = .equality ∨
      symbol = .reserved .unequal ∧ builtin = .inequality := by
  obtain rfl := form_builtin form
  cases symbol with
  | user place => simp [formOf, Compound.form] at form
  | reserved operator =>
    obtain ⟨-, listed⟩ := pure
    simp only [List.mem_cons, List.not_mem_nil, or_false] at listed
    rcases listed with rfl | rfl | rfl | rfl <;> simp_all [formOf, Compound.form]

theorem Steady.builtin (steady : Steady program base ledger) {symbol : Symbol} {args : List TermId}
    (shape : ledger.shape? goal = some (.compound symbol args)) (idle : goal ∉ ledger.calls)
    (usable : base.Usable goal) (pure : Arena.pureFunctor goal symbol args.length)
    {builtin : Builtin} {left right : TermId} {reply : Reply} {last : Ledger}
    (form : formOf symbol args = .builtin builtin left right)
    (performs : (ledger.register goal none).Performs left right builtin reply last) :
    args = [left, right] ∧
      (symbol = .reserved .equal ∧ Decides program base (ledger.register goal none)
          (fun ρ => ρ left = ρ right) reply last ∨
        symbol = .reserved .unequal ∧ Decides program base (ledger.register goal none)
          (fun ρ => ρ left ≠ ρ right) reply last) := by
  obtain ⟨leftLive, rightLive⟩ := steady.wellFormed.live_sides shape form
  obtain rfl := form_builtin form
  have grown := ledger.register_extends goal none
  have usable := (steady.tame.fine shape usable).args
  obtain ⟨equality, inequality⟩ := performs.decides (steady.register shape idle none)
    (grown.live leftLive) (grown.live rightLive) (usable left (by simp)) (usable right (by simp))
  refine ⟨rfl, (pure_builtin pure form).imp ?_ ?_⟩
  · rintro ⟨rfl, rfl⟩
    exact ⟨rfl, equality rfl⟩
  · rintro ⟨rfl, rfl⟩
    exact ⟨rfl, inequality rfl⟩

theorem pure_predicate {symbol : Symbol} {args : List TermId}
    (pure : Arena.pureFunctor goal symbol args.length) (form : formOf symbol args = .predicate) :
    ∃ place, symbol = .user place := by
  cases symbol with
  | user place => exact ⟨place, rfl⟩
  | reserved operator =>
    obtain ⟨arity, listed⟩ := pure
    obtain ⟨left, right, rfl⟩ := List.length_eq_two.mp arity
    simp only [List.mem_cons, List.not_mem_nil, or_false] at listed
    rcases listed with rfl | rfl | rfl | rfl <;> simp [formOf, Compound.form] at form

structure Heads (program : Program) (base ledger : Ledger) (goal head equation : TermId)
    (names : Renaming) (later : Ledger) : Prop where
  steady : Steady program base later
  names_usable : ∀ entry ∈ names, base.Usable entry.2
  new : ledger.size ≤ equation.index
  copies : ∃ copy, later.shape? equation = some (.compound (.reserved .equal) [goal, copy]) ∧
    later.Copies names ledger.size head copy

theorem Tried.heads (pure : program.Pure base.arena) {candidate : Clause × Nat} {equation : TermId}
    {names : Renaming} (tried : Tried program goal ledger candidate equation names later)
    (registered : Steady program base (ledger.register goal (some (.clause candidate.2))))
    (usable : base.Usable goal) :
    Heads program base ledger goal candidate.1.head equation names later := by
  have opening := tried.opening
  have matched := tried.matched
  obtain ⟨copied, rfl, goalLive, copyLive⟩ := matched
  rename_i copy middle
  have headUsable : base.Usable candidate.1.head :=
    .inr (pure.head _ (Array.mem_of_getElem? tried.held))
  have first := copied.grows registered.wellFormed
  obtain ⟨tame, copyUsable, namesUsable⟩ := copied.tame registered.wellFormed registered.grown
    registered.tame (by simpa using headUsable) (by simp)
  have placed := Ledger.allocate_allocates first.wellFormed
    (@Ledger.admits_compound _ (.reserved .equal) _ (Ledger.live_sides goalLive copyLive))
  refine ⟨registered.allocates opening (tame.allocate ?_), namesUsable, first.extends.size_le, copy,
    Ledger.shape?_allocate_size _, ?_⟩
  · rintro symbol args ⟨⟩
    refine ⟨by rintro operator ⟨⟩; rfl, ?_⟩
    simp only [List.mem_cons, List.not_mem_nil, or_false]
    rintro arg (rfl | rfl)
    · exact usable
    · exact copyUsable arg (by simp)
  · exact ((copied.copies registered.wellFormed).2 (_, copy) (by simp)).later placed.extends
      (Nat.le_refl _) fun _ _ known => known

/-- A goal follows from a clause if the equation with its head holds and the body follows. -/
theorem Heads.derivable {clause : Clause} {equation : TermId} {names named : Renaming}
    (heads : Heads program base ledger goal clause.head equation names later)
    (listed : clause ∈ program.clauses) (fits : program.Fits base) (wellFormed : base.WellFormed)
    {last : Ledger} (grown : last.Extends later) (reads : Reads ρ last)
    (matched : Derivable program base.arena (ρ equation))
    (kept : ∀ var name, names.lookup var = some name → named.lookup var = some name)
    (body : ∀ body, clause.body = some body → ∃ copy since, last.Copies named since body copy ∧
      Derivable program base.arena (ρ copy)) : Derivable program base.arena (ρ goal) := by
  obtain ⟨copy, shape, copies⟩ := heads.copies
  rw [reads.compound (grown.shape shape)] at matched
  have same := matched.sides fits wellFormed
  have onward := grown.trans heads.steady.grown
  let values (var : TermId) : Tree := ((named.lookup var).map ρ).getD (ρ var)
  have valued : ∀ var name, named.lookup var = some name → values var = ρ name := by
    intro var name known
    simp only [values, known, Option.map_some, Option.getD_some]
  have headCopies := copies.later grown (Nat.le_refl _) kept
  obtain ⟨index, held⟩ := Array.getElem?_of_mem listed
  refine .clause values listed ?_ fun term has => ?_
  · rw [same]
    exact headCopies.ground reads onward wellFormed (fits.headLive held) valued
  · obtain ⟨bodyCopy, since, bodyCopies, follows⟩ := body term has
    rw [bodyCopies.ground reads onward wellFormed (fits.body held has) valued]
    exact follows

/-- A copy of the body of a pure clause is a pure goal whose parts are new. -/
theorem Begins.pure {body copy : TermId} {names named : Renaming}
    (begins : Begins program body names ledger copy named later)
    (pure : base.arena.PureGoal body) (steady : Steady program base ledger)
    (namesUsable : ∀ entry ∈ names, base.Usable entry.2) :
    Steady program base later ∧ base.Usable copy ∧
      later.arena.Callable (fun id symbol arity => ledger.size ≤ id.index ∧
        Arena.pureFunctor id symbol arity) copy := by
  have grown := begins.copied.grows steady.wellFormed
  have usable : base.Usable body := .inr pure.plain
  obtain ⟨tame, copyUsable, -⟩ := begins.copied.tame steady.wellFormed steady.grown steady.tame
    (by simpa using usable) namesUsable
  refine ⟨steady.allocates grown tame, copyUsable copy (by simp), ?_⟩
  refine begins.copies.callable
    (Ledger.callable_later (grown.extends.trans steady.grown) pure.callable) ?_
  exact fun goal fresh symbol arity new allowed => ⟨new, allowed⟩

end Resolvent
