import Resolvent.Term.Difference
import Resolvent.Proofs.Ledger.Allocation

namespace Resolvent

namespace Ledger

variable {ledger : Ledger}

inductive Strips :
    Ledger → List (TermId × TermId) → List (TermId × TermId) → Ledger → Prop where
  | done {ledger : Ledger} : Strips ledger [] [] ledger
  | same {ledger later : Ledger} {left right : TermId} {rest kept : List (TermId × TermId)}
      (equal : ledger.arena.deref left = ledger.arena.deref right)
      (goesOn : Strips ledger rest kept later) : Strips ledger ((left, right) :: rest) kept later
  | sameNumber {ledger later : Ledger} {left right : TermId} {value : Rational}
      {rest kept : List (TermId × TermId)}
      (leftShape : ledger.shape? (ledger.arena.deref left) = some (.number value))
      (rightShape : ledger.shape? (ledger.arena.deref right) = some (.number value))
      (goesOn : Strips ledger rest kept later) : Strips ledger ((left, right) :: rest) kept later
  | keeps {ledger later : Ledger} {left right : TermId} {pair : TermId × TermId}
      {rest kept : List (TermId × TermId)}
      (ends : pair = (left, right) ∨
        pair = (ledger.arena.deref left, ledger.arena.deref right))
      (goesOn : Strips ledger rest kept later) :
      Strips ledger ((left, right) :: rest) (pair :: kept) later
  | agrees {ledger middle later : Ledger} {left right : TermId} {first second : Symbol}
      {lefts rights : List TermId} {rest kept : List (TermId × TermId)}
      (different : ledger.arena.deref left ≠ ledger.arena.deref right)
      (leftShape : ledger.shape? (ledger.arena.deref left) = some (.compound first lefts))
      (rightShape : ledger.shape? (ledger.arena.deref right) = some (.compound second rights))
      (inside : Strips ledger (lefts.zip rights) [] middle)
      (goesOn : Strips middle rest kept later) : Strips ledger ((left, right) :: rest) kept later
  | builds {ledger middle later : Ledger} {left right : TermId} {first second : Symbol}
      {lefts rights : List TermId} {rest inner kept : List (TermId × TermId)}
      (different : ledger.arena.deref left ≠ ledger.arena.deref right)
      (leftShape : ledger.shape? (ledger.arena.deref left) = some (.compound first lefts))
      (rightShape : ledger.shape? (ledger.arena.deref right) = some (.compound second rights))
      (inside : Strips ledger (lefts.zip rights) inner middle)
      (goesOn : Strips
        ((middle.allocate (.compound first (inner.map Prod.fst))).allocate
          (.compound second (inner.map Prod.snd))) rest kept later) :
      Strips ledger ((left, right) :: rest)
        ((⟨middle.size⟩, ⟨(middle.allocate (.compound first (inner.map Prod.fst))).size⟩) :: kept)
        later

theorem live_sides_of {pairs : List (TermId × TermId)}
    (live : ∀ pair ∈ pairs, ledger.LivePair pair) :
    (∀ arg ∈ pairs.map Prod.fst, ledger.Live arg) ∧
      ∀ arg ∈ pairs.map Prod.snd, ledger.Live arg :=
  ⟨List.forall_mem_map.mpr fun pair member => (live pair member).1,
    List.forall_mem_map.mpr fun pair member => (live pair member).2⟩

theorem Allocates.livePair {later earlier : Ledger} (grown : later.Allocates earlier)
    {pair : TermId × TermId} (live : earlier.LivePair pair) : later.LivePair pair :=
  ⟨grown.live live.1, grown.live live.2⟩

theorem Allocates.livePairs {later earlier : Ledger} (grown : later.Allocates earlier)
    {pairs : List (TermId × TermId)} (live : ∀ pair ∈ pairs, earlier.LivePair pair) :
    ∀ pair ∈ pairs, later.LivePair pair :=
  fun pair member => grown.livePair (live pair member)

theorem allocate_sides (wellFormed : ledger.WellFormed) {pairs : List (TermId × TermId)}
    (live : ∀ pair ∈ pairs, ledger.LivePair pair) (first second : Symbol) :
    ((ledger.allocate (.compound first (pairs.map Prod.fst))).allocate
      (.compound second (pairs.map Prod.snd))).Allocates
        (ledger.allocate (.compound first (pairs.map Prod.fst))) ∧
      (ledger.allocate (.compound first (pairs.map Prod.fst))).Allocates ledger := by
  obtain ⟨lefts, rights⟩ := live_sides_of live
  have left := allocate_allocates wellFormed (@admits_compound _ first _ lefts)
  exact ⟨allocate_allocates left.wellFormed
    (@admits_compound _ second _ fun arg member => left.live (rights arg member)), left⟩

theorem Strips.grows {pairs kept : List (TermId × TermId)} {later : Ledger}
    (strips : Strips ledger pairs kept later) (wellFormed : ledger.WellFormed)
    (live : ∀ pair ∈ pairs, ledger.LivePair pair) :
    later.Allocates ledger ∧ ∀ pair ∈ kept, later.LivePair pair := by
  induction strips with
  | done => exact ⟨.refl wellFormed, by simp⟩
  | same _ _ ih | sameNumber _ _ _ ih =>
    exact ih wellFormed (List.forall_mem_cons.mp live).2
  | keeps ends _ ih =>
    obtain ⟨here, onward⟩ := List.forall_mem_cons.mp live
    obtain ⟨grown, others⟩ := ih wellFormed onward
    refine ⟨grown, List.forall_mem_cons.mpr ⟨?_, others⟩⟩
    rcases ends with rfl | rfl
    · exact grown.livePair here
    · exact grown.livePair ⟨wellFormed.live_deref here.1, wellFormed.live_deref here.2⟩
  | agrees _ leftShape rightShape _ _ insideIh ih =>
    obtain ⟨first, -⟩ := insideIh wellFormed (wellFormed.live_zip leftShape rightShape)
    obtain ⟨second, others⟩ := ih first.wellFormed (first.livePairs (List.forall_mem_cons.mp live).2)
    exact ⟨second.trans first, others⟩
  | builds _ leftShape rightShape _ _ insideIh ih =>
    obtain ⟨before, inner⟩ := insideIh wellFormed (wellFormed.live_zip leftShape rightShape)
    obtain ⟨right, left⟩ := allocate_sides before.wellFormed inner _ _
    have whole := (right.trans left).trans before
    obtain ⟨after, others⟩ := ih right.wellFormed (whole.livePairs (List.forall_mem_cons.mp live).2)
    exact ⟨after.trans whole, List.forall_mem_cons.mpr
      ⟨⟨after.live (right.live (live_allocate _ _)), after.live (live_allocate _ _)⟩, others⟩⟩

theorem Strips.cons {pair : TermId × TermId} {rest kept more : List (TermId × TermId)}
    {middle later : Ledger} (first : Strips ledger [pair] kept middle)
    (others : Strips middle rest more later) :
    Strips ledger (pair :: rest) (kept ++ more) later := by
  cases first with
  | same equal goesOn =>
    cases goesOn
    exact .same equal others
  | sameNumber leftShape rightShape goesOn =>
    cases goesOn
    exact .sameNumber leftShape rightShape others
  | keeps ends goesOn =>
    cases goesOn
    exact .keeps ends others
  | agrees different leftShape rightShape inside goesOn =>
    cases goesOn
    exact .agrees different leftShape rightShape inside others
  | builds different leftShape rightShape inside goesOn =>
    cases goesOn
    exact .builds different leftShape rightShape inside others

theorem stripAll_arena
    {strip : Arena → TermId × TermId → Option (TermId × TermId) × Arena}
    (each : ∀ (ledger : Ledger) (pair : TermId × TermId), ledger.WellFormed →
      ledger.LivePair pair → ∃ kept, ∃ later : Ledger, strip ledger.arena pair = (kept, later.arena) ∧
        Strips ledger [pair] kept.toList later)
    (wellFormed : ledger.WellFormed) {pairs : List (TermId × TermId)}
    (live : ∀ pair ∈ pairs, ledger.LivePair pair) :
    ∃ kept, ∃ later : Ledger, Arena.stripAll strip ledger.arena pairs = (kept, later.arena) ∧
      Strips ledger pairs kept later := by
  induction pairs generalizing ledger with
  | nil => exact ⟨[], ledger, rfl, .done⟩
  | cons pair pairs ih =>
    have here := live pair (by simp)
    obtain ⟨kept, middle, run, strips⟩ := each ledger pair wellFormed here
    obtain ⟨grown, -⟩ := strips.grows wellFormed (by simpa using here)
    obtain ⟨rest, last, restRun, others⟩ :=
      ih grown.wellFormed (grown.livePairs (List.forall_mem_cons.mp live).2)
    exact ⟨kept.toList ++ rest, last, by simp only [Arena.stripAll, run, restRun],
      strips.cons others⟩

theorem stripWithin_arena (fuel : Nat) (ledger : Ledger) (pair : TermId × TermId)
    (wellFormed : ledger.WellFormed) (live : ledger.LivePair pair) :
    ∃ kept, ∃ later : Ledger, Arena.stripWithin fuel ledger.arena pair = (kept, later.arena) ∧
      Strips ledger [pair] kept.toList later := by
  induction fuel generalizing ledger pair with
  | zero => exact ⟨some pair, ledger, rfl, .keeps (.inl rfl) .done⟩
  | succ fuel ih =>
    obtain ⟨left, right⟩ := pair
    have leftLive := wellFormed.live_deref live.1
    have rightLive := wellFormed.live_deref live.2
    simp only [Arena.stripWithin]
    split
    · next equal => exact ⟨none, ledger, rfl, .same equal .done⟩
    · next different =>
      split
      · next first second firstNode secondNode =>
        by_cases equal : first = second
        · subst equal
          exact ⟨none, ledger, by simp,
            .sameNumber (shape_of_number firstNode) (shape_of_number secondNode) .done⟩
        · exact ⟨some _, ledger, by simp [equal], .keeps (.inr rfl) .done⟩
      · next first second firstNode secondNode =>
        have leftShape := (shape_of_compound firstNode).1
        have rightShape := (shape_of_compound secondNode).1
        have args := wellFormed.live_zip leftShape rightShape
        obtain ⟨kept, middle, run, strips⟩ := stripAll_arena ih wellFormed args
        obtain ⟨grown, keptLive⟩ := strips.grows wellFormed args
        rw [run]
        cases kept with
        | nil => exact ⟨none, middle, rfl, .agrees different leftShape rightShape strips .done⟩
        | cons entry rest =>
          obtain ⟨lefts, rights⟩ := live_sides_of keptLive
          obtain ⟨-, leftGrown⟩ := allocate_sides grown.wellFormed keptLive first.symbol second.symbol
          simp only [arena_compound grown.wellFormed lefts,
            arena_compound leftGrown.wellFormed fun arg member => leftGrown.live (rights arg member)]
          exact ⟨some _, _, rfl, .builds different leftShape rightShape strips .done⟩
      · exact ⟨some _, ledger, rfl, .keeps (.inr rfl) .done⟩

theorem strip_arena (wellFormed : ledger.WellFormed) {left right : TermId}
    (leftLive : ledger.Live left) (rightLive : ledger.Live right) :
    ∃ kept, ∃ later : Ledger, ledger.arena.strip left right = (kept, later.arena) ∧
      Strips ledger [(left, right)] kept.toList later :=
  stripWithin_arena _ ledger (left, right) wellFormed ⟨leftLive, rightLive⟩

end Ledger

end Resolvent
