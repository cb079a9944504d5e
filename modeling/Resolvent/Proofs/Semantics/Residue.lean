import Resolvent.Proofs.Ledger.Waking
import Resolvent.Proofs.Semantics.MostGeneral
import Resolvent.Proofs.Semantics.Verdicts

namespace Resolvent

namespace Ledger

variable {ledger later : Ledger} {id left right : TermId}

theorem Acyclic.shape_of_number (acyclic : ledger.Acyclic) (wellFormed : ledger.WellFormed)
    (live : ledger.Live id) {number : Rational} (known : ledger.value id = .number number) :
    ledger.shape? (ledger.arena.deref id) = some (.number number) := by
  obtain ⟨shape, held⟩ := (wellFormed.live_deref live).shape
  cases shape with
  | number other =>
    rw [acyclic.value_number wellFormed live held, Value.number.injEq] at known
    rw [held, known]
  | var => simp [acyclic.value_var wellFormed live held] at known
  | compound symbol args => simp [acyclic.value_compound wellFormed live held] at known

theorem Acyclic.deref_of_var (acyclic : ledger.Acyclic) (wellFormed : ledger.WellFormed)
    (live : ledger.Live id) {var : TermId} (known : ledger.value id = .var var) :
    ledger.arena.deref id = var := by
  obtain ⟨shape, held⟩ := (wellFormed.live_deref live).shape
  cases shape with
  | number other => simp [acyclic.value_number wellFormed live held] at known
  | var => simpa [acyclic.value_var wellFormed live held] using known
  | compound symbol args => simp [acyclic.value_compound wellFormed live held] at known

theorem Acyclic.shape_of_compound (acyclic : ledger.Acyclic) (wellFormed : ledger.WellFormed)
    (live : ledger.Live id) {symbol : Symbol} {values : List Value}
    (known : ledger.value id = .compound symbol values) :
    ∃ args, ledger.shape? (ledger.arena.deref id) = some (.compound symbol args) ∧
      args.map ledger.value = values := by
  obtain ⟨shape, held⟩ := (wellFormed.live_deref live).shape
  cases shape with
  | number other => simp [acyclic.value_number wellFormed live held] at known
  | var => simp [acyclic.value_var wellFormed live held] at known
  | compound other args =>
    rw [acyclic.value_compound wellFormed live held, Value.compound.injEq] at known
    exact ⟨args, by rw [held, known.1], known.2⟩

theorem stripAll_none {fuel : Nat} {pairs : List (TermId × TermId)}
    (each : ∀ pair ∈ pairs,
      Arena.stripWithin fuel ledger.arena pair = (none, ledger.arena)) :
    Arena.stripAll (Arena.stripWithin fuel) ledger.arena pairs = ([], ledger.arena) := by
  induction pairs with
  | nil => rfl
  | cons pair rest ih =>
    have others := ih (List.forall_mem_cons.mp each).2
    simp only [Arena.stripAll, each pair List.mem_cons_self, others]
    rfl

theorem Within.strip_none {fuel : Nat} (within : ledger.Within fuel left) (acyclic : ledger.Acyclic)
    (wellFormed : ledger.WellFormed) (leftLive : ledger.Live left) (rightLive : ledger.Live right)
    (same : ledger.value left = ledger.value right) :
    Arena.stripWithin fuel ledger.arena (left, right) = (none, ledger.arena) := by
  induction within generalizing right with
  | @number fuel left value leftShape =>
    rw [acyclic.value_number wellFormed leftLive leftShape] at same
    have rightShape := acyclic.shape_of_number wellFormed rightLive same.symm
    simp only [Arena.stripWithin, node_number leftShape, node_number rightShape, if_true, ite_self]
  | @var fuel left leftShape =>
    rw [acyclic.value_var wellFormed leftLive leftShape] at same
    have ends := acyclic.deref_of_var wellFormed rightLive same.symm
    simp only [Arena.stripWithin, ends, if_true]
  | @compound fuel left symbol lefts leftShape each ih =>
    rw [acyclic.value_compound wellFormed leftLive leftShape] at same
    obtain ⟨rights, rightShape, args⟩ := acyclic.shape_of_compound wellFormed rightLive same.symm
    have inner := @stripAll_none ledger fuel (lefts.zip rights) fun pair member =>
      have sides := List.of_mem_zip member
      ih pair.1 sides.1 (wellFormed.live_args leftShape _ sides.1)
        (wellFormed.live_args rightShape _ sides.2) (zip_eq_of_map args.symm pair member)
    simp only [Arena.stripWithin, node_compound leftShape, node_compound rightShape, inner, ite_self]

theorem Acyclic.strip_none (acyclic : ledger.Acyclic) (wellFormed : ledger.WellFormed)
    (leftLive : ledger.Live left) (rightLive : ledger.Live right)
    (same : ledger.value left = ledger.value right) :
    ledger.arena.strip left right = (none, ledger.arena) := by
  rw [Arena.strip, size_arena]
  exact (acyclic.within wellFormed leftLive).strip_none acyclic wellFormed leftLive rightLive same

def Mentions (ledger : Ledger) (pairs : List (TermId × TermId)) (var : TermId) : Prop :=
  ∃ pair ∈ pairs, var ∈ (ledger.value pair.1).vars ∨ var ∈ (ledger.value pair.2).vars

variable {pair : TermId × TermId} {pairs rest kept : List (TermId × TermId)} {var : TermId}

theorem mentions_cons : ledger.Mentions (pair :: rest) var ↔
    (var ∈ (ledger.value pair.1).vars ∨ var ∈ (ledger.value pair.2).vars) ∨
      ledger.Mentions rest var := by
  simp [Mentions]

theorem Allocates.mentions (grown : later.Allocates ledger) (acyclic : ledger.Acyclic)
    (wellFormed : ledger.WellFormed) (live : ∀ pair ∈ pairs, ledger.LivePair pair) :
    later.Mentions pairs var ↔ ledger.Mentions pairs var := by
  refine exists_congr fun pair => and_congr_right fun member => ?_
  rw [acyclic.value_allocates wellFormed grown (live pair member).1,
    acyclic.value_allocates wellFormed grown (live pair member).2]

theorem Acyclic.mentions_args (acyclic : ledger.Acyclic) (wellFormed : ledger.WellFormed)
    (live : ledger.LivePair (left, right)) {first second : Symbol} {lefts rights : List TermId}
    (leftShape : ledger.shape? (ledger.arena.deref left) = some (.compound first lefts))
    (rightShape : ledger.shape? (ledger.arena.deref right) = some (.compound second rights))
    (mentions : ledger.Mentions (lefts.zip rights) var) : ledger.Mentions [(left, right)] var := by
  obtain ⟨pair, member, inside⟩ := mentions
  obtain ⟨leftMember, rightMember⟩ := List.of_mem_zip member
  refine ⟨(left, right), by simp, ?_⟩
  rw [acyclic.value_compound wellFormed live.1 leftShape,
    acyclic.value_compound wellFormed live.2 rightShape, Value.vars_compound, Value.vars_compound,
    List.mem_flatMap, List.mem_flatMap]
  exact inside.imp (fun here => ⟨_, List.mem_map_of_mem leftMember, here⟩)
    fun here => ⟨_, List.mem_map_of_mem rightMember, here⟩

theorem Acyclic.mentions_sides (acyclic : ledger.Acyclic) (wellFormed : ledger.WellFormed)
    (live : ∀ pair ∈ pairs, ledger.LivePair pair) (first second : Symbol)
    (mentions : ((ledger.allocate (.compound first (pairs.map Prod.fst))).allocate
      (.compound second (pairs.map Prod.snd))).Mentions
        [(⟨ledger.size⟩, ⟨(ledger.allocate (.compound first (pairs.map Prod.fst))).size⟩)] var) :
    ledger.Mentions pairs var := by
  obtain ⟨lefts, rights⟩ := live_sides_of live
  obtain ⟨right, left⟩ := allocate_sides wellFormed live first second
  have leftAcyclic := acyclic.allocates wellFormed left
  obtain ⟨_, member, inside⟩ := mentions
  obtain rfl := List.mem_singleton.mp member
  simp only at inside
  rw [leftAcyclic.value_allocates left.wellFormed right (live_allocate _ _),
    acyclic.value_new_compound wellFormed lefts,
    leftAcyclic.value_new_compound left.wellFormed fun arg member => left.live (rights arg member),
    Value.vars_compound, Value.vars_compound, List.mem_flatMap, List.mem_flatMap] at inside
  rcases inside with ⟨value, listed, here⟩ | ⟨value, listed, here⟩
  · simp only [List.map_map, List.mem_map] at listed
    obtain ⟨pair, member, rfl⟩ := listed
    exact ⟨pair, member, .inl here⟩
  · simp only [List.map_map, List.mem_map] at listed
    obtain ⟨pair, member, rfl⟩ := listed
    refine ⟨pair, member, .inr ?_⟩
    rwa [Function.comp_apply, acyclic.value_allocates wellFormed left (live pair member).2] at here

theorem Strips.mentions (strips : Strips ledger pairs kept later) (acyclic : ledger.Acyclic)
    (wellFormed : ledger.WellFormed) (live : ∀ pair ∈ pairs, ledger.LivePair pair)
    (mentions : later.Mentions kept var) : ledger.Mentions pairs var := by
  induction strips with
  | done => exact mentions
  | same _ _ ih | sameNumber _ _ _ ih =>
    exact mentions_cons.mpr (.inr (ih acyclic wellFormed (List.forall_mem_cons.mp live).2 mentions))
  | @keeps ledger later left right pair rest kept ends goesOn ih =>
    have here := live _ List.mem_cons_self
    have others := (List.forall_mem_cons.mp live).2
    have grown := (goesOn.grows wellFormed others).1
    rcases mentions_cons.mp mentions with inside | inside
    · refine mentions_cons.mpr (.inl ?_)
      rcases ends with rfl | rfl
      · rwa [acyclic.value_allocates wellFormed grown here.1,
          acyclic.value_allocates wellFormed grown here.2] at inside
      · rwa [acyclic.value_allocates wellFormed grown (wellFormed.live_deref here.1),
          acyclic.value_allocates wellFormed grown (wellFormed.live_deref here.2),
          acyclic.value_deref wellFormed here.1, acyclic.value_deref wellFormed here.2] at inside
    · exact mentions_cons.mpr (.inr (ih acyclic wellFormed others inside))
  | agrees _ leftShape rightShape inside _ _ ih =>
    have others := (List.forall_mem_cons.mp live).2
    have grown := (inside.grows wellFormed (wellFormed.live_zip leftShape rightShape)).1
    have within := ih (acyclic.allocates wellFormed grown) grown.wellFormed
      (grown.livePairs others) mentions
    exact mentions_cons.mpr (.inr ((grown.mentions acyclic wellFormed others).mp within))
  | @builds ledger middle later left right first second lefts rights rest inner kept _ leftShape
      rightShape inside goesOn insideIh ih =>
    have here := live _ List.mem_cons_self
    have others := (List.forall_mem_cons.mp live).2
    have args := wellFormed.live_zip leftShape rightShape
    obtain ⟨grown, innerLive⟩ := inside.grows wellFormed args
    obtain ⟨rightGrown, leftGrown⟩ := allocate_sides grown.wellFormed innerLive first second
    have middleAcyclic := acyclic.allocates wellFormed grown
    have built := rightGrown.trans leftGrown
    have builtAcyclic := middleAcyclic.allocates grown.wellFormed built
    have whole := built.trans grown
    have restLive := whole.livePairs others
    have onward := (goesOn.grows rightGrown.wellFormed restLive).1
    have newLive : ∀ pair ∈ [((⟨middle.size⟩ : TermId),
        (⟨(middle.allocate (.compound first (inner.map Prod.fst))).size⟩ : TermId))],
        ((middle.allocate (.compound first (inner.map Prod.fst))).allocate
          (.compound second (inner.map Prod.snd))).LivePair pair := by
      simpa using ⟨rightGrown.live (live_allocate _ _), live_allocate _ _⟩
    rcases mentions_cons.mp mentions with within | within
    · have early := (onward.mentions builtAcyclic rightGrown.wellFormed newLive).mp
        (mentions_cons.mpr (.inl within))
      have inArgs := insideIh acyclic wellFormed args
        (middleAcyclic.mentions_sides grown.wellFormed innerLive first second early)
      obtain ⟨pair, member, found⟩ := acyclic.mentions_args wellFormed here leftShape rightShape inArgs
      obtain rfl := List.mem_singleton.mp member
      exact mentions_cons.mpr (.inl found)
    · have inRest := ih builtAcyclic rightGrown.wellFormed restLive within
      exact mentions_cons.mpr (.inr ((whole.mentions acyclic wellFormed others).mp inRest))

end Ledger

structure Arena.Adds (after before : Arena) : Prop where
  size_le : before.size ≤ after.size
  node : ∀ id, before.contains id = true → after.node id = before.node id
  previous : ∀ id, before.contains id = true → after.previous id = before.previous id
  parents : ∀ id, before.contains id = true →
    ∃ added, after.parents id = added ++ before.parents id ∧
      ∀ parent ∈ added, before.contains parent = false

namespace Arena

variable {before middle after : Arena} {id : TermId}

theorem Adds.refl (arena : Arena) : arena.Adds arena :=
  ⟨Nat.le_refl _, fun _ _ => rfl, fun _ _ => rfl, fun _ _ => ⟨[], rfl, by simp⟩⟩

theorem Adds.contains (adds : after.Adds before) (inside : before.contains id = true) :
    after.contains id = true :=
  decide_eq_true (Nat.lt_of_lt_of_le (of_decide_eq_true inside) adds.size_le)

theorem Adds.outside (adds : after.Adds before) (outside : after.contains id = false) :
    before.contains id = false :=
  Bool.eq_false_iff.mpr fun inside => by simp [adds.contains inside] at outside

theorem Adds.trans (late : after.Adds middle) (early : middle.Adds before) : after.Adds before where
  size_le := early.size_le.trans late.size_le
  node id inside := (late.node id (early.contains inside)).trans (early.node id inside)
  previous id inside := (late.previous id (early.contains inside)).trans (early.previous id inside)
  parents id inside := by
    obtain ⟨first, early', new⟩ := early.parents id inside
    obtain ⟨second, late', newer⟩ := late.parents id (early.contains inside)
    refine ⟨second ++ first, by rw [late', early', List.append_assoc], fun parent member => ?_⟩
    rcases List.mem_append.mp member with listed | listed
    · exact early.outside (newer parent listed)
    · exact new parent listed

end Arena

/-- A pair that stands for two terms: no substitution makes one pair equal and not the other, and
    each variable of the pair is one of the terms. -/
structure Residue (before after : Arena) (left right : TermId) (pair : TermId × TermId) : Prop where
  inside : after.contains pair.1 = true ∧ after.contains pair.2 = true
  same_iff : ∀ change : TermId → Value,
    (after.value pair.1).subst change = (after.value pair.2).subst change ↔
      (before.value left).subst change = (before.value right).subst change
  vars : ∀ var, var ∈ (after.value pair.1).vars ∨ var ∈ (after.value pair.2).vars →
    var ∈ (before.value left).vars ∨ var ∈ (before.value right).vars

namespace Ledger

variable {ledger later : Ledger} {id left right : TermId}

theorem Allocates.adds (grown : later.Allocates ledger) : later.arena.Adds ledger.arena := by
  obtain ⟨-, shapes, rfl⟩ := grown
  have old {id : TermId} (inside : ledger.arena.contains id = true) := (contains_arena ledger id).mp inside
  have live {id : TermId} (old : ledger.Live id) :
      ({ ledger with terms := ledger.terms ++ shapes } : Ledger).Live id := by
    simp only [Live, size, List.length_append] at old ⊢
    omega
  refine ⟨by simp [size], fun id inside => ?_, fun id inside => ?_, fun id inside => ?_⟩
  · have known : ({ ledger with terms := ledger.terms ++ shapes } : Ledger).shape? id =
        ledger.shape? id := by
      rw [shape?, shape?, List.getElem?_append_left (old inside)]
    rw [node_arena, node_arena, known]
    rfl
  · rw [previous_arena (live (old inside)), previous_arena (old inside)]
    rfl
  · rw [parents_arena (live (old inside)), parents_arena (old inside), parents, parents]
    simp only [List.zipIdx_append, List.flatMap_append, List.reverse_append]
    refine ⟨_, rfl, fun parent member => ?_⟩
    rw [List.mem_reverse, List.mem_flatMap] at member
    obtain ⟨⟨shape, index⟩, listed, inside⟩ := member
    have place := List.le_snd_of_mem_zipIdx listed
    obtain rfl := List.eq_of_mem_replicate inside
    rw [Bool.eq_false_iff, Ne, contains_arena, Live, size]
    simp only at place ⊢
    omega

section

variable {kept : Option (TermId × TermId)} (acyclic : ledger.Acyclic) (wellFormed : ledger.WellFormed)
  (leftLive : ledger.Live left) (rightLive : ledger.Live right)
  (unify : (ledger.value left).Unify (ledger.value right))

include acyclic wellFormed leftLive rightLive

theorem joined_of_unify (unify : (ledger.value left).Unify (ledger.value right)) :
    ∃ after : Ledger, after.Binds ledger ∧ after.Joined left right := by
  rcases unify_state wellFormed leftLive rightLive with ⟨after, solves, grown, -⟩ | ⟨clash, solves, -⟩
  · have live := leftLive.pair rightLive
    exact ⟨after, grown, solves.joined wellFormed live rfl (left, right) (by simp)⟩
  · exact absurd unify (solves.apart acyclic wellFormed leftLive rightLive)

include unify

/-- Trees for the variables make what is left of two terms equal just if they make the terms so. -/
theorem Strips.ground_iff (strips : Strips ledger [(left, right)] kept.toList later)
    (values : TermId → Tree) :
    (∀ pair ∈ kept, (later.value pair.1).ground values = (later.value pair.2).ground values) ↔
      (ledger.value left).ground values = (ledger.value right).ground values := by
  have live := leftLive.pair rightLive
  obtain ⟨grown, keptLive⟩ := strips.grows wellFormed live
  obtain ⟨after, unified, joined⟩ := joined_of_unify acyclic wellFormed leftLive rightLive unify
  have models := (acyclic.allocates wellFormed grown).models grown.wellFormed values
  rw [← acyclic.value_allocates wellFormed grown leftLive,
    ← acyclic.value_allocates wellFormed grown rightLive]
  constructor
  · intro same
    exact strips.different (.refl wellFormed) wellFormed unified live (by simpa using joined) models
      (fun pair member => same pair (Option.mem_toList.mp member)) (left, right) (by simp)
  · intro same pair member
    refine strips.equal wellFormed live models (fun other listed => ?_) pair
      (Option.mem_toList.mpr member)
    obtain rfl := List.mem_singleton.mp listed
    exact same

/-- Whatever substitution is made, what is left of two terms is made equal just if they are. -/
theorem Strips.subst_iff (strips : Strips ledger [(left, right)] kept.toList later)
    (change : TermId → Value) :
    (∀ pair ∈ kept, (later.value pair.1).subst change = (later.value pair.2).subst change) ↔
      (ledger.value left).subst change = (ledger.value right).subst change := by
  -- Substituted values are equal if all trees for what their variables became make the values so.
  have trees (first second : Value) : first.subst change = second.subst change ↔ ∀ values,
      first.ground (fun id => (change id).ground values) =
        second.ground fun id => (change id).ground values := by
    simp only [← Value.ground_subst]
    exact ⟨fun same values => congrArg (Value.ground values) same, Value.eq_of_ground⟩
  simp only [trees]
  constructor
  · intro same values
    exact (strips.ground_iff acyclic wellFormed leftLive rightLive unify _).mp
      fun pair member => same pair member values
  · intro same pair member values
    exact (strips.ground_iff acyclic wellFormed leftLive rightLive unify _).mpr (same values) pair member

theorem Strips.none_iff (ran : ledger.arena.strip left right = (kept, later.arena))
    (strips : Strips ledger [(left, right)] kept.toList later) :
    kept = none ↔ ledger.value left = ledger.value right := by
  constructor
  · rintro rfl
    have equal := (strips.subst_iff acyclic wellFormed leftLive rightLive unify .var).mp (by simp)
    rwa [Value.subst_self, Value.subst_self] at equal
  · intro equal
    rw [acyclic.strip_none wellFormed leftLive rightLive equal] at ran
    exact (congrArg Prod.fst ran).symm

theorem Strips.residue (strips : Strips ledger [(left, right)] kept.toList later)
    {pair : TermId × TermId} (known : kept = some pair) :
    Residue ledger.arena later.arena left right pair := by
  subst known
  have live := leftLive.pair rightLive
  obtain ⟨grown, keptLive⟩ := strips.grows wellFormed live
  have pairLive : later.LivePair pair := keptLive pair (by simp)
  refine ⟨⟨(contains_arena later _).mpr pairLive.1, (contains_arena later _).mpr pairLive.2⟩,
    fun change => ?_, fun var inside => ?_⟩
  · have same := strips.subst_iff acyclic wellFormed leftLive rightLive unify change
    simp only [Option.mem_def, Option.some.injEq, forall_eq'] at same
    exact same
  · obtain ⟨source, member, mentioned⟩ :=
      strips.mentions acyclic wellFormed live ⟨pair, by simp, inside⟩
    obtain rfl := List.mem_singleton.mp member
    exact mentioned

end

end Ledger

/-- Nothing is left of two terms that unify just if their values are the same. Whatever is left is
    made equal by the same substitutions. No variable comes in, and only new terms are added. So
    something is left of terms that are unified by binding something. -/
theorem strip_residue {state : State} (sound : state.Sound) {left right : TermId}
    (leftInside : state.arena.contains left = true) (rightInside : state.arena.contains right = true)
    (unify : (state.arena.value left).Unify (state.arena.value right))
    {kept : Option (TermId × TermId)} {after : Arena}
    (run : state.arena.strip left right = (kept, after)) :
    (kept = none ↔ state.arena.value left = state.arena.value right) ∧
    (∀ pair, kept = some pair → Residue state.arena after left right pair) ∧
    after.Adds state.arena ∧
    ∀ tried, state.unify left right = (true, tried) →
      tried.assigned.size ≠ state.assigned.size →
      ((tried.restore state.snapshot).arena.strip left right).1 ≠ none := by
  obtain ⟨ledger, wellFormed, acyclic, counters, rfl⟩ := sound
  have leftLive := (Ledger.contains_arena ledger left).mp leftInside
  have rightLive := (Ledger.contains_arena ledger right).mp rightInside
  obtain ⟨found, later, stripped, strips⟩ := Ledger.strip_arena wellFormed leftLive rightLive
  cases run.symm.trans stripped
  have none_iff := strips.none_iff acyclic wellFormed leftLive rightLive unify stripped
  refine ⟨none_iff, fun pair => strips.residue acyclic wellFormed leftLive rightLive unify,
    (strips.grows wellFormed (by simpa using ⟨leftLive, rightLive⟩)).1.adds,
    fun tried unified bound => ?_⟩
  rcases Ledger.unify_state wellFormed leftLive rightLive with
    ⟨tried, solves, grown, ran⟩ | ⟨clash, solves, ran⟩
  · obtain ⟨others, same⟩ := ran counters
    cases unified.symm.trans same
    rw [Ledger.snapshot_state, Ledger.restore_state grown.wellFormed.toConsistent grown.extends,
      Ledger.arena_state, stripped]
    refine mt none_iff.mp (solves.differ acyclic wellFormed leftLive rightLive ?_)
    rintro rfl
    exact bound (by simp)
  · obtain ⟨others, same⟩ := ran counters
    cases unified.symm.trans same

namespace Pared

def terms : List Shape :=
  [.var, .var, .var, .compound (.user 0) [], .compound (.user 1) [⟨1⟩, ⟨3⟩],
    .compound (.user 1) [⟨3⟩, ⟨3⟩], .compound (.user 2) [⟨0⟩, ⟨3⟩, ⟨4⟩],
    .compound (.user 2) [⟨2⟩, ⟨3⟩, ⟨5⟩]]

def state : State := { arena := (Arena.build? {} terms).getD {} }

def tried : State := (state.unify ⟨6⟩ ⟨7⟩).2

def stripped : Arena := (state.arena.strip ⟨6⟩ ⟨7⟩).2

theorem kept_differing : state.Sound ∧
    state.arena.strip ⟨6⟩ ⟨7⟩ = (some (⟨10⟩, ⟨11⟩), stripped) ∧
    stripped.node ⟨11⟩ = .compound { symbol := .user 2, args := [⟨2⟩, ⟨9⟩] } ∧
    state.unify ⟨6⟩ ⟨7⟩ = (true, tried) ∧
    (state.arena.value ⟨6⟩).Unify (state.arena.value ⟨7⟩) ∧
    state.arena.value ⟨6⟩ ≠ state.arena.value ⟨7⟩ ∧
    Residue state.arena stripped ⟨6⟩ ⟨7⟩ (⟨10⟩, ⟨11⟩) ∧ stripped.Adds state.arena ∧
    ((tried.restore state.snapshot).arena.strip ⟨6⟩ ⟨7⟩).1 ≠ none := by
  have sound : state.Sound := @sound_of_build terms _ {} (by decide +kernel)
  have unify : (state.arena.value ⟨6⟩).Unify (state.arena.value ⟨7⟩) :=
    ⟨fun _ => .compound (.user 0) [], rfl⟩
  have strips : state.arena.strip ⟨6⟩ ⟨7⟩ = (some (⟨10⟩, ⟨11⟩), stripped) :=
    Prod.ext (by decide +kernel) rfl
  have unified : state.unify ⟨6⟩ ⟨7⟩ = (true, tried) := Prod.ext (by decide +kernel) rfl
  obtain ⟨none_iff, residue, adds, used⟩ :=
    strip_residue sound (by decide +kernel) (by decide +kernel) unify strips
  exact ⟨sound, strips, by decide +kernel, unified, unify, mt none_iff.mpr (by simp),
    residue _ rfl, adds, used tried unified (by decide +kernel)⟩

end Pared

end Resolvent
