import Resolvent.Proofs.Search.Ready
import Resolvent.Proofs.Semantics.Unifiers

namespace Resolvent

namespace Ledger

variable {ledger : Ledger} {var target : TermId} {change : TermId → Value}

theorem Opens.value_bound (opens : ledger.Opens var target) (acyclic : ledger.Acyclic)
    (wellFormed : ledger.WellFormed) : (ledger.bind var target).value var = ledger.value target := by
  have binds := opens.binds wellFormed
  have boundAcyclic := opens.acyclic acyclic wellFormed
  have targetLive := binds.live opens.live
  have chained : (ledger.bind var target).arena.deref var =
      (ledger.bind var target).arena.deref target :=
    binds.wellFormed.deref_bound (by simp [binding?_bind, opens.unbound])
  rw [← boundAcyclic.value_deref binds.wellFormed (binds.live (live_of_shape opens.isVar)), chained,
    boundAcyclic.value_deref binds.wellFormed targetLive]
  refine acyclic.value_kept boundAcyclic binds.extends wellFormed binds.wellFormed opens.live
    fun other inside => ?_
  have apart : other ≠ var := by
    rintro rfl
    exact opens.not_mem_vars acyclic wellFormed inside
  simp [binding?_bind, (acyclic.vars_open wellFormed opens.live other inside).2, apart]

def Equalizes (change : TermId → Value) (ledger : Ledger) (pairs : List (TermId × TermId)) : Prop :=
  ∀ pair ∈ pairs, (ledger.value pair.1).subst change = (ledger.value pair.2).subst change

def Absorbs (change : TermId → Value) (later earlier : Ledger) : Prop :=
  ∀ id, earlier.Live id → (later.value id).subst change = (earlier.value id).subst change

variable {middle later : Ledger} {pair : TermId × TermId} {pairs rest : List (TermId × TermId)}

theorem equalizes_single {left right : TermId} :
    Equalizes change ledger [(left, right)] ↔
      (ledger.value left).subst change = (ledger.value right).subst change := by
  simp [Equalizes]

theorem Equalizes.tail (equalizes : Equalizes change ledger (pair :: rest)) :
    Equalizes change ledger rest :=
  (List.forall_mem_cons.mp equalizes).2

theorem Equalizes.ends {left right : TermId}
    (equalizes : Equalizes change ledger ((left, right) :: rest)) (acyclic : ledger.Acyclic)
    (wellFormed : ledger.WellFormed) (live : ledger.LivePair (left, right)) :
    (ledger.value (ledger.arena.deref left)).subst change =
      (ledger.value (ledger.arena.deref right)).subst change := by
  rw [acyclic.value_deref wellFormed live.1, acyclic.value_deref wellFormed live.2]
  exact equalizes _ List.mem_cons_self

theorem Equalizes.args {left right : TermId} {symbol : Symbol} {lefts rights : List TermId}
    (equalizes : Equalizes change ledger ((left, right) :: rest)) (acyclic : ledger.Acyclic)
    (wellFormed : ledger.WellFormed) (live : ledger.LivePair (left, right))
    (leftShape : ledger.shape? (ledger.arena.deref left) = some (.compound symbol lefts))
    (rightShape : ledger.shape? (ledger.arena.deref right) = some (.compound symbol rights)) :
    Equalizes change ledger (lefts.zip rights) := by
  have whole := equalizes _ List.mem_cons_self
  rw [acyclic.value_compound wellFormed live.1 leftShape,
    acyclic.value_compound wellFormed live.2 rightShape, Value.subst_compound,
    Value.subst_compound, Value.compound.injEq, List.map_map, List.map_map] at whole
  exact zip_eq_of_map whole.2

theorem Absorbs.equalizes (absorbs : Absorbs change later ledger)
    (live : ∀ pair ∈ pairs, ledger.LivePair pair) (equalizes : Equalizes change ledger pairs) :
    Equalizes change later pairs := by
  intro pair member
  rw [absorbs _ (live pair member).1, absorbs _ (live pair member).2]
  exact equalizes pair member

theorem Absorbs.trans (late : Absorbs change later middle) (early : Absorbs change middle ledger)
    (grown : middle.Extends ledger) : Absorbs change later ledger :=
  fun id live => (late id (grown.live live)).trans (early id live)

theorem Opens.absorbs (opens : ledger.Opens var target) (acyclic : ledger.Acyclic)
    (wellFormed : ledger.WellFormed) (same : change var = (ledger.value target).subst change) :
    Absorbs change (ledger.bind var target) ledger := by
  intro id live
  have binds := opens.binds wellFormed
  have boundAcyclic := opens.acyclic acyclic wellFormed
  rw [acyclic.value_later boundAcyclic binds.extends wellFormed binds.wellFormed live,
    Value.subst_subst]
  refine Value.subst_congr fun other inside => ?_
  obtain ⟨isVar, unbound⟩ := acyclic.vars_open wellFormed live other inside
  by_cases here : other = var
  · subst here
    rw [opens.value_bound acyclic wellFormed, same]
  · rw [boundAcyclic.value_unassigned binds.wellFormed isVar
      (by simp [binding?_bind, unbound, here]), Value.subst_var]

/-- A substitution that has the same for both terms of each pair absorbs all that is bound to make
    them equal. -/
theorem Solves.absorbs {fuel : Nat} {result : Except Ledger Ledger}
    (solves : Solves fuel ledger pairs result) (acyclic : ledger.Acyclic)
    (wellFormed : ledger.WellFormed) (live : ∀ pair ∈ pairs, ledger.LivePair pair)
    (equalizes : Equalizes change ledger pairs) : Absorbs change (held result) ledger := by
  induction solves with
  | done | spent | clashes => exact fun _ _ => rfl
  | same _ _ ih | sameNumber _ _ _ ih =>
    exact ih acyclic wellFormed (List.forall_mem_cons.mp live).2 equalizes.tail
  | descends leftShape rightShape _ inside _ insideIh ih =>
    have here := live _ List.mem_cons_self
    have args := wellFormed.live_zip leftShape rightShape
    have grown := inside.grows wellFormed args
    have absorbs := insideIh acyclic wellFormed args
      (equalizes.args acyclic wellFormed here leftShape rightShape)
    have others := (List.forall_mem_cons.mp live).2
    refine (ih (inside.acyclic acyclic wellFormed args) grown.wellFormed ?_ ?_).trans absorbs
      grown.extends
    · exact grown.livePairs others
    · exact absorbs.equalizes others equalizes.tail
  | fails leftShape rightShape _ _ ih =>
    exact ih acyclic wellFormed (wellFormed.live_zip leftShape rightShape)
      (equalizes.args acyclic wellFormed (live _ List.mem_cons_self) leftShape rightShape)
  | @binds fuel ledger left right var target rest result opens ends _ ih =>
    have grown := opens.binds wellFormed
    have whole := equalizes.ends acyclic wellFormed (live _ List.mem_cons_self)
    have same : change var = (ledger.value target).subst change := by
      have single : (ledger.value var).subst change = change var := by
        rw [acyclic.value_unassigned wellFormed opens.isVar opens.unbound, Value.subst_var]
      rw [← single]
      rcases ends with ⟨rfl, rfl⟩ | ⟨rfl, rfl⟩
      · exact whole
      · exact whole.symm
    have absorbs := opens.absorbs acyclic wellFormed same
    have others := (List.forall_mem_cons.mp live).2
    refine (ih (opens.acyclic acyclic wellFormed) grown.wellFormed ?_ ?_).trans absorbs grown.extends
    · exact grown.livePairs others
    · exact absorbs.equalizes others equalizes.tail

end Ledger

/-- A state whose stacks are in order and whose bindings make no cycle. -/
def State.Sound (state : State) : Prop :=
  ∃ ledger : Ledger, ledger.WellFormed ∧ ledger.Acyclic ∧ Holds state ledger

def State.bindAll (state : State) (pairs : List (TermId × TermId)) : State :=
  pairs.foldl (fun state pair => state.bind pair.1 pair.2) state

namespace Ledger

variable {ledger : Ledger}

theorem unbound_of_once {front : List (TermId × TermId)} {var target : TermId}
    {rest : List (TermId × TermId)} (once : ((front ++ (var, target) :: rest).map Prod.fst).Nodup) :
    front.lookup var = none := by
  apply lookup_eq_none
  intro entry member same
  rw [List.map_append, List.nodup_append] at once
  exact once.2.2 var (List.mem_map.mpr ⟨entry, member, same⟩) var (by simp) rfl

theorem bindAll_state {pairs : List (TermId × TermId)}
    (wellFormed : ({ ledger with bindings := ledger.bindings ++ pairs } : Ledger).WellFormed)
    (counters : Counters) :
    (ledger.state counters).bindAll pairs =
      ({ ledger with bindings := ledger.bindings ++ pairs } : Ledger).state counters := by
  induction pairs generalizing ledger with
  | nil => simp [State.bindAll]
  | cons pair rest ih =>
    obtain ⟨var, target⟩ := pair
    have listed : (var, target) ∈ ledger.bindings ++ (var, target) :: rest := by simp
    have isVar : ledger.shape? var = some .var := wellFormed.bound_var (var, target) listed
    have bound := @bind_state ledger var target isVar (unbound_of_once wellFormed.bound_once) counters
    rw [State.bindAll, List.foldl_cons, bound]
    have onward := @ih (ledger.bind var target) (by simpa [bind] using wellFormed)
    simpa [State.bindAll, bind] using onward

theorem Binds.unassigned {pairs : List (TermId × TermId)}
    (wellFormed : ({ ledger with bindings := ledger.bindings ++ pairs } : Ledger).WellFormed) :
    ∀ pair ∈ pairs, ledger.shape? pair.1 = some .var ∧ ledger.binding? pair.1 = none := by
  rintro ⟨var, target⟩ member
  obtain ⟨before, after, rfl⟩ := List.append_of_mem member
  have isVar := wellFormed.bound_var (var, target) (by simp)
  have once := wellFormed.bound_once
  rw [← List.append_assoc] at once
  have fresh := unbound_of_once once
  rw [List.lookup_append, Option.or_eq_none_iff] at fresh
  exact ⟨isVar, fresh.1⟩

end Ledger

/-- A substitution that has for each variable what it makes of the variable's value: it goes on from
    the bindings, or comes after them. -/
def Arena.Follows (arena : Arena) (change : TermId → Value) : Prop :=
  ∀ var cell, arena.contains var = true → arena.node var = .var cell →
    change var = (arena.value var).subst change

/-- Later bindings are the most general ones that go on from the earlier ones and give two terms one
    value. Whatever substitution does so comes after them. -/
structure MostGeneral (before after : Arena) (left right : TermId) : Prop where
  later : ∀ id, before.contains id = true → after.value id = (before.value id).subst after.value
  equal : after.value left = after.value right
  general : ∀ change, before.Follows change →
    (before.value left).subst change = (before.value right).subst change → after.Follows change

structure State.Binding (before after : State) (pairs : List (TermId × TermId)) : Prop where
  state : after = { before.bindAll pairs with counters := after.counters }
  once : (pairs.map Prod.fst).Nodup
  unassigned : ∀ pair ∈ pairs,
    before.arena.contains pair.1 = true ∧ before.arena.isUnassigned pair.1 = true
  target : ∀ pair ∈ pairs, before.arena.contains pair.2 = true

namespace Ledger

variable {ledger later : Ledger} {left right : TermId}

theorem isUnassigned_arena {var : TermId} (isVar : ledger.shape? var = some .var)
    (unbound : ledger.binding? var = none) : ledger.arena.isUnassigned var = true := by
  simp [Arena.isUnassigned, node_var isVar, unbound]

theorem Binds.binding (grown : later.Binds ledger) (counters others : Counters) :
    ∃ pairs, (ledger.state counters).Binding (later.state others) pairs ∧
      (pairs = [] ↔ later = ledger) := by
  obtain ⟨wellFormed, pairs, rfl⟩ := grown
  have unassigned := Binds.unassigned wellFormed
  refine ⟨pairs, ⟨?_, ?_, fun pair member => ?_, fun pair member => ?_⟩, ?_⟩
  · rw [bindAll_state wellFormed]
    rfl
  · have once := wellFormed.bound_once
    simp only [List.map_append] at once
    exact (List.nodup_append.mp once).2.1
  · obtain ⟨isVar, unbound⟩ := unassigned pair member
    exact ⟨(contains_arena ledger _).mpr (live_of_shape isVar), isUnassigned_arena isVar unbound⟩
  · exact (contains_arena ledger _).mpr
      (wellFormed.target_live pair (List.mem_append_right _ member))
  · constructor
    · rintro rfl
      simp
    · intro same
      simpa using congrArg Ledger.bindings same

theorem Solves.mostGeneral (solves : Solves ledger.size ledger [(left, right)] (.ok later))
    (acyclic : ledger.Acyclic) (wellFormed : ledger.WellFormed) (leftLive : ledger.Live left)
    (rightLive : ledger.Live right) : MostGeneral ledger.arena later.arena left right := by
  have live := leftLive.pair rightLive
  have grown : later.Binds ledger := solves.grows wellFormed live
  have laterAcyclic : later.Acyclic := solves.acyclic acyclic wellFormed live
  refine ⟨fun id inside => ?_, solves.values_eq acyclic wellFormed leftLive rightLive,
    fun change follows same var cell inside isVar => ?_⟩
  · exact acyclic.value_later laterAcyclic grown.extends wellFormed grown.wellFormed
      ((contains_arena ledger id).mp inside)
  · have laterLive := (contains_arena later var).mp inside
    have shape : ledger.shape? var = some .var :=
      grown.shape? var ▸ shape_of_var laterLive isVar
    have varLive := live_of_shape shape
    have absorbs : Absorbs change later ledger :=
      solves.absorbs acyclic wellFormed live (equalizes_single.mpr same)
    rw [follows var _ ((contains_arena ledger var).mpr varLive) (node_var shape)]
    exact (absorbs var varLive).symm

end Ledger

/-- Two terms are unified just if their values unify. The bindings made are most general, nothing
    else is changed, and none is made just if the values were the same. If the values do not unify,
    the state stays as it was, but for the counters. -/
theorem unify_correct {state after : State} (sound : state.Sound) {left right : TermId}
    (leftInside : state.arena.contains left = true)
    (rightInside : state.arena.contains right = true) {unified : Bool}
    (run : state.unify left right = (unified, after)) :
    (unified = true ↔ (state.arena.value left).Unify (state.arena.value right)) ∧
    (unified = true → after.Sound ∧ MostGeneral state.arena after.arena left right ∧
      ∃ pairs, state.Binding after pairs ∧
        (pairs = [] ↔ state.arena.value left = state.arena.value right)) ∧
    (unified = false → after = { state with counters := after.counters }) := by
  obtain ⟨ledger, wellFormed, acyclic, counters, rfl⟩ := sound
  have leftLive := (Ledger.contains_arena ledger left).mp leftInside
  have rightLive := (Ledger.contains_arena ledger right).mp rightInside
  rcases Ledger.unify_state wellFormed leftLive rightLive with
    ⟨later, solves, grown, ran⟩ | ⟨clash, solves, ran⟩
  · obtain ⟨others, same⟩ := ran counters
    cases run.symm.trans same
    have live : ∀ pair ∈ [(left, right)], ledger.LivePair pair := by
      simpa using ⟨leftLive, rightLive⟩
    have unify := solves.unify acyclic wellFormed leftLive rightLive
    obtain ⟨pairs, binding, still⟩ := grown.binding counters others
    refine ⟨⟨fun _ => unify, fun _ => rfl⟩, fun _ => ⟨⟨later, grown.wellFormed, ?_, others, rfl⟩,
      solves.mostGeneral acyclic wellFormed leftLive rightLive, pairs, binding,
      still.trans ⟨?_, fun equal => ?_⟩⟩, nofun⟩
    · exact solves.acyclic acyclic wellFormed live
    · rintro rfl
      exact solves.values_eq acyclic wellFormed leftLive rightLive
    · refine solves.still acyclic wellFormed live fun pair member => ?_
      obtain rfl := List.mem_singleton.mp member
      exact equal
  · obtain ⟨others, same⟩ := ran counters
    cases run.symm.trans same
    have apart := solves.apart acyclic wellFormed leftLive rightLive
    exact ⟨⟨nofun, fun unify => absurd unify apart⟩, nofun, fun _ => rfl⟩

theorem sound_of_build {shapes : List Shape} {arena : Arena} (counters : Counters)
    (built : Arena.build? {} shapes = some arena) : ({ arena, counters } : State).Sound := by
  obtain ⟨ledger, rfl, grown⟩ := @Ledger.build?_allocates {} Ledger.wellFormed_empty _ _ built
  have empty : Ledger.Acyclic {} := ⟨fun _ => .number default, ⟨by simp [Ledger.shape?],
    by simp [Ledger.shape?]⟩, by simp⟩
  have same : ({ arena := ledger.arena, counters } : State) = ledger.state counters := by
    obtain ⟨-, shapes, rfl⟩ := grown
    rfl
  exact ⟨ledger, grown.wellFormed, empty.allocates Ledger.wellFormed_empty grown, counters, same⟩

namespace Aligned

def terms : List Shape :=
  [.var, .var, .var, .compound (.user 0) [], .compound (.user 1) [], .compound (.user 2) [⟨0⟩, ⟨1⟩],
    .compound (.user 2) [⟨1⟩, ⟨3⟩], .compound (.user 2) [⟨2⟩, ⟨1⟩],
    .compound (.user 2) [⟨4⟩, ⟨4⟩]]

def state : State := { arena := (Arena.build? {} terms).getD {} }

def aligned : State := (state.unify ⟨5⟩ ⟨6⟩).2

theorem sound : state.Sound := @sound_of_build terms _ {} (by decide +kernel)

/-- The first two are unified by two bindings. After that the others are not, though `Z` could be
    bound. -/
theorem unified_once : state.Sound ∧ state.unify ⟨5⟩ ⟨6⟩ = (true, aligned) ∧
    MostGeneral state.arena aligned.arena ⟨5⟩ ⟨6⟩ ∧ aligned.assigned = #[⟨1⟩, ⟨0⟩] ∧
    aligned.Sound ∧ (aligned.unify ⟨7⟩ ⟨8⟩).1 = false ∧
    (aligned.unify ⟨7⟩ ⟨8⟩).2 = { aligned with counters := (aligned.unify ⟨7⟩ ⟨8⟩).2.counters } ∧
    ¬ (aligned.arena.value ⟨7⟩).Unify (aligned.arena.value ⟨8⟩) := by
  have first : state.unify ⟨5⟩ ⟨6⟩ = (true, aligned) := Prod.ext (by decide +kernel) rfl
  obtain ⟨-, found, -⟩ := unify_correct sound (by decide +kernel) (by decide +kernel) first
  obtain ⟨alignedSound, general, -⟩ := found rfl
  have second : (aligned.unify ⟨7⟩ ⟨8⟩).1 = false := by decide +kernel
  obtain ⟨apart, -, kept⟩ :=
    unify_correct alignedSound (by decide +kernel) (by decide +kernel)
      (show aligned.unify ⟨7⟩ ⟨8⟩ = (false, (aligned.unify ⟨7⟩ ⟨8⟩).2) from Prod.ext second rfl)
  exact ⟨sound, first, general, by decide +kernel, alignedSound, second, kept rfl,
    fun unify => nomatch apart.mpr unify⟩

end Aligned

end Resolvent
