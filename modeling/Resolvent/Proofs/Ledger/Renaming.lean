import Resolvent.Proofs.Ledger.Allocation

namespace Resolvent

namespace Arena

variable {arena : Arena}

theorem require_ok {id : TermId} (inside : arena.contains id = true) : arena.require id = .ok () := by
  rw [require, if_pos inside]

theorem requireAll_ok {ids : List TermId} (inside : ∀ id ∈ ids, arena.contains id = true) :
    arena.requireAll ids = .ok () := by
  induction ids with
  | nil => rfl
  | cons id ids ih =>
    rw [requireAll, require_ok (inside id (by simp))]
    exact ih fun other member => inside other (by simp [member])

end Arena

namespace Ledger

variable {ledger : Ledger}

inductive Instantiates : Ledger → Renaming → List TermId → List TermId → Ledger → Renaming → Prop
  where
  | done {ledger : Ledger} {names : Renaming} : Instantiates ledger names [] [] ledger names
  | number {ledger later : Ledger} {names named : Renaming} {term : TermId} {value : Rational}
      {terms copies : List TermId} (shape : ledger.shape? term = some (.number value))
      (goesOn : Instantiates (ledger.allocate (.number value)) names terms copies later named) :
      Instantiates ledger names (term :: terms) (⟨ledger.size⟩ :: copies) later named
  | known {ledger later : Ledger} {names named : Renaming} {term copy : TermId}
      {terms copies : List TermId} (shape : ledger.shape? term = some .var)
      (name : names.lookup term = some copy)
      (goesOn : Instantiates ledger names terms copies later named) :
      Instantiates ledger names (term :: terms) (copy :: copies) later named
  | fresh {ledger later : Ledger} {names named : Renaming} {term : TermId}
      {terms copies : List TermId} (shape : ledger.shape? term = some .var)
      (unnamed : names.lookup term = none)
      (goesOn : Instantiates (ledger.allocate .var) ((term, ⟨ledger.size⟩) :: names) terms copies
        later named) :
      Instantiates ledger names (term :: terms) (⟨ledger.size⟩ :: copies) later named
  | compound {ledger middle later : Ledger} {names between named : Renaming} {term : TermId}
      {symbol : Symbol} {args argCopies terms copies : List TermId}
      (shape : ledger.shape? term = some (.compound symbol args))
      (inside : Instantiates ledger names args argCopies middle between)
      (live : ∀ copy ∈ argCopies, middle.Live copy)
      (goesOn : Instantiates (middle.allocate (.compound symbol argCopies)) between terms copies
        later named) :
      Instantiates ledger names (term :: terms) (⟨middle.size⟩ :: copies) later named

theorem Instantiates.grows {names named : Renaming} {terms copies : List TermId} {later : Ledger}
    (copied : Instantiates ledger names terms copies later named)
    (wellFormed : ledger.WellFormed) : later.Allocates ledger := by
  induction copied with
  | done => exact .refl wellFormed
  | @number _ _ _ _ _ value _ _ _ _ ih =>
    have first := allocate_allocates wellFormed (admits_number value)
    exact (ih first.wellFormed).trans first
  | known _ _ _ ih => exact ih wellFormed
  | fresh _ _ _ ih =>
    have first := allocate_allocates wellFormed admits_var
    exact (ih first.wellFormed).trans first
  | @compound _ _ _ _ _ _ _ symbol _ _ _ _ _ _ live _ insideIh ih =>
    have first := insideIh wellFormed
    have second := allocate_allocates first.wellFormed (@admits_compound _ symbol _ live)
    exact ((ih second.wellFormed).trans second).trans first

inductive Occurs (ledger : Ledger) (var : TermId) : TermId → Prop where
  | here (isVar : ledger.shape? var = some .var) : Occurs ledger var var
  | inside {term arg : TermId} {symbol : Symbol} {args : List TermId}
      (shape : ledger.shape? term = some (.compound symbol args)) (member : arg ∈ args)
      (occurs : Occurs ledger var arg) : Occurs ledger var term

theorem Occurs.earlier {later : Ledger} (grown : later.Extends ledger)
    (wellFormed : ledger.WellFormed) {var term : TermId} (occurs : later.Occurs var term)
    (live : ledger.Live term) : ledger.Occurs var term := by
  induction occurs with
  | here isVar => exact .here (grown.shape_eq live ▸ isVar)
  | inside shape member _ ih =>
    rw [grown.shape_eq live] at shape
    exact .inside shape member (ih (wellFormed.live_args shape _ member))

theorem Occurs.later {later : Ledger} (grown : later.Extends ledger) {var term : TermId}
    (occurs : ledger.Occurs var term) : later.Occurs var term := by
  induction occurs with
  | here isVar => exact .here (grown.shape isVar)
  | inside shape member _ ih => exact .inside (grown.shape shape) member ih

theorem Occurs.index_le (wellFormed : ledger.WellFormed) {var term : TermId}
    (occurs : ledger.Occurs var term) : var.index ≤ term.index := by
  induction occurs with
  | here => exact Nat.le_refl _
  | inside shape member _ ih =>
    exact Nat.le_trans ih (Nat.le_of_lt (wellFormed.args_older shape _ member))

structure Added (ledger : Ledger) (names : Renaming) (terms : List TermId) (later : Ledger)
    (added : Renaming) : Prop where
  once : (added.map Prod.fst).Nodup
  unnamed : ∀ entry ∈ added, names.lookup entry.1 = none
  occurs : ∀ entry ∈ added, ∃ term ∈ terms, ledger.Occurs entry.1 term
  new : ∀ entry ∈ added, ledger.size ≤ entry.2.index
  isVar : ∀ entry ∈ added, later.shape? entry.2 = some .var
  apart : (added.map Prod.snd).Nodup
  all : ∀ id : TermId, ledger.size ≤ id.index → later.shape? id = some .var →
    id ∈ added.map Prod.snd

theorem Added.widen {names added : Renaming} {terms others : List TermId} {later : Ledger}
    (held : Added ledger names terms later added)
    (wider : ∀ var, ∀ term ∈ terms, ledger.Occurs var term →
      ∃ other ∈ others, ledger.Occurs var other) : Added ledger names others later added :=
  { held with
    occurs := fun entry member => by
      obtain ⟨term, listed, occurs⟩ := held.occurs entry member
      exact wider entry.1 term listed occurs }

theorem Added.append {names added more : Renaming} {terms others : List TermId}
    {middle between later : Ledger} (first : Added ledger names terms middle added)
    (second : Added between (added ++ names) others later more) (before : middle.Extends ledger)
    (gap : between.Extends middle)
    (bare : ∀ id : TermId, middle.size ≤ id.index → between.shape? id ≠ some .var)
    (after : later.Extends between)
    (old : ∀ var, ∀ term ∈ others, between.Occurs var term → ledger.Occurs var term) :
    Added ledger names (terms ++ others) later (more ++ added) where
  once := by
    rw [List.map_append]
    refine List.nodup_append.mpr ⟨second.once, first.once, ?_⟩
    intro var left other right same
    subst same
    obtain ⟨entry, member, rfl⟩ := List.mem_map.mp left
    have unnamed := second.unnamed entry member
    rw [List.lookup_append, Option.or_eq_none_iff, List.lookup_eq_none_iff] at unnamed
    obtain ⟨earlier, listed, equal⟩ := List.mem_map.mp right
    simpa [equal] using unnamed.1 earlier listed
  unnamed := by
    intro entry member
    rcases List.mem_append.mp member with new | old
    · have unnamed := second.unnamed entry new
      rw [List.lookup_append, Option.or_eq_none_iff] at unnamed
      exact unnamed.2
    · exact first.unnamed entry old
  occurs := by
    intro entry member
    rcases List.mem_append.mp member with new | earlier
    · obtain ⟨term, listed, occurs⟩ := second.occurs entry new
      exact ⟨term, by simp [listed], old _ term listed occurs⟩
    · obtain ⟨term, listed, occurs⟩ := first.occurs entry earlier
      exact ⟨term, by simp [listed], occurs⟩
  new := by
    intro entry member
    rcases List.mem_append.mp member with new | old
    · exact Nat.le_trans (Nat.le_trans before.size_le gap.size_le) (second.new entry new)
    · exact first.new entry old
  isVar := by
    intro entry member
    rcases List.mem_append.mp member with new | old
    · exact second.isVar entry new
    · exact after.shape (gap.shape (first.isVar entry old))
  apart := by
    rw [List.map_append]
    refine List.nodup_append.mpr ⟨second.apart, first.apart, ?_⟩
    intro id left other right same
    subst same
    obtain ⟨entry, member, rfl⟩ := List.mem_map.mp left
    obtain ⟨earlier, listed, equal⟩ := List.mem_map.mp right
    have low := live_of_shape (first.isVar earlier listed)
    rw [equal] at low
    exact Nat.lt_irrefl _ (Nat.lt_of_lt_of_le (gap.live low) (second.new entry member))
  all := by
    intro id past isVar
    rw [List.map_append, List.mem_append]
    by_cases late : between.size ≤ id.index
    · exact .inl (second.all id late isVar)
    · have known : between.shape? id = some .var :=
        after.shape_eq (Nat.lt_of_not_le late) ▸ isVar
      -- No variable was made between the two copies.
      by_cases middling : middle.size ≤ id.index
      · exact absurd known (bare id middling)
      · exact .inr (first.all id past (gap.shape_eq (Nat.lt_of_not_le middling) ▸ known))

theorem Added.empty (ledger : Ledger) (names : Renaming) (terms : List TermId) :
    Added ledger names terms ledger [] := by
  constructor <;> try simp
  intro id past isVar
  exact Nat.lt_irrefl _ (Nat.lt_of_lt_of_le (live_of_shape isVar) past)

theorem size_allocate (ledger : Ledger) (shape : Shape) :
    (ledger.allocate shape).size = ledger.size + 1 := by
  simp [allocate, size]

theorem shape?_allocate_past {shape found : Shape} {id : TermId} (past : ledger.size ≤ id.index)
    (known : (ledger.allocate shape).shape? id = some found) :
    id = ⟨ledger.size⟩ ∧ found = shape := by
  have low := live_of_shape known
  rw [Live, size_allocate] at low
  have same : id = ⟨ledger.size⟩ := by
    cases id
    simp only [TermId.mk.injEq] at past low ⊢
    omega
  subst same
  rw [shape?_allocate_size] at known
  exact ⟨rfl, (Option.some.inj known).symm⟩

theorem Added.fresh {names : Renaming} {var : TermId} (isVar : ledger.shape? var = some .var)
    (unnamed : names.lookup var = none) :
    Added ledger names [var] (ledger.allocate .var) [(var, ⟨ledger.size⟩)] where
  once := by simp
  unnamed := by simpa using unnamed
  occurs := by simpa using Occurs.here isVar
  new := by simp
  isVar := by simpa using shape?_allocate_size _
  apart := by simp
  all := by
    intro id past known
    simpa using (shape?_allocate_past past known).1

theorem Instantiates.added {names named : Renaming} {terms copies : List TermId} {later : Ledger}
    (copied : Instantiates ledger names terms copies later named) (wellFormed : ledger.WellFormed)
    (live : ∀ term ∈ terms, ledger.Live term) :
    ∃ added, named = added ++ names ∧ Added ledger names terms later added := by
  induction copied with
  | @done ledger names => exact ⟨[], rfl, .empty ledger names []⟩
  | @number ledger later names named term value terms copies shape goesOn ih =>
    have grown := allocate_allocates wellFormed (admits_number value)
    have others : ∀ other ∈ terms, ledger.Live other := fun other member => live other (by simp [member])
    obtain ⟨added, rfl, held⟩ := ih grown.wellFormed fun other member =>
      grown.live (others other member)
    have joined := (Added.empty ledger names [term]).append held (.refl ledger) grown.extends
      (fun id past known => by cases (shape?_allocate_past past known).2)
      (goesOn.grows grown.wellFormed).extends
      (fun var other member occurs => occurs.earlier grown.extends wellFormed (others other member))
    exact ⟨added, rfl, by simpa using joined⟩
  | @known ledger later names named term copy terms copies shape name goesOn ih =>
    obtain ⟨added, rfl, held⟩ := ih wellFormed fun other member => live other (by simp [member])
    exact ⟨added, rfl, held.widen fun var other member occurs => ⟨other, by simp [member], occurs⟩⟩
  | @fresh ledger later names named term terms copies shape unnamed goesOn ih =>
    have grown := allocate_allocates wellFormed admits_var
    have others : ∀ other ∈ terms, ledger.Live other := fun other member => live other (by simp [member])
    obtain ⟨added, rfl, held⟩ := ih grown.wellFormed fun other member =>
      grown.live (others other member)
    have joined := (Added.fresh shape unnamed).append held grown.extends (.refl _)
      (fun id past known =>
        Nat.lt_irrefl _ (Nat.lt_of_lt_of_le (live_of_shape known) past))
      (goesOn.grows grown.wellFormed).extends
      (fun var other member occurs => occurs.earlier grown.extends wellFormed (others other member))
    exact ⟨added ++ [(term, ⟨ledger.size⟩)], by simp, by simpa using joined⟩
  | @compound ledger middle later names between named term symbol args argCopies terms copies shape
      inside argsLive goesOn insideIh ih =>
    obtain ⟨first, rfl, firstHeld⟩ := insideIh wellFormed (wellFormed.live_args shape)
    have before := inside.grows wellFormed
    have grown := allocate_allocates before.wellFormed (@admits_compound _ symbol _ argsLive)
    have others : ∀ other ∈ terms, ledger.Live other := fun other member => live other (by simp [member])
    obtain ⟨more, rfl, held⟩ := ih grown.wellFormed fun other member =>
      grown.live (before.live (others other member))
    have joined := firstHeld.append held before.extends grown.extends
      (fun id past known => by cases (shape?_allocate_past past known).2)
      (goesOn.grows grown.wellFormed).extends
      (fun var other member occurs =>
        occurs.earlier (grown.trans before).extends wellFormed (others other member))
    refine ⟨more ++ first, by simp, joined.widen fun var other member occurs => ?_⟩
    rcases List.mem_append.mp member with arg | rest
    · exact ⟨term, by simp, .inside shape arg occurs⟩
    · exact ⟨other, by simp [rest], occurs⟩

theorem Instantiates.kept {names named : Renaming} {terms copies : List TermId} {later : Ledger}
    (copied : Instantiates ledger names terms copies later named) {var name : TermId}
    (known : names.lookup var = some name) : named.lookup var = some name := by
  induction copied with
  | done => exact known
  | number _ _ ih | known _ _ _ ih => exact ih known
  | @fresh _ _ _ _ term _ _ _ unnamed _ ih =>
    apply ih
    have apart : (var == term) = false := by
      rw [beq_eq_false_iff_ne]
      rintro rfl
      simp [unnamed] at known
    rw [List.lookup_cons, apart]
    exact known
  | compound _ _ _ _ insideIh ih => exact ih (insideIh known)

inductive Copies (ledger : Ledger) (names : Renaming) (since : Nat) : TermId → TermId → Prop where
  | number {term copy : TermId} {value : Rational}
      (shape : ledger.shape? term = some (.number value))
      (copyShape : ledger.shape? copy = some (.number value)) (new : since ≤ copy.index) :
      Copies ledger names since term copy
  | var {term copy : TermId} (shape : ledger.shape? term = some .var)
      (name : names.lookup term = some copy) : Copies ledger names since term copy
  | compound {term copy : TermId} {symbol : Symbol} {args copies : List TermId}
      (shape : ledger.shape? term = some (.compound symbol args))
      (copyShape : ledger.shape? copy = some (.compound symbol copies)) (new : since ≤ copy.index)
      (length : args.length = copies.length)
      (each : ∀ pair ∈ args.zip copies, Copies ledger names since pair.1 pair.2) :
      Copies ledger names since term copy

theorem Copies.later {names named : Renaming} {since earlier : Nat} {later : Ledger}
    (grown : later.Extends ledger) (less : earlier ≤ since)
    (kept : ∀ var name, names.lookup var = some name → named.lookup var = some name)
    {term copy : TermId} (copies : ledger.Copies names since term copy) :
    later.Copies named earlier term copy := by
  induction copies with
  | number shape copyShape new =>
    exact .number (grown.shape shape) (grown.shape copyShape) (Nat.le_trans less new)
  | var shape name => exact .var (grown.shape shape) (kept _ _ name)
  | compound shape copyShape new length _ ih =>
    exact .compound (grown.shape shape) (grown.shape copyShape) (Nat.le_trans less new) length ih

theorem Copies.named {names : Renaming} {since : Nat} {term copy : TermId}
    (copies : ledger.Copies names since term copy) {var : TermId}
    (occurs : ledger.Occurs var term) : ∃ name, names.lookup var = some name := by
  induction copies with
  | number shape =>
    cases occurs with
    | here isVar => simp [isVar] at shape
    | inside other => simp [other] at shape
  | var shape name =>
    cases occurs with
    | here => exact ⟨_, name⟩
    | inside other => simp [other] at shape
  | compound shape _ _ length _ ih =>
    cases occurs with
    | here isVar => simp [isVar] at shape
    | inside other member inner =>
      rw [shape] at other
      cases other
      rw [← List.map_fst_zip (Nat.le_of_eq length)] at member
      obtain ⟨pair, listed, rfl⟩ := List.mem_map.mp member
      exact ih pair listed inner

theorem Instantiates.copies {names named : Renaming} {terms copies : List TermId}
    {later : Ledger} (copied : Instantiates ledger names terms copies later named)
    (wellFormed : ledger.WellFormed) :
    terms.length = copies.length ∧
      ∀ pair ∈ terms.zip copies, later.Copies named ledger.size pair.1 pair.2 := by
  have same {later : Ledger} {names : Renaming} {since earlier : Nat} (less : earlier ≤ since)
      {pairs : List (TermId × TermId)}
      (copies : ∀ pair ∈ pairs, later.Copies names since pair.1 pair.2) :
      ∀ pair ∈ pairs, later.Copies names earlier pair.1 pair.2 :=
    fun pair member => (copies pair member).later (.refl later) less fun _ _ known => known
  induction copied with
  | done => simp
  | @number ledger later names named term value terms copies shape goesOn ih =>
    have grown := allocate_allocates wellFormed (admits_number value)
    obtain ⟨length, rest⟩ := ih grown.wellFormed
    have onward := (goesOn.grows grown.wellFormed).extends
    refine ⟨by simp [length], ?_⟩
    simp only [List.zip_cons_cons, List.mem_cons, forall_eq_or_imp]
    exact ⟨.number (onward.shape (grown.extends.shape shape))
      (onward.shape (shape?_allocate_size _)) (Nat.le_refl _), same grown.extends.size_le rest⟩
  | @known ledger later names named term copy terms copies shape name goesOn ih =>
    obtain ⟨length, rest⟩ := ih wellFormed
    have onward := (goesOn.grows wellFormed).extends
    refine ⟨by simp [length], ?_⟩
    simp only [List.zip_cons_cons, List.mem_cons, forall_eq_or_imp]
    exact ⟨.var (onward.shape shape) (goesOn.kept name), rest⟩
  | @fresh ledger later names named term terms copies shape unnamed goesOn ih =>
    have grown := allocate_allocates wellFormed admits_var
    obtain ⟨length, rest⟩ := ih grown.wellFormed
    have onward := (goesOn.grows grown.wellFormed).extends
    refine ⟨by simp [length], ?_⟩
    simp only [List.zip_cons_cons, List.mem_cons, forall_eq_or_imp]
    exact ⟨.var (onward.shape (grown.extends.shape shape)) (goesOn.kept List.lookup_cons_self),
      same grown.extends.size_le rest⟩
  | @compound ledger middle later names between named term symbol args argCopies terms copies shape
      inside argsLive goesOn insideIh ih =>
    obtain ⟨argLength, argsCopied⟩ := insideIh wellFormed
    have before := inside.grows wellFormed
    have grown := allocate_allocates before.wellFormed (@admits_compound _ symbol _ argsLive)
    obtain ⟨length, rest⟩ := ih grown.wellFormed
    have onward := (goesOn.grows grown.wellFormed).extends
    refine ⟨by simp [length], ?_⟩
    simp only [List.zip_cons_cons, List.mem_cons, forall_eq_or_imp]
    refine ⟨.compound (onward.shape ((grown.trans before).extends.shape shape))
      (onward.shape (shape?_allocate_size _)) before.extends.size_le argLength ?_,
      same (grown.trans before).extends.size_le rest⟩
    intro pair member
    exact (argsCopied pair member).later (onward.trans grown.extends) (Nat.le_refl _)
      fun _ _ => goesOn.kept

def NamesLive (ledger : Ledger) (names : Renaming) : Prop :=
  ∀ entry ∈ names, ledger.Live entry.2

theorem NamesLive.later {later : Ledger} {names : Renaming} (live : ledger.NamesLive names)
    (grown : later.Extends ledger) : later.NamesLive names :=
  fun entry member => grown.live (live entry member)

theorem NamesLive.lookup {names : Renaming} (live : ledger.NamesLive names) {var name : TermId}
    (known : names.lookup var = some name) : ledger.Live name :=
  live (var, name) (mem_of_lookup known)

theorem Instantiates.live {names named : Renaming} {terms copies : List TermId} {later : Ledger}
    (copied : Instantiates ledger names terms copies later named) (wellFormed : ledger.WellFormed)
    (names_live : ledger.NamesLive names) :
    later.NamesLive named ∧ ∀ copy ∈ copies, later.Live copy := by
  induction copied with
  | done => exact ⟨names_live, by simp⟩
  | @number ledger later names named term value terms copies shape goesOn ih =>
    have grown := allocate_allocates wellFormed (admits_number value)
    obtain ⟨namesLive, rest⟩ := ih grown.wellFormed (names_live.later grown.extends)
    refine ⟨namesLive, ?_⟩
    simp only [List.mem_cons, forall_eq_or_imp]
    exact ⟨(goesOn.grows grown.wellFormed).live (live_allocate _ _), rest⟩
  | @known ledger later names named term copy terms copies shape name goesOn ih =>
    obtain ⟨namesLive, rest⟩ := ih wellFormed names_live
    refine ⟨namesLive, ?_⟩
    simp only [List.mem_cons, forall_eq_or_imp]
    exact ⟨(goesOn.grows wellFormed).live (names_live.lookup name), rest⟩
  | @fresh ledger later names named term terms copies shape unnamed goesOn ih =>
    have grown := allocate_allocates wellFormed admits_var
    have more : (ledger.allocate .var).NamesLive ((term, ⟨ledger.size⟩) :: names) := by
      intro entry member
      rcases List.mem_cons.mp member with rfl | old
      · exact live_allocate _ _
      · exact grown.live (names_live entry old)
    obtain ⟨namesLive, rest⟩ := ih grown.wellFormed more
    refine ⟨namesLive, ?_⟩
    simp only [List.mem_cons, forall_eq_or_imp]
    exact ⟨(goesOn.grows grown.wellFormed).live (live_allocate _ _), rest⟩
  | @compound ledger middle later names between named term symbol args argCopies terms copies shape
      inside argsLive goesOn insideIh ih =>
    have before := inside.grows wellFormed
    have grown := allocate_allocates before.wellFormed (@admits_compound _ symbol _ argsLive)
    obtain ⟨betweenLive, -⟩ := insideIh wellFormed names_live
    obtain ⟨namesLive, rest⟩ := ih grown.wellFormed (betweenLive.later grown.extends)
    refine ⟨namesLive, ?_⟩
    simp only [List.mem_cons, forall_eq_or_imp]
    exact ⟨(goesOn.grows grown.wellFormed).live (live_allocate _ _), rest⟩

theorem Instantiates.cons {names between named : Renaming} {term copy : TermId}
    {terms copies : List TermId} {middle later : Ledger}
    (first : Instantiates ledger names [term] [copy] middle between)
    (rest : Instantiates middle between terms copies later named) :
    Instantiates ledger names (term :: terms) (copy :: copies) later named := by
  cases first with
  | number shape goesOn =>
    cases goesOn
    exact .number shape rest
  | known shape name goesOn =>
    cases goesOn
    exact .known shape name rest
  | fresh shape unnamed goesOn =>
    cases goesOn
    exact .fresh shape unnamed rest
  | compound shape inside live goesOn =>
    cases goesOn
    exact .compound shape inside live rest

theorem requireAll_live {ids : List TermId} (live : ∀ id ∈ ids, ledger.Live id) :
    ledger.arena.requireAll ids = .ok () :=
  Arena.requireAll_ok fun id member => (contains_arena ledger id).mpr (live id member)

theorem requireAll_dead {ids : List TermId} (dead : ¬ ∀ id ∈ ids, ledger.Live id) :
    ∃ reason, ledger.arena.requireAll ids = .error reason := by
  induction ids with
  | nil => simp at dead
  | cons id ids ih =>
    by_cases here : ledger.Live id
    · have contained : ledger.arena.contains id = true := (contains_arena ledger id).mpr here
      obtain ⟨reason, failed⟩ := ih fun rest => dead (by simpa [here] using rest)
      refine ⟨reason, ?_⟩
      rw [Arena.requireAll, Arena.require, if_pos contained]
      exact failed
    · have missing : ¬ ledger.arena.contains id = true := fun held =>
        here ((contains_arena ledger id).mp held)
      refine ⟨.outOfRange ledger.arena.size id.index, ?_⟩
      rw [Arena.requireAll, Arena.require, if_neg missing]
      rfl

theorem copyAll_arena {fuel : Nat}
    (each : ∀ {ledger : Ledger} (names : Renaming) {term : TermId}, ledger.WellFormed →
      ledger.Live term → term.index < fuel →
      (∃ copy, ∃ later : Ledger, ∃ named,
        Arena.instantiateWithin fuel ledger.arena names term = .ok (copy, later.arena, named) ∧
        Instantiates ledger names [term] [copy] later named) ∨
      ((∃ reason, Arena.instantiateWithin fuel ledger.arena names term = .error reason) ∧
        ¬ ledger.NamesLive names))
    (wellFormed : ledger.WellFormed) (names : Renaming) {terms : List TermId}
    (live : ∀ term ∈ terms, ledger.Live term) (low : ∀ term ∈ terms, term.index < fuel) :
    (∃ copies, ∃ later : Ledger, ∃ named,
      Arena.copyAll (Arena.instantiateWithin fuel) ledger.arena names terms =
        .ok (copies, later.arena, named) ∧ Instantiates ledger names terms copies later named) ∨
    ((∃ reason, Arena.copyAll (Arena.instantiateWithin fuel) ledger.arena names terms =
      .error reason) ∧ ¬ ledger.NamesLive names) := by
  induction terms generalizing ledger names with
  | nil => exact .inl ⟨[], ledger, names, rfl, .done⟩
  | cons term terms ih =>
    rcases each names wellFormed (live term (by simp)) (low term (by simp)) with
      ⟨copy, middle, between, run, copied⟩ | ⟨⟨reason, failed⟩, dead⟩
    · have grown := copied.grows wellFormed
      have others : ∀ other ∈ terms, middle.Live other := fun other member =>
        grown.live (live other (by simp [member]))
      rcases ih grown.wellFormed between others (fun other member => low other (by simp [member])) with
        ⟨copies, later, named, restRun, restCopied⟩ | ⟨⟨reason, failed⟩, dead⟩
      · refine .inl ⟨copy :: copies, later, named, ?_, copied.cons restCopied⟩
        simp only [Arena.copyAll, run, restRun, Bind.bind, Except.bind]
        rfl
      · refine .inr ⟨⟨reason, ?_⟩, fun named => dead (copied.live wellFormed named).1⟩
        simp only [Arena.copyAll, run, failed, Bind.bind, Except.bind]
    · refine .inr ⟨⟨reason, ?_⟩, dead⟩
      simp only [Arena.copyAll, failed, Bind.bind, Except.bind]

theorem instantiateWithin_arena (fuel : Nat) {ledger : Ledger} (names : Renaming)
    {term : TermId} (wellFormed : ledger.WellFormed) (live : ledger.Live term) (low : term.index < fuel) :
    (∃ copy, ∃ later : Ledger, ∃ named,
      Arena.instantiateWithin fuel ledger.arena names term = .ok (copy, later.arena, named) ∧
      Instantiates ledger names [term] [copy] later named) ∨
    ((∃ reason, Arena.instantiateWithin fuel ledger.arena names term = .error reason) ∧
      ¬ ledger.NamesLive names) := by
  induction fuel generalizing ledger names term with
  | zero => omega
  | succ fuel ih =>
    have contained : ledger.arena.contains term = true := (contains_arena ledger term).mpr live
    have required : ledger.arena.require term = .ok () := by rw [Arena.require, if_pos contained]
    obtain ⟨shape, known⟩ := live.shape
    cases shape with
    | number value =>
      refine .inl ⟨_, _, names, ?_, .number known .done⟩
      simp only [Arena.instantiateWithin, required, node_number known, arena_number wellFormed,
        Bind.bind, Except.bind]
      rfl
    | var =>
      cases named : names.lookup term with
      | some copy =>
        refine .inl ⟨copy, ledger, names, ?_, .known known named .done⟩
        simp only [Arena.instantiateWithin, required, node_var known, named, Bind.bind, Except.bind]
        rfl
      | none =>
        refine .inl ⟨_, _, _, ?_, .fresh known named .done⟩
        simp only [Arena.instantiateWithin, required, node_var known, named, arena_fresh wellFormed,
          Bind.bind, Except.bind]
        rfl
    | compound symbol args =>
      have younger : ∀ arg ∈ args, arg.index < fuel := fun arg member =>
        Nat.lt_of_lt_of_le (wellFormed.args_older known arg member) (Nat.le_of_lt_succ low)
      rcases copyAll_arena ih wellFormed names (wellFormed.live_args known) younger with
        ⟨copies, middle, between, run, copied⟩ | ⟨⟨reason, failed⟩, dead⟩
      · have grown := copied.grows wellFormed
        by_cases copiesLive : ∀ copy ∈ copies, middle.Live copy
        · refine .inl ⟨_, _, between, ?_, .compound known copied copiesLive .done⟩
          simp only [Arena.instantiateWithin, required, node_compound known, run,
            requireAll_live copiesLive, arena_compound grown.wellFormed copiesLive, Bind.bind,
            Except.bind]
          rfl
        · obtain ⟨reason, failed⟩ := requireAll_dead copiesLive
          refine .inr ⟨⟨reason, ?_⟩, fun named => copiesLive (copied.live wellFormed named).2⟩
          simp only [Arena.instantiateWithin, required, node_compound known, run, failed, Bind.bind,
            Except.bind]
      · refine .inr ⟨⟨reason, ?_⟩, dead⟩
        simp only [Arena.instantiateWithin, required, node_compound known, failed, Bind.bind,
          Except.bind]

theorem instantiate_arena (wellFormed : ledger.WellFormed) {term : TermId}
    (live : ledger.Live term) (names : Renaming) :
    (∃ copy, ∃ later : Ledger, ∃ named,
      ledger.arena.instantiate names term = .ok (copy, later.arena, named) ∧
      Instantiates ledger names [term] [copy] later named) ∨
    ((∃ reason, ledger.arena.instantiate names term = .error reason) ∧
      ¬ ledger.NamesLive names) := by
  apply instantiateWithin_arena _ names wellFormed live
  rw [size_arena]
  exact Nat.lt_succ_of_lt live

end Ledger

end Resolvent
