import Sideload.Proofs.Lists.FirstOccurrences
import Sideload.Proofs.Lists.Related
import Sideload.Resolution

/-! # Resolution one entity at a time

`expand` is resolution without batches: each root for itself, relation after relation, value after
value. A relation that may not be included from the type of an entity, or is not fully known, is
skipped; any other is loaded for that entity alone (`expandOne`).

`resolve_eq_ok_iff`: with a loader that answers a batch by its answers for the single entities
(`Loader.Entitywise`), resolution gives a result exactly if `expand` does, and it is the same.

A list of trees is resolved if each tree is, so the statements on the way relate lists by
`List.Forall₂`: one relation for the parents of one type (`outcome_resolveGroup`) changes just
these parents, the types of a level change all of them (`outcome_foldlM_types`), and the mutual
induction over the forest puts the relations one behind the other (`outcome_resolveForest`). -/

namespace Sideload

/-- A batch is answered if each entity is, by the list of these answers. -/
def Loader.Entitywise (loader : Loader) : Prop :=
  ∀ sources relation lists, loader.loadBatch sources relation = .ok lists ↔
    List.Forall₂ (fun source values => loader.load source relation = .ok values) sources lists

theorem Loader.entitywise_ofLoad (load : Pointer → String → Except LoadError (List Entity)) :
    (Loader.ofLoad load).Entitywise := by
  intro sources relation
  show ∀ lists, each load relation sources = .ok lists ↔
    List.Forall₂ (fun source values => load source relation = .ok values) sources lists
  induction sources with
  | nil =>
    intro lists
    rw [List.forall₂_nil_left_iff]
    exact ⟨fun h => (Except.ok.inj h).symm, fun h => h ▸ rfl⟩
  | cons source sources ih =>
    intro lists
    rw [List.forall₂_cons_left_iff, each]
    simp only [← ih]
    cases load source relation with
    | error e => simp
    | ok values => cases each load relation sources <;> simp [eq_comm]

namespace Resolved

section Expand
variable (registry : Registry) (load : Pointer → String → Except LoadError (List Entity))

/-- One relation of one tree: load it, expand each value by what is `within` the values, and store
the branch. -/
def expandOne (relation : String) (columns : List String)
    (within : Resolved → Except LoadError Resolved) (r : Resolved) : Except LoadError Resolved :=
  match registry.includable? r.type relation with
  | none => .ok r
  | some (target, cardinality) => do
    let loaded ← load r.pointer relation
    let values ← loaded.mapM fun e => within (leaf (e.project columns))
    return r.withBranch relation ⟨r.pointer, relation, target, cardinality, columns, values⟩

mutual

/-- The relations of a forest, one after the other, for one tree. -/
def expandForest : Include.Forest → Resolved → Except LoadError Resolved
  | [], r => .ok r
  | n :: forest, r => do
    let r ← expandNode n r
    expandForest forest r

/-- One relation, and what is included below it, for one tree. -/
def expandNode : Include.Node → Resolved → Except LoadError Resolved
  | .mk relation columns children, r =>
    expandOne registry load relation columns (fun v => expandForest children v) r

end

end Expand

end Resolved

/-- Expand a forest below some entities, one entity at a time. -/
def expand (registry : Registry) (load : Pointer → String → Except LoadError (List Entity))
    (roots : List Entity) (forest : Include.Forest) : Except LoadError (List Resolved) :=
  roots.mapM fun e => Resolved.expandForest registry load forest (Resolved.leaf e)

/-! ### Results that are there -/

namespace Run

variable {α β : Type}

theorem outcome_pure (a b : α) : (Pure.pure a : Run α).outcome = .ok b ↔ b = a :=
  ⟨fun h => (Except.ok.inj h).symm, fun h => h ▸ rfl⟩

theorem outcome_bind {x : Run α} {f : α → Run β} {b : β} :
    (x >>= f).outcome = .ok b ↔ ∃ a, x.outcome = .ok a ∧ (f a).outcome = .ok b := by
  show (x.bind f).outcome = .ok b ↔ _
  unfold Run.bind
  cases x.outcome with
  | error e => simp
  | ok a => simp

theorem outcome_load {loader : Loader} (h : loader.Entitywise) (type relation : String)
    (sources : List Pointer) (lists : List (List Entity)) :
    (load loader type relation sources).outcome = .ok lists ↔
      List.Forall₂ (fun source values => loader.load source relation = .ok values)
        sources lists := by
  rw [← h sources relation lists]
  unfold load
  cases hl : loader.loadBatch sources relation with
  | error e => simp
  | ok answer =>
    have hlen := ((h sources relation answer).mp hl).length_eq
    simp [hlen]

end Run

namespace Resolved

/-! ### The branches of one type -/

section Group
variable {registry : Registry} {loader : Loader} {relation : String} {columns : List String}
  {within : List Resolved → Run (List Resolved)} {alone : Resolved → Except LoadError Resolved}

theorem entity_withBranch (name : String) (b : Branch Resolved) (r : Resolved) :
    (r.withBranch name b).entity = r.entity := by
  obtain ⟨entity, branches⟩ := r
  rfl

theorem type_expandOne {load : Pointer → String → Except LoadError (List Entity)} {r t : Resolved}
    (h : expandOne registry load relation columns alone r = .ok t) : t.type = r.type := by
  unfold expandOne at h
  split at h
  · rw [← Except.ok.inj h]
  · obtain ⟨loaded, -, h⟩ := bind_eq_ok_iff.mp h
    obtain ⟨values, -, h⟩ := bind_eq_ok_iff.mp h
    rw [← Except.ok.inj h]
    exact congrArg Entity.type (entity_withBranch _ _ r)

/-- One relation of one tree, where it may be included. -/
theorem expandOne_eq_ok_iff {load : Pointer → String → Except LoadError (List Entity)}
    {target : String} {cardinality : Cardinality} {r t : Resolved}
    (hw : registry.includable? r.type relation = some (target, cardinality)) :
    expandOne registry load relation columns alone r = .ok t ↔
      ∃ loaded values, load r.pointer relation = .ok loaded ∧
        List.Forall₂ (fun v t => alone v = .ok t)
          (loaded.map fun e => leaf (e.project columns)) values ∧
        r.withBranch relation ⟨r.pointer, relation, target, cardinality, columns, values⟩ = t := by
  unfold expandOne
  rw [hw]
  simp only [List.forall₂_map_left_iff, ← mapM_eq_ok_iff]
  constructor
  · intro h
    obtain ⟨loaded, hloaded, h⟩ := bind_eq_ok_iff.mp h
    obtain ⟨values, hvalues, h⟩ := bind_eq_ok_iff.mp h
    exact ⟨loaded, values, hloaded, hvalues, Except.ok.inj h⟩
  · rintro ⟨loaded, values, hloaded, hvalues, rfl⟩
    exact bind_eq_ok_iff.mpr ⟨loaded, hloaded, bind_eq_ok_iff.mpr ⟨values, hvalues, rfl⟩⟩

/-- What a batch does to the parents of one type: their lists are loaded, all values are resolved
together, and each parent gets the branch of its own values. -/
theorem attach_iff {target : String} {cardinality : Cardinality} {type : String}
    (hw : registry.includable? type relation = some (target, cardinality)) :
    ∀ {parents ts : List Resolved},
    (∃ lists values, List.Forall₂ (fun source values => loader.load source relation = .ok values)
        ((parents.filter fun p => p.type = type).map pointer) lists ∧
      List.Forall₂ (fun v t => alone v = .ok t)
        (lists.flatten.map fun e => leaf (e.project columns)) values ∧
      attach relation type parents (List.zipWith
        (fun source values => ⟨source, relation, target, cardinality, columns, values⟩)
        ((parents.filter fun p => p.type = type).map pointer)
        (regroup (lists.map List.length) values)) = ts) ↔
    List.Forall₂ (fun p t => if p.type = type
      then expandOne registry loader.load relation columns alone p = .ok t else t = p) parents ts
  | [], ts => by
    rw [List.forall₂_nil_left_iff]
    constructor
    · rintro ⟨lists, values, -, -, h⟩
      exact h.symm
    · rintro rfl
      exact ⟨[], [], .nil, .nil, rfl⟩
  | p :: parents, ts => by
    rw [List.forall₂_cons_left_iff]
    by_cases hp : p.type = type
    · have hfilter : (p :: parents).filter (fun p => p.type = type) =
          p :: parents.filter fun p => p.type = type := List.filter_cons_of_pos (by simpa using hp)
      simp only [hfilter, List.map_cons, if_pos hp, attach]
      constructor
      · rintro ⟨_, values, hlists, hvalues, h⟩
        obtain ⟨list, lists, hload, hrest, rfl⟩ := List.forall₂_cons_left_iff.mp hlists
        rw [List.flatten_cons, List.map_append, forall₂_append_left_iff] at hvalues
        obtain ⟨us, vs, hus, hvs, rfl⟩ := hvalues
        have hlen : list.length = us.length := by
          have := hus.length_eq
          rwa [List.length_map] at this
        rw [List.map_cons, regroup, hlen, List.take_left, List.drop_left] at h
        exact ⟨_, _, (expandOne_eq_ok_iff (hp ▸ hw)).mpr ⟨list, us, hload, hus, rfl⟩,
          (attach_iff hw).mp ⟨lists, vs, hrest, hvs, rfl⟩, h.symm⟩
      · rintro ⟨t, ts, ht, hts, rfl⟩
        obtain ⟨lists, vs, hlists, hvs, rfl⟩ := (attach_iff hw).mpr hts
        obtain ⟨list, us, hload, hus, rfl⟩ := (expandOne_eq_ok_iff (hp ▸ hw)).mp ht
        have hlen : list.length = us.length := by
          have := hus.length_eq
          rwa [List.length_map] at this
        refine ⟨list :: lists, us ++ vs, .cons hload hlists, ?_, ?_⟩
        · rw [List.flatten_cons, List.map_append]
          exact forall₂_append_left_iff.mpr ⟨us, vs, hus, hvs, rfl⟩
        · rw [List.map_cons, regroup, hlen, List.take_left, List.drop_left]
          rfl
    · have hfilter : (p :: parents).filter (fun p => p.type = type) =
          parents.filter fun p => p.type = type := List.filter_cons_of_neg (by simpa using hp)
      simp only [hfilter, if_neg hp, attach]
      constructor
      · rintro ⟨lists, values, hlists, hvalues, h⟩
        exact ⟨p, _, rfl, (attach_iff hw).mp ⟨lists, values, hlists, hvalues, rfl⟩, h.symm⟩
      · rintro ⟨t, ts, rfl, hts, rfl⟩
        obtain ⟨lists, values, hlists, hvalues, rfl⟩ := (attach_iff hw).mpr hts
        exact ⟨lists, values, hlists, hvalues, rfl⟩

/-- **One relation for the parents of one type**: just these parents are expanded. -/
theorem outcome_resolveGroup (h : loader.Entitywise)
    (hwithin : ∀ ps ts, (within ps).outcome = .ok ts ↔
      List.Forall₂ (fun p t => alone p = .ok t) ps ts)
    (type : String) (parents ts : List Resolved) :
    (resolveGroup registry loader relation columns within type parents).outcome = .ok ts ↔
      List.Forall₂ (fun p t => if p.type = type
        then expandOne registry loader.load relation columns alone p = .ok t else t = p)
        parents ts := by
  unfold resolveGroup
  cases hw : registry.includable? type relation with
  | none =>
    have hid : ∀ p ∈ parents, ∀ t : Resolved, p = t ↔ if p.type = type
        then expandOne registry loader.load relation columns alone p = .ok t else t = p := by
      intro p _ t
      by_cases hp : p.type = type
      · unfold expandOne
        rw [if_pos hp, hp, hw]
        exact ⟨fun e => e ▸ rfl, Except.ok.inj⟩
      · rw [if_neg hp]
        exact eq_comm
    rw [← forall₂_congr_left hid, List.forall₂_eq_eq_eq]
    exact ⟨Except.ok.inj, fun e => e ▸ rfl⟩
  | some found =>
    obtain ⟨target, cardinality⟩ := found
    rw [← attach_iff hw, Run.outcome_bind]
    constructor
    · rintro ⟨lists, hlists, hrest⟩
      obtain ⟨values, hvalues, hrest⟩ := Run.outcome_bind.mp hrest
      exact ⟨lists, values, (Run.outcome_load h _ _ _ _).mp hlists, (hwithin _ _).mp hvalues,
        Except.ok.inj hrest⟩
    · rintro ⟨lists, values, hlists, hvalues, hrest⟩
      exact ⟨lists, (Run.outcome_load h _ _ _ _).mpr hlists,
        Run.outcome_bind.mpr ⟨values, (hwithin _ _).mpr hvalues, hrest ▸ rfl⟩⟩

end Group

/-! ### The types of a level, the relations of a forest -/

/-- **Type after type**: a tree is changed when it is the turn of its type, and only then, since
the change keeps the type. -/
theorem outcome_foldlM_types {group : String → List Resolved → Run (List Resolved)}
    {alone : Resolved → Except LoadError Resolved}
    (hgroup : ∀ type ps ts, (group type ps).outcome = .ok ts ↔
      List.Forall₂ (fun p t => if p.type = type then alone p = .ok t else t = p) ps ts)
    (htype : ∀ p t, alone p = .ok t → t.type = p.type) :
    ∀ {types : List String}, types.Nodup → ∀ ps ts : List Resolved,
      (types.foldlM (fun ps type => group type ps) ps).outcome = .ok ts ↔
        List.Forall₂ (fun p t => if p.type ∈ types then alone p = .ok t else t = p) ps ts
  | [], _, ps, ts => by
    have hid : ∀ p ∈ ps, ∀ t : Resolved,
        p = t ↔ if p.type ∈ ([] : List String) then alone p = .ok t else t = p := by
      intro p _ t
      rw [if_neg List.not_mem_nil]
      exact eq_comm
    rw [← forall₂_congr_left hid, List.forall₂_eq_eq_eq]
    exact (Run.outcome_pure ps ts).trans eq_comm
  | type :: types, hnodup, ps, ts => by
    obtain ⟨hnew, hnodup⟩ := List.nodup_cons.mp hnodup
    rw [List.foldlM_cons, Run.outcome_bind]
    simp only [hgroup, outcome_foldlM_types hgroup htype hnodup]
    rw [forall₂_comp_iff]
    refine forall₂_congr_left fun p _ t => ?_
    by_cases hp : p.type = type
    · rw [if_pos (by rw [hp]; exact List.mem_cons_self)]
      constructor
      · rintro ⟨m, hm, ht⟩
        rw [if_pos hp] at hm
        rw [if_neg (by rw [htype p m hm, hp]; exact hnew)] at ht
        rw [ht]
        exact hm
      · intro ht
        refine ⟨t, by rw [if_pos hp]; exact ht, ?_⟩
        rw [if_neg (by rw [htype p t ht, hp]; exact hnew)]
    · have hmem : p.type ∈ type :: types ↔ p.type ∈ types := by
        rw [List.mem_cons]
        exact or_iff_right hp
      simp only [if_neg hp, hmem, exists_eq_left]

section Forest
variable (registry : Registry) {loader : Loader}

mutual

theorem outcome_resolveForest (h : loader.Entitywise) :
    ∀ (forest : Include.Forest) (ps ts : List Resolved),
    (resolveForest registry loader forest ps).outcome = .ok ts ↔
      List.Forall₂ (fun p t => expandForest registry loader.load forest p = .ok t) ps ts
  | [], ps, ts => by
    have hid : ∀ p ∈ ps, ∀ t, p = t ↔ expandForest registry loader.load [] p = .ok t := by
      intro p _ t
      rw [expandForest]
      exact ⟨fun e => e ▸ rfl, Except.ok.inj⟩
    rw [← forall₂_congr_left hid, List.forall₂_eq_eq_eq, resolveForest]
    exact (Run.outcome_pure ps ts).trans eq_comm
  | n :: forest, ps, ts => by
    rw [resolveForest, Run.outcome_bind]
    simp only [outcome_resolveNode h n, outcome_resolveForest h forest]
    rw [forall₂_comp_iff]
    refine forall₂_congr_left fun p _ t => ?_
    rw [expandForest, bind_eq_ok_iff]

theorem outcome_resolveNode (h : loader.Entitywise) : ∀ (n : Include.Node) (ps ts : List Resolved),
    (resolveNode registry loader n ps).outcome = .ok ts ↔
      List.Forall₂ (fun p t => expandNode registry loader.load n p = .ok t) ps ts
  | .mk relation columns children, ps, ts => by
    rw [resolveNode]
    refine (outcome_foldlM_types (outcome_resolveGroup h (outcome_resolveForest h children))
      (fun _ _ => type_expandOne) (nodup_eraseDups (ps.map type)) ps ts).trans ?_
    refine forall₂_congr_left fun p hp t => ?_
    rw [if_pos (List.mem_eraseDups.mpr (List.mem_map_of_mem hp)), expandNode]

end

end Forest

end Resolved

/-- **Batches do not change the result**: whatever the registry, the roots and the forest, with a
loader that answers batches entity by entity, resolution gives a result exactly if every root can
be expanded for itself, one relation of one entity at a time; and the result is the same. -/
theorem resolve_eq_ok_iff (registry : Registry) (loader : Loader) (h : loader.Entitywise)
    (roots : List Entity) (forest : Include.Forest) (ts : List Resolved) :
    (resolve registry loader roots forest).outcome = .ok ts ↔
      expand registry loader.load roots forest = .ok ts := by
  unfold resolve expand
  rw [Resolved.outcome_resolveForest registry h, mapM_eq_ok_iff, List.forall₂_map_left_iff]

/-- Two roots of one type with another between them: the first and the last are loaded together,
and each gets its own values. -/
theorem resolve_mixed_types :
    let load : Pointer → String → Except LoadError (List Entity) := fun p _ =>
      .ok [⟨⟨"b", p.id ++ "x"⟩, []⟩]
    let registry : Registry := ⟨fun _ _ => true, fun _ _ => some "b", fun _ _ => some .many⟩
    let next (p : Pointer) (values : List Resolved) : Resolved :=
      .mk ⟨p, []⟩ [("r", ⟨p, "r", "b", .many, [], values⟩)]
    let chain (p : Pointer) : Resolved :=
      next p [next ⟨"b", p.id ++ "x"⟩ [.leaf ⟨⟨"b", p.id ++ "x" ++ "x"⟩, []⟩]]
    let roots : List Entity := [⟨⟨"a", "1"⟩, []⟩, ⟨⟨"b", "2"⟩, []⟩, ⟨⟨"a", "3"⟩, []⟩]
    (Loader.ofLoad load).Entitywise ∧
      (resolve registry (.ofLoad load) roots [.mk "r" [] [.mk "r" [] []]]).outcome =
        .ok [chain ⟨"a", "1"⟩, chain ⟨"b", "2"⟩, chain ⟨"a", "3"⟩] :=
  ⟨Loader.entitywise_ofLoad _,
    (resolve_eq_ok_iff _ _ (Loader.entitywise_ofLoad _) _ _ _).mpr rfl⟩

end Sideload
