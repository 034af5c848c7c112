import Mathlib.Data.List.Perm.Basic
import Sideload.Proofs.Include.PathOrder
import Sideload.Proofs.Resolution.Batches
import Sideload.Proofs.Resolution.Places
import Sideload.Proofs.Resolved.Occurrences

/-! # The calls of a resolution, read off its result

A trail is a node of the forest with a type for each relation on the way to it: its relations lead
to the node (`Trail.relations`), its types are those of the entities from the root level down to the
parents of the node (`Trail.types`). `Trail.sources` are the entities of resolved trees that stand
at these parents and have these types, in the order of the trees.

`resolve_calls`: the batches of a resolution that has a result are exactly the trails with such an
entity whose relation may be included. Their entities can be read off the trees level by level
(`sources_ask`, `sources_along`), and this is how the batches are made (`mem_trails_iff_sources`,
`sources_batch`): what a batch of one level loads are the values that stand below it in the trees
(`exists_lists_of_expandForest`). -/

namespace Sideload

open Resolved

/-! ### Trails as nodes with types -/

namespace Trail

/-- The relations that lead to the parents of the node. -/
def above : Trail → List String
  | ask _ _ => []
  | along _ relation rest => relation :: rest.above

/-- The relation of the node. -/
def relation : Trail → String
  | ask _ relation => relation
  | along _ _ rest => rest.relation

/-- The types of the entities down to the parents of the node. -/
def types : Trail → List String
  | ask type _ => [type]
  | along type _ rest => type :: rest.types

theorem relations_eq : ∀ t : Trail, t.relations = t.above ++ [t.relation]
  | ask _ _ => rfl
  | along _ relation rest => congrArg (relation :: ·) rest.relations_eq

theorem batch_relation (loader : Loader) : ∀ (t : Trail) (ps : List Pointer),
    (t.batch loader ps).relation = t.relation
  | ask _ _, _ => rfl
  | along _ _ rest, _ => rest.batch_relation loader _

theorem eq_of_types_eq : ∀ {t u : Trail}, t.relations = u.relations → t.types = u.types → t = u
  | ask _ _, ask _ _, hrelations, htypes => by
    rw [(List.cons.inj hrelations).1, (List.cons.inj htypes).1]
  | ask _ _, along _ _ rest, hrelations, _ =>
    absurd (List.cons.inj hrelations).2.symm rest.relations_ne_nil
  | along _ _ rest, ask _ _, hrelations, _ =>
    absurd (List.cons.inj hrelations).2 rest.relations_ne_nil
  | along _ _ rest, along _ _ rest', hrelations, htypes => by
    obtain ⟨hrelation, hrelations⟩ := List.cons.inj hrelations
    obtain ⟨htype, htypes⟩ := List.cons.inj htypes
    rw [hrelation, htype, eq_of_types_eq hrelations htypes]

end Trail

/-- The entity stands at the parents of the node of a trail, and the types are those of the
trail. -/
def Occurrence.IsAt (o : Occurrence) (t : Trail) : Prop :=
  o.relations = t.above ∧ o.types = t.types

instance (o : Occurrence) (t : Trail) : Decidable (o.IsAt t) :=
  inferInstanceAs (Decidable (_ ∧ _))

/-- The entities at the parents of the node of a trail, with the types of the trail. -/
def Trail.sources (t : Trail) (ts : List Resolved) : List Pointer :=
  ((walk ts).filter fun o => o.IsAt t).map Occurrence.pointer

theorem isAt_below_along_iff {o : Occurrence} {type type' relation relation' : String}
    {rest : Trail} : (o.below type' relation').IsAt (.along type relation rest) ↔
      type' = type ∧ relation' = relation ∧ o.IsAt rest := by
  show relation' :: _ = relation :: _ ∧ type' :: _ = type :: _ ↔ _ ∧ _ ∧ _ ∧ _
  rw [List.cons.injEq, List.cons.injEq]
  exact ⟨fun ⟨⟨h₁, h₂⟩, h₃, h₄⟩ => ⟨h₃, h₁, h₂, h₄⟩, fun ⟨h₃, h₁, h₂, h₄⟩ => ⟨⟨h₁, h₂⟩, h₃, h₄⟩⟩

/-- Every entity of some trees stands at the parents of any relation that is asked below it. -/
theorem exists_isAt (relation : String) {o : Occurrence} : ∀ {ts : List Resolved}, o ∈ walk ts →
    ∃ t : Trail, o.IsAt t ∧ t.relation = relation ∧ t.type = o.pointer.type := by
  obtain ⟨relations, types, p⟩ := o
  induction relations generalizing types with
  | nil =>
    intro ts ho
    obtain ⟨r, -, ho | ⟨branch, -, o', -, ho⟩⟩ := mem_walk_iff.mp ho
    · cases ho
      exact ⟨.ask r.type relation, ⟨rfl, rfl⟩, rfl, rfl⟩
    · cases ho
  | cons name relations ih =>
    intro ts ho
    obtain ⟨r, -, ho | ⟨branch, -, ⟨relations', types', p'⟩, ho', ho⟩⟩ := mem_walk_iff.mp ho
    · cases ho
    · cases ho
      obtain ⟨t, ⟨hrelations, htypes⟩, hrelation, htype⟩ := ih types' ho'
      exact ⟨.along r.type branch.1 t,
        ⟨congrArg (branch.1 :: ·) hrelations, congrArg (r.type :: ·) htypes⟩, hrelation, htype⟩

theorem Trail.exists_of_mem_sources {t : Trail} {ts : List Resolved} {p : Pointer}
    (h : p ∈ t.sources ts) : ∃ o ∈ walk ts, o.IsAt t ∧ o.pointer = p := by
  obtain ⟨o, ho, hp⟩ := List.mem_map.mp h
  obtain ⟨ho, hat⟩ := List.mem_filter.mp ho
  exact ⟨o, ho, of_decide_eq_true hat, hp⟩

theorem Trail.mem_sources_of_isAt {t : Trail} {ts : List Resolved} {o : Occurrence}
    (ho : o ∈ walk ts) (h : o.IsAt t) : o.pointer ∈ t.sources ts :=
  List.mem_map_of_mem (List.mem_filter.mpr ⟨ho, decide_eq_true h⟩)

/-- The entity and the relation tell the trail. -/
theorem Occurrence.IsAt.unique {o : Occurrence} {t u : Trail} (ht : o.IsAt t) (hu : o.IsAt u)
    (h : t.relation = u.relation) : t = u := by
  refine Trail.eq_of_types_eq ?_ (ht.2.symm.trans hu.2)
  rw [t.relations_eq, u.relations_eq, ← ht.1, ← hu.1, h]

theorem type_of_isAt {t : Trail} {ts : List Resolved} {o : Occurrence} (ho : o ∈ walk ts)
    (h : o.IsAt t) : o.pointer.type = t.type := by
  obtain ⟨u, hu, hrelation, htype⟩ := exists_isAt t.relation ho
  rw [← htype, hu.unique h hrelation]

/-! ### Level by level -/

namespace Trail

theorem sources_flatMap {α : Type} (t : Trail) (f : α → List Resolved) (xs : List α) :
    t.sources (xs.flatMap f) = xs.flatMap fun x => t.sources (f x) := by
  unfold sources
  rw [walk_eq_flatMap, List.flatMap_assoc, List.filter_flatMap, List.map_flatMap]
  simp only [walk_eq_flatMap]

/-- The entities of a tree that stand at the parents of a node, seen from its root. -/
theorem sources_singleton (t : Trail) (r : Resolved) : t.sources [r] =
    (if (⟨[], [r.type], r.pointer⟩ : Occurrence).IsAt t then [r.pointer] else []) ++
      r.branches.flatMap fun branch =>
        ((walk branch.2.values).filter fun o => (o.below r.type branch.1).IsAt t).map
          Occurrence.pointer := by
  have hbelow : ∀ branch ∈ r.branches,
      (((walk branch.2.values).map (Occurrence.below r.type branch.1)).filter
        fun o => o.IsAt t).map Occurrence.pointer =
      ((walk branch.2.values).filter fun o => (o.below r.type branch.1).IsAt t).map
        Occurrence.pointer := by
    intro branch _
    rw [List.filter_map, List.map_map]
    rfl
  unfold sources
  rw [walk, walk, List.append_nil, occurrences_eq, List.filter_cons, List.filter_flatMap]
  split
  · next h =>
    rw [if_pos (of_decide_eq_true h), List.map_cons, List.map_flatMap, List.flatMap_congr hbelow]
    rfl
  · next h =>
    rw [if_neg fun hat => h (decide_eq_true hat), List.map_flatMap, List.flatMap_congr hbelow]
    rfl

theorem sources_eq_flatMap (t : Trail) (ts : List Resolved) :
    t.sources ts = ts.flatMap fun r => t.sources [r] := by
  rw [← sources_flatMap, List.flatMap_singleton']

/-- What is asked at the root level: the roots of the type. -/
theorem sources_ask (type relation : String) (ts : List Resolved) :
    (ask type relation).sources ts = ofType type (ts.map Resolved.pointer) := by
  have hroots : ofType type (ts.map Resolved.pointer) =
      (ts.filter fun r => r.type = type).map Resolved.pointer := by
    unfold ofType
    rw [List.filter_map]
    rfl
  rw [hroots, sources_eq_flatMap, ← flatMap_ite_singleton]
  refine List.flatMap_congr fun r _ => ?_
  have hbelow : ∀ branch ∈ r.branches, ((walk branch.2.values).filter fun o =>
      (o.below r.type branch.1).IsAt (ask type relation)).map Occurrence.pointer = [] := by
    intro branch _
    rw [List.filter_eq_nil_iff.mpr fun o _ h => nomatch (of_decide_eq_true h).1]
    rfl
  rw [sources_singleton, List.flatMap_eq_nil_iff.mpr hbelow, List.append_nil]
  exact if_congr ⟨fun h => (List.cons.inj h.2).1, fun h => ⟨rfl, congrArg ([·]) h⟩⟩ rfl rfl

/-- What is asked further down: what is asked of the values of the relation, below the roots of the
type. -/
theorem sources_along (type relation : String) (rest : Trail) (ts : List Resolved) :
    (along type relation rest).sources ts =
      rest.sources ((ts.filter fun r => r.type = type).flatMap (valuesOf relation)) := by
  have hbelow : ∀ r : Resolved, (along type relation rest).sources [r] =
      if r.type = type then rest.sources (valuesOf relation r) else [] := by
    intro r
    have hroot : ¬ (⟨[], [r.type], r.pointer⟩ : Occurrence).IsAt (along type relation rest) :=
      fun h => nomatch h.1
    rw [sources_singleton, if_neg hroot, List.nil_append]
    simp only [isAt_below_along_iff]
    by_cases htype : r.type = type
    · unfold valuesOf
      rw [if_pos htype, sources_flatMap, ← flatMap_ite_nil]
      refine List.flatMap_congr fun branch _ => ?_
      by_cases hname : branch.1 = relation
      · simp only [htype, hname, true_and, if_true]
        rfl
      · simp [htype, hname]
    · simp [htype]
  rw [sources_eq_flatMap, sources_flatMap, ← flatMap_ite_nil]
  exact List.flatMap_congr fun r _ => hbelow r

end Trail

/-! ### Batches and trees -/

section Trees
variable {registry : Registry} {loader : Loader} {forest : Include.Forest}

/-- The values of a relation are those of its branch. -/
theorem valuesOf_eq {t : Resolved} (h : Fields.Distinct t.branches) {name : String}
    {b : Branch Resolved} (hb : (name, b) ∈ t.branches) : valuesOf name t = b.values := by
  unfold valuesOf
  rw [h.filter_of_mem hb, List.flatMap_singleton]

/-- **One level:** the lists that answer the batch of a relation for the entities of a type are the
values that stand below these entities in the trees, each expanded by the forest below the node. -/
theorem exists_lists_of_expandForest (hforest : (forest.map Include.Node.relation).Nodup)
    {n : Include.Node} (hn : n ∈ forest) {type : String}
    (hsome : (registry.includable? type n.relation).isSome = true) :
    ∀ {es : List Entity} {ts : List Resolved},
      List.Forall₂ (fun e t => expandForest registry loader.load forest (leaf e) = .ok t) es ts →
      ∃ lists, List.Forall₂ (fun source values => loader.load source n.relation = .ok values)
          (ofType type (es.map Entity.pointer)) lists ∧
        List.Forall₂ (fun e t => expandForest registry loader.load n.children (leaf e) = .ok t)
          (lists.flatten.map (Entity.project n.columns))
          ((ts.filter fun t => t.type = type).flatMap (valuesOf n.relation))
  | [], [], .nil => ⟨[], .nil, .nil⟩
  | e :: es, t :: ts, .cons hexpand hrest => by
    obtain ⟨lists, hlists, hvalues⟩ := exists_lists_of_expandForest hforest hn hsome hrest
    have ht : t.type = e.type := congrArg Pointer.type (pointer_expandForest hexpand)
    by_cases htype : e.type = type
    · subst htype
      obtain ⟨b, hb, hbranch⟩ := exists_branch_of_mem hexpand hforest hn hsome
      obtain ⟨values, hload, hbelow⟩ := hbranch.loaded
      refine ⟨values :: lists, ?_, ?_⟩
      · have hcons : ofType e.type ((e :: es).map Entity.pointer) =
            e.pointer :: ofType e.type (es.map Entity.pointer) :=
          List.filter_cons_of_pos (decide_eq_true rfl)
        rw [hcons]
        exact .cons hload hlists
      · rw [List.filter_cons, if_pos (decide_eq_true ht), List.flatMap_cons, List.flatten_cons,
          List.map_append, valuesOf_eq (distinct_branches_of_expandForest hforest hexpand) hb]
        exact forall₂_append_left_iff.mpr
          ⟨_, _, List.forall₂_map_left_iff.mpr hbelow, hvalues, rfl⟩
    · refine ⟨lists, ?_, ?_⟩
      · have hskip : ofType type ((e :: es).map Entity.pointer) =
            ofType type (es.map Entity.pointer) :=
          List.filter_cons_of_neg fun h => htype (of_decide_eq_true h)
        rw [hskip]
        exact hlists
      · rw [List.filter_cons, if_neg fun h => htype (ht.symm.trans (of_decide_eq_true h))]
        exact hvalues

/-- A relation that may not be included has no values. -/
theorem valuesOf_eq_nil {load : Pointer → String → Except LoadError (List Entity)}
    (hforest : (forest.map Include.Node.relation).Nodup) {e : Entity} {t : Resolved}
    (h : expandForest registry load forest (leaf e) = .ok t) {relation : String}
    (hnone : registry.includable? t.type relation = none) : valuesOf relation t = [] := by
  have hname : ∀ branch ∈ t.branches, ¬ (branch.1 = relation) := by
    rintro branch hbranch rfl
    obtain ⟨n, -, hrelation, hb⟩ := exists_node_of_mem_branches h hforest hbranch
    have htype : t.type = e.pointer.type := congrArg Pointer.type (pointer_expandForest h)
    rw [htype, hrelation, hb.includable] at hnone
    cases hnone
  unfold valuesOf
  rw [List.filter_eq_nil_iff.mpr fun branch hbranch he =>
    hname branch hbranch (of_decide_eq_true he), List.flatMap_nil]

/-- What the batch of one level loads, and the trees below it. -/
theorem exists_loaded_of_expandForest (hloader : loader.Entitywise)
    (hforest : (forest.map Include.Node.relation).Nodup) {n : Include.Node} (hn : n ∈ forest)
    {type : String} (hsome : (registry.includable? type n.relation).isSome = true)
    {es : List Entity} {ts : List Resolved} (hts : List.Forall₂
      (fun e t => expandForest registry loader.load forest (leaf e) = .ok t) es ts) :
    ∃ values, loader.loaded type n.relation (ofType type (es.map Entity.pointer)) =
        values.map Entity.pointer ∧
      List.Forall₂ (fun e t => expandForest registry loader.load n.children (leaf e) = .ok t)
        values ((ts.filter fun t => t.type = type).flatMap (valuesOf n.relation)) := by
  obtain ⟨lists, hlists, hvalues⟩ := exists_lists_of_expandForest hforest hn hsome hts
  refine ⟨lists.flatten.map (Entity.project n.columns), ?_, hvalues⟩
  unfold Loader.loaded
  rw [(Run.outcome_load hloader type n.relation _ lists).mpr hlists, List.map_map]
  exact List.map_congr_left fun e _ => (Entity.pointer_project n.columns e).symm

theorem ofType_ne_nil_iff {type : String} {ps : List Pointer} :
    ofType type ps ≠ [] ↔ type ∈ ps.map Pointer.type := by
  unfold ofType
  rw [Ne, List.filter_eq_nil_iff, List.mem_map]
  simp

theorem exists_at_cons_iff {relation : String} {q : List String} (hq : q ≠ []) :
    (∃ m, Include.At forest (relation :: q) m) ↔
      ∃ n ∈ forest, n.relation = relation ∧ ∃ m, Include.At n.children q m := by
  simp only [Include.at_cons_iff, hq, false_and, false_or]
  exact ⟨fun ⟨m, n, hn, hr, h⟩ => ⟨n, hn, hr, m, h⟩, fun ⟨n, hn, hr, m, h⟩ => ⟨m, n, hn, hr, h⟩⟩

/-- The trees are those of the entities that they were expanded from. -/
theorem map_pointer_of_expand {es : List Entity} {ts : List Resolved} (hts : List.Forall₂
      (fun e t => expandForest registry loader.load forest (leaf e) = .ok t) es ts) :
    ts.map Resolved.pointer = es.map Entity.pointer := by
  have hall : List.Forall₂
      (fun e t => expandForest registry loader.load forest (leaf (e.project [])) = .ok t) es ts :=
    hts
  exact map_pointer_of_expandForest hall

/-- **The batch of a trail** is for the entities of its types at the parents of its node. -/
theorem sources_batch (hloader : loader.Entitywise) {t : Trail} {forest : Include.Forest}
    (hforest : forest.Distinct) {es : List Entity} {ts : List Resolved} (hts : List.Forall₂
      (fun e t => expandForest registry loader.load forest (leaf e) = .ok t) es ts)
    (ht : t ∈ trails registry loader forest (es.map Entity.pointer)) :
    (t.batch loader (es.map Entity.pointer)).sources = t.sources ts := by
  induction t generalizing forest es ts with
  | ask type relation =>
    rw [Trail.sources_ask, map_pointer_of_expand hts]
    rfl
  | along type relation rest ih =>
    obtain ⟨here, below⟩ := hforest
    obtain ⟨n, hn, rfl, -, hsome, hrest⟩ := along_mem_trails_iff.mp ht
    obtain ⟨values, hloaded, hvalues⟩ := exists_loaded_of_expandForest hloader here hn hsome hts
    rw [hloaded] at hrest
    rw [Trail.sources_along, Trail.batch, hloaded]
    exact ih (below n hn) hvalues hrest

/-- Where something stands below a relation, the relation may be included. -/
theorem exists_of_sources_along (hforest : (forest.map Include.Node.relation).Nodup)
    {es : List Entity} {ts : List Resolved} (hts : List.Forall₂
      (fun e t => expandForest registry loader.load forest (leaf e) = .ok t) es ts)
    {type relation : String} {rest : Trail} (h : (Trail.along type relation rest).sources ts ≠ []) :
    type ∈ (es.map Entity.pointer).map Pointer.type ∧
      (registry.includable? type relation).isSome = true := by
  rw [Trail.sources_along] at h
  have hvalues : (ts.filter fun r => r.type = type).flatMap (valuesOf relation) ≠ [] := by
    intro hnil
    rw [hnil] at h
    exact h rfl
  obtain ⟨v, hv⟩ := List.exists_mem_of_ne_nil _ hvalues
  obtain ⟨t, ht, hv⟩ := List.mem_flatMap.mp hv
  obtain ⟨ht, htype⟩ := List.mem_filter.mp ht
  have htype : t.type = type := of_decide_eq_true htype
  obtain ⟨e, -, hexpand⟩ := exists_of_mem_right hts ht
  constructor
  · rw [← map_pointer_of_expand hts, ← htype]
    exact List.mem_map_of_mem (List.mem_map_of_mem ht)
  · rw [← htype, ← Option.ne_none_iff_isSome]
    intro hnone
    rw [valuesOf_eq_nil hforest hexpand hnone] at hv
    cases hv

/-- **The trails of a resolution** are those with an entity at the parents of their node, whose
relation may be included. -/
theorem mem_trails_iff_sources (hloader : loader.Entitywise) {t : Trail} {forest : Include.Forest}
    (hforest : forest.Distinct) {es : List Entity} {ts : List Resolved} (hts : List.Forall₂
      (fun e t => expandForest registry loader.load forest (leaf e) = .ok t) es ts) :
    t ∈ trails registry loader forest (es.map Entity.pointer) ↔
      (∃ n, Include.At forest t.relations n) ∧ t.sources ts ≠ [] ∧
        (registry.includable? t.type t.relation).isSome = true := by
  induction t generalizing forest es ts with
  | ask type relation =>
    rw [ask_mem_trails_iff, Trail.sources_ask, ofType_ne_nil_iff, map_pointer_of_expand hts]
    constructor
    · rintro ⟨n, hn, rfl, h⟩
      exact ⟨⟨n, .here hn⟩, h⟩
    · rintro ⟨⟨n, hat⟩, h⟩
      obtain ⟨m, hm, hrelation, -⟩ := Include.at_cons_iff.mp hat
      exact ⟨m, hm, hrelation, h⟩
  | along type relation rest ih =>
    obtain ⟨here, below⟩ := hforest
    have hbelow : ∀ n ∈ forest, n.relation = relation →
        (registry.includable? type relation).isSome = true →
        (rest ∈ trails registry loader n.children
            (loader.loaded type relation (ofType type (es.map Entity.pointer))) ↔
          (∃ m, Include.At n.children rest.relations m) ∧
            (Trail.along type relation rest).sources ts ≠ [] ∧
            (registry.includable? rest.type rest.relation).isSome = true) := by
      rintro n hn rfl hsome
      obtain ⟨values, hloaded, hvalues⟩ := exists_loaded_of_expandForest hloader here hn hsome hts
      rw [hloaded, Trail.sources_along]
      exact ih (below n hn) hvalues
    rw [along_mem_trails_iff]
    show _ ↔ (∃ m, Include.At forest (relation :: rest.relations) m) ∧ _
    rw [exists_at_cons_iff rest.relations_ne_nil]
    constructor
    · rintro ⟨n, hn, hrelation, -, hsome, hrest⟩
      obtain ⟨hat, h⟩ := (hbelow n hn hrelation hsome).mp hrest
      exact ⟨⟨n, hn, hrelation, hat⟩, h⟩
    · rintro ⟨⟨n, hn, hrelation, hat⟩, hsources, h⟩
      obtain ⟨htype, hsome⟩ := exists_of_sources_along here hts hsources
      exact ⟨n, hn, hrelation, htype, hsome,
        (hbelow n hn hrelation hsome).mpr ⟨hat, hsources, h⟩⟩

end Trees

/-! ### The calls -/

/-- **Each entity is loaded once** for each node that applies to it: the batches of the node hold
together the entities at its parents from whose types its relation may be included. -/
theorem perm_sources {registry : Registry} {ts : List Resolved} {calls : List Trail}
    (hnodup : calls.Nodup) {above : List String} {relation : String}
    (hcalls : ∀ t : Trail, t.above = above → t.relation = relation →
      (t ∈ calls ↔ t.sources ts ≠ [] ∧ (registry.includable? t.type relation).isSome = true)) :
    ((calls.filter fun t => t.above = above ∧ t.relation = relation).flatMap fun t =>
      t.sources ts).Perm
    (((walk ts).filter fun o => o.relations = above ∧
      (registry.includable? o.pointer.type relation).isSome).map Occurrence.pointer) := by
  let node := calls.filter fun t => t.above = above ∧ t.relation = relation
  let parents := (walk ts).filter fun o => o.relations = above
  have hnode : ∀ t ∈ node, t ∈ calls ∧ t.above = above ∧ t.relation = relation := by
    intro t ht
    obtain ⟨ht, h⟩ := List.mem_filter.mp ht
    exact ⟨ht, of_decide_eq_true h⟩
  -- the types tell the trails of one node apart
  have htypes : (node.map Trail.types).Nodup := by
    refine (hnodup.filter _).map_on fun t ht u hu h => Trail.eq_of_types_eq ?_ h
    obtain ⟨-, habove, hrelation⟩ := hnode t ht
    obtain ⟨-, habove', hrelation'⟩ := hnode u hu
    rw [t.relations_eq, u.relations_eq, habove, habove', hrelation, hrelation']
  have hsources : node.flatMap (fun t => t.sources ts) = ((node.map Trail.types).flatMap fun k =>
      parents.filter fun o => o.types = k).map Occurrence.pointer := by
    rw [List.map_flatMap, List.flatMap_map]
    refine List.flatMap_congr fun t ht => ?_
    obtain ⟨-, rfl, -⟩ := hnode t ht
    unfold Trail.sources
    rw [List.filter_filter]
    refine congrArg _ (List.filter_congr fun o _ => ?_)
    rw [Bool.and_comm, ← Bool.decide_and]
    rfl
  have hparents : ((walk ts).filter fun o => o.relations = above ∧
      (registry.includable? o.pointer.type relation).isSome) =
      parents.filter fun o => decide
        ((registry.includable? o.pointer.type relation).isSome = true) := by
    rw [List.filter_filter]
    exact List.filter_congr fun o _ => by rw [Bool.and_comm, ← Bool.decide_and]
  rw [hsources, hparents]
  refine (flatMap_filter_perm Occurrence.types parents htypes
    (fun o => (registry.includable? o.pointer.type relation).isSome = true) fun o ho => ?_).map _
  obtain ⟨ho, habove⟩ := List.mem_filter.mp ho
  have habove : o.relations = above := of_decide_eq_true habove
  obtain ⟨t, hat, hrelation, htype⟩ := exists_isAt relation ho
  have ht := hcalls t (hat.1.symm.trans habove) hrelation
  rw [List.mem_map, ← htype]
  constructor
  · intro hsome
    have hsources : t.sources ts ≠ [] := List.ne_nil_of_mem (Trail.mem_sources_of_isAt ho hat)
    exact ⟨t, List.mem_filter.mpr ⟨ht.mpr ⟨hsources, hsome⟩,
      decide_eq_true ⟨hat.1.symm.trans habove, hrelation⟩⟩, hat.2.symm⟩
  · rintro ⟨u, hu, htypes⟩
    obtain ⟨hu, habove', hrelation'⟩ := hnode u hu
    have hat' : o.IsAt u := ⟨habove.trans habove'.symm, htypes.symm⟩
    obtain rfl := hat.unique hat' (hrelation.trans hrelation'.symm)
    exact (ht.mp hu).2

/-- **The exact batches of a resolution.** With a loader that answers entity by entity, the batches
of a resolution that has a result are, one to one, the nodes of the forest with the types on the way
to them, such that some entity of the trees stands at the parents of the node with these types on
the way to it, and the relation of the node may be included from the last of them. The batch asks
for the relation, for these very entities in the order of the trees; all of them are of the last
type. So each entity is loaded once for each node that applies to it. -/
theorem resolve_calls {registry : Registry} {loader : Loader} (hloader : loader.Entitywise)
    {roots : List Entity} {forest : Include.Forest} (hforest : forest.Distinct)
    {ts : List Resolved} (h : (resolve registry loader roots forest).outcome = .ok ts) :
    ∃ calls : List Trail, (calls.map fun t => (t.relations, t.types)).Nodup ∧
      (∀ t : Trail, t ∈ calls ↔ (∃ n, Include.At forest (t.above ++ [t.relation]) n) ∧
        t.sources ts ≠ [] ∧ (registry.includable? t.type t.relation).isSome = true) ∧
      (resolve registry loader roots forest).batches =
        calls.map (fun t => ⟨t.relation, t.sources ts⟩) ∧
      (∀ t ∈ calls, ∀ p ∈ t.sources ts, p.type = t.type) ∧
      ∀ above relation, (∃ n, Include.At forest (above ++ [relation]) n) →
        ((calls.filter fun t => t.above = above ∧ t.relation = relation).flatMap fun t =>
          t.sources ts).Perm
        (((walk ts).filter fun o => o.relations = above ∧
          (registry.includable? o.pointer.type relation).isSome).map Occurrence.pointer) := by
  have hts := forall₂_expandForest_of_resolve hloader h
  have hnodup : (trails registry loader forest (roots.map Entity.pointer)).Nodup :=
    nodup_trails hforest _
  have hcalls : ∀ t : Trail, t ∈ trails registry loader forest (roots.map Entity.pointer) ↔
      (∃ n, Include.At forest (t.above ++ [t.relation]) n) ∧ t.sources ts ≠ [] ∧
        (registry.includable? t.type t.relation).isSome = true := by
    intro t
    rw [← t.relations_eq]
    exact mem_trails_iff_sources hloader hforest hts
  refine ⟨_, ?_, hcalls, ?_, ?_, ?_⟩
  · refine hnodup.map fun t u htu => ?_
    obtain ⟨hrelations, htypes⟩ := Prod.mk.inj htu
    exact Trail.eq_of_types_eq hrelations htypes
  · rw [(follows_resolve registry loader roots forest).complete ts h]
    refine List.map_congr_left fun t ht => ?_
    rw [← sources_batch hloader hforest hts ht, ← t.batch_relation loader]
  · intro t _ p hp
    obtain ⟨o, ho, hat, rfl⟩ := Trail.exists_of_mem_sources hp
    exact type_of_isAt ho hat
  · intro above relation hnode
    refine perm_sources hnodup fun t habove hrelation => ?_
    rw [hcalls t, habove, hrelation, and_iff_right hnode]

/-- Roots of two types, from one of which a relation may not be included: it is not asked for there.
What both lead to along the other relation is asked for in two batches. -/
theorem resolve_calls_two_types :
    let load : Pointer → String → Except LoadError (List Entity) := fun p relation =>
      .ok [⟨⟨relation, p.id⟩, []⟩]
    let registry : Registry := ⟨fun type relation => !(type = "b" && relation = "s"),
      fun _ relation => some relation, fun _ _ => some .many⟩
    let roots : List Entity := [⟨⟨"a", "1"⟩, []⟩, ⟨⟨"b", "2"⟩, []⟩, ⟨⟨"a", "3"⟩, []⟩]
    let forest : Include.Forest := [.mk "r" [] [.mk "s" [] []], .mk "s" [] []]
    (Loader.ofLoad load).Entitywise ∧ forest.Distinct ∧
      (resolve registry (.ofLoad load) roots forest).batches =
        [⟨"r", [⟨"a", "1"⟩, ⟨"a", "3"⟩]⟩, ⟨"s", [⟨"r", "1"⟩, ⟨"r", "3"⟩]⟩, ⟨"r", [⟨"b", "2"⟩]⟩,
          ⟨"s", [⟨"r", "2"⟩]⟩, ⟨"s", [⟨"a", "1"⟩, ⟨"a", "3"⟩]⟩] ∧
      ∃ ts, (resolve registry (.ofLoad load) roots forest).outcome = .ok ts ∧
        ∃ calls : List Trail, (calls.map fun t => (t.relations, t.types)).Nodup ∧
          (resolve registry (.ofLoad load) roots forest).batches =
            calls.map (fun t => ⟨t.relation, t.sources ts⟩) ∧
          Trail.ask "b" "s" ∉ calls := by
  intro load registry roots forest
  have hloader : (Loader.ofLoad load).Entitywise := Loader.entitywise_ofLoad load
  have hforest : forest.Distinct := by
    simp [forest, Include.distinct_cons_iff, Include.Node.children, Include.Node.relation,
      Include.Forest.Distinct.nil]
  obtain ⟨ts, hts⟩ : ∃ ts, (resolve registry (.ofLoad load) roots forest).outcome = .ok ts :=
    ⟨_, rfl⟩
  obtain ⟨calls, hnodup, hcalls, hbatches, -⟩ := resolve_calls hloader hforest hts
  refine ⟨hloader, hforest, by decide +kernel, ts, hts, calls, hnodup, hbatches, fun hmem => ?_⟩
  have hnone : registry.includable? "b" "s" = none := by decide
  obtain ⟨-, -, hsome⟩ := (hcalls _).mp hmem
  exact absurd hsome (by rw [Trail.type, Trail.relation, hnone]; decide)

end Sideload
