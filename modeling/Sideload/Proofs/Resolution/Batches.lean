import Sideload.Proofs.Dataset.Loading
import Sideload.Proofs.Include.PrefixTree
import Sideload.Proofs.Resolution.Agreement

/-! # Batches

What a resolution asks its loader. A `Trail` leads from the roots through some relations of the
forest, each followed from the entities of one type; its batch asks for its last relation, for all
entities of its last type that are reached along it (`Trail.batch`). A resolution makes the batches
of the trails along which it reaches something (`trails`), in order, or only the first of them if it
fails (`follows_resolveForest`); and no trail is taken twice (`nodup_trails`).

Entities of one type that stand at one place of the forest are in one batch only if the same types
lead to all of them, since values are resolved below each batch for itself. This is so if the roots
are of one type and all that is loaded has the type that the registry tells (`nodup_relations`), and
so with every dataset (`nodup_places_of_offers`). Below roots of several types a place can have
several batches for one type (`resolve_batches_split`). -/

namespace Sideload

/-! ### Runs that follow a plan -/

/-- A run asks what is planned: all of it if it has a result, and a first part otherwise. -/
structure Run.Follows {α : Type} (x : Run α) (plan : List Batch) : Prop where
  initial : x.batches <+: plan
  complete : ∀ a, x.outcome = .ok a → x.batches = plan

namespace Run

variable {α β : Type}

theorem follows_pure (a : α) : (Pure.pure a : Run α).Follows [] :=
  ⟨List.prefix_rfl, fun _ _ => rfl⟩

theorem follows_load (loader : Loader) (type relation : String) (sources : List Pointer) :
    (load loader type relation sources).Follows [⟨relation, sources⟩] :=
  ⟨List.prefix_rfl, fun _ _ => rfl⟩

theorem Follows.bind {x : Run α} {f : α → Run β} {first rest : List Batch} (hx : x.Follows first)
    (hf : ∀ a, x.outcome = .ok a → (f a).Follows rest) : (x >>= f).Follows (first ++ rest) := by
  show (x.bind f).Follows (first ++ rest)
  unfold Run.bind
  cases ha : x.outcome with
  | error e =>
    refine ⟨hx.initial.trans (List.prefix_append _ _), fun _ h => ?_⟩
    cases h
  | ok a =>
    have hrest := hf a ha
    rw [← hx.complete a ha]
    refine ⟨(List.prefix_append_right_inj _).mpr hrest.initial, fun b hb => ?_⟩
    exact congrArg (x.batches ++ ·) (hrest.complete b hb)

end Run

/-! ### Trails -/

/-- The identities of a type. -/
def ofType (type : String) (ps : List Pointer) : List Pointer := ps.filter fun p => p.type = type

theorem type_of_mem_ofType {type : String} {ps : List Pointer} {p : Pointer}
    (h : p ∈ ofType type ps) : p.type = type :=
  of_decide_eq_true (List.mem_filter.mp h).2

/-- The identities that a batch brings, or none if it fails. -/
def Loader.loaded (loader : Loader) (type relation : String) (sources : List Pointer) :
    List Pointer :=
  match (Run.load loader type relation sources).outcome with
  | .ok lists => lists.flatten.map Entity.pointer
  | .error _ => []

/-- The relations that lead from some identities to others, each with the type it is followed from.
The last of them is not followed any more, but asked for. -/
inductive Trail where
  | ask (type relation : String)
  | along (type relation : String) (rest : Trail)
deriving DecidableEq

namespace Trail

/-- The relations alone: a place of the forest. -/
def relations : Trail → List String
  | ask _ relation => [relation]
  | along _ relation rest => relation :: rest.relations

/-- The type that the first relation is followed from. -/
def start : Trail → String
  | ask type _ => type
  | along type _ _ => type

/-- The type whose entities are asked for the last relation. -/
def type : Trail → String
  | ask type _ => type
  | along _ _ rest => rest.type

/-- The batch of a trail: its last relation, for all identities of its last type that are reached
along it. -/
def batch (loader : Loader) : Trail → List Pointer → Batch
  | ask type relation, ps => ⟨relation, ofType type ps⟩
  | along type relation rest, ps =>
    rest.batch loader (loader.loaded type relation (ofType type ps))

theorem relations_ne_nil : ∀ t : Trail, t.relations ≠ []
  | ask _ _ => List.cons_ne_nil _ _
  | along _ _ _ => List.cons_ne_nil _ _

theorem type_of_mem_sources {loader : Loader} {p : Pointer} : ∀ {t : Trail} {ps : List Pointer},
    p ∈ (t.batch loader ps).sources → p.type = t.type
  | ask _ _, _, h => type_of_mem_ofType h
  | along _ _ rest, _, h => type_of_mem_sources (t := rest) h

end Trail

open Trail

section Trails
variable (registry : Registry) (loader : Loader)

mutual

/-- The trails that a forest takes from some identities, in order. -/
def trails : Include.Forest → List Pointer → List Trail
  | [], _ => []
  | n :: forest, ps => trailsOf n ps ++ trails forest ps

/-- The trails that begin with the relation of a node: for each type that occurs and that it may be
included from, the relation itself, and then what its values are asked for. -/
def trailsOf : Include.Node → List Pointer → List Trail
  | .mk relation _ children, ps =>
    (ps.map Pointer.type).eraseDups.flatMap fun type =>
      if (registry.includable? type relation).isSome then
        ask type relation ::
          (trails children (loader.loaded type relation (ofType type ps))).map (along type relation)
      else []

end

variable {registry loader}

theorem mem_trails_iff {t : Trail} {ps : List Pointer} : ∀ {forest : Include.Forest},
    t ∈ trails registry loader forest ps ↔ ∃ n ∈ forest, t ∈ trailsOf registry loader n ps
  | [] => by simp [trails]
  | n :: forest => by
    rw [trails, List.mem_append, mem_trails_iff]
    simp only [List.mem_cons, exists_eq_or_imp]

theorem mem_trailsOf_iff {t : Trail} {n : Include.Node} {ps : List Pointer} :
    t ∈ trailsOf registry loader n ps ↔ ∃ type ∈ ps.map Pointer.type,
      (registry.includable? type n.relation).isSome = true ∧ (t = ask type n.relation ∨
        ∃ rest ∈ trails registry loader n.children
          (loader.loaded type n.relation (ofType type ps)), t = along type n.relation rest) := by
  obtain ⟨relation, columns, children⟩ := n
  rw [trailsOf, List.mem_flatMap]
  refine exists_congr fun type => ?_
  rw [List.mem_eraseDups]
  refine and_congr_right fun _ => ?_
  show _ ↔ (registry.includable? type relation).isSome = true ∧ _
  split
  · next hsome =>
    rw [List.mem_cons, List.mem_map, and_iff_right hsome]
    simp only [eq_comm]
    rfl
  · next hnone => exact iff_of_false List.not_mem_nil fun h => hnone h.1

/-- A trail begins with the relation of its node. -/
theorem exists_relations_of_mem_trailsOf {t : Trail} {n : Include.Node} {ps : List Pointer}
    (h : t ∈ trailsOf registry loader n ps) : ∃ q, t.relations = n.relation :: q := by
  obtain ⟨type, -, -, rfl | ⟨rest, -, rfl⟩⟩ := mem_trailsOf_iff.mp h
  · exact ⟨[], rfl⟩
  · exact ⟨rest.relations, rfl⟩

theorem ask_mem_trails_iff {type relation : String} {forest : Include.Forest} {ps : List Pointer} :
    ask type relation ∈ trails registry loader forest ps ↔ ∃ n ∈ forest, n.relation = relation ∧
      type ∈ ps.map Pointer.type ∧ (registry.includable? type relation).isSome = true := by
  rw [mem_trails_iff]
  simp only [mem_trailsOf_iff]
  constructor
  · rintro ⟨n, hn, _, htype, hsome, heq | ⟨_, -, heq⟩⟩
    · cases heq
      exact ⟨n, hn, rfl, htype, hsome⟩
    · cases heq
  · rintro ⟨n, hn, rfl, htype, hsome⟩
    exact ⟨n, hn, type, htype, hsome, Or.inl rfl⟩

theorem along_mem_trails_iff {type relation : String} {rest : Trail} {forest : Include.Forest}
    {ps : List Pointer} : along type relation rest ∈ trails registry loader forest ps ↔
      ∃ n ∈ forest, n.relation = relation ∧ type ∈ ps.map Pointer.type ∧
        (registry.includable? type relation).isSome = true ∧
        rest ∈ trails registry loader n.children
          (loader.loaded type relation (ofType type ps)) := by
  rw [mem_trails_iff]
  simp only [mem_trailsOf_iff]
  constructor
  · rintro ⟨n, hn, _, htype, hsome, heq | ⟨_, hrest, heq⟩⟩
    · cases heq
    · cases heq
      exact ⟨n, hn, rfl, htype, hsome, hrest⟩
  · rintro ⟨n, hn, rfl, htype, hsome, hrest⟩
    exact ⟨n, hn, type, htype, hsome, Or.inr ⟨rest, hrest, rfl⟩⟩

/-- Trails run through the forest. -/
theorem exists_at_of_mem_trails {t : Trail} {forest : Include.Forest} {ps : List Pointer}
    (h : t ∈ trails registry loader forest ps) : ∃ n, Include.At forest t.relations n := by
  induction t generalizing forest ps with
  | ask type relation =>
    obtain ⟨n, hn, rfl, -⟩ := ask_mem_trails_iff.mp h
    exact ⟨n, .here hn⟩
  | along type relation rest ih =>
    obtain ⟨n, hn, rfl, -, -, hrest⟩ := along_mem_trails_iff.mp h
    obtain ⟨m, hm⟩ := ih hrest
    exact ⟨m, .deeper hn hm⟩

/-- Something is reached along each trail. -/
theorem sources_ne_nil_of_mem_trails {t : Trail} {forest : Include.Forest} {ps : List Pointer}
    (h : t ∈ trails registry loader forest ps) : (t.batch loader ps).sources ≠ [] := by
  induction t generalizing forest ps with
  | ask type relation =>
    obtain ⟨-, -, -, htype, -⟩ := ask_mem_trails_iff.mp h
    obtain ⟨p, hp, htype⟩ := List.mem_map.mp htype
    exact List.ne_nil_of_mem (List.mem_filter.mpr ⟨hp, decide_eq_true htype⟩)
  | along type relation rest ih =>
    obtain ⟨n, -, -, -, -, hrest⟩ := along_mem_trails_iff.mp h
    exact ih hrest

/-! ### No trail is taken twice -/

theorem start_of_mem {type relation : String} {rests : List Trail} {b : Bool} {t : Trail}
    (h : t ∈ if b then ask type relation :: rests.map (along type relation) else []) :
    t.start = type := by
  split at h
  · rcases List.mem_cons.mp h with rfl | h
    · rfl
    · obtain ⟨rest, -, rfl⟩ := List.mem_map.mp h
      rfl
  · cases h

mutual

/-- **No trail is taken twice**, if siblings differ. -/
theorem nodup_trails : ∀ {forest : Include.Forest}, forest.Distinct → ∀ ps : List Pointer,
    (trails registry loader forest ps).Nodup
  | [], _, _ => by
    rw [trails]
    exact List.nodup_nil
  | n :: forest, h, ps => by
    obtain ⟨hn, hchildren, hforest⟩ := Include.distinct_cons_iff.mp h
    rw [trails, List.nodup_append']
    refine ⟨nodup_trailsOf n hchildren ps, nodup_trails hforest ps, fun t ht ht' => ?_⟩
    -- it would begin with the relations of two siblings
    obtain ⟨m, hm, ht'⟩ := mem_trails_iff.mp ht'
    obtain ⟨q, hq⟩ := exists_relations_of_mem_trailsOf ht
    obtain ⟨q', hq'⟩ := exists_relations_of_mem_trailsOf ht'
    have hrelation : n.relation = m.relation := (List.cons.inj (hq.symm.trans hq')).1
    exact hn (hrelation ▸ List.mem_map_of_mem hm)

theorem nodup_trailsOf : ∀ (n : Include.Node), n.children.Distinct → ∀ ps : List Pointer,
    (trailsOf registry loader n ps).Nodup
  | .mk relation columns children, h, ps => by
    rw [trailsOf, List.nodup_flatMap]
    constructor
    · intro type _
      split
      · refine List.nodup_cons.mpr ⟨fun hmem => ?_, ?_⟩
        · obtain ⟨rest, -, hrest⟩ := List.mem_map.mp hmem
          cases hrest
        · exact (nodup_trails h _).map fun _ _ heq => (along.inj heq).2.2
      · exact List.nodup_nil
    · refine (nodup_eraseDups (ps.map Pointer.type)).imp fun {type type'} hne t ht ht' => hne ?_
      rw [← start_of_mem ht, start_of_mem ht']

end

/-! ### Trails of one type at each place -/

theorem eq_of_mem_types {ps : List Pointer} {common type : String}
    (hps : ∀ p ∈ ps, p.type = common) (h : type ∈ ps.map Pointer.type) : type = common := by
  obtain ⟨p, hp, rfl⟩ := List.mem_map.mp h
  exact hps p hp

/-- What a batch for some type brings is of the type that the registry tells. -/
def Loader.Typed (loader : Loader) (registry : Registry) : Prop :=
  ∀ {type relation target : String} {cardinality : Cardinality} {sources : List Pointer},
    registry.includable? type relation = some (target, cardinality) →
    (∀ p ∈ sources, p.type = type) → ∀ p ∈ loader.loaded type relation sources, p.type = target

/-- A loader that answers batches one entity at a time is typed if its answers are. -/
theorem Loader.typed_ofLoad {load : Pointer → String → Except LoadError (List Entity)}
    (h : ∀ {p relation target cardinality values},
      registry.includable? p.type relation = some (target, cardinality) →
      load p relation = .ok values → ∀ v ∈ values, v.type = target) :
    (Loader.ofLoad load).Typed registry := by
  intro type relation target cardinality sources hfound hsources p hp
  unfold Loader.loaded at hp
  split at hp
  · next lists hlists =>
    have hall := (Run.outcome_load (Loader.entitywise_ofLoad load) _ _ _ _).mp hlists
    obtain ⟨v, hv, rfl⟩ := List.mem_map.mp hp
    obtain ⟨values, hvalues, hv⟩ := List.mem_flatten.mp hv
    obtain ⟨source, hsource, hload⟩ := exists_of_mem_right hall hvalues
    exact h (hsources source hsource ▸ hfound) hload v hv
  · cases hp

/-- **Only one trail leads to a place of the forest**, if the roots are of one type and what is
loaded has the type that the registry tells. -/
theorem eq_of_relations_eq (hloader : loader.Typed registry) {t u : Trail}
    {forest : Include.Forest} (hforest : forest.Distinct) {ps : List Pointer} {common : String}
    (hps : ∀ p ∈ ps, p.type = common) (ht : t ∈ trails registry loader forest ps)
    (hu : u ∈ trails registry loader forest ps) (h : t.relations = u.relations) : t = u := by
  induction t generalizing u forest ps common with
  | ask type relation =>
    obtain ⟨-, -, -, htype, -⟩ := ask_mem_trails_iff.mp ht
    cases u with
    | ask type' relation' =>
      obtain ⟨-, -, -, htype', -⟩ := ask_mem_trails_iff.mp hu
      obtain rfl := eq_of_mem_types hps htype
      obtain rfl := eq_of_mem_types hps htype'
      rw [(List.cons.inj h).1]
    | along type' relation' rest' => exact absurd (List.cons.inj h).2.symm rest'.relations_ne_nil
  | along type relation rest ih =>
    obtain ⟨n, hn, hrelation, htype, hsome, hrest⟩ := along_mem_trails_iff.mp ht
    cases u with
    | ask type' relation' => exact absurd (List.cons.inj h).2 rest.relations_ne_nil
    | along type' relation' rest' =>
      obtain ⟨m, hm, hrelation', htype', -, hrest'⟩ := along_mem_trails_iff.mp hu
      obtain ⟨hhead, htail⟩ := List.cons.inj h
      obtain ⟨here, below⟩ := hforest
      obtain rfl := eq_of_mem_types hps htype
      obtain rfl := eq_of_mem_types hps htype'
      obtain rfl : relation = relation' := hhead
      obtain rfl := List.inj_on_of_nodup_map here hn hm (hrelation.trans hrelation'.symm)
      obtain ⟨⟨target, cardinality⟩, hfound⟩ := Option.isSome_iff_exists.mp hsome
      -- below it everything is of the target type
      rw [ih (below n hn) (hloader hfound fun _ => type_of_mem_ofType) hrest hrest' htail]

end Trails

/-! ### Resolutions follow their trails -/

namespace Resolved

section Resolution
variable (registry : Registry) (loader : Loader)

/-- The batches of the trails of a forest. -/
def plan (forest : Include.Forest) (ps : List Pointer) : List Batch :=
  (trails registry loader forest ps).map fun t => t.batch loader ps

variable {registry loader}

theorem map_batch_trailsOf (relation : String) (columns : List String)
    (children : Include.Forest) (ps : List Pointer) :
    (trailsOf registry loader (.mk relation columns children) ps).map (fun t => t.batch loader ps) =
      (ps.map Pointer.type).eraseDups.flatMap fun type =>
        if (registry.includable? type relation).isSome then
          ⟨relation, ofType type ps⟩ ::
            plan registry loader children (loader.loaded type relation (ofType type ps))
        else [] := by
  rw [trailsOf, List.map_flatMap]
  refine List.flatMap_congr fun type _ => ?_
  split
  · rw [List.map_cons, List.map_map]
    rfl
  · rfl

/-- One relation for the parents of one type asks its batch, and then what is asked within. -/
theorem follows_resolveGroup {relation : String} {columns : List String}
    {within : List Resolved → Run (List Resolved)} {asked : List Pointer → List Batch}
    (hwithin : ∀ values, (within values).Follows (asked (values.map pointer)))
    (type : String) (parents : List Resolved) :
    (resolveGroup registry loader relation columns within type parents).Follows
      (if (registry.includable? type relation).isSome then
        ⟨relation, ofType type (parents.map pointer)⟩ ::
          asked (loader.loaded type relation (ofType type (parents.map pointer)))
      else []) := by
  have hsources : (parents.filter fun p => p.type = type).map pointer =
      ofType type (parents.map pointer) := by
    unfold ofType
    rw [List.filter_map]
    rfl
  unfold resolveGroup
  cases registry.includable? type relation with
  | none => exact Run.follows_pure parents
  | some found =>
    dsimp only
    rw [hsources]
    refine (Run.follows_load loader type relation _).bind fun lists hlists => ?_
    have hloaded : (lists.flatten.map fun e => leaf (e.project columns)).map pointer =
        loader.loaded type relation (ofType type (parents.map pointer)) := by
      unfold Loader.loaded
      rw [hlists, List.map_map]
      exact List.map_congr_left fun e _ => Entity.pointer_project columns e
    rw [← hloaded, ← List.append_nil (asked _)]
    exact (hwithin _).bind fun values _ => Run.follows_pure _

theorem follows_foldlM {group : List Resolved → String → Run (List Resolved)}
    {asked : String → List Batch} {ps : List Pointer}
    (hgroup : ∀ parents type, parents.map pointer = ps → (group parents type).Follows (asked type))
    (hkeep : ∀ parents type ts, (group parents type).outcome = .ok ts →
      ts.map pointer = parents.map pointer) :
    ∀ (types : List String) {parents : List Resolved}, parents.map pointer = ps →
      (types.foldlM group parents).Follows (types.flatMap asked)
  | [], parents, _ => Run.follows_pure parents
  | type :: types, parents, hparents => by
    rw [List.foldlM_cons, List.flatMap_cons]
    refine (hgroup parents type hparents).bind fun ts hts => ?_
    exact follows_foldlM hgroup hkeep types ((hkeep parents type ts hts).trans hparents)

mutual

/-- **A resolution follows the trails of its forest.** -/
theorem follows_resolveForest : ∀ (forest : Include.Forest) (parents : List Resolved),
    (resolveForest registry loader forest parents).Follows
      (plan registry loader forest (parents.map pointer))
  | [], parents => by
    rw [resolveForest, plan, trails]
    exact Run.follows_pure parents
  | n :: forest, parents => by
    rw [resolveForest, plan, trails, List.map_append]
    refine (follows_resolveNode n parents).bind fun ts hts => ?_
    rw [← map_pointer_resolveNode n hts]
    exact follows_resolveForest forest ts

theorem follows_resolveNode : ∀ (n : Include.Node) (parents : List Resolved),
    (resolveNode registry loader n parents).Follows
      ((trailsOf registry loader n (parents.map pointer)).map fun t =>
        t.batch loader (parents.map pointer))
  | .mk relation columns children, parents => by
    have htypes : typesOf parents = ((parents.map pointer).map Pointer.type).eraseDups := by
      unfold typesOf
      rw [List.map_map]
      rfl
    rw [resolveNode, map_batch_trailsOf, htypes]
    refine follows_foldlM (fun qs type hqs => ?_) (fun _ _ _ => map_pointer_resolveGroup) _ rfl
    rw [← hqs]
    exact follows_resolveGroup (follows_resolveForest children) type qs

end

end Resolution

end Resolved

theorem follows_resolve (registry : Registry) (loader : Loader) (roots : List Entity)
    (forest : Include.Forest) : (resolve registry loader roots forest).Follows
      (Resolved.plan registry loader forest (roots.map Entity.pointer)) := by
  have hroots : (roots.map Resolved.leaf).map Resolved.pointer = roots.map Entity.pointer := by
    rw [List.map_map]
    rfl
  rw [← hroots]
  exact Resolved.follows_resolveForest forest _

/-- No two trails lead to one place, if the roots are of one type and what is loaded has the type
that the registry tells. -/
theorem nodup_relations {registry : Registry} {loader : Loader} (hloader : loader.Typed registry)
    {roots : List Entity} {common : String} (hroots : ∀ e ∈ roots, e.type = common)
    {forest : Include.Forest} (h : forest.Distinct) :
    ((trails registry loader forest (roots.map Entity.pointer)).map Trail.relations).Nodup := by
  have hps : ∀ p ∈ roots.map Entity.pointer, p.type = common := List.forall_mem_map.mpr hroots
  exact (nodup_trails h _).map_on fun t ht u hu => eq_of_relations_eq hloader h hps ht hu

/-- **The batches of a resolution.** Each belongs to a trail through the forest, and asks for all
entities of its type that are reached along this trail, of which there are some; a run that fails
makes the first of these batches. No two batches belong to one trail. If the roots are of one type
and what is loaded has the type that the registry tells, then no two belong to one place of the
forest. -/
theorem resolve_batches (registry : Registry) (loader : Loader) (roots : List Entity)
    {forest : Include.Forest} (h : forest.Distinct) :
    ∃ asked : List Trail, asked.Nodup ∧
      (∀ t ∈ asked, (∃ n, Include.At forest t.relations n) ∧
        (t.batch loader (roots.map Entity.pointer)).sources ≠ [] ∧
        ∀ p ∈ (t.batch loader (roots.map Entity.pointer)).sources, p.type = t.type) ∧
      (resolve registry loader roots forest).batches <+:
        asked.map (fun t => t.batch loader (roots.map Entity.pointer)) ∧
      (∀ ts, (resolve registry loader roots forest).outcome = .ok ts →
        (resolve registry loader roots forest).batches =
          asked.map fun t => t.batch loader (roots.map Entity.pointer)) ∧
      (loader.Typed registry → ∀ type, (∀ e ∈ roots, e.type = type) →
        (asked.map Trail.relations).Nodup) := by
  have hfollows := follows_resolve registry loader roots forest
  refine ⟨trails registry loader forest (roots.map Entity.pointer), nodup_trails h _,
    fun t ht => ⟨exists_at_of_mem_trails ht, sources_ne_nil_of_mem_trails ht, fun p => ?_⟩,
    hfollows.initial, hfollows.complete, fun hloader type htype => nodup_relations hloader htype h⟩
  exact type_of_mem_sources

/-- Two roots of one type: each place has one batch, which holds what is reached from both. -/
theorem resolve_batches_one_type :
    let load : Pointer → String → Except LoadError (List Entity) := fun p relation =>
      .ok [⟨⟨relation, p.id⟩, []⟩]
    let registry : Registry := ⟨fun _ _ => true, fun _ relation => some relation,
      fun _ _ => some .many⟩
    let roots : List Entity := [⟨⟨"a", "1"⟩, []⟩, ⟨⟨"a", "2"⟩, []⟩]
    let forest : Include.Forest := [.mk "r" [] [.mk "s" [] []]]
    forest.Distinct ∧ (Loader.ofLoad load).Typed registry ∧
      (resolve registry (.ofLoad load) roots forest).batches =
        [⟨"r", [⟨"a", "1"⟩, ⟨"a", "2"⟩]⟩, ⟨"s", [⟨"r", "1"⟩, ⟨"r", "2"⟩]⟩] ∧
      ∃ asked : List Trail, (asked.map Trail.relations).Nodup ∧
        (resolve registry (.ofLoad load) roots forest).batches =
          asked.map fun t => t.batch (.ofLoad load) (roots.map Entity.pointer) := by
  intro load registry roots forest
  have hforest : forest.Distinct := by
    simp [forest, Include.distinct_cons_iff, Include.Node.children, Include.Forest.Distinct.nil]
  have htyped : (Loader.ofLoad load).Typed registry := by
    refine Loader.typed_ofLoad fun {p relation target cardinality values} hfound hload v hv => ?_
    obtain rfl := Except.ok.inj hload
    rw [List.mem_singleton.mp hv]
    exact congrArg Prod.fst (Option.some.inj hfound)
  obtain ⟨asked, -, -, -, hcomplete, hplaces⟩ :=
    resolve_batches registry (.ofLoad load) roots hforest
  have hroots : ∀ e ∈ roots, e.type = "a" := by decide
  exact ⟨hforest, htyped, by decide +kernel, asked, hplaces htyped "a" hroots, hcomplete _ rfl⟩

/-- Two roots of two types: what both lead to along one relation is of one type and stands at one
place, but is asked for in two batches. -/
theorem resolve_batches_split :
    let load : Pointer → String → Except LoadError (List Entity) := fun p relation =>
      .ok [⟨⟨relation, p.id⟩, []⟩]
    let registry : Registry := ⟨fun _ _ => true, fun _ relation => some relation,
      fun _ _ => some .many⟩
    let roots : List Entity := [⟨⟨"a", "1"⟩, []⟩, ⟨⟨"b", "2"⟩, []⟩]
    let forest : Include.Forest := [.mk "r" [] [.mk "s" [] []]]
    let asked := trails registry (.ofLoad load) forest (roots.map Entity.pointer)
    (resolve registry (.ofLoad load) roots forest).batches =
        [⟨"r", [⟨"a", "1"⟩]⟩, ⟨"s", [⟨"r", "1"⟩]⟩, ⟨"r", [⟨"b", "2"⟩]⟩, ⟨"s", [⟨"r", "2"⟩]⟩] ∧
      (resolve registry (.ofLoad load) roots forest).batches =
        asked.map (fun t => t.batch (.ofLoad load) (roots.map Entity.pointer)) ∧
      asked.map (fun t => (t.relations, t.type)) =
        [(["r"], "a"), (["r", "s"], "r"), (["r"], "b"), (["r", "s"], "r")] := by
  decide +kernel

/-! ### Datasets -/

theorem Dataset.typed_loader (d : Dataset) : d.loader.Typed d.registry := by
  refine Loader.typed_ofLoad fun hfound hload v hv => ?_
  have htype := (visible?_of_mem_load hload hv).2
  rw [(Registry.of_includable? hfound).2.1] at htype
  exact (Option.some.inj htype).symm

/-- **With a dataset each place of the forest has at most one batch**, whatever roots are taken from
it, and whatever expression is read. -/
theorem nodup_places_of_offers {d : Dataset} {roots : List Entity} (hroots : d.Offers roots)
    {options : Include.Options} {expression : String} {forest : Include.Forest}
    (hforest : Include.parse options expression = .ok forest) :
    (resolve d.registry d.loader roots forest).Follows
        (Resolved.plan d.registry d.loader forest (roots.map Entity.pointer)) ∧
      ((trails d.registry d.loader forest (roots.map Entity.pointer)).map
        Trail.relations).Nodup := by
  obtain ⟨type, htype⟩ := hroots.exists_type
  have hdistinct := (Include.wellFormed_of_parse hforest).1.distinct
  exact ⟨follows_resolve _ _ _ _, nodup_relations d.typed_loader htype hdistinct⟩

end Sideload
