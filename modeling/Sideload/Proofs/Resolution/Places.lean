import Sideload.Proofs.Fields.FirstWins
import Sideload.Proofs.Include.WellFormed
import Sideload.Proofs.Resolution.Expansion
import Sideload.Proofs.Resolved.Walk

/-! # Where entities are met

`Met … e columns below` tells, without resolving anything, that the entity `e` is met where some
`columns` are kept of it and the relations of the forest `below` are to be included: a root is met
with all columns above the whole forest, and where an entity is met, so are the values that are
linked along a relation of the forest, at the node of that relation.

`mem_encounters_iff`: the trees of a resolution that a document shows are exactly the entities that
are met, each expanded by the forest below its place (`mem_encountersOf_iff` for one identity). One
level of it is `forall₂_branches_of_expandForest`: a tree has one branch for each relation of the
forest that may be included, in the order of the forest, and this branch holds all values that were
loaded. -/

namespace Sideload

/-- The values that a document links of a relation: all of them, or the first for a relation to
one. -/
def Cardinality.linked {α : Type} : Cardinality → List α → List α
  | .one, values => values.take 1
  | .many, values => values

theorem Cardinality.mem_of_mem_linked {α : Type} {c : Cardinality} {values : List α} {v : α}
    (h : v ∈ c.linked values) : v ∈ values := by
  cases c with
  | one => exact List.mem_of_mem_take h
  | many => exact h

theorem Branch.linked_eq {α : Type} (b : Branch α) : b.linked = b.cardinality.linked b.values := by
  unfold Branch.linked
  cases b.cardinality <;> rfl

theorem Cardinality.forall₂_linked {α β : Type} {R : α → β → Prop} (c : Cardinality)
    {xs : List α} {ys : List β} (h : List.Forall₂ R xs ys) :
    List.Forall₂ R (c.linked xs) (c.linked ys) := by
  cases c with
  | one => exact List.forall₂_take 1 h
  | many => exact h

open Resolved

section Places
variable (registry : Registry) (load : Pointer → String → Except LoadError (List Entity))

/-- The entity is met where some columns are kept of it and a forest is to be included below it. -/
inductive Met (roots : List Entity) (forest : Include.Forest) :
    Entity → List String → Include.Forest → Prop where
  | root {e : Entity} (he : e ∈ roots) : Met roots forest e [] forest
  | linked {e v : Entity} {columns : List String} {below : Include.Forest} {n : Include.Node}
      {target : String} {cardinality : Cardinality} {values : List Entity}
      (hmet : Met roots forest e columns below) (hn : n ∈ below)
      (hrelation : registry.includable? e.type n.relation = some (target, cardinality))
      (hload : load e.pointer n.relation = .ok values) (hv : v ∈ cardinality.linked values) :
      Met roots forest v n.columns n.children

/-- The branch of a node below an entity: what the registry tells of the relation, and the values
that were loaded, each cut down to the columns and expanded by the forest below the node. -/
structure IsBranch (n : Include.Node) (source : Pointer) (b : Branch Resolved) : Prop where
  source_eq : b.source = source
  relation_eq : b.relation = n.relation
  columns_eq : b.columns = n.columns
  includable : registry.includable? source.type n.relation = some (b.targetType, b.cardinality)
  loaded : ∃ values, load source n.relation = .ok values ∧ List.Forall₂
    (fun e t => expandForest registry load n.children (leaf (e.project n.columns)) = .ok t)
    values b.values

variable {registry load}

/-! ### One level -/

theorem expandNode_cases {n : Include.Node} {r t : Resolved}
    (h : expandNode registry load n r = .ok t) :
    (registry.includable? r.type n.relation = none ∧ t = r) ∨
      ((registry.includable? r.type n.relation).isSome = true ∧
        ∃ b, IsBranch registry load n r.pointer b ∧ t = r.withBranch n.relation b) := by
  obtain ⟨relation, columns, children⟩ := n
  rw [expandNode] at h
  cases hfound : registry.includable? r.type relation with
  | none =>
    unfold expandOne at h
    rw [hfound] at h
    exact Or.inl ⟨hfound, (Except.ok.inj h).symm⟩
  | some found =>
    obtain ⟨target, cardinality⟩ := found
    obtain ⟨loaded, values, hload, hvalues, rfl⟩ := (expandOne_eq_ok_iff hfound).mp h
    have hsome : (registry.includable? r.type relation).isSome = true := by rw [hfound]; rfl
    exact Or.inr ⟨hsome, ⟨r.pointer, relation, target, cardinality, columns, values⟩,
      ⟨rfl, rfl, rfl, hfound, loaded, hload, List.forall₂_map_left_iff.mp hvalues⟩, rfl⟩

theorem branches_withBranch {name : String} (b : Branch Resolved) {r : Resolved}
    (hnew : name ∉ Fields.keys r.branches) :
    (r.withBranch name b).branches = r.branches ++ [(name, b)] := by
  obtain ⟨entity, branches⟩ := r
  exact Fields.insert_of_not_mem b hnew

/-- Expanding a tree keeps its root. -/
theorem entity_expandForest : ∀ {forest : Include.Forest} {r t : Resolved},
    expandForest registry load forest r = .ok t → t.entity = r.entity
  | [], r, t, h => by
    rw [expandForest] at h
    rw [Except.ok.inj h]
  | n :: forest, r, t, h => by
    rw [expandForest] at h
    obtain ⟨r', hr', ht⟩ := bind_eq_ok_iff.mp h
    have hrest := entity_expandForest ht
    rcases expandNode_cases hr' with ⟨-, rfl⟩ | ⟨-, b, -, rfl⟩
    · exact hrest
    · rw [hrest, entity_withBranch]

theorem pointer_expandForest {forest : Include.Forest} {r t : Resolved}
    (h : expandForest registry load forest r = .ok t) : t.pointer = r.pointer :=
  congrArg Entity.pointer (entity_expandForest h)

theorem map_pointer_of_expandForest {forest : Include.Forest} {columns : List String} :
    ∀ {values : List Entity} {ts : List Resolved}, List.Forall₂
      (fun e t => expandForest registry load forest (leaf (e.project columns)) = .ok t)
      values ts → ts.map Resolved.pointer = values.map Entity.pointer
  | [], _, .nil => rfl
  | e :: values, t :: ts, .cons hexpand hrest => by
    have hp : t.pointer = e.pointer :=
      (pointer_expandForest hexpand).trans (Entity.pointer_project _ _)
    rw [List.map_cons, List.map_cons, hp, map_pointer_of_expandForest hrest]

/-- **The branches of a tree**: behind those it has, one for each relation of the forest that may
be included from its type. -/
theorem exists_branches_of_expandForest : ∀ {forest : Include.Forest} {r t : Resolved},
    expandForest registry load forest r = .ok t → (forest.map Include.Node.relation).Nodup →
    (∀ n ∈ forest, n.relation ∉ Fields.keys r.branches) →
    ∃ branches, t.branches = r.branches ++ branches ∧ List.Forall₂
      (fun n branch => branch.1 = n.relation ∧ IsBranch registry load n r.pointer branch.2)
      (forest.filter fun n => (registry.includable? r.type n.relation).isSome) branches
  | [], r, t, h, _, _ => by
    rw [expandForest] at h
    obtain rfl := Except.ok.inj h
    exact ⟨[], (List.append_nil _).symm, .nil⟩
  | n :: forest, r, t, h, hdistinct, hnew => by
    rw [expandForest] at h
    obtain ⟨r', hr', ht⟩ := bind_eq_ok_iff.mp h
    rw [List.map_cons, List.nodup_cons] at hdistinct
    obtain ⟨hn, hdistinct⟩ := hdistinct
    obtain ⟨hnew, hrest⟩ := List.forall_mem_cons.mp hnew
    rcases expandNode_cases hr' with ⟨hnone, rfl⟩ | ⟨hsome, b, hb, rfl⟩
    · rw [List.filter_cons, hnone]
      exact exists_branches_of_expandForest ht hdistinct hrest
    · have hkeys := branches_withBranch b hnew
      have hrest' : ∀ m ∈ forest,
          m.relation ∉ Fields.keys (r.withBranch n.relation b).branches := by
        intro m hm
        rw [hkeys]
        unfold Fields.keys
        rw [List.map_append, List.mem_append, not_or]
        refine ⟨hrest m hm, fun he => hn ?_⟩
        have hname : m.relation = n.relation := List.mem_singleton.mp he
        rw [← hname]
        exact List.mem_map_of_mem hm
      obtain ⟨branches, hbranches, hall⟩ := exists_branches_of_expandForest ht hdistinct hrest'
      have hsame : (r.withBranch n.relation b).entity = r.entity := entity_withBranch _ b r
      rw [List.filter_cons, if_pos hsome]
      refine ⟨(n.relation, b) :: branches, ?_, .cons ⟨rfl, hb⟩ ?_⟩
      · rw [hbranches, hkeys, List.append_assoc]
        rfl
      · unfold Resolved.pointer Resolved.type at hall ⊢
        rwa [hsame] at hall

theorem forall₂_branches_of_expandForest {forest : Include.Forest} {e : Entity} {t : Resolved}
    (h : expandForest registry load forest (leaf e) = .ok t)
    (hdistinct : (forest.map Include.Node.relation).Nodup) : List.Forall₂
      (fun n branch => branch.1 = n.relation ∧ IsBranch registry load n e.pointer branch.2)
      (forest.filter fun n => (registry.includable? e.type n.relation).isSome) t.branches := by
  obtain ⟨branches, hbranches, hall⟩ :=
    exists_branches_of_expandForest h hdistinct fun _ _ => List.not_mem_nil
  have hbranches : t.branches = branches := hbranches
  rw [hbranches]
  exact hall

/-- No branch of a tree has the name of another one. -/
theorem distinct_branches_of_expandForest {forest : Include.Forest}
    (hforest : (forest.map Include.Node.relation).Nodup) {e : Entity} {t : Resolved}
    (h : expandForest registry load forest (leaf e) = .ok t) : Fields.Distinct t.branches := by
  have hnames : List.Forall₂ (· = ·) ((forest.filter fun n =>
      (registry.includable? e.type n.relation).isSome).map Include.Node.relation)
      (t.branches.map Prod.fst) :=
    List.forall₂_map_left_iff.mpr (List.forall₂_map_right_iff.mpr
      ((forall₂_branches_of_expandForest h hforest).imp fun _ _ hb => hb.1.symm))
  rw [List.forall₂_eq_eq_eq] at hnames
  unfold Fields.Distinct Fields.keys
  rw [← hnames]
  exact (List.filter_sublist.map _).nodup hforest

/-! ### All levels -/

section Level
variable {below : Include.Forest} {e : Entity} {t : Resolved}
  (h : expandForest registry load below (leaf e) = .ok t)
  (hdistinct : (below.map Include.Node.relation).Nodup)
include h hdistinct

/-- A branch of a tree belongs to a node of the forest. -/
theorem exists_node_of_mem_branches {branch : String × Branch Resolved}
    (hb : branch ∈ t.branches) :
    ∃ n ∈ below, branch.1 = n.relation ∧ IsBranch registry load n e.pointer branch.2 := by
  obtain ⟨n, hn, hbranch⟩ := exists_of_mem_right (forall₂_branches_of_expandForest h hdistinct) hb
  exact ⟨n, (List.mem_filter.mp hn).1, hbranch⟩

/-- A node of the forest that may be included has a branch. -/
theorem exists_branch_of_mem {n : Include.Node} (hn : n ∈ below)
    (hsome : (registry.includable? e.type n.relation).isSome = true) :
    ∃ b, (n.relation, b) ∈ t.branches ∧ IsBranch registry load n e.pointer b := by
  have hall := forall₂_branches_of_expandForest h hdistinct
  obtain ⟨⟨_, b⟩, hb, rfl, hbranch⟩ := exists_of_mem_left hall (List.mem_filter.mpr ⟨hn, hsome⟩)
  exact ⟨b, hb, hbranch⟩

end Level

section Encounters
variable {roots : List Entity} {forest : Include.Forest}

theorem Met.wellFormed (hforest : forest.WellFormed) {e : Entity} {columns : List String}
    {below : Include.Forest} (h : Met registry load roots forest e columns below) :
    below.WellFormed := by
  induction h with
  | root _ => exact hforest
  | linked _ hn _ _ _ ih => exact ((Include.wellFormed_iff.mp ih).2 _ hn).2

theorem Met.distinct (hforest : forest.WellFormed) {e : Entity} {columns : List String}
    {below : Include.Forest} (h : Met registry load roots forest e columns below) :
    (below.map Include.Node.relation).Nodup :=
  (Include.wellFormed_iff.mp (h.wellFormed hforest)).1

/-- What is linked below an entity that is met is met. -/
theorem exists_met_of_mem_descendants (hforest : forest.WellFormed) {e : Entity}
    {columns : List String} {below : Include.Forest} {t s : Resolved}
    (hmet : Met registry load roots forest e columns below)
    (ht : expandForest registry load below (leaf (e.project columns)) = .ok t)
    (hs : s ∈ t.descendants) :
    ∃ e columns below, Met registry load roots forest e columns below ∧
      expandForest registry load below (leaf (e.project columns)) = .ok s := by
  obtain ⟨branch, hb, v, hv, hs⟩ := mem_descendants_iff.mp hs
  obtain ⟨n, hn, -, hbranch⟩ := exists_node_of_mem_branches ht (hmet.distinct hforest) hb
  obtain ⟨values, hload, hvalues⟩ := hbranch.loaded
  have hincludable := hbranch.includable
  rw [Entity.pointer_project] at hload hincludable
  -- the linked value is a loaded one, expanded by the forest below the node
  have hlinked := branch.2.cardinality.forall₂_linked hvalues
  rw [← Branch.linked_eq] at hlinked
  obtain ⟨w, hw, hexpand⟩ := exists_of_mem_right hlinked hv
  have hmet' := Met.linked hmet hn hincludable hload hw
  rcases hs with rfl | hs
  · exact ⟨w, n.columns, n.children, hmet', hexpand⟩
  · have := sizeOf_of_mem_linked hb hv
    exact exists_met_of_mem_descendants hforest hmet' hexpand hs
termination_by sizeOf t

/-- An entity that is met is encountered. -/
theorem Met.exists_mem_encounters (hforest : forest.WellFormed) {ts : List Resolved}
    (hts : List.Forall₂ (fun e t => expandForest registry load forest (leaf e) = .ok t) roots ts)
    {e : Entity} {columns : List String} {below : Include.Forest}
    (h : Met registry load roots forest e columns below) :
    ∃ t ∈ encounters ts, expandForest registry load below (leaf (e.project columns)) = .ok t := by
  induction h with
  | root he =>
    obtain ⟨t, ht, hexpand⟩ := exists_of_mem_left hts he
    exact ⟨t, List.mem_append_left _ ht, hexpand⟩
  | @linked e v columns below n target cardinality values hmet hn hrelation hload hv ih =>
    obtain ⟨t, ht, hexpand⟩ := ih
    have hsome : (registry.includable? (e.project columns).type n.relation).isSome = true := by
      unfold Entity.type at hrelation ⊢
      rw [Entity.pointer_project, hrelation]
      rfl
    obtain ⟨b, hb, hbranch⟩ := exists_branch_of_mem hexpand (hmet.distinct hforest) hn hsome
    obtain ⟨values', hload', hvalues⟩ := hbranch.loaded
    have hincludable := hbranch.includable
    rw [Entity.pointer_project] at hload' hincludable
    obtain rfl := Except.ok.inj (hload.symm.trans hload')
    have hcardinality : cardinality = b.cardinality :=
      congrArg Prod.snd (Option.some.inj (hrelation.symm.trans hincludable))
    have hlinked := b.cardinality.forall₂_linked hvalues
    rw [← Branch.linked_eq] at hlinked
    obtain ⟨s, hs, hexpand'⟩ := exists_of_mem_left hlinked (hcardinality ▸ hv)
    exact ⟨s, mem_encounters_of_mem_linked ht hb hs, hexpand'⟩

/-- **The encounters of a resolution** are the entities that are met, each cut down to the columns
of its place and expanded by the forest below it. -/
theorem mem_encounters_iff (hforest : forest.WellFormed) {ts : List Resolved}
    (hts : List.Forall₂ (fun e t => expandForest registry load forest (leaf e) = .ok t) roots ts)
    {t : Resolved} : t ∈ encounters ts ↔
      ∃ e columns below, Met registry load roots forest e columns below ∧
        expandForest registry load below (leaf (e.project columns)) = .ok t := by
  constructor
  · intro ht
    rcases List.mem_append.mp ht with ht | ht
    · obtain ⟨e, he, hexpand⟩ := exists_of_mem_right hts ht
      exact ⟨e, [], forest, .root he, hexpand⟩
    · obtain ⟨root, hroot, ht⟩ := List.mem_flatMap.mp ht
      obtain ⟨e, he, hexpand⟩ := exists_of_mem_right hts hroot
      exact exists_met_of_mem_descendants hforest (.root he) hexpand ht
  · rintro ⟨e, columns, below, hmet, hexpand⟩
    obtain ⟨s, hs, hexpand'⟩ := hmet.exists_mem_encounters hforest hts
    rw [hexpand] at hexpand'
    rwa [Except.ok.inj hexpand']

/-- The encounters of one identity are the places where it is met. -/
theorem mem_encountersOf_iff (hforest : forest.WellFormed) {ts : List Resolved}
    (hts : List.Forall₂ (fun e t => expandForest registry load forest (leaf e) = .ok t) roots ts)
    {p : Pointer} {t : Resolved} : t ∈ encountersOf p ts ↔
      ∃ e columns below, Met registry load roots forest e columns below ∧ e.pointer = p ∧
        expandForest registry load below (leaf (e.project columns)) = .ok t := by
  have hpointer : ∀ {e : Entity} {columns : List String} {below : Include.Forest},
      expandForest registry load below (leaf (e.project columns)) = .ok t →
      t.pointer = e.pointer := fun hexpand =>
    (pointer_expandForest hexpand).trans (Entity.pointer_project _ _)
  rw [mem_encountersOf, mem_encounters_iff hforest hts]
  constructor
  · rintro ⟨⟨e, columns, below, hmet, hexpand⟩, hp⟩
    exact ⟨e, columns, below, hmet, (hpointer hexpand).symm.trans hp, hexpand⟩
  · rintro ⟨e, columns, below, hmet, hp, hexpand⟩
    exact ⟨⟨e, columns, below, hmet, hexpand⟩, (hpointer hexpand).trans hp⟩

/-- The identities that are encountered are those that are met. -/
theorem mem_map_pointer_encounters_iff (hforest : forest.WellFormed) {ts : List Resolved}
    (hts : List.Forall₂ (fun e t => expandForest registry load forest (leaf e) = .ok t) roots ts)
    {p : Pointer} : p ∈ (encounters ts).map Resolved.pointer ↔
      ∃ e columns below, Met registry load roots forest e columns below ∧ e.pointer = p := by
  constructor
  · intro hp
    obtain ⟨t, ht, rfl⟩ := List.mem_map.mp hp
    obtain ⟨e, columns, below, hmet, hp, -⟩ :=
      (mem_encountersOf_iff hforest hts).mp (mem_encountersOf.mpr ⟨ht, rfl⟩)
    exact ⟨e, columns, below, hmet, hp⟩
  · rintro ⟨e, columns, below, hmet, rfl⟩
    obtain ⟨t, ht, hexpand⟩ := hmet.exists_mem_encounters hforest hts
    have hp := (pointer_expandForest hexpand).trans (Entity.pointer_project columns e)
    exact hp ▸ List.mem_map_of_mem ht

end Encounters

end Places

/-- A resolution with batches expands every root for itself. -/
theorem forall₂_expandForest_of_resolve {registry : Registry} {loader : Loader}
    (hloader : loader.Entitywise) {roots : List Entity} {forest : Include.Forest}
    {ts : List Resolved} (h : (resolve registry loader roots forest).outcome = .ok ts) :
    List.Forall₂ (fun e t => expandForest registry loader.load forest (leaf e) = .ok t)
      roots ts := by
  unfold resolve at h
  rw [outcome_resolveForest registry hloader] at h
  exact List.forall₂_map_left_iff.mp h

end Sideload
