import Mathlib.Data.List.Nodup
import Sideload.Proofs.Include.Grammar

/-! # Well-formed forests

A forest is well-formed (`Forest.WellFormed`) if at every level no relation is there twice and
every node is named: its relation and its columns are words, and no column is there twice.

Leading a path of words through a well-formed forest leaves it well-formed (`wellFormed_graft`), and
the forest is then as deep as it was, or as the path is long (`depthBelow_graft`). So the forest of
the paths of an expression is well-formed (`ExpressionText.wellFormed`), and it stays within a depth
exactly if each path does (`depthBelow_ofPaths_le_iff`). -/

namespace Sideload.Include

/-- Relation and columns are words, and no column is there twice. -/
def Node.Named (n : Node) : Prop :=
  IsName n.relation ∧ n.columns.Nodup ∧ ∀ c ∈ n.columns, IsName c

/-- At every level the relations differ, and every node is named. -/
inductive Forest.WellFormed : Forest → Prop where
  | intro {forest : Forest} (distinct : (forest.map Node.relation).Nodup)
      (named : ∀ n ∈ forest, n.Named) (below : ∀ n ∈ forest, WellFormed n.children) :
      WellFormed forest

/-- At every level the relations differ. -/
inductive Forest.Distinct : Forest → Prop where
  | intro {forest : Forest} (here : (forest.map Node.relation).Nodup)
      (below : ∀ n ∈ forest, Distinct n.children) : Distinct forest

theorem Forest.WellFormed.distinct {forest : Forest} (h : forest.WellFormed) : forest.Distinct := by
  induction h with
  | intro hdistinct _ _ ih => exact .intro hdistinct ih

theorem Forest.Distinct.nil : Forest.Distinct [] :=
  .intro List.nodup_nil fun _ hn => nomatch hn

theorem distinct_cons_iff {n : Node} {forest : Forest} : Forest.Distinct (n :: forest) ↔
    n.relation ∉ forest.map Node.relation ∧ n.children.Distinct ∧ forest.Distinct := by
  constructor
  · rintro ⟨here, below⟩
    obtain ⟨hn, here⟩ := List.nodup_cons.mp here
    obtain ⟨hchildren, below⟩ := List.forall_mem_cons.mp below
    exact ⟨hn, hchildren, .intro here below⟩
  · rintro ⟨hn, hchildren, ⟨here, below⟩⟩
    exact .intro (List.nodup_cons.mpr ⟨hn, here⟩) (List.forall_mem_cons.mpr ⟨hchildren, below⟩)

theorem Forest.WellFormed.nil : Forest.WellFormed [] :=
  .intro List.nodup_nil (by simp) (by simp)

theorem wellFormed_iff {forest : Forest} : Forest.WellFormed forest ↔
    (forest.map Node.relation).Nodup ∧ ∀ n ∈ forest, n.Named ∧ Forest.WellFormed n.children := by
  constructor
  · rintro ⟨hdistinct, hnamed, hbelow⟩
    exact ⟨hdistinct, fun n hn => ⟨hnamed n hn, hbelow n hn⟩⟩
  · rintro ⟨hdistinct, h⟩
    exact ⟨hdistinct, fun n hn => (h n hn).1, fun n hn => (h n hn).2⟩

theorem wellFormed_cons_iff {n : Node} {forest : Forest} :
    Forest.WellFormed (n :: forest) ↔ n.relation ∉ forest.map Node.relation ∧
      (n.Named ∧ Forest.WellFormed n.children) ∧ Forest.WellFormed forest := by
  rw [wellFormed_iff, @wellFormed_iff forest, List.map_cons, List.nodup_cons, List.forall_mem_cons]
  tauto

/-! ### Columns -/

theorem mem_addColumns {c : String} : ∀ {more columns : List String},
    c ∈ addColumns columns more ↔ c ∈ columns ∨ c ∈ more
  | [], columns => by simp [addColumns]
  | d :: more, columns => by
    show c ∈ addColumns (if d ∈ columns then columns else columns ++ [d]) more ↔ _
    rw [mem_addColumns, List.mem_cons]
    split
    · next hd =>
      constructor
      · rintro (h | h)
        · exact Or.inl h
        · exact Or.inr (Or.inr h)
      · rintro (h | rfl | h)
        · exact Or.inl h
        · exact Or.inl hd
        · exact Or.inr h
    · rw [List.mem_append, List.mem_singleton, or_assoc]

theorem nodup_addColumns : ∀ {more columns : List String}, columns.Nodup →
    (addColumns columns more).Nodup
  | [], _, h => h
  | d :: more, columns, h => by
    show (addColumns (if d ∈ columns then columns else columns ++ [d]) more).Nodup
    split
    · exact nodup_addColumns h
    · next hd =>
      refine nodup_addColumns (List.nodup_append.mpr ⟨h, List.nodup_singleton d, ?_⟩)
      intro c hc d' hd' e
      rw [List.mem_singleton.mp hd'] at e
      exact hd (e ▸ hc)

theorem nodup_mergeColumns {policy : ColumnPolicy} {columns : List String}
    (h : columns.Nodup) (more : Option (List String)) :
    (mergeColumns policy columns more).Nodup := by
  cases more with
  | none => exact h
  | some more =>
    cases policy with
    | union => exact nodup_addColumns h
    | last => exact nodup_addColumns List.nodup_nil

theorem mem_mergeColumns {policy : ColumnPolicy} {columns : List String}
    {more : Option (List String)} {c : String} (h : c ∈ mergeColumns policy columns more) :
    c ∈ columns ∨ ∃ cs ∈ more, c ∈ cs := by
  cases more with
  | none => exact Or.inl h
  | some more =>
    cases policy with
    | union => exact (mem_addColumns.mp h).imp_right fun h => ⟨more, rfl, h⟩
    | last => exact Or.inr ⟨more, rfl, (mem_addColumns.mp h).resolve_left (List.not_mem_nil)⟩

/-! ### Grafting -/

/-- The relation is a word; the columns in brackets, at least one, are words. -/
def Segment.Named (s : Segment) : Prop :=
  IsName s.relation ∧ ∀ columns ∈ s.columns, columns ≠ [] ∧ ∀ c ∈ columns, IsName c

section Alter
variable {relation : String} {f : Node → Node}

theorem map_relation_alter (hf : ∀ n, (f n).relation = n.relation) : ∀ forest : Forest,
    (alter relation f forest).map Node.relation =
      if relation ∈ forest.map Node.relation then forest.map Node.relation
      else forest.map Node.relation ++ [relation]
  | [] => by
    show [(f (.leaf relation)).relation] = [relation]
    rw [hf]
    rfl
  | n :: forest => by
    have ih := map_relation_alter hf forest
    rw [alter]
    by_cases hn : n.relation = relation
    · rw [if_pos hn, List.map_cons, List.map_cons, hf,
        if_pos (by rw [hn]; exact List.mem_cons_self)]
    · have hmem : relation ∈ n.relation :: forest.map Node.relation ↔
          relation ∈ forest.map Node.relation := by
        rw [List.mem_cons, or_iff_right (Ne.symm hn)]
      rw [if_neg hn, List.map_cons, ih, List.map_cons, if_congr hmem rfl rfl]
      split <;> rfl

/-- A node of the changed forest is an old one, or the change of an old one or of a new leaf. -/
theorem mem_alter {n : Node} : ∀ {forest : Forest}, n ∈ alter relation f forest →
    n ∈ forest ∨ n = f (.leaf relation) ∨ ∃ m ∈ forest, n = f m
  | [], h => Or.inr (Or.inl (List.mem_singleton.mp h))
  | m :: forest, h => by
    rw [alter] at h
    split at h
    · rcases List.mem_cons.mp h with rfl | h
      · exact Or.inr (Or.inr ⟨m, List.mem_cons_self, rfl⟩)
      · exact Or.inl (List.mem_cons_of_mem m h)
    · rcases List.mem_cons.mp h with rfl | h
      · exact Or.inl List.mem_cons_self
      · rcases mem_alter h with h | rfl | ⟨m', hm', rfl⟩
        · exact Or.inl (List.mem_cons_of_mem m h)
        · exact Or.inr (Or.inl rfl)
        · exact Or.inr (Or.inr ⟨m', List.mem_cons_of_mem m hm', rfl⟩)

/-- A change that keeps relations, and keeps what is well-formed at a node, keeps a forest
well-formed. -/
theorem Forest.WellFormed.alter {forest : Forest} (h : Forest.WellFormed forest)
    (hrelation : IsName relation) (hf : ∀ n, (f n).relation = n.relation)
    (hnode : ∀ n, n.Named ∧ WellFormed n.children → (f n).Named ∧ WellFormed (f n).children) :
    WellFormed (Include.alter relation f forest) := by
  rw [wellFormed_iff] at h ⊢
  obtain ⟨hdistinct, hgood⟩ := h
  constructor
  · rw [map_relation_alter hf]
    split
    · exact hdistinct
    · next hnew =>
      refine List.nodup_append.mpr ⟨hdistinct, List.nodup_singleton relation, ?_⟩
      intro r hr r' hr' e
      rw [List.mem_singleton.mp hr'] at e
      exact hnew (e ▸ hr)
  · intro n hn
    rcases mem_alter hn with hn | rfl | ⟨m, hm, rfl⟩
    · exact hgood n hn
    · exact hnode _ ⟨⟨hrelation, List.nodup_nil, by simp [Node.leaf, Node.columns]⟩, .nil⟩
    · exact hnode m (hgood m hm)

end Alter

/-- **A path of words leaves a well-formed forest well-formed.** -/
theorem wellFormed_graft {policy : ColumnPolicy} : ∀ {path : Path} {forest : Forest},
    (∀ s ∈ path, s.Named) → Forest.WellFormed forest →
      Forest.WellFormed (graft policy path forest)
  | [], _, _, h => h
  | s :: path, forest, hpath, h => by
    obtain ⟨hrelation, hcolumns⟩ := hpath s List.mem_cons_self
    refine h.alter hrelation (fun _ => rfl) ?_
    rintro n ⟨⟨hname, hnodup, hwords⟩, hbelow⟩
    have hpath' : ∀ s' ∈ path, s'.Named := fun s' hs' => hpath s' (List.mem_cons_of_mem s hs')
    refine ⟨⟨hname, nodup_mergeColumns hnodup s.columns, fun c hc => ?_⟩,
      wellFormed_graft hpath' hbelow⟩
    rcases mem_mergeColumns hc with hc | ⟨cs, hcs, hc⟩
    · exact hwords c hc
    · exact (hcolumns cs hcs).2 c hc

/-- Lead paths through a forest, one after the other. -/
def graftAll (policy : ColumnPolicy) (paths : List Path) (forest : Forest) : Forest :=
  paths.foldl (fun forest path => graft policy path forest) forest

theorem graftAll_cons (policy : ColumnPolicy) (path : Path) (paths : List Path) (forest : Forest) :
    graftAll policy (path :: paths) forest = graftAll policy paths (graft policy path forest) := rfl

theorem graftAll_append (policy : ColumnPolicy) (paths more : List Path) (forest : Forest) :
    graftAll policy (paths ++ more) forest = graftAll policy more (graftAll policy paths forest) :=
  List.foldl_append

theorem wellFormed_graftAll {policy : ColumnPolicy} : ∀ {paths : List Path} {forest : Forest},
    (∀ path ∈ paths, ∀ s ∈ path, s.Named) → Forest.WellFormed forest →
      Forest.WellFormed (graftAll policy paths forest)
  | [], _, _, h => h
  | path :: paths, forest, hpaths, h => by
    have hgraft : Forest.WellFormed (graft policy path forest) :=
      wellFormed_graft (hpaths path List.mem_cons_self) h
    rw [graftAll_cons]
    exact wellFormed_graftAll (fun p hp => hpaths p (List.mem_cons_of_mem path hp)) hgraft

/-! ### What the grammar says is named -/

theorem Separated.forall_mem {α : Type} {mark : Char} {Item : α → List Char → Prop} {P : α → Prop}
    (hItem : ∀ x cs, Item x cs → P x) {xs : List α} {cs : List Char}
    (h : Separated mark Item xs cs) : ∀ x ∈ xs, P x := by
  induction h with
  | one h =>
    intro y hy
    rw [List.mem_singleton.mp hy]
    exact hItem _ _ h
  | more h _ ih =>
    intro y hy
    rcases List.mem_cons.mp hy with rfl | hy
    · exact hItem _ _ h
    · exact ih y hy

theorem SegmentText.named {s : Segment} {cs : List Char} (h : SegmentText s cs) : s.Named := by
  cases h with
  | bare h => exact ⟨h.1, fun columns hc => nomatch hc⟩
  | bracketed h hcolumns =>
    refine ⟨h.1, fun columns hc => ?_⟩
    obtain rfl := Option.mem_some.mp hc
    exact ⟨hcolumns.ne_nil, hcolumns.forall_mem fun _ _ h => h.1⟩

theorem ExpressionText.wellFormed {paths : List Path} {cs : List Char}
    (h : ExpressionText paths cs) (policy : ColumnPolicy) :
    Forest.WellFormed (.ofPaths policy paths) :=
  wellFormed_graftAll
    (h.forall_mem fun _ _ hpath => hpath.forall_mem fun _ _ hsegment => hsegment.named) .nil

/-! ### Depth -/

theorem depthBelow_graft (policy : ColumnPolicy) : ∀ (path : Path) (forest : Forest),
    Node.depthBelow (graft policy path forest) = max (Node.depthBelow forest) path.length
  | [], forest => by rw [graft, List.length_nil, Nat.max_zero]
  | s :: path, [] => by
    show max (1 + Node.depthBelow (graft policy path [])) 0 = max 0 (path.length + 1)
    rw [depthBelow_graft policy path [], Node.depthBelow]
    omega
  | s :: path, .mk relation columns children :: forest => by
    have hchildren := depthBelow_graft policy path children
    have hforest := depthBelow_graft policy (s :: path) forest
    rw [graft] at hforest ⊢
    rw [alter]
    split
    · show max (1 + Node.depthBelow (graft policy path children)) (Node.depthBelow forest) =
        max (max (1 + Node.depthBelow children) (Node.depthBelow forest)) (path.length + 1)
      rw [hchildren]
      omega
    · rw [Node.depthBelow, hforest, Node.depthBelow]
      omega

theorem depthBelow_le_iff {m : Nat} : ∀ {forest : Forest},
    Node.depthBelow forest ≤ m ↔ ∀ n ∈ forest, n.depth ≤ m
  | [] => by simp [Node.depthBelow]
  | n :: forest => by
    rw [Node.depthBelow, List.forall_mem_cons, ← depthBelow_le_iff]
    omega

theorem depthBelow_graftAll_le_iff {policy : ColumnPolicy} {m : Nat} :
    ∀ {paths : List Path} {forest : Forest}, Node.depthBelow (graftAll policy paths forest) ≤ m ↔
      Node.depthBelow forest ≤ m ∧ ∀ path ∈ paths, path.length ≤ m
  | [], forest => by simp [graftAll]
  | path :: paths, forest => by
    rw [graftAll_cons, depthBelow_graftAll_le_iff, depthBelow_graft, List.forall_mem_cons,
      Nat.max_le, and_assoc]

/-- The forest of some paths is within a depth if each path is. -/
theorem depthBelow_ofPaths_le_iff {policy : ColumnPolicy} {paths : List Path} {m : Nat} :
    Node.depthBelow (.ofPaths policy paths) ≤ m ↔ ∀ path ∈ paths, path.length ≤ m := by
  refine depthBelow_graftAll_le_iff.trans ?_
  rw [Node.depthBelow]
  exact and_iff_right (Nat.zero_le m)

end Sideload.Include
