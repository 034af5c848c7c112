import Mathlib.Data.List.Induction
import Sideload.Proofs.Include.RoundTrip
import Sideload.Proofs.Lists.FirstOccurrences

/-! # Forests as merged paths

The forest of some paths is their prefix tree: it has one node for each relation that a path begins
with, in the order of their first mention, and the forest below the node is that of what the paths
go on with behind the relation (`ofPaths_eq_map`). Read from the top down, the node at a relation
path is made of the segments that mention it (`At.columns_eq`, `At.children_eq`), and it is there
if a path leads through it (`exists_at_ofPaths_iff`).

`parse_prefixTree` says this of expressions: which nodes there are, in which order siblings stand,
and which columns a node has. -/

namespace Sideload.Include

/-! ### What is written at a place -/

/-- The relations of a path, from the top down. -/
def Path.relations (path : Path) : List String := path.map Segment.relation

/-- What the paths that begin with some relations go on with. -/
def continuations (q : List String) (paths : List Path) : List Path :=
  paths.filterMap fun path =>
    if q <+: path.relations then some (path.drop q.length) else none

/-- The segments behind some relations, in written order. -/
def following (q : List String) (paths : List Path) : List Segment :=
  (continuations q paths).filterMap List.head?

/-- The segments that mention a node at a relation path, in written order. -/
def occurrences (q : List String) (paths : List Path) : List Segment :=
  paths.filterMap fun path => if q <+: path.relations then path[q.length - 1]? else none

/-- What column lists come to: all columns of all lists, or those of the last list, each once. -/
def ColumnPolicy.combine : ColumnPolicy → List (List String) → List String
  | .union, lists => lists.flatten.eraseDups
  | .last, lists => (lists.getLast?.getD []).eraseDups

/-- The node stands at a relation path, which ends with its own relation. -/
inductive At : Forest → List String → Node → Prop where
  | here {forest : Forest} {n : Node} (hn : n ∈ forest) : At forest [n.relation] n
  | deeper {forest : Forest} {n m : Node} {q : List String} (hn : n ∈ forest)
      (h : At n.children q m) : At forest (n.relation :: q) m

/-! ### Column lists -/

theorem addColumns_eraseDups : ∀ (more columns : List String),
    addColumns columns.eraseDups more = (columns ++ more).eraseDups
  | [], columns => by rw [List.append_nil]; rfl
  | c :: more, columns => by
    have hstep : (if c ∈ columns.eraseDups then columns.eraseDups else columns.eraseDups ++ [c]) =
        (columns ++ [c]).eraseDups := by
      rw [eraseDups_concat, if_congr List.mem_eraseDups rfl rfl]
    show addColumns (if c ∈ columns.eraseDups then columns.eraseDups
      else columns.eraseDups ++ [c]) more = _
    rw [hstep, addColumns_eraseDups more, List.append_assoc]
    rfl

/-- One more column list is merged into what the others come to. -/
theorem combine_concat (policy : ColumnPolicy) (lists : List (List String)) (more : List String) :
    policy.combine (lists ++ [more]) = mergeColumns policy (policy.combine lists) (some more) := by
  cases policy with
  | union =>
    show (lists ++ [more]).flatten.eraseDups = addColumns lists.flatten.eraseDups more
    rw [addColumns_eraseDups, List.flatten_append, List.flatten_singleton]
  | last =>
    show ((lists ++ [more]).getLast?.getD []).eraseDups = addColumns [].eraseDups more
    rw [addColumns_eraseDups, List.getLast?_concat, Option.getD_some, List.nil_append]

/-- Column lists come to nothing only if there are none; a list that is written is not empty. -/
theorem combine_eq_nil_iff {policy : ColumnPolicy} {lists : List (List String)}
    (h : ∀ columns ∈ lists, columns ≠ []) : policy.combine lists = [] ↔ lists = [] := by
  cases policy with
  | union =>
    show lists.flatten.eraseDups = [] ↔ lists = []
    rw [eraseDups_eq_nil_iff, List.flatten_eq_nil_iff]
    exact ⟨fun hall => List.eq_nil_iff_forall_not_mem.mpr fun l hl => h l hl (hall l hl),
      fun hnil => by simp [hnil]⟩
  | last =>
    show (lists.getLast?.getD []).eraseDups = [] ↔ lists = []
    rw [eraseDups_eq_nil_iff]
    cases hlast : lists.getLast? with
    | none => simpa using hlast
    | some l =>
      have hl : l ∈ lists := List.mem_of_getLast? hlast
      exact ⟨fun hnil => absurd hnil (h l hl), fun hnil => by simp [hnil] at hl⟩

/-! ### Paths below a relation -/

theorem prefix_relations_cons_iff {r : String} {q : List String} {s : Segment} {path : Path} :
    r :: q <+: Path.relations (s :: path) ↔ r = s.relation ∧ q <+: path.relations :=
  List.cons_prefix_cons

theorem not_prefix_relations_nil {r : String} {q : List String} :
    ¬ r :: q <+: Path.relations [] := by
  simp [Path.relations]

theorem continuations_nil (paths : List Path) : continuations [] paths = paths := by
  simp [continuations]

/-- Paths are followed one relation after the other. -/
theorem continuations_cons (r : String) (q : List String) (paths : List Path) :
    continuations (r :: q) paths = continuations q (continuations [r] paths) := by
  unfold continuations
  rw [List.filterMap_filterMap]
  refine List.filterMap_congr fun path _ => ?_
  cases path with
  | nil => simp [not_prefix_relations_nil]
  | cons s path => by_cases h : r = s.relation <;> simp [prefix_relations_cons_iff, h]

theorem occurrences_cons (r r' : String) (q : List String) (paths : List Path) :
    occurrences (r :: r' :: q) paths = occurrences (r' :: q) (continuations [r] paths) := by
  unfold occurrences continuations
  rw [List.filterMap_filterMap]
  refine List.filterMap_congr fun path _ => ?_
  cases path with
  | nil => simp [not_prefix_relations_nil]
  | cons s path =>
    rw [if_congr prefix_relations_cons_iff rfl rfl]
    by_cases h : r = s.relation <;> simp [prefix_relations_cons_iff, h]

/-- A path leads through a relation path if what it goes on with behind the first relation leads
through the rest. -/
theorem exists_prefix_cons_iff {r : String} {q : List String} {paths : List Path} :
    (∃ path ∈ paths, r :: q <+: path.relations) ↔
      ∃ path ∈ continuations [r] paths, q <+: path.relations := by
  unfold continuations
  simp only [List.mem_filterMap]
  constructor
  · rintro ⟨path, hpath, hq⟩
    cases path with
    | nil => exact absurd hq not_prefix_relations_nil
    | cons s path =>
      obtain ⟨hr, hq⟩ := prefix_relations_cons_iff.mp hq
      exact ⟨path, ⟨s :: path, hpath, by simp [prefix_relations_cons_iff, hr]⟩, hq⟩
  · rintro ⟨rest, ⟨path, hpath, hrest⟩, hq⟩
    cases path with
    | nil => simp [not_prefix_relations_nil] at hrest
    | cons s path =>
      rw [if_congr prefix_relations_cons_iff rfl rfl] at hrest
      split at hrest
      · next hr =>
        obtain rfl := Option.some.inj hrest
        exact ⟨_, hpath, prefix_relations_cons_iff.mpr ⟨hr.1, hq⟩⟩
      · cases hrest

theorem mem_following_nil_iff {r : String} {paths : List Path} :
    r ∈ (following [] paths).map Segment.relation ↔ ∃ path ∈ paths, [r] <+: path.relations := by
  unfold following
  rw [continuations_nil]
  simp only [List.mem_map, List.mem_filterMap]
  constructor
  · rintro ⟨s, ⟨path, hpath, hs⟩, rfl⟩
    obtain ⟨rest, rfl⟩ := List.head?_eq_some_iff.mp hs
    exact ⟨_, hpath, prefix_relations_cons_iff.mpr ⟨rfl, List.nil_prefix⟩⟩
  · rintro ⟨path, hpath, hr⟩
    cases path with
    | nil => exact absurd hr not_prefix_relations_nil
    | cons s path => exact ⟨s, ⟨_, hpath, rfl⟩, (prefix_relations_cons_iff.mp hr).1.symm⟩

/-! ### One more path -/

/-- What paths say of a relation that they begin with. -/
def nodeOf (policy : ColumnPolicy) (paths : List Path) (r : String) : Node :=
  .mk r (policy.combine ((occurrences [r] paths).filterMap Segment.columns))
    (Forest.ofPaths policy (continuations [r] paths))

theorem ofPaths_concat (policy : ColumnPolicy) (paths : List Path) (path : Path) :
    Forest.ofPaths policy (paths ++ [path]) = graft policy path (Forest.ofPaths policy paths) :=
  List.foldl_append

section Concat
variable {policy : ColumnPolicy} {paths : List Path} {s : Segment} {path : Path} {r : String}

theorem continuations_concat : continuations [r] (paths ++ [s :: path]) =
    continuations [r] paths ++ if r = s.relation then [path] else [] := by
  unfold continuations
  rw [List.filterMap_append]
  by_cases h : r = s.relation <;> simp [prefix_relations_cons_iff, h]

theorem occurrences_concat : occurrences [r] (paths ++ [s :: path]) =
    occurrences [r] paths ++ if r = s.relation then [s] else [] := by
  unfold occurrences
  rw [List.filterMap_append]
  by_cases h : r = s.relation <;> simp [prefix_relations_cons_iff, h]

theorem following_nil_concat : following [] (paths ++ [s :: path]) = following [] paths ++ [s] := by
  unfold following
  rw [continuations_nil, continuations_nil, List.filterMap_append]
  rfl

theorem combine_columns_concat (policy : ColumnPolicy) (segments : List Segment) (s : Segment) :
    policy.combine ((segments ++ [s]).filterMap Segment.columns) =
      mergeColumns policy (policy.combine (segments.filterMap Segment.columns)) s.columns := by
  rw [List.filterMap_append]
  cases hs : s.columns with
  | none => simp [hs, mergeColumns]
  | some more => rw [← combine_concat]; simp [hs]

/-- A path changes what is said of its first relation, and of no other. -/
theorem nodeOf_concat : nodeOf policy (paths ++ [s :: path]) r =
    if r = s.relation then
      .mk r (mergeColumns policy (nodeOf policy paths r).columns s.columns)
        (graft policy path (nodeOf policy paths r).children)
    else nodeOf policy paths r := by
  unfold nodeOf
  rw [continuations_concat, occurrences_concat]
  split
  · rw [ofPaths_concat, combine_columns_concat]
    rfl
  · rw [List.append_nil, List.append_nil]

/-- Nothing is said of a relation that no path begins with. -/
theorem nodeOf_of_not_mem (h : r ∉ (following [] paths).map Segment.relation) :
    nodeOf policy paths r = .leaf r := by
  have hnone : ∀ path ∈ paths, ¬ [r] <+: path.relations := fun path hpath hr =>
    h (mem_following_nil_iff.mpr ⟨path, hpath, hr⟩)
  have hoccurrences : occurrences [r] paths = [] :=
    List.filterMap_eq_nil_iff.mpr fun path hpath => if_neg (hnone path hpath)
  have hcontinuations : continuations [r] paths = [] :=
    List.filterMap_eq_nil_iff.mpr fun path hpath => if_neg (hnone path hpath)
  unfold nodeOf
  rw [hoccurrences, hcontinuations]
  cases policy <;> rfl

end Concat

/-- Changing the node of one relation in a row of nodes with distinct relations. -/
theorem alter_map {f : Node → Node} {node : String → Node} (hnode : ∀ r, (node r).relation = r)
    (relation : String) : ∀ {names : List String}, names.Nodup →
    alter relation f (names.map node) =
      if relation ∈ names then names.map fun r => if r = relation then f (node r) else node r
      else names.map node ++ [f (.leaf relation)]
  | [], _ => rfl
  | r :: names, hnodup => by
    obtain ⟨hr, hnodup⟩ := List.nodup_cons.mp hnodup
    rw [List.map_cons, alter, hnode, alter_map hnode relation hnodup]
    by_cases h : r = relation
    · subst h
      have hrest : names.map (fun r' => if r' = r then f (node r') else node r') =
          names.map node :=
        List.map_congr_left fun r' hr' => if_neg fun (e : r' = r) => hr (e ▸ hr')
      simp [hrest]
    · have hmem : relation ∈ r :: names ↔ relation ∈ names := by
        rw [List.mem_cons, or_iff_right (Ne.symm h)]
      rw [if_neg h, if_congr hmem rfl rfl]
      split <;> simp [h]

/-- **The forest of some paths is their prefix tree.** -/
theorem ofPaths_eq_map (policy : ColumnPolicy) (paths : List Path) :
    Forest.ofPaths policy paths =
      ((following [] paths).map Segment.relation).eraseDups.map (nodeOf policy paths) := by
  induction paths using List.reverseRecOn with
  | nil => rfl
  | append_singleton paths path ih =>
    rw [ofPaths_concat, ih]
    cases path with
    | nil =>
      have hnode : nodeOf policy (paths ++ [[]]) = nodeOf policy paths := by
        funext r
        simp [nodeOf, continuations, occurrences, not_prefix_relations_nil]
      have hnames : following [] (paths ++ [[]]) = following [] paths := by
        simp [following, continuations_nil]
      rw [hnode, hnames]
      rfl
    | cons s path =>
      rw [graft, alter_map (fun _ => rfl) s.relation (nodup_eraseDups _), following_nil_concat,
        List.map_append, List.map_singleton, eraseDups_concat,
        if_congr List.mem_eraseDups rfl rfl]
      split
      · refine List.map_congr_left fun r _ => ?_
        rw [nodeOf_concat]
        rfl
      · next hnew =>
        rw [List.map_append, List.map_singleton, nodeOf_concat, if_pos rfl,
          nodeOf_of_not_mem hnew]
        congr 1
        refine List.map_congr_left fun r hr => ?_
        have hne : r ≠ s.relation := fun e => hnew (e ▸ List.mem_eraseDups.mp hr)
        rw [nodeOf_concat, if_neg hne]

/-! ### From the top down -/

theorem map_relation_ofPaths (policy : ColumnPolicy) (paths : List Path) :
    (Forest.ofPaths policy paths).map Node.relation =
      ((following [] paths).map Segment.relation).eraseDups := by
  rw [ofPaths_eq_map, List.map_map]
  exact List.map_id _

section Down
variable {policy : ColumnPolicy} {n : Node}

theorem at_cons_iff {forest : Forest} {r : String} {q : List String} : At forest (r :: q) n ↔
    ∃ m ∈ forest, m.relation = r ∧ (q = [] ∧ n = m ∨ At m.children q n) := by
  constructor
  · intro h
    cases h with
    | here hn => exact ⟨n, hn, rfl, Or.inl ⟨rfl, rfl⟩⟩
    | deeper hm h => exact ⟨_, hm, rfl, Or.inr h⟩
  · rintro ⟨m, hm, rfl, ⟨rfl, rfl⟩ | h⟩
    · exact .here hm
    · exact .deeper hm h

/-- Below a relation stands what the paths go on with behind it. -/
theorem at_ofPaths_cons_iff {r : String} {q : List String} {paths : List Path} :
    At (Forest.ofPaths policy paths) (r :: q) n ↔ (∃ path ∈ paths, [r] <+: path.relations) ∧
      (q = [] ∧ n = nodeOf policy paths r ∨
        At (Forest.ofPaths policy (continuations [r] paths)) q n) := by
  rw [at_cons_iff, ofPaths_eq_map, ← mem_following_nil_iff]
  simp only [List.mem_map, List.mem_eraseDups]
  constructor
  · rintro ⟨_, ⟨r', hr', rfl⟩, rfl, h⟩
    exact ⟨hr', h⟩
  · rintro ⟨hr, h⟩
    exact ⟨_, ⟨r, hr, rfl⟩, rfl, h⟩

/-- A node is there if a path leads through it. -/
theorem exists_at_ofPaths_iff : ∀ (q : List String) (paths : List Path),
    (∃ n, At (Forest.ofPaths policy paths) q n) ↔
      q ≠ [] ∧ ∃ path ∈ paths, q <+: path.relations
  | [], paths => by
    constructor
    · rintro ⟨n, h⟩
      cases h
    · rintro ⟨h, -⟩
      exact absurd rfl h
  | [r], paths => by
    simp only [at_ofPaths_cons_iff]
    constructor
    · rintro ⟨n, hr, -⟩
      exact ⟨List.cons_ne_nil r [], hr⟩
    · rintro ⟨-, hr⟩
      exact ⟨_, hr, Or.inl ⟨trivial, rfl⟩⟩
  | r :: r' :: q, paths => by
    have ih := exists_at_ofPaths_iff (r' :: q) (continuations [r] paths)
    rw [← exists_prefix_cons_iff] at ih
    simp only [at_ofPaths_cons_iff (q := r' :: q)]
    constructor
    · rintro ⟨n, -, ⟨hnil, -⟩ | h⟩
      · cases hnil
      · exact ⟨List.cons_ne_nil r _, (ih.mp ⟨n, h⟩).2⟩
    · rintro ⟨-, path, hpath, hq⟩
      obtain ⟨n, h⟩ := ih.mpr ⟨List.cons_ne_nil r' q, path, hpath, hq⟩
      have hr : [r] <+: path.relations := (List.prefix_append [r] (r' :: q)).trans hq
      exact ⟨n, ⟨path, hpath, hr⟩, Or.inr h⟩

/-- A node has the columns of the segments that mention it, and stands above what the paths through
it go on with. -/
theorem At.eq_of_ofPaths : ∀ {q : List String} {paths : List Path},
    At (Forest.ofPaths policy paths) q n →
      n.columns = policy.combine ((occurrences q paths).filterMap Segment.columns) ∧
      n.children = Forest.ofPaths policy (continuations q paths)
  | [], _, h => nomatch h
  | [r], paths, h => by
    obtain ⟨-, ⟨-, rfl⟩ | h⟩ := at_ofPaths_cons_iff.mp h
    · exact ⟨rfl, rfl⟩
    · cases h
  | r :: r' :: q, paths, h => by
    obtain ⟨-, ⟨hnil, -⟩ | h⟩ := at_ofPaths_cons_iff.mp h
    · cases hnil
    · rw [occurrences_cons, continuations_cons r (r' :: q)]
      exact h.eq_of_ofPaths

theorem mem_of_mem_occurrences {q : List String} {paths : List Path} {s : Segment}
    (h : s ∈ occurrences q paths) : ∃ path ∈ paths, s ∈ path := by
  obtain ⟨path, hpath, hs⟩ := List.mem_filterMap.mp h
  split at hs
  · exact ⟨path, hpath, List.mem_of_getElem? hs⟩
  · cases hs

/-- Where all column lists name something, a node without columns is one that no list is written
for. -/
theorem At.columns_eq_nil_iff {q : List String} {paths : List Path}
    (h : At (Forest.ofPaths policy paths) q n) (hnamed : ∀ path ∈ paths, ∀ s ∈ path, s.Named) :
    n.columns = [] ↔ ∀ s ∈ occurrences q paths, s.columns = none := by
  have hlists : ∀ columns ∈ (occurrences q paths).filterMap Segment.columns, columns ≠ [] := by
    intro columns hcolumns
    obtain ⟨s, hs, hsc⟩ := List.mem_filterMap.mp hcolumns
    obtain ⟨path, hpath, hsp⟩ := mem_of_mem_occurrences hs
    exact ((hnamed path hpath s hsp).2 columns hsc).1
  rw [h.eq_of_ofPaths.1, combine_eq_nil_iff hlists, List.filterMap_eq_nil_iff]

end Down

/-! ### Expressions -/

/-- **The forest of an expression is the merged prefix tree of its paths.** There is a node at a
relation path exactly if a written path begins with it. Siblings stand in the order of their first
mention. A node has the columns of the lists that are written for it, all of them or those of the
last list, each once where it is first named; segments without a list add nothing, and a node is
without columns exactly if none of its segments has a list. -/
theorem parse_prefixTree {options : Options} {e : String} {forest : Forest}
    (h : parse options e = .ok forest) :
    ∃ paths, parsePaths options.maxDepth e = .ok paths ∧
      (Blanks e.toList ∧ paths = [] ∨ ExpressionText paths e.toList) ∧
      (∀ q, (∃ n, At forest q n) ↔ q ≠ [] ∧ ∃ path ∈ paths, q <+: path.relations) ∧
      (forest.map Node.relation = ((following [] paths).map Segment.relation).eraseDups ∧
        ∀ q n, At forest q n →
          n.children.map Node.relation = ((following q paths).map Segment.relation).eraseDups) ∧
      ∀ q n, At forest q n →
        n.columns =
          options.columnPolicy.combine ((occurrences q paths).filterMap Segment.columns) ∧
        (n.columns = [] ↔ ∀ s ∈ occurrences q paths, s.columns = none) := by
  obtain ⟨paths, hpaths, rfl⟩ : ∃ paths, parsePaths options.maxDepth e = .ok paths ∧
      forest = Forest.ofPaths options.columnPolicy paths := by
    unfold parse at h
    cases hpaths : parsePaths options.maxDepth e with
    | error m => rw [hpaths] at h; cases h
    | ok paths => rw [hpaths] at h; exact ⟨paths, rfl, (Except.ok.inj h).symm⟩
  have htext : Blanks e.toList ∧ paths = [] ∨ ExpressionText paths e.toList :=
    (parsePaths_eq_ok_iff.mp hpaths).imp_right And.left
  have hnamed : ∀ path ∈ paths, ∀ s ∈ path, s.Named := by
    rcases htext with ⟨-, rfl⟩ | htext
    · exact fun path hpath => nomatch hpath
    · exact htext.forall_mem fun _ _ hpath => hpath.forall_mem fun _ _ hs => hs.named
  refine ⟨paths, hpaths, htext, fun q => exists_at_ofPaths_iff q paths, ⟨?_, fun q n hn => ?_⟩,
    fun q n hn => ⟨hn.eq_of_ofPaths.1, hn.columns_eq_nil_iff hnamed⟩⟩
  · exact map_relation_ofPaths _ paths
  · rw [hn.eq_of_ofPaths.2, map_relation_ofPaths]
    unfold following
    rw [continuations_nil]

/-- Four paths that overlap, with a node that is mentioned with two lists and without one. -/
theorem parse_prefixTree_overlapping :
    let forest : Forest :=
      [.mk "a" ["x", "y", "z"] [.mk "b" ["w"] [], .mk "d" [] []], .mk "c" [] []]
    parse {} "a[x|y].b, c, a.d, a[z|x].b[w]" = .ok forest ∧
      forest.map Node.relation = ["a", "c"] ∧ (∃ n, At forest ["a", "d"] n) ∧
      (¬ ∃ n, At forest ["c", "d"] n) ∧
      ∀ n, At forest ["a"] n →
        n.columns = ["x", "y", "z"] ∧ n.children.map Node.relation = ["b", "d"] := by
  intro forest
  have hforest : parse {} "a[x|y].b, c, a.d, a[z|x].b[w]" = .ok forest := by decide +kernel
  let a (columns : Option (List String)) : Segment := ⟨"a", columns⟩
  have hread : parsePaths (some 32) "a[x|y].b, c, a.d, a[z|x].b[w]" =
      .ok [[a (some ["x", "y"]), ⟨"b", none⟩], [⟨"c", none⟩], [a none, ⟨"d", none⟩],
        [a (some ["z", "x"]), ⟨"b", some ["w"]⟩]] := by decide +kernel
  obtain ⟨paths, hpaths, -, hat, ⟨htop, hbelow⟩, hcolumns⟩ := parse_prefixTree hforest
  obtain rfl := Except.ok.inj (hread.symm.trans hpaths)
  refine ⟨hforest, htop.trans (by decide), ?_, ?_, fun n hn => ⟨?_, ?_⟩⟩
  · exact (hat ["a", "d"]).mpr (by decide)
  · exact fun h => absurd ((hat ["c", "d"]).mp h) (by decide)
  · exact (hcolumns ["a"] n hn).1.trans (by decide)
  · exact (hbelow ["a"] n hn).trans (by decide)

end Sideload.Include
