import Sideload.Proofs.Include.Acceptance
import Sideload.Proofs.Include.WellFormed

/-! # What is written is read back

The leaf paths of a well-formed forest, led one after the other through nothing, give the forest
again (`ofPaths_leafPathsOf`): the first path through a node adds it behind its siblings with all
its columns, every later one finds it last and changes only what is below. The text of the leaf
paths belongs to the grammar (`expressionText_render`).

`parse_forests`: the forests that are parsed are the well-formed ones within the limit, and such a
forest is what its text is parsed to. -/

namespace Sideload.Include

/-! ### Columns written again -/

theorem addColumns_of_nodup : ∀ {more columns : List String}, (columns ++ more).Nodup →
    addColumns columns more = columns ++ more
  | [], columns, _ => (List.append_nil columns).symm
  | c :: more, columns, h => by
    have hnew : c ∉ columns := fun hc =>
      (List.nodup_append.mp h).2.2 c hc c List.mem_cons_self rfl
    show addColumns (if c ∈ columns then columns else columns ++ [c]) more = _
    rw [if_neg hnew, addColumns_of_nodup (by rwa [List.append_assoc]), List.append_assoc]
    rfl

theorem addColumns_of_subset : ∀ {more columns : List String}, (∀ c ∈ more, c ∈ columns) →
    addColumns columns more = columns
  | [], _, _ => rfl
  | c :: more, columns, h => by
    show addColumns (if c ∈ columns then columns else columns ++ [c]) more = columns
    rw [if_pos (h c List.mem_cons_self)]
    exact addColumns_of_subset fun d hd => h d (List.mem_cons_of_mem c hd)

theorem columns_segment (n : Node) :
    n.segment.columns = if n.columns = [] then none else some n.columns := by
  unfold Node.segment
  cases n.columns <;> rfl

theorem mergeColumns_segment (policy : ColumnPolicy) {n : Node} (h : n.columns.Nodup) :
    mergeColumns policy [] n.segment.columns = n.columns ∧
      mergeColumns policy n.columns n.segment.columns = n.columns := by
  rw [columns_segment]
  split
  · next hnil => exact ⟨hnil.symm, rfl⟩
  · have hall : addColumns [] n.columns = n.columns := addColumns_of_nodup h
    cases policy with
    | union => exact ⟨hall, addColumns_of_subset fun _ hc => hc⟩
    | last => exact ⟨hall, hall⟩

/-! ### Paths through the last node -/

section LastNode
variable {policy : ColumnPolicy} {n : Node} {before : Forest}

theorem alter_append {relation : String} {f : Node → Node} {after : Forest} :
    ∀ {before : Forest}, relation ∉ before.map Node.relation →
      alter relation f (before ++ after) = before ++ alter relation f after
  | [], _ => rfl
  | m :: before, h => by
    rw [List.map_cons, List.mem_cons, not_or] at h
    rw [List.cons_append, alter, if_neg (Ne.symm h.1), alter_append h.2]
    rfl

/-- The first path through a node adds it. -/
theorem graft_segment (hcolumns : n.columns.Nodup) (hnew : n.relation ∉ before.map Node.relation)
    (path : Path) : graft policy (n.segment :: path) before =
      before ++ [.mk n.relation n.columns (graft policy path [])] := by
  have halter : graft policy (n.segment :: path) (before ++ []) =
      before ++ graft policy (n.segment :: path) [] := alter_append hnew
  rw [List.append_nil] at halter
  rw [halter]
  show before ++ [.mk n.relation (mergeColumns policy [] n.segment.columns) _] = _
  rw [(mergeColumns_segment policy hcolumns).1]
  rfl

/-- A later path through the node changes what is below. -/
theorem graft_segment_append (hcolumns : n.columns.Nodup)
    (hnew : n.relation ∉ before.map Node.relation) (children : Forest) (path : Path) :
    graft policy (n.segment :: path) (before ++ [.mk n.relation n.columns children]) =
      before ++ [.mk n.relation n.columns (graft policy path children)] := by
  refine (alter_append hnew).trans ?_
  rw [alter, if_pos (show (Node.mk n.relation n.columns children).relation = n.relation from rfl)]
  show before ++ [.mk n.relation (mergeColumns policy n.columns n.segment.columns) _] = _
  rw [(mergeColumns_segment policy hcolumns).2]
  rfl

theorem graftAll_segment_append (hcolumns : n.columns.Nodup)
    (hnew : n.relation ∉ before.map Node.relation) : ∀ (paths : List Path) (children : Forest),
    graftAll policy (paths.map (n.segment :: ·))
        (before ++ [.mk n.relation n.columns children]) =
      before ++ [.mk n.relation n.columns (graftAll policy paths children)]
  | [], _ => rfl
  | path :: paths, children => by
    rw [List.map_cons, graftAll_cons, graft_segment_append hcolumns hnew,
      graftAll_segment_append hcolumns hnew paths, graftAll_cons]

end LastNode

/-! ### A forest from its leaf paths -/

/-- The paths from the children of a node to the leaves; a leaf has the empty one. -/
def pathsBelow : Forest → List Path
  | [] => [[]]
  | n :: forest => Node.leafPathsOf (n :: forest)

theorem leafPaths_eq : ∀ n : Node, n.leafPaths = (pathsBelow n.children).map (n.segment :: ·)
  | .mk _ _ [] => rfl
  | .mk _ _ (_ :: _) => rfl

section Rebuild
variable (policy : ColumnPolicy)

/-- The paths of a node add it, if those below it give what is below it. -/
theorem graftAll_leafPaths {n : Node} {before : Forest} (hcolumns : n.columns.Nodup)
    (hnew : n.relation ∉ before.map Node.relation)
    (hbelow : graftAll policy (Node.leafPathsOf n.children) [] = n.children) :
    graftAll policy n.leafPaths before = before ++ [n] := by
  have hpaths : graftAll policy (pathsBelow n.children) [] = n.children := by
    cases hchildren : n.children with
    | nil => rfl
    | cons child children =>
      rw [hchildren] at hbelow
      exact hbelow
  rw [leafPaths_eq]
  cases hps : pathsBelow n.children with
  | nil =>
    -- without a path there would be nothing below, and then there is the empty path
    rw [hps] at hpaths
    rw [← show [] = n.children from hpaths] at hps
    cases hps
  | cons path paths =>
    rw [hps, graftAll_cons] at hpaths
    rw [List.map_cons, graftAll_cons, graft_segment hcolumns hnew,
      graftAll_segment_append hcolumns hnew, hpaths]
    cases n
    rfl

theorem graftAll_leafPathsOf : ∀ (forest : Forest) {before : Forest},
    Forest.WellFormed forest → (∀ n ∈ forest, n.relation ∉ before.map Node.relation) →
      graftAll policy (Node.leafPathsOf forest) before = before ++ forest
  | [], before, _, _ => (List.append_nil before).symm
  | .mk relation columns children :: forest, before, h, hnew => by
    obtain ⟨hdistinct, ⟨hnamed, hchildren⟩, hforest⟩ := wellFormed_cons_iff.mp h
    have hbelow : graftAll policy (Node.leafPathsOf children) [] = [] ++ children :=
      graftAll_leafPathsOf children hchildren (by simp)
    have hnode : graftAll policy (Node.mk relation columns children).leafPaths before =
        before ++ [.mk relation columns children] :=
      graftAll_leafPaths policy hnamed.2.1 (hnew _ List.mem_cons_self) hbelow
    rw [Node.leafPathsOf, graftAll_append, hnode, graftAll_leafPathsOf forest hforest,
      List.append_assoc]
    · rfl
    · intro m hm
      rw [List.map_append, List.mem_append, not_or]
      refine ⟨hnew m (List.mem_cons_of_mem _ hm), fun hr => hdistinct ?_⟩
      rw [List.map_singleton, List.mem_singleton] at hr
      exact hr ▸ List.mem_map_of_mem hm

/-- **The leaf paths of a well-formed forest give the forest again.** -/
theorem ofPaths_leafPathsOf {forest : Forest} (h : Forest.WellFormed forest) :
    Forest.ofPaths policy (Node.leafPathsOf forest) = forest :=
  graftAll_leafPathsOf policy forest h (by simp)

end Rebuild

/-! ### The text of paths -/

/-- Texts with a mark and blanks between them stand for the list of what they stand for. -/
theorem separated_intercalate {α : Type} {mark : Char} {gap : List Char} {separator : String}
    {Item : α → List Char → Prop} (text : α → String) (hsep : separator.toList = mark :: gap)
    (hgap : ∀ x cs, Item x cs → Item x (gap ++ cs)) : ∀ {xs : List α}, xs ≠ [] →
      (∀ x ∈ xs, Item x (text x).toList) →
        Separated mark Item xs (separator.intercalate (xs.map text)).toList
  | [], hne, _ => absurd rfl hne
  | [x], _, h => by
    rw [List.map_singleton, String.intercalate_singleton]
    exact .one (h x List.mem_cons_self)
  | x :: y :: xs, _, h => by
    have hrest := separated_intercalate text hsep hgap (List.cons_ne_nil y xs)
      fun z hz => h z (List.mem_cons_of_mem x hz)
    rw [List.map_cons, List.map_cons, String.intercalate_cons_cons, String.toList_append,
      String.toList_append, hsep, List.append_assoc, List.cons_append]
    exact .more (h x List.mem_cons_self) (hrest.prepend hgap)

theorem Segment.text_ne_empty {s : Segment} (h : s.Named) : s.text ≠ "" := by
  intro htext
  have hrelation : s.relation = "" := by
    unfold Segment.text at htext
    split at htext
    · exact htext
    · simp only [String.append_eq_empty_iff] at htext
      exact htext.1.1.1
  exact h.1.1 (by rw [hrelation]; rfl)

theorem segmentText_text {s : Segment} (h : s.Named) : SegmentText s s.text.toList := by
  obtain ⟨relation, columns⟩ := s
  obtain ⟨hrelation, hcolumns⟩ := h
  cases columns with
  | none => exact .bare hrelation.spaced
  | some columns =>
    obtain ⟨hne, hwords⟩ := hcolumns columns rfl
    have hlist : Separated '|' Spaced columns ("|".intercalate (columns.map fun c => c)).toList :=
      separated_intercalate (fun c => c) (show "|".toList = '|' :: [] from rfl) (fun _ _ h => h)
        hne fun c hc => (hwords c hc).spaced
    rw [List.map_id'] at hlist
    have hnil : Blanks [] := by simp [Blanks]
    have htext : (Segment.text ⟨relation, some columns⟩).toList =
        relation.toList ++ '[' :: (("|".intercalate columns).toList ++ ']' :: []) := by
      simp [Segment.text]
    rw [htext]
    exact .bracketed hrelation.spaced hlist hnil

theorem foldl_text : ∀ (path : Path) {before : String}, before ≠ "" →
    path.foldl (fun before s => if before.isEmpty then s.text else before ++ "." ++ s.text) before =
      ".".intercalate (before :: path.map Segment.text)
  | [], _, _ => String.intercalate_singleton.symm
  | s :: path, before, h => by
    have hne : ¬ before.isEmpty = true := by rwa [String.isEmpty_iff]
    have hne' : before ++ "." ++ s.text ≠ "" := by simp [h]
    rw [List.foldl_cons, if_neg hne, foldl_text path hne', List.map_cons,
      String.intercalate_cons_append, String.intercalate_cons_cons]

theorem pathText_text {path : Path} (hne : path ≠ []) (h : ∀ s ∈ path, s.Named) :
    PathText path path.text.toList := by
  obtain ⟨s, path, rfl⟩ := List.exists_cons_of_ne_nil hne
  have htext : Path.text (s :: path) = ".".intercalate ((s :: path).map Segment.text) :=
    foldl_text path (Segment.text_ne_empty (h s List.mem_cons_self))
  rw [htext]
  exact separated_intercalate Segment.text (show ".".toList = '.' :: [] from rfl) (fun _ _ h => h)
    hne fun s' hs' => segmentText_text (h s' hs')

theorem Node.Named.segment {n : Node} (h : n.Named) : n.segment.Named := by
  refine ⟨h.1, fun columns hc => ?_⟩
  rw [columns_segment] at hc
  split at hc
  · cases hc
  · next hne =>
    obtain rfl := Option.mem_some.mp hc
    exact ⟨hne, h.2.2⟩

theorem named_leafPathsOf : ∀ (forest : Forest), Forest.WellFormed forest →
    ∀ path ∈ Node.leafPathsOf forest, path ≠ [] ∧ ∀ s ∈ path, s.Named
  | [], _ => by simp [Node.leafPathsOf]
  | .mk relation columns children :: forest, h => by
    obtain ⟨-, ⟨hnamed, hchildren⟩, hforest⟩ := wellFormed_cons_iff.mp h
    have ih := named_leafPathsOf children hchildren
    intro path hp
    rw [Node.leafPathsOf, leafPaths_eq, List.mem_append, List.mem_map] at hp
    rcases hp with ⟨below, hbelow, rfl⟩ | hp
    · have hsegments : ∀ s ∈ below, s.Named := by
        cases children with
        | nil =>
          rw [List.mem_singleton.mp hbelow]
          simp
        | cons child children => exact (ih below hbelow).2
      exact ⟨List.cons_ne_nil _ _, List.forall_mem_cons.mpr ⟨hnamed.segment, hsegments⟩⟩
    · exact named_leafPathsOf forest hforest path hp

theorem expressionText_render {forest : Forest} (h : Forest.WellFormed forest)
    (hne : forest ≠ []) : ExpressionText (Node.leafPathsOf forest) (render forest).toList := by
  have hpaths : Node.leafPathsOf forest ≠ [] := by
    intro hnil
    have hof := ofPaths_leafPathsOf .union h
    rw [hnil] at hof
    exact hne hof.symm
  have hblank : Blanks [' '] := by simp [Blanks, Text.isBlank]
  refine separated_intercalate Path.text (show ", ".toList = ',' :: [' '] from rfl)
    (fun _ _ hp => hp.blanks_append hblank) hpaths fun path hp => ?_
  obtain ⟨hne, hnamed⟩ := named_leafPathsOf forest h path hp
  exact pathText_text hne hnamed

/-! ### Parsing what was written -/

theorem parse_render {options : Options} {forest : Forest} (h : Forest.WellFormed forest)
    (hdepth : ∀ m, options.maxDepth = some m → ∀ n ∈ forest, n.depth ≤ m) :
    parse options (render forest) = .ok forest := by
  rw [parse_eq_ok_iff]
  by_cases hne : forest = []
  · subst hne
    exact Or.inl ⟨by simp [Blanks, render, Node.leafPathsOf], rfl⟩
  · have hof := ofPaths_leafPathsOf options.columnPolicy h
    refine Or.inr ⟨_, expressionText_render h hne, fun m hm => ?_, hof.symm⟩
    rw [← depthBelow_ofPaths_le_iff, hof, depthBelow_le_iff]
    exact hdepth m hm

theorem wellFormed_of_parse {options : Options} {e : String} {forest : Forest}
    (h : parse options e = .ok forest) :
    Forest.WellFormed forest ∧ ∀ m, options.maxDepth = some m → ∀ n ∈ forest, n.depth ≤ m := by
  rcases parse_eq_ok_iff.mp h with ⟨-, rfl⟩ | ⟨paths, htext, hlength, rfl⟩
  · exact ⟨.nil, fun m _ n hn => nomatch hn⟩
  · refine ⟨htext.wellFormed options.columnPolicy, fun m hm => ?_⟩
    rw [← depthBelow_le_iff, depthBelow_ofPaths_le_iff]
    exact hlength m hm

/-- **What is parsed, and what is read back.** The forests that are parsed are the well-formed ones
whose trees are within the limit, and each of them is what its text is parsed to. -/
theorem parse_forests (options : Options) (forest : Forest) :
    ((∃ e, parse options e = .ok forest) ↔ Forest.WellFormed forest ∧
      ∀ m, options.maxDepth = some m → ∀ n ∈ forest, n.depth ≤ m) ∧
    ((Forest.WellFormed forest ∧ ∀ m, options.maxDepth = some m → ∀ n ∈ forest, n.depth ≤ m) →
      parse options (render forest) = .ok forest) := by
  refine ⟨⟨?_, ?_⟩, ?_⟩
  · rintro ⟨e, he⟩
    exact wellFormed_of_parse he
  · rintro ⟨h, hdepth⟩
    exact ⟨render forest, parse_render h hdepth⟩
  · rintro ⟨h, hdepth⟩
    exact parse_render h hdepth

end Sideload.Include
