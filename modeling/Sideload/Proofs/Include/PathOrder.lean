import Mathlib.Data.List.Perm.Basic
import Sideload.Proofs.Include.PrefixTree

/-! # The order of paths

The paths of an expression stand between its commas (`expressionText_iff_splitOn`), since no path
has a comma in itself. So an expression with the same pieces in another order says the same paths in
another order (`parsePaths_perm`).

In which order paths are merged makes no difference to where there are nodes, and if column lists
are joined, none to which columns a node has (`alike_ofPaths`). Forests that are alike in this
(`Forest.Alike`) have nodes for the same relations, and below these they are alike again
(`Forest.Alike.exists_of_mem`). -/

namespace Sideload.Include

/-! ### Paths between commas -/

/-- Items with a mark between two of them are the pieces between the marks, one for each item. -/
theorem separated_iff_intercalate {α : Type} {mark : Char} {Item : α → List Char → Prop} :
    ∀ {xs : List α} {cs : List Char}, Separated mark Item xs cs ↔
      ∃ pieces, pieces ≠ [] ∧ List.Forall₂ Item xs pieces ∧ cs = [mark].intercalate pieces := by
  intro xs cs
  constructor
  · intro h
    induction h with
    | @one x cs h => exact ⟨[cs], List.cons_ne_nil _ _, .cons h .nil, by simp⟩
    | @more x xs cs ds h _ ih =>
      obtain ⟨pieces, hne, hall, rfl⟩ := ih
      obtain ⟨piece, pieces, rfl⟩ := List.exists_cons_of_ne_nil hne
      exact ⟨cs :: piece :: pieces, List.cons_ne_nil _ _, .cons h hall, by simp⟩
  · rintro ⟨pieces, hne, hall, rfl⟩
    induction hall with
    | nil => exact absurd rfl hne
    | @cons x piece xs pieces h hall ih =>
      cases hall with
      | nil => simpa using Separated.one h
      | cons h' hall =>
        have hrest := Separated.more h (ih (List.cons_ne_nil _ _))
        simpa using hrest

/-- **The paths of an expression** stand between its commas, in order. -/
theorem expressionText_iff_splitOn {paths : List Path} {cs : List Char} :
    ExpressionText paths cs ↔ List.Forall₂ PathText paths (cs.splitOn ',') := by
  unfold ExpressionText
  rw [separated_iff_intercalate]
  constructor
  · rintro ⟨pieces, hne, hall, rfl⟩
    have hcomma : ∀ piece ∈ pieces, ',' ∉ piece := by
      intro piece hpiece
      clear hne
      induction hall with
      | nil => cases hpiece
      | cons h _ ih =>
        rcases List.mem_cons.mp hpiece with rfl | hpiece
        · exact h.comma_not_mem
        · exact ih hpiece
    rwa [List.splitOn_intercalate ',' hcomma hne]
  · intro hall
    exact ⟨_, List.splitOn_ne_nil ',' cs, hall, (List.intercalate_splitOn ',').symm⟩

/-- **Pieces in another order** say the same paths in another order. -/
theorem parsePaths_perm {limit : Option Nat} {e e' : String} {paths : List Path}
    (h : parsePaths limit e = .ok paths)
    (hperm : (e.toList.splitOn ',').Perm (e'.toList.splitOn ',')) :
    ∃ paths', parsePaths limit e' = .ok paths' ∧ paths.Perm paths' := by
  rcases parsePaths_eq_ok_iff.mp h with ⟨hblanks, rfl⟩ | ⟨htext, hlimit⟩
  · -- a blank text is the only piece, so there is no other order
    have hsingle : e.toList.splitOn ',' = [e.toList] :=
      splitOn_of_not_mem (hblanks.not_mem ⟨by decide, by decide⟩)
    rw [hsingle, List.singleton_perm] at hperm
    have hsame : e'.toList = e.toList := by
      have hjoin : [','].intercalate (e'.toList.splitOn ',') = e'.toList :=
        List.intercalate_splitOn ','
      rw [← hjoin, ← hperm]
      simp
    refine ⟨[], ?_, .refl _⟩
    rw [parsePaths_eq_ok_iff, hsame]
    exact Or.inl ⟨hblanks, rfl⟩
  · rw [expressionText_iff_splitOn] at htext
    obtain ⟨paths', htext', hpaths⟩ := List.perm_comp_forall₂ hperm.symm htext.flip
    refine ⟨paths', parsePaths_eq_ok_iff.mpr (Or.inr ⟨?_, fun m hm path hpath => ?_⟩), hpaths.symm⟩
    · exact expressionText_iff_splitOn.mpr htext'.flip
    · exact hlimit m hm path (hpaths.mem_iff.mp hpath)

/-! ### Forests that are alike -/

theorem not_at_nil {forest : Forest} {n : Node} : ¬ At forest [] n := fun h => nomatch h

/-- Where relations differ, what stands below a relation is what stands below its node. -/
theorem at_cons_iff_of_mem (hdistinct : (forest.map Node.relation).Nodup) {n m : Node}
    (hn : n ∈ forest) {r : String} {q : List String} :
    At forest (n.relation :: r :: q) m ↔ At n.children (r :: q) m := by
  rw [at_cons_iff]
  constructor
  · rintro ⟨n', hn', hrelation, ⟨hnil, -⟩ | h⟩
    · cases hnil
    · rwa [← List.inj_on_of_nodup_map hdistinct hn' hn hrelation]
  · intro h
    exact ⟨n, hn, rfl, Or.inr h⟩

/-- There are nodes at the same relation paths, and they have the same columns. -/
structure Forest.Alike (forest forest' : Forest) : Prop where
  at_iff : ∀ q, (∃ n, At forest q n) ↔ ∃ n, At forest' q n
  columns_iff : ∀ {q : List String} {n n' : Node}, At forest q n → At forest' q n' →
    ∀ c, c ∈ n.columns ↔ c ∈ n'.columns

/-- **The order of paths makes no difference** to the nodes of their forest, nor to the columns if
column lists are joined. -/
theorem alike_ofPaths {paths paths' : List Path} (h : paths.Perm paths') :
    (Forest.ofPaths .union paths).Alike (Forest.ofPaths .union paths') where
  at_iff q := by simp only [exists_at_ofPaths_iff, h.mem_iff]
  columns_iff {q n n'} hn hn' c := by
    have hlists := (h.filterMap fun path =>
      if q <+: path.relations then path[q.length - 1]? else none).filterMap Segment.columns
    have hmem : ∀ {m : Node} {ps : List Path}, At (Forest.ofPaths .union ps) q m →
        (c ∈ m.columns ↔ ∃ columns ∈ (occurrences q ps).filterMap Segment.columns,
          c ∈ columns) := by
      intro m ps hm
      rw [hm.eq_of_ofPaths.1, ColumnPolicy.combine, List.mem_eraseDups, List.mem_flatten]
    rw [hmem hn, hmem hn']
    exact exists_congr fun columns => and_congr_left' hlists.mem_iff

namespace Forest.Alike

variable {forest forest' : Forest}

theorem symm (h : forest.Alike forest') : forest'.Alike forest where
  at_iff q := (h.at_iff q).symm
  columns_iff hn hn' c := (h.columns_iff hn' hn c).symm

theorem exists_relation_iff (h : forest.Alike forest') (name : String) :
    (∃ n ∈ forest, n.relation = name) ↔ ∃ n ∈ forest', n.relation = name := by
  have hat : ∀ forest : Forest, (∃ n, At forest [name] n) ↔ ∃ n ∈ forest, n.relation = name := by
    intro forest
    simp only [at_cons_iff, not_at_nil, or_false, true_and]
    exact ⟨fun ⟨_, n, hn, hname, _⟩ => ⟨n, hn, hname⟩, fun ⟨n, hn, hname⟩ => ⟨n, n, hn, hname, rfl⟩⟩
  rw [← hat, ← hat]
  exact h.at_iff [name]

/-- **Alike from the top down**: a node has one for its relation in the other forest, with the same
columns, and below both the forests are alike. -/
theorem exists_of_mem (h : forest.Alike forest') (hdistinct : (forest.map Node.relation).Nodup)
    (hdistinct' : (forest'.map Node.relation).Nodup) {n : Node} (hn : n ∈ forest) :
    ∃ n' ∈ forest', n'.relation = n.relation ∧ (∀ c, c ∈ n.columns ↔ c ∈ n'.columns) ∧
      n.children.Alike n'.children := by
  obtain ⟨n', hat⟩ := (h.at_iff [n.relation]).mp ⟨n, .here hn⟩
  obtain ⟨m, hm, hrelation, ⟨-, rfl⟩ | hnil⟩ := at_cons_iff.mp hat
  · refine ⟨n', hm, hrelation, h.columns_iff (.here hn) hat, ⟨fun q => ?_, fun {q} => ?_⟩⟩
    · cases q with
      | nil => simp only [not_at_nil, exists_false]
      | cons r q =>
        have hiff := h.at_iff (n.relation :: r :: q)
        simp only [at_cons_iff_of_mem hdistinct hn] at hiff
        rw [hiff, ← hrelation]
        simp only [at_cons_iff_of_mem hdistinct' hm]
    · intro k k' hk hk'
      have hk' := At.deeper hm hk'
      rw [hrelation] at hk'
      exact h.columns_iff (.deeper hn hk) hk'
  · cases hnil

end Forest.Alike

/-- An expression with the same pieces in another order is accepted as well, and if column lists are
joined, the two forests are alike. -/
theorem parse_perm {options : Options} (hpolicy : options.columnPolicy = .union) {e e' : String}
    {forest : Forest} (h : parse options e = .ok forest)
    (hperm : (e.toList.splitOn ',').Perm (e'.toList.splitOn ',')) :
    ∃ forest', parse options e' = .ok forest' ∧ forest.Alike forest' := by
  unfold parse at h ⊢
  rw [hpolicy] at h ⊢
  cases hpaths : parsePaths options.maxDepth e with
  | error m => rw [hpaths] at h; cases h
  | ok paths =>
    rw [hpaths] at h
    obtain rfl := Except.ok.inj h
    obtain ⟨paths', hpaths', hsame⟩ := parsePaths_perm hpaths hperm
    rw [hpaths']
    exact ⟨_, rfl, alike_ofPaths hsame⟩

end Sideload.Include
