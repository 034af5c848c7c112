import Sideload.Proofs.Resolution.Agreement
import Sideload.Proofs.Resolved.Outline

/-! # Columns

What is fetched and what is linked does not depend on columns (`resolve_columns_irrelevant`). Two
forests that differ in their columns only are the same without them (`Include.Forest.bare`); then
the runs below the same roots ask the same batches in the same order, and end with the same error or
with trees of the same outlines (`sameBy_resolve`). Columns are used between loading and what is
resolved within, but they keep the identities of what was loaded, and nothing else is looked at.

Two runs are compared through a view of their results (`Run.SameBy`), which passes through every
layer of a resolution. -/

namespace Sideload

/-! ### Forests without columns -/

namespace Include

mutual

/-- A node with all columns, and so below it. -/
def Node.bare : Node → Node
  | .mk relation _ children => .mk relation [] (Forest.bare children)

/-- A forest with all columns everywhere. -/
def Forest.bare : Forest → Forest
  | [] => []
  | n :: forest => Node.bare n :: Forest.bare forest

end

end Include

/-! ### Runs that look the same -/

namespace Run

variable {α β γ δ : Type}

/-- Two runs ask the same batches, and end with the same error or with results that look the
same. -/
def SameBy (view : α → β) (x y : Run α) : Prop :=
  x.batches = y.batches ∧ x.outcome.map view = y.outcome.map view

theorem SameBy.refl (view : α → β) (x : Run α) : x.SameBy view x := ⟨rfl, rfl⟩

theorem SameBy.pure {view : α → β} {a b : α} (h : view a = view b) :
    (Pure.pure a : Run α).SameBy view (Pure.pure b) :=
  ⟨rfl, congrArg Except.ok h⟩

theorem SameBy.cases {view : α → β} {x y : Run α} (h : x.SameBy view y) :
    (∃ e, x.outcome = .error e ∧ y.outcome = .error e) ∨
      ∃ a b, x.outcome = .ok a ∧ y.outcome = .ok b ∧ view a = view b := by
  obtain ⟨-, houtcome⟩ := h
  cases hx : x.outcome with
  | error e =>
    cases hy : y.outcome with
    | error e' =>
      rw [hx, hy] at houtcome
      exact Or.inl ⟨e, rfl, congrArg Except.error (Except.error.inj houtcome).symm⟩
    | ok b =>
      rw [hx, hy] at houtcome
      cases houtcome
  | ok a =>
    cases hy : y.outcome with
    | error e' =>
      rw [hx, hy] at houtcome
      cases houtcome
    | ok b =>
      rw [hx, hy] at houtcome
      exact Or.inr ⟨a, b, rfl, rfl, Except.ok.inj houtcome⟩

/-- Results that look the same have to be gone on with alike. -/
theorem SameBy.bind {view : α → γ} {view' : β → δ} {x y : Run α} {f g : α → Run β}
    (h : x.SameBy view y) (hfg : ∀ a b, view a = view b → (f a).SameBy view' (g b)) :
    (x >>= f).SameBy view' (y >>= g) := by
  show (x.bind f).SameBy view' (y.bind g)
  unfold Run.bind
  rcases h.cases with ⟨e, hx, hy⟩ | ⟨a, b, hx, hy, hview⟩
  · rw [hx, hy]
    exact ⟨h.1, rfl⟩
  · obtain ⟨hbatches, houtcome⟩ := hfg a b hview
    rw [hx, hy]
    dsimp only
    rw [h.1, hbatches]
    exact ⟨rfl, houtcome⟩

end Run

/-! ### The branches of one type -/

theorem Fields.mapValues_insert {α β : Type} (f : α → β) (fs : Fields α) (name : String) (v : α) :
    mapValues f (insert fs name v) = insert (mapValues f fs) name (f v) := by
  induction fs with
  | nil => rfl
  | cons field fs ih =>
    obtain ⟨k, w⟩ := field
    show mapValues f (if k = name then _ else _) = if k = name then _ else _
    split
    · rfl
    · exact congrArg ((k, f w) :: ·) ih

namespace Resolved

theorem outline_withBranch (name : String) (b : Branch Resolved) (r : Resolved) :
    (r.withBranch name b).outline = r.outline.withBranch name (outlineBranch b) := by
  obtain ⟨entity, branches⟩ := r
  rw [withBranch, outline, outline, withBranch, outlineBranches_eq, outlineBranches_eq,
    Fields.mapValues_insert]

theorem map_outline_attach (name type : String) :
    ∀ (parents : List Resolved) (branches : List (Branch Resolved)),
      (attach name type parents branches).map outline =
        attach name type (parents.map outline) (branches.map outlineBranch)
  | [], _ => rfl
  | p :: parents, [] => by
    rw [List.map_cons, List.map_nil, attach, attach, type_outline]
    split <;> exact congrArg (p.outline :: ·) (map_outline_attach name type parents [])
  | p :: parents, b :: branches => by
    rw [List.map_cons, List.map_cons, attach, attach, type_outline]
    split
    · rw [List.map_cons, outline_withBranch, map_outline_attach name type parents branches]
    · exact congrArg (p.outline :: ·) (map_outline_attach name type parents (b :: branches))

theorem map_map_regroup {α β : Type} (f : α → β) : ∀ (lengths : List Nat) (values : List α),
    (regroup lengths values).map (List.map f) = regroup lengths (values.map f)
  | [], _ => rfl
  | n :: lengths, values => by
    rw [regroup, regroup, List.map_cons, map_map_regroup f lengths, List.map_take, List.map_drop]

theorem map_outlineBranch_zipWith (relation target : String) (cardinality : Cardinality)
    (columns : List String) (sources : List Pointer) (lists : List (List Resolved)) :
    (List.zipWith (fun source values => ⟨source, relation, target, cardinality, columns, values⟩)
      sources lists).map outlineBranch =
    List.zipWith (fun source values => ⟨source, relation, target, cardinality, [], values⟩)
      sources (lists.map (List.map outline)) := by
  rw [List.map_zipWith, List.zipWith_map_right]
  simp only [outlineBranch_eq]

theorem map_pointer_filter_type (type : String) {ps qs : List Resolved}
    (h : ps.map outline = qs.map outline) :
    (ps.filter fun p => p.type = type).map pointer =
      (qs.filter fun p => p.type = type).map pointer := by
  have houtline : ∀ ps : List Resolved, (ps.filter fun p => p.type = type).map pointer =
      ((ps.map outline).filter fun p => p.type = type).map pointer := by
    intro ps
    rw [List.filter_map, map_pointer_outline]
    simp only [Function.comp_def, type_outline]
  rw [houtline ps, h, ← houtline]

section Resolution
variable {registry : Registry} {loader : Loader}

/-- **One relation for the parents of one type**: the columns of its values do not show. -/
theorem sameBy_resolveGroup {relation : String} (columns columns' : List String)
    {within within' : List Resolved → Run (List Resolved)}
    (hwithin : ∀ ps qs : List Resolved, ps.map outline = qs.map outline →
      (within ps).SameBy (List.map outline) (within' qs))
    (type : String) {parents parents' : List Resolved}
    (hparents : parents.map outline = parents'.map outline) :
    (resolveGroup registry loader relation columns within type parents).SameBy (List.map outline)
      (resolveGroup registry loader relation columns' within' type parents') := by
  unfold resolveGroup
  cases registry.includable? type relation with
  | none => exact .pure hparents
  | some found =>
    obtain ⟨target, cardinality⟩ := found
    dsimp only
    rw [map_pointer_filter_type type hparents]
    refine (Run.SameBy.refl id _).bind fun lists lists' hlists => ?_
    obtain rfl : lists = lists' := hlists
    have hvalues : ∀ columns, (lists.flatten.map fun e => leaf (e.project columns)).map outline =
        lists.flatten.map fun e => leaf ⟨e.pointer, []⟩ := by
      intro columns
      rw [List.map_map]
      refine List.map_congr_left fun e _ => ?_
      show (mk (e.project columns) []).outline = _
      rw [outline, outlineBranches, Entity.pointer_project]
      rfl
    refine (hwithin _ _ ((hvalues columns).trans (hvalues columns').symm)).bind
      fun values values' hsame => .pure ?_
    rw [map_outline_attach, map_outline_attach, hparents, map_outlineBranch_zipWith,
      map_outlineBranch_zipWith, map_map_regroup, map_map_regroup, hsame]

theorem sameBy_foldlM {group group' : List Resolved → String → Run (List Resolved)}
    (hgroup : ∀ ps qs type, ps.map outline = qs.map outline →
      (group ps type).SameBy (List.map outline) (group' qs type)) :
    ∀ (types : List String) {ps qs : List Resolved}, ps.map outline = qs.map outline →
      (types.foldlM group ps).SameBy (List.map outline) (types.foldlM group' qs)
  | [], _, _, h => .pure h
  | type :: types, ps, qs, h => by
    rw [List.foldlM_cons, List.foldlM_cons]
    exact (hgroup ps qs type h).bind fun _ _ h => sameBy_foldlM hgroup types h

theorem typesOf_eq_of_outline {ps qs : List Resolved} (h : ps.map outline = qs.map outline) :
    typesOf ps = typesOf qs := by
  have htypes : ∀ ps : List Resolved, (ps.map outline).map type = ps.map type := by
    intro ps
    rw [List.map_map]
    exact List.map_congr_left fun p _ => type_outline p
  unfold typesOf
  rw [← htypes ps, h, htypes]

mutual

theorem sameBy_resolveForest : ∀ {forest forest' : Include.Forest}, forest.bare = forest'.bare →
    ∀ {ps qs : List Resolved}, ps.map outline = qs.map outline →
      (resolveForest registry loader forest ps).SameBy (List.map outline)
        (resolveForest registry loader forest' qs)
  | [], [], _, _, _, hps => by
    rw [resolveForest, resolveForest]
    exact .pure hps
  | n :: forest, n' :: forest', h, ps, qs, hps => by
    rw [Include.Forest.bare, Include.Forest.bare, List.cons.injEq] at h
    rw [resolveForest, resolveForest]
    exact (sameBy_resolveNode h.1 hps).bind fun _ _ h' => sameBy_resolveForest h.2 h'
  | [], n' :: forest', h, _, _, _ => by
    rw [Include.Forest.bare, Include.Forest.bare] at h
    cases h
  | n :: forest, [], h, _, _, _ => by
    rw [Include.Forest.bare, Include.Forest.bare] at h
    cases h

theorem sameBy_resolveNode : ∀ {n n' : Include.Node}, n.bare = n'.bare →
    ∀ {ps qs : List Resolved}, ps.map outline = qs.map outline →
      (resolveNode registry loader n ps).SameBy (List.map outline)
        (resolveNode registry loader n' qs)
  | .mk relation columns children, .mk relation' columns' children', h, ps, qs, hps => by
    rw [Include.Node.bare, Include.Node.bare, Include.Node.mk.injEq] at h
    obtain ⟨rfl, -, hchildren⟩ := h
    rw [resolveNode, resolveNode, typesOf_eq_of_outline hps]
    refine sameBy_foldlM (fun _ _ type => ?_) _ hps
    exact sameBy_resolveGroup columns columns' (fun _ _ => sameBy_resolveForest hchildren) type

end

end Resolution

end Resolved

/-! ### Documents -/

open Resolved

/-- **Columns do not show in a run**, apart from what is kept of the values. -/
theorem sameBy_resolve (registry : Registry) (loader : Loader) (roots : List Entity)
    {forest forest' : Include.Forest} (h : forest.bare = forest'.bare) :
    (resolve registry loader roots forest).SameBy (List.map outline)
      (resolve registry loader roots forest') :=
  sameBy_resolveForest h rfl

/-- **Column lists never influence what is fetched or linked.** Two forests that differ in their
columns only ask the same batches in the same order, and fail with the same error, or give documents
that have the same identities in the same order, with the same relationships in the same order. -/
theorem resolve_columns_irrelevant (registry : Registry) (loader : Loader) (roots : List Entity)
    {forest forest' : Include.Forest} (h : forest.bare = forest'.bare) :
    (resolve registry loader roots forest).batches =
        (resolve registry loader roots forest').batches ∧
      ((∃ e, (resolve registry loader roots forest).outcome = .error e ∧
          (resolve registry loader roots forest').outcome = .error e) ∨
        ∃ ts ts', (resolve registry loader roots forest).outcome = .ok ts ∧
          (resolve registry loader roots forest').outcome = .ok ts' ∧ ∀ empties,
            (assemble empties ts).data.map (fun r => (r.pointer, r.relationships)) =
                (assemble empties ts').data.map (fun r => (r.pointer, r.relationships)) ∧
              (assemble empties ts).included.map (fun r => (r.pointer, r.relationships)) =
                (assemble empties ts').included.map fun r => (r.pointer, r.relationships)) := by
  have hsame := sameBy_resolve registry loader roots h
  refine ⟨hsame.1, hsame.cases.imp_right ?_⟩
  rintro ⟨ts, ts', hts, hts', houtline⟩
  exact ⟨ts, ts', hts, hts', fun empties =>
    ⟨map_links_part_eq empties houtline .data, map_links_part_eq empties houtline .included⟩⟩

/-- A column list at the first level against one at the second, with a column that is not there: the
values have other attributes, and the same relationships. -/
theorem resolve_columns_irrelevant_two_levels :
    let load : Pointer → String → Except LoadError (List Entity) := fun p relation =>
      .ok [⟨⟨relation, p.id⟩, [("x", .null), ("y", .null)]⟩]
    let registry : Registry := ⟨fun _ _ => true, fun _ relation => some relation,
      fun _ _ => some .many⟩
    let roots : List Entity := [⟨⟨"a", "1"⟩, []⟩]
    let forest : Include.Forest := [.mk "r" ["y"] [.mk "s" [] []]]
    let forest' : Include.Forest := [.mk "r" [] [.mk "s" ["z", "x"] []]]
    let attributes (ts : List Resolved) : List (List String) :=
      (assemble .keep ts).included.map fun r => Fields.keys r.attributes
    forest.bare = forest'.bare ∧
      ∃ ts ts', (resolve registry (.ofLoad load) roots forest).outcome = .ok ts ∧
        (resolve registry (.ofLoad load) roots forest').outcome = .ok ts' ∧
        attributes ts = [["y"], ["x", "y"]] ∧ attributes ts' = [["x", "y"], ["x"]] ∧
        (assemble .keep ts).included.map (fun r => (r.pointer, r.relationships)) =
          (assemble .keep ts').included.map fun r => (r.pointer, r.relationships) := by
  intro load registry roots forest forest' attributes
  have hbare : forest.bare = forest'.bare := rfl
  have hts : (resolve registry (.ofLoad load) roots forest).outcome.toOption.map attributes =
      some [["y"], ["x", "y"]] := by decide +kernel
  have hts' : (resolve registry (.ofLoad load) roots forest').outcome.toOption.map attributes =
      some [["x", "y"], ["x"]] := by decide +kernel
  obtain ⟨-, ⟨e, he, -⟩ | ⟨ts, ts', hok, hok', hlinks⟩⟩ :=
    resolve_columns_irrelevant registry (.ofLoad load) roots hbare
  · rw [he] at hts
    cases hts
  · rw [hok] at hts
    rw [hok'] at hts'
    exact ⟨hbare, ts, ts', hok, hok', Option.some.inj hts, Option.some.inj hts', (hlinks .keep).2⟩

end Sideload
