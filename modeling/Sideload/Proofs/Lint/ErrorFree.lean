import Sideload.Lint.Report
import Sideload.Proofs.Dataset.Loading
import Sideload.Proofs.Document.Reachability

/-! # Files without errors

A file has no error exactly if it is `Closed` (`errorFree_diagnoseFile_iff`): no identity is
repeated, every link of a declared relation leads to an entity of the file, and a relation to one is
not written as a list. The dataset of such a file is closed as well (`Dataset.Closed`): whatever a
visible entity links can be loaded, and it is visible again (`Dataset.Closed.serves`). So no
resolution with the dataset fails.

`resolve_of_errorFree` says this of whatever stands at a path: if its report has no error, then it
is a dataset, all its documents can be made, and they show all that was loaded. -/

namespace Sideload

/-! ### Files -/

/-- What the links of a relation need, if it is declared: they lead to entities of the file, and are
not written as a list for a relation to one. -/
def DatasetFile.Backs (f : DatasetFile) (type relation : String) (links : Links) : Prop :=
  ∀ d, f.types.relation? type relation = some d →
    (d.cardinality = .one → links.isList = false) ∧ ∀ id ∈ links.ids, ⟨d.target, id⟩ ∈ f.pointers

/-- No identity is repeated, and all links have what they need. -/
structure DatasetFile.Closed (f : DatasetFile) : Prop where
  nodup : f.pointers.Nodup
  backs : ∀ e ∈ f.entities, ∀ link ∈ e.links, f.Backs e.entity.type link.1 link.2

theorem firstRepeated?_eq_none_iff {seen ps : List Pointer} :
    firstRepeated? seen ps = none ↔ ps.Nodup ∧ ∀ p ∈ ps, p ∉ seen := by
  refine ⟨nodup_of_firstRepeated?, ?_⟩
  rintro ⟨hnodup, hnew⟩
  induction ps generalizing seen with
  | nil => rfl
  | cons p ps ih =>
    obtain ⟨hp, hnodup⟩ := List.nodup_cons.mp hnodup
    obtain ⟨hseen, hnew⟩ := List.forall_mem_cons.mp hnew
    rw [firstRepeated?, if_neg hseen]
    refine ih hnodup fun q hq hmem => ?_
    rcases List.mem_cons.mp hmem with rfl | hmem
    · exact hp hq
    · exact hnew q hq hmem

namespace Lint

/-- No diagnostic is an error. -/
def ErrorFree (ds : List Diagnostic) : Prop := ∀ d ∈ ds, d.severity ≠ .error

/-! ### Lists of diagnostics -/

theorem errorFree_append_iff {ds es : List Diagnostic} :
    ErrorFree (ds ++ es) ↔ ErrorFree ds ∧ ErrorFree es :=
  List.forall_mem_append

theorem errorFree_flatMap_iff {α : Type} {f : α → List Diagnostic} {xs : List α} :
    ErrorFree (xs.flatMap f) ↔ ∀ x ∈ xs, ErrorFree (f x) := by
  unfold ErrorFree
  simp only [List.mem_flatMap]
  exact ⟨fun h x hx d hd => h d ⟨x, hx, hd⟩, fun h d ⟨x, hx, hd⟩ => h x hx d hd⟩

theorem errorFree_iff_status {r : FileReport} : ErrorFree r.diagnostics ↔ r.status ≠ .error := by
  unfold ErrorFree FileReport.status
  by_cases herror : r.diagnostics.any fun d => d.severity = .error
  · rw [if_pos herror]
    obtain ⟨d, hd, hseverity⟩ := List.any_eq_true.mp herror
    exact iff_of_false (fun h => h d hd (of_decide_eq_true hseverity)) fun h => h rfl
  · rw [if_neg herror]
    refine iff_of_true (fun d hd hseverity => herror ?_) ?_
    · exact List.any_eq_true.mpr ⟨d, hd, decide_eq_true hseverity⟩
    · split <;> exact nofun

/-- Where every diagnostic is an error, there has to be none. -/
theorem errorFree_iff_eq_nil {ds : List Diagnostic} (h : ∀ d ∈ ds, d.severity = .error) :
    ErrorFree ds ↔ ds = [] :=
  ⟨fun hfree => List.eq_nil_iff_forall_not_mem.mpr fun d hd => hfree d hd (h d hd),
    fun hnil => hnil ▸ fun _ hd => nomatch hd⟩

/-! ### Checks -/

theorem errorFree_duplicates_iff {seen : List Pointer} {i : Nat} {ps : List Pointer} :
    ErrorFree (duplicates seen i ps) ↔ firstRepeated? seen ps = none := by
  induction ps generalizing seen i with
  | nil => exact ⟨fun _ => rfl, fun _ _ hd => nomatch hd⟩
  | cons p ps ih =>
    rw [duplicates, firstRepeated?]
    split
    · exact ⟨fun h => absurd rfl (h _ List.mem_cons_self), nofun⟩
    · exact ih

theorem errorFree_unknownTargets (f : DatasetFile) : ErrorFree (unknownTargets f) := by
  refine errorFree_flatMap_iff.mpr fun type _ d hd => ?_
  obtain ⟨relation, -, rfl⟩ := List.mem_map.mp hd
  exact nofun

theorem errorFree_missingHidden (f : DatasetFile) : ErrorFree (missingHidden f) := by
  intro d hd
  obtain ⟨p, -, rfl⟩ := List.mem_map.mp hd
  exact nofun

theorem errorFree_missingTargets_iff {known : List Pointer} {path target : String}
    {ids : List String} :
    ErrorFree (missingTargets known path target ids) ↔ ∀ id ∈ ids, ⟨target, id⟩ ∈ known := by
  have herror : ∀ d ∈ missingTargets known path target ids, d.severity = .error := by
    intro d hd
    obtain ⟨id, -, rfl⟩ := List.mem_map.mp hd
    rfl
  rw [errorFree_iff_eq_nil herror, missingTargets, List.map_eq_nil_iff, List.filter_eq_nil_iff,
    ← forall_mem_zipIdx_iff fun id => ⟨target, id⟩ ∈ known]
  simp only [Bool.not_eq_true', Bool.not_eq_false, List.contains_iff_mem]

theorem errorFree_relationProblems_iff {f : DatasetFile} {type path relation : String}
    {links : Links} : ErrorFree (relationProblems f type path relation links) ↔
      f.Backs type relation links := by
  unfold relationProblems DatasetFile.Backs
  cases f.types.relation? type relation with
  | none =>
    refine ⟨fun _ _ h => (nomatch h), fun _ d hd => ?_⟩
    rw [List.mem_singleton.mp hd]
    exact nofun
  | some d =>
    rw [errorFree_append_iff, errorFree_missingTargets_iff]
    simp only [Option.some.injEq, forall_eq']
    refine and_congr_left fun _ => ?_
    split
    · next hone =>
      rw [Bool.and_eq_true, decide_eq_true_iff] at hone
      refine ⟨fun h => absurd rfl (h _ List.mem_cons_self), fun h => ?_⟩
      rw [h hone.1] at hone
      exact nomatch hone.2
    · next hone =>
      refine ⟨fun _ h => ?_, fun _ _ h => nomatch h⟩
      rwa [h, decide_eq_true rfl, Bool.true_and, Bool.not_eq_true] at hone

/-- **A file without errors is closed**, and a closed file has none. -/
theorem errorFree_diagnoseFile_iff {f : DatasetFile} : ErrorFree (diagnoseFile f) ↔ f.Closed := by
  have hduplicates : ErrorFree (duplicates [] 0 f.pointers) ↔ f.pointers.Nodup := by
    rw [errorFree_duplicates_iff, firstRepeated?_eq_none_iff]
    exact and_iff_left fun _ _ => List.not_mem_nil
  have hentities : ErrorFree (f.entities.zipIdx.flatMap fun e => entityProblems f e.2 e.1) ↔
      ∀ e ∈ f.entities, ∀ link ∈ e.links, f.Backs e.entity.type link.1 link.2 := by
    unfold entityProblems
    simp only [errorFree_flatMap_iff, errorFree_relationProblems_iff]
    exact forall_mem_zipIdx_iff fun e : EntityEntry =>
      ∀ link ∈ e.links, f.Backs e.entity.type link.1 link.2
  unfold diagnoseFile
  rw [errorFree_append_iff, errorFree_append_iff, errorFree_append_iff, hduplicates, hentities]
  constructor
  · rintro ⟨⟨⟨hnodup, -⟩, hbacks⟩, -⟩
    exact ⟨hnodup, hbacks⟩
  · rintro ⟨hnodup, hbacks⟩
    exact ⟨⟨⟨hnodup, errorFree_unknownTargets f⟩, hbacks⟩, errorFree_missingHidden f⟩

end Lint

/-! ### Datasets -/

theorem Links.length_ids_le_one {links : Links} (h : links.isList = false) :
    links.ids.length ≤ 1 := by
  cases links with
  | one id => exact Option.length_toList_le
  | many ids => cases h

namespace Dataset

/-- What an entity links by a declared relation is there, and at most one for a relation to one. -/
def Closed (d : Dataset) : Prop :=
  ∀ {p : Pointer} {r : Record} {relation target : String} {ids : List String},
    d.record? p = some r → d.registry.targetType? p.type relation = some target →
    Fields.get? r.links relation = some ids →
      (d.registry.cardinality? p.type relation = some .one → ids.length ≤ 1) ∧
      ∀ id ∈ ids, (d.entity? ⟨target, id⟩).isSome = true

theorem isSome_entity?_iff {d : Dataset} {p : Pointer} :
    (d.entity? p).isSome = true ↔ p ∈ d.records.map Record.pointer := by
  unfold entity? record?
  rw [Option.isSome_map, List.find?_isSome, List.mem_map]
  simp only [decide_eq_true_iff]

/-- A closed file makes a closed dataset. -/
theorem exists_closed_ofFile {f : DatasetFile} (h : f.Closed) :
    ∃ d, ofFile f = .ok d ∧ d.Closed := by
  have hpointers : (f.entities.map recordOf).map Record.pointer = f.pointers := by
    rw [List.map_map]
    rfl
  unfold ofFile
  split
  · next p hp =>
    rw [hpointers, firstRepeated?_eq_none_iff.mpr ⟨h.nodup, fun _ _ => List.not_mem_nil⟩] at hp
    cases hp
  · refine ⟨_, rfl, ?_⟩
    intro p r relation target ids hrecord htarget hids
    obtain rfl := pointer_of_record? hrecord
    obtain ⟨e, he, rfl⟩ := List.mem_map.mp (List.mem_of_find?_eq_some hrecord)
    obtain ⟨d, hd, rfl⟩ := Option.map_eq_some_iff.mp htarget
    obtain ⟨links, hlinks, rfl⟩ : ∃ links, Fields.get? e.links relation = some links ∧
        links.ids = ids := by
      rw [← Option.map_eq_some_iff, ← Fields.get?_mapValues]
      exact hids
    obtain ⟨hone, htargets⟩ := h.backs e he _ (Fields.mem_of_get? hlinks) d hd
    constructor
    · intro hcardinality
      obtain ⟨d', hd', hone'⟩ := Option.map_eq_some_iff.mp hcardinality
      obtain rfl := Option.some.inj (hd.symm.trans hd')
      exact Links.length_ids_le_one (hone hone')
    · intro id hid
      rw [isSome_entity?_iff]
      exact hpointers ▸ htargets id hid

namespace Closed

variable {d : Dataset} (h : d.Closed)
include h

/-- **Whatever is visible can be loaded from**, and what is loaded is visible. -/
theorem serves : Serves (fun p => (d.visible? p).isSome = true) d.load := by
  intro p hp relation
  obtain ⟨e, he⟩ := Option.isSome_iff_exists.mp hp
  obtain ⟨r, hr, -⟩ := Option.map_eq_some_iff.mp (visible?_eq_some_iff.mp he).2
  have htargets : ∀ q ∈ d.targets p relation, ∃ v, d.visible? q = some v := by
    intro q hq
    obtain ⟨r, ids, hr, hids, hid, htarget, hshown⟩ := exists_of_mem_targets hq
    obtain ⟨v, hv⟩ := Option.isSome_iff_exists.mp ((h hr htarget hids).2 q.id hid)
    exact ⟨v, visible?_eq_some_iff.mpr ⟨hshown, hv⟩⟩
  obtain ⟨values, hvalues⟩ := exists_forall₂ htargets
  have hload : d.load p relation = .ok values :=
    load_eq_ok_iff.mpr ⟨Option.isSome_of_eq_some hr, hvalues⟩
  exact ⟨values, hload, fun v hv => Option.isSome_of_eq_some (visible?_of_mem_load hload hv).1⟩

/-- A relation to one leads to at most one entity. -/
theorem length_load_le_one {p : Pointer} {relation : String} {values : List Entity}
    (hload : d.load p relation = .ok values)
    (hone : d.registry.cardinality? p.type relation = some .one) : values.length ≤ 1 := by
  rw [← (load_eq_ok_iff.mp hload).2.length_eq]
  unfold targets
  split
  · next r target hr htarget =>
    refine (List.length_filter_le _ _).trans ?_
    rw [List.length_map]
    cases hids : Fields.get? r.links relation with
    | none => exact Nat.zero_le 1
    | some ids => exact (h hr htarget hids).1 hone
  · exact Nat.zero_le 1

/-- A branch of the dataset links all its values. -/
theorem linked_eq_values {p : Pointer} {relation : String} {b : Branch Resolved}
    (hb : IsLoaded d.registry d.load p relation b) :
    (b.cardinality = .one → b.values.length ≤ 1) ∧ b.linked = b.values := by
  obtain ⟨values, hload, hvalues⟩ := hb.loaded
  have hone : b.cardinality = .one → b.values.length ≤ 1 := by
    intro hone
    have hcardinality := (Registry.of_includable? hb.includable).2.2
    rw [← List.length_map (f := Resolved.pointer), hvalues, List.length_map]
    exact h.length_load_le_one hload (hone ▸ hcardinality)
  refine ⟨hone, ?_⟩
  rw [Branch.linked_eq]
  cases hc : b.cardinality with
  | one => exact List.take_of_length_le (hone hc)
  | many => rfl

end Closed

end Dataset

/-! ### Documents -/

/-- A document leaves out nothing that a branch holds: a relation to one holds one value at most,
and all values are linked from the identity above them and have resources. -/
structure Document.Shows (document : Document) (p : Pointer) (b : Branch Resolved) : Prop where
  atMostOne : b.cardinality = .one → b.values.length ≤ 1
  linked : ∀ v ∈ b.values, document.Links p v.pointer
  resource : ∀ v ∈ b.values, ∃ r ∈ document.resources, r.pointer = v.pointer

namespace Resolved

/-- Where all values are linked, whatever is below an encounter is encountered. -/
theorem Everywhere.of_encounters {P Q : Pointer → String → Branch Resolved → Prop}
    {ts : List Resolved} (hlinked : ∀ {p name b}, P p name b → b.linked = b.values)
    (hQ : ∀ t ∈ encounters ts, ∀ branch ∈ t.branches, P t.pointer branch.1 branch.2 →
      Q t.pointer branch.1 branch.2) {t : Resolved} (h : t.Everywhere P)
    (ht : t ∈ encounters ts) : t.Everywhere Q := by
  induction h with
  | @intro t here deeper ih =>
    refine .intro (fun branch hb => hQ t ht branch hb (here branch hb)) fun branch hb v hv => ?_
    rw [← hlinked (here branch hb)] at hv
    exact ih branch hb v (Branch.mem_of_mem_linked hv) (mem_encounters_of_mem_linked ht hb hv)

end Resolved

open Resolved

/-- **No resolution with a closed dataset fails**, and the document shows all that was loaded. -/
theorem exists_resolve_of_closed {d : Dataset} (h : d.Closed) {roots : List Entity}
    (hroots : d.Offers roots) (forest : Include.Forest) (empties : EmptyRelations) :
    ∃ ts, (resolve d.registry d.loader roots forest).outcome = .ok ts ∧
      ∀ t ∈ ts, t.Everywhere fun p _ b => (assemble empties ts).Shows p b := by
  have hvisible : ∀ e ∈ roots, (d.visible? e.pointer).isSome = true :=
    fun e he => Option.isSome_of_eq_some (hroots.visible?_of_mem he)
  obtain ⟨ts, hts, hloaded⟩ := h.serves.exists_resolve d.registry
    (Loader.entitywise_ofLoad d.load) hvisible forest
  refine ⟨ts, hts, fun t ht => ?_⟩
  refine (hloaded t ht).of_encounters (fun hb => (h.linked_eq_values hb).2) ?_
    (List.mem_append_left _ ht)
  intro s hs branch hb hbranch
  obtain ⟨hone, hlinked⟩ := h.linked_eq_values hbranch
  refine ⟨hone, fun v hv => ?_, fun v hv => ?_⟩
  · rw [← hlinked] at hv
    exact links_of_mem_linked empties hloaded hs hb hv
  · rw [← hlinked] at hv
    exact exists_resource_of_mem_encounters empties (mem_encounters_of_mem_linked hs hb hv)

namespace Lint

theorem exists_closed_of_errorFree {v : Json} (h : ErrorFree (diagnose v)) :
    ∃ d, Dataset.ofJson v = .ok d ∧ d.Closed := by
  unfold diagnose at h
  unfold Dataset.ofJson
  cases hf : DatasetFile.ofJson v with
  | error e =>
    rw [hf] at h
    exact absurd rfl (h _ List.mem_cons_self)
  | ok f =>
    rw [hf] at h
    exact Dataset.exists_closed_ofFile (errorFree_diagnoseFile_iff.mp h)

/-- **A file without errors is a dataset with which no resolution fails.** Whatever roots are taken
from it, and whatever expression can be read, there is a document; and it shows all that was loaded,
since a relation to one leads to one entity at most. -/
theorem resolve_of_errorFree {base path : FileTree.Path} {found : Option FileTree}
    (h : ErrorFree (FileReport.of base path found).diagnostics) :
    ∃ v d, Source.value path found = .ok v ∧ Dataset.ofJson v = .ok d ∧
      ∀ roots, d.Offers roots → ∀ options expression forest,
        Include.parse options.expression expression = .ok forest →
        ∃ ts, (resolve d.registry d.loader roots forest).outcome = .ok ts ∧
          d.resolve roots expression options = .ok (assemble options.empties ts) ∧
          ∀ t ∈ ts, t.Everywhere fun p _ b => (assemble options.empties ts).Shows p b := by
  unfold FileReport.of at h
  cases hv : Source.value path found with
  | error e =>
    rw [hv] at h
    exact absurd rfl (h _ List.mem_cons_self)
  | ok v =>
    rw [hv] at h
    obtain ⟨d, hd, hclosed⟩ := exists_closed_of_errorFree h
    refine ⟨v, d, rfl, hd, fun roots hroots options expression forest hforest => ?_⟩
    obtain ⟨ts, hts, hshown⟩ :=
      exists_resolve_of_closed hclosed hroots forest options.empties
    refine ⟨ts, hts, ?_, hshown⟩
    unfold Dataset.resolve resolveDocument
    rw [hforest]
    dsimp only
    rw [hts]

/-- A file whose records are arrays, with a relation to one and a warning: what it hides is not
there. -/
theorem resolve_of_errorFree_warning :
    let text := "[\x7b\"a\":[\x7b\"up\":[\"u\",\"one\"]\x7d]\x7d," ++
      "[[\"a\",1,\x7b\x7d,\x7b\"up\":2\x7d],[\"u\",\"2\"]],[[\"u\",9]]]"
    let path := FileTree.Path.ofText "d.json"
    let found : Option FileTree := some (.file text.toUTF8)
    ErrorFree (FileReport.of [] path found).diagnostics ∧
      (FileReport.of [] path found).status = .warning ∧
      ∃ v d, Source.value path found = .ok v ∧ Dataset.ofJson v = .ok d ∧
        (d.entitiesOf "a").map Entity.pointer = [⟨"a", "1"⟩] ∧
        ∃ ts, d.resolve (d.entitiesOf "a") "up" {} = .ok (assemble .keep ts) ∧
          ∀ t ∈ ts, t.Everywhere fun p _ b => (assemble .keep ts).Shows p b := by
  intro text path found
  have hstatus : (FileReport.of [] path found).status = .warning := by decide +kernel
  have hfree : ErrorFree (FileReport.of [] path found).diagnostics := by
    rw [errorFree_iff_status, hstatus]
    exact nofun
  have hroots : ((Source.value path found).toOption.bind fun v =>
      (Dataset.ofJson v).toOption.map fun d => (d.entitiesOf "a").map Entity.pointer) =
      some [⟨"a", "1"⟩] := by decide +kernel
  have hforest : Include.parse {} "up" = .ok [.mk "up" [] []] := by decide +kernel
  obtain ⟨v, d, hv, hd, hresolve⟩ := resolve_of_errorFree hfree
  obtain ⟨ts, -, hdocument, hshown⟩ := hresolve _ (.all "a") {} "up" _ hforest
  rw [hv] at hroots
  have hroots : (Dataset.ofJson v).toOption.map (fun d => (d.entitiesOf "a").map Entity.pointer) =
      some [⟨"a", "1"⟩] := hroots
  rw [hd] at hroots
  exact ⟨hfree, hstatus, v, d, hv, hd, Option.some.inj hroots, ts, hdocument, hshown⟩

end Lint

end Sideload
