import Sideload.CommandLine.Run
import Sideload.Proofs.Dataset.Entries
import Sideload.Proofs.Dataset.Loading
import Sideload.Proofs.Document.Merging
import Sideload.Proofs.Json.RoundTrip

/-! # Documents that are read back

A document puts its values no deeper than a dataset file does: attributes stand below a resource, a
list and the document, as they stand below an entity, a list and the file
(`Dataset.storable_attributes`, `Document.storable_toJson`). Nothing else of a dataset is written but
names, which are texts, in fewer containers than the attributes may take. So a document can be
stored wherever its dataset can (`Dataset.storable_of_resolve`), and whatever can be stored is read
back as it was written (`Json.read_append_of_storable`).

`resolve_readBack` says this of the texts that are printed and written for a document. -/

namespace Sideload

open Resolved

/-! ### What is written -/

theorem Pointer.storable_toJson (p : Pointer) (room : Nat) : p.toJson.Storable (room + 1) := by
  refine .object (by simp [Fields.Distinct, Fields.keys]) ?_
  simp only [List.forall_mem_cons]
  exact ⟨.string _, .string _, List.forall_mem_nil _⟩

theorem Linkage.storable_toJson (l : Linkage) (room : Nat) : l.toJson.Storable (room + 2) := by
  cases l with
  | one target =>
    cases target with
    | none => exact .null
    | some p => exact p.storable_toJson (room + 1)
  | many targets =>
    refine .array fun v hv => ?_
    obtain ⟨p, -, rfl⟩ := List.mem_map.mp hv
    exact p.storable_toJson room

/-- A resource fits where its attributes do, one container deeper, and its linkages do, which stand
in three containers. -/
theorem Resource.storable_toJson {r : Resource} {room : Nat}
    (hattributes : (Json.object r.attributes).Storable (room + 4))
    (hrelationships : Fields.Distinct r.relationships) : r.toJson.Storable (room + 5) := by
  have hlinkages : (Json.object (Fields.mapValues
      (fun linkage => Json.object [("data", linkage.toJson)]) r.relationships)).Storable
      (room + 4) := by
    refine .object ?_ fun member hm => ?_
    · unfold Fields.Distinct
      rwa [Fields.keys_mapValues]
    · obtain ⟨relationship, -, rfl⟩ := List.mem_map.mp hm
      refine .object (by simp [Fields.Distinct, Fields.keys]) ?_
      exact List.forall_mem_singleton.mpr (relationship.2.storable_toJson room)
  refine .object (by simp [Fields.Distinct, Fields.keys]) ?_
  simp only [List.forall_mem_cons]
  exact ⟨.string _, .string _, hattributes, hlinkages, List.forall_mem_nil _⟩

theorem Document.storable_toJson {d : Document} {room : Nat}
    (h : ∀ r ∈ d.resources, r.toJson.Storable room) : d.toJson.Storable (room + 2) := by
  have hpart : ∀ part, (Json.array ((d.part part).map Resource.toJson)).Storable (room + 1) := by
    refine fun part => .array fun v hv => ?_
    obtain ⟨r, hr, rfl⟩ := List.mem_map.mp hv
    exact h r (mem_resources_of_mem_part hr)
  refine .object (by simp [Fields.Distinct, Fields.keys]) ?_
  simp only [List.forall_mem_cons]
  exact ⟨hpart .data, hpart .included, List.forall_mem_nil _⟩

/-! ### What a file holds -/

/-- A field of a record stands one container deeper. -/
theorem Shape.Record.storable_of_get? {r : Record} {v : Json} {room : Nat}
    (hv : v.Storable (room + 1)) {name : String} {u : Json} (h : r.get? v name = some u) :
    u.Storable room := by
  rcases mem_of_get? h with ⟨ms, rfl, hm⟩ | ⟨items, rfl, hu⟩
  · exact hv.of_mem_object hm
  · exact hv.of_mem_array hu

/-- The attributes of an entity stand one container deeper. -/
theorem Shape.storable_attributes_of_entity {v : Json} {room : Nat} (hv : v.Storable (room + 2))
    {e : EntityEntry} (h : entity v = .ok e) :
    (Json.object e.entity.attributes).Storable (room + 1) := by
  rcases attributes_of_entity hv.distinct h with hfound | hnil
  · exact Record.storable_of_get? hv hfound
  · rw [hnil]
    exact .object List.nodup_nil (List.forall_mem_nil _)

namespace Dataset

/-- **The attributes of a dataset** stand in three containers of its file. -/
theorem storable_attributes {v : Json} {room : Nat} (hv : v.Storable (room + 4)) {d : Dataset}
    (hd : ofJson v = .ok d) {p : Pointer} {e : Entity} (he : d.entity? p = some e) :
    (Json.object e.attributes).Storable (room + 1) := by
  obtain ⟨f, hf, hofFile⟩ := ofJson_eq_ok_iff.mp hd
  obtain ⟨r, hr, rfl⟩ := Option.map_eq_some_iff.mp he
  have hmem := List.mem_of_find?_eq_some hr
  rw [(of_ofFile hofFile).2.1] at hmem
  obtain ⟨entry, hentry, rfl⟩ := List.mem_map.mp hmem
  obtain ⟨items, hitems, w, hw, hentity⟩ := DatasetFile.exists_of_mem_entities hv.distinct hf hentry
  have hw' := (Shape.Record.storable_of_get? hv hitems).of_mem_array hw
  exact Shape.storable_attributes_of_entity hw' hentity

end Dataset

theorem Entity.storable_project {e : Entity} {room : Nat}
    (h : (Json.object e.attributes).Storable room) (columns : List String) :
    (Json.object (e.project columns).attributes).Storable room := by
  unfold project
  split
  · exact h
  · exact h.select columns

/-! ### Documents -/

section Merged
variable {empties : EmptyRelations} {roots : List Resolved} {r : Resource}
  (hr : r ∈ (assemble empties roots).resources)
include hr

/-- Merged attributes fit where those of all encounters do. -/
theorem storable_attributes_of_mem_assemble {room : Nat}
    (h : ∀ t ∈ encounters roots, (Json.object t.entity.attributes).Storable room) :
    (Json.object r.attributes).Storable room := by
  obtain ⟨s, rest, hcons, hattributes, -⟩ :=
    Resource.exists_cons_of_mergeAll (mergeAll_of_mem_assemble hr)
  rw [hattributes]
  refine Json.Storable.foldl_union fun ms hms => ?_
  rw [← List.map_cons, ← hcons, List.map_map] at hms
  obtain ⟨t, ht, rfl⟩ := List.mem_map.mp hms
  exact h t (mem_encountersOf.mp ht).1

theorem distinct_relationships_of_mem_assemble (h : ∀ t ∈ encounters roots, t.Distinct) :
    Fields.Distinct r.relationships := by
  obtain ⟨s, rest, hcons, -, hrelationships⟩ :=
    Resource.exists_cons_of_mergeAll (mergeAll_of_mem_assemble hr)
  obtain ⟨t, ts, hts, rfl, -⟩ := List.map_eq_cons_iff.mp hcons
  have ht : t ∈ encountersOf r.pointer roots := hts ▸ List.mem_cons_self
  rw [hrelationships]
  exact ((h t (mem_encountersOf.mp ht).1).relationships empties).foldl_union _

end Merged

namespace Dataset

/-- Whoever is met from entities of a dataset is one of them. -/
theorem entity?_of_met {d : Dataset} {roots : List Entity}
    (hroots : ∀ e ∈ roots, d.entity? e.pointer = some e) {forest : Include.Forest} {e : Entity}
    {columns : List String} {below : Include.Forest}
    (h : Met d.registry d.load roots forest e columns below) : d.entity? e.pointer = some e := by
  cases h with
  | root he => exact hroots e he
  | linked _ _ _ hload hv =>
    exact (visible?_eq_some_iff.mp
      (visible?_of_mem_load hload (Cardinality.mem_of_mem_linked hv)).1).2

/-- **A document can be stored where its dataset can.** -/
theorem storable_of_resolve {v : Json} {room : Nat} (hv : v.Storable (room + 7)) {d : Dataset}
    (hd : ofJson v = .ok d) {roots : List Entity}
    (hroots : ∀ e ∈ roots, d.entity? e.pointer = some e) {expression : String}
    {options : ResolveOptions} {document : Document}
    (h : d.resolve roots expression options = .ok document) :
    document.toJson.Storable (room + 7) := by
  obtain ⟨forest, hforest⟩ := exists_forest_of_resolve h
  obtain ⟨ts, rfl, hts⟩ := exists_of_resolve hforest h
  have hwell := (Include.wellFormed_of_parse hforest).1
  have hmet : ∀ t ∈ encounters ts, (Json.object t.entity.attributes).Storable (room + 4) ∧
      Fields.Distinct t.branches := by
    intro t ht
    obtain ⟨e, columns, below, hmet, hexpand⟩ := (mem_encounters_iff hwell hts).mp ht
    refine ⟨?_, distinct_branches_of_expandForest (hmet.distinct hwell) hexpand⟩
    rw [entity_expandForest hexpand]
    exact Entity.storable_project (storable_attributes hv hd (entity?_of_met hroots hmet)) columns
  refine Document.storable_toJson fun r hr => Resource.storable_toJson ?_ ?_
  · exact storable_attributes_of_mem_assemble hr fun t ht => (hmet t ht).1
  · refine distinct_relationships_of_mem_assemble hr fun t ht => ?_
    obtain ⟨hattributes, hbranches⟩ := hmet t ht
    exact ⟨(Json.storable_object_iff.mp hattributes).1, hbranches⟩

/-! ### Texts -/

/-- **Output is input again.** Take a dataset text without floating-point numbers, and any document
that is resolved from entities of the dataset. Its compact text and its pretty text, as they are
written to a file and as they are printed on a line, are all accepted as JSON, and the value that is
read is the document again, with its keys in order. -/
theorem resolve_readBack {text : String} {v : Json} (hread : Source.parse text = .ok v)
    (hintegral : v.Integral) {d : Dataset} (hd : Source.toDataset v = .ok d) {roots : List Entity}
    (hroots : ∀ e ∈ roots, d.entity? e.pointer = some e) {expression : String}
    {options : ResolveOptions} {document : Document}
    (h : d.resolve roots expression options = .ok document) (isPretty : Bool) :
    Source.parse (CommandLine.jsonText isPretty document.toJson) = .ok document.toJson ∧
      Source.parse (CommandLine.printed (CommandLine.jsonText isPretty document.toJson)).out =
        .ok document.toJson := by
  have hv : v.Storable Json.maxNesting :=
    Json.storable_of_readNested (mapError_eq_ok_iff.mp hread) hintegral
  have hdocument : document.toJson.Storable Json.maxNesting :=
    storable_of_resolve hv (mapError_eq_ok_iff.mp hd) hroots h
  exact ⟨mapError_eq_ok_iff.mpr (Json.read_of_storable hdocument isPretty),
    mapError_eq_ok_iff.mpr
      (Json.read_append_of_storable hdocument isPretty (by simp [Json.isSpace]))⟩

/-- The largest and the smallest integer, a text with all kinds of escapes, and an entity that is
written as an array, with containers inside each other. -/
theorem resolve_readBack_limits :
    let first : Json := .object [("type", .string "a"), ("id", .int 1),
      ("attributes", .object [("max", .int 18446744073709551615),
        ("min", .int (-9223372036854775808)), ("text", .string "\"\\/\t\x01\x7f\u00e9")]),
      ("relations", .object [("r", .array [.int 2, .int 1])])]
    let second : Json := .array [.string "a", .string "2",
      .object [("z", .array [.array [], .object [("", .null)]]), ("y", .bool true)]]
    let v : Json := .object [
      ("types", .object [("a", .object [("relations", .object [("r", .object [
        ("type", .string "a"), ("cardinality", .string "many")])])])]),
      ("entities", .array [first, second])]
    ∃ d document, Source.parse v.compact = .ok v ∧ Source.toDataset v = .ok d ∧
      d.resolve (d.entitiesOf "a") "r" {} = .ok document ∧
      document.data.map Resource.pointer = [⟨"a", "1"⟩, ⟨"a", "2"⟩] ∧
      ∀ isPretty, Source.parse (CommandLine.jsonText isPretty document.toJson) =
        .ok document.toJson := by
  intro first second v
  have hscalar : ∀ room, Json.Storable room .null ∧ (∀ b, Json.Storable room (.bool b)) ∧
      (∀ s, Json.Storable room (.string s)) ∧ Json.Storable room (.int 18446744073709551615) ∧
      Json.Storable room (.int (-9223372036854775808)) ∧ Json.Storable room (.int 1) ∧
      Json.Storable room (.int 2) := fun room =>
    ⟨.null, .bool, .string, .integer (by decide) (by decide), .integer (by decide) (by decide),
      .integer (by decide) (by decide), .integer (by decide) (by decide)⟩
  have hv : v.Storable Json.maxNesting := by
    simp [v, first, second, Json.maxNesting, Fields.Distinct, Fields.keys, hscalar]
  have hread : Source.parse v.compact = .ok v :=
    mapError_eq_ok_iff.mpr (Json.read_of_storable hv false)
  have hpointers : ((Source.toDataset v).toOption.bind fun d =>
      (d.resolve (d.entitiesOf "a") "r" {}).toOption.map fun document =>
        document.data.map Resource.pointer) = some [⟨"a", "1"⟩, ⟨"a", "2"⟩] := by decide +kernel
  cases hd : Source.toDataset v with
  | error e => rw [hd] at hpointers; cases hpointers
  | ok d =>
    rw [hd] at hpointers
    have hpointers : (d.resolve (d.entitiesOf "a") "r" {}).toOption.map (fun document =>
      document.data.map Resource.pointer) = some [⟨"a", "1"⟩, ⟨"a", "2"⟩] := hpointers
    have hroots : ∀ e ∈ d.entitiesOf "a", d.entity? e.pointer = some e := fun e he =>
      (visible?_eq_some_iff.mp (visible?_of_mem_entitiesOf he)).2
    cases h : d.resolve (d.entitiesOf "a") "r" {} with
    | error e => rw [h] at hpointers; cases hpointers
    | ok document =>
      rw [h] at hpointers
      exact ⟨d, document, hread, rfl, h, Option.some.inj hpointers, fun isPretty =>
        (resolve_readBack hread hv.integral hd hroots h isPretty).1⟩

end Dataset

end Sideload
