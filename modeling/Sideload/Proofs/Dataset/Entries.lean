import Sideload.Dataset.Basic
import Sideload.Proofs.Dataset.Shape

/-! # The entities of a file

Each entity of a dataset file is an item of the array that the file has of entities
(`DatasetFile.exists_of_mem_entities`). Its attributes are the members of an object of that item, or
there are none (`Shape.attributes_of_entity`), and it names no relation twice
(`Shape.distinct_links_of_entity`). A dataset keeps the entities of its file in their order
(`Dataset.of_ofFile`). -/

namespace Sideload

namespace Shape

/-- Whatever has members has the names of an object. -/
theorem distinct_of_map {α : Type} {item : Json → Except ShapeError α} {v : Json}
    (hv : v.Distinct) {fs : Fields α} (h : map item v = .ok fs) : Fields.Distinct fs := by
  cases v with
  | object ms =>
    have hkeys : Fields.keys ms = Fields.keys fs := by
      have hall := map_object_eq_ok_iff.mp h
      clear h hv
      unfold Fields.keys
      induction hall with
      | nil => rfl
      | cons hfield _ ih => rw [List.map_cons, List.map_cons, hfield.1, ih]
    have hnames := hv.names_object
    unfold Fields.Distinct at hnames ⊢
    rwa [← hkeys]
  | _ => cases h

section Entity
variable {v : Json} (hv : v.Distinct) {e : EntityEntry} (h : entity v = .ok e)
include hv h

theorem distinct_links_of_entity : Fields.Distinct e.links := by
  obtain ⟨-, -, -, -, hlinks⟩ := (entity_eq_ok_iff hv).mp h
  have hempty : (Json.object []).Distinct := .object List.nodup_nil (List.forall_mem_nil _)
  exact distinct_of_map (Record.distinct_getD entityRecord hv "relations" hempty) hlinks

theorem attributes_of_entity :
    entityRecord.get? v "attributes" = some (.object e.entity.attributes) ∨
      e.entity.attributes = [] := by
  obtain ⟨-, -, -, hattributes, -⟩ := (entity_eq_ok_iff hv).mp h
  cases hfound : entityRecord.get? v "attributes" with
  | none =>
    rw [hfound] at hattributes
    exact Or.inr (Except.ok.inj hattributes).symm
  | some u =>
    rw [hfound] at hattributes
    cases u with
    | object ms =>
      obtain rfl : ms = e.entity.attributes := Except.ok.inj hattributes
      exact Or.inl rfl
    | _ => cases hattributes

end Entity

end Shape

/-- The entities of a file are items of one array of its value. -/
theorem DatasetFile.exists_of_mem_entities {v : Json} (hv : v.Distinct) {f : DatasetFile}
    (h : ofJson v = .ok f) {e : EntityEntry} (he : e ∈ f.entities) :
    ∃ items, Shape.datasetRecord.get? v "entities" = some (.array items) ∧
      ∃ w ∈ items, Shape.entity w = .ok e := by
  obtain ⟨-, -, -, hentities, -⟩ := (Shape.ofJson_eq_ok_iff hv).mp h
  cases hfound : Shape.datasetRecord.get? v "entities" with
  | none =>
    rw [hfound] at hentities
    obtain hnil : [] = f.entities := Except.ok.inj hentities
    rw [← hnil] at he
    cases he
  | some u =>
    rw [hfound] at hentities
    cases u with
    | array items =>
      obtain ⟨w, hw, hentity⟩ := exists_of_mem_right (mapM_eq_ok_iff.mp hentities) he
      exact ⟨items, rfl, w, hw, hentity⟩
    | _ => cases hentities

namespace DatasetFile

variable {v : Json} (hv : v.Distinct) {f : DatasetFile} (h : ofJson v = .ok f)
include hv h

/-- No entity names a relation twice. -/
theorem distinct_links {e : EntityEntry} (he : e ∈ f.entities) : Fields.Distinct e.links := by
  obtain ⟨items, hitems, w, hw, hentity⟩ := exists_of_mem_entities hv h he
  have hitem := (Shape.Record.distinct_of_get? hv hitems).of_mem_array hw
  exact Shape.distinct_links_of_entity hitem hentity

end DatasetFile

namespace Dataset

/-- A dataset has what its file has. -/
theorem of_ofFile {f : DatasetFile} {d : Dataset} (h : ofFile f = .ok d) :
    d.types = f.types ∧ d.records = f.entities.map recordOf ∧ d.hidden = f.hidden := by
  unfold ofFile at h
  split at h
  · cases h
  · obtain rfl := Except.ok.inj h
    exact ⟨rfl, rfl, rfl⟩

theorem ofJson_eq_ok_iff {v : Json} {d : Dataset} :
    ofJson v = .ok d ↔ ∃ f, DatasetFile.ofJson v = .ok f ∧ ofFile f = .ok d := by
  unfold ofJson
  cases DatasetFile.ofJson v <;> simp

end Dataset

end Sideload
