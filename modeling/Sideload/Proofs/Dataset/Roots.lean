import Mathlib.Data.List.Nodup
import Sideload.Proofs.Dataset.Entries
import Sideload.Proofs.Dataset.Loading

/-! # Roots by type and by ids

Roots are all visible entities of a type, or those with some ids. The first are looked up in the
list of the entities, the second by identity, and both ways show the same entities
(`visible?_eq_some_iff_mem`): an identity stands in a dataset once, so that the ids of a type
(`idsOf`) are all different. So ids that all belong to the type give its entities
(`roots_eq_ok_iff_mem`), other ids fail at the first that does not belong (`roots_eq_error_iff`), and
all ids of the type give what the type gives (`roots_idsOf`). -/

namespace Sideload.Dataset

variable {d : Dataset} {type : String}

/-- The ids of the visible entities of a type, in the order of the file. -/
def idsOf (d : Dataset) (type : String) : List String := (d.entitiesOf type).map Entity.id

/-! ### Entities of a type -/

/-- The list of a type is taken from the file. -/
theorem entitiesOf_of_ofFile {f : DatasetFile} (h : ofFile f = .ok d) (type : String) :
    d.entitiesOf type = (f.entities.map (·.entity)).filter fun e =>
      e.type = type ∧ e.pointer ∉ f.hidden := by
  obtain ⟨-, hrecords, hhidden⟩ := of_ofFile h
  unfold entitiesOf isHidden
  rw [hrecords, hhidden, List.filter_map, List.map_map, List.filter_map]
  congr 1
  refine List.filter_congr fun entry _ => ?_
  rw [Function.comp_apply, Function.comp_apply, List.contains_eq_mem, Bool.decide_and, decide_not]
  rfl

theorem pointer_of_mem_entitiesOf {e : Entity} (h : e ∈ d.entitiesOf type) :
    e.pointer = ⟨type, e.id⟩ := by
  obtain ⟨r, hr, rfl⟩ := List.mem_map.mp h
  have htype := (List.mem_filter.mp hr).2
  rw [Bool.and_eq_true, decide_eq_true_iff] at htype
  rw [← htype.1]
  rfl

/-- **An identity is looked up as it is listed.** -/
theorem visible?_eq_some_iff_mem {id : String} {e : Entity} :
    d.visible? ⟨type, id⟩ = some e ↔ e ∈ d.entitiesOf type ∧ e.id = id := by
  constructor
  · intro h
    have hpointer := pointer_of_visible? h
    obtain ⟨hshown, hentity⟩ := visible?_eq_some_iff.mp h
    obtain ⟨r, hr, rfl⟩ := Option.map_eq_some_iff.mp hentity
    have hkept : (r.pointer.type = type && !d.isHidden r.pointer) = true := by
      rw [Record.pointer, hpointer, hshown]
      simp
    refine ⟨List.mem_map_of_mem (List.mem_filter.mpr ⟨List.mem_of_find?_eq_some hr, hkept⟩), ?_⟩
    exact congrArg Pointer.id hpointer
  · rintro ⟨hmem, rfl⟩
    rw [← pointer_of_mem_entitiesOf hmem]
    exact visible?_of_mem_entitiesOf hmem

theorem visible?_eq_none_iff {id : String} : d.visible? ⟨type, id⟩ = none ↔ id ∉ d.idsOf type := by
  rw [Option.eq_none_iff_forall_ne_some, idsOf, List.mem_map, not_exists]
  simp only [ne_eq, visible?_eq_some_iff_mem]

/-- Each visible entity is listed once. -/
theorem nodup_idsOf (d : Dataset) (type : String) : (d.idsOf type).Nodup := by
  have hpointers : ((d.entitiesOf type).map Entity.pointer).Nodup := by
    unfold entitiesOf
    rw [List.map_map]
    exact d.nodup.sublist (List.filter_sublist.map Record.pointer)
  refine List.Nodup.of_map (Pointer.mk type) ?_
  rw [idsOf, List.map_map]
  have hmap : (d.entitiesOf type).map (Pointer.mk type ∘ Entity.id) =
      (d.entitiesOf type).map Entity.pointer :=
    List.map_congr_left fun e he => (pointer_of_mem_entitiesOf he).symm
  rwa [hmap]

/-! ### Entities with some ids -/

theorem roots_eq_ok_iff_mem {ids : List String} {es : List Entity} : d.roots type ids = .ok es ↔
    List.Forall₂ (fun id e => e ∈ d.entitiesOf type ∧ e.id = id) ids es := by
  simp only [roots_eq_ok_iff, visible?_eq_some_iff_mem]

theorem exists_roots_iff {ids : List String} :
    (∃ es, d.roots type ids = .ok es) ↔ ∀ id ∈ ids, id ∈ d.idsOf type := by
  simp only [roots_eq_ok_iff_mem, idsOf, List.mem_map]
  constructor
  · rintro ⟨es, hes⟩ id hid
    obtain ⟨e, -, he⟩ := exists_of_mem_left hes hid
    exact ⟨e, he⟩
  · exact exists_forall₂

/-- What fails is the first id that does not belong to the type. -/
theorem roots_eq_error_iff {error : ResolveError} : ∀ {ids : List String},
    d.roots type ids = .error error ↔ ∃ id, ids.find? (fun id => id ∉ d.idsOf type) = some id ∧
      error = .unknownRoot ⟨type, id⟩
  | [] => by simp [Dataset.roots]
  | id :: ids => by
    rw [Dataset.roots]
    cases hvisible : d.visible? ⟨type, id⟩ with
    | none =>
      have hstop := decide_eq_true (visible?_eq_none_iff.mp hvisible)
      rw [List.find?_cons_of_pos (p := fun id => decide (id ∉ d.idsOf type)) hstop]
      simp [eq_comm]
    | some e =>
      have hpass : id ∈ d.idsOf type :=
        List.mem_map.mpr ⟨e, visible?_eq_some_iff_mem.mp hvisible⟩
      rw [List.find?_cons_of_neg (by simpa using hpass), ← roots_eq_error_iff]
      cases d.roots type ids <;> simp

/-- All ids of a type give its entities. -/
theorem roots_idsOf (d : Dataset) (type : String) :
    d.roots type (d.idsOf type) = .ok (d.entitiesOf type) := by
  rw [roots_eq_ok_iff_mem, idsOf, List.forall₂_map_left_iff, List.forall₂_same]
  exact fun e he => ⟨he, rfl⟩

/-- **Both ways to name roots agree**: the entities of a type are the visible ones of the file, each
once and in its order; ids name the entities of the type that have them, one for each id, or fail at
the first id that none of them has; and all ids of the type give the same documents as the type. -/
theorem roots_agree {v : Json} (h : ofJson v = .ok d) (type : String) :
    (∃ f, DatasetFile.ofJson v = .ok f ∧ d.entitiesOf type =
      (f.entities.map (·.entity)).filter fun e => e.type = type ∧ e.pointer ∉ f.hidden) ∧
    ((d.entitiesOf type).map Entity.id).Nodup ∧
    (∀ ids, ((∃ es, d.roots type ids = .ok es) ↔
        ∀ id ∈ ids, id ∈ (d.entitiesOf type).map Entity.id) ∧
      (∀ es, d.roots type ids = .ok es ↔
        List.Forall₂ (fun id e => e ∈ d.entitiesOf type ∧ e.id = id) ids es) ∧
      ∀ error, d.roots type ids = .error error ↔
        ∃ id, ids.find? (fun id => id ∉ (d.entitiesOf type).map Entity.id) = some id ∧
          error = .unknownRoot ⟨type, id⟩) ∧
    ∀ expression options,
      ((d.roots type ((d.entitiesOf type).map Entity.id)).bind fun es =>
        d.resolve es expression options) = d.resolve (d.entitiesOf type) expression options := by
  obtain ⟨f, hf, hd⟩ := ofJson_eq_ok_iff.mp h
  refine ⟨⟨f, hf, entitiesOf_of_ofFile hd type⟩, nodup_idsOf d type, fun ids => ?_,
    fun expression options => ?_⟩
  · exact ⟨exists_roots_iff, fun _ => roots_eq_ok_iff_mem, fun _ => roots_eq_error_iff⟩
  · show (d.roots type (d.idsOf type)).bind _ = _
    rw [roots_idsOf, Except.bind]

/-- Three entities of a type, of which one is hidden and two have a number as id, are asked for with
an id that is repeated, and with the one that is hidden. -/
theorem roots_agree_hidden :
    let v : Json := .array [.object [],
      .array [.array [.string "u", .int 1], .array [.string "u", .string "2"],
        .array [.string "w", .int 1], .array [.string "u", .int 3]],
      .array [.array [.string "u", .int 2]]]
    let records : List Record := [⟨⟨⟨"u", "1"⟩, []⟩, []⟩, ⟨⟨⟨"u", "2"⟩, []⟩, []⟩,
      ⟨⟨⟨"w", "1"⟩, []⟩, []⟩, ⟨⟨⟨"u", "3"⟩, []⟩, []⟩]
    let d : Dataset := { records := records, hidden := [⟨"u", "2"⟩] }
    ofJson v = .ok d ∧ (d.entitiesOf "u").map Entity.id = ["1", "3"] ∧
      (∃ es, d.roots "u" ["3", "1", "3"] = .ok es) ∧
      d.roots "u" ["1", "2", "4"] = .error (.unknownRoot ⟨"u", "2"⟩) := by
  intro v records d
  have hd : ofJson v = .ok d := by rfl
  have hids : (d.entitiesOf "u").map Entity.id = ["1", "3"] := by rfl
  obtain ⟨-, -, hroots, -⟩ := roots_agree hd "u"
  refine ⟨hd, hids, (hroots ["3", "1", "3"]).1.mpr ?_, ((hroots ["1", "2", "4"]).2.2 _).mpr ?_⟩
  · rw [hids]
    decide
  · rw [hids]
    exact ⟨"2", by decide, rfl⟩

end Sideload.Dataset
