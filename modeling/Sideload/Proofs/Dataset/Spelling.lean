import Sideload.Proofs.Dataset.Answers
import Sideload.Proofs.Json.Reordered

/-! # Spellings of a dataset

The same dataset can be written in several ways (`Shape.SameDataset`): with members in another
order, ids as integers or as texts, a single link with or without brackets, null or no links,
defaults written out or left out, and further members that nobody reads.

Each spelling is read as the same (`Shape.Faithful`), part by part: a list, a map or a record
says the same in two spellings if its parts do. Two dataset files that say the same repeat an
identity both or neither, and are datasets that answer alike (`Dataset.SameAnswers`).

`spelling_unobservable`: of two spellings of a dataset both are refused, or both are read, as
datasets that nobody can tell apart. -/

namespace Sideload

namespace Shape

/-! ### Spellings -/

/-- Two spellings of an id: an integer of 64 bits with sign, or its decimal text. Whatever is no id
is the same up to the order of members. -/
inductive SameId : Json → Json → Prop where
  | reordered {v w : Json} (h : v.Reordered w) : SameId v w
  | text {n : Int} (lower : -(Nat.pow 2 63 : Nat) ≤ n) (upper : n < (Nat.pow 2 63 : Nat)) :
    SameId (.int n) (.string (Decimal.integerText n))
  | integer {n : Int} (lower : -(Nat.pow 2 63 : Nat) ≤ n) (upper : n < (Nat.pow 2 63 : Nat)) :
    SameId (.string (Decimal.integerText n)) (.int n)

/-- Two spellings of links: the same ids, one by one. A single id is a list of one, and null is an
empty list. -/
def SameLinks (v w : Json) : Prop := List.Forall₂ SameId (linkItems v) (linkItems w)

/-- Two objects with the same names, in any order, and values that are spellings of each other. -/
inductive SameMap (R : Json → Json → Prop) : Json → Json → Prop where
  | object {ms ns : Fields Json}
    (values : ∀ name, Option.Rel R (Fields.get? ms name) (Fields.get? ns name)) :
    SameMap R (.object ms) (.object ns)
  | other {v w : Json} (hv : ∀ ms, v ≠ .object ms) (h : v.Reordered w) : SameMap R v w

/-- Members that change places, and have spellings of their values. -/
theorem SameMap.of_perm {R : Json → Json → Prop} {ms entries ns : Fields Json}
    (hms : Fields.Distinct ms) (hperm : ms.Perm entries)
    (hvalues : List.Forall₂ (Fields.Named R) entries ns) : SameMap R (.object ms) (.object ns) := by
  refine .object fun name => ?_
  rw [Fields.Distinct.get?_of_perm hms hperm]
  refine Fields.rel_get? (hvalues.imp ?_) name
  rintro _ _ ⟨name, h⟩
  exact ⟨rfl, h⟩

/-- Two lists with items that are spellings of each other, in the same order. -/
inductive SameList (R : Json → Json → Prop) : Json → Json → Prop where
  | array {vs ws : List Json} (items : List.Forall₂ R vs ws) : SameList R (.array vs) (.array ws)
  | other {v w : Json} (hv : ∀ items, v ≠ .array items) (h : v.Reordered w) : SameList R v w

/-- Two records whose fields are related by name, written as objects or as arrays. -/
inductive SameRecord (r : Record) (R : String → Option Json → Option Json → Prop) :
    Json → Json → Prop where
  | object {ms ns : Fields Json}
    (fields : ∀ name, R name (Fields.get? ms name) (Fields.get? ns name)) :
    SameRecord r R (.object ms) (.object ns)
  | array {vs ws : List Json}
    (fields : ∀ name, R name (r.get? (.array vs) name) (r.get? (.array ws) name))
    (rest : List.Forall₂ Json.Reordered (vs.drop r.fields.length) (ws.drop r.fields.length)) :
    SameRecord r R (.array vs) (.array ws)
  | other {v w : Json} (hobject : ∀ ms, v ≠ .object ms) (harray : ∀ items, v ≠ .array items)
    (h : v.Reordered w) : SameRecord r R v w

/-- Two spellings of a field of a pointer; any other fields may differ in everything. -/
def SamePointerField (name : String) (a b : Option Json) : Prop :=
  match name with
  | "type" => Option.Rel Json.Reordered a b
  | "id" => Option.Rel SameId a b
  | _ => True

/-- Two spellings of a pointer. -/
def SamePointer : Json → Json → Prop := SameRecord pointerRecord SamePointerField

/-- Two spellings of a field of an entity. Attributes keep their order; if they are left out they
are empty, as are relations. -/
def SameEntityField (name : String) (a b : Option Json) : Prop :=
  match name with
  | "type" => Option.Rel Json.Reordered a b
  | "id" => Option.Rel SameId a b
  | "attributes" => a.getD (.object []) = b.getD (.object [])
  | "relations" => SameMap SameLinks (a.getD (.object [])) (b.getD (.object []))
  | _ => True

/-- Two spellings of an entity. -/
def SameEntity : Json → Json → Prop := SameRecord entityRecord SameEntityField

/-- Two spellings of a field of a relation. If it is left out, a cardinality is many, and a relation
may be included. -/
def SameRelationField (name : String) (a b : Option Json) : Prop :=
  match name with
  | "type" => Option.Rel Json.Reordered a b
  | "cardinality" => (a.getD (.string "many")).Reordered (b.getD (.string "many"))
  | "includable" => (a.getD (.bool true)).Reordered (b.getD (.bool true))
  | _ => True

/-- Two spellings of a relation. -/
def SameRelation : Json → Json → Prop := SameRecord relationRecord SameRelationField

/-- Two spellings of a field of a type. -/
def SameTypeField (name : String) (a b : Option Json) : Prop :=
  match name with
  | "relations" => SameMap SameRelation (a.getD (.object [])) (b.getD (.object []))
  | _ => True

/-- Two spellings of a type. -/
def SameType : Json → Json → Prop := SameRecord typeRecord SameTypeField

/-- Two spellings of a field of a dataset. A dataset has no further fields, so one that is there has
to be there in both. -/
def SameDatasetField (name : String) (a b : Option Json) : Prop :=
  match name with
  | "types" => SameMap SameType (a.getD (.object [])) (b.getD (.object []))
  | "entities" => SameList SameEntity (a.getD (.array [])) (b.getD (.array []))
  | "hidden" => SameList SamePointer (a.getD (.array [])) (b.getD (.array []))
  | _ => Option.Rel Json.Reordered a b

/-- Two spellings of a dataset. -/
def SameDataset : Json → Json → Prop := SameRecord datasetRecord SameDatasetField

/-! ### What is read of them -/

/-- Two values that are related say the same, or both say nothing. -/
def Faithful {α β : Type} (R : Json → Json → Prop) (decode : Json → Except ShapeError α)
    (view : α → β) : Prop :=
  ∀ ⦃v w : Json⦄, R v w → v.Distinct → w.Distinct → ∀ b, Says decode view v b ↔ Says decode view w b

/-- What is no array and no object has no members that could change places. -/
theorem faithful_of_scalar {α : Type} {decode : Json → Except ShapeError α}
    (harray : ∀ items a, decode (.array items) ≠ .ok a)
    (hobject : ∀ ms a, decode (.object ms) ≠ .ok a) :
    Faithful Json.Reordered decode fun a => a := by
  intro v w h _ _ a
  simp only [says_self_iff]
  cases h with
  | refl => exact Iff.rfl
  | array => exact iff_of_false (harray _ a) (harray _ a)
  | object => exact iff_of_false (hobject _ a) (hobject _ a)

theorem faithful_string : Faithful Json.Reordered string fun s => s :=
  faithful_of_scalar (fun _ _ h => (nomatch h)) fun _ _ h => (nomatch h)

theorem faithful_bool : Faithful Json.Reordered bool fun b => b :=
  faithful_of_scalar (fun _ _ h => (nomatch h)) fun _ _ h => (nomatch h)

theorem eq_singleton_null_iff_of_reordered {ms ns : Fields Json}
    (h : (Json.object ms).Reordered (.object ns)) (name : String) :
    ms = [(name, .null)] ↔ ns = [(name, .null)] := by
  cases h with
  | refl => exact Iff.rfl
  | @object _ entries _ hperm hvalues =>
    constructor
    · rintro rfl
      rw [List.singleton_perm] at hperm
      obtain rfl := hperm
      obtain ⟨_, _, ⟨_, hnull⟩, hnil, rfl⟩ := List.forall₂_cons_left_iff.mp hvalues
      rw [List.forall₂_nil_left_iff.mp hnil]
      cases hnull
      rfl
    · rintro rfl
      obtain ⟨_, _, ⟨_, hnull⟩, hnil, rfl⟩ := List.forall₂_cons_right_iff.mp hvalues
      rw [List.forall₂_nil_right_iff.mp hnil, Json.reordered_null_iff.mp hnull,
        List.perm_singleton] at hperm
      exact hperm

theorem faithful_cardinality : Faithful Json.Reordered cardinality fun c => c := by
  intro v w h _ _ c
  simp only [says_self_iff]
  cases h with
  | refl => exact Iff.rfl
  | array => exact ⟨fun h => (nomatch h), fun h => (nomatch h)⟩
  | object hperm hvalues =>
    rw [cardinality_object_eq_ok_iff, cardinality_object_eq_ok_iff]
    exact exists_congr fun name =>
      and_congr_left' (eq_singleton_null_iff_of_reordered (.object hperm hvalues) name)

theorem id?_int {n : Int} (lower : -(Nat.pow 2 63 : Nat) ≤ n) (upper : n < (Nat.pow 2 63 : Nat)) :
    id? (.int n) = some (Decimal.integerText n) :=
  if_pos ⟨lower, upper⟩

theorem SameId.id?_eq {v w : Json} (h : SameId v w) : id? v = id? w := by
  cases h with
  | reordered h => cases h <;> rfl
  | text lower upper => exact id?_int lower upper
  | integer lower upper => exact (id?_int lower upper).symm

theorem faithful_id : Faithful SameId id fun s => s := by
  intro v w h _ _ s
  unfold Says id
  rw [h.id?_eq]

theorem mapM_id?_eq {is js : List Json} (h : List.Forall₂ SameId is js) :
    is.mapM id? = js.mapM id? := by
  induction h with
  | nil => rfl
  | cons hid _ ih => rw [List.mapM_cons, List.mapM_cons, hid.id?_eq, ih]

theorem faithful_links : Faithful SameLinks links Links.ids := by
  intro v w h _ _ ids
  rw [says_links_iff, says_links_iff, mapM_id?_eq h]

section Parts
variable {α β : Type} {R : Json → Json → Prop} {item : Json → Except ShapeError α} {view : α → β}

/-- **A list says the same if its items do.** -/
theorem Faithful.list (hitem : Faithful R item view) :
    Faithful (SameList R) (list item) (List.map view) := by
  intro v w h hv hw bs
  cases h with
  | @array vs ws hitems =>
    rw [Json.distinct_array_iff] at hv hw
    rw [says_list_iff, says_list_iff]
    induction hitems generalizing bs with
    | nil => exact Iff.rfl
    | cons h _ ih =>
      rw [List.forall_mem_cons] at hv hw
      rw [List.forall₂_cons_left_iff, List.forall₂_cons_left_iff]
      exact exists_congr fun b => exists_congr fun bs =>
        and_congr (hitem h hv.1 hw.1 b) (and_congr_left' (ih bs hv.2 hw.2))
  | other hne h =>
    cases h with
    | refl => exact Iff.rfl
    | array => exact absurd rfl (hne _)
    | object => exact ⟨fun ⟨_, h, _⟩ => (nomatch h), fun ⟨_, h, _⟩ => (nomatch h)⟩

/-- **Members of one shape say the same if each does.** -/
theorem Faithful.map (hitem : Faithful R item view) :
    Faithful (SameMap R) (map item) (byName view) := by
  intro v w h hv hw found
  cases h with
  | @object ms ns hvalues =>
    rw [says_map_iff hv.names_object, says_map_iff hw.names_object]
    refine forall_congr' fun name => ?_
    have hdistinct : ∀ v, Fields.get? ms name = some v → v.Distinct :=
      fun v hget => hv.of_mem_object (Fields.mem_of_get? hget)
    have hdistinct' : ∀ w, Fields.get? ns name = some w → w.Distinct :=
      fun w hget => hw.of_mem_object (Fields.mem_of_get? hget)
    have hrel := hvalues name
    cases hms : Fields.get? ms name with
    | none =>
      rw [hms, rel_none_left_iff] at hrel
      rw [hrel]
    | some v =>
      rw [hms, rel_some_left_iff] at hrel
      obtain ⟨w, hns, h⟩ := hrel
      rw [hns, rel_some_left_iff, rel_some_left_iff]
      exact exists_congr fun b => and_congr_right fun _ =>
        hitem h (hdistinct v hms) (hdistinct' w hns) b
  | other hne h =>
    cases h with
    | refl => exact Iff.rfl
    | array => exact ⟨fun ⟨_, h, _⟩ => (nomatch h), fun ⟨_, h, _⟩ => (nomatch h)⟩
    | object => exact absurd rfl (hne _)

end Parts

/-! ### Records -/

section Records
variable {r : Record} {R : String → Option Json → Option Json → Prop} {v w : Json}

namespace SameRecord

theorem fits_iff (h : SameRecord r R v w) : r.Fits v ↔ r.Fits w := by
  cases h with
  | object => exact iff_of_true (r.fits_object _) (r.fits_object _)
  | array _ hrest =>
    rw [Record.fits_array_iff, Record.fits_array_iff]
    constructor
    · intro hnil
      rw [hnil, List.forall₂_nil_left_iff] at hrest
      exact hrest
    · intro hnil
      rw [hnil, List.forall₂_nil_right_iff] at hrest
      exact hrest
  | other hobject harray h =>
    cases h with
    | refl => exact Iff.rfl
    | array => exact absurd rfl (harray _)
    | object => exact absurd rfl (hobject _)

theorem field (h : SameRecord r R v w) (hfits : r.Fits v) (name : String) :
    R name (r.get? v name) (r.get? w name) := by
  cases h with
  | object hfields => exact hfields name
  | array hfields => exact hfields name
  | other hobject harray =>
    rcases Record.eq_object_or_array_of_fits hfits with ⟨ms, rfl⟩ | ⟨items, rfl⟩
    · exact absurd rfl (hobject ms)
    · exact absurd rfl (harray items)

end SameRecord

/-- Two spellings of a field that has to be there. -/
theorem Faithful.required {α : Type} {S : Json → Json → Prop} {decode : Json → Except ShapeError α}
    (hdecode : Faithful S decode fun a => a) (hv : v.Distinct) (hw : w.Distinct) {name : String}
    (h : Option.Rel S (r.get? v name) (r.get? w name)) (a : α) :
    (∃ u, r.get? v name = some u ∧ decode u = .ok a) ↔
      ∃ u, r.get? w name = some u ∧ decode u = .ok a := by
  cases hget : r.get? v name with
  | none =>
    rw [hget, rel_none_left_iff] at h
    rw [h]
  | some u =>
    rw [hget, rel_some_left_iff] at h
    obtain ⟨u', hget', hu⟩ := h
    have hagree := hdecode hu (Record.distinct_of_get? hv hget) (Record.distinct_of_get? hw hget') a
    rw [says_self_iff, says_self_iff] at hagree
    simpa [hget'] using hagree

/-- Two spellings of a field that may be left out. -/
theorem Faithful.defaulted {α β : Type} {S : Json → Json → Prop}
    {decode : Json → Except ShapeError α} {view : α → β} (hdecode : Faithful S decode view)
    (hv : v.Distinct) (hw : w.Distinct) {name : String} {other : Json} (hother : other.Distinct)
    (h : S ((r.get? v name).getD other) ((r.get? w name).getD other)) (b : β) :
    Says decode view ((r.get? v name).getD other) b ↔
      Says decode view ((r.get? w name).getD other) b :=
  hdecode h (r.distinct_getD hv name hother) (r.distinct_getD hw name hother) b

end Records

theorem distinct_object_nil : (Json.object []).Distinct :=
  .object List.nodup_nil (List.forall_mem_nil _)

theorem faithful_pointer : Faithful SamePointer pointer fun p => p := by
  intro v w h hv hw p
  rw [says_self_iff, says_self_iff, pointer_eq_ok_iff hv, pointer_eq_ok_iff hw, ← h.fits_iff]
  refine and_congr_right fun hfits => and_congr ?_ ?_
  · exact faithful_string.required hv hw (h.field hfits "type") _
  · exact faithful_id.required hv hw (h.field hfits "id") _

theorem faithful_entity : Faithful SameEntity entity EntityEntry.view := by
  rintro v w h hv hw ⟨e, linked⟩
  rw [says_entity_iff hv, says_entity_iff hw, ← h.fits_iff]
  refine and_congr_right fun hfits => and_congr ?_ (and_congr ?_ (and_congr ?_ ?_))
  · exact faithful_string.required hv hw (h.field hfits "type") _
  · exact faithful_id.required hv hw (h.field hfits "id") _
  · have hattributes : _ = _ := h.field hfits "attributes"
    rw [hattributes]
  · exact faithful_links.map.defaulted hv hw distinct_object_nil (h.field hfits "relations") _

theorem faithful_relation : Faithful SameRelation relation fun d => d := by
  intro v w h hv hw d
  rw [says_self_iff, says_self_iff, relation_eq_ok_iff hv, relation_eq_ok_iff hw, ← h.fits_iff]
  simp only [← @says_self_iff _ cardinality, ← @says_self_iff _ bool]
  refine and_congr_right fun hfits => and_congr ?_ (and_congr ?_ ?_)
  · exact faithful_string.required hv hw (h.field hfits "type") _
  · exact faithful_cardinality.defaulted hv hw (.string _) (h.field hfits "cardinality") _
  · exact faithful_bool.defaulted hv hw (.bool _) (h.field hfits "includable") _

theorem faithful_type : Faithful SameType type TypeDef.view := by
  intro v w h hv hw relations
  rw [says_type_iff hv, says_type_iff hw, ← h.fits_iff]
  exact and_congr_right fun hfits =>
    faithful_relation.map.defaulted hv hw distinct_object_nil (h.field hfits "relations") _

/-- A further field is there in both spellings or in none. -/
theorem forall_mem_fields_iff {name : String} {a b : Option Json} (h : SameDatasetField name a b) :
    (∀ u, a = some u → name ∈ datasetRecord.fields) ↔
      ∀ u, b = some u → name ∈ datasetRecord.fields := by
  by_cases hname : name ∈ datasetRecord.fields
  · exact iff_of_true (fun _ _ => hname) fun _ _ => hname
  · have hrel : Option.Rel Json.Reordered a b := by
      unfold SameDatasetField at h
      split at h <;> first | exact h | exact absurd (by decide) hname
    cases hrel with
    | none => exact Iff.rfl
    | some => simp

theorem faithful_dataset : Faithful SameDataset DatasetFile.ofJson DatasetFile.view := by
  rintro v w h hv hw ⟨types, entities, hidden⟩
  rw [says_file_iff hv, says_file_iff hw, ← h.fits_iff]
  have hpointers := faithful_pointer.list
  rw [show (List.map fun p : Pointer => p) = fun ps => ps from funext List.map_id'] at hpointers
  simp only [← @says_self_iff _ (list pointer)]
  refine and_congr_right fun hfits => and_congr ?_ (and_congr ?_ (and_congr ?_ ?_))
  · exact forall_congr' fun name => forall_mem_fields_iff (h.field hfits name)
  · exact faithful_type.map.defaulted hv hw distinct_object_nil (h.field hfits "types") _
  · exact faithful_entity.list.defaulted hv hw (.array (List.forall_mem_nil _))
      (h.field hfits "entities") _
  · exact hpointers.defaulted hv hw (.array (List.forall_mem_nil _)) (h.field hfits "hidden") _

end Shape

namespace Dataset

/-- **A dataset does not depend on its spelling.** Of two spellings, whose objects name no member
twice, both are refused, or both are read, as datasets that give the same answers. -/
theorem spelling_unobservable {v w : Json} (hv : v.Distinct) (hw : w.Distinct)
    (h : Shape.SameDataset v w) :
    (∃ e e', ofJson v = .error e ∧ ofJson w = .error e') ∨
      ∃ d d', ofJson v = .ok d ∧ ofJson w = .ok d' ∧ d.SameAnswers d' := by
  have hagree := Shape.faithful_dataset h hv hw
  unfold ofJson
  cases hf : DatasetFile.ofJson v with
  | error e =>
    cases hg : DatasetFile.ofJson w with
    | error e' => exact Or.inl ⟨_, _, rfl, rfl⟩
    | ok g =>
      obtain ⟨f, hok, -⟩ := (hagree g.view).mpr ⟨g, hg, rfl⟩
      rw [hf] at hok
      cases hok
  | ok f =>
    obtain ⟨g, hg, hview⟩ := (hagree f.view).mp ⟨f, hf, rfl⟩
    rw [hg]
    rcases ofFile_of_view_eq hview.symm with ⟨p, hp, hp'⟩ | ⟨d, e, hd, he, hview⟩
    · exact Or.inl ⟨_, _, hp, hp'⟩
    · exact Or.inr ⟨d, e, hd, he, sameAnswers_of_view_eq hview⟩

open Shape in
/-- Members in another order, ids as integers and as texts, links with and without brackets,
defaults and further members. -/
theorem spelling_unobservable_mixed :
    let boss : Json := .object [("type", .string "u"), ("note", .null)]
    let boss' : Json := .object [("includable", .bool true), ("type", .string "u"),
      ("cardinality", .string "many")]
    let friend : Json := .object [("type", .string "u"), ("cardinality", .string "one")]
    let first : Json := .object [("type", .string "u"), ("id", .int 1),
      ("attributes", .object [("name", .null)]),
      ("relations", .object [("friend", .string "2"), ("boss", .array [])])]
    let first' : Json := .object [("id", .string "1"), ("type", .string "u"), ("seen", .bool true),
      ("relations", .object [("boss", .null), ("friend", .array [.int 2])]),
      ("attributes", .object [("name", .null)])]
    let second : Json := .object [("type", .string "u"), ("id", .string "2")]
    let second' : Json := .object [("attributes", .object []), ("id", .int 2),
      ("type", .string "u")]
    let v : Json := .object [
      ("types", .object [("u", .object [("relations", .object [("friend", friend),
        ("boss", boss)])])]),
      ("entities", .array [first, second])]
    let w : Json := .object [
      ("hidden", .array []),
      ("entities", .array [first', second']),
      ("types", .object [("u", .object [("relations", .object [("boss", boss'),
        ("friend", friend)])])])]
    ∃ d d', ofJson v = .ok d ∧ ofJson w = .ok d' ∧ d.SameAnswers d' := by
  intro boss boss' friend first first' second second' v w
  have hone : SameId (.int 1) (.string "1") := @SameId.text 1 (by decide) (by decide)
  have htwo : SameId (.string "2") (.int 2) := @SameId.integer 2 (by decide) (by decide)
  have hboss : SameRelation boss boss' := .object fun name => by
    unfold SameRelationField
    split
    · exact .some (.refl _)
    · exact .refl _
    · exact .refl _
    · trivial
  have hfriend : SameRelation friend friend := .object fun name => by
    unfold SameRelationField
    split
    · exact .some (.refl _)
    · exact .refl _
    · exact .refl _
    · trivial
  have hfirst : SameEntity first first' := .object fun name => by
    unfold SameEntityField
    split
    · exact .some (.refl _)
    · exact .some hone
    · rfl
    · exact .of_perm (by decide) (.swap _ _ _)
        (.cons (.intro "boss" .nil) (.cons (.intro "friend" (.cons htwo .nil)) .nil))
    · trivial
  have hsecond : SameEntity second second' := .object fun name => by
    unfold SameEntityField
    split
    · exact .some (.refl _)
    · exact .some htwo
    · rfl
    · exact .object fun _ => .none
    · trivial
  have htype : SameType (.object [("relations", .object [("friend", friend), ("boss", boss)])])
      (.object [("relations", .object [("boss", boss'), ("friend", friend)])]) :=
    .object fun name => by
      unfold SameTypeField
      split
      · exact .of_perm (by decide) (.swap _ _ _)
          (.cons (.intro "boss" hboss) (.cons (.intro "friend" hfriend) .nil))
      · trivial
  have hdataset : SameDataset v w := .object fun name => by
    unfold SameDatasetField
    split
    · exact .of_perm (by decide) (.refl _) (.cons (.intro "u" htype) .nil)
    · exact .array (.cons hfirst (.cons hsecond .nil))
    · exact .array .nil
    · next htypes hentities hhidden =>
      simp [Fields.get?, Ne.symm htypes, Ne.symm hentities, Ne.symm hhidden, rel_none_left_iff]
  have hscalar : (∀ n, (Json.int n).Distinct) ∧ (∀ s, (Json.string s).Distinct) ∧
      (∀ b, (Json.bool b).Distinct) ∧ Json.null.Distinct :=
    ⟨fun n => .number (.integer n), .string, .bool, .null⟩
  have hv : v.Distinct := by
    simp [v, first, second, friend, boss, Fields.Distinct, Fields.keys, hscalar]
  have hw : w.Distinct := by
    simp [w, first', second', friend, boss', Fields.Distinct, Fields.keys, hscalar]
  have haccepted : (ofJson v).toOption.isSome = true := by decide +kernel
  rcases spelling_unobservable hv hw hdataset with ⟨e, -, he, -⟩ | h
  · rw [he] at haccepted
    cases haccepted
  · exact h

end Dataset

end Sideload
