import Sideload.Dataset.Shape
import Sideload.Proofs.Fields.Related
import Sideload.Proofs.Json.Distinct

/-! # What dataset files say

What each part of a dataset file is read as, in terms of the values of its fields.

A value *says* something (`Shape.Says`) if it is read, and what is read looks so. A map says, name
by name, what its members say (`Shape.says_map_iff`), links say their ids (`Shape.says_links_iff`).
The fields of a record are read in written order and the first fault counts, but what is read of
them is a function of the fields by name (`Shape.Record.get?`): `Shape.Record.read_iff` is the one
argument for all records, and `entity_eq_ok_iff`, `relation_eq_ok_iff` and so on are its cases.

What is seen of a file (`DatasetFile.view`) leaves out the order of maps and how links are
written. -/

namespace Sideload

namespace Shape

/-- The value is read, and looks like `b`. -/
def Says {α β : Type} (decode : Json → Except ShapeError α) (view : α → β) (v : Json) (b : β) :
    Prop :=
  ∃ a, decode v = .ok a ∧ view a = b

theorem says_self_iff {α : Type} {decode : Json → Except ShapeError α} {v : Json} {a : α} :
    Says decode (fun a => a) v a ↔ decode v = .ok a :=
  ⟨fun ⟨_, h, he⟩ => he ▸ h, fun h => ⟨a, h, rfl⟩⟩

/-- Fields as a function of names. -/
def byName {α β : Type} (view : α → β) (fs : Fields α) (name : String) : Option β :=
  (Fields.get? fs name).map view

section Parts
variable {α β : Type} {item : Json → Except ShapeError α} {view : α → β}

theorem says_list_iff {vs : List Json} {bs : List β} :
    Says (list item) (List.map view) (.array vs) bs ↔ List.Forall₂ (Says item view) vs bs := by
  show (∃ as, vs.mapM item = .ok as ∧ as.map view = bs) ↔ _
  unfold Says
  simp only [mapM_eq_ok_iff]
  rw [← forall₂_comp_iff]
  refine exists_congr fun as => and_congr_right fun _ => ?_
  rw [← List.forall₂_map_left_iff (R := fun c b => c = b), List.forall₂_eq_eq_eq]

theorem map_object_eq_ok_iff {ms : Fields Json} {fs : Fields α} : map item (.object ms) = .ok fs ↔
    List.Forall₂ (fun m f => m.1 = f.1 ∧ item m.2 = .ok f.2) ms fs := by
  show (ms.mapM fun m => do return (m.1, ← item m.2)) = .ok fs ↔ _
  rw [mapM_eq_ok_iff]
  refine forall₂_congr_left fun m _ f => ?_
  rw [bind_eq_ok_iff]
  obtain ⟨name, a⟩ := f
  constructor
  · rintro ⟨a', ha', h⟩
    obtain ⟨rfl, rfl⟩ := Prod.mk.inj (Except.ok.inj h)
    exact ⟨rfl, ha'⟩
  · rintro ⟨rfl, ha⟩
    exact ⟨a, ha, rfl⟩

/-- What members of one shape say, name by name. -/
theorem says_map_iff {ms : Fields Json} (hms : Fields.Distinct ms) {found : String → Option β} :
    Says (map item) (byName view) (.object ms) found ↔
      ∀ name, Option.Rel (Says item view) (Fields.get? ms name) (found name) := by
  have hget : ∀ fs : Fields α, map item (.object ms) = .ok fs → ∀ name,
      Option.Rel (fun v a => item v = .ok a) (Fields.get? ms name) (Fields.get? fs name) :=
    fun fs hfs => Fields.rel_get? (map_object_eq_ok_iff.mp hfs)
  constructor
  · rintro ⟨fs, hfs, rfl⟩ name
    have hrel := hget fs hfs name
    show Option.Rel _ _ ((Fields.get? fs name).map view)
    cases hv : Fields.get? ms name with
    | none =>
      rw [hv, rel_none_left_iff] at hrel
      rw [hrel]
      exact .none
    | some v =>
      rw [hv, rel_some_left_iff] at hrel
      obtain ⟨a, hfound, ha⟩ := hrel
      rw [hfound]
      exact .some ⟨a, ha, rfl⟩
  · intro h
    have hfield : ∀ m ∈ ms, ∃ f : String × α,
        (m.1 = f.1 ∧ item m.2 = .ok f.2) ∧ found f.1 = some (view f.2) := by
      rintro ⟨name, v⟩ hm
      have hrel := h name
      rw [hms.get?_of_mem hm, rel_some_left_iff] at hrel
      obtain ⟨_, hfound, a, ha, rfl⟩ := hrel
      exact ⟨(name, a), ⟨rfl, ha⟩, hfound⟩
    obtain ⟨fs, hfs⟩ := exists_forall₂ hfield
    have hread := map_object_eq_ok_iff.mpr (hfs.imp fun _ _ h => h.1)
    refine ⟨fs, hread, funext fun name => ?_⟩
    have hrel := hget fs hread name
    have hfound := h name
    show (Fields.get? fs name).map view = found name
    cases hv : Fields.get? ms name with
    | none =>
      rw [hv, rel_none_left_iff] at hrel hfound
      rw [hrel, hfound]
      rfl
    | some v =>
      rw [hv, rel_some_left_iff] at hrel
      obtain ⟨a, ha, -⟩ := hrel
      obtain ⟨-, -, -, hfound⟩ := exists_of_mem_right hfs (Fields.mem_of_get? ha)
      rw [ha]
      exact hfound.symm

end Parts

theorem map_eq_ok_iff {α β : Type} {x : Except ShapeError α} {f : α → β} {b : β} :
    x.map f = .ok b ↔ ∃ a, x = .ok a ∧ f a = b := by
  cases x with
  | error e => exact ⟨fun h => (nomatch h), fun ⟨_, h, _⟩ => (nomatch h)⟩
  | ok a =>
    exact ⟨fun h => ⟨a, rfl, Except.ok.inj h⟩, fun ⟨_, h, hb⟩ => by cases h; exact congrArg _ hb⟩

theorem require_eq_ok_iff {α : Type} {found : Option α} {fault : ShapeError} {a : α} :
    require found fault = .ok a ↔ found = some a := by
  cases found with
  | none => exact ⟨fun h => (nomatch h), fun h => (nomatch h)⟩
  | some b =>
    exact ⟨fun h => congrArg some (Except.ok.inj h), fun h => congrArg _ (Option.some.inj h)⟩

/-- The ids that are written as links: the items of a list, one value, or none. -/
def linkItems : Json → List Json
  | .null => []
  | .array items => items
  | v => [v]

/-- What links say, item by item. -/
theorem says_links_iff {v : Json} {ids : List String} :
    Says links Links.ids v ids ↔ (linkItems v).mapM id? = some ids := by
  have hfound : ∀ found : Option Links,
      (∃ l, require found (.noForm "RawLinks") = .ok l ∧ l.ids = ids) ↔
        found.map Links.ids = some ids := by
    intro found
    simp only [require_eq_ok_iff]
    exact Option.map_eq_some_iff.symm
  have hone : ∀ w : Json,
      ((id? w).map fun i => Links.one (some i)).map Links.ids = [w].mapM id? := by
    intro w
    rw [List.mapM_cons]
    cases id? w <;> rfl
  unfold Says links
  rw [hfound]
  cases v with
  | null => exact Iff.rfl
  | array items =>
    rw [Option.map_map]
    show Option.map (fun ids => ids) (items.mapM id?) = _ ↔ _
    rw [Option.map_id_fun']
    exact Iff.rfl
  | bool b => rw [hone]; exact Iff.rfl
  | number n => rw [hone]; exact Iff.rfl
  | string s => rw [hone]; exact Iff.rfl
  | object ms => rw [hone]; exact Iff.rfl

theorem cardinality_object_eq_ok_iff {ms : Fields Json} {c : Cardinality} :
    cardinality (.object ms) = .ok c ↔
      ∃ name, ms = [(name, .null)] ∧ cardinalityNamed name = .ok c := by
  match ms with
  | [] => simp [cardinality]
  | [(name, v)] =>
    show (cardinalityNamed name >>= _) = _ ↔ _
    rw [bind_eq_ok_iff]
    cases v <;> simp [pure, Except.pure, throw, throwThe, MonadExceptOf.throw]
  | _ :: _ :: _ => simp [cardinality]

/-! ### Records -/

namespace Record

/-- The value of a field of a record. -/
def get? (r : Record) (v : Json) (name : String) : Option Json :=
  match r.entries v with
  | .ok fs => Fields.get? fs name
  | .error _ => none

/-- The value is an object, or an array that does not go on behind the last field. -/
def Fits (r : Record) (v : Json) : Prop := (∃ fs, r.entries v = .ok fs) ∧ r.checkEnd v = .ok ()

theorem get?_of_entries {r : Record} {v : Json} {fs : Fields Json} (h : r.entries v = .ok fs) :
    r.get? v = Fields.get? fs := by
  unfold get?
  rw [h]

theorem fits_array_iff {r : Record} {items : List Json} :
    r.Fits (.array items) ↔ items.drop r.fields.length = [] := by
  rw [List.drop_eq_nil_iff]
  constructor
  · rintro ⟨-, h⟩
    unfold checkEnd at h
    dsimp only at h
    split at h
    · cases h
    · next hle => exact Nat.not_lt.mp hle
  · exact fun hle => ⟨⟨_, rfl⟩, if_neg (Nat.not_lt.mpr hle)⟩

theorem fits_object (r : Record) (ms : Fields Json) : r.Fits (.object ms) := ⟨⟨ms, rfl⟩, rfl⟩

theorem eq_object_or_array_of_fits {r : Record} {v : Json} (h : r.Fits v) :
    (∃ ms, v = .object ms) ∨ ∃ items, v = .array items := by
  obtain ⟨⟨fs, hfs⟩, -⟩ := h
  unfold entries at hfs
  split at hfs
  · exact Or.inl ⟨_, rfl⟩
  · exact Or.inr ⟨_, rfl⟩
  · cases hfs

theorem isPrefix_map_fst_zip {α β : Type} : ∀ (xs : List α) (ys : List β),
    (xs.zip ys).map Prod.fst <+: xs
  | [], _ => List.nil_prefix
  | _ :: _, [] => List.nil_prefix
  | _ :: xs, _ :: ys => List.cons_prefix_cons.mpr ⟨rfl, isPrefix_map_fst_zip xs ys⟩

theorem distinct_entries {r : Record} (hr : r.fields.Nodup) {v : Json} (hv : v.Distinct)
    {fs : Fields Json} (h : r.entries v = .ok fs) : Fields.Distinct fs := by
  unfold entries at h
  split at h
  · obtain rfl := Except.ok.inj h
    exact hv.names_object
  · next items =>
    obtain rfl := Except.ok.inj h
    exact hr.sublist (isPrefix_map_fst_zip r.fields items).sublist
  · cases h

/-- A field is a member of the object, or an item of the array. -/
theorem mem_of_get? {r : Record} {v : Json} {name : String} {u : Json}
    (h : r.get? v name = some u) :
    (∃ ms, v = .object ms ∧ (name, u) ∈ ms) ∨ ∃ items, v = .array items ∧ u ∈ items := by
  unfold get? entries at h
  cases v with
  | object ms => exact Or.inl ⟨ms, rfl, Fields.mem_of_get? h⟩
  | array items => exact Or.inr ⟨items, rfl, (List.of_mem_zip (Fields.mem_of_get? h)).2⟩
  | _ => cases h

theorem distinct_of_get? {r : Record} {v : Json} (hv : v.Distinct) {name : String} {u : Json}
    (h : r.get? v name = some u) : u.Distinct := by
  rcases mem_of_get? h with ⟨ms, rfl, hm⟩ | ⟨items, rfl, hu⟩
  · exact hv.of_mem_object hm
  · exact hv.of_mem_array hu

theorem distinct_getD (r : Record) {v : Json} (hv : v.Distinct) (name : String) {other : Json}
    (hother : other.Distinct) :
    ((r.get? v name).getD other).Distinct := by
  cases h : r.get? v name with
  | none => exact hother
  | some u => exact distinct_of_get? hv h

end Record

section Fields
variable {F α : Type} {field : String × Json → Except ShapeError F} {fs : Fields Json}
  (hfs : Fields.Distinct fs)
include hfs

/-- Fields are read if each is. -/
theorem exists_mapM_iff : (∃ out, fs.mapM field = .ok out) ↔
    ∀ name v, Fields.get? fs name = some v → ∃ f, field (name, v) = .ok f := by
  simp only [mapM_eq_ok_iff]
  constructor
  · rintro ⟨out, hout⟩ name v hv
    obtain ⟨f, -, hf⟩ := exists_of_mem_left hout (Fields.mem_of_get? hv)
    exact ⟨f, hf⟩
  · intro h
    exact exists_forall₂ fun entry hentry => h entry.1 entry.2 (hfs.get?_of_mem hentry)

/-- What is selected from fields is selected from the one of its name. -/
theorem findSome?_of_mapM {out : List F} (hout : fs.mapM field = .ok out) {select : F → Option α}
    {name : String}
    (hselect : ∀ entry f, field entry = .ok f → (select f).isSome → entry.1 = name) :
    out.findSome? select =
      (Fields.get? fs name).bind fun v => (field (name, v)).toOption.bind select := by
  rw [mapM_eq_ok_iff] at hout
  induction hout with
  | nil => rfl
  | @cons entry f fs out hf _ ih =>
    obtain ⟨k, v⟩ := entry
    obtain ⟨hk, hrest⟩ := List.nodup_cons.mp hfs
    rw [List.findSome?_cons, ih hrest, Fields.get?]
    by_cases hname : k = name
    · subst hname
      rw [if_pos rfl, Fields.get?_eq_none_iff.mpr hk, Option.bind_some, hf]
      show _ = select f
      cases select f <;> rfl
    · have hnone : select f = none :=
        Option.not_isSome_iff_eq_none.mp fun h => hname (hselect _ f hf h)
      rw [if_neg hname, hnone]

section Select
variable {out : List F} (hout : fs.mapM field = .ok out) {select : F → Option α}
include hout

/-- A field that has to be there. -/
theorem eq_some_iff_of_findSome? {found : Option α} (h : out.findSome? select = found)
    (name : String) (decode : Json → Except ShapeError α) {inject : α → F}
    (hfield : ∀ v, field (name, v) = (decode v).map inject)
    (hinject : ∀ a, select (inject a) = some a)
    (hselect : ∀ entry f, field entry = .ok f → (select f).isSome → entry.1 = name) (a : α) :
    found = some a ↔ ∃ v, Fields.get? fs name = some v ∧ decode v = .ok a := by
  rw [← h, findSome?_of_mapM hfs hout hselect, Option.bind_eq_some_iff]
  refine exists_congr fun v => and_congr_right fun _ => ?_
  rw [hfield]
  cases decode v with
  | error e => exact ⟨fun h => (nomatch h), fun h => (nomatch h)⟩
  | ok b =>
    show select (inject b) = some a ↔ _
    rw [hinject, Option.some.injEq, Except.ok.injEq]

/-- A field that is read as something else if it is not there. -/
theorem eq_ok_of_getD_findSome? {a b : α} (h : (out.findSome? select).getD a = b)
    (name : String) (decode : Json → Except ShapeError α) (other : Json)
    (hother : decode other = .ok a) {inject : α → F}
    (hfield : ∀ v, field (name, v) = (decode v).map inject)
    (hinject : ∀ a, select (inject a) = some a)
    (hselect : ∀ entry f, field entry = .ok f → (select f).isSome → entry.1 = name) :
    decode ((Fields.get? fs name).getD other) = .ok b := by
  rw [findSome?_of_mapM hfs hout hselect] at h
  cases hv : Fields.get? fs name with
  | none =>
    rw [hv] at h
    rw [Option.getD_none, hother]
    exact congrArg _ h
  | some v =>
    obtain ⟨f, hf⟩ := (exists_mapM_iff hfs).mp ⟨out, hout⟩ name v hv
    rw [hfield, map_eq_ok_iff] at hf
    obtain ⟨c, hc, -⟩ := hf
    rw [hv, Option.bind_some, hfield, hc] at h
    rw [Option.getD_some, hc, ← h]
    show _ = Except.ok ((select (inject c)).getD a)
    rw [hinject]
    rfl

end Select

end Fields

/-- **A record is read** if it fits and all that it says is read, where a fault in any field would
end the reading. -/
theorem Record.read_iff {F : Type} (r : Record) (hr : r.fields.Nodup) {v : Json} (hv : v.Distinct)
    (field : String × Json → Except ShapeError F) {P : List F → Prop} {Q : Prop}
    (hP : ∀ fs out, Fields.Distinct fs → r.get? v = Fields.get? fs → fs.mapM field = .ok out →
      (P out ↔ r.checkEnd v = .ok () ∧ Q))
    (hall : Q → ∀ name w, r.get? v name = some w → ∃ f, field (name, w) = .ok f) :
    (∃ fs, r.entries v = .ok fs ∧ ∃ out, fs.mapM field = .ok out ∧ P out) ↔ r.Fits v ∧ Q := by
  constructor
  · rintro ⟨fs, hentries, out, hout, h⟩
    have hfs := distinct_entries hr hv hentries
    obtain ⟨hend, h⟩ := (hP fs out hfs (get?_of_entries hentries) hout).mp h
    exact ⟨⟨⟨fs, hentries⟩, hend⟩, h⟩
  · rintro ⟨⟨⟨fs, hentries⟩, hend⟩, h⟩
    have hfs := distinct_entries hr hv hentries
    have hget := get?_of_entries hentries
    obtain ⟨out, hout⟩ := (exists_mapM_iff hfs).mpr (hget ▸ hall h)
    exact ⟨fs, hentries, out, hout, (hP fs out hfs hget hout).mpr ⟨hend, h⟩⟩

/-! ### What the records say -/

section Records
variable {v : Json} (hv : v.Distinct)
include hv

theorem pointer_eq_ok_iff {p : Pointer} : pointer v = .ok p ↔ pointerRecord.Fits v ∧
    (∃ w, pointerRecord.get? v "type" = some w ∧ string w = .ok p.type) ∧
      ∃ w, pointerRecord.get? v "id" = some w ∧ id w = .ok p.id := by
  unfold pointer
  simp only [bind_eq_ok_iff, require_eq_ok_iff]
  refine pointerRecord.read_iff (by decide) hv pointerField (fun fs out hfs hget hout => ?_) ?_
  · rw [hget]
    -- what is selected from the fields, and then what that says of the field of each name
    generalize htype : out.findSome? _ = type?
    generalize hid : out.findSome? _ = id?
    replace htype := eq_some_iff_of_findSome? hfs hout htype "type" string (fun _ => rfl)
      (fun _ => rfl) fun entry f h hs => by grind [pointerField, map_eq_ok_iff]
    replace hid := eq_some_iff_of_findSome? hfs hout hid "id" id (fun _ => rfl)
      (fun _ => rfl) fun entry f h hs => by grind [pointerField, map_eq_ok_iff]
    simp only [htype, hid]
    constructor
    · rintro ⟨type, htype, i, hid, ⟨⟩, hend, h⟩
      cases h
      exact ⟨hend, htype, hid⟩
    · rintro ⟨hend, htype, hid⟩
      exact ⟨_, htype, _, hid, (), hend, rfl⟩
  · rintro ⟨htype, hid⟩ name w hw
    unfold pointerField
    split <;> simp_all [Except.map]

theorem entity_eq_ok_iff {e : EntityEntry} : entity v = .ok e ↔ entityRecord.Fits v ∧
    (∃ w, entityRecord.get? v "type" = some w ∧ string w = .ok e.entity.pointer.type) ∧
    (∃ w, entityRecord.get? v "id" = some w ∧ id w = .ok e.entity.pointer.id) ∧
    members ((entityRecord.get? v "attributes").getD (.object [])) = .ok e.entity.attributes ∧
    map links ((entityRecord.get? v "relations").getD (.object [])) = .ok e.links := by
  unfold entity
  simp only [bind_eq_ok_iff, require_eq_ok_iff]
  refine entityRecord.read_iff (by decide) hv entityField (fun fs out hfs hget hout => ?_) ?_
  · rw [hget]
    generalize htype : out.findSome? _ = type?
    generalize hid : out.findSome? _ = id?
    generalize hattributes : (out.findSome? _).getD _ = attributes
    generalize hlinks : (out.findSome? _).getD _ = linked
    replace htype := eq_some_iff_of_findSome? hfs hout htype "type" string (fun _ => rfl)
      (fun _ => rfl) fun entry f h hs => by grind [entityField, map_eq_ok_iff]
    replace hid := eq_some_iff_of_findSome? hfs hout hid "id" id (fun _ => rfl)
      (fun _ => rfl) fun entry f h hs => by grind [entityField, map_eq_ok_iff]
    replace hattributes := eq_ok_of_getD_findSome? hfs hout hattributes "attributes"
      members (.object []) rfl (fun _ => rfl) (fun _ => rfl)
      fun entry f h hs => by grind [entityField, map_eq_ok_iff]
    replace hlinks := eq_ok_of_getD_findSome? hfs hout hlinks "relations"
      (map links) (.object []) rfl (fun _ => rfl) (fun _ => rfl)
      fun entry f h hs => by grind [entityField, map_eq_ok_iff]
    simp only [htype, hid]
    constructor
    · rintro ⟨type, htype, i, hid, ⟨⟩, hend, h⟩
      cases h
      exact ⟨hend, htype, hid, hattributes, hlinks⟩
    · rintro ⟨hend, htype, hid, hattributes', hlinks'⟩
      cases hattributes.symm.trans hattributes'
      cases hlinks.symm.trans hlinks'
      exact ⟨_, htype, _, hid, (), hend, rfl⟩
  · rintro ⟨htype, hid, hattributes, hlinks⟩ name w hw
    unfold entityField
    split <;> simp_all [Except.map]

theorem relation_eq_ok_iff {d : RelationDef} : relation v = .ok d ↔ relationRecord.Fits v ∧
    (∃ w, relationRecord.get? v "type" = some w ∧ string w = .ok d.target) ∧
    cardinality ((relationRecord.get? v "cardinality").getD (.string "many")) =
      .ok d.cardinality ∧
    bool ((relationRecord.get? v "includable").getD (.bool true)) = .ok d.isIncludable := by
  unfold relation
  simp only [bind_eq_ok_iff, require_eq_ok_iff]
  refine relationRecord.read_iff (by decide) hv relationField (fun fs out hfs hget hout => ?_) ?_
  · rw [hget]
    generalize htype : out.findSome? _ = type?
    generalize hcardinality : (out.findSome? _).getD Cardinality.many = c
    generalize hincludable : (out.findSome? _).getD true = b
    replace htype := eq_some_iff_of_findSome? hfs hout htype "type" string (fun _ => rfl)
      (fun _ => rfl) fun entry f h hs => by grind [relationField, map_eq_ok_iff]
    replace hcardinality := eq_ok_of_getD_findSome? hfs hout hcardinality "cardinality"
      cardinality (.string "many") rfl (fun _ => rfl) (fun _ => rfl)
      fun entry f h hs => by grind [relationField, map_eq_ok_iff]
    replace hincludable := eq_ok_of_getD_findSome? hfs hout hincludable "includable"
      bool (.bool true) rfl (fun _ => rfl) (fun _ => rfl)
      fun entry f h hs => by grind [relationField, map_eq_ok_iff]
    simp only [htype]
    constructor
    · rintro ⟨type, htype, ⟨⟩, hend, h⟩
      cases h
      exact ⟨hend, htype, hcardinality, hincludable⟩
    · rintro ⟨hend, htype, hcardinality', hincludable'⟩
      cases hcardinality.symm.trans hcardinality'
      cases hincludable.symm.trans hincludable'
      exact ⟨_, htype, (), hend, rfl⟩
  · rintro ⟨htype, hcardinality, hincludable⟩ name w hw
    unfold relationField
    split <;> simp_all [Except.map]

theorem type_eq_ok_iff {t : TypeDef} : type v = .ok t ↔ typeRecord.Fits v ∧
    map relation ((typeRecord.get? v "relations").getD (.object [])) = .ok t.relations := by
  unfold type
  simp only [bind_eq_ok_iff]
  refine typeRecord.read_iff (by decide) hv typeField (fun fs out hfs hget hout => ?_) ?_
  · rw [hget]
    generalize hrelations : (out.findSome? _).getD _ = relations
    replace hrelations := eq_ok_of_getD_findSome? hfs hout hrelations "relations"
      (map relation) (.object []) rfl (fun _ => rfl) (fun _ => rfl)
      fun entry f h hs => by grind [typeField, map_eq_ok_iff]
    constructor
    · rintro ⟨⟨⟩, hend, h⟩
      cases h
      exact ⟨hend, hrelations⟩
    · rintro ⟨hend, hrelations'⟩
      cases hrelations.symm.trans hrelations'
      exact ⟨(), hend, rfl⟩
  · intro hrelations name w hw
    unfold typeField
    split <;> simp_all [Except.map]

/-- A dataset file has no other fields. -/
theorem ofJson_eq_ok_iff {f : DatasetFile} : DatasetFile.ofJson v = .ok f ↔ datasetRecord.Fits v ∧
    (∀ name w, datasetRecord.get? v name = some w → name ∈ datasetRecord.fields) ∧
    registry ((datasetRecord.get? v "types").getD (.object [])) = .ok f.types ∧
    list entity ((datasetRecord.get? v "entities").getD (.array [])) = .ok f.entities ∧
    list pointer ((datasetRecord.get? v "hidden").getD (.array [])) = .ok f.hidden := by
  unfold DatasetFile.ofJson
  simp only [bind_eq_ok_iff]
  refine datasetRecord.read_iff (by decide) hv datasetField (fun fs out hfs hget hout => ?_) ?_
  · have hknown : ∀ name w, Fields.get? fs name = some w → name ∈ datasetRecord.fields := by
      intro name w hw
      obtain ⟨f, hf⟩ := (exists_mapM_iff hfs).mp ⟨out, hout⟩ name w hw
      unfold datasetField at hf
      split at hf <;> simp_all [datasetRecord]
    rw [hget, and_iff_right hknown]
    generalize htypes : (out.findSome? _).getD _ = types
    generalize hentities : (out.findSome? _).getD _ = entities
    generalize hhidden : (out.findSome? _).getD _ = hidden
    replace htypes := eq_ok_of_getD_findSome? hfs hout htypes "types"
      registry (.object []) rfl (fun _ => rfl) (fun _ => rfl)
      fun entry f h hs => by grind [datasetField, map_eq_ok_iff]
    replace hentities := eq_ok_of_getD_findSome? hfs hout hentities "entities"
      (list entity) (.array []) rfl (fun _ => rfl) (fun _ => rfl)
      fun entry f h hs => by grind [datasetField, map_eq_ok_iff]
    replace hhidden := eq_ok_of_getD_findSome? hfs hout hhidden "hidden"
      (list pointer) (.array []) rfl (fun _ => rfl) (fun _ => rfl)
      fun entry f h hs => by grind [datasetField, map_eq_ok_iff]
    constructor
    · rintro ⟨⟨⟩, hend, h⟩
      cases h
      exact ⟨hend, htypes, hentities, hhidden⟩
    · rintro ⟨hend, htypes', hentities', hhidden'⟩
      cases htypes.symm.trans htypes'
      cases hentities.symm.trans hentities'
      cases hhidden.symm.trans hhidden'
      exact ⟨(), hend, rfl⟩
  · rintro ⟨hknown, htypes, hentities, hhidden⟩ name w hw
    have hname : name = "types" ∨ name = "entities" ∨ name = "hidden" := by
      simpa [datasetRecord] using hknown name w hw
    clear hknown
    unfold datasetField
    split <;> simp_all [Except.map]

end Records

/-! ### What is seen of them -/

end Shape

/-- What an entity of a file tells: itself, and the ids that each relation links. -/
def EntityEntry.view (e : EntityEntry) : Entity × (String → Option (List String)) :=
  (e.entity, Shape.byName Links.ids e.links)

/-- What a type tells: its relations. -/
def TypeDef.view (t : TypeDef) : String → Option RelationDef :=
  Shape.byName (fun d => d) t.relations

/-- What declared types tell: the types, with their relations. -/
def TypeRegistry.view (r : TypeRegistry) : String → Option (String → Option RelationDef) :=
  Shape.byName TypeDef.view r.types

/-- What a dataset file tells. -/
def DatasetFile.view (f : DatasetFile) : (String → Option (String → Option RelationDef)) ×
    List (Entity × (String → Option (List String))) × List Pointer :=
  (f.types.view, f.entities.map EntityEntry.view, f.hidden)

namespace Shape

section Seen
variable {v : Json} (hv : v.Distinct)
include hv

theorem says_entity_iff {e : Entity} {linked : String → Option (List String)} :
    Says entity EntityEntry.view v (e, linked) ↔ entityRecord.Fits v ∧
      (∃ w, entityRecord.get? v "type" = some w ∧ string w = .ok e.pointer.type) ∧
      (∃ w, entityRecord.get? v "id" = some w ∧ id w = .ok e.pointer.id) ∧
      members ((entityRecord.get? v "attributes").getD (.object [])) = .ok e.attributes ∧
      Says (map links) (byName Links.ids)
        ((entityRecord.get? v "relations").getD (.object [])) linked := by
  constructor
  · rintro ⟨entry, hentry, h⟩
    obtain ⟨rfl, rfl⟩ := Prod.mk.inj h
    obtain ⟨hfits, htype, hid, hattributes, hlinks⟩ := (entity_eq_ok_iff hv).mp hentry
    exact ⟨hfits, htype, hid, hattributes, entry.links, hlinks, rfl⟩
  · rintro ⟨hfits, htype, hid, hattributes, l, hlinks, rfl⟩
    exact ⟨⟨e, l⟩, (entity_eq_ok_iff hv).mpr ⟨hfits, htype, hid, hattributes, hlinks⟩, rfl⟩

theorem says_type_iff {relations : String → Option RelationDef} :
    Says type TypeDef.view v relations ↔ typeRecord.Fits v ∧
      Says (map relation) (byName fun d => d)
        ((typeRecord.get? v "relations").getD (.object [])) relations := by
  constructor
  · rintro ⟨t, ht, rfl⟩
    obtain ⟨hfits, hrelations⟩ := (type_eq_ok_iff hv).mp ht
    exact ⟨hfits, t.relations, hrelations, rfl⟩
  · rintro ⟨hfits, rs, hrelations, rfl⟩
    exact ⟨⟨rs⟩, (type_eq_ok_iff hv).mpr ⟨hfits, hrelations⟩, rfl⟩

theorem says_file_iff {types : String → Option (String → Option RelationDef)}
    {entities : List (Entity × (String → Option (List String)))} {hidden : List Pointer} :
    Says DatasetFile.ofJson DatasetFile.view v (types, entities, hidden) ↔
      datasetRecord.Fits v ∧
      (∀ name w, datasetRecord.get? v name = some w → name ∈ datasetRecord.fields) ∧
      Says (map type) (byName TypeDef.view)
        ((datasetRecord.get? v "types").getD (.object [])) types ∧
      Says (list entity) (List.map EntityEntry.view)
        ((datasetRecord.get? v "entities").getD (.array [])) entities ∧
      list pointer ((datasetRecord.get? v "hidden").getD (.array [])) = .ok hidden := by
  constructor
  · rintro ⟨f, hf, h⟩
    obtain ⟨htypes, h⟩ := Prod.mk.inj h
    obtain ⟨hentities, hhidden⟩ := Prod.mk.inj h
    subst htypes hentities hhidden
    obtain ⟨hfits, hknown, htypes, hentities, hhidden⟩ := (ofJson_eq_ok_iff hv).mp hf
    obtain ⟨ts, hts, hregistry⟩ := map_eq_ok_iff.mp htypes
    exact ⟨hfits, hknown, ⟨ts, hts, hregistry ▸ rfl⟩, ⟨f.entities, hentities, rfl⟩, hhidden⟩
  · rintro ⟨hfits, hknown, ⟨ts, hts, rfl⟩, ⟨es, hentities, rfl⟩, hhidden⟩
    have htypes : registry ((datasetRecord.get? v "types").getD (.object [])) = .ok ⟨ts⟩ :=
      map_eq_ok_iff.mpr ⟨ts, hts, rfl⟩
    exact ⟨⟨⟨ts⟩, es, hidden⟩,
      (ofJson_eq_ok_iff hv).mpr ⟨hfits, hknown, htypes, hentities, hhidden⟩, rfl⟩

end Seen

end Shape

end Sideload
