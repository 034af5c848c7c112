import Sideload.Document.Format
import Sideload.Proofs.Json.Reordered
import Sideload.Proofs.Schema.Validity

/-! # What the document format describes

The format of a document says the same as the type of documents (`formatFindings_eq_nil_iff`): the
values it finds nothing wrong with are the JSON forms of documents, with the members of objects in
any order, but for the rule on attributes, which the type does not know (`RepeatsIdentity`).

An object without other members than the required ones has an entry for each of them, in the order
in which the schema names them (`describes_closedObject`); from this the parts of the format follow
one by one, from pointers up to documents. -/

namespace Sideload

open Json Schema

/-- An attribute has the name of a part of the identity. -/
def Resource.RepeatsIdentity (r : Resource) : Prop :=
  "id" ∈ Fields.keys r.attributes ∨ "type" ∈ Fields.keys r.attributes

instance (r : Resource) : Decidable r.RepeatsIdentity :=
  inferInstanceAs (Decidable (_ ∨ _))

namespace Document

/-! ### Closed objects -/

theorem isValid_closedObject_iff {named : Fields Schema} {members : Fields Json} :
    (closedObject named).isValid (.object members) = true ↔
      (∀ name ∈ Fields.keys named, name ∈ Fields.keys members) ∧
        ∀ member ∈ members, ∃ s, Fields.get? named member.1 = some s ∧
          s.isValid member.2 = true := by
  have hmember : ∀ member : String × Json,
      (isValidNamed named member.1 member.2).getD (isValidOther none member.2) = true ↔
        ∃ s, Fields.get? named member.1 = some s ∧ s.isValid member.2 = true := by
    intro member
    rw [isValidNamed_eq]
    cases Fields.get? named member.1 <;> simp [isValidOther]
  simp only [closedObject, isValid, isValidAll, Json.kind, decide_true, Bool.true_and,
    Bool.and_true, Bool.and_eq_true, List.all_eq_true, hmember, Fields.isSome_get?_iff]
  rfl

/-- The members of a closed object, in the order in which they are named. -/
theorem describes_closedObject {named : Fields Schema} {meanings : Fields (Json → Prop)}
    (hnames : Fields.Distinct named)
    (h : List.Forall₂ (Fields.Named Describes) named meanings) :
    (closedObject named).Describes fun v => ∃ members entries : Fields Json, v = .object members ∧
      members.Perm entries ∧ List.Forall₂ (Fields.Named fun w P => P w) entries meanings where
  valid := by
    rintro _ ⟨members, entries, rfl, hperm, hentries⟩
    refine isValid_closedObject_iff.mpr ⟨fun name hname => ?_, fun member hmember => ?_⟩
    · rw [Fields.Named.keys_eq h, ← Fields.Named.keys_eq hentries] at hname
      exact (hperm.map Prod.fst).mem_iff.mpr hname
    · obtain ⟨_, hmeaning, ⟨name, hw⟩⟩ := exists_of_mem_left hentries (hperm.mem_iff.mp hmember)
      obtain ⟨⟨_, s⟩, hs, ⟨_, hdescribes⟩⟩ := exists_of_mem_right h hmeaning
      exact ⟨s, hnames.get?_of_mem hs, hdescribes.valid hw⟩
  of_valid {v} hdistinct hvalid := by
    cases v with
    | object members =>
      obtain ⟨hrequired, hmembers⟩ := isValid_closedObject_iff.mp hvalid
      have hexists : ∀ meaning ∈ meanings, ∃ entry,
          entry ∈ members ∧ Fields.Named (fun w P => P w) entry meaning := by
        rintro ⟨name, P⟩ hmeaning
        obtain ⟨⟨_, s⟩, hs, ⟨_, hdescribes⟩⟩ := exists_of_mem_right h hmeaning
        obtain ⟨w, hw⟩ := Fields.exists_mem_of_mem_keys
          (hrequired name (Fields.mem_keys_of_mem hs))
        obtain ⟨s', hs', hvalid⟩ := hmembers _ hw
        obtain rfl := Option.some.inj ((hnames.get?_of_mem hs).symm.trans hs')
        exact ⟨(name, w), hw, ⟨name, hdescribes.of_valid (hdistinct.of_mem_object hw) hvalid⟩⟩
      obtain ⟨entries, hentries⟩ := exists_forall₂ hexists
      have hnamed : List.Forall₂ (Fields.Named fun w P => P w) entries meanings :=
        (hentries.imp fun _ _ hentry => hentry.2).flip
      have hkeys : Fields.keys named = Fields.keys entries :=
        (Fields.Named.keys_eq h).trans (Fields.Named.keys_eq hnamed).symm
      have hentriesDistinct : Fields.Distinct entries := by
        unfold Fields.Distinct
        rwa [← hkeys]
      refine ⟨members, entries, rfl, ?_, hnamed⟩
      refine hdistinct.names_object.perm_of_subset hentriesDistinct (fun entry hentry => ?_)
        fun name hname => ?_
      · obtain ⟨_, -, hin, -⟩ := exists_of_mem_right hentries hentry
        exact hin
      · -- a member has a schema, so there is an entry of its name
        obtain ⟨w, hw⟩ := Fields.exists_mem_of_mem_keys hname
        obtain ⟨s, hs, -⟩ := hmembers _ hw
        exact hkeys ▸ Fields.mem_keys_of_mem (Fields.mem_of_get? hs)
    | _ => cases hvalid

/-! ### The parts of a document -/

theorem describes_pointer :
    pointerFormat.Describes fun v => ∃ p : Pointer, v.Reordered p.toJson := by
  refine (describes_closedObject (by decide)
    (.cons ⟨"id", describes_string⟩ (.cons ⟨"type", describes_string⟩ .nil))).congr fun v => ?_
  constructor
  · rintro ⟨members, _, rfl, hperm, _ | ⟨⟨_, id, rfl⟩, _ | ⟨⟨_, type, rfl⟩, _ | _⟩⟩⟩
    exact ⟨⟨type, id⟩, .of_perm hperm⟩
  · rintro ⟨p, hv⟩
    obtain ⟨members, _, rfl, hperm, _ | ⟨⟨_, hid⟩, _ | ⟨⟨_, htype⟩, _ | _⟩⟩⟩ :=
      reordered_object_iff.mp hv
    exact ⟨members, _, rfl, hperm, .cons ⟨_, _, reordered_string_iff.mp hid⟩
      (.cons ⟨_, _, reordered_string_iff.mp htype⟩ .nil)⟩

/-- Lists of what has a JSON form, up to the order of members. -/
theorem exists_reordered_array_iff {α : Type} (toJson : α → Json) (Q : α → Prop) {v : Json} :
    (∃ xs : List α, (∀ x ∈ xs, Q x) ∧ v.Reordered (.array (xs.map toJson))) ↔
      ∃ vs, v = .array vs ∧ ∀ w ∈ vs, ∃ x, Q x ∧ w.Reordered (toJson x) := by
  simp only [reordered_array_iff, List.forall₂_map_right_iff]
  constructor
  · rintro ⟨xs, hxs, vs, rfl, hvs⟩
    refine ⟨vs, rfl, fun w hw => ?_⟩
    obtain ⟨x, hx, hwx⟩ := exists_of_mem_left hvs hw
    exact ⟨x, hxs x hx, hwx⟩
  · rintro ⟨vs, rfl, hvs⟩
    obtain ⟨xs, hxs⟩ := exists_forall₂ hvs
    refine ⟨xs, fun x hx => ?_, vs, rfl, hxs.imp fun _ _ h => h.2⟩
    obtain ⟨_, -, hx, -⟩ := exists_of_mem_right hxs hx
    exact hx

theorem describes_pointers : (all [.type .array, .items (.ref "pointer" pointerFormat)]).Describes
    fun v => ∃ ps : List Pointer, v.Reordered (.array (ps.map Pointer.toJson)) :=
  (describes_pointer.ref "pointer").array.congr fun v => by
    simpa using (@exists_reordered_array_iff _ Pointer.toJson (fun _ => True) v).symm

theorem kind_of_isValid_pointerFormat {v : Json} (h : pointerFormat.isValid v = true) :
    v.kind = .object := by
  simp only [pointerFormat, closedObject, isValid, isValidAll, Bool.and_eq_true,
    decide_eq_true_iff] at h
  exact h.1

/-- The three ways of a linkage exclude each other, since they are of different kinds. -/
theorem isValid_linkageFormat_iff {v : Json} : linkageFormat.isValid v = true ↔
    v = .null ∨ pointerFormat.isValid v = true ∨
      (all [.type .array, .items (.ref "pointer" pointerFormat)]).isValid v = true := by
  cases hp : pointerFormat.isValid v with
  | true =>
    cases v with
    | object members => simp [linkageFormat, isValid, countValid, isValidAll, Json.kind, hp]
    | _ => cases kind_of_isValid_pointerFormat hp
  | false =>
    cases v with
    | array vs =>
      cases hitems : vs.all (fun w => pointerFormat.isValid w) <;>
        simp [linkageFormat, isValid, countValid, isValidAll, Json.kind, hp, hitems]
    | _ => simp [linkageFormat, isValid, countValid, isValidAll, Json.kind, hp]

theorem describes_linkage :
    linkageFormat.Describes fun v => ∃ l : Linkage, v.Reordered l.toJson where
  valid := by
    rintro v ⟨(_ | p) | ps, hv⟩ <;> rw [isValid_linkageFormat_iff]
    · exact .inl (reordered_null_iff.mp hv)
    · exact .inr (.inl (describes_pointer.valid ⟨p, hv⟩))
    · exact .inr (.inr (describes_pointers.valid ⟨ps, hv⟩))
  of_valid {v} hdistinct hvalid := by
    rcases isValid_linkageFormat_iff.mp hvalid with rfl | hvalid | hvalid
    · exact ⟨.one none, .refl _⟩
    · obtain ⟨p, hp⟩ := describes_pointer.of_valid hdistinct hvalid
      exact ⟨.one (some p), hp⟩
    · obtain ⟨ps, hps⟩ := describes_pointers.of_valid hdistinct hvalid
      exact ⟨.many ps, hps⟩

theorem describes_relationship : relationshipFormat.Describes fun v =>
    ∃ l : Linkage, v.Reordered (.object [("data", l.toJson)]) := by
  refine (describes_closedObject (by decide)
    (.cons ⟨"data", describes_linkage⟩ .nil)).congr fun v => ?_
  constructor
  · rintro ⟨members, _, rfl, hperm, _ | ⟨⟨_, l, hl⟩, _ | _⟩⟩
    exact ⟨l, .object hperm (.cons ⟨_, hl⟩ .nil)⟩
  · rintro ⟨l, hv⟩
    obtain ⟨members, _, rfl, hperm, _ | ⟨⟨_, hl⟩, _ | _⟩⟩ := reordered_object_iff.mp hv
    exact ⟨members, _, rfl, hperm, .cons ⟨_, l, hl⟩ .nil⟩

theorem describes_attributes : attributesFormat.Describes fun v =>
    ∃ attributes : Fields Json, v = .object attributes ∧
      "id" ∉ Fields.keys attributes ∧ "type" ∉ Fields.keys attributes where
  valid := by
    rintro _ ⟨attributes, rfl, hid, htype⟩
    rw [← Fields.get?_eq_none_iff] at hid htype
    simp [attributesFormat, isValid, isValidAll, countValid, Json.kind, hid, htype]
  of_valid {v} _ hvalid := by
    cases v with
    | object attributes =>
      refine ⟨attributes, rfl, ?_⟩
      rw [← Fields.get?_eq_none_iff, ← Fields.get?_eq_none_iff]
      simpa [attributesFormat, isValid, isValidAll, countValid, Json.kind] using hvalid
    | _ => cases hvalid

theorem isValid_relationshipsFormat_iff {members : Fields Json} :
    relationshipsFormat.isValid (.object members) = true ↔
      ∀ member ∈ members, relationshipFormat.isValid member.2 = true := by
  simp [relationshipsFormat, isValid, isValidAll, isValidNamed, isValidOther, Json.kind]

theorem describes_relationships : relationshipsFormat.Describes fun v =>
    ∃ relationships : Fields Linkage, v.Reordered (.object
      (Fields.mapValues (fun l => .object [("data", l.toJson)]) relationships)) where
  valid := by
    rintro _ ⟨relationships, hv⟩
    obtain ⟨members, entries, rfl, hperm, hentries⟩ := reordered_object_iff.mp hv
    rw [isValid_relationshipsFormat_iff]
    intro member hmember
    obtain ⟨_, hr, ⟨name, hw⟩⟩ := exists_of_mem_left hentries (hperm.mem_iff.mp hmember)
    obtain ⟨⟨_, l⟩, -, hl⟩ := List.mem_map.mp hr
    cases hl
    exact describes_relationship.valid ⟨l, hw⟩
  of_valid {v} hdistinct hvalid := by
    cases v with
    | object members =>
      rw [isValid_relationshipsFormat_iff] at hvalid
      have hexists : ∀ member ∈ members, ∃ relationship : String × Linkage,
          Fields.Named Reordered member
            (relationship.1, .object [("data", relationship.2.toJson)]) := by
        rintro ⟨name, w⟩ hmember
        obtain ⟨l, hl⟩ :=
          describes_relationship.of_valid (hdistinct.of_mem_object hmember) (hvalid _ hmember)
        exact ⟨(name, l), name, hl⟩
      obtain ⟨relationships, hrelationships⟩ := exists_forall₂ hexists
      exact ⟨relationships, .object (.refl _) (List.forall₂_map_right_iff.mpr hrelationships)⟩
    | _ => cases hvalid

theorem describes_resource : resourceFormat.Describes fun v =>
    ∃ r : Resource, ¬ r.RepeatsIdentity ∧ v.Reordered r.toJson := by
  refine (describes_closedObject (by decide) (.cons ⟨"id", describes_string⟩
    (.cons ⟨"type", describes_string⟩ (.cons ⟨"attributes", describes_attributes⟩
      (.cons ⟨"relationships", describes_relationships⟩ .nil))))).congr fun v => ?_
  constructor
  · rintro ⟨members, _, rfl, hperm, _ | ⟨⟨_, id, rfl⟩, _ | ⟨⟨_, type, rfl⟩,
      _ | ⟨⟨_, attributes, rfl, hnone⟩, _ | ⟨⟨_, relationships, hr⟩, _ | _⟩⟩⟩⟩⟩
    exact ⟨⟨⟨type, id⟩, attributes, relationships⟩, not_or.mpr hnone, .object hperm
      (.cons ⟨_, .refl _⟩ (.cons ⟨_, .refl _⟩ (.cons ⟨_, .refl _⟩ (.cons ⟨_, hr⟩ .nil))))⟩
  · rintro ⟨r, hnone, hv⟩
    obtain ⟨members, _, rfl, hperm, _ | ⟨⟨_, hid⟩, _ | ⟨⟨_, htype⟩, _ | ⟨⟨_, hattributes⟩,
      _ | ⟨⟨_, hr⟩, _ | _⟩⟩⟩⟩⟩ := reordered_object_iff.mp hv
    obtain ⟨attributes, entries, rfl, hattributes, hentries⟩ := reordered_object_iff.mp hattributes
    have hkeys : ∀ name, name ∈ Fields.keys attributes ↔ name ∈ Fields.keys r.attributes := by
      intro name
      rw [← Fields.Named.keys_eq hentries]
      exact (hattributes.map Prod.fst).mem_iff
    rw [Resource.RepeatsIdentity, ← hkeys, ← hkeys, not_or] at hnone
    exact ⟨members, _, rfl, hperm, .cons ⟨_, _, reordered_string_iff.mp hid⟩
      (.cons ⟨_, _, reordered_string_iff.mp htype⟩
        (.cons ⟨_, attributes, rfl, hnone⟩ (.cons ⟨_, r.relationships, hr⟩ .nil)))⟩

theorem describes_resources : resourcesFormat.Describes fun v => ∃ rs : List Resource,
    (∀ r ∈ rs, ¬ r.RepeatsIdentity) ∧ v.Reordered (.array (rs.map Resource.toJson)) :=
  (describes_resource.ref "resource").array.congr fun _ =>
    (exists_reordered_array_iff Resource.toJson fun r => ¬ r.RepeatsIdentity).symm

/-- **The format describes documents** whose attributes never repeat the identity, in any order of
members. -/
theorem describes_document : format.Describes fun v =>
    ∃ d : Document, (∀ r ∈ d.resources, ¬ r.RepeatsIdentity) ∧ v.Reordered d.toJson := by
  refine (describes_closedObject (by decide) (.cons ⟨"data", describes_resources⟩
    (.cons ⟨"included", describes_resources⟩ .nil))).congr fun v => ?_
  constructor
  · rintro ⟨members, _, rfl, hperm, _ | ⟨⟨_, data, hdata, hd⟩, _ | ⟨⟨_, included, hincluded, hi⟩,
      _ | _⟩⟩⟩
    exact ⟨⟨data, included⟩, fun r hr => (List.mem_append.mp hr).elim (hdata r) (hincluded r),
      .object hperm (.cons ⟨_, hd⟩ (.cons ⟨_, hi⟩ .nil))⟩
  · rintro ⟨d, hd, hv⟩
    obtain ⟨members, _, rfl, hperm, _ | ⟨⟨_, hdata⟩, _ | ⟨⟨_, hincluded⟩, _ | _⟩⟩⟩ :=
      reordered_object_iff.mp hv
    exact ⟨members, _, rfl, hperm,
      .cons ⟨_, d.data, fun r hr => hd r (List.mem_append_left _ hr), hdata⟩
        (.cons ⟨_, d.included, fun r hr => hd r (List.mem_append_right _ hr), hincluded⟩ .nil)⟩

/-- **The format and the documents are the same thing**: nothing is wrong with the format of a value
exactly if it is the JSON form of a document without attributes named like a part of the identity,
up to the order of members. -/
theorem formatFindings_eq_nil_iff {v : Json} (hv : v.Distinct) :
    formatFindings v = [] ↔ ∃ d : Document, d.toJson.Distinct ∧
      (∀ r ∈ d.resources, ¬ r.RepeatsIdentity) ∧ v.Reordered d.toJson := by
  unfold formatFindings
  rw [findings_eq_nil_iff]
  constructor
  · intro hvalid
    obtain ⟨d, hd, hreordered⟩ := describes_document.of_valid hv hvalid
    exact ⟨d, hv.of_reordered hreordered, hd, hreordered⟩
  · rintro ⟨d, -, hd, hreordered⟩
    exact describes_document.valid ⟨d, hd, hreordered⟩

/-- A value with all members in another order than documents have, and with each kind of linkage. -/
theorem formatFindings_eq_nil_iff_any_order :
    let pointer : Json := .object [("type", .string "a"), ("id", .string "1")]
    let relationships : Json := .object [("r", .object [("data", .array [pointer, pointer])]),
      ("s", .object [("data", pointer)]), ("t", .object [("data", .null)])]
    let v : Json := .object [("included", .array []), ("data", .array [.object
      [("relationships", relationships), ("attributes", .object [("x", .array [.bool true])]),
        ("type", .string "a"), ("id", .string "1")]])]
    v.Distinct ∧ ∃ d : Document, d.toJson.Distinct ∧
      (∀ r ∈ d.resources, ¬ r.RepeatsIdentity) ∧ v.Reordered d.toJson := by
  intro pointer relationships v
  have hv : v.Distinct := by
    simp [v, relationships, pointer, Fields.Distinct, Fields.keys, Distinct.null, Distinct.bool,
      Distinct.string]
  exact ⟨hv, (formatFindings_eq_nil_iff hv).mp (by decide +kernel)⟩

end Document

end Sideload
