import Sideload.Proofs.Json.Walks

/-! # Names that do not repeat

No object of a JSON value names two members alike, at any depth (`Json.Distinct`). Whatever is read
from a text is so (`distinct_of_read`): containers inherit it from their parts. -/

namespace Sideload.Json

/-- No object names a member twice. -/
inductive Distinct : Json → Prop where
  | null : Distinct .null
  | bool (b : Bool) : Distinct (.bool b)
  | number (n : Number) : Distinct (.number n)
  | string (s : String) : Distinct (.string s)
  | array {items : List Json} (values : ∀ v ∈ items, Distinct v) : Distinct (.array items)
  | object {members : Fields Json} (names : Fields.Distinct members)
      (values : ∀ member ∈ members, Distinct member.2) : Distinct (.object members)

@[simp] theorem distinct_array_iff {items : List Json} :
    (array items).Distinct ↔ ∀ v ∈ items, v.Distinct := by
  constructor
  · rintro (_ | _ | _ | _ | hitems)
    exact hitems
  · exact .array

@[simp] theorem distinct_object_iff {members : Fields Json} : (object members).Distinct ↔
    Fields.Distinct members ∧ ∀ member ∈ members, member.2.Distinct := by
  constructor
  · rintro (_ | _ | _ | _ | _ | ⟨hnames, hvalues⟩)
    exact ⟨hnames, hvalues⟩
  · exact fun ⟨hnames, hvalues⟩ => .object hnames hvalues

namespace Distinct

theorem of_mem_array {items : List Json} (h : (Json.array items).Distinct) {v : Json}
    (hv : v ∈ items) : v.Distinct :=
  distinct_array_iff.mp h v hv

theorem names_object {members : Fields Json} (h : (Json.object members).Distinct) :
    Fields.Distinct members :=
  (distinct_object_iff.mp h).1

theorem of_mem_object {members : Fields Json} (h : (Json.object members).Distinct)
    {member : String × Json} (hm : member ∈ members) : member.2.Distinct :=
  (distinct_object_iff.mp h).2 member hm

end Distinct

/-! ### What is read -/

theorem inherited_distinct : Inherited fun _ v => v.Distinct where
  scalar h _ := by
    obtain rfl | ⟨b, rfl⟩ | ⟨s, rfl⟩ | ⟨n, rfl, -⟩ := cases_of_readScalar h
    exacts [.null, .bool b, .string s, .number n]
  array := .array
  object := .object

/-- **Whatever is read names no member twice.** -/
theorem distinct_of_read {text : String} {v : Json} (h : read text = .ok v) : v.Distinct :=
  inherited_distinct.of_readNested h

end Sideload.Json
