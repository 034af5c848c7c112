import Sideload.Proofs.Fields.Related
import Sideload.Proofs.Json.Distinct

/-! # The order of members

Two JSON values are the same up to the order of members (`Json.Reordered`) if one becomes the other
when the members of objects change places, at any depth. The lemmas tell what a value is if it is
reordered from one of a known shape. -/

namespace Sideload.Json

/-- The same value up to the order of members: items stand in place, members may change places. -/
inductive Reordered : Json → Json → Prop where
  | refl (v : Json) : Reordered v v
  | array {vs ws : List Json} (items : List.Forall₂ Reordered vs ws) :
    Reordered (.array vs) (.array ws)
  | object {members entries others : Fields Json} (perm : members.Perm entries)
    (values : List.Forall₂ (Fields.Named Reordered) entries others) :
    Reordered (.object members) (.object others)

/-- Members change places, and each keeps its value. -/
theorem Reordered.of_perm {members others : Fields Json} (h : members.Perm others) :
    Reordered (.object members) (.object others) :=
  .object h (List.forall₂_same.mpr fun ⟨name, v⟩ _ => ⟨name, .refl v⟩)

theorem reordered_null_iff {v : Json} : v.Reordered .null ↔ v = .null :=
  ⟨fun h => by cases h; rfl, fun h => h ▸ .refl _⟩

theorem reordered_string_iff {v : Json} {s : String} : v.Reordered (.string s) ↔ v = .string s :=
  ⟨fun h => by cases h; rfl, fun h => h ▸ .refl _⟩

theorem reordered_array_iff {v : Json} {ws : List Json} :
    v.Reordered (.array ws) ↔ ∃ vs, v = .array vs ∧ List.Forall₂ Reordered vs ws := by
  constructor
  · rintro (_ | hitems | _)
    · exact ⟨ws, rfl, List.forall₂_same.mpr fun w _ => .refl w⟩
    · exact ⟨_, rfl, hitems⟩
  · rintro ⟨vs, rfl, hitems⟩
    exact .array hitems

theorem reordered_object_iff {v : Json} {others : Fields Json} : v.Reordered (.object others) ↔
    ∃ members entries : Fields Json, v = .object members ∧ members.Perm entries ∧
      List.Forall₂ (Fields.Named Reordered) entries others := by
  constructor
  · rintro (_ | _ | ⟨hperm, hvalues⟩)
    · exact ⟨others, others, rfl, .refl _, List.forall₂_same.mpr fun ⟨name, w⟩ _ => ⟨name, .refl w⟩⟩
    · exact ⟨_, _, rfl, hperm, hvalues⟩
  · rintro ⟨members, entries, rfl, hperm, hvalues⟩
    exact .object hperm hvalues

/-- Names that do not repeat before members change places do not repeat afterwards. -/
theorem Distinct.of_reordered {v : Json} (hv : v.Distinct) :
    ∀ {w : Json}, v.Reordered w → w.Distinct := by
  induction hv with
  | null => rintro _ ⟨⟩; exact .null
  | bool b => rintro _ ⟨⟩; exact .bool b
  | number n => rintro _ ⟨⟩; exact .number n
  | string s => rintro _ ⟨⟩; exact .string s
  | array hitems ih =>
    rintro _ (_ | hvalues | _)
    · exact .array hitems
    · refine .array fun w hw => ?_
      obtain ⟨v, hv, hvw⟩ := exists_of_mem_right hvalues hw
      exact ih v hv hvw
  | object hnames hmembers ih =>
    rintro _ (_ | _ | ⟨hperm, hvalues⟩)
    · exact .object hnames hmembers
    · refine .object ?_ fun member hm => ?_
      · unfold Fields.Distinct
        rw [← Fields.Named.keys_eq hvalues]
        exact (hperm.map Prod.fst).nodup_iff.mp hnames
      · obtain ⟨entry, hentry, ⟨_, hvw⟩⟩ := exists_of_mem_right hvalues hm
        exact ih _ (hperm.mem_iff.mpr hentry) hvw

end Sideload.Json
