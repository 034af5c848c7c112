import Sideload.Proofs.Json.Distinct
import Sideload.Proofs.Lists.Related
import Sideload.Schema

/-! # What schemas find and describe

A schema finds something wrong with a value exactly if the value is not valid
(`Schema.findings_eq_nil_iff`), keyword by keyword.

A schema describes the values with some property (`Schema.Describes`) if these are valid, and no
others are among the values whose names do not repeat. What a schema that is made of others
describes is read off what those describe. -/

namespace Sideload.Schema

/-! ### Members by name -/

theorem isValidNamed_eq (named : Fields Schema) (key : String) (v : Json) :
    isValidNamed named key v = (Fields.get? named key).map fun s => s.isValid v := by
  induction named with
  | nil => rfl
  | cons field named ih =>
    obtain ⟨name, s⟩ := field
    rw [isValidNamed, Fields.get?, ih]
    split <;> rfl

theorem findingsNamed_eq (named : Fields Schema) (key path : String) (v : Json) :
    findingsNamed named key path v = (Fields.get? named key).map fun s => s.findings path v := by
  induction named with
  | nil => rfl
  | cons field named ih =>
    obtain ⟨name, s⟩ := field
    rw [findingsNamed, Fields.get?, ih]
    split <;> rfl

theorem unexpected_eq_nil_iff {path : String} {names : List String} :
    unexpected path names = [] ↔ names = [] := by
  cases names <;> simp [unexpected]

theorem unnamed_eq_nil_iff {named : Fields Schema} {ms : Fields Json} :
    unnamed named ms = [] ↔ ∀ m ∈ ms, m.1 ∈ Fields.keys named := by
  simp [unnamed, Fields.keys]

/-! ### Findings -/

mutual

/-- **Nothing is found wrong with valid values, and something with all others.** -/
theorem findings_eq_nil_iff : ∀ (s : Schema) (path : String) (v : Json),
    s.findings path v = [] ↔ s.isValid v = true
  | type kind, path, v => by simp [findings, isValid]
  | required names, path, v => by
    cases v <;> simp [findings, isValid, List.filter_eq_nil_iff, Option.isSome_iff_ne_none]
  | members named others, path, v => by
    cases v with
    | object ms =>
      have hmember : ∀ m ∈ ms, (isValidNamed named m.1 m.2).getD (isValidOther others m.2) = true ↔
          (findingsNamed named m.1 (Json.Place.member path m.1) m.2).getD
            (findingsOther others (Json.Place.member path m.1) m.2) = [] ∧
          (others = none → m.1 ∈ Fields.keys named) := by
        intro m _
        rw [isValidNamed_eq, findingsNamed_eq, ← Fields.isSome_get?_iff]
        cases hs : Fields.get? named m.1 with
        | none => simp [← findingsOther_eq_nil_iff others (Json.Place.member path m.1) m.2]
        | some s => simp [findings_eq_nil_iff_of_get? hs]
      have hothers : (if others.isNone then unexpected path (unnamed named ms) else []) = [] ↔
          ∀ m ∈ ms, others = none → m.1 ∈ Fields.keys named := by
        cases others with
        | none =>
          rw [Option.isNone_none, if_pos rfl, unexpected_eq_nil_iff, unnamed_eq_nil_iff]
          simp
        | some s => simp
      rw [findings, isValid, List.append_eq_nil_iff, List.flatMap_eq_nil_iff, List.all_eq_true,
        forall₂_congr hmember, hothers]
      simp only [imp_and, forall_and]
    | _ => simp [findings, isValid]
  | items item, path, v => by
    cases v with
    | array vs =>
      rw [findings, isValid, List.flatMap_eq_nil_iff, List.all_eq_true,
        ← forall_mem_zipIdx_iff fun v => item.isValid v = true]
      exact forall₂_congr fun e _ => findings_eq_nil_iff item (Json.Place.item path e.2) e.1
    | _ => simp [findings, isValid]
  | not s, path, v => by simp [findings, isValid]
  | anyOf ways, path, v => by simp [findings, isValid, Nat.pos_iff_ne_zero]
  | oneOf ways, path, v => by
    rw [findings, isValid, decide_eq_true_iff]
    split
    · next h => simp [h]
    · split
      · next h => simp [h]
      · next h => simp [h]
  | all keywords, path, v => by
    rw [findings, isValid]
    exact findingsAll_eq_nil_iff keywords path v
  | ref _ s, path, v => by
    rw [findings, isValid]
    exact findings_eq_nil_iff s path v

theorem findings_eq_nil_iff_of_get? : ∀ {named : Fields Schema} {key : String} {s : Schema},
    Fields.get? named key = some s → ∀ (path : String) (v : Json),
      s.findings path v = [] ↔ s.isValid v = true
  | [], _, _, h, _, _ => nomatch h
  | (name, s) :: named, key, s', h, path, v => by
    rw [Fields.get?] at h
    split at h
    · rw [← Option.some.inj h]
      exact findings_eq_nil_iff s path v
    · exact findings_eq_nil_iff_of_get? h path v

theorem findingsOther_eq_nil_iff : ∀ (others : Option Schema) (path : String) (v : Json),
    findingsOther others path v = [] ∧ others ≠ none ↔ isValidOther others v = true
  | none, _, _ => by simp [findingsOther, isValidOther]
  | some s, path, v => by
    rw [findingsOther, isValidOther, findings_eq_nil_iff s path v]
    simp

theorem findingsAll_eq_nil_iff : ∀ (keywords : List Schema) (path : String) (v : Json),
    findingsAll keywords path v = [] ↔ isValidAll keywords v = true
  | [], _, _ => by simp [findingsAll, isValidAll]
  | s :: keywords, path, v => by
    rw [findingsAll, isValidAll, List.append_eq_nil_iff, Bool.and_eq_true,
      findings_eq_nil_iff s path v, findingsAll_eq_nil_iff keywords path v]

end

/-! ### Descriptions -/

/-- The values with a property are valid, and of the values without repeated names no others. -/
structure Describes (s : Schema) (P : Json → Prop) : Prop where
  valid : ∀ {v : Json}, P v → s.isValid v = true
  of_valid : ∀ {v : Json}, v.Distinct → s.isValid v = true → P v

section Describes
variable {s : Schema} {P Q : Json → Prop}

theorem Describes.congr (h : s.Describes P) (hiff : ∀ v, P v ↔ Q v) : s.Describes Q where
  valid hv := h.valid ((hiff _).mpr hv)
  of_valid hdistinct hvalid := (hiff _).mp (h.of_valid hdistinct hvalid)

theorem Describes.ref (name : String) (h : s.Describes P) : (ref name s).Describes P where
  valid hv := by
    rw [isValid]
    exact h.valid hv
  of_valid hdistinct hvalid := by
    rw [isValid] at hvalid
    exact h.of_valid hdistinct hvalid

theorem describes_string : (type .string).Describes fun v => ∃ text, v = .string text where
  valid := by
    rintro _ ⟨text, rfl⟩
    rfl
  of_valid {v} _ hvalid := by
    cases v with
    | string text => exact ⟨text, rfl⟩
    | _ => cases hvalid

/-- Arrays of what a schema describes. -/
theorem Describes.array (h : s.Describes P) :
    (all [type .array, items s]).Describes fun v => ∃ vs, v = .array vs ∧ ∀ w ∈ vs, P w where
  valid := by
    rintro _ ⟨vs, rfl, hall⟩
    simp only [isValid, isValidAll, Json.kind, decide_true, Bool.and_true, Bool.true_and,
      List.all_eq_true]
    exact fun w hw => h.valid (hall w hw)
  of_valid {v} hdistinct hvalid := by
    cases v with
    | array vs =>
      simp only [isValid, isValidAll, Json.kind, decide_true, Bool.and_true, Bool.true_and,
        List.all_eq_true] at hvalid
      exact ⟨vs, rfl, fun w hw => h.of_valid (hdistinct.of_mem_array hw) (hvalid w hw)⟩
    | _ => cases hvalid

end Describes

end Sideload.Schema
