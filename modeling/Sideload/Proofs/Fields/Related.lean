import Sideload.Proofs.Fields.FirstWins
import Sideload.Proofs.Lists.Related

/-! # Fields name by name

Fields of one name may have related values (`Fields.Named`). Two lists of such fields have the same
names (`Fields.Named.keys_eq`), and what is looked up in both is related (`Fields.rel_get?`). Fields
may change places without being noticed, if no name occurs twice (`Fields.Distinct.get?_of_perm`).
-/

namespace Sideload

variable {κ α β : Type}

/-- Two fields of one name whose values are related. -/
inductive Fields.Named (R : α → β → Prop) : κ × α → κ × β → Prop where
  | intro (name : κ) {v : α} {w : β} (value : R v w) : Named R (name, v) (name, w)

theorem Fields.Named.keys_eq {R : α → β → Prop} {fs : Entries κ α} {gs : Entries κ β}
    (h : List.Forall₂ (Named R) fs gs) : keys fs = keys gs := by
  induction h with
  | nil => rfl
  | cons hfield _ ih =>
    obtain ⟨name, -⟩ := hfield
    exact congrArg (name :: ·) ih

variable [DecidableEq κ]

/-- The fields of a second list that has all the names of the first stand in the first list in some
order. -/
theorem Fields.Distinct.perm_of_subset {fs gs : Entries κ α} (hfs : Distinct fs)
    (hgs : Distinct gs) (hsubset : ∀ field ∈ gs, field ∈ fs)
    (hkeys : ∀ name ∈ keys fs, name ∈ keys gs) : fs.Perm gs := by
  rw [List.perm_ext_iff_of_nodup hfs.of_map hgs.of_map]
  rintro ⟨name, v⟩
  refine ⟨fun hv => ?_, hsubset _⟩
  obtain ⟨w, hw⟩ := exists_mem_of_mem_keys (hkeys name (mem_keys_of_mem hv))
  have hsame := (hfs.get?_of_mem hv).symm.trans (hfs.get?_of_mem (hsubset _ hw))
  rwa [Option.some.inj hsame]

/-- Fields that change places keep their values. -/
theorem Fields.Distinct.get?_of_perm {fs gs : Entries κ α} (hfs : Distinct fs)
    (h : fs.Perm gs) (name : κ) : get? fs name = get? gs name := by
  cases hgs : get? gs name with
  | none =>
    rw [get?_eq_none_iff] at hgs ⊢
    exact fun hname => hgs ((h.map Prod.fst).mem_iff.mp hname)
  | some v => exact hfs.get?_of_mem (h.mem_iff.mpr (mem_of_get? hgs))

/-- Fields of related values have related lookups. -/
theorem Fields.rel_get? {R : α → β → Prop} {fs : Entries κ α} {gs : Entries κ β}
    (h : List.Forall₂ (fun f g => f.1 = g.1 ∧ R f.2 g.2) fs gs) (name : κ) :
    Option.Rel R (get? fs name) (get? gs name) := by
  induction h with
  | nil => exact .none
  | @cons f g fs gs hfield _ ih =>
    obtain ⟨k, v⟩ := f
    obtain ⟨k', w⟩ := g
    obtain ⟨rfl, hvalue⟩ := hfield
    rw [get?, get?]
    split
    · exact .some hvalue
    · exact ih

end Sideload
