import Mathlib.Data.List.Induction
import Sideload.Proofs.Fields.FirstWins

/-! # Unions and selections

Lists of fields are joined by `union` as lists are by an append that drops the names which are there
already: it is associative (`union_assoc`), with the empty list on both sides neutral. `select`
takes lists of names over to it: to select the names of one list and then those of another is to
take the union of both selections (`select_append`). So names that have been selected can be named
again (`select_append_of_subset`).

What a selection holds is told by its names, each at its first mention (`keys_select`), and by the
values, which are those of the fields it was taken from (`get?_select`). -/

namespace Sideload.Fields

variable {κ α : Type} [DecidableEq κ]

/-! ### Unions -/

theorem mem_keys_union_iff {fs gs : Entries κ α} {name : κ} :
    name ∈ keys (union fs gs) ↔ name ∈ keys fs ∨ name ∈ keys gs := by
  rw [← isSome_get?_iff, ← isSome_get?_iff, ← isSome_get?_iff, get?_union, Option.isSome_or,
    Bool.or_eq_true]

theorem union_insertIfNew (fs gs : Entries κ α) (name : κ) (v : α) :
    union fs (insertIfNew gs name v) = insertIfNew (union fs gs) name v := by
  induction gs generalizing fs with
  | nil => rfl
  | cons field gs ih =>
    obtain ⟨k, w⟩ := field
    rw [insertIfNew, union_cons, union_cons]
    split
    · next hk =>
      -- the name is taken by the head of the second list
      have hmem : name ∈ keys (union (insertIfNew fs k w) gs) := by
        rw [← union_cons, mem_keys_union_iff, ← hk]
        exact Or.inr List.mem_cons_self
      rw [insertIfNew_of_mem v hmem]
    · exact ih _

theorem union_assoc (fs gs hs : Entries κ α) : union (union fs gs) hs = union fs (union gs hs) := by
  induction hs generalizing gs with
  | nil => rfl
  | cons field hs ih =>
    obtain ⟨k, v⟩ := field
    rw [union_cons, union_cons, ← union_insertIfNew, ih]

/-! ### Selections -/

/-- One more name adds its field, unless it is there. -/
theorem select_concat (fs : Entries κ α) (names : List κ) (name : κ) :
    select fs (names ++ [name]) = union (select fs names) (select fs [name]) := by
  unfold select
  rw [List.foldl_append, List.foldl_cons, List.foldl_nil, List.foldl_cons, List.foldl_nil]
  cases get? fs name <;> rfl

/-- **Selections are joined by unions.** -/
theorem select_append (fs : Entries κ α) (names more : List κ) :
    select fs (names ++ more) = union (select fs names) (select fs more) := by
  induction more using List.reverseRecOn with
  | nil => rw [List.append_nil]; rfl
  | append_singleton more name ih =>
    rw [← List.append_assoc, select_concat, ih, select_concat fs more, union_assoc]

theorem mem_keys_select_iff {fs : Entries κ α} {names : List κ} {name : κ} :
    name ∈ keys (select fs names) ↔ name ∈ names ∧ name ∈ keys fs := by
  rw [← isSome_get?_iff, ← isSome_get?_iff, get?_select]
  by_cases h : name ∈ names <;> simp [h]

/-- Names that are named already select nothing more. -/
theorem select_append_of_subset {fs : Entries κ α} {names more : List κ}
    (h : ∀ name ∈ more, name ∈ names) : select fs (names ++ more) = select fs names := by
  rw [select_append]
  refine union_of_subset fun name hname => ?_
  obtain ⟨hmore, hkeys⟩ := mem_keys_select_iff.mp hname
  exact mem_keys_select_iff.mpr ⟨h name hmore, hkeys⟩

theorem keys_select_singleton (fs : Entries κ α) (name : κ) :
    keys (select fs [name]) = if name ∈ keys fs then [name] else [] := by
  unfold select
  rw [List.foldl_cons, List.foldl_nil]
  cases h : get? fs name with
  | none => rw [if_neg (get?_eq_none_iff.mp h)]; rfl
  | some v => rw [if_pos (isSome_get?_iff.mp (Option.isSome_iff_exists.mpr ⟨v, h⟩))]; rfl

/-- **What is selected** are the names that are there, each at its first mention. -/
theorem keys_select (fs : Entries κ α) (names : List κ) :
    keys (select fs names) = names.eraseDups.filter fun name => name ∈ keys fs := by
  induction names using List.reverseRecOn with
  | nil => rw [List.eraseDups_nil]; rfl
  | append_singleton names name ih =>
    rw [eraseDups_concat]
    by_cases hnamed : name ∈ names
    · rw [if_pos hnamed, ← ih, select_append_of_subset (List.forall_mem_singleton.mpr hnamed)]
    · have hnew : name ∉ keys (select fs names) := fun h => hnamed (mem_keys_select_iff.mp h).1
      rw [if_neg hnamed, List.filter_append, ← ih, select_append,
        keys_union (distinct_select fs names), keys_select_singleton, List.filter_singleton]
      by_cases hname : name ∈ keys fs
      · rw [if_pos hname, decide_eq_true hname, eraseDups_concat, if_neg hnew,
          eraseDups_of_nodup (distinct_select fs names)]
        rfl
      · rw [if_neg hname, decide_eq_false hname, List.append_nil,
          eraseDups_of_nodup (distinct_select fs names)]
        exact (List.append_nil _).symm

end Sideload.Fields
