import Sideload.Fields
import Sideload.Proofs.Lists.FirstOccurrences

/-! # The first wins

What comes of several lists of fields when the first one that has a name gives its value
(`Fields.FirstWins`): each name is there once, where it first occurs. Taking unions one after the
other does this (`firstWins_foldl_union`), since it is one union with the concatenation of all
later lists (`foldl_union`).

A union with fields whose names are all there changes nothing (`union_of_subset`), and names can be
left out before a union as well as after it (`restrict_union`). -/

namespace Sideload.Fields

variable {κ α β : Type}

/-! ### Names -/

theorem mem_keys_of_mem {fs : Entries κ α} {name : κ} {v : α} (h : (name, v) ∈ fs) :
    name ∈ keys fs :=
  List.mem_map_of_mem h

theorem exists_mem_of_mem_keys {fs : Entries κ α} {name : κ} (h : name ∈ keys fs) :
    ∃ v, (name, v) ∈ fs := by
  obtain ⟨⟨_, v⟩, hv, rfl⟩ := List.mem_map.mp h
  exact ⟨v, hv⟩

theorem keys_mapValues (f : α → β) (fs : Entries κ α) : keys (mapValues f fs) = keys fs := by
  unfold keys mapValues
  rw [List.map_map]
  rfl

theorem Distinct.filter {fs : Entries κ α} (h : Distinct fs) (p : κ × α → Bool) :
    Distinct (fs.filter p) :=
  List.Nodup.sublist (List.filter_sublist.map Prod.fst) h

/-- The fields whose names have a property. -/
def restrict (q : κ → Bool) (fs : Entries κ α) : Entries κ α := fs.filter fun field => q field.1

theorem keys_restrict (q : κ → Bool) (fs : Entries κ α) :
    keys (restrict q fs) = (keys fs).filter q := by
  unfold keys restrict
  rw [List.filter_map]
  rfl

variable [DecidableEq κ]

/-- Each name once, in the order of the first occurrences, with the value of the first list that
has it. -/
structure FirstWins (merged : Entries κ α) (lists : List (Entries κ α)) : Prop where
  keys_eq : keys merged = (lists.flatMap keys).eraseDups
  get?_eq : ∀ name, get? merged name = lists.findSome? fun fs => get? fs name

instance (fs : Entries κ α) : Decidable (Distinct fs) := inferInstanceAs (Decidable (keys fs).Nodup)

/-! ### Names and values -/

theorem isSome_get?_iff {fs : Entries κ α} {name : κ} :
    (get? fs name).isSome = true ↔ name ∈ keys fs := by
  rw [← not_iff_not, ← get?_eq_none_iff, Bool.not_eq_true, Option.isSome_eq_false_iff,
    Option.isNone_iff_eq_none]

theorem get?_append (fs gs : Entries κ α) (name : κ) :
    get? (fs ++ gs) name = (get? fs name).or (get? gs name) := by
  induction fs with
  | nil => rfl
  | cons field fs ih =>
    obtain ⟨k, v⟩ := field
    rw [List.cons_append, get?, get?, ih]
    split <;> rfl

theorem get?_flatten (lists : List (Entries κ α)) (name : κ) :
    get? lists.flatten name = lists.findSome? fun fs => get? fs name := by
  induction lists with
  | nil => rfl
  | cons fs lists ih =>
    rw [List.flatten_cons, get?_append, ih, List.findSome?_cons]
    cases get? fs name <;> rfl

theorem insert_of_not_mem {fs : Entries κ α} {name : κ} (v : α) (h : name ∉ keys fs) :
    insert fs name v = fs ++ [(name, v)] := by
  induction fs with
  | nil => rfl
  | cons field fs ih =>
    obtain ⟨k, w⟩ := field
    obtain ⟨hk, hrest⟩ := not_or.mp (mt List.mem_cons.mpr h)
    rw [insert, if_neg (Ne.symm hk), ih hrest, List.cons_append]

theorem mem_insert {fs : Entries κ α} {name : κ} {v : α} {field : κ × α}
    (h : field ∈ insert fs name v) : field ∈ fs ∨ field = (name, v) := by
  induction fs with
  | nil => exact Or.inr (List.mem_singleton.mp h)
  | cons head fs ih =>
    rw [insert] at h
    split at h
    · next hk =>
      rcases List.mem_cons.mp h with rfl | h
      · exact Or.inr (by rw [hk])
      · exact Or.inl (List.mem_cons_of_mem _ h)
    · rcases List.mem_cons.mp h with rfl | h
      · exact Or.inl List.mem_cons_self
      · exact (ih h).imp_left (List.mem_cons_of_mem _)

theorem get?_mapValues (f : α → β) (fs : Entries κ α) (name : κ) :
    get? (mapValues f fs) name = (get? fs name).map f := by
  induction fs with
  | nil => rfl
  | cons field fs ih =>
    obtain ⟨k, v⟩ := field
    show get? ((k, f v) :: mapValues f fs) name = _
    rw [get?, get?, ih]
    split <;> rfl

theorem mem_of_get? {fs : Entries κ α} {name : κ} {v : α} (h : get? fs name = some v) :
    (name, v) ∈ fs := by
  induction fs with
  | nil => cases h
  | cons field fs ih =>
    obtain ⟨k, w⟩ := field
    rw [get?] at h
    split at h
    · next hk =>
      rw [hk, Option.some.inj h]
      exact List.mem_cons_self
    · exact List.mem_cons_of_mem _ (ih h)

theorem Distinct.get?_of_mem {fs : Entries κ α} (h : Distinct fs) {name : κ} {v : α}
    (hm : (name, v) ∈ fs) : get? fs name = some v := by
  induction fs with
  | nil => cases hm
  | cons field fs ih =>
    obtain ⟨k, w⟩ := field
    obtain ⟨hk, hrest⟩ := List.nodup_cons.mp h
    rw [get?]
    rcases List.mem_cons.mp hm with he | hm
    · cases he
      exact if_pos rfl
    · have hne : k ≠ name := fun e => hk (e ▸ mem_keys_of_mem hm)
      rw [if_neg hne, ih hrest hm]

/-- Only one field has the name. -/
theorem Distinct.filter_of_mem {fs : Entries κ α} (h : Distinct fs) {name : κ} {v : α}
    (hm : (name, v) ∈ fs) : fs.filter (fun field => field.1 = name) = [(name, v)] := by
  induction fs with
  | nil => cases hm
  | cons field fs ih =>
    obtain ⟨k, w⟩ := field
    obtain ⟨hk, hrest⟩ := List.nodup_cons.mp h
    rcases List.mem_cons.mp hm with he | hm
    · cases he
      have hnone : fs.filter (fun field => field.1 = name) = [] :=
        List.filter_eq_nil_iff.mpr fun other hother he =>
          hk (List.mem_map.mpr ⟨other, hother, of_decide_eq_true he⟩)
      rw [List.filter_cons_of_pos (by simp), hnone]
    · have hne : k ≠ name := fun e => hk (e ▸ mem_keys_of_mem hm)
      rw [List.filter_cons_of_neg (by simpa using hne), ih hrest hm]

/-! ### Unions -/

theorem union_cons (fs gs : Entries κ α) (name : κ) (v : α) :
    union fs ((name, v) :: gs) = union (insertIfNew fs name v) gs := rfl

theorem get?_union {fs : Entries κ α} (gs : Entries κ α) (name : κ) :
    get? (union fs gs) name = (get? fs name).or (get? gs name) := by
  induction gs generalizing fs with
  | nil => exact (Option.or_none).symm
  | cons field gs ih =>
    obtain ⟨k, v⟩ := field
    rw [union_cons, ih, get?_insertIfNew, Option.or_assoc, get?]
    split <;> rfl

theorem keys_union {fs : Entries κ α} (h : Distinct fs) (gs : Entries κ α) :
    keys (union fs gs) = (keys fs ++ keys gs).eraseDups := by
  induction gs generalizing fs with
  | nil =>
    show keys fs = (keys fs ++ []).eraseDups
    rw [List.append_nil, eraseDups_of_nodup h]
  | cons field gs ih =>
    obtain ⟨k, v⟩ := field
    rw [union_cons, ih (h.insertIfNew k v), keys_insertIfNew]
    split
    · next hk =>
      -- the repeated name is dropped behind the first list
      show _ = (keys fs ++ k :: keys gs).eraseDups
      rw [List.eraseDups_append, List.eraseDups_append]
      simp [List.removeAll, hk]
    · rw [List.append_assoc]
      rfl

theorem insertIfNew_of_mem {fs : Entries κ α} {name : κ} (v : α) (h : name ∈ keys fs) :
    insertIfNew fs name v = fs := by
  induction fs with
  | nil => cases h
  | cons field fs ih =>
    obtain ⟨k, w⟩ := field
    rw [insertIfNew]
    split
    · rfl
    · next hk =>
      rcases List.mem_cons.mp h with rfl | h
      · exact absurd rfl hk
      · rw [ih h]

theorem insertIfNew_of_not_mem {fs : Entries κ α} {name : κ} (v : α) (h : name ∉ keys fs) :
    insertIfNew fs name v = fs ++ [(name, v)] := by
  induction fs with
  | nil => rfl
  | cons field fs ih =>
    obtain ⟨k, w⟩ := field
    obtain ⟨hk, hrest⟩ := not_or.mp (mt List.mem_cons.mpr h)
    rw [insertIfNew, if_neg (Ne.symm hk), ih hrest, List.cons_append]

/-- Names that are all there already change nothing. -/
theorem union_of_subset {fs gs : Entries κ α} (h : ∀ name ∈ keys gs, name ∈ keys fs) :
    union fs gs = fs := by
  induction gs with
  | nil => rfl
  | cons field gs ih =>
    rw [union_cons, insertIfNew_of_mem _ (h _ List.mem_cons_self)]
    exact ih fun name hname => h name (List.mem_cons_of_mem _ hname)

theorem foldl_union_of_subset {fs : Entries κ α} {lists : List (Entries κ α)}
    (h : ∀ gs ∈ lists, ∀ name ∈ keys gs, name ∈ keys fs) : lists.foldl union fs = fs := by
  induction lists with
  | nil => rfl
  | cons gs lists ih =>
    rw [List.foldl_cons, union_of_subset (h gs List.mem_cons_self)]
    exact ih fun hs hmem => h hs (List.mem_cons_of_mem _ hmem)

/-- Unions one after the other are one union with all later fields. -/
theorem foldl_union (fs : Entries κ α) (lists : List (Entries κ α)) :
    lists.foldl union fs = union fs lists.flatten :=
  List.foldl_flatten.symm

theorem get?_foldl_union (fs : Entries κ α) (lists : List (Entries κ α)) (name : κ) :
    get? (lists.foldl union fs) name = (fs :: lists).findSome? fun gs => get? gs name := by
  rw [foldl_union, get?_union, get?_flatten, List.findSome?_cons]
  cases get? fs name <;> rfl

theorem Distinct.union {fs : Entries κ α} (h : Distinct fs) (gs : Entries κ α) :
    Distinct (union fs gs) := by
  unfold Distinct
  rw [keys_union h]
  exact nodup_eraseDups _

theorem Distinct.foldl_union {fs : Entries κ α} (h : Distinct fs) (lists : List (Entries κ α)) :
    Distinct (lists.foldl Fields.union fs) := by
  rw [Fields.foldl_union]
  exact h.union _

theorem mem_foldl_union {fs : Entries κ α} {lists : List (Entries κ α)} {field : κ × α}
    (h : field ∈ lists.foldl union fs) : ∃ gs ∈ fs :: lists, field ∈ gs := by
  rw [foldl_union] at h
  rcases mem_union h with h | h
  · exact ⟨fs, List.mem_cons_self, h⟩
  · obtain ⟨gs, hgs, h⟩ := List.mem_flatten.mp h
    exact ⟨gs, List.mem_cons_of_mem _ hgs, h⟩

theorem mem_keys_foldl_union_iff {fs : Entries κ α} {lists : List (Entries κ α)} {name : κ} :
    name ∈ keys (lists.foldl union fs) ↔ ∃ gs ∈ fs :: lists, name ∈ keys gs := by
  simp only [← isSome_get?_iff, get?_foldl_union, List.findSome?_isSome_iff]

/-- **Unions one after the other let the first win.** -/
theorem firstWins_foldl_union {fs : Entries κ α} (h : Distinct fs) (lists : List (Entries κ α)) :
    FirstWins (lists.foldl union fs) (fs :: lists) where
  keys_eq := by
    rw [foldl_union, keys_union h, List.flatMap_cons, keys, keys, List.map_flatten]
    rfl
  get?_eq := get?_foldl_union fs lists

/-! ### Names that are left out -/

theorem restrict_insertIfNew (q : κ → Bool) (fs : Entries κ α) (name : κ) (v : α) :
    restrict q (insertIfNew fs name v) =
      if q name then insertIfNew (restrict q fs) name v else restrict q fs := by
  by_cases hmem : name ∈ keys fs
  · rw [insertIfNew_of_mem v hmem]
    split
    · next hq =>
      rw [insertIfNew_of_mem v]
      rw [keys_restrict]
      exact List.mem_filter.mpr ⟨hmem, hq⟩
    · rfl
  · have hrestrict : name ∉ keys (restrict q fs) := by
      rw [keys_restrict]
      exact fun h => hmem (List.mem_filter.mp h).1
    rw [insertIfNew_of_not_mem v hmem, insertIfNew_of_not_mem v hrestrict]
    unfold restrict
    rw [List.filter_append, List.filter_singleton]
    cases q name <;> simp

/-- It makes no difference whether names are left out before a union or after it. -/
theorem restrict_union (q : κ → Bool) (fs gs : Entries κ α) :
    restrict q (union fs gs) = union (restrict q fs) (restrict q gs) := by
  induction gs generalizing fs with
  | nil => rfl
  | cons field gs ih =>
    obtain ⟨k, v⟩ := field
    rw [union_cons, ih, restrict_insertIfNew]
    unfold restrict
    rw [List.filter_cons]
    split <;> rfl

/-! ### Selected fields -/

/-- Steps that each add what one name has in `fs`, unless it is there. -/
theorem get?_foldl_of_step {fs : Entries κ α} {name : κ} {step : Entries κ α → κ → Entries κ α}
    (hstep : ∀ acc other, get? (step acc other) name =
      (get? acc name).or (if other = name then get? fs other else none))
    (names : List κ) (acc : Entries κ α) : get? (names.foldl step acc) name =
      (get? acc name).or (if name ∈ names then get? fs name else none) := by
  induction names generalizing acc with
  | nil => exact Option.or_none.symm
  | cons other names ih =>
    rw [List.foldl_cons, ih, hstep, Option.or_assoc]
    by_cases h : other = name
    · subst h
      rw [if_pos rfl, if_pos List.mem_cons_self]
      split
      · rw [Option.or_self]
      · rw [Option.or_none]
    · have hmem : name ∈ other :: names ↔ name ∈ names := by
        rw [List.mem_cons, or_iff_right (Ne.symm h)]
      rw [if_neg h, Option.none_or, if_congr hmem rfl rfl]

theorem get?_select (fs : Entries κ α) (names : List κ) (name : κ) :
    get? (select fs names) name = if name ∈ names then get? fs name else none := by
  unfold select
  rw [get?_foldl_of_step fun acc other => ?_]
  · exact Option.none_or
  · cases get? fs other with
    | none => rw [ite_self, Option.or_none]
    | some v => exact get?_insertIfNew acc other v name

theorem distinct_select (fs : Entries κ α) (names : List κ) : Distinct (select fs names) := by
  unfold select
  refine List.foldlRecOn names _ List.nodup_nil fun acc hacc name _ => ?_
  split
  · exact hacc.insertIfNew name _
  · exact hacc

/-- Whatever is selected was there. -/
theorem mem_of_mem_select {fs : Entries κ α} {names : List κ} {field : κ × α}
    (h : field ∈ select fs names) : field ∈ fs := by
  have hget : get? (select fs names) field.1 = some field.2 :=
    (distinct_select fs names).get?_of_mem h
  rw [get?_select] at hget
  split at hget
  · exact mem_of_get? hget
  · cases hget

end Sideload.Fields
