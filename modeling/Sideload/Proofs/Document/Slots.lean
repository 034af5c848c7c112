import Mathlib.Data.List.Nodup
import Sideload.Document.Assembly

/-! # Slots

While a document is made, the slots tell exactly where each identity stands (`Assembly.Exact`):
every identity of the document has a slot, every slot holds its identity, and so no identity
stands twice. Meeting a resource keeps this (`Exact.meet`).

* `pointers_foldl_meet`: meeting resources one after the other puts their new identities behind
  those that a part already has, in the order of their first occurrence; nothing else moves.
* `mem_linked_foldl_meet`: the document links nothing but what the resources link that were met. -/

namespace Sideload

namespace Document

/-- The identities in a part of a document, in order. -/
def pointers (d : Document) (part : Part) : List Pointer := (d.part part).map Resource.pointer

theorem pointers_alter (d : Document) (f : List Resource → List Resource) (p q : Part) :
    (d.alter f p).pointers q =
      if p = q then (f (d.part q)).map Resource.pointer else d.pointers q := by
  unfold pointers
  rw [part_alter]
  split <;> rfl

end Document

open Document

/-- The pointers of a resource's relationships, in order. -/
def Resource.linked (r : Resource) : List Pointer :=
  r.relationships.flatMap fun relationship => relationship.2.pointers

theorem Resource.mem_linked_merge {r s : Resource} {p : Pointer} (h : p ∈ (r.merge s).linked) :
    p ∈ r.linked ∨ p ∈ s.linked := by
  unfold Resource.linked at h ⊢
  obtain ⟨relationship, hm, hp⟩ := List.mem_flatMap.mp h
  rcases Fields.mem_union hm with hm | hm
  · exact Or.inl (List.mem_flatMap.mpr ⟨relationship, hm, hp⟩)
  · exact Or.inr (List.mem_flatMap.mpr ⟨relationship, hm, hp⟩)

namespace Assembly

/-- The slots tell where each identity stands, and where they do not tell, none stands. -/
def Exact (a : Assembly) : Prop :=
  ∀ p slot, a.slot? p = some slot ↔ (a.document.pointers slot.part)[slot.index]? = some p

theorem Exact.empty : Exact {} := by
  intro p slot
  obtain ⟨part, index⟩ := slot
  cases part <;> simp [pointers, Document.part]

/-! ### Merging -/

theorem map_pointer_modify (rs : List Resource) (i : Nat) (r : Resource) :
    (rs.modify i (·.merge r)).map Resource.pointer = rs.map Resource.pointer := by
  refine List.ext_getElem? fun j => ?_
  rw [List.getElem?_map, List.getElem?_map, List.getElem?_modify]
  cases rs[j]? with
  | none => rfl
  | some s => by_cases h : i = j <;> simp [h, Resource.merge]

theorem pointers_merge (a : Assembly) (slot : Slot) (r : Resource) (q : Part) :
    (a.merge slot r).document.pointers q = a.document.pointers q := by
  unfold merge
  rw [pointers_alter, map_pointer_modify]
  split <;> rfl

/-! ### Meeting one resource -/

section Meet
variable {a : Assembly} (ha : a.Exact)
include ha

theorem Exact.isSome_iff (p : Pointer) :
    (a.slot? p).isSome = true ↔ ∃ part, p ∈ a.document.pointers part := by
  rw [Option.isSome_iff_exists]
  constructor
  · rintro ⟨slot, h⟩
    exact ⟨slot.part, List.mem_of_getElem? ((ha p slot).mp h)⟩
  · rintro ⟨part, h⟩
    obtain ⟨i, h⟩ := List.mem_iff_getElem?.mp h
    exact ⟨⟨part, i⟩, (ha p ⟨part, i⟩).mpr h⟩

theorem Exact.isNone_iff (p : Pointer) :
    (a.slot? p).isNone = true ↔ ∀ part, p ∉ a.document.pointers part := by
  rw [← not_exists, ← ha.isSome_iff]
  cases a.slot? p <;> simp

omit ha in
theorem pointers_meet (part : Part) (r : Resource) (q : Part) :
    (a.meet part r).document.pointers q =
      if part = q ∧ (a.slot? r.pointer).isNone = true then a.document.pointers q ++ [r.pointer]
      else a.document.pointers q := by
  unfold meet
  cases h : a.slot? r.pointer with
  | some slot => simp [pointers_merge]
  | none =>
    rw [pointers_alter]
    by_cases hq : part = q <;> simp [hq, pointers]

omit ha in
theorem slot?_meet_isNone (part : Part) (r : Resource) (p : Pointer) :
    ((a.meet part r).slot? p).isNone = true ↔ p ≠ r.pointer ∧ (a.slot? p).isNone = true := by
  unfold meet
  cases h : a.slot? r.pointer with
  | some slot =>
    have hp : (a.slot? p).isNone = true → p ≠ r.pointer := by
      rintro hn rfl
      rw [h] at hn
      cases hn
    exact ⟨fun hn => ⟨hp hn, hn⟩, fun hn => hn.2⟩
  | none => by_cases hp : p = r.pointer <;> simp [hp]

omit ha in
theorem getElem?_concat_eq_some {ps : List Pointer} {new p : Pointer} {i : Nat} :
    (ps ++ [new])[i]? = some p ↔ ps[i]? = some p ∨ (i = ps.length ∧ new = p) := by
  rcases Nat.lt_trichotomy i ps.length with hi | rfl | hi
  · have hne : i ≠ ps.length := Nat.ne_of_lt hi
    simp [List.getElem?_append_left hi, hne]
  · simp
  · have hne : i ≠ ps.length := Nat.ne_of_gt hi
    have hlen : (ps ++ [new]).length ≤ i := by rw [List.length_append]; exact hi
    simp [List.getElem?_eq_none hlen, List.getElem?_eq_none (Nat.le_of_lt hi), hne]

/-- **Meeting a resource keeps the slots exact.** -/
theorem Exact.meet (part : Part) (r : Resource) : (a.meet part r).Exact := by
  intro p ⟨q, i⟩
  rw [pointers_meet]
  cases h : a.slot? r.pointer with
  | some old =>
    have hm : a.meet part r = a.merge old r := by unfold Assembly.meet; rw [h]
    rw [hm, if_neg (by simp)]
    exact ha p ⟨q, i⟩
  | none =>
    have hnew := (ha.isNone_iff r.pointer).mp (by rw [h]; rfl)
    have hs : (a.meet part r).slot? p =
        if p = r.pointer then some ⟨part, (a.document.pointers part).length⟩ else a.slot? p := by
      unfold Assembly.meet pointers; rw [h, List.length_map]
    have hold : ∀ q, (a.document.pointers q)[i]? = some r.pointer → False := fun q he =>
      hnew q (List.mem_of_getElem? he)
    rw [hs]
    by_cases hp : p = r.pointer
    · subst hp
      rw [if_pos rfl]
      by_cases hq : part = q
      · subst hq
        simp only [Option.isNone_none, and_self, if_true, getElem?_concat_eq_some, and_true]
        constructor
        · intro he
          cases he
          exact Or.inr rfl
        · rintro (he | rfl)
          · exact absurd he (hold part)
          · rfl
      · simp only [hq, false_and, if_false]
        constructor
        · intro he
          cases he
          exact absurd rfl hq
        · intro he
          exact absurd he (hold q)
    · rw [if_neg hp, ha p ⟨q, i⟩]
      by_cases hq : part = q
      · subst hq
        simp [getElem?_concat_eq_some, Ne.symm hp]
      · simp [hq]

end Meet

/-! ### Meeting resources one after the other -/

/-- **New identities in order**: they stand behind the old ones of their part, each once, in the
order of their first occurrence. -/
theorem pointers_foldl_meet (part : Part) : ∀ (rs : List Resource) (a : Assembly), a.Exact →
    (rs.foldl (meet part) a).Exact ∧ ∀ q, (rs.foldl (meet part) a).document.pointers q =
      if part = q then a.document.pointers q ++
        ((rs.map Resource.pointer).filter fun p => (a.slot? p).isNone).eraseDups
      else a.document.pointers q
  | [], a, ha => ⟨ha, fun q => by split <;> simp⟩
  | r :: rs, a, ha => by
    obtain ⟨hexact, hpointers⟩ := pointers_foldl_meet part rs (a.meet part r) (ha.meet part r)
    refine ⟨hexact, fun q => ?_⟩
    have hfilter : ∀ ps : List Pointer,
        (ps.filter fun p => ((a.meet part r).slot? p).isNone) =
          (ps.filter fun p => (a.slot? p).isNone).filter fun p => !p == r.pointer := by
      intro ps
      rw [List.filter_filter]
      refine List.filter_congr fun p _ => ?_
      rw [Bool.eq_iff_iff, slot?_meet_isNone]
      simp
    rw [List.foldl_cons, hpointers q, pointers_meet, hfilter, List.map_cons, List.filter_cons]
    by_cases hq : part = q
    · cases hr : (a.slot? r.pointer).isNone with
      | true => simp [hq, List.eraseDups_cons]
      | false =>
        have hsame : ∀ p, (a.slot? p).isNone = true → (!p == r.pointer) = true := by
          intro p hp
          by_cases he : p = r.pointer
          · rw [he, hr] at hp; cases hp
          · simpa using he
        have hid : ∀ ps : List Pointer, ((ps.filter fun p => (a.slot? p).isNone).filter
            fun p => !p == r.pointer) = ps.filter fun p => (a.slot? p).isNone := fun ps =>
          List.filter_eq_self.mpr fun p hp => hsame p (List.mem_filter.mp hp).2
        simp [hq, hid]
    · simp [hq]

/-! ### What a document links -/

/-- The resources of a document in the making link nothing but what they linked before and what
the new resource links. -/
theorem mem_linked_meet {part q : Part} {a : Assembly} {r s : Resource} {p : Pointer}
    (hs : s ∈ (a.meet part r).document.part q) (hp : p ∈ s.linked) :
    (∃ t ∈ a.document.part q, p ∈ t.linked) ∨ p ∈ r.linked := by
  unfold meet at hs
  split at hs
  · rename_i slot _
    unfold merge at hs
    rw [part_alter] at hs
    split at hs
    · obtain ⟨i, hs⟩ := List.mem_iff_getElem?.mp hs
      rw [List.getElem?_modify, Option.map_eq_map, Option.map_eq_some_iff] at hs
      obtain ⟨t, ht, he⟩ := hs
      have htm := List.mem_of_getElem? ht
      split at he
      · rw [← he] at hp
        exact (Resource.mem_linked_merge hp).imp_left fun h => ⟨t, htm, h⟩
      · exact Or.inl ⟨t, htm, he ▸ hp⟩
    · exact Or.inl ⟨s, hs, hp⟩
  · rw [part_alter] at hs
    split at hs
    · rcases List.mem_append.mp hs with hs | hs
      · exact Or.inl ⟨s, hs, hp⟩
      · exact Or.inr (List.mem_singleton.mp hs ▸ hp)
    · exact Or.inl ⟨s, hs, hp⟩

theorem mem_linked_foldl_meet {part q : Part} {s : Resource} {p : Pointer} (hp : p ∈ s.linked) :
    ∀ (rs : List Resource) (a : Assembly), s ∈ (rs.foldl (meet part) a).document.part q →
      (∃ t ∈ a.document.part q, p ∈ t.linked) ∨ ∃ r ∈ rs, p ∈ r.linked
  | [], a, hs => Or.inl ⟨s, hs, hp⟩
  | r :: rs, a, hs => by
    rcases mem_linked_foldl_meet hp rs (a.meet part r) hs with ⟨t, ht, hpt⟩ | ⟨t, ht, hpt⟩
    · exact (mem_linked_meet ht hpt).imp_right fun h => ⟨r, List.mem_cons_self, h⟩
    · exact Or.inr ⟨t, List.mem_cons_of_mem _ ht, hpt⟩

end Assembly

end Sideload
