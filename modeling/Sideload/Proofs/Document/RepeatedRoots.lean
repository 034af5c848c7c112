import Sideload.Proofs.Document.Identities
import Sideload.Proofs.Document.Merging

/-! # Repeated roots

A root that is listed again is met again, and so is everything below it, but at every such meeting
the resource of the identity has all names of the one that is met (`Resource.Covers`): the same tree
was merged into it before, whatever other trees of the identity say. So the second meeting changes
nothing (`Resource.foldl_merge_of_covers`), in the middle of the encounters as at their end
(`Resource.mergeAll_append_of_subset`), and the document stays as it is
(`assemble_append_of_subset`). -/

namespace Sideload

open Document Resolved

namespace Resource

/-- The resource has all attribute names and all relationship names of another one. -/
structure Covers (r s : Resource) : Prop where
  attributes : ∀ name ∈ Fields.keys s.attributes, name ∈ Fields.keys r.attributes
  relationships : ∀ name ∈ Fields.keys s.relationships, name ∈ Fields.keys r.relationships

theorem Covers.merge_eq {r s : Resource} (h : r.Covers s) : r.merge s = r := by
  unfold merge
  rw [Fields.union_of_subset h.attributes, Fields.union_of_subset h.relationships]

/-- What is covered can be merged any number of times. -/
theorem foldl_merge_of_covers {r : Resource} : ∀ {again : List Resource},
    (∀ s ∈ again, r.Covers s) → again.foldl merge r = r
  | [], _ => rfl
  | s :: again, h => by
    rw [List.foldl_cons, (h s List.mem_cons_self).merge_eq]
    exact foldl_merge_of_covers fun t ht => h t (List.mem_cons_of_mem _ ht)

/-- Whatever was merged is covered. -/
theorem covers_foldl_merge {r s : Resource} {rs : List Resource} (h : s ∈ r :: rs) :
    (rs.foldl merge r).Covers s where
  attributes name hname := by
    rw [attributes_foldl_merge, Fields.mem_keys_foldl_union_iff]
    exact ⟨s.attributes, List.mem_map_of_mem h, hname⟩
  relationships name hname := by
    rw [relationships_foldl_merge, Fields.mem_keys_foldl_union_iff]
    exact ⟨s.relationships, List.mem_map_of_mem h, hname⟩

/-- **Merging again changes nothing**, whatever is merged later. -/
theorem mergeAll_append_of_subset {rs again : List Resource} (h : ∀ s ∈ again, s ∈ rs)
    (later : List Resource) : mergeAll (rs ++ again ++ later) = mergeAll (rs ++ later) := by
  cases rs with
  | nil =>
    have hnone : again = [] := List.eq_nil_iff_forall_not_mem.mpr fun s hs => nomatch h s hs
    rw [hnone, List.append_nil]
  | cons r rs =>
    have hagain : again.foldl merge (rs.foldl merge r) = rs.foldl merge r :=
      foldl_merge_of_covers fun s hs => covers_foldl_merge (h s hs)
    simp only [List.cons_append, mergeAll, List.foldl_append, hagain]

end Resource

/-! ### The document of a list with repetitions -/

section Again
variable {roots again : List Resolved} (h : ∀ t ∈ again, t ∈ roots)
include h

theorem flatMap_descendants_subset :
    ∀ v ∈ again.flatMap descendants, v ∈ roots.flatMap descendants := by
  intro v hv
  obtain ⟨t, ht, hv⟩ := List.mem_flatMap.mp hv
  exact List.mem_flatMap.mpr ⟨t, h t ht, hv⟩

/-- The identities stand where they stood. -/
theorem pointers_assemble_append (empties : EmptyRelations) (part : Part) :
    (assemble empties (roots ++ again)).pointers part = (assemble empties roots).pointers part := by
  cases part with
  | data =>
    show (assemble empties (roots ++ again)).data.map Resource.pointer =
      (assemble empties roots).data.map Resource.pointer
    rw [map_pointer_data, map_pointer_data, List.map_append]
    refine eraseDups_append_of_subset fun p hp => ?_
    obtain ⟨t, ht, rfl⟩ := List.mem_map.mp hp
    exact List.mem_map_of_mem (h t ht)
  | included =>
    show (assemble empties (roots ++ again)).included.map Resource.pointer =
      (assemble empties roots).included.map Resource.pointer
    have hroots : ∀ p, p ∈ (roots ++ again).map Resolved.pointer ↔
        p ∈ roots.map Resolved.pointer := by
      intro p
      rw [List.map_append, List.mem_append, or_iff_left_iff_imp]
      intro hp
      obtain ⟨t, ht, rfl⟩ := List.mem_map.mp hp
      exact List.mem_map_of_mem (h t ht)
    simp only [map_pointer_included, hroots]
    rw [List.flatMap_append, List.map_append, List.filter_append]
    refine eraseDups_append_of_subset fun p hp => ?_
    obtain ⟨hp, hnew⟩ := List.mem_filter.mp hp
    obtain ⟨v, hv, rfl⟩ := List.mem_map.mp hp
    exact List.mem_filter.mpr ⟨List.mem_map_of_mem (flatMap_descendants_subset h v hv), hnew⟩

/-- The encounters of an identity add up to the same resource: its roots are met again in front of
the walk, and what is below them behind it. -/
theorem mergeAll_encountersOf_append (empties : EmptyRelations) (p : Pointer) :
    Resource.mergeAll ((encountersOf p (roots ++ again)).map (resource empties)) =
      Resource.mergeAll ((encountersOf p roots).map (resource empties)) := by
  set found := fun ts : List Resolved => (ts.filter fun t => t.pointer = p).map (resource empties)
  have hsubset : ∀ {ts us : List Resolved}, (∀ t ∈ ts, t ∈ us) → ∀ r ∈ found ts, r ∈ found us := by
    intro ts us hts r hr
    obtain ⟨t, ht, rfl⟩ := List.mem_map.mp hr
    obtain ⟨ht, hp⟩ := List.mem_filter.mp ht
    exact List.mem_map_of_mem (List.mem_filter.mpr ⟨hts t ht, hp⟩)
  have hfound : ∀ ts us, found (ts ++ us) = found ts ++ found us := fun ts us => by
    simp only [found, List.filter_append, List.map_append]
  set walk := roots.flatMap descendants
  set walkAgain := again.flatMap descendants
  have hwalk : ∀ r ∈ found walkAgain, r ∈ found roots ++ found walk := fun r hr =>
    List.mem_append_right _ (hsubset (flatMap_descendants_subset h) r hr)
  show Resource.mergeAll (found (roots ++ again ++ (roots ++ again).flatMap descendants)) =
    Resource.mergeAll (found (roots ++ walk))
  calc Resource.mergeAll (found (roots ++ again ++ (roots ++ again).flatMap descendants))
      = Resource.mergeAll (found roots ++ found again ++ (found walk ++ found walkAgain)) := by
        rw [List.flatMap_append, hfound, hfound, hfound]
    _ = Resource.mergeAll (found roots ++ found walk ++ found walkAgain) := by
        rw [Resource.mergeAll_append_of_subset (hsubset h), List.append_assoc]
    _ = Resource.mergeAll (found roots ++ found walk) := by
        rw [← List.append_nil (_ ++ found walkAgain), Resource.mergeAll_append_of_subset hwalk,
          List.append_nil]
    _ = Resource.mergeAll (found (roots ++ walk)) := by rw [hfound]

end Again

/-- **Repeated roots change nothing**: behind some trees, trees that are among them leave the
document as it is, with its resources, their attributes and their relationships in order. -/
theorem assemble_append_of_subset (empties : EmptyRelations) {roots again : List Resolved}
    (h : ∀ t ∈ again, t ∈ roots) : assemble empties (roots ++ again) = assemble empties roots := by
  refine Document.eq_of_part_eq fun part => ?_
  rw [← List.map_id ((assemble empties (roots ++ again)).part part),
    ← List.map_id ((assemble empties roots).part part)]
  refine map_part_eq (pointers_assemble_append h empties part) fun p => ?_
  rw [mergeAll_encountersOf_append h]

/-- Two trees of one identity that contradict each other in an attribute and in a linkage, and of
which the second links the identity once more, are listed again in the other order. -/
theorem assemble_append_of_subset_contradiction :
    let below : Resolved := .mk ⟨⟨"a", "1"⟩, [("x", .null), ("z", .bool true)]⟩ []
    let first : Resolved := .mk ⟨⟨"a", "1"⟩, [("x", .bool true)]⟩
      [("r", ⟨⟨"a", "1"⟩, "r", "a", .one, [], []⟩)]
    let second : Resolved := .mk ⟨⟨"a", "1"⟩, [("y", .null), ("x", .bool false)]⟩
      [("s", ⟨⟨"a", "1"⟩, "s", "a", .many, [], [below, .leaf ⟨⟨"b", "2"⟩, []⟩]⟩),
        ("r", ⟨⟨"a", "1"⟩, "r", "a", .one, [], [below]⟩)]
    (∀ t ∈ [second, first, second], t ∈ [first, second]) ∧
      assemble .keep [first, second, second, first, second] = assemble .keep [first, second] ∧
      (assemble .keep [first, second]).resources.map (fun r =>
        (r.pointer.text, Fields.keys r.attributes, r.relationships)) =
        [("a/1", ["x", "y", "z"], [("r", .one none), ("s", .many [⟨"a", "1"⟩, ⟨"b", "2"⟩])]),
          ("b/2", [], [])] := by
  intro below first second
  have hsubset : ∀ t ∈ [second, first, second], t ∈ [first, second] := by simp
  exact ⟨hsubset, assemble_append_of_subset .keep hsubset, by decide +kernel⟩

end Sideload
