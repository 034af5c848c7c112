import Sideload.Proofs.Document.Encounters

/-! # The identities of a document

`assemble_identities`: an assembled document has one resource for each identity it meets. The
roots stand in `data`, everything else that is met on the walk stands in `included`, both in the
order of the first encounter; and no relationship points out of the document.

The slots give that no identity stands twice (`Assembly.Exact.nodup_pointers`). That every pointer
resolves rests on the walk: what a document links was linked by a resource that was met
(`Assembly.mem_linked_foldl_meet`), and what that resource links was met, too. -/

namespace Sideload

open Document

/-! ### Exact slots -/

namespace Assembly

variable {a : Assembly} (ha : a.Exact)
include ha

theorem Exact.nodup_part (part : Part) : (a.document.pointers part).Nodup := by
  rw [List.nodup_iff_getElem?_ne_getElem?]
  intro i j hij hj he
  obtain ⟨p, hp⟩ : ∃ p, (a.document.pointers part)[j]? = some p := ⟨_, List.getElem?_eq_getElem hj⟩
  have h₁ := (ha p ⟨part, j⟩).mpr hp
  have h₂ := (ha p ⟨part, i⟩).mpr (he.trans hp)
  rw [h₁] at h₂
  cases h₂
  omega

theorem Exact.disjoint {p : Pointer} (hd : p ∈ a.document.pointers .data)
    (hi : p ∈ a.document.pointers .included) : False := by
  obtain ⟨i, hd⟩ := List.mem_iff_getElem?.mp hd
  obtain ⟨j, hi⟩ := List.mem_iff_getElem?.mp hi
  have h₁ := (ha p ⟨.data, i⟩).mpr hd
  have h₂ := (ha p ⟨.included, j⟩).mpr hi
  rw [h₁] at h₂
  cases h₂

theorem Exact.nodup_pointers : (a.document.resources.map Resource.pointer).Nodup := by
  rw [resources, List.map_append, List.nodup_append']
  exact ⟨ha.nodup_part .data, ha.nodup_part .included, fun p hd hi => ha.disjoint hd hi⟩

end Assembly

/-! ### The document of an assembly -/

/-- The identities of a document, part by part. -/
theorem mem_map_pointer_resources {d : Document} {p : Pointer} :
    p ∈ d.resources.map Resource.pointer ↔ ∃ part, p ∈ d.pointers part := by
  rw [resources, List.map_append, List.mem_append]
  constructor
  · rintro (h | h)
    · exact ⟨.data, h⟩
    · exact ⟨.included, h⟩
  · rintro ⟨part, h⟩
    cases part with
    | data => exact Or.inl h
    | included => exact Or.inr h

/-- What an assembly makes of its encounters: the slots are exact, `data` has the identities of
the roots and `included` the other ones of the walk, in the order of their first occurrence. -/
theorem exists_exact_assemble (empties : EmptyRelations) (roots : List Resolved) :
    ∃ a : Assembly, a.Exact ∧ a.document = assemble empties roots ∧
      a.document.pointers .data = (roots.map Resolved.pointer).eraseDups ∧
      a.document.pointers .included =
        (((roots.flatMap Resolved.descendants).map Resolved.pointer).filter
          fun p => p ∉ roots.map Resolved.pointer).eraseDups := by
  have hmap : ∀ rs : List Resolved,
      (rs.map (Resolved.resource empties)).map Resource.pointer = rs.map Resolved.pointer := by
    intro rs
    rw [List.map_map]
    rfl
  obtain ⟨hs, hseeded⟩ := Assembly.pointers_foldl_meet .data
    (roots.map (Resolved.resource empties)) {} Assembly.Exact.empty
  set seeded := (roots.map (Resolved.resource empties)).foldl (Assembly.meet .data) {}
  have hdata : seeded.document.pointers .data = (roots.map Resolved.pointer).eraseDups := by
    rw [hseeded .data, if_pos rfl, hmap]
    simp [pointers, Document.part]
  have hincluded : seeded.document.pointers .included = [] := by
    rw [hseeded .included, if_neg (by decide)]
    rfl
  have hseen : ∀ p, (seeded.slot? p).isNone = decide (p ∉ roots.map Resolved.pointer) := by
    intro p
    rw [Bool.eq_iff_iff, hs.isNone_iff, decide_eq_true_iff]
    constructor
    · intro h hp
      exact h .data (by rw [hdata]; exact List.mem_eraseDups.mpr hp)
    · intro h part
      cases part with
      | data => rw [hdata]; exact fun hp => h (List.mem_eraseDups.mp hp)
      | included => rw [hincluded]; exact List.not_mem_nil
  obtain ⟨he, hwalked⟩ := Assembly.pointers_foldl_meet .included
    ((roots.flatMap Resolved.descendants).map (Resolved.resource empties)) seeded hs
  refine ⟨_, he, (assemble_eq_foldl empties roots).symm, ?_, ?_⟩
  · rw [hwalked .data, if_neg (by decide), hdata]
  · rw [hwalked .included, if_pos rfl, hincluded, hmap, List.nil_append]
    simp only [hseen]

theorem map_pointer_data (empties : EmptyRelations) (roots : List Resolved) :
    (assemble empties roots).data.map Resource.pointer =
      (roots.map Resolved.pointer).eraseDups := by
  obtain ⟨a, -, hd, hdata, -⟩ := exists_exact_assemble empties roots
  rw [hd] at hdata
  exact hdata

theorem map_pointer_included (empties : EmptyRelations) (roots : List Resolved) :
    (assemble empties roots).included.map Resource.pointer =
      (((roots.flatMap Resolved.descendants).map Resolved.pointer).filter
        fun p => p ∉ roots.map Resolved.pointer).eraseDups := by
  obtain ⟨a, -, hd, -, hincluded⟩ := exists_exact_assemble empties roots
  rw [hd] at hincluded
  exact hincluded

/-- Whoever is encountered and is no root is included. -/
theorem mem_map_pointer_included_iff {empties : EmptyRelations} {roots : List Resolved}
    {p : Pointer} : p ∈ (assemble empties roots).included.map Resource.pointer ↔
      p ∈ (Resolved.encounters roots).map Resolved.pointer ∧ p ∉ roots.map Resolved.pointer := by
  rw [map_pointer_included, List.mem_eraseDups, List.mem_filter, decide_eq_true_iff,
    Resolved.encounters, List.map_append, List.mem_append]
  tauto

theorem mem_map_pointer_of_mem_data {empties : EmptyRelations} {roots : List Resolved}
    {r : Resource} (h : r ∈ (assemble empties roots).data) :
    r.pointer ∈ roots.map Resolved.pointer := by
  rw [← List.mem_eraseDups, ← map_pointer_data empties roots]
  exact List.mem_map_of_mem h

theorem not_mem_map_pointer_of_mem_included {empties : EmptyRelations} {roots : List Resolved}
    {r : Resource} (h : r ∈ (assemble empties roots).included) :
    r.pointer ∉ roots.map Resolved.pointer :=
  (mem_map_pointer_included_iff.mp (List.mem_map_of_mem h)).2

/-- A document links nothing but what is met on the walk. -/
theorem mem_walk_of_mem_linked {empties : EmptyRelations} {roots : List Resolved} {r : Resource}
    {p : Pointer} (hr : r ∈ (assemble empties roots).resources) (hp : p ∈ r.linked) :
    p ∈ (roots.flatMap Resolved.descendants).map Resolved.pointer := by
  -- a resource that was met links only what is below its tree
  have hlinked : ∀ {t : Resolved}, p ∈ (t.resource empties).linked →
      ∃ v ∈ t.descendants, v.pointer = p := by
    intro t ht
    rw [Resolved.linked_resource, List.mem_map] at ht
    obtain ⟨v, hv, rfl⟩ := ht
    exact ⟨v.2, Resolved.mem_descendants_of_mem_related hv, rfl⟩
  have hpart : ∃ part, r ∈ (assemble empties roots).part part := by
    rcases List.mem_append.mp hr with h | h
    · exact ⟨.data, h⟩
    · exact ⟨.included, h⟩
  obtain ⟨part, hr⟩ := hpart
  rw [assemble_eq_foldl] at hr
  rcases Assembly.mem_linked_foldl_meet hp _ _ hr with ⟨s, hs, hps⟩ | ⟨s, hs, hps⟩
  · rcases Assembly.mem_linked_foldl_meet hps _ _ hs with ⟨s', hs', _⟩ | ⟨s', hs', hps'⟩
    · cases part <;> cases hs'
    · obtain ⟨root, hroot, rfl⟩ := List.mem_map.mp hs'
      obtain ⟨v, hv, rfl⟩ := hlinked hps'
      exact List.mem_map_of_mem (List.mem_flatMap.mpr ⟨root, hroot, hv⟩)
  · obtain ⟨t, ht, rfl⟩ := List.mem_map.mp hs
    obtain ⟨root, hroot, ht⟩ := List.mem_flatMap.mp ht
    obtain ⟨v, hv, rfl⟩ := hlinked hps
    exact List.mem_map_of_mem
      (List.mem_flatMap.mpr ⟨root, hroot, Resolved.mem_descendants_trans ht hv⟩)

theorem nodup_map_pointer_resources (empties : EmptyRelations) (roots : List Resolved) :
    ((assemble empties roots).resources.map Resource.pointer).Nodup := by
  obtain ⟨a, ha, hd, -⟩ := exists_exact_assemble empties roots
  exact hd ▸ ha.nodup_pointers

/-- Whoever is encountered has a resource, and nobody else. -/
theorem mem_map_pointer_resources_iff {empties : EmptyRelations} {roots : List Resolved}
    {p : Pointer} : p ∈ (assemble empties roots).resources.map Resource.pointer ↔
      p ∈ (Resolved.encounters roots).map Resolved.pointer := by
  have hroots : p ∈ roots.map Resolved.pointer →
      p ∈ (Resolved.encounters roots).map Resolved.pointer := by
    rw [Resolved.encounters, List.map_append]
    exact List.mem_append_left _
  rw [resources, List.map_append, List.mem_append, map_pointer_data, List.mem_eraseDups,
    mem_map_pointer_included_iff]
  tauto

/-- No relationship points out of a document. -/
theorem mem_map_pointer_of_mem_linked {empties : EmptyRelations} {roots : List Resolved}
    {r : Resource} {p : Pointer} (hr : r ∈ (assemble empties roots).resources)
    (hp : p ∈ r.linked) : p ∈ (assemble empties roots).resources.map Resource.pointer := by
  rw [mem_map_pointer_resources_iff, Resolved.encounters, List.map_append]
  exact List.mem_append_right _ (mem_walk_of_mem_linked hr hp)

/-- **The identities of an assembled document.** No identity stands in it twice; `data` lists the
identities of the roots in the order of their first occurrence, none of which is included;
`included` lists, in order, the first occurrences of the other identities on the walk below the
roots; and whatever a relationship points at is a resource of the document. -/
theorem assemble_identities (empties : EmptyRelations) (roots : List Resolved) :
    let d := assemble empties roots
    (d.resources.map Resource.pointer).Nodup ∧
      (d.data.map Resource.pointer = (roots.map Resolved.pointer).eraseDups ∧
        ∀ root ∈ roots, root.pointer ∉ d.included.map Resource.pointer) ∧
      d.included.map Resource.pointer =
        (((roots.flatMap Resolved.descendants).map Resolved.pointer).filter
          fun p => p ∉ roots.map Resolved.pointer).eraseDups ∧
      ∀ r ∈ d.resources, ∀ relationship ∈ r.relationships, ∀ p ∈ relationship.2.pointers,
        ∃ s ∈ d.resources, s.pointer = p := by
  obtain ⟨a, ha, hd, hdata, hincluded⟩ := exists_exact_assemble empties roots
  rw [hd] at hdata hincluded
  refine ⟨hd ▸ ha.nodup_pointers, ⟨hdata, ?_⟩, hincluded, ?_⟩
  · intro root hroot hp
    have hp : root.pointer ∈ (assemble empties roots).pointers .included := hp
    rw [hincluded, List.mem_eraseDups, List.mem_filter] at hp
    exact of_decide_eq_true hp.2 (List.mem_map_of_mem hroot)
  · intro r hr relationship hrelationship p hp
    have hwalk := mem_walk_of_mem_linked hr (List.mem_flatMap.mpr ⟨relationship, hrelationship, hp⟩)
    have hmem : p ∈ (assemble empties roots).resources.map Resource.pointer := by
      rw [mem_map_pointer_resources]
      by_cases hroot : p ∈ roots.map Resolved.pointer
      · exact ⟨.data, by rw [hdata]; exact List.mem_eraseDups.mpr hroot⟩
      · refine ⟨.included, ?_⟩
        rw [hincluded, List.mem_eraseDups, List.mem_filter]
        exact ⟨hwalk, decide_eq_true hroot⟩
    obtain ⟨s, hs, he⟩ := List.mem_map.mp hmem
    exact ⟨s, hs, he⟩

end Sideload
