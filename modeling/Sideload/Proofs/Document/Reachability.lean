import Mathlib.Logic.Relation
import Sideload.Proofs.Document.Identities
import Sideload.Proofs.Document.Merging
import Sideload.Proofs.Resolution.Loaded

/-! # No orphans

Whatever is included is linked, over some steps, from what was asked for. An identity that is met
again brings no relationship that its resource has already, while what is below it is walked all the
same; so a resource may be included for a value of a branch whose relationship came from another
encounter. But both hold what was loaded for the relation (`IsLoaded.linkage_eq`), so the document
links what any encounter links (`links_of_mem_linked`).

`assemble_reachable` follows this down the walk; `resolve_reachable` says it of all resolutions with
a loader that answers from fixed lists. -/

namespace Sideload

open Document Resolved

/-- A resource of the document with the first identity points at the second. -/
def Document.Links (d : Document) (p q : Pointer) : Prop :=
  ∃ r ∈ d.resources, r.pointer = p ∧ q ∈ r.linked

/-- A loader that answers from fixed lists, in the order in which it is asked. -/
structure Loader.Tabular (loader : Loader) (lists : Pointer → String → List Entity) : Prop where
  load_eq : ∀ p relation, loader.load p relation = .ok (lists p relation)
  loadBatch_eq : ∀ ps relation,
    loader.loadBatch ps relation = .ok (ps.map fun p => lists p relation)

theorem Loader.Tabular.entitywise {loader : Loader} {lists : Pointer → String → List Entity}
    (h : loader.Tabular lists) : loader.Entitywise := by
  intro sources relation answer
  simp only [h.loadBatch_eq, h.load_eq, Except.ok.injEq]
  rw [← List.forall₂_eq_eq_eq, List.forall₂_map_left_iff]

/-! ### Who has a resource -/

section Resources
variable (empties : EmptyRelations) {roots : List Resolved}

theorem exists_mem_data_of_mem_roots {t : Resolved} (ht : t ∈ roots) :
    ∃ r ∈ (assemble empties roots).data, r.pointer = t.pointer := by
  rw [← List.mem_map, map_pointer_data, List.mem_eraseDups]
  exact List.mem_map_of_mem ht

/-- Whoever is encountered has a resource. -/
theorem exists_resource_of_mem_encounters {t : Resolved} (ht : t ∈ encounters roots) :
    ∃ r ∈ (assemble empties roots).resources, r.pointer = t.pointer :=
  List.mem_map.mp (mem_map_pointer_resources_iff.mpr (List.mem_map_of_mem ht))

/-- Whatever is included is met below a root. -/
theorem exists_mem_descendants_of_mem_included {r : Resource}
    (hr : r ∈ (assemble empties roots).included) :
    ∃ root ∈ roots, ∃ t ∈ root.descendants, t.pointer = r.pointer := by
  obtain ⟨hmet, hroot⟩ := mem_map_pointer_included_iff.mp (List.mem_map_of_mem hr)
  obtain ⟨t, ht, hp⟩ := List.mem_map.mp hmet
  rcases List.mem_append.mp ht with ht | ht
  · exact absurd (hp ▸ List.mem_map_of_mem ht) hroot
  · obtain ⟨root, hroot, ht⟩ := List.mem_flatMap.mp ht
    exact ⟨root, hroot, t, ht, hp⟩

end Resources

/-! ### Following what was loaded -/

section Assemble
variable {registry : Registry} {load : Pointer → String → Except LoadError (List Entity)}
  (empties : EmptyRelations) {roots : List Resolved}
  (hroots : ∀ t ∈ roots, t.Everywhere (IsLoaded registry load))
include hroots

theorem everywhere_of_mem_encounters {t : Resolved} (ht : t ∈ encounters roots) :
    t.Everywhere (IsLoaded registry load) := by
  rcases List.mem_append.mp ht with ht | ht
  · exact hroots t ht
  · obtain ⟨root, hroot, ht⟩ := List.mem_flatMap.mp ht
    exact (hroots root hroot).of_mem_descendants ht

/-- **The document links what any encounter links.** -/
theorem links_of_mem_linked {t v : Resolved} (ht : t ∈ encounters roots)
    {branch : String × Branch Resolved} (hb : branch ∈ t.branches) (hv : v ∈ branch.2.linked) :
    (assemble empties roots).Links t.pointer v.pointer := by
  obtain ⟨name, b⟩ := branch
  obtain ⟨r, hr, hp⟩ := exists_resource_of_mem_encounters empties ht
  -- the encounter shows the relationship, so the resource has it
  have hshown : (name, b.linkage) ∈ (t.resource empties).relationships := by
    refine mem_relationships_resource_iff.mpr ⟨b, hb, fun _ => ?_, rfl⟩
    rw [Bool.eq_false_iff]
    intro hempty
    rw [linked_eq_nil_of_isEmpty hempty] at hv
    cases hv
  have hname : name ∈ Fields.keys r.relationships :=
    (mem_keys_relationships_assemble_iff hr).mpr
      ⟨t, mem_encountersOf.mpr ⟨ht, hp.symm⟩, Fields.mem_keys_of_mem hshown⟩
  -- it may be that of another encounter, which was loaded for the same identity
  obtain ⟨l, hl⟩ := Fields.exists_mem_of_mem_keys hname
  obtain ⟨s, hs, hls⟩ := mem_relationships_of_mem_assemble hr hl
  obtain ⟨hs, hsp⟩ := mem_encountersOf.mp hs
  obtain ⟨c, hc, -, rfl⟩ := mem_relationships_resource_iff.mp hls
  have hloaded := (everywhere_of_mem_encounters hroots hs).here hc
  rw [hsp, hp] at hloaded
  have hsame := ((everywhere_of_mem_encounters hroots ht).here hb).linkage_eq hloaded
  refine ⟨r, hr, hp, List.mem_flatMap.mpr ⟨_, hl, ?_⟩⟩
  show v.pointer ∈ c.linkage.pointers
  rw [← hsame, Branch.pointers_linkage]
  exact List.mem_map_of_mem hv

theorem reflTransGen_links_of_mem_descendants {t s : Resolved} (ht : t ∈ encounters roots)
    (hs : s ∈ t.descendants) :
    Relation.ReflTransGen (assemble empties roots).Links t.pointer s.pointer := by
  obtain ⟨branch, hb, v, hv, hs⟩ := mem_descendants_iff.mp hs
  have hstep := links_of_mem_linked empties hroots ht hb hv
  rcases hs with rfl | hs
  · exact .single hstep
  · have hmet := mem_encounters_of_mem_linked ht hb hv
    have := sizeOf_of_mem_linked hb hv
    exact .head hstep (reflTransGen_links_of_mem_descendants hmet hs)
termination_by sizeOf t

/-- Whatever is included is linked, over some steps, from a resource in `data`. -/
theorem assemble_reachable {r : Resource} (hr : r ∈ (assemble empties roots).included) :
    ∃ root ∈ (assemble empties roots).data,
      Relation.ReflTransGen (assemble empties roots).Links root.pointer r.pointer := by
  obtain ⟨t, ht, s, hs, hp⟩ := exists_mem_descendants_of_mem_included empties hr
  obtain ⟨root, hroot, hrp⟩ := exists_mem_data_of_mem_roots empties ht
  refine ⟨root, hroot, ?_⟩
  rw [hrp, ← hp]
  exact reflTransGen_links_of_mem_descendants empties hroots (List.mem_append_left _ ht) hs

end Assemble

/-! ### Resolutions -/

/-- **No orphans.** -/
theorem resolve_reachable (registry : Registry) {loader : Loader}
    {lists : Pointer → String → List Entity} (h : loader.Tabular lists) (roots : List Entity)
    (forest : Include.Forest) (empties : EmptyRelations) :
    ∃ ts, (resolve registry loader roots forest).outcome = .ok ts ∧
      ∀ r ∈ (assemble empties ts).included, ∃ root ∈ (assemble empties ts).data,
        Relation.ReflTransGen (assemble empties ts).Links root.pointer r.pointer := by
  have hserves : Serves (fun _ => True) loader.load := fun p _ relation =>
    ⟨_, h.load_eq p relation, fun _ _ => trivial⟩
  obtain ⟨ts, hts, hloaded⟩ :=
    hserves.exists_resolve registry h.entitywise (fun _ _ => trivial) forest
  exact ⟨ts, hts, fun r hr => assemble_reachable empties hloaded hr⟩

/-- A way back: the root is met again below the entity that it links, and its relationship, which
the resource has already, leads on. -/
theorem resolve_reachable_cycle :
    let registry : Registry := ⟨fun _ _ => true, fun type _ => some type, fun _ _ => some .many⟩
    let entity (id : String) : Entity := ⟨⟨"a", id⟩, []⟩
    let lists (p : Pointer) (_ : String) : List Entity :=
      if p.id = "1" then [entity "2"] else if p.id = "2" then [entity "1", entity "3"] else []
    let loader : Loader := ⟨fun p relation => .ok (lists p relation),
      fun ps relation => .ok (ps.map fun p => lists p relation)⟩
    let forest : Include.Forest := [.mk "r" [] [.mk "r" [] [.mk "r" [] []]]]
    loader.Tabular lists ∧
      ∃ ts, (resolve registry loader [entity "1"] forest).outcome = .ok ts ∧
        Relation.ReflTransGen (assemble .omit ts).Links ⟨"a", "1"⟩ ⟨"a", "3"⟩ := by
  intro registry entity lists loader forest
  have htabular : loader.Tabular lists := ⟨fun _ _ => rfl, fun _ _ => rfl⟩
  obtain ⟨ts, hts, hreachable⟩ :=
    resolve_reachable registry htabular [entity "1"] forest .omit
  refine ⟨htabular, ts, hts, ?_⟩
  have hpointers : (resolve registry loader [entity "1"] forest).outcome.toOption.map
      (fun ts => ((assemble .omit ts).data.map Resource.pointer,
        (assemble .omit ts).included.map Resource.pointer)) =
      some ([⟨"a", "1"⟩], [⟨"a", "2"⟩, ⟨"a", "3"⟩]) := by decide +kernel
  rw [hts] at hpointers
  obtain ⟨hdata, hincluded⟩ := Prod.mk.inj (Option.some.inj hpointers)
  have hmem : ⟨"a", "3"⟩ ∈ (assemble .omit ts).included.map Resource.pointer := by
    rw [hincluded]
    decide
  obtain ⟨r, hr, hp⟩ := List.mem_map.mp hmem
  obtain ⟨root, hroot, hpath⟩ := hreachable r hr
  have hroot : root.pointer ∈ [⟨"a", "1"⟩] := hdata ▸ List.mem_map_of_mem hroot
  rw [List.mem_singleton.mp hroot, hp] at hpath
  exact hpath

end Sideload
