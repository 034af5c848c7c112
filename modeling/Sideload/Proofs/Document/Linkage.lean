import Sideload.Proofs.Document.Check

/-! # Findings on identities and pointers

The resources of a document are numbered through both of its members, and each has its place
(`placeOf`). The check of the linkage finds just two kinds of fault: resources that are not the
first with their identity, and pointers (`links`) to identities that no resource has.
`linkageFindings_eq` lists them in order, one finding for each; so nothing is found if identities
are distinct and all pointers lead to a resource (`linkageFindings_exact`). -/

namespace Sideload

/-- A pointer in a document: the number of the resource that holds it, the relationship, and what it
points at. -/
structure Link where
  owner : Nat
  relationship : String
  target : Pointer
deriving DecidableEq, Repr

namespace Document

/-- The place of the resource with a number. -/
def placeOf (d : Document) (i : Nat) : String :=
  if i < d.data.length then Json.Place.item (Json.Place.member "" "data") i
  else Json.Place.item (Json.Place.member "" "included") (i - d.data.length)

/-- The number of the first resource with an identity. -/
def firstWith (d : Document) (p : Pointer) : Nat := d.resources.findIdx fun r => r.pointer = p

/-- The pointers of a document, in order. -/
def links (d : Document) : List Link :=
  d.resources.zipIdx.flatMap fun e => e.1.relationships.flatMap fun relationship =>
    relationship.2.pointers.map fun p => ⟨e.2, relationship.1, p⟩

/-- What is found at the resource with a number that is not the first with its identity. -/
def repeatedFinding (d : Document) (e : Resource × Nat) : Finding :=
  ⟨d.placeOf e.2, "duplicate resource " ++ e.1.pointer.text ++ ", first at " ++
    d.placeOf (d.firstWith e.1.pointer)⟩

/-- What is found at a relationship with a pointer that leads to no resource. -/
def danglingFinding (d : Document) (l : Link) : Finding :=
  ⟨d.placeOf l.owner ++ "/relationships/" ++ l.relationship,
    "pointer " ++ l.target.text ++ " does not resolve"⟩

/-! ### Places -/

theorem placed_eq (d : Document) :
    d.placed = d.resources.zipIdx.map fun e => (d.placeOf e.2, e.1) := by
  rw [placed, resources, List.zipIdx_append, List.map_append]
  congr 1
  · refine List.map_congr_left fun e he => ?_
    have hlt := (List.mem_zipIdx he).2.1
    rw [placeOf, if_pos (by omega)]
  · have hshift := List.map_snd_add_zipIdx_eq_zipIdx (l := d.included) (n := d.data.length) (k := 0)
    rw [Nat.zero_add, ← Nat.add_zero d.data.length, ← hshift, List.map_map]
    refine List.map_congr_left fun e _ => ?_
    have hge : ¬ e.2 + d.data.length < d.data.length := by omega
    simp [placeOf, hge]

/-! ### Identities -/

/-- The place of the first resource with an identity, among those that have been looked at. -/
def seenAmong (place : Nat → String) (before : List Resource) (p : Pointer) : Option String :=
  (before.findIdx? fun r => r.pointer = p).map place

theorem seenAmong_concat_of_some {place : Nat → String} {before : List Resource} {r : Resource}
    {i : Nat} (h : before.findIdx? (fun s => s.pointer = r.pointer) = some i) :
    seenAmong place (before ++ [r]) = seenAmong place before := by
  funext p
  unfold seenAmong
  rw [List.findIdx?_append]
  by_cases hp : r.pointer = p
  · rw [← hp, h, Option.some_or]
  · rw [List.findIdx?_singleton, if_neg (by simpa using hp), Option.map_none, Option.or_none]

theorem seenAmong_concat_of_none {place : Nat → String} {before : List Resource} {r : Resource}
    (h : before.findIdx? (fun s => s.pointer = r.pointer) = none) :
    seenAmong place (before ++ [r]) = fun p =>
      if p = r.pointer then some (place before.length) else seenAmong place before p := by
  funext p
  unfold seenAmong
  rw [List.findIdx?_append, List.findIdx?_singleton]
  by_cases hp : p = r.pointer
  · subst hp
    simp [h]
  · have hp' : r.pointer ≠ p := fun e => hp e.symm
    simp [hp, hp']

/-- Going through resources with their numbers, behind those of `before`. -/
theorem repeated_zipIdx (place : Nat → String) : ∀ rs before : List Resource,
    let first := fun p => (before ++ rs).findIdx fun r => r.pointer = p
    (repeated (seenAmong place before)
        ((rs.zipIdx before.length).map fun e => (place e.2, e.1))).1 =
      ((rs.zipIdx before.length).filter fun e => first e.1.pointer < e.2).map fun e =>
        ⟨place e.2, "duplicate resource " ++ e.1.pointer.text ++ ", first at " ++
          place (first e.1.pointer)⟩
  | [], _ => rfl
  | r :: rs, before => by
    intro first
    have ih := repeated_zipIdx place rs (before ++ [r])
    dsimp only at ih
    rw [List.append_assoc, List.singleton_append, List.length_append, List.length_singleton] at ih
    rw [List.zipIdx_cons, List.map_cons, repeated]
    cases hfirst : before.findIdx? (fun s => s.pointer = r.pointer) with
    | some i =>
      obtain ⟨hlt, hi⟩ := List.findIdx?_eq_some_iff_findIdx_eq.mp hfirst
      have hr : first r.pointer = i := by
        show (before ++ r :: rs).findIdx _ = i
        rw [List.findIdx_append, hi, if_pos hlt]
      have hseen : seenAmong place before r.pointer = some (place i) := by
        rw [seenAmong, hfirst, Option.map_some]
      rw [hseen, List.filter_cons_of_pos (by simpa [hr] using hlt), List.map_cons, hr]
      dsimp only
      rw [← ih, seenAmong_concat_of_some hfirst]
    | none =>
      have hnone := List.findIdx?_eq_none_iff_findIdx_eq.mp hfirst
      have hr : first r.pointer = before.length := by
        show (before ++ r :: rs).findIdx _ = before.length
        rw [List.findIdx_append, hnone, if_neg (Nat.lt_irrefl _), List.findIdx_cons]
        simp
      have hseen : seenAmong place before r.pointer = none := by
        rw [seenAmong, hfirst, Option.map_none]
      rw [hseen, List.filter_cons_of_neg (by simp [hr])]
      dsimp only
      rw [← ih, seenAmong_concat_of_none hfirst]

/-! ### Pointers -/

theorem mem_links_iff {d : Document} {l : Link} : l ∈ d.links ↔
    ∃ r, d.resources[l.owner]? = some r ∧
      ∃ linkage, (l.relationship, linkage) ∈ r.relationships ∧ l.target ∈ linkage.pointers := by
  simp only [links, List.mem_flatMap, List.mem_map]
  constructor
  · rintro ⟨⟨r, i⟩, hr, ⟨name, linkage⟩, hlinkage, p, hp, rfl⟩
    exact ⟨r, List.mem_zipIdx_iff_getElem?.mp hr, linkage, hlinkage, hp⟩
  · rintro ⟨r, hr, linkage, hlinkage, hp⟩
    exact ⟨(r, l.owner), List.mem_zipIdx_iff_getElem?.mpr hr, (l.relationship, linkage), hlinkage,
      l.target, hp, rfl⟩

theorem forall_mem_links_iff {d : Document} {P : Pointer → Prop} :
    (∀ l ∈ d.links, P l.target) ↔ ∀ r ∈ d.resources, ∀ p ∈ r.linked, P p := by
  simp only [Resource.linked, List.forall_mem_flatMap]
  constructor
  · intro h r hr relationship hrelationship p hp
    obtain ⟨i, hi⟩ := List.mem_iff_getElem?.mp hr
    exact h ⟨i, relationship.1, p⟩ (mem_links_iff.mpr ⟨r, hi, relationship.2, hrelationship, hp⟩)
  · intro h l hl
    obtain ⟨r, hr, linkage, hlinkage, hp⟩ := mem_links_iff.mp hl
    exact h r (List.mem_of_getElem? hr) _ hlinkage _ hp

theorem isSome_find?_iff {d : Document} {p : Pointer} :
    (d.find? p).isSome = true ↔ p ∈ d.resources.map Resource.pointer := by
  rw [← not_iff_not, ← isNone_find?_iff]
  simp

theorem flatMap_danglingFrom (d : Document) :
    (d.placed.flatMap fun e => danglingFrom (repeated (fun _ => none) d.placed).2 e.1 e.2) =
      (d.links.filter fun l => l.target ∉ d.resources.map Resource.pointer).map
        d.danglingFinding := by
  have hmissing : (fun p => ((repeated (fun _ => none) d.placed).2 p).isNone) =
      fun p => decide (p ∉ d.resources.map Resource.pointer) :=
    funext fun p => Bool.eq_iff_iff.mpr (isNone_repeated_placed_iff.trans decide_eq_true_iff.symm)
  generalize (repeated (fun _ => none) d.placed).2 = seen at hmissing
  rw [placed_eq, List.flatMap_map, links, List.filter_flatMap, List.map_flatMap]
  refine List.flatMap_congr fun e _ => ?_
  rw [danglingFrom, List.filter_flatMap, List.map_flatMap]
  refine List.flatMap_congr fun relationship _ => ?_
  rw [List.filter_map, List.map_map, hmissing]
  rfl

/-- First come the resources that are not the first with their identity, then the pointers to
identities that no resource has. -/
theorem linkageFindings_eq (d : Document) : d.linkageFindings =
    (d.resources.zipIdx.filter fun e => d.firstWith e.1.pointer < e.2).map d.repeatedFinding ++
      (d.links.filter fun l => l.target ∉ d.resources.map Resource.pointer).map
        d.danglingFinding := by
  show (repeated (fun _ => none) d.placed).1 ++ d.placed.flatMap _ = _
  rw [flatMap_danglingFrom, placed_eq]
  congr 1
  exact repeated_zipIdx d.placeOf d.resources []

theorem linkageFindings_eq_nil_iff_links (d : Document) : d.linkageFindings = [] ↔
    (d.resources.map Resource.pointer).Nodup ∧ ∀ l ∈ d.links, (d.find? l.target).isSome = true := by
  simp only [linkageFindings_eq_nil_iff, isSome_find?_iff,
    forall_mem_links_iff (P := fun p => p ∈ d.resources.map Resource.pointer)]

/-- **The findings on identities and pointers**: first, for each resource that is not the first with
its identity, one at its own place that names the place of the first; then, for each pointer to an
identity that no resource has, one at the relationship that holds it. Nothing is found if no
identity repeats and every pointer leads to a resource. -/
theorem linkageFindings_exact (d : Document) :
    (d.linkageFindings = [] ↔ (d.resources.map Resource.pointer).Nodup ∧
      ∀ l ∈ d.links, (d.find? l.target).isSome = true) ∧
    d.linkageFindings =
      (d.resources.zipIdx.filter fun e => d.firstWith e.1.pointer < e.2).map d.repeatedFinding ++
      (d.links.filter fun l => l.target ∉ d.resources.map Resource.pointer).map
        d.danglingFinding :=
  ⟨linkageFindings_eq_nil_iff_links d, linkageFindings_eq d⟩

end Document

end Sideload
