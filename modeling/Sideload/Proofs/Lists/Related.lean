import Mathlib.Data.List.Forall2
import Mathlib.Data.List.Perm.Basic

/-! # Lists element by element

What `List.Forall₂` says of members (`exists_of_mem_left`, `exists_of_mem_right`), of the parts of a
list, and of two relations one behind the other. A list of related elements is there if there is one
for each element (`exists_forall₂`). What is said of all elements can be said of the numbered list
(`forall_mem_zipIdx_iff`). Grouped by keys, a list is only reordered (`flatMap_filter_perm`).
Results that are asked for one after the other are all there if each is (`mapM_eq_ok_iff`,
`mapM_eq_some_iff`, `isSome_mapM_iff`). -/

namespace Sideload

variable {α β γ : Type}

section Members
variable {R : α → β → Prop} {xs : List α} {ys : List β}

theorem exists_of_mem_left (h : List.Forall₂ R xs ys) {x : α} (hx : x ∈ xs) :
    ∃ y ∈ ys, R x y := by
  induction h with
  | nil => cases hx
  | cons hR _ ih =>
    rcases List.mem_cons.mp hx with rfl | hx
    · exact ⟨_, List.mem_cons_self, hR⟩
    · obtain ⟨y, hy, hR⟩ := ih hx
      exact ⟨y, List.mem_cons_of_mem _ hy, hR⟩

theorem exists_of_mem_right (h : List.Forall₂ R xs ys) {y : β} (hy : y ∈ ys) :
    ∃ x ∈ xs, R x y :=
  exists_of_mem_left h.flip hy

end Members

theorem exists_forall₂ {R : α → β → Prop} : ∀ {xs : List α},
    (∀ x ∈ xs, ∃ y, R x y) → ∃ ys, List.Forall₂ R xs ys
  | [], _ => ⟨[], .nil⟩
  | x :: xs, h => by
    obtain ⟨y, hy⟩ := h x List.mem_cons_self
    obtain ⟨ys, hys⟩ := exists_forall₂ fun x' hx' => h x' (List.mem_cons_of_mem x hx')
    exact ⟨y :: ys, .cons hy hys⟩

theorem forall₂_comp_iff {R : α → β → Prop} {S : β → γ → Prop} : ∀ {xs : List α} {zs : List γ},
    (∃ ys, List.Forall₂ R xs ys ∧ List.Forall₂ S ys zs) ↔
      List.Forall₂ (fun x z => ∃ y, R x y ∧ S y z) xs zs
  | [], zs => by simp
  | x :: xs, zs => by
    simp only [List.forall₂_cons_left_iff, ← @forall₂_comp_iff R S xs]
    constructor
    · rintro ⟨_, ⟨y, ys, hy, hys, rfl⟩, h⟩
      obtain ⟨z, zs', hz, hzs, rfl⟩ := List.forall₂_cons_left_iff.mp h
      exact ⟨z, zs', ⟨y, hy, hz⟩, ⟨ys, hys, hzs⟩, rfl⟩
    · rintro ⟨z, zs', ⟨y, hy, hz⟩, ⟨ys, hys, hzs⟩, rfl⟩
      exact ⟨y :: ys, ⟨y, ys, hy, hys, rfl⟩, .cons hz hzs⟩

theorem forall₂_append_left_iff {R : α → β → Prop} : ∀ {xs xs' : List α} {ys : List β},
    List.Forall₂ R (xs ++ xs') ys ↔
      ∃ us vs, List.Forall₂ R xs us ∧ List.Forall₂ R xs' vs ∧ ys = us ++ vs
  | [], xs', ys => by simp
  | x :: xs, xs', ys => by
    rw [List.cons_append, List.forall₂_cons_left_iff]
    constructor
    · rintro ⟨y, ys', hy, h, rfl⟩
      obtain ⟨us, vs, hus, hvs, rfl⟩ := forall₂_append_left_iff.mp h
      exact ⟨y :: us, vs, .cons hy hus, hvs, rfl⟩
    · rintro ⟨us, vs, hus, hvs, rfl⟩
      obtain ⟨y, us', hy, hus', rfl⟩ := List.forall₂_cons_left_iff.mp hus
      exact ⟨y, us' ++ vs, hy, forall₂_append_left_iff.mpr ⟨us', vs, hus', hvs, rfl⟩, rfl⟩

theorem forall₂_congr_left {R S : α → β → Prop} : ∀ {xs : List α} {ys : List β},
    (∀ x ∈ xs, ∀ y, R x y ↔ S x y) → (List.Forall₂ R xs ys ↔ List.Forall₂ S xs ys)
  | [], ys, _ => by simp
  | x :: xs, ys, h => by
    have hxs : ∀ ys, List.Forall₂ R xs ys ↔ List.Forall₂ S xs ys := fun ys =>
      forall₂_congr_left fun x hx => h x (List.mem_cons_of_mem _ hx)
    simp only [List.forall₂_cons_left_iff, h x List.mem_cons_self, hxs]

theorem flatMap_perm_of_forall₂ {f : α → List γ} {g : β → List γ} {xs : List α} {ys : List β}
    (h : List.Forall₂ (fun x y => (f x).Perm (g y)) xs ys) :
    (xs.flatMap f).Perm (ys.flatMap g) := by
  induction h with
  | nil => exact .refl _
  | cons hxy _ ih => exact hxy.append ih

theorem forall_mem_zipIdx_iff (P : α → Prop) {xs : List α} :
    (∀ x ∈ xs.zipIdx, P x.1) ↔ ∀ x ∈ xs, P x := by
  rw [← List.forall_mem_map (f := Prod.fst), List.zipIdx_map_fst]

theorem flatMap_ite_nil (p : α → Prop) [DecidablePred p] (f : α → List β) (xs : List α) :
    (xs.flatMap fun x => if p x then f x else []) = (xs.filter fun x => p x).flatMap f := by
  induction xs with
  | nil => rfl
  | cons x xs ih => by_cases h : p x <;> simp [h, ih]

theorem flatMap_ite_singleton (p : α → Prop) [DecidablePred p] (f : α → β) (xs : List α) :
    (xs.flatMap fun x => if p x then [f x] else []) = (xs.filter fun x => p x).map f := by
  rw [flatMap_ite_nil p (fun x => [f x]), List.map_eq_flatMap]

/-- The elements that have one of the keys, key after key: each is there once. -/
theorem flatMap_filter_perm [DecidableEq β] (key : α → β) (xs : List α) : ∀ {keys : List β},
    keys.Nodup → ∀ (p : α → Prop) [DecidablePred p], (∀ x ∈ xs, p x ↔ key x ∈ keys) →
      (keys.flatMap fun k => xs.filter fun x => key x = k).Perm (xs.filter fun x => p x)
  | [], _, p, _, hp => by
    have hnone : xs.filter (fun x => p x) = [] := List.filter_eq_nil_iff.mpr fun x hx h =>
      List.not_mem_nil ((hp x hx).mp (of_decide_eq_true h))
    rw [hnone, List.flatMap_nil]
  | k :: keys, h, p, _, hp => by
    obtain ⟨hk, hkeys⟩ := List.nodup_cons.mp h
    have hsplit := List.filter_append_perm (fun x => decide (key x = k)) (xs.filter fun x => p x)
    have hhere : (xs.filter fun x => p x).filter (fun x => key x = k) =
        xs.filter fun x => key x = k := by
      rw [List.filter_filter]
      refine List.filter_congr fun x hx => ?_
      by_cases hkey : key x = k <;> simp [hkey, hp x hx]
    have hthere : (xs.filter fun x => p x).filter (fun x => !decide (key x = k)) =
        xs.filter fun x => p x ∧ key x ≠ k := by
      rw [List.filter_filter]
      exact List.filter_congr fun x _ => by simp [Bool.and_comm]
    have hrest : ∀ x ∈ xs, p x ∧ key x ≠ k ↔ key x ∈ keys := by
      intro x hx
      rw [hp x hx, List.mem_cons]
      exact ⟨fun h => h.1.resolve_left h.2, fun h => ⟨Or.inr h, fun e => hk (e ▸ h)⟩⟩
    rw [hhere, hthere] at hsplit
    rw [List.flatMap_cons]
    exact ((flatMap_filter_perm key xs hkeys _ hrest).append_left _).trans hsplit

/-! ### Values that may be missing -/

theorem rel_none_left_iff {R : α → β → Prop} {o : Option β} :
    Option.Rel R none o ↔ o = none :=
  ⟨fun h => by cases h; rfl, fun h => h ▸ .none⟩

theorem rel_some_left_iff {R : α → β → Prop} {a : α} {o : Option β} :
    Option.Rel R (some a) o ↔ ∃ b, o = some b ∧ R a b := by
  constructor
  · intro h
    cases h with
    | some h => exact ⟨_, rfl, h⟩
  · rintro ⟨b, rfl, h⟩
    exact .some h

/-! ### Results one after the other -/

section Results
variable {ε : Type}

theorem bind_eq_ok_iff {x : Except ε α} {f : α → Except ε β} {b : β} :
    (x >>= f) = .ok b ↔ ∃ a, x = .ok a ∧ f a = .ok b := by
  cases x with
  | error e => simp [bind, Except.bind]
  | ok a => simp [bind, Except.bind]

theorem mapError_eq_ok_iff {ε' : Type} {x : Except ε α} {f : ε → ε'} {a : α} :
    x.mapError f = .ok a ↔ x = .ok a := by
  cases x <;> simp [Except.mapError]

theorem toOption_eq_some_iff {x : Except ε α} {a : α} : x.toOption = some a ↔ x = .ok a := by
  cases x <;> simp [Except.toOption]

theorem mapM_eq_ok_iff {f : α → Except ε β} : ∀ {xs : List α} {ys : List β},
    xs.mapM f = .ok ys ↔ List.Forall₂ (fun x y => f x = .ok y) xs ys
  | [], ys => by
    rw [List.mapM_nil, List.forall₂_nil_left_iff]
    exact ⟨fun h => (Except.ok.inj h).symm, fun h => h ▸ rfl⟩
  | x :: xs, ys => by
    rw [List.mapM_cons, bind_eq_ok_iff, List.forall₂_cons_left_iff]
    constructor
    · rintro ⟨y, hy, h⟩
      obtain ⟨ys', hys, h⟩ := bind_eq_ok_iff.mp h
      exact ⟨y, ys', hy, mapM_eq_ok_iff.mp hys, (Except.ok.inj h).symm⟩
    · rintro ⟨y, ys', hy, hys, rfl⟩
      exact ⟨y, hy, bind_eq_ok_iff.mpr ⟨ys', mapM_eq_ok_iff.mpr hys, rfl⟩⟩

theorem mapM_eq_some_iff {f : α → Option β} : ∀ {xs : List α} {ys : List β},
    xs.mapM f = some ys ↔ List.Forall₂ (fun x y => f x = some y) xs ys
  | [], ys => by
    rw [List.mapM_nil, List.forall₂_nil_left_iff]
    exact ⟨fun h => (Option.some.inj h).symm, fun h => h ▸ rfl⟩
  | x :: xs, ys => by
    rw [List.mapM_cons, Option.bind_eq_bind, Option.bind_eq_some_iff, List.forall₂_cons_left_iff]
    constructor
    · rintro ⟨y, hy, h⟩
      obtain ⟨ys', hys, h⟩ := Option.bind_eq_some_iff.mp h
      exact ⟨y, ys', hy, mapM_eq_some_iff.mp hys, (Option.some.inj h).symm⟩
    · rintro ⟨y, ys', hy, hys, rfl⟩
      exact ⟨y, hy, Option.bind_eq_some_iff.mpr ⟨ys', mapM_eq_some_iff.mpr hys, rfl⟩⟩

theorem isSome_mapM_iff {f : α → Option β} {xs : List α} :
    (xs.mapM f).isSome ↔ ∀ x ∈ xs, (f x).isSome := by
  simp only [Option.isSome_iff_exists, mapM_eq_some_iff]
  refine ⟨fun ⟨ys, h⟩ x hx => ?_, exists_forall₂⟩
  obtain ⟨y, -, hy⟩ := exists_of_mem_left h hx
  exact ⟨y, hy⟩

end Results

end Sideload
