import Mathlib.Data.List.Nodup

/-! # First occurrences

`List.eraseDups` keeps the first occurrence of everything in a list, in order. So nothing occurs
twice (`nodup_eraseDups`), a list where nothing does stays as it is (`eraseDups_of_nodup`), one
more element is added behind the others unless it has occurred before (`eraseDups_concat`), and
elements that have all occurred before add nothing (`eraseDups_append_of_subset`). -/

namespace Sideload

variable {α : Type} [BEq α] [LawfulBEq α]

theorem nodup_eraseDups : ∀ xs : List α, xs.eraseDups.Nodup
  | [] => by rw [List.eraseDups_nil]; exact List.nodup_nil
  | x :: xs => by
    rw [List.eraseDups_cons, List.nodup_cons]
    refine ⟨fun h => ?_, nodup_eraseDups _⟩
    have hx := (List.mem_filter.mp (List.mem_eraseDups.mp h)).2
    rw [beq_self_eq_true] at hx
    cases hx
termination_by xs => xs.length
decreasing_by exact Nat.lt_succ_of_le (List.length_filter_le _ _)

theorem eraseDups_of_nodup : ∀ {xs : List α}, xs.Nodup → xs.eraseDups = xs
  | [], _ => List.eraseDups_nil
  | x :: xs, h => by
    obtain ⟨hx, hxs⟩ := List.nodup_cons.mp h
    have hrest : (xs.filter fun y => !y == x) = xs := by
      refine List.filter_eq_self.mpr fun y hy => ?_
      have hne : y ≠ x := fun e => hx (e ▸ hy)
      simpa using hne
    rw [List.eraseDups_cons, hrest, eraseDups_of_nodup hxs]

theorem eraseDups_concat [DecidableEq α] (xs : List α) (x : α) :
    (xs ++ [x]).eraseDups = if x ∈ xs then xs.eraseDups else xs.eraseDups ++ [x] := by
  rw [List.eraseDups_append]
  by_cases h : x ∈ xs <;> simp [List.removeAll, List.eraseDups_cons, h]

theorem eraseDups_append_of_subset {xs ys : List α} (h : ∀ y ∈ ys, y ∈ xs) :
    (xs ++ ys).eraseDups = xs.eraseDups := by
  have hnone : ys.removeAll xs = [] :=
    List.filter_eq_nil_iff.mpr fun y hy => by simpa using h y hy
  rw [List.eraseDups_append, hnone, List.eraseDups_nil, List.append_nil]

theorem eraseDups_eq_nil_iff {xs : List α} : xs.eraseDups = [] ↔ xs = [] := by
  simp only [List.eq_nil_iff_forall_not_mem, List.mem_eraseDups]

end Sideload
