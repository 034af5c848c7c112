import Mathlib.Data.List.TakeWhile

/-! # The front of a list

A list is taken apart at the first element that does not belong to its front: by a property
(`takeWhile_append_of_head`), or at a mark that the front does not have (`append_cons_inj`,
`splitOn_append_cons`). What is dropped or taken in front of an element does not depend on what
stands behind it (`dropWhile_append_cons`, `takeWhile_append_cons`). -/

namespace Sideload

variable {α : Type}

section Property
variable {p : α → Bool} {front rest : List α}

theorem takeWhile_append_of_head (hfront : ∀ x ∈ front, p x = true)
    (hrest : ∀ x ∈ rest.head?, p x = false) : (front ++ rest).takeWhile p = front := by
  rw [List.takeWhile_append_of_pos hfront]
  cases rest with
  | nil => rw [List.takeWhile_nil, List.append_nil]
  | cons x rest =>
    have hx : p x = false := hrest x rfl
    rw [List.takeWhile_cons_of_neg (by simp [hx]), List.append_nil]

theorem dropWhile_append_of_head (hfront : ∀ x ∈ front, p x = true)
    (hrest : ∀ x ∈ rest.head?, p x = false) : (front ++ rest).dropWhile p = rest := by
  rw [List.dropWhile_append_of_pos hfront]
  cases rest with
  | nil => rfl
  | cons x rest =>
    have hx : p x = false := hrest x rfl
    rw [List.dropWhile_cons_of_neg (by simp [hx])]

/-- What is left in front of an element is left there whatever stands behind it. -/
theorem dropWhile_append_cons {x : α} {left : List α} : ∀ {front : List α},
    (front ++ x :: rest).dropWhile p = left ++ x :: rest →
      ∀ rest', (front ++ x :: rest').dropWhile p = left ++ x :: rest'
  | [], h, rest' => by
    have hlength := congrArg List.length h
    by_cases hx : p x = true
    · -- then something behind the element would be left, and the element in front of it
      rw [List.nil_append, List.dropWhile_cons_of_pos hx, List.length_append,
        List.length_cons] at hlength
      have hle := List.length_dropWhile_le p rest
      omega
    · rw [List.nil_append, List.dropWhile_cons_of_neg hx] at h
      obtain rfl : left = [] := List.self_eq_append_left.mp h
      exact List.dropWhile_cons_of_neg hx
  | y :: front, h, rest' => by
    by_cases hy : p y = true
    · rw [List.cons_append, List.dropWhile_cons_of_pos hy] at h ⊢
      exact dropWhile_append_cons h rest'
    · rw [List.cons_append, List.dropWhile_cons_of_neg hy] at h ⊢
      have hleft : y :: front = left := List.append_cancel_right h
      rw [← hleft, List.cons_append]

theorem takeWhile_append_cons {x : α} {left : List α}
    (h : (front ++ x :: rest).dropWhile p = left ++ x :: rest) (rest' : List α) :
    (front ++ x :: rest').takeWhile p = (front ++ x :: rest).takeWhile p := by
  have hsplit : ∀ rest, (front ++ x :: rest).dropWhile p = left ++ x :: rest →
      (front ++ x :: rest).takeWhile p ++ left = front := by
    intro rest hleft
    have happ := List.takeWhile_append_dropWhile (p := p) (l := front ++ x :: rest)
    rw [hleft, ← List.append_assoc] at happ
    exact List.append_cancel_right happ
  have hsame := (hsplit _ (dropWhile_append_cons h rest')).trans (hsplit _ h).symm
  exact List.append_cancel_right hsame

end Property

section Mark
variable {mark : α}

/-- Lists are split alike at the first place of a mark. -/
theorem append_cons_inj : ∀ {front front' rest rest' : List α}, mark ∉ front → mark ∉ front' →
    front ++ mark :: rest = front' ++ mark :: rest' → front = front' ∧ rest = rest'
  | [], [], _, _, _, _, h => ⟨rfl, (List.cons.inj h).2⟩
  | [], _ :: _, _, _, _, hmark, h => absurd ((List.cons.inj h).1 ▸ List.mem_cons_self) hmark
  | _ :: _, [], _, _, hmark, _, h => absurd ((List.cons.inj h).1 ▸ List.mem_cons_self) hmark
  | x :: front, y :: front', _, _, hx, hy, h => by
    obtain ⟨rfl, htail⟩ := List.cons.inj h
    obtain ⟨rfl, hrest⟩ := append_cons_inj (List.not_mem_of_not_mem_cons hx)
      (List.not_mem_of_not_mem_cons hy) htail
    exact ⟨rfl, hrest⟩

variable [DecidableEq α] {front : List α} (h : mark ∉ front)
include h

theorem splitOn_append_cons (rest : List α) :
    (front ++ mark :: rest).splitOn mark = front :: rest.splitOn mark :=
  List.splitOnP_append_cons_of_forall_mem
    (fun _ hx => beq_false_of_ne (ne_of_mem_of_not_mem hx h)) mark (beq_self_eq_true mark) rest

theorem splitOn_of_not_mem : front.splitOn mark = [front] := by
  have hsplit : ([mark].intercalate [front]).splitOn mark = [front] :=
    List.splitOn_intercalate mark (by simpa using h) (List.cons_ne_nil _ _)
  simpa using hsplit

end Mark

end Sideload
