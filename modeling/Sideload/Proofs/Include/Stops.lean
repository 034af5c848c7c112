import Sideload.Proofs.Include.Acceptance

/-! # Where readers stop

Whether it has read something or is stopped by a fault, a reader leaves an end of the text that it
was given (`leftBy`): `readSegment_suffix`, `readPath_suffix`, `readPaths_suffix`. A bracket that is
not closed is the reason why this says nothing more of columns, as it is reported at the segment in
front of them (`readColumns_suffix`). What is left behind a segment is less than the text from its
name on (`behind_of_readSegment`).

What is refused is refused where its readers stop (`parse_eq_error_iff`). -/

namespace Sideload.Include

/-! ### Columns and segments -/

/-- What is left of the text where a reader stops, whether it has read something or not. -/
def leftBy {α : Type} : Except Stop (α × List Char) → List Char
  | .ok (_, rest) => rest
  | .error stop => stop.left

theorem leftBy_map {α β : Type} (f : α → β) (r : Except Stop (α × List Char)) :
    leftBy (r.map fun x => (f x.1, x.2)) = leftBy r := by
  cases r <;> rfl

theorem skipBlanks_suffix (cs : List Char) : skipBlanks cs <:+ cs := List.dropWhile_suffix _

theorem afterName_suffix (cs : List Char) : afterName cs <:+ cs := List.dropWhile_suffix _

theorem suffix_of_skipBlanks {cs rest : List Char} {c : Char} (h : skipBlanks cs = c :: rest) :
    rest <:+ cs :=
  (List.suffix_cons c rest).trans (h ▸ skipBlanks_suffix cs)

/-- A bracket that is not closed is reported where it is told to, every other fault behind. -/
theorem readColumns_suffix (start cs : List Char) :
    leftBy (readColumns start cs) = start ∨ leftBy (readColumns start cs) <:+ cs := by
  have hfront : ∀ cs, skipBlanks (afterName (skipBlanks cs)) <:+ cs := fun cs =>
    (skipBlanks_suffix _).trans ((afterName_suffix _).trans (skipBlanks_suffix cs))
  fun_induction readColumns start cs with
  | case1 => exact Or.inl rfl
  | case2 cs c rest heq => exact Or.inr (heq ▸ hfront cs)
  | case3 cs rest _ _ heq => exact Or.inr ((List.suffix_cons _ rest).trans (heq ▸ hfront cs))
  | case4 cs rest _ _ heq => exact Or.inr ((List.suffix_cons _ rest).trans (heq ▸ hfront cs))
  | case5 cs c rest heq _ _ _ columns rest' hr ih =>
    rw [hr] at ih
    exact ih.imp_right fun ih => ih.trans ((List.suffix_cons c rest).trans (heq ▸ hfront cs))
  | case6 cs c rest heq _ _ _ stop hr ih =>
    rw [hr] at ih
    exact ih.imp_right fun ih => ih.trans ((List.suffix_cons c rest).trans (heq ▸ hfront cs))
  | case7 => exact Or.inl rfl
  | case8 cs c rest heq => exact Or.inr (heq ▸ hfront cs)

theorem readSegment_suffix (cs : List Char) : leftBy (readSegment cs) <:+ cs := by
  unfold readSegment
  split
  · exact List.suffix_refl cs
  · split
    · next inside hinside =>
      have hbelow : inside <:+ cs := (suffix_of_skipBlanks hinside).trans (afterName_suffix cs)
      have hcolumns := readColumns_suffix cs inside
      cases hr : readColumns cs inside with
      | ok r =>
        rw [hr] at hcolumns
        exact hcolumns.elim (fun h => h ▸ List.suffix_refl _) fun h => h.trans hbelow
      | error stop =>
        rw [hr] at hcolumns
        exact hcolumns.elim (fun h => h ▸ List.suffix_refl _) fun h => h.trans hbelow
    · exact afterName_suffix cs

/-! ### Paths -/

section Path
variable {limit : Option Nat} {count : Nat} {cs : List Char}

theorem readPath_of_error {stop : Stop} (h : readSegment (skipBlanks cs) = .error stop) :
    readPath limit count cs = .error stop := by
  rw [readPath]
  split
  · next heq => rw [h] at heq; cases heq; rfl
  · next heq => rw [h] at heq; cases heq

/-- The first segment beyond the limit is read before it is reported. -/
theorem readPath_of_limit {s : Segment} {after : List Char}
    (h : readSegment (skipBlanks cs) = .ok (s, after)) :
    readPath (some count) count cs = .error ⟨.tooDeep count, skipBlanks cs⟩ := by
  rw [readPath]
  split
  · next heq => rw [h] at heq; cases heq
  · rw [if_pos rfl]

/-- Behind a segment within the limit the reader goes on, and what is below reads on behind it. -/
theorem readPath_suffix_after {s : Segment} {after : List Char}
    (h : readSegment (skipBlanks cs) = .ok (s, after)) (hlimit : limit ≠ some count)
    (hbelow : ∀ rest, rest.length < cs.length → leftBy (readPath limit (count + 1) rest) <:+ rest) :
    leftBy (readPath limit count cs) <:+ skipBlanks after := by
  rw [readPath_of_readSegment h hlimit]
  cases hrest : skipBlanks after with
  | nil => exact List.nil_suffix
  | cons c rest =>
    have hlength : rest.length < cs.length :=
      (length_of_skipBlanks hrest).trans (length_of_readSegment h)
    dsimp only
    split
    · rw [leftBy_map]
      exact (hbelow rest hlength).trans (List.suffix_cons c rest)
    · split
      · exact List.suffix_refl _
      · split <;> exact List.suffix_refl _

end Path

theorem readPath_suffix (limit : Option Nat) (count : Nat) (cs : List Char) :
    leftBy (readPath limit count cs) <:+ cs := by
  have hsegment := (readSegment_suffix (skipBlanks cs)).trans (skipBlanks_suffix cs)
  cases hs : readSegment (skipBlanks cs) with
  | error stop =>
    rw [hs] at hsegment
    rw [readPath_of_error hs]
    exact hsegment
  | ok r =>
    obtain ⟨s, after⟩ := r
    rw [hs] at hsegment
    by_cases hlimit : limit = some count
    · rw [hlimit, readPath_of_limit hs]
      exact skipBlanks_suffix cs
    · have hafter := readPath_suffix_after hs hlimit fun rest _ =>
        readPath_suffix limit (count + 1) rest
      exact hafter.trans ((skipBlanks_suffix after).trans hsegment)
termination_by cs.length

theorem readPaths_of_error {limit : Option Nat} {cs : List Char} {stop : Stop}
    (h : readPath limit 0 cs = .error stop) : readPaths limit cs = .error stop := by
  rw [readPaths]
  split
  · next heq => rw [h] at heq; cases heq; rfl
  · next heq => rw [h] at heq; cases heq
  · next heq => rw [h] at heq; cases heq

theorem readPaths_suffix (limit : Option Nat) (cs : List Char) :
    leftBy (readPaths limit cs) <:+ cs := by
  have hpath := readPath_suffix limit 0 cs
  cases hp : readPath limit 0 cs with
  | error stop =>
    rw [hp] at hpath
    rw [readPaths_of_error hp]
    exact hpath
  | ok r =>
    obtain ⟨path, rest⟩ := r
    rw [hp] at hpath
    have hlength := length_readPath hp
    rw [readPaths_of_readPath hp]
    cases rest with
    | nil => exact List.nil_suffix
    | cons c rest =>
      have hshort : rest.length < cs.length := by
        rw [List.length_cons] at hlength
        omega
      dsimp only
      rw [leftBy_map]
      exact (readPaths_suffix limit rest).trans ((List.suffix_cons c rest).trans hpath)
termination_by cs.length

/-! ### What is left behind -/

/-- A text that is left behind another one. -/
def Behind (ds cs : List Char) : Prop := ds <:+ cs ∧ ds.length < cs.length

theorem Behind.byteSize_lt {cs ds : List Char} (h : Behind ds cs) :
    Text.byteSize ds < Text.byteSize cs := by
  obtain ⟨⟨front, rfl⟩, hlength⟩ := h
  obtain ⟨c, front, rfl⟩ := List.exists_cons_of_ne_nil (l := front) (by rintro rfl; simp at hlength)
  have hc := c.utf8Size_pos
  rw [List.cons_append, Text.byteSize, Text.byteSize_append]
  omega

theorem Behind.of_suffix {cs ds es : List Char} (h : Behind ds cs) (hes : es <:+ ds) :
    Behind es cs :=
  ⟨hes.trans h.1, hes.length_le.trans_lt h.2⟩

/-- Behind a segment there is less of the text than from its name on. -/
theorem behind_of_readSegment {cs after : List Char} {s : Segment}
    (h : readSegment cs = .ok (s, after)) : Behind (skipBlanks after) cs := by
  have hsuffix := readSegment_suffix cs
  rw [h] at hsuffix
  exact Behind.of_suffix ⟨hsuffix, length_readSegment h⟩ (skipBlanks_suffix after)

/-! ### Expressions -/

/-- What is refused is not blank, and its readers have stopped. -/
theorem parse_eq_error_iff {options : Options} {e : String} {fault : Malformed} :
    parse options e = .error fault ↔ ¬ Blanks e.toList ∧ ∃ stop,
      readPaths options.maxDepth e.toList = .error stop ∧
      fault = ⟨e, Text.byteSize e.toList - Text.byteSize stop.left, stop.reason⟩ := by
  have hall : e.toList.all Text.isBlank = true ↔ Blanks e.toList := List.all_eq_true
  unfold parse parsePaths
  dsimp only
  by_cases hblanks : Blanks e.toList
  · rw [if_pos (hall.mpr hblanks)]
    exact iff_of_false (fun h => nomatch h) fun h => h.1 hblanks
  · rw [if_neg (mt hall.mp hblanks)]
    cases readPaths options.maxDepth e.toList with
    | ok r => exact iff_of_false (fun h => nomatch h) fun ⟨_, _, h, _⟩ => nomatch h
    | error stop => simp [Except.map, hblanks, eq_comm]

end Sideload.Include
