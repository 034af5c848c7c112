import Sideload.Proofs.Include.Grammar
import Sideload.Proofs.Lists.Fronts

/-! # Names, columns and segments at the front of a text

A reader takes a text of the grammar off the front of what is left. The two halves of this are the
same for all readers: what is taken is a text of the value (`exists_spaced`, `readColumns_sound`,
`readSegment_sound`), and a text of the value is taken whenever what comes next cannot belong to it
(`Spaced.read`, `readColumns_complete`, `readSegment_complete`). A name ends where neither a blank
nor a name character follows (`Clear`), a column list at its closing bracket, a segment at a point,
at a comma or at the end of the text (`EndsSegment`). -/

namespace Sideload.Include

/-! ### Blanks and names at the front -/

/-- The text does not go on with a blank or a name character. -/
def Clear (cs : List Char) : Prop :=
  ∀ c ∈ cs.head?, Text.isBlank c = false ∧ isNameChar c = false

theorem Clear.cons {c : Char} (hb : Text.isBlank c = false) (hn : isNameChar c = false)
    (cs : List Char) : Clear (c :: cs) := by
  intro d hd
  rw [List.head?_cons, Option.mem_some] at hd
  exact hd ▸ ⟨hb, hn⟩

theorem skipBlanks_append {cs rest : List Char} (hcs : Blanks cs)
    (hrest : ∀ c ∈ rest.head?, Text.isBlank c = false) : skipBlanks (cs ++ rest) = rest :=
  dropWhile_append_of_head hcs hrest

theorem eq_append_skipBlanks (cs : List Char) : ∃ ds, Blanks ds ∧ cs = ds ++ skipBlanks cs :=
  ⟨cs.takeWhile Text.isBlank, fun _ => List.mem_takeWhile_imp, List.takeWhile_append_dropWhile.symm⟩

theorem isName_readName {cs : List Char} (h : readName cs ≠ []) :
    IsName (String.ofList (readName cs)) := by
  rw [IsName, String.toList_ofList]
  exact ⟨h, fun _ => List.mem_takeWhile_imp⟩

theorem head?_not_blank_of_isName {name : String} (h : IsName name) (cs : List Char) :
    ∀ c ∈ (name.toList ++ cs).head?, Text.isBlank c = false := by
  obtain ⟨c, ds, hds⟩ := List.exists_cons_of_ne_nil h.1
  intro d hd
  rw [hds, List.cons_append, List.head?_cons, Option.mem_some] at hd
  exact isBlank_of_isNameChar (h.2 d (by rw [hds, ← hd]; exact List.mem_cons_self))

/-- Behind a spaced name, the readers stand at what comes next. -/
theorem Spaced.read {name : String} {cs rest : List Char} (h : Spaced name cs)
    (hrest : Clear rest) :
    readName (skipBlanks (cs ++ rest)) = name.toList ∧
      skipBlanks (afterName (skipBlanks (cs ++ rest))) = rest := by
  obtain ⟨hname, before, after, hb, ha, rfl⟩ := h
  have hskip : skipBlanks ((before ++ (name.toList ++ after)) ++ rest) =
      name.toList ++ (after ++ rest) := by
    rw [List.append_assoc, List.append_assoc]
    exact skipBlanks_append hb (head?_not_blank_of_isName hname _)
  have hhead : ∀ c ∈ (after ++ rest).head?, isNameChar c = false := by
    cases after with
    | nil => exact fun c hc => (hrest c hc).2
    | cons c after =>
      intro d hd
      rw [List.cons_append, List.head?_cons, Option.mem_some] at hd
      by_contra hn
      have := isBlank_of_isNameChar (Bool.not_eq_false _ ▸ hn)
      rw [← hd, ha c List.mem_cons_self] at this
      exact Bool.noConfusion this
  rw [hskip]
  refine ⟨takeWhile_append_of_head hname.2 hhead, ?_⟩
  rw [afterName, dropWhile_append_of_head hname.2 hhead]
  exact skipBlanks_append ha fun c hc => (hrest c hc).1

/-- What the readers take off the front as a name is a spaced name. -/
theorem exists_spaced {cs : List Char} (h : readName (skipBlanks cs) ≠ []) :
    ∃ ds, cs = ds ++ skipBlanks (afterName (skipBlanks cs)) ∧
      Spaced (String.ofList (readName (skipBlanks cs))) ds := by
  obtain ⟨before, hb, hcs⟩ := eq_append_skipBlanks cs
  obtain ⟨after, ha, hafter⟩ := eq_append_skipBlanks (afterName (skipBlanks cs))
  refine ⟨before ++ (readName (skipBlanks cs) ++ after), ?_, isName_readName h, before, after, hb,
    ha, by rw [String.toList_ofList]⟩
  calc cs = before ++ skipBlanks cs := hcs
    _ = before ++ (readName (skipBlanks cs) ++ afterName (skipBlanks cs)) := by
      rw [readName, afterName, List.takeWhile_append_dropWhile]
    _ = _ := by rw [List.append_assoc, List.append_assoc, ← hafter]

/-! ### Columns -/

theorem ofList_readName {name : String} {cs : List Char} (h : readName cs = name.toList) :
    String.ofList (readName cs) = name := by
  rw [h, String.ofList_toList]

/-- What the reader of columns does behind a name that ends at a bar or at a closing bracket. -/
theorem readColumns_append {name : String} {start cs rest : List Char} {c : Char}
    (h : Spaced name cs) (hc : c = '|' ∨ c = ']') :
    readColumns start (cs ++ c :: rest) =
      if c = ']' then
        if endsColumns rest then .ok ([name], rest) else .error ⟨.trailingInput, rest⟩
      else (readColumns start rest).map fun r => (name :: r.1, r.2) := by
  have hclear : Clear (c :: rest) := by
    rcases hc with rfl | rfl <;> exact .cons (by decide) (by decide) rest
  obtain ⟨hname, hskip⟩ := h.read hclear
  have hne : readName (skipBlanks (cs ++ c :: rest)) ≠ [] := hname ▸ h.1.1
  rw [readColumns]
  split
  · next heq => rw [hskip] at heq; cases heq
  · next heq =>
    rw [hskip] at heq
    cases heq
    rw [if_pos hc, if_neg hne, ofList_readName hname]
    cases readColumns start rest <;> rfl

theorem readColumns_complete {columns : List String} {start cs rest : List Char}
    (h : Separated '|' Spaced columns cs) (hrest : endsColumns rest = true) :
    readColumns start (cs ++ ']' :: rest) = .ok (columns, rest) := by
  induction h with
  | one h => rw [readColumns_append h (Or.inr rfl), if_pos rfl, if_pos hrest]
  | more h _ ih =>
    rw [List.append_assoc, List.cons_append, readColumns_append h (Or.inl rfl),
      if_neg (by decide), ih]
    rfl

theorem readColumns_sound {columns : List String} {start cs rest : List Char}
    (h : readColumns start cs = .ok (columns, rest)) :
    endsColumns rest = true ∧ ∃ ds, cs = ds ++ ']' :: rest ∧ Separated '|' Spaced columns ds := by
  fun_induction readColumns start cs generalizing columns rest
  all_goals simp only [Except.ok.injEq, Prod.mk.injEq, reduceCtorEq] at h
  next cs rest' hname hends heq _ =>
    obtain ⟨rfl, rfl⟩ := h
    obtain ⟨ds, hcs, hds⟩ := exists_spaced hname
    exact ⟨hends, ds, by rw [← heq]; exact hcs, .one hds⟩
  next cs c rest' heq hc hname hclose columns' rest'' hr ih =>
    obtain ⟨rfl, rfl⟩ := h
    obtain ⟨hends, es, rfl, hes⟩ := ih hr
    obtain ⟨ds, hcs, hds⟩ := exists_spaced hname
    obtain rfl : c = '|' := hc.resolve_right hclose
    refine ⟨hends, ds ++ '|' :: es, ?_, .more hds hes⟩
    rw [hcs, heq, List.append_assoc, List.cons_append]

theorem readColumns_eq_ok_iff {columns : List String} {start cs rest : List Char} :
    readColumns start cs = .ok (columns, rest) ↔
      endsColumns rest = true ∧ ∃ ds, cs = ds ++ ']' :: rest ∧ Separated '|' Spaced columns ds := by
  constructor
  · exact readColumns_sound
  · rintro ⟨hrest, ds, rfl, hds⟩
    exact readColumns_complete hds hrest

/-! ### Segments -/

/-- The text is at its end or goes on with a point or a comma. -/
def EndsSegment (cs : List Char) : Prop := ∀ c ∈ cs.head?, c = '.' ∨ c = ','

theorem EndsSegment.clear {cs : List Char} (h : EndsSegment cs) : Clear cs := by
  intro c hc
  rcases h c hc with rfl | rfl <;> exact ⟨by decide, by decide⟩

theorem EndsSegment.endsColumns {cs rest : List Char} (hcs : Blanks cs) (h : EndsSegment rest) :
    endsColumns (cs ++ rest) = true := by
  cases cs with
  | cons c cs => simp [Include.endsColumns, hcs c List.mem_cons_self]
  | nil =>
    cases rest with
    | nil => rfl
    | cons c rest => rcases h c rfl with rfl | rfl <;> rfl

theorem readSegment_complete {s : Segment} {cs rest : List Char} (h : SegmentText s cs)
    (hrest : EndsSegment rest) :
    ∃ after, readSegment (skipBlanks (cs ++ rest)) = .ok (s, after) ∧ skipBlanks after = rest := by
  cases h with
  | bare h =>
    obtain ⟨hname, hskip⟩ := h.read hrest.clear
    refine ⟨_, ?_, hskip⟩
    rw [readSegment, if_neg (hname ▸ h.1.1), ofList_readName hname, hskip]
    split
    · next inside => simpa using hrest '[' rfl
    · rfl
  | @bracketed name columns cs ds es h hcolumns hes =>
    have hclear : Clear ('[' :: (ds ++ ']' :: (es ++ rest))) := .cons (by decide) (by decide) _
    obtain ⟨hname, hskip⟩ := h.read hclear
    refine ⟨es ++ rest, ?_, skipBlanks_append hes fun c hc => (hrest.clear c hc).1⟩
    have happ : cs ++ '[' :: (ds ++ ']' :: es) ++ rest =
        cs ++ '[' :: (ds ++ ']' :: (es ++ rest)) := by simp
    rw [happ, readSegment, if_neg (hname ▸ h.1.1), ofList_readName hname, hskip]
    simp only [readColumns_eq_ok_iff.mpr ⟨hrest.endsColumns hes, ds, rfl, hcolumns⟩]

theorem readSegment_sound {s : Segment} {cs after : List Char}
    (h : readSegment (skipBlanks cs) = .ok (s, after)) :
    ∃ ds, cs = ds ++ skipBlanks after ∧ SegmentText s ds := by
  rw [readSegment] at h
  split at h
  · cases h
  next hname =>
  obtain ⟨ds, hcs, hds⟩ := exists_spaced hname
  split at h
  · next inside heq =>
    split at h
    · next columns rest hr =>
      cases h
      obtain ⟨-, es, rfl, hes⟩ := readColumns_eq_ok_iff.mp hr
      obtain ⟨fs, hfs, hrest⟩ := eq_append_skipBlanks after
      refine ⟨ds ++ '[' :: (es ++ ']' :: fs), ?_, .bracketed hds hes hfs⟩
      rw [hcs, heq, List.append_assoc, List.cons_append, List.append_assoc, List.cons_append,
        ← hrest]
    · cases h
  · cases h
    exact ⟨ds, hcs, .bare hds⟩

end Sideload.Include
