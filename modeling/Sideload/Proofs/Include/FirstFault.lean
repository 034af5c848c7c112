import Sideload.Proofs.Include.DepthLimit
import Sideload.Proofs.Include.SegmentStarts

/-! # Where an expression goes wrong first

A fault stands where the text goes wrong: what is in front of it can still be completed, and with
the character at the fault it cannot. Both are shown for the one segment that is at fault, since
what stands before belongs to the grammar (`FaultBehind`). A reader that stops at a character has not
looked behind it, so it stops there whatever follows (`ColumnsStop`, `SegmentStop`); then no
expression is accepted that begins so (`BeginsSegment.deadEnd`).

Two faults stand at the start of their segment instead: a bracket that is not closed
(`OpensGroup`), which is only seen later, and a segment beyond the limit.

`parse_fault` puts this together for all faults (`Explains`). -/

namespace Sideload.Include

/-! ### Columns -/

/-- The first bracket of a text, if there is any, does not close a column list. -/
def Unclosed (cs : List Char) : Prop := cs.find? (fun c => c = '[' || c = ']') ≠ some ']'

theorem unclosed_append_iff {cs : List Char} (hopen : '[' ∉ cs) (hclose : ']' ∉ cs)
    (rest : List Char) : Unclosed (cs ++ rest) ↔ Unclosed rest := by
  have hnone : cs.find? (fun c => c = '[' || c = ']') = none := by
    rw [List.find?_eq_none]
    intro c hc
    have hne : c ≠ '[' ∧ c ≠ ']' := ⟨fun h => hopen (h ▸ hc), fun h => hclose (h ▸ hc)⟩
    simp [hne]
  unfold Unclosed
  rw [List.find?_append, hnone, Option.none_or]

theorem not_blank_of_skipBlanks {cs rest : List Char} {c : Char} (h : skipBlanks cs = c :: rest) :
    Text.isBlank c = false := by
  have hhead := List.head?_dropWhile_not Text.isBlank cs
  rw [show cs.dropWhile Text.isBlank = c :: rest from h] at hhead
  simpa using hhead

theorem isName_a : IsName "a" := ⟨List.cons_ne_nil _ _, List.forall_mem_singleton.mpr rfl⟩

/-- What a reader of columns passes over at the front of a text is a name, or can still become
one. -/
theorem exists_spaced_append (cs : List Char) :
    ∃ front, cs = front ++ skipBlanks (afterName (skipBlanks cs)) ∧
      (readName (skipBlanks cs) ≠ [] → Spaced (String.ofList (readName (skipBlanks cs))) front) ∧
      ∃ name rest, Spaced name (front ++ rest) := by
  by_cases hname : readName (skipBlanks cs) = []
  · obtain ⟨front, hfront, hcs⟩ := eq_append_skipBlanks cs
    have hafter : afterName (skipBlanks cs) = skipBlanks cs := by
      have happ := List.takeWhile_append_dropWhile (p := isNameChar) (l := skipBlanks cs)
      rwa [show (skipBlanks cs).takeWhile isNameChar = [] from hname] at happ
    refine ⟨front, ?_, fun h => absurd hname h, "a", "a".toList,
      isName_a.spaced.blanks_append hfront⟩
    rw [hafter, skipBlanks_skipBlanks]
    exact hcs
  · obtain ⟨front, hcs, hspaced⟩ := exists_spaced hname
    exact ⟨front, hcs, fun _ => hspaced, _, [], (List.append_nil front).symm ▸ hspaced⟩

theorem skipBlanks_append_cons {front rest : List Char} {c : Char}
    (h : skipBlanks (front ++ c :: rest) = c :: rest) (rest' : List Char) :
    skipBlanks (front ++ c :: rest') = c :: rest' :=
  dropWhile_append_cons (show skipBlanks (front ++ c :: rest) = [] ++ c :: rest from h) rest'

/-- The readers of a name do not look behind a character that is left. -/
theorem readName_append_cons {front left rest : List Char} {c : Char}
    (h : afterName (front ++ c :: rest) = left ++ c :: rest) (rest' : List Char) :
    readName (front ++ c :: rest') = readName (front ++ c :: rest) ∧
      afterName (front ++ c :: rest') = left ++ c :: rest' :=
  ⟨takeWhile_append_cons h rest', dropWhile_append_cons h rest'⟩

/-- The readers of a name and of the blanks around it do not look behind the character where they
stop. -/
theorem read_append_cons {front rest : List Char} {c : Char}
    (h : skipBlanks (afterName (skipBlanks (front ++ c :: rest))) = c :: rest)
    (rest' : List Char) :
    readName (skipBlanks (front ++ c :: rest')) = readName (skipBlanks (front ++ c :: rest)) ∧
      skipBlanks (afterName (skipBlanks (front ++ c :: rest'))) = c :: rest' := by
  have hafter := skipBlanks_suffix (afterName (skipBlanks (front ++ c :: rest)))
  rw [h] at hafter
  obtain ⟨before, hbefore⟩ := hafter.trans (afterName_suffix _)
  obtain ⟨behind, hbehind⟩ := hafter
  have hskip : skipBlanks (front ++ c :: rest') = before ++ c :: rest' :=
    dropWhile_append_cons hbefore.symm rest'
  rw [← hbefore] at hbehind h ⊢
  obtain ⟨hread, hname⟩ := readName_append_cons hbehind.symm rest'
  rw [← hbehind] at h
  rw [hskip, hname]
  exact ⟨hread, skipBlanks_append_cons h rest'⟩

/-- What a reason says of the character that is at fault. -/
inductive Blames : Reason → Char → Prop where
  | invalidCharacter (c : Char) : Blames (.invalidCharacter c) c
  | emptyColumn {c : Char} : c = '|' ∨ c = ']' → Blames .emptyColumn c
  | trailingInput (c : Char) : Blames .trailingInput c
  | emptySegment {c : Char} : c = '.' ∨ c = ',' ∨ c = '[' → Blames .emptySegment c
  | unbalancedBracket {c : Char} : c = '[' ∨ c = ']' → Blames .unbalancedBracket c

/-- A reader of columns stops at a character behind a front, whatever follows, and the columns of
the front can be closed. -/
structure ColumnsStop (reason : Reason) (front : List Char) (c : Char) : Prop where
  not_blank : Text.isBlank c = false
  blames : Blames reason c
  closes : ∃ columns cs rest, front ++ rest = cs ++ [']'] ∧ Separated '|' Spaced columns cs
  stops : ∀ start rest, readColumns start (front ++ c :: rest) = .error ⟨reason, c :: rest⟩

section Columns
variable {start cs rest : List Char} {c : Char}
  (h : skipBlanks (afterName (skipBlanks cs)) = c :: rest)
include h

theorem readColumns_emptyColumn (hc : c = '|' ∨ c = ']') (hname : readName (skipBlanks cs) = []) :
    readColumns start cs = .error ⟨.emptyColumn, c :: rest⟩ := by
  rw [readColumns]
  split
  · next heq => rw [h] at heq; cases heq
  · next heq =>
    rw [h] at heq
    cases heq
    rw [if_pos hc, if_pos hname]

theorem readColumns_invalidCharacter (hc : ¬ (c = '|' ∨ c = ']')) (hopen : c ≠ '[') :
    readColumns start cs = .error ⟨.invalidCharacter c, c :: rest⟩ := by
  rw [readColumns]
  split
  · next heq => rw [h] at heq; cases heq
  · next heq =>
    rw [h] at heq
    cases heq
    rw [if_neg hc, if_neg hopen]

end Columns

/-- Columns go wrong because their bracket is not closed, or at a character. -/
inductive ColumnsFail (start cs : List Char) : Stop → Prop where
  | unclosed : Unclosed cs → ColumnsFail start cs ⟨.unbalancedBracket, start⟩
  | atCharacter {reason : Reason} {front rest : List Char} {c : Char} : cs = front ++ c :: rest →
      ColumnsStop reason front c → ColumnsFail start cs ⟨reason, c :: rest⟩

theorem Spaced.unclosed_append_iff {name : String} {front ext : List Char}
    (h : Spaced name (front ++ ext)) (rest : List Char) :
    Unclosed (front ++ rest) ↔ Unclosed rest := by
  have hnot : ∀ {c}, IsMark c → c ∉ front := fun hc hmem =>
    h.not_mem hc (List.mem_append_left ext hmem)
  exact Include.unclosed_append_iff (hnot ⟨by decide, by decide⟩) (hnot ⟨by decide, by decide⟩) rest

/-- A bracket that is not closed behind a bar is not closed in front of it. -/
theorem ColumnsFail.bar {start cs rest' : List Char} {name : String} {stop : Stop}
    (hname : Spaced name cs) (h : ColumnsFail start rest' stop) :
    ColumnsFail start (cs ++ '|' :: rest') stop := by
  cases h with
  | unclosed h =>
    rw [← List.append_nil cs] at hname
    refine .unclosed ((hname.unclosed_append_iff _).mpr ?_)
    unfold Unclosed
    rwa [List.find?_cons_of_neg (by decide)]
  | @atCharacter reason front rest c hrest h =>
    have hcs : cs ++ '|' :: rest' = (cs ++ '|' :: front) ++ c :: rest := by simp [hrest]
    refine .atCharacter hcs ⟨h.not_blank, h.blames, ?_, ?_⟩
    · obtain ⟨columns, ds, ext, hclose, hcolumns⟩ := h.closes
      refine ⟨name :: columns, cs ++ '|' :: ds, ext, ?_, .more hname hcolumns⟩
      rw [List.append_assoc, List.append_assoc, List.cons_append, List.cons_append, hclose]
    · intro start rest
      rw [List.append_assoc, List.cons_append, readColumns_append hname (Or.inl rfl),
        if_neg (by decide), h.stops]
      rfl

/-- What stands behind the closing bracket is at fault, and nothing behind that counts. -/
theorem columnsStop_trailingInput {name : String} {cs rest : List Char} {c : Char}
    (hname : Spaced name cs) (hends : endsColumns (c :: rest) ≠ true) :
    ColumnsStop .trailingInput (cs ++ [']']) c where
  not_blank := by
    cases hb : Text.isBlank c with
    | false => rfl
    | true => simp [endsColumns, hb] at hends
  blames := .trailingInput c
  closes := ⟨[name], cs, [], List.append_nil _, .one hname⟩
  stops start rest' := by
    have hends' : ¬ endsColumns (c :: rest') = true := hends
    rw [List.append_assoc, List.singleton_append, readColumns_append hname (Or.inr rfl), if_pos rfl,
      if_neg hends']

/-- A character at which a reader of columns stops behind what may still become a name. -/
theorem columnsStop_of_skipBlanks {front ext rest : List Char} {name : String} {c : Char}
    {reason : Reason} (h : skipBlanks (afterName (skipBlanks (front ++ c :: rest))) = c :: rest)
    (hname : Spaced name (front ++ ext)) (hblames : Blames reason c)
    (hstops : ∀ start cs rest', skipBlanks (afterName (skipBlanks cs)) = c :: rest' →
      readName (skipBlanks cs) = readName (skipBlanks (front ++ c :: rest)) →
      readColumns start cs = .error ⟨reason, c :: rest'⟩) : ColumnsStop reason front c where
  not_blank := not_blank_of_skipBlanks h
  blames := hblames
  closes := ⟨[name], front ++ ext, ext ++ [']'], (List.append_assoc front ext [']']).symm,
    .one hname⟩
  stops start rest' := by
    obtain ⟨hread, hskip⟩ := read_append_cons h rest'
    exact hstops start _ rest' hskip hread

theorem columnsFail_of_readColumns {start cs : List Char} {stop : Stop}
    (h : readColumns start cs = .error stop) : ColumnsFail start cs stop := by
  fun_induction readColumns start cs generalizing stop with
  -- the text ends inside the brackets
  | case1 cs hend =>
    cases h
    obtain ⟨front, hcs, -, name, ext, hname⟩ := exists_spaced_append cs
    rw [hcs, hend]
    exact .unclosed ((hname.unclosed_append_iff []).mpr (Option.some_ne_none ']').symm)
  -- a mark without a name in front of it
  | case2 cs c rest hrest hc hempty =>
    cases h
    obtain ⟨front, hcs, -, name, ext, hname⟩ := exists_spaced_append cs
    rw [hrest] at hcs
    subst hcs
    refine .atCharacter rfl (columnsStop_of_skipBlanks hrest hname (.emptyColumn hc) ?_)
    exact fun start cs rest' hskip hread => readColumns_emptyColumn hskip hc (hread.trans hempty)
  | case3 => cases h
  -- something stands behind the closing bracket
  | case4 cs rest hname hends hrest =>
    cases h
    obtain ⟨front, hcs, hspaced, -⟩ := exists_spaced_append cs
    rw [hrest, List.append_cons] at hcs
    cases rest with
    | nil => exact absurd rfl hends
    | cons c rest => exact .atCharacter hcs (columnsStop_trailingInput (hspaced hname) hends)
  | case5 => cases h
  -- the fault is behind a bar
  | case6 cs c rest hrest hc hname hclose stop' hcolumns ih =>
    cases h
    obtain ⟨front, hcs, hspaced, -⟩ := exists_spaced_append cs
    obtain rfl : c = '|' := hc.resolve_right hclose
    rw [hcs, hrest]
    exact (ih hcolumns).bar (hspaced hname)
  -- another bracket is opened
  | case7 cs rest hrest hc =>
    cases h
    obtain ⟨front, hcs, -, name, ext, hname⟩ := exists_spaced_append cs
    rw [hcs, hrest]
    refine .unclosed ((hname.unclosed_append_iff _).mpr ?_)
    unfold Unclosed
    rw [List.find?_cons_of_pos (by decide)]
    decide
  -- what stands behind the name is no mark
  | case8 cs c rest hrest hc hopen =>
    cases h
    obtain ⟨front, hcs, -, name, ext, hname⟩ := exists_spaced_append cs
    rw [hrest] at hcs
    subst hcs
    refine .atCharacter rfl (columnsStop_of_skipBlanks hrest hname (.invalidCharacter c) ?_)
    exact fun start cs rest' hskip _ => readColumns_invalidCharacter hskip hc hopen

/-! ### Segments -/

/-- The text of a segment whose bracket is not closed before another one is opened or the text
ends. -/
def OpensGroup (cs : List Char) : Prop :=
  ∃ (name : String) (blanks inside : List Char),
    cs = name.toList ++ (blanks ++ '[' :: inside) ∧ IsName name ∧ Blanks blanks ∧ Unclosed inside

/-- A reader of a path stops at a character in its first segment or right behind it, whatever
follows, and what stands in front of the character can be completed to a segment. -/
structure SegmentStop (reason : Reason) (front : List Char) (c : Char) : Prop where
  not_blank : Text.isBlank c = false
  blames : Blames reason c
  completes : ∃ s rest, SegmentText s (front ++ rest)
  stops : ∀ count rest, readPath none count (front ++ c :: rest) = .error ⟨reason, c :: rest⟩

/-- A segment goes wrong because it is missing at the end of the text, or its bracket is not closed,
or at a character. -/
inductive SegmentFail (cs : List Char) : Stop → Prop where
  | atEnd : cs = [] → SegmentFail cs ⟨.emptySegment, []⟩
  | unclosed : OpensGroup cs → SegmentFail cs ⟨.unbalancedBracket, cs⟩
  | atCharacter {reason : Reason} {front rest : List Char} {c : Char} : cs = front ++ c :: rest →
      SegmentStop reason front c → SegmentFail cs ⟨reason, c :: rest⟩

theorem skipBlanks_cons {c : Char} (h : Text.isBlank c = false) (rest : List Char) :
    skipBlanks (c :: rest) = c :: rest :=
  List.dropWhile_cons_of_neg (by simp [h])

theorem readName_cons_eq_nil_iff {c : Char} {rest : List Char} :
    readName (c :: rest) = [] ↔ isNameChar c = false := by
  unfold readName
  rw [List.takeWhile_cons]
  cases isNameChar c <;> simp

theorem blames_missingName (c : Char) (rest : List Char) : Blames (missingName (c :: rest)) c := by
  simp only [missingName]
  split
  · next h => exact .emptySegment h
  · split
    · next h => exact .unbalancedBracket (Or.inr h)
    · exact .invalidCharacter c

/-- A character that stands where a name should begin. -/
theorem segmentStop_missingName {c : Char} {rest : List Char}
    (hskip : skipBlanks (c :: rest) = c :: rest) (hname : readName (c :: rest) = []) :
    SegmentStop (missingName (c :: rest)) [] c where
  not_blank := not_blank_of_skipBlanks hskip
  blames := blames_missingName c rest
  completes := ⟨_, _, .bare isName_a.spaced⟩
  stops count rest' := by
    have hname' : readName (c :: rest') = [] :=
      readName_cons_eq_nil_iff.mpr (readName_cons_eq_nil_iff.mp hname)
    refine readPath_of_error ?_
    rw [List.nil_append, skipBlanks_cons (not_blank_of_skipBlanks hskip), readSegment,
      if_pos hname']
    rfl

/-- What a reader of segments does behind a name and an opening bracket. -/
theorem readSegment_bracket {name : String} {cs : List Char} (h : Spaced name cs)
    (inside : List Char) : ∃ start, readSegment (skipBlanks (cs ++ '[' :: inside)) =
      (readColumns start inside).map fun r => (⟨name, some r.1⟩, r.2) := by
  have hclear : Clear ('[' :: inside) := .cons (by decide) (by decide) _
  obtain ⟨hname, hskip⟩ := h.read hclear
  refine ⟨skipBlanks (cs ++ '[' :: inside), ?_⟩
  rw [readSegment, if_neg (hname ▸ h.1.1), ofList_readName hname, hskip]
  cases hr : readColumns (skipBlanks (cs ++ '[' :: inside)) inside <;> simp only [hr, Except.map]

theorem ColumnsStop.segmentStop {name : String} {cs front : List Char} {c : Char} {reason : Reason}
    (hname : Spaced name cs) (h : ColumnsStop reason front c) :
    SegmentStop reason (cs ++ '[' :: front) c where
  not_blank := h.not_blank
  blames := h.blames
  completes := by
    obtain ⟨columns, ds, rest, hclose, hcolumns⟩ := h.closes
    refine ⟨⟨name, some columns⟩, rest, ?_⟩
    rw [List.append_assoc, List.cons_append, hclose]
    exact .bracketed hname hcolumns nofun
  stops count rest := by
    obtain ⟨start, hsegment⟩ := readSegment_bracket hname (front ++ c :: rest)
    rw [h.stops] at hsegment
    refine readPath_of_error ?_
    rw [List.append_assoc, List.cons_append]
    exact hsegment

theorem segmentFail_of_readSegment {cs : List Char} {stop : Stop} (hskip : skipBlanks cs = cs)
    (h : readSegment cs = .error stop) : SegmentFail cs stop := by
  rw [readSegment] at h
  split at h
  · next hname =>
    cases h
    cases cs with
    | nil => exact .atEnd rfl
    | cons c rest => exact .atCharacter rfl (segmentStop_missingName hskip hname)
  · next hname =>
    have hcs : cs = readName cs ++ afterName cs := List.takeWhile_append_dropWhile.symm
    obtain ⟨blanks, hblanks, hafter⟩ := eq_append_skipBlanks (afterName cs)
    have hIsName := isName_readName hname
    split at h
    · next inside hinside =>
      rw [hinside] at hafter
      rw [hafter] at hcs
      split at h
      · cases h
      · next stop' hcolumns =>
        cases h
        cases columnsFail_of_readColumns hcolumns with
        | unclosed hunclosed =>
          refine .unclosed ⟨String.ofList (readName cs), blanks, inside, ?_, hIsName, hblanks,
            hunclosed⟩
          rwa [String.toList_ofList]
        | @atCharacter reason front rest c hfront hstop =>
          have hspaced : Spaced (String.ofList (readName cs)) (readName cs ++ blanks) :=
            ⟨hIsName, [], blanks, nofun, hblanks, by rw [String.toList_ofList]; rfl⟩
          refine .atCharacter ?_ (hstop.segmentStop hspaced)
          rw [List.append_assoc, List.append_assoc, List.cons_append, ← hfront]
          exact hcs
    · cases h

/-! ### Behind a segment -/

theorem endsColumns_append_cons (cs rest rest' : List Char) (c : Char) :
    endsColumns (cs ++ c :: rest) = endsColumns (cs ++ c :: rest') := by
  cases cs <;> rfl

section Behind
variable {front rest : List Char} {c : Char} (hname : readName (front ++ c :: rest) ≠ [])
include hname

theorem readSegment_columns_append_cons {start inside blanks : List Char} {columns : List String}
    (hinside : skipBlanks (afterName (front ++ c :: rest)) = '[' :: inside)
    (hcolumns : readColumns start inside = .ok (columns, blanks ++ c :: rest))
    (rest' : List Char) : readSegment (front ++ c :: rest') =
      .ok (⟨String.ofList (readName (front ++ c :: rest)), some columns⟩,
        blanks ++ c :: rest') := by
  obtain ⟨hends, ds, rfl, hds⟩ := readColumns_sound hcolumns
  obtain ⟨es, hes⟩ := hinside ▸ skipBlanks_suffix (afterName (front ++ c :: rest))
  have hinner : ∀ rest, '[' :: (ds ++ ']' :: (blanks ++ c :: rest)) =
      '[' :: (ds ++ ']' :: blanks) ++ c :: rest := by simp
  rw [hinner] at hinside hes
  rw [← List.append_assoc] at hes
  obtain ⟨hread, hleft⟩ := readName_append_cons hes.symm rest'
  rw [← hes] at hinside
  have hinside' := dropWhile_append_cons hinside rest'
  rw [← hleft, ← hinner] at hinside'
  rw [endsColumns_append_cons _ _ rest'] at hends
  rw [readSegment, hread, if_neg hname, skipBlanks, hinside']
  simp only [readColumns_complete hds hends]

theorem readSegment_bare_append_cons {blanks : List Char}
    (hafter : afterName (front ++ c :: rest) = blanks ++ c :: rest)
    (hskip : skipBlanks (blanks ++ c :: rest) = c :: rest) (hopen : c ≠ '[') (rest' : List Char) :
    readSegment (front ++ c :: rest') =
      .ok (⟨String.ofList (readName (front ++ c :: rest)), none⟩, blanks ++ c :: rest') := by
  obtain ⟨hread, hleft⟩ := readName_append_cons hafter rest'
  rw [readSegment, hread, if_neg hname, hleft, skipBlanks_append_cons hskip rest']
  split
  · next heq => exact absurd (List.cons.inj heq).1 hopen
  · rfl

end Behind

/-- A reader of a segment does not look behind the character in front of which it stops. -/
theorem readSegment_append_cons {s : Segment} {front after rest : List Char} {c : Char}
    (h : readSegment (front ++ c :: rest) = .ok (s, after)) (hafter : skipBlanks after = c :: rest)
    (rest' : List Char) : ∃ after', readSegment (front ++ c :: rest') = .ok (s, after') ∧
      skipBlanks after' = c :: rest' := by
  obtain ⟨blanks, hblanks⟩ := hafter ▸ skipBlanks_suffix after
  rw [← hblanks] at h hafter
  refine ⟨blanks ++ c :: rest', ?_, skipBlanks_append_cons hafter rest'⟩
  rw [readSegment] at h
  split at h
  · cases h
  · next hname =>
    split at h
    · next inside hinside =>
      split at h
      · next columns rest₁ hcolumns =>
        obtain ⟨rfl, rfl⟩ := Prod.mk.inj (Except.ok.inj h)
        exact readSegment_columns_append_cons hname hinside hcolumns rest'
      · cases h
    · next hopen =>
      obtain ⟨rfl, hleft⟩ := Prod.mk.inj (Except.ok.inj h)
      have hne : c ≠ '[' := by
        rintro rfl
        exact hopen rest (hleft ▸ hafter)
      exact readSegment_bare_append_cons hname hleft hafter hne rest'

theorem blames_strayReason (c : Char) : Blames (strayReason c) c := by
  unfold strayReason
  split
  · next h => exact .unbalancedBracket h
  · exact .invalidCharacter c

theorem exists_segmentStop_of_stray {s : Segment} {cs after rest : List Char} {c : Char}
    (hskip : skipBlanks cs = cs) (h : readSegment cs = .ok (s, after))
    (hafter : skipBlanks after = c :: rest) (hpoint : c ≠ '.') (hcomma : c ≠ ',') :
    ∃ front, cs = front ++ c :: rest ∧ SegmentStop (strayReason c) front c := by
  obtain ⟨front, hcs, hfront⟩ := readSegment_sound (hskip.symm ▸ h)
  rw [hafter] at hcs
  subst hcs
  refine ⟨front, rfl, not_blank_of_skipBlanks hafter, blames_strayReason c,
    ⟨s, [], by rwa [List.append_nil]⟩, ?_⟩
  intro count rest'
  obtain ⟨after', hread, hafter'⟩ := readSegment_append_cons h hafter rest'
  have hskip' : skipBlanks (front ++ c :: rest') = front ++ c :: rest' :=
    dropWhile_append_cons hskip rest'
  have hnone : none ≠ some count := nofun
  rw [readPath_of_readSegment (hskip' ▸ hread) hnone, hafter']
  dsimp only
  rw [if_neg hpoint, if_neg hcomma, strayReason]
  split <;> rfl

/-! ### Expressions -/

/-- No expression is accepted that goes on with a character behind a front, whatever follows and
whatever the options are. -/
def DeadEnd (front : List Char) (c : Char) : Prop :=
  ∀ (options : Options) (rest : List Char) (forest : Forest),
    parse options (String.ofList (front ++ c :: rest)) ≠ .ok forest

/-- What a reason says of the place of a fault, the end of a front with some text left. -/
inductive Explains (limit : Option Nat) (front : List Char) : Reason → List Char → Prop where
  /-- The text goes wrong with the next character. -/
  | atCharacter {reason : Reason} {c : Char} {rest : List Char} : Blames reason c →
      DeadEnd front c → Explains limit front reason (c :: rest)
  /-- The text ends where a segment is missing. -/
  | atEnd : Explains limit front .emptySegment []
  /-- A segment begins whose bracket is not closed. -/
  | unclosed {count : Nat} {left : List Char} : BeginsSegment count front → OpensGroup left →
      Explains limit front .unbalancedBracket left
  /-- A segment begins that is the first one of its path beyond the limit. -/
  | tooDeep {count : Nat} {s : Segment} {left after : List Char} : limit = some count →
      BeginsSegment count front → readSegment left = .ok (s, after) →
      Explains limit front (.tooDeep count) left

theorem BeginsSegment.deadEnd {count : Nat} {front cs : List Char} {c : Char} {reason : Reason}
    (h : BeginsSegment count front) (hstop : SegmentStop reason cs c) : DeadEnd (front ++ cs) c := by
  intro options rest forest hok
  have hblank := hstop.not_blank
  rcases parse_eq_ok_iff.mp hok with ⟨hblanks, -⟩ | ⟨paths, htext, -, -⟩
  · rw [hblanks c (by simp)] at hblank
    exact Bool.noConfusion hblank
  · rw [String.toList_ofList, List.append_assoc] at htext
    have hread := @readPaths_complete none _ _ htext nofun
    rw [h.readPaths_of_error (hstop.stops count rest)] at hread
    cases hread

/-- Where a segment may begin, a segment completes what is accepted. -/
theorem BeginsSegment.exists_parse {count : Nat} {front cs : List Char}
    (h : BeginsSegment count front) {s : Segment} (hs : SegmentText s cs) (policy : ColumnPolicy) :
    ∃ forest, parse ⟨policy, none⟩ (String.ofList (front ++ cs)) = .ok forest := by
  obtain ⟨paths, htext⟩ := h.exists_expressionText (.one hs)
  refine ⟨_, parse_eq_ok_iff.mpr (Or.inr ⟨paths, ?_, nofun, rfl⟩)⟩
  rwa [String.toList_ofList]

/-- What is in front of a fault can be completed, and the fault is explained. -/
theorem exists_front_of_faultBehind {limit : Option Nat} {cs : List Char} {stop : Stop}
    (h : FaultBehind limit cs stop) (policy : ColumnPolicy) : ∃ front, cs = front ++ stop.left ∧
      (∃ rest forest, parse ⟨policy, none⟩ (String.ofList (front ++ rest)) = .ok forest) ∧
      Explains limit front stop.reason stop.left := by
  obtain ⟨count, front, left, rfl, hskip, hbegins, hfails⟩ := h
  have hfront : ∃ rest forest, parse ⟨policy, none⟩ (String.ofList (front ++ rest)) = .ok forest :=
    ⟨_, hbegins.exists_parse (.bare isName_a.spaced) policy⟩
  have hcharacter : ∀ {reason cs c rest}, left = cs ++ c :: rest → SegmentStop reason cs c →
      ∃ front', front ++ left = front' ++ c :: rest ∧
        (∃ rest forest, parse ⟨policy, none⟩ (String.ofList (front' ++ rest)) = .ok forest) ∧
        Explains limit front' reason (c :: rest) := by
    intro reason cs c rest hleft hstop
    obtain ⟨s, ext, hs⟩ := hstop.completes
    obtain ⟨forest, hforest⟩ := hbegins.exists_parse hs policy
    refine ⟨front ++ cs, by rw [hleft, List.append_assoc], ⟨ext, forest, ?_⟩,
      .atCharacter hstop.blames (hbegins.deadEnd hstop)⟩
    rwa [List.append_assoc]
  cases hfails with
  | segment h =>
    cases segmentFail_of_readSegment hskip h with
    | atEnd hleft => exact ⟨front, by rw [hleft], hfront, .atEnd⟩
    | unclosed hopens => exact ⟨front, rfl, hfront, .unclosed hbegins hopens⟩
    | atCharacter hleft hstop => exact hcharacter hleft hstop
  | limit hlimit hs => exact ⟨front, rfl, hfront, .tooDeep hlimit hbegins hs⟩
  | behind hs hafter hpoint hcomma =>
    obtain ⟨cs, hleft, hstop⟩ := exists_segmentStop_of_stray hskip hs hafter hpoint hcomma
    exact hcharacter hleft hstop

/-- **Faults stand at the first place where an expression goes wrong.** What is in front of the
place is the front of an expression that is accepted without a limit. The reason says of the
character there that nothing accepted begins so, or the text ends there; only a bracket that is not
closed and a segment beyond the limit are reported at the start of their segment. -/
theorem parse_fault {options : Options} {e : String} {fault : Malformed}
    (h : parse options e = .error fault) :
    ∃ front left, e.toList = front ++ left ∧ fault.expression = e ∧
      fault.position = Text.byteSize front ∧
      (∃ rest forest,
        parse ⟨options.columnPolicy, none⟩ (String.ofList (front ++ rest)) = .ok forest) ∧
      Explains options.maxDepth front fault.reason left := by
  obtain ⟨-, stop, hstop, rfl⟩ := parse_eq_error_iff.mp h
  have hfault := faultBehind_of_readPaths .first hstop
  obtain ⟨front, hfront, hcompletes, hexplains⟩ :=
    exists_front_of_faultBehind hfault options.columnPolicy
  rw [List.nil_append] at hfront
  refine ⟨front, stop.left, hfront, rfl, ?_, hcompletes, hexplains⟩
  show Text.byteSize e.toList - Text.byteSize stop.left = Text.byteSize front
  rw [hfront, Text.byteSize_append, Nat.add_sub_cancel]

/-- Behind a blank of three bytes, a letter that no name has. -/
theorem parse_fault_wide_blank :
    let e := "a, b [c|\u3000é]"
    parse {} e = .error ⟨e, 11, .invalidCharacter 'é'⟩ ∧
      ∃ front rest, e.toList = front ++ 'é' :: rest ∧ Text.byteSize front = 11 ∧
        (∃ rest forest, parse ⟨.union, none⟩ (String.ofList (front ++ rest)) = .ok forest) ∧
        DeadEnd front 'é' := by
  intro e
  have h : parse {} e = .error ⟨e, 11, .invalidCharacter 'é'⟩ := by decide +kernel
  obtain ⟨front, left, hleft, -, hposition, hcompletes, hexplains⟩ := parse_fault h
  cases hexplains with
  | atCharacter hblames hdead =>
    cases hblames
    exact ⟨h, front, _, hleft, hposition.symm, hcompletes, hdead⟩

end Sideload.Include
