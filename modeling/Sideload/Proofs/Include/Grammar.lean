import Sideload.Include.Expression

/-! # The grammar of include expressions

An expression is a list of paths, a path a list of segments, a column list a list of names: each is
a list of items with a mark between two of them (`Separated`). An item ends with a name and the
blanks around it (`Spaced`), or with a closed column list and the blanks behind it (`SegmentText`).

The relations say which text stands for which value, so `ExpressionText paths cs` is both that `cs`
belongs to the grammar and that `paths` is what it says. -/

namespace Sideload.Include

/-- Nothing but blanks. -/
def Blanks (cs : List Char) : Prop := ∀ c ∈ cs, Text.isBlank c = true

/-- A non-empty word of name characters. -/
def IsName (name : String) : Prop := name.toList ≠ [] ∧ ∀ c ∈ name.toList, isNameChar c = true

/-- A name with blanks around it. -/
def Spaced (name : String) (cs : List Char) : Prop :=
  IsName name ∧ ∃ before after, Blanks before ∧ Blanks after ∧ cs = before ++ (name.toList ++ after)

/-- The texts of some items, at least one, with a mark between two of them. -/
inductive Separated {α : Type} (mark : Char) (Item : α → List Char → Prop) :
    List α → List Char → Prop where
  | one {x : α} {cs : List Char} : Item x cs → Separated mark Item [x] cs
  | more {x : α} {xs : List α} {cs ds : List Char} : Item x cs → Separated mark Item xs ds →
      Separated mark Item (x :: xs) (cs ++ mark :: ds)

/-- The text of a segment: a name, or a name and its columns in brackets. -/
inductive SegmentText : Segment → List Char → Prop where
  | bare {name : String} {cs : List Char} : Spaced name cs → SegmentText ⟨name, none⟩ cs
  | bracketed {name : String} {columns : List String} {cs ds es : List Char} :
      Spaced name cs → Separated '|' Spaced columns ds → Blanks es →
      SegmentText ⟨name, some columns⟩ (cs ++ '[' :: (ds ++ ']' :: es))

/-- The text of a path. -/
def PathText : Path → List Char → Prop := Separated '.' SegmentText

/-- The text of some paths. -/
def ExpressionText : List Path → List Char → Prop := Separated ',' PathText

/-! ### Blanks and names -/

theorem isBlank_of_isNameChar {c : Char} (h : isNameChar c = true) : Text.isBlank c = false := by
  have hn : (48 ≤ c.toNat ∧ c.toNat ≤ 57) ∨ (65 ≤ c.toNat ∧ c.toNat ≤ 90) ∨ c.toNat = 95 ∨
      (97 ≤ c.toNat ∧ c.toNat ≤ 122) ∨ c.toNat = 45 := by
    delta isNameChar Char.isAlphanum Char.isAlpha Char.isUpper Char.isLower Char.isDigit at h
    simp only [Bool.or_eq_true, Bool.and_eq_true, decide_eq_true_eq, ge_iff_le,
      UInt32.le_iff_toNat_le] at h
    rcases h with (h | rfl) | rfl
    · have hc : c.toNat = c.val.toNat := rfl
      have hz : 'z'.val.toNat = 122 ∧ 'Z'.val.toNat = 90 ∧ '9'.val.toNat = 57 := ⟨rfl, rfl, rfl⟩
      have ha : 'a'.val.toNat = 97 ∧ 'A'.val.toNat = 65 ∧ '0'.val.toNat = 48 := ⟨rfl, rfl, rfl⟩
      omega
    · decide
    · decide
  simp only [Text.isBlank, Bool.or_eq_false_iff, Bool.and_eq_false_iff, beq_eq_false_iff_ne,
    decide_eq_false_iff_not]
  omega

theorem Blanks.append {cs ds : List Char} (hc : Blanks cs) (hd : Blanks ds) : Blanks (cs ++ ds) :=
  fun c h => (List.mem_append.mp h).elim (hc c) (hd c)

theorem IsName.spaced {name : String} (h : IsName name) : Spaced name name.toList :=
  ⟨h, [], [], by simp [Blanks], by simp [Blanks], by simp⟩

theorem Spaced.blanks_append {name : String} {cs ds : List Char} (hd : Blanks ds)
    (h : Spaced name cs) : Spaced name (ds ++ cs) := by
  obtain ⟨hname, before, after, hb, ha, rfl⟩ := h
  exact ⟨hname, ds ++ before, after, hd.append hb, ha, by rw [List.append_assoc]⟩

theorem SegmentText.blanks_append {s : Segment} {cs ds : List Char} (hd : Blanks ds)
    (h : SegmentText s cs) : SegmentText s (ds ++ cs) := by
  cases h with
  | bare h => exact .bare (h.blanks_append hd)
  | bracketed h hcolumns hes =>
    rw [← List.append_assoc]
    exact .bracketed (h.blanks_append hd) hcolumns hes

/-! ### Separated items -/

section Separated
variable {α : Type} {mark : Char} {Item : α → List Char → Prop}

theorem Separated.ne_nil {xs : List α} {cs : List Char} (h : Separated mark Item xs cs) :
    xs ≠ [] := by
  cases h <;> exact List.cons_ne_nil _ _

/-- A text that may stand in front of an item may stand in front of a list of them. -/
theorem Separated.prepend {xs : List α} {cs ds : List Char}
    (hItem : ∀ x cs, Item x cs → Item x (ds ++ cs)) (h : Separated mark Item xs cs) :
    Separated mark Item xs (ds ++ cs) := by
  cases h with
  | one h => exact .one (hItem _ _ h)
  | more h hs =>
    rw [← List.append_assoc]
    exact .more (hItem _ _ h) hs

end Separated

/-! ### Marks -/

/-- A character that is neither a blank nor part of a name. -/
def IsMark (c : Char) : Prop := Text.isBlank c = false ∧ isNameChar c = false

section Mark
variable {c : Char} (hc : IsMark c)
include hc

theorem Blanks.not_mem {cs : List Char} (h : Blanks cs) : c ∉ cs := fun hmem =>
  Bool.noConfusion (hc.1.symm.trans (h c hmem))

theorem Spaced.not_mem {name : String} {cs : List Char} (h : Spaced name cs) : c ∉ cs := by
  obtain ⟨hname, before, after, hbefore, hafter, rfl⟩ := h
  simp only [List.mem_append, not_or]
  exact ⟨hbefore.not_mem hc, fun hmem => Bool.noConfusion (hc.2.symm.trans (hname.2 c hmem)),
    hafter.not_mem hc⟩

omit hc in
/-- Where neither the items nor the mark between them bring a character, it is not there. -/
theorem Separated.not_mem {α : Type} {mark : Char} {Item : α → List Char → Prop}
    (hmark : c ≠ mark) (hItem : ∀ x cs, Item x cs → c ∉ cs) {xs : List α} {cs : List Char}
    (h : Separated mark Item xs cs) : c ∉ cs := by
  induction h with
  | one h => exact hItem _ _ h
  | more h _ ih =>
    simp only [List.mem_append, List.mem_cons, not_or]
    exact ⟨hItem _ _ h, hmark, ih⟩

theorem SegmentText.not_mem (hopen : c ≠ '[') (hbar : c ≠ '|') (hclose : c ≠ ']') {s : Segment}
    {cs : List Char} (h : SegmentText s cs) : c ∉ cs := by
  cases h with
  | bare h => exact h.not_mem hc
  | bracketed h hcolumns hes =>
    simp only [List.mem_append, List.mem_cons, not_or]
    exact ⟨h.not_mem hc, hopen, hcolumns.not_mem hbar fun _ _ h => h.not_mem hc, hclose,
      hes.not_mem hc⟩

end Mark

theorem SegmentText.point_not_mem {s : Segment} {cs : List Char} (h : SegmentText s cs) :
    '.' ∉ cs :=
  h.not_mem ⟨by decide, by decide⟩ (by decide) (by decide) (by decide)

theorem PathText.comma_not_mem {path : Path} {cs : List Char} (h : PathText path cs) : ',' ∉ cs :=
  Separated.not_mem (by decide)
    (fun _ _ h => h.not_mem ⟨by decide, by decide⟩ (by decide) (by decide) (by decide)) h

theorem PathText.blanks_append {path : Path} {cs ds : List Char} (hd : Blanks ds)
    (h : PathText path cs) : PathText path (ds ++ cs) :=
  h.prepend fun _ _ hsegment => hsegment.blanks_append hd

end Sideload.Include
