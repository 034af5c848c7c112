import Mathlib.Data.List.Lex
import Sideload.Proofs.FileTree.Paths

/-! # The order of paths

Paths are compared component by component (`Path.Before`), so that all files below a directory
stand together: `a/b.json` is in front of `a.json`, although a slash comes after a point.

A path that goes on from another by plain names has these as its last components
(`components_foldl_join`). Below one directory the order of paths is therefore that of the names on
the way (`before_foldl_join`), by which `leNames` compares them (`leNames_iff`). -/

namespace Sideload.FileTree.Path

/-! ### Components -/

theorem components_of_parts {path first : Path} {others : List Path} (hpath : path ≠ [])
    (h : parts path = first :: others) :
    components path = first :: others.filter fun p => !isIdle p := by
  unfold components
  rw [if_neg hpath, h]

theorem components_join {name : Path} (hname : IsPlain name) (path : Path) :
    components (join path name) = components path ++ [name] := by
  by_cases hpath : path = []
  · subst hpath
    exact components_of_parts hname.ne_nil (parts_of_noSlash hname.noSlash)
  · obtain ⟨first, others, idle, hparts, hidle, hjoin⟩ := exists_parts_join hpath hname.noSlash
    have hnone : idle.filter (fun p => !isIdle p) = [] :=
      List.filter_eq_nil_iff.mpr fun p hp => by simp [hidle p hp]
    rw [components_of_parts hpath hparts, components_of_parts (join_ne_nil hname.ne_nil) hjoin,
      List.filter_append, List.filter_append, hnone]
    simp [hname.notIdle]

/-- Whatever leads to a directory, plain names that lead on are the last components. -/
theorem components_foldl_join : ∀ {names : List Path}, (∀ name ∈ names, IsPlain name) →
    ∀ path, components (names.foldl join path) = components path ++ names
  | [], _, path => (List.append_nil _).symm
  | name :: names, hnames, path => by
    obtain ⟨hname, hnames⟩ := List.forall_mem_cons.mp hnames
    rw [List.foldl_cons, components_foldl_join hnames, components_join hname, List.append_assoc]
    rfl

/-! ### Order -/

/-- The order of bytes as numbers. -/
def ByteBefore (x y : UInt8) : Prop := x.toNat < y.toNat

/-- The order of names by their bytes. -/
def NameBefore (name other : Path) : Prop := List.Lex ByteBefore name other

/-- The kinds of components in their order: the root, `.`, `..`, and names. -/
def kind (component : Path) : Nat :=
  if component = [] then 0 else if component = here then 1 else if component = up then 2 else 3

/-- Components in their order: by kind, and names by their bytes. -/
def ComponentBefore (a b : Path) : Prop := kind a < kind b ∨ kind a = kind b ∧ NameBefore a b

/-- Paths in the order of their components. -/
def Before (path other : Path) : Prop :=
  List.Lex ComponentBefore (components path) (components other)

theorem IsPlain.kind_eq {name : Path} (h : IsPlain name) : kind name = 3 := by
  have hidle := h.notIdle
  simp only [isIdle, Bool.or_eq_false_iff, decide_eq_false_iff_not] at hidle
  unfold kind
  rw [if_neg hidle.1, if_neg hidle.2, if_neg h.notUp]

theorem lex_components : ∀ {names others : List Path}, List.Lex NameBefore names others →
    (∀ name ∈ names, IsPlain name) → (∀ name ∈ others, IsPlain name) →
      List.Lex ComponentBefore names others
  | _, _, .nil, _, _ => .nil
  | _, _, .cons h, hnames, hothers =>
    .cons (lex_components h (List.forall_mem_cons.mp hnames).2 (List.forall_mem_cons.mp hothers).2)
  | _, _, .rel h, hnames, hothers => by
    have hkind := (List.forall_mem_cons.mp hnames).1.kind_eq
    have hkind' := (List.forall_mem_cons.mp hothers).1.kind_eq
    exact .rel (Or.inr ⟨hkind.trans hkind'.symm, h⟩)

/-- **The order below a directory** is that of the names that lead on. -/
theorem before_foldl_join (path : Path) {names others : List Path}
    (hnames : ∀ name ∈ names, IsPlain name) (hothers : ∀ name ∈ others, IsPlain name)
    (h : List.Lex NameBefore names others) :
    Before (names.foldl join path) (others.foldl join path) := by
  unfold Before
  rw [components_foldl_join hnames, components_foldl_join hothers]
  exact List.Lex.append_left _ (lex_components h hnames hothers) _

/-! ### Comparing names -/

instance : Std.Asymm ByteBefore := ⟨fun _ _ => Nat.lt_asymm⟩

instance : Std.Trichotomous ByteBefore := ⟨fun _ _ hxy hyx =>
  UInt8.toNat_inj.mp (Nat.le_antisymm (Nat.le_of_not_lt hyx) (Nat.le_of_not_lt hxy))⟩

instance : IsOrderConnected UInt8 ByteBefore :=
  ⟨fun x y z (h : x.toNat < z.toNat) => show x.toNat < y.toNat ∨ y.toNat < z.toNat by omega⟩

instance : Std.Asymm NameBefore := inferInstanceAs (Std.Asymm (List.Lex ByteBefore))

instance : Std.Trichotomous NameBefore := inferInstanceAs (Std.Trichotomous (List.Lex ByteBefore))

instance : IsOrderConnected Path NameBefore :=
  inferInstanceAs (IsOrderConnected (List UInt8) (List.Lex ByteBefore))

/-- Lists are compared as their elements are: each is at most the other unless it is behind it. -/
theorem leLists_iff {α : Type} [DecidableEq α] {le : α → α → Bool} {r : α → α → Prop}
    (hle : ∀ a b, le a b = true ↔ ¬ r b a) (hirrefl : ∀ a, ¬ r a a) :
    ∀ {as bs : List α}, leLists le as bs = true ↔ ¬ List.Lex r bs as
  | [], bs => by simp [leLists]
  | a :: as, [] => by simp [leLists]
  | a :: as, b :: bs => by
    rw [leLists, List.cons_lex_cons_iff]
    by_cases h : a = b
    · subst h
      simp [leLists_iff hle hirrefl, hirrefl]
    · simp [h, Ne.symm h, hle]

theorem leNames_iff {as bs : List Path} : leNames as bs = true ↔ ¬ List.Lex NameBefore bs as := by
  have hbytes (x y : UInt8) : decide (x.toNat ≤ y.toNat) = true ↔ ¬ ByteBefore y x :=
    decide_eq_true_iff.trans Nat.not_lt.symm
  have hnames (a b : Path) :
      leLists (fun x y : UInt8 => x.toNat ≤ y.toNat) a b = true ↔ ¬ NameBefore b a :=
    leLists_iff hbytes (irrefl_of ByteBefore)
  exact leLists_iff hnames (irrefl_of NameBefore)

section Names
variable {as bs cs : List Path}

theorem leNames_total (as bs : List Path) : (leNames as bs || leNames bs as) = true := by
  rw [Bool.or_eq_true, leNames_iff, leNames_iff, ← not_and_or]
  exact fun h => asymm_of (List.Lex NameBefore) h.1 h.2

theorem leNames_trans (hab : leNames as bs = true) (hbc : leNames bs cs = true) :
    leNames as cs = true := by
  rw [leNames_iff] at *
  exact fun h => (IsOrderConnected.conn cs bs as h).elim hbc hab

theorem leNames_antisymm (hab : leNames as bs = true) (hba : leNames bs as = true) : as = bs := by
  rw [leNames_iff] at *
  exact Std.Trichotomous.trichotomous as bs hba hab

theorem lex_of_leNames (h : leNames as bs = true) (hne : as ≠ bs) : List.Lex NameBefore as bs := by
  by_contra hnot
  exact hne (leNames_antisymm h (leNames_iff.mpr hnot))

end Names

end Sideload.FileTree.Path
