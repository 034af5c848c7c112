import Sideload.FileTree.Disk
import Sideload.Proofs.FileTree.Following

/-! # Writing a file to a disk

A file that has been written is read back at its path, and everything else shows what it has shown
before (`Disk.find?_of_write`, `Disk.shows?_of_write`). Paths are compared by the names that they
come down to (`Disk.place`), since several paths lead to one place: `a/../b` and `./b` are ways to
`b`, and so is the absolute path of it.

Places are told by names alone (`at?`). There the change is plain: `put` gives what was put, and
leaves all other names as they were, since it goes through directories only (`written_put`). Paths
are then followed in the old and in the new tree at once, and meet the same things up to the place
of the file (`map_content?_follow`): what differs is only met there. -/

namespace Sideload

namespace FileTree

/-- The content of a file. -/
def content? : FileTree → Option ByteArray
  | file content => some content
  | directory _ => none

variable {t t' u u' v : FileTree}

theorem put_cons (t : FileTree) (name : Path) (names : List Path) (new : FileTree) :
    t.put (name :: names) new = directory (Fields.insert t.entries name
      (put ((Fields.get? t.entries name).getD (directory [])) names new)) := by
  cases t <;> rfl

/-! ### What is put -/

theorem at?_put : ∀ (t : FileTree) (names : List Path) (new : FileTree),
    (t.put names new).at? names = some new
  | t, [], new => by cases t <;> rfl
  | t, name :: names, new => by
    rw [put_cons, at?, entries, Fields.get?_insert, if_pos rfl, Option.bind_some, at?_put]

/-- A tree that a directory stands in is a directory. -/
theorem content?_of_at?_directory {es : Entries Path FileTree} :
    ∀ {up : List Path}, t.at? up = some (directory es) → t.content? = none
  | [], h => by rw [Option.some.inj h, content?]
  | _ :: _, h => by
    cases t with
    | file _ => cases h
    | directory _ => rfl

/-- A file that is put into a directory, where no directory is, leaves what other names lead to. -/
theorem map_content?_at?_put {name : Path} {es : Entries Path FileTree} {c : ByteArray}
    (hfree : ∀ es', Fields.get? es name ≠ some (directory es')) :
    ∀ {up : List Path} {t : FileTree} {names : List Path},
      t.at? up = some (directory es) → names ≠ up ++ [name] →
        ((t.put (up ++ [name]) (file c)).at? names).map content? = (t.at? names).map content?
  | up, t, [], hup, _ => by
    rw [at?, at?, Option.map_some, Option.map_some, content?_of_at?_directory hup]
    cases up with
    | nil => rw [List.nil_append, put_cons, content?]
    | cons x up => rw [List.cons_append, put_cons, content?]
  | [], t, m :: ms, hup, hne => by
    obtain rfl := Option.some.inj hup
    rw [List.nil_append, put_cons, at?, at?, entries, entries, Fields.get?_insert]
    by_cases hm : name = m
    · subst hm
      -- nothing stands below a file
      cases ms with
      | nil => exact absurd rfl hne
      | cons m' ms =>
        rw [if_pos rfl]
        cases hold : Fields.get? es name with
        | none => rfl
        | some old =>
          cases old with
          | file _ => rfl
          | directory es' => exact absurd hold (hfree es')
    · rw [if_neg hm]
  | x :: up, t, m :: ms, hup, hne => by
    rw [List.cons_append, put_cons, at?, at?, entries, Fields.get?_insert]
    by_cases hm : x = m
    · subst hm
      obtain ⟨u, hu, hup⟩ := Option.bind_eq_some_iff.mp hup
      rw [if_pos rfl, hu, Option.bind_some, Option.bind_some, Option.getD_some]
      exact map_content?_at?_put hfree hup fun h => hne (congrArg (x :: ·) h)
    · rw [if_neg hm]

/-- One tree comes from another by a file at some names. -/
structure Written (t t' : FileTree) (names : List Path) : Prop where
  isFile : ∃ c, t'.at? names = some (file c)
  wasNoDirectory : ∀ es, t.at? names ≠ some (directory es)
  others : ∀ more, more ≠ names → (t'.at? more).map content? = (t.at? more).map content?

theorem written_put {up : List Path} {name : Path} {es : Entries Path FileTree} {c : ByteArray}
    (hup : t.at? up = some (directory es))
    (hfree : ∀ es', Fields.get? es name ≠ some (directory es')) :
    t.Written (t.put (up ++ [name]) (file c)) (up ++ [name]) where
  isFile := ⟨c, at?_put t _ _⟩
  wasNoDirectory := by
    rw [at?_concat, hup]
    exact hfree
  others _ hne := map_content?_at?_put hfree hup hne

/-! ### Before and behind -/

section Written
variable {place : List Path} (hw : t.Written t' place)
include hw

/-- What some names lead to is a file behind exactly if it was one before. -/
theorem Written.isSome_content? {names : List Path} (hu : t.at? names = some u)
    (hu' : t'.at? names = some u') : (content? u').isSome = (content? u).isSome := by
  by_cases hplace : names = place
  · subst hplace
    obtain ⟨c, hc⟩ := hw.isFile
    obtain rfl := Option.some.inj (hu'.symm.trans hc)
    cases u with
    | file _ => rfl
    | directory es => exact absurd hu (hw.wasNoDirectory es)
  · have hothers := hw.others names hplace
    rw [hu, hu'] at hothers
    rw [Option.some.inj hothers]

/-- What a name leads to in both trees: nothing, something, or what was written. -/
theorem Written.get?_cases {above above' : List FileTree} {names : List Path}
    {es es' : Entries Path FileTree} (h : t.Stands above names (directory es))
    (h' : t'.Stands above' names (directory es')) (p : Path) :
    (Fields.get? es p = none ∧ Fields.get? es' p = none) ∨
      (∃ w w', Fields.get? es p = some w ∧ Fields.get? es' p = some w') ∨
      ((p :: names).reverse = place ∧ (∀ sub, Fields.get? es p ≠ some (directory sub)) ∧
        ∃ c, Fields.get? es' p = some (file c)) := by
  have hat : t.at? (p :: names).reverse = Fields.get? es p := by
    rw [List.reverse_cons, at?_concat, h.at?, Option.bind_some, entries]
  have hat' : t'.at? (p :: names).reverse = Fields.get? es' p := by
    rw [List.reverse_cons, at?_concat, h'.at?, Option.bind_some, entries]
  rw [← hat, ← hat']
  by_cases hplace : (p :: names).reverse = place
  · exact Or.inr (Or.inr ⟨hplace, hplace ▸ hw.wasNoDirectory, hplace ▸ hw.isFile⟩)
  · have hothers := hw.others _ hplace
    cases hold : t.at? (p :: names).reverse with
    | none =>
      rw [hold] at hothers
      exact Or.inl ⟨rfl, Option.map_eq_none_iff.mp hothers⟩
    | some w =>
      rw [hold] at hothers
      obtain ⟨w', hnew, -⟩ := Option.map_eq_some_iff.mp hothers
      exact Or.inr (Or.inl ⟨w, w', rfl, hnew⟩)

/-- **A path meets the same things in both trees**, unless it ends at the place of the file. -/
theorem Written.map_content?_follow : ∀ {ps : List Path} {above above' : List FileTree}
    {names : List Path} {u u' : FileTree}, t.Stands above names u → t'.Stands above' names u' →
      Path.namesFrom names ps ≠ place →
        (follow above' u' ps).toOption.map content? = (follow above u ps).toOption.map content?
  | [], above, above', names, u, u', h, h', hne => by
    have hothers := hw.others names.reverse hne
    rw [h.at?, h'.at?] at hothers
    exact hothers
  | p :: ps, above, above', names, file c, u', h, h', hne => by
    cases u' with
    | file c' => rfl
    | directory es' => cases hw.isSome_content? h.at? h'.at?
  | p :: ps, above, above', names, directory es, file c', h, h', hne => by
    cases hw.isSome_content? h.at? h'.at?
  | p :: ps, above, above', names, directory es, directory es', h, h', hne => by
    rcases Path.part_cases p with hidle | rfl | ⟨hidle, hup, hlong⟩ | hname
    · rw [Path.namesFrom_idle hidle] at hne
      rw [follow_idle hidle, follow_idle hidle]
      exact Written.map_content?_follow h h' hne
    · rw [Path.namesFrom_up] at hne
      rw [follow_up, follow_up]
      exact Written.map_content?_follow h.parent h'.parent hne
    · rw [follow_long hidle hup hlong, follow_long hidle hup hlong]
    · rw [Path.namesFrom_down hname.notIdle hname.notUp] at hne
      rw [toOption_follow_name hname, toOption_follow_name hname]
      rcases hw.get?_cases h h' p with ⟨hes, hes'⟩ | ⟨w, w', hes, hes'⟩ | ⟨hplace, hes, c, hes'⟩
      · rw [hes, hes']
        rfl
      · rw [hes, hes']
        exact Written.map_content?_follow (h.enter hes) (h'.enter hes') hne
      · rw [hes']
        cases ps with
        | nil => exact absurd hplace hne
        | cons q ps =>
          -- the path goes on behind the file
          cases hold : Fields.get? es p with
          | none => rfl
          | some old =>
            cases old with
            | file _ => rfl
            | directory sub => exact absurd hold (hes sub)

end Written

end FileTree

/-! ### Writing -/

namespace Disk

open FileTree

/-- What a path shows: a file with its content, or that there is a directory. -/
def shows? (d : Disk) (path : Path) : Option (Option ByteArray) := (d.find? path).map content?

variable {d d' : Disk} {path other : Path} {c : ByteArray}

/-- There is room for a file under a name in a directory that has no directory of that name. -/
theorem checkRoom_eq_ok {slash : Bool} {name : Path} {u : FileTree}
    (h : checkRoom slash name u = .ok ()) :
    slash = false ∧ Path.IsName name ∧ ∃ es, u = directory es ∧
      ∀ sub, Fields.get? es name ≠ some (directory sub) := by
  cases u with
  | file _ => cases h
  | directory es =>
    rw [checkRoom] at h
    split at h
    · cases h
    · rename_i hplain
      simp only [Bool.or_eq_true, decide_eq_true_eq, not_or, Bool.not_eq_true] at hplain
      split at h
      · cases h
      · rename_i hlong
        split at h
        · cases h
        · rename_i hfree
          exact ⟨hplain.1.1, ⟨hplain.1.2, hplain.2, Bool.not_eq_true _ ▸ hlong⟩, es, rfl, hfree⟩

/-- Each check of `write` has been passed. -/
theorem write_eq_ok (h : d.write path c = .ok d') :
    let ps := (d.way path).reverse.dropWhile fun p => decide (p = [])
    Path.isTooLong path = false ∧ path ≠ [] ∧ ∃ u, follow [] d.root ps.tail.reverse = .ok u ∧
      checkRoom (Path.endsInSlash path) (ps.headD []) u = .ok () ∧
      d' = { d with root := d.root.put (d.place path) (file c) } := by
  rw [write] at h
  split at h
  · cases h
  · rename_i hlong
    split at h
    · cases h
    · rename_i hpath
      refine ⟨Bool.eq_false_iff.mpr hlong, hpath, ?_⟩
      cases hway : follow [] d.root
          ((d.way path).reverse.dropWhile fun p => decide (p = [])).tail.reverse with
      | error e =>
        simp only [hway] at h
        cases h
      | ok u =>
        simp only [hway] at h
        split at h
        · cases h
        · rename_i hroom
          exact ⟨u, rfl, hroom, (Except.ok.inj h).symm⟩

/-- A path that does not end in a slash has a last part, wherever it begins. -/
theorem exists_last_way (d : Disk) (hpath : path ≠ []) (hslash : Path.endsInSlash path = false) :
    ∃ way name, name ≠ [] ∧ d.way path = way ++ [name] := by
  obtain ⟨way, name, hname, hparts⟩ := Path.exists_last_parts hpath hslash
  unfold Disk.way
  rw [hparts]
  split
  · exact ⟨way, name, hname, rfl⟩
  · exact ⟨d.workplace ++ way, name, hname, (List.append_assoc _ _ _).symm⟩

/-- A file that can be written gets the last part of its path as its name, in the directory that the
rest leads to. -/
theorem exists_of_write (h : d.write path c = .ok d') : ∃ way name es,
    d.way path = way ++ [name] ∧ Path.IsName name ∧
      (follow [] d.root way).toOption = some (directory es) ∧
      (∀ sub, Fields.get? es name ≠ some (directory sub)) ∧
      d.place path = Path.namesFrom [] way ++ [name] := by
  obtain ⟨-, hpath, u, hway, hroom, -⟩ := write_eq_ok h
  obtain ⟨hslash, hname, es, rfl, hfree⟩ := checkRoom_eq_ok hroom
  obtain ⟨way, name, hne, hparts⟩ := d.exists_last_way hpath hslash
  have hlast : ((d.way path).reverse.dropWhile fun p => decide (p = [])) =
      name :: way.reverse := by
    rw [hparts, List.reverse_concat, List.dropWhile_cons_of_neg (by simpa using hne)]
  rw [hlast, List.tail_cons, List.reverse_reverse] at hway
  rw [hlast, List.headD_cons] at hname hfree
  refine ⟨way, name, es, hparts, hname, congrArg Except.toOption hway, hfree, ?_⟩
  rw [place, hparts, Path.namesFrom_concat hname.notIdle hname.notUp]

theorem written_of_write (h : d.write path c = .ok d') :
    d.root.Written d'.root (d.place path) := by
  obtain ⟨way, name, es, -, -, hway, hfree, hplace⟩ := exists_of_write h
  obtain ⟨-, -, u, -, -, rfl⟩ := write_eq_ok h
  rw [hplace]
  exact written_put (Stands.root.at?_follow hway) hfree

/-- **What has been written is read back.** -/
theorem find?_of_write (h : d.write path c = .ok d') : d'.find? path = some (file c) := by
  have hwritten := written_of_write h
  obtain ⟨way, name, es, hparts, hname, hway, -, hplace⟩ := exists_of_write h
  obtain ⟨hlong, hpath, u, -, -, hput⟩ := write_eq_ok h
  have hplaced : d'.root.at? (d.place path) = some (file c) := by
    rw [hput]
    exact at?_put _ _ _
  have hsame : d'.way path = d.way path := by
    rw [hput]
    rfl
  -- the way to the file leads to a directory in the new tree as well
  have hne : Path.namesFrom [] way ≠ d.place path := by
    rw [hplace]
    exact fun h => List.cons_ne_nil _ _ (List.self_eq_append_right.mp h)
  have hway' := hwritten.map_content?_follow .root .root hne
  rw [hway] at hway'
  obtain ⟨u', hu', hcontent⟩ := Option.map_eq_some_iff.mp hway'
  cases u' with
  | file _ => cases hcontent
  | directory es' =>
    rw [hplace, at?_concat, Stands.root.at?_follow hu', Option.bind_some, entries] at hplaced
    rw [find?, decide_eq_false hpath, hlong, Bool.false_or, if_neg Bool.false_ne_true, hsame,
      hparts, toOption_follow_concat hname hu', hplaced]

/-- **Nothing else is written:** every path to another place shows what it has shown. -/
theorem shows?_of_write (h : d.write path c = .ok d') (hother : d.place other ≠ d.place path) :
    d'.shows? other = d.shows? other := by
  have hfollow := (written_of_write h).map_content?_follow .root .root hother
  obtain ⟨-, -, u, -, -, rfl⟩ := write_eq_ok h
  rw [shows?, shows?, find?, find?]
  split
  · rfl
  · exact hfollow

end Disk

end Sideload
