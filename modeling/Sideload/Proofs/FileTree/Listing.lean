import Sideload.Proofs.Fields.Related
import Sideload.Proofs.FileTree.Following
import Sideload.Proofs.FileTree.Order

/-! # Listing files

What a walk finds in a tree are its files, each once and with the names that lead to it
(`mem_walk_iff`, `nodup_map_fst_walk`), if no two entries of a directory share a name
(`WellFormed`) and no path to a directory is too long (`Readable`).

Entries are listed in any order. A tree that lists them in another one (`Relisted`) has the same
walk up to the order (`Relisted.perm_walk`). The names on the way are what files are sorted by, and
no two files share them, so that nothing is left of the order of entries
(`jsonFiles_eq_of_relisted`). -/

namespace Sideload.FileTree

/-- The entries of each directory have plain names, and no two have the same. -/
inductive WellFormed : FileTree → Prop where
  | file (content : ByteArray) : WellFormed (file content)
  | directory {entries : Entries Path FileTree} (distinct : Fields.Distinct entries)
      (plain : ∀ name ∈ Fields.keys entries, Path.IsPlain name)
      (below : ∀ entry ∈ entries, WellFormed entry.2) : WellFormed (directory entries)

/-- The path to each directory of a tree that stands at a path can be followed. -/
def Readable (path : Path) (t : FileTree) : Prop :=
  ∀ names entries, t.at? names = some (directory entries) →
    Path.isTooLong (names.foldl Path.join path) = false

/-- The same tree, with the entries of each directory in some order. -/
inductive Relisted : FileTree → FileTree → Prop where
  | file (content : ByteArray) : Relisted (file content) (file content)
  | directory {entries listed others : Entries Path FileTree} (perm : entries.Perm listed)
      (below : List.Forall₂ (Fields.Named Relisted) listed others) :
      Relisted (directory entries) (directory others)

section Readable
variable {path : Path} {es : Entries Path FileTree}

theorem readable_file (content : ByteArray) : Readable path (file content) := by
  intro names es h
  cases (at?_file_eq_some_iff.mp h).2

theorem readable_directory_iff : Readable path (directory es) ↔ Path.isTooLong path = false ∧
    ∀ name t, Fields.get? es name = some t → Readable (Path.join path name) t := by
  constructor
  · refine fun h => ⟨h [] es rfl, fun name t ht names es' hes' => h (name :: names) es' ?_⟩
    rw [at?, entries, ht, Option.bind_some, hes']
  · rintro ⟨hpath, hentries⟩ names es' hes'
    cases names with
    | nil => exact hpath
    | cons name names =>
      obtain ⟨t, ht, hes'⟩ := Option.bind_eq_some_iff.mp hes'
      exact hentries name t ht names es' hes'

theorem readable_directory (hpath : Path.isTooLong path = false)
    (h : ∀ entry ∈ es, Readable (Path.join path entry.1) entry.2) : Readable path (directory es) :=
  readable_directory_iff.mpr ⟨hpath, fun name t ht => h (name, t) (Fields.mem_of_get? ht)⟩

end Readable

/-! ### The walk -/

/-- What a walk finds at and below one entry of the directory at a path. -/
def walkEntry (path : Path) (entry : Path × FileTree) :
    List (List Path × Option ByteArray) :=
  if Path.isTooLong (Path.join path entry.1) then [([], none)]
  else walk (Path.join path entry.1) entry.2

theorem walkEntries_eq (path : Path) : ∀ es : Entries Path FileTree,
    walkEntries path es = es.flatMap fun entry =>
      (walkEntry path entry).map fun f => (entry.1 :: f.1, f.2)
  | [] => rfl
  | (name, t) :: es => by
    rw [walkEntries, walkEntries_eq path es]
    rfl

/-- The content of a file, as far as it can be read at a path. -/
def kept (path : Path) (content : ByteArray) : Option ByteArray :=
  if Path.isTooLong path then none else some content

/-- Some names lead to a file in the tree at a path, and this is kept of it. -/
def Holds (path : Path) (t : FileTree) (names : List Path) (found : Option ByteArray) : Prop :=
  ∃ content, t.at? names = some (file content) ∧
    found = kept (names.foldl Path.join path) content

section Walk
variable {path name : Path} {names : List Path} {found : Option ByteArray} {t : FileTree}
  {es : Entries Path FileTree}

theorem holds_file_iff {content : ByteArray} :
    Holds path (file content) names found ↔ (names, found) = ([], kept path content) := by
  unfold Holds
  simp only [at?_file_eq_some_iff, file.injEq, Prod.mk.injEq]
  constructor
  · rintro ⟨_, ⟨rfl, rfl⟩, rfl⟩
    exact ⟨rfl, rfl⟩
  · rintro ⟨rfl, rfl⟩
    exact ⟨content, ⟨rfl, rfl⟩, rfl⟩

theorem holds_directory_iff (hdistinct : Fields.Distinct es) :
    Holds path (directory es) names found ↔ ∃ name t rest, (name, t) ∈ es ∧
      Holds (Path.join path name) t rest found ∧ names = name :: rest := by
  constructor
  · rintro ⟨content, hat, hfound⟩
    cases names with
    | nil => cases hat
    | cons name rest =>
      obtain ⟨t, ht, hat⟩ := Option.bind_eq_some_iff.mp hat
      exact ⟨name, t, rest, Fields.mem_of_get? ht, ⟨content, hat, hfound⟩, rfl⟩
  · rintro ⟨name, t, rest, ht, ⟨content, hat, hfound⟩, rfl⟩
    refine ⟨content, ?_, hfound⟩
    rw [at?, entries, hdistinct.get?_of_mem ht, Option.bind_some, hat]

/-- An entry is entered, or its path is too long; then it is a file, as directories are readable. -/
theorem mem_walkEntry_iff (hreadable : Readable (Path.join path name) t)
    (hwalk : Path.isTooLong (Path.join path name) = false →
      ((names, found) ∈ t.walk (Path.join path name) ↔ Holds (Path.join path name) t names found)) :
    (names, found) ∈ walkEntry path (name, t) ↔ Holds (Path.join path name) t names found := by
  unfold walkEntry
  cases hlong : Path.isTooLong (Path.join path name) with
  | false => exact hwalk hlong
  | true =>
    cases t with
    | file content =>
      rw [if_pos rfl, List.mem_singleton, holds_file_iff, kept, if_pos hlong]
    | directory es =>
      exact absurd (hlong.symm.trans (readable_directory_iff.mp hreadable).1) (by decide)

/-- **A walk finds the files of a tree**, with the names that lead to each. -/
theorem mem_walk_iff (ht : t.WellFormed) : ∀ {path : Path}, Readable path t →
    Path.isTooLong path = false → ∀ {names : List Path} {found : Option ByteArray},
      (names, found) ∈ t.walk path ↔ Holds path t names found := by
  induction ht with
  | file content =>
    intro path _ hpath names found
    rw [walk, List.mem_singleton, holds_file_iff, kept, if_neg (by simp [hpath])]
  | @directory es hdistinct _ _ ih =>
    intro path hreadable _ names found
    obtain ⟨-, hentries⟩ := readable_directory_iff.mp hreadable
    have hentry : ∀ name t, (name, t) ∈ es → ∀ {names found},
        (names, found) ∈ walkEntry path (name, t) ↔ Holds (Path.join path name) t names found := by
      intro name t ht names found
      have hreadable := hentries name t (hdistinct.get?_of_mem ht)
      exact mem_walkEntry_iff hreadable fun hlong => ih (name, t) ht hreadable hlong
    rw [walk, walkEntries_eq, List.mem_flatMap, holds_directory_iff hdistinct]
    constructor
    · rintro ⟨⟨name, t⟩, ht, hfound⟩
      obtain ⟨⟨rest, _⟩, hrest, heq⟩ := List.mem_map.mp hfound
      obtain ⟨rfl, rfl⟩ := Prod.mk.inj heq
      exact ⟨name, t, rest, ht, (hentry name t ht).mp hrest, rfl⟩
    · rintro ⟨name, t, rest, ht, hholds, rfl⟩
      exact ⟨(name, t), ht, List.mem_map.mpr ⟨(rest, found), (hentry name t ht).mpr hholds, rfl⟩⟩

/-- No two finds of a walk have the same names. -/
theorem nodup_map_fst_walk (ht : t.WellFormed) :
    ∀ path : Path, ((t.walk path).map Prod.fst).Nodup := by
  induction ht with
  | file content => exact fun _ => List.nodup_singleton _
  | directory hdistinct _ _ ih =>
    intro path
    rw [walk, walkEntries_eq, List.map_flatMap, List.nodup_flatMap]
    constructor
    · intro entry hentry
      have hnodup : ((walkEntry path entry).map Prod.fst).Nodup := by
        unfold walkEntry
        split
        · exact List.nodup_singleton _
        · exact ih entry hentry _
      rw [List.map_map]
      show ((walkEntry path entry).map ((entry.1 :: ·) ∘ Prod.fst)).Nodup
      rw [← List.map_map]
      exact hnodup.map fun _ _ h => (List.cons.inj h).2
    · -- finds below two entries differ in their first name
      refine (List.pairwise_map.mp hdistinct).imp fun {entry other} hne => ?_
      refine List.disjoint_left.mpr fun names hnames hnames' => ?_
      simp only [List.map_map, List.mem_map, Function.comp_apply] at hnames hnames'
      obtain ⟨f, -, rfl⟩ := hnames
      obtain ⟨g, -, hg⟩ := hnames'
      exact hne (List.cons.inj hg).1.symm

/-- The names that lead to something in a tree are plain. -/
theorem WellFormed.plain_of_at? (ht : t.WellFormed) : ∀ {names : List Path} {u : FileTree},
    t.at? names = some u → ∀ name ∈ names, Path.IsPlain name := by
  induction ht with
  | file content =>
    intro names u hu
    obtain ⟨rfl, -⟩ := at?_file_eq_some_iff.mp hu
    exact List.forall_mem_nil _
  | directory _ hplain _ ih =>
    intro names u hu
    cases names with
    | nil => exact List.forall_mem_nil _
    | cons name names =>
      obtain ⟨v, hv, hu⟩ := Option.bind_eq_some_iff.mp hu
      have hmem := Fields.mem_of_get? hv
      exact List.forall_mem_cons.mpr
        ⟨hplain name (Fields.mem_keys_of_mem hmem), ih (name, v) hmem hu⟩

end Walk

/-! ### Other orders of entries -/

theorem WellFormed.relisted_self {t : FileTree} (ht : t.WellFormed) : t.Relisted t := by
  induction ht with
  | file content => exact .file content
  | directory _ _ _ ih =>
    exact .directory (.refl _) (List.forall₂_same.mpr fun ⟨name, t⟩ h => ⟨name, ih (name, t) h⟩)

theorem WellFormed.relisted_of_perm {es others : Entries Path FileTree}
    (ht : (FileTree.directory es).WellFormed) (h : es.Perm others) :
    (FileTree.directory es).Relisted (.directory others) := by
  cases ht with
  | directory _ _ hbelow =>
    refine .directory h (List.forall₂_same.mpr fun ⟨name, t⟩ hmem => ⟨name, ?_⟩)
    exact (hbelow (name, t) (h.mem_iff.mpr hmem)).relisted_self

/-- A tree with the entries in another order has the same walk, up to the order. -/
theorem Relisted.perm_walk {t : FileTree} (ht : t.WellFormed) : ∀ t' : FileTree,
    t.Relisted t' → ∀ path, (t.walk path).Perm (t'.walk path) := by
  induction ht with
  | file content =>
    rintro _ ⟨⟩ path
    exact .refl _
  | directory _ _ _ ih =>
    rintro _ (_ | ⟨hperm, hbelow⟩) path
    have hih := (List.forall₂_and_left _ _).mpr
      ⟨fun entry hentry => ih entry (hperm.mem_iff.mpr hentry), hbelow⟩
    rw [walk, walk, walkEntries_eq, walkEntries_eq]
    refine (hperm.flatMap_right _).trans (flatMap_perm_of_forall₂ (hih.imp ?_))
    rintro _ _ ⟨hwalk, ⟨name, hrelisted⟩⟩
    unfold walkEntry
    refine List.Perm.map _ ?_
    split
    · exact .refl _
    · exact hwalk _ hrelisted _

/-! ### The files in order -/

/-- The `json` files that a walk finds, in the order of the names that lead to them. -/
def jsonFinds (path : Path) (t : FileTree) : List (List Path × Option ByteArray) :=
  ((t.walk path).filter fun f => Path.isJson (f.1.getLastD [])).mergeSort
    fun f g => Path.leNames f.1 g.1

theorem jsonFiles_directory (path : Path) (es : Entries Path FileTree) :
    (directory es).jsonFiles path =
      (jsonFinds path (directory es)).map fun f => (f.1.foldl Path.join path, f.2) := rfl

section Finds
variable {path : Path} {t t' : FileTree}

theorem mem_jsonFinds_iff {f : List Path × Option ByteArray} :
    f ∈ jsonFinds path t ↔ f ∈ t.walk path ∧ Path.isJson (f.1.getLastD []) = true := by
  unfold jsonFinds
  rw [(List.mergeSort_perm _ _).mem_iff, List.mem_filter]

theorem pairwise_leNames_jsonFinds (path : Path) (t : FileTree) :
    (jsonFinds path t).Pairwise fun f g => Path.leNames f.1 g.1 = true := by
  refine List.pairwise_mergeSort (fun _ _ _ => ?_) (fun _ _ => ?_) _
  · exact Path.leNames_trans
  · exact Path.leNames_total _ _

variable (ht : t.WellFormed)
include ht

theorem nodup_map_fst_jsonFinds : ((jsonFinds path t).map Prod.fst).Nodup :=
  (((List.mergeSort_perm _ _).map Prod.fst).nodup_iff).mpr
    ((nodup_map_fst_walk ht path).sublist (List.filter_sublist.map Prod.fst))

/-- No two files have the same names, so each stands before the next. -/
theorem pairwise_jsonFinds :
    (jsonFinds path t).Pairwise fun f g => List.Lex Path.NameBefore f.1 g.1 := by
  have hne : (jsonFinds path t).Pairwise fun f g => f.1 ≠ g.1 :=
    List.pairwise_map.mp (nodup_map_fst_jsonFinds ht)
  exact (pairwise_leNames_jsonFinds path t).imp₂
    (fun _ _ hle hne => Path.lex_of_leNames hle hne) hne

/-- The order of entries makes no difference to the files and their order. -/
theorem Relisted.jsonFinds_eq (h : t.Relisted t') : jsonFinds path t' = jsonFinds path t := by
  have hperm : (jsonFinds path t).Perm (jsonFinds path t') := by
    unfold jsonFinds
    exact (List.mergeSort_perm _ _).trans
      (((h.perm_walk ht _ path).filter _).trans (List.mergeSort_perm _ _).symm)
  refine (List.Perm.eq_of_pairwise (fun f g hf hg hfg hgf => ?_)
    (pairwise_leNames_jsonFinds path t) (pairwise_leNames_jsonFinds path t') hperm).symm
  -- of what has the same names there is only one
  exact List.inj_on_of_nodup_map (nodup_map_fst_jsonFinds ht) hf (hperm.mem_iff.mpr hg)
    (Path.leNames_antisymm hfg hgf)

end Finds

/-! ### Listing a directory -/

/-- Some names lead to a file, the last of which has the extension `json` behind something. -/
def HasJson (t : FileTree) (names : List Path) : Prop :=
  ∃ above stem content, stem ≠ [] ∧ names = above ++ [stem ++ Path.extension] ∧
    t.at? names = some (file content)

/-- The names that lead to the `json` files below a directory, in order. -/
def jsonWays (path : Path) (t : FileTree) : List (List Path) :=
  (jsonFinds path t).map Prod.fst

section Directory
variable {path : Path} {es : Entries Path FileTree} {names : List Path}
  (ht : (directory es).WellFormed) (hreadable : (directory es).Readable path)
include ht

/-- **The order in which entries are listed does not show.** -/
theorem jsonFiles_eq_of_relisted {t : FileTree} (h : (directory es).Relisted t) :
    t.jsonFiles path = (directory es).jsonFiles path := by
  have hfinds : jsonFinds path t = jsonFinds path (directory es) := h.jsonFinds_eq ht
  cases h with
  | directory hperm hbelow => rw [jsonFiles_directory, jsonFiles_directory, hfinds]

theorem nodup_jsonWays : (jsonWays path (directory es)).Nodup := nodup_map_fst_jsonFinds ht

include hreadable

theorem holds_of_mem_jsonFinds {f : List Path × Option ByteArray}
    (hf : f ∈ jsonFinds path (directory es)) : Holds path (directory es) f.1 f.2 :=
  (mem_walk_iff ht hreadable (readable_directory_iff.mp hreadable).1).mp
    (mem_jsonFinds_iff.mp hf).1

/-- **Which files are listed:** those of the tree that have the extension. -/
theorem mem_jsonWays_iff :
    names ∈ jsonWays path (directory es) ↔ (directory es).HasJson names := by
  have hpath := (readable_directory_iff.mp hreadable).1
  unfold jsonWays
  rw [List.mem_map]
  constructor
  · rintro ⟨⟨names, found⟩, hf, rfl⟩
    obtain ⟨content, hat, -⟩ := holds_of_mem_jsonFinds ht hreadable hf
    obtain ⟨stem, hstem, hlast⟩ := Path.isJson_iff.mp (mem_jsonFinds_iff.mp hf).2
    -- a directory is not a file, so there is a last name
    have hne : names ≠ [] := by
      rintro rfl
      cases hat
    refine ⟨names.dropLast, stem, content, hstem, ?_, hat⟩
    rw [← hlast, List.getLastD_eq_getLast?, List.getLast?_eq_some_getLast hne, Option.getD_some,
      List.dropLast_concat_getLast hne]
  · rintro ⟨above, stem, content, hstem, rfl, hat⟩
    have hwalk := (mem_walk_iff ht hreadable hpath).mpr ⟨content, hat, rfl⟩
    refine ⟨_, mem_jsonFinds_iff.mpr ⟨hwalk, ?_⟩, rfl⟩
    rw [List.getLastD_concat]
    exact Path.isJson_iff.mpr ⟨stem, hstem, rfl⟩

/-- **What is listed:** the path to each file, and what stands there, if the path can be
followed. -/
theorem map_jsonFiles_eq : ((directory es).jsonFiles path).map (fun f => (f.1, f.2.map file)) =
    (jsonWays path (directory es)).map fun names => (names.foldl Path.join path,
      if Path.isTooLong (names.foldl Path.join path) then none else (directory es).at? names) := by
  unfold jsonWays
  rw [jsonFiles_directory, List.map_map, List.map_map]
  refine List.map_congr_left fun f hf => ?_
  obtain ⟨content, hat, hfound⟩ := holds_of_mem_jsonFinds ht hreadable hf
  simp only [Function.comp_apply, hat, hfound, kept]
  split <;> rfl

/-- **In which order files are listed:** by their paths, each in front of the next. -/
theorem pairwise_before_jsonFiles :
    ((directory es).jsonFiles path).Pairwise fun f g => Path.Before f.1 g.1 := by
  have hplain : ∀ f ∈ jsonFinds path (directory es), ∀ name ∈ f.1, Path.IsPlain name := by
    intro f hf
    obtain ⟨content, hat, -⟩ := holds_of_mem_jsonFinds ht hreadable hf
    exact ht.plain_of_at? hat
  rw [jsonFiles_directory, List.pairwise_map]
  refine (pairwise_jsonFinds ht).imp_of_mem fun {f g} hf hg hlex => ?_
  exact Path.before_foldl_join path (hplain f hf) (hplain g hg) hlex

end Directory

end Sideload.FileTree
