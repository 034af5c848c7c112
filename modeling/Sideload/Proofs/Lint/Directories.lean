import Sideload.Lint.Report
import Sideload.Proofs.FileTree.Listing

/-! # Linting a directory

The report of a directory has one part for each `json` file below it, in the order of their paths.
It can be told from the tree alone, whatever the order in which entries are listed
(`lint_directory`). -/

namespace Sideload.Lint

open FileTree

/-- The report of what is listed at a path. -/
theorem Report.of_some (path : Path) (strict : Bool) (t : FileTree) :
    Report.of path strict (some t) =
      ⟨path, strict, ((t.jsonFiles path).map fun f => (f.1, f.2.map file)).map
        fun f => .of path f.1 f.2⟩ := by
  rw [List.map_map]
  rfl

/-- The files of a report, by the names that lead to them. -/
theorem Report.files_of_directory {path : Path} {es : Entries Path FileTree}
    (ht : (directory es).WellFormed) (hreadable : (directory es).Readable path) (strict : Bool) :
    (Report.of path strict (some (directory es))).files =
      (jsonWays path (directory es)).map fun names =>
        let p := names.foldl Path.join path
        .of path p (if Path.isTooLong p then none else (directory es).at? names) := by
  rw [Report.of_some, map_jsonFiles_eq ht hreadable, List.map_map]
  rfl

/-- **Each file once, in the order of paths.** In a tree of plain names, where no directory names
two entries alike and each can be read, the report of a directory consists of the reports of its
files, at any depth, that have the extension `json` behind a stem that is not empty; each of these
files is there once. They stand in the order of their paths, component by component. The order in
which entries are listed makes no difference to the report. -/
theorem lint_directory {path : Path} (strict : Bool) {es : Entries Path FileTree}
    (ht : (directory es).WellFormed) (hreadable : (directory es).Readable path) :
    let report (t : FileTree) : Report := .of path strict (some t)
    (∃ ways : List (List Path), ways.Nodup ∧
      (∀ names, names ∈ ways ↔ (directory es).HasJson names) ∧
      (report (directory es)).files = ways.map fun names =>
        let p := names.foldl Path.join path
        .of path p (if Path.isTooLong p then none else (directory es).at? names)) ∧
    ((report (directory es)).files.Pairwise fun f g => Path.Before f.path g.path) ∧
    ∀ t, (directory es).Relisted t → report t = report (directory es) := by
  intro report
  refine ⟨⟨jsonWays path (directory es), nodup_jsonWays ht,
    fun names => mem_jsonWays_iff ht hreadable, Report.files_of_directory ht hreadable strict⟩,
    ?_, fun t h => ?_⟩
  · show (Report.of path strict (some (directory es))).files.Pairwise _
    rw [Report.of_some, List.map_map, List.pairwise_map]
    exact pairwise_before_jsonFiles ht hreadable
  · show Report.of path strict (some t) = Report.of path strict (some (directory es))
    rw [Report.of_some, Report.of_some, jsonFiles_eq_of_relisted ht h]

/-- Directories beside files of similar names, and a file that has nothing but the extension. -/
theorem lint_directory_reversed :
    let name := Path.ofText
    let es : Entries Path FileTree := [(name ".json", file .empty),
      (name "a", directory [(name "b.json", file .empty)]), (name "a.json", file .empty),
      (name "x.json", directory [(name "y.json", file .empty)])]
    (directory es).WellFormed ∧ (directory es).Readable (name "d") ∧
      (Report.of (name "d") false (some (directory es.reverse))).files.map FileReport.path =
        [name "d/a/b.json", name "d/a.json", name "d/x.json/y.json"] := by
  intro name es
  have hleaf (name : Path) (h : (Path.isIdle name || name = Path.up || name.contains Path.slash) =
      false) : (directory [(name, file .empty)]).WellFormed :=
    .directory (List.nodup_singleton _) (by simpa [Fields.keys] using Path.isPlain_of h)
      (by simpa using .file .empty)
  have hreadleaf (path name : Path) (h : Path.isTooLong path = false) :
      (directory [(name, file .empty)]).Readable path :=
    readable_directory h (by simpa using readable_file _)
  have ht : (directory es).WellFormed := by
    refine .directory (by decide) ?_ ?_
    · simp only [es, Fields.keys, List.map_cons, List.map_nil, List.forall_mem_cons]
      exact ⟨Path.isPlain_of rfl, Path.isPlain_of rfl, Path.isPlain_of rfl, Path.isPlain_of rfl,
        List.forall_mem_nil _⟩
    · simp only [es, List.forall_mem_cons]
      exact ⟨.file _, hleaf _ rfl, .file _, hleaf _ rfl, List.forall_mem_nil _⟩
  have hreadable : (directory es).Readable (name "d") := by
    refine readable_directory rfl ?_
    simp only [es, List.forall_mem_cons]
    exact ⟨readable_file _, hreadleaf _ _ rfl, readable_file _, hreadleaf _ _ rfl,
      List.forall_mem_nil _⟩
  obtain ⟨-, -, hlisted⟩ := lint_directory false ht hreadable
  have hreversed : Report.of (name "d") false (some (directory es.reverse)) =
      .of (name "d") false (some (directory es)) :=
    hlisted _ (ht.relisted_of_perm (List.reverse_perm es).symm)
  refine ⟨ht, hreadable, ?_⟩
  rw [hreversed]
  have hsorted : jsonFinds (name "d") (directory es) =
      [([name "a", name "b.json"], some .empty), ([name "a.json"], some .empty),
        ([name "x.json", name "y.json"], some .empty)] :=
    List.mergeSort_of_pairwise (by decide +kernel)
  rw [Report.of_some, jsonFiles_directory, hsorted]
  rfl

end Sideload.Lint
