import Sideload.Lint.Report
import Sideload.Proofs.Dataset.Answers

/-! # Repeated identities

An entity of a file repeats an identity if its identity stands at a smaller index already
(`DatasetFile.repeats`). The check of a file reports all repetitions (`duplicates_eq_map`), and a
dataset is refused for the first of them (`firstRepeated?_eq_map_head?`): both walk through the
identities in order, and what they have seen is what stands in front (`repeatsBehind_cons`).

`diagnostics_iff_toDataset` tells for which files there is a dataset by what is reported of them. -/

namespace Sideload

/-- The identities that stand in a list or in front of it already, with their indices. -/
def repeatsBehind (front ps : List Pointer) : List (Pointer × Nat) :=
  (ps.zipIdx front.length).filter fun e => e.1 ∈ (front ++ ps).take e.2

/-- The identities of a file that stand at a smaller index already, with their indices. -/
def DatasetFile.repeats (f : DatasetFile) : List (Pointer × Nat) :=
  f.pointers.zipIdx.filter fun e => e.1 ∈ f.pointers.take e.2

theorem repeatsBehind_cons (front : List Pointer) (p : Pointer) (ps : List Pointer) :
    repeatsBehind front (p :: ps) =
      (if p ∈ front then [(p, front.length)] else []) ++ repeatsBehind (front ++ [p]) ps := by
  have hfront : (front ++ p :: ps).take front.length = front := List.take_left
  unfold repeatsBehind
  rw [List.zipIdx_cons, List.filter_cons, hfront, List.append_assoc, List.length_append]
  by_cases hp : p ∈ front <;> simp [hp]

section Walk
variable {seen front : List Pointer} (hseen : ∀ q, q ∈ seen ↔ q ∈ front) (p : Pointer)
include hseen

/-- An identity that is seen once more is not seen anew. -/
theorem mem_seen_concat_iff (hp : p ∈ seen) (q : Pointer) : q ∈ seen ↔ q ∈ front ++ [p] := by
  rw [List.mem_append, List.mem_singleton, ← hseen]
  exact ⟨Or.inl, fun h => h.elim (fun h => h) fun h => h ▸ hp⟩

theorem mem_cons_seen_iff (q : Pointer) : q ∈ p :: seen ↔ q ∈ front ++ [p] := by
  rw [List.mem_cons, List.mem_append, List.mem_singleton, hseen, or_comm]

end Walk

/-- **A dataset is refused for the first repetition.** -/
theorem firstRepeated?_eq_map_head? : ∀ seen front ps : List Pointer,
    (∀ q, q ∈ seen ↔ q ∈ front) →
      firstRepeated? seen ps = (repeatsBehind front ps).head?.map Prod.fst
  | _, _, [], _ => rfl
  | seen, front, p :: ps, hseen => by
    rw [firstRepeated?, repeatsBehind_cons]
    by_cases hp : p ∈ seen
    · rw [if_pos hp, if_pos ((hseen p).mp hp)]
      rfl
    · rw [if_neg hp, if_neg (mt (hseen p).mpr hp), List.nil_append]
      exact firstRepeated?_eq_map_head? _ _ ps (mem_cons_seen_iff hseen p)

namespace Lint

/-- **All repetitions are reported.** -/
theorem duplicates_eq_map : ∀ seen front ps : List Pointer,
    (∀ q, q ∈ seen ↔ q ∈ front) → duplicates seen front.length ps =
      (repeatsBehind front ps).map fun e => ⟨entityPath e.2, .duplicate e.1⟩
  | _, _, [], _ => rfl
  | seen, front, p :: ps, hseen => by
    have hlength : front.length + 1 = (front ++ [p]).length := by simp
    rw [duplicates, repeatsBehind_cons, hlength]
    by_cases hp : p ∈ seen
    · rw [if_pos hp, if_pos ((hseen p).mp hp),
        duplicates_eq_map _ _ ps (mem_seen_concat_iff hseen p hp)]
      rfl
    · rw [if_neg hp, if_neg (mt (hseen p).mpr hp), List.nil_append]
      exact duplicates_eq_map _ _ ps (mem_cons_seen_iff hseen p)

/-- What else is wrong with a file has another code. -/
theorem code_of_mem_rest {f : DatasetFile} {d : Diagnostic} (hd : d ∈ unknownTargets f ++
    ((f.entities.zipIdx.flatMap fun e => entityProblems f e.2 e.1) ++ missingHidden f)) :
    d.problem.code ≠ "E002" ∧ d.problem.code ≠ "E005" := by
  have hrelation : ∀ {type path relation : String} {links : Links},
      d ∈ relationProblems f type path relation links →
        d.problem.code ≠ "E002" ∧ d.problem.code ≠ "E005" := by
    intro type path relation links hd
    unfold relationProblems at hd
    split at hd
    · rw [List.mem_singleton.mp hd]
      simp [Problem.code]
    · rcases List.mem_append.mp hd with hd | hd
      · split at hd
        · rw [List.mem_singleton.mp hd]
          simp [Problem.code]
        · cases hd
      · obtain ⟨id, -, rfl⟩ := List.mem_map.mp hd
        simp [Problem.code]
  rcases List.mem_append.mp hd with hd | hd
  · obtain ⟨type, -, hd⟩ := List.mem_flatMap.mp hd
    obtain ⟨relation, -, rfl⟩ := List.mem_map.mp hd
    simp [Problem.code]
  · rcases List.mem_append.mp hd with hd | hd
    · obtain ⟨e, -, hd⟩ := List.mem_flatMap.mp hd
      obtain ⟨link, -, hd⟩ := List.mem_flatMap.mp hd
      exact hrelation hd
    · obtain ⟨p, -, rfl⟩ := List.mem_map.mp hd
      simp [Problem.code]

/-- What is wrong with a file: its repetitions, and what has another code. -/
theorem diagnoseFile_eq (f : DatasetFile) : diagnoseFile f =
    (f.repeats.map fun e => ⟨entityPath e.2, .duplicate e.1⟩) ++ (unknownTargets f ++
      ((f.entities.zipIdx.flatMap fun e => entityProblems f e.2 e.1) ++ missingHidden f)) := by
  have hduplicates : duplicates [] 0 f.pointers = _ :=
    duplicates_eq_map [] [] f.pointers fun _ => Iff.rfl
  unfold diagnoseFile
  rw [hduplicates, List.append_assoc, List.append_assoc]
  rfl

theorem filter_diagnoseFile (f : DatasetFile) :
    (diagnoseFile f).filter (fun d => d.problem.code = "E005") =
      f.repeats.map fun e => ⟨entityPath e.2, .duplicate e.1⟩ := by
  rw [diagnoseFile_eq, List.filter_append]
  have hrest := List.filter_eq_nil_iff.mpr fun d hd => mt of_decide_eq_true
    (code_of_mem_rest (f := f) (d := d) hd).2
  have hrepeats : ∀ es : List (Pointer × Nat),
      (es.map fun e => (⟨entityPath e.2, .duplicate e.1⟩ : Diagnostic)).filter
        (fun d => d.problem.code = "E005") = es.map fun e => ⟨entityPath e.2, .duplicate e.1⟩ := by
    refine fun es => List.filter_eq_self.mpr fun d hd => ?_
    obtain ⟨e, -, rfl⟩ := List.mem_map.mp hd
    rfl
  rw [hrest, hrepeats, List.append_nil]

theorem code_ne_of_mem_diagnoseFile {f : DatasetFile} {d : Diagnostic} (hd : d ∈ diagnoseFile f) :
    d.problem.code ≠ "E002" := by
  rw [diagnoseFile_eq] at hd
  rcases List.mem_append.mp hd with hd | hd
  · obtain ⟨e, -, rfl⟩ := List.mem_map.mp hd
    simp [Problem.code]
  · exact (code_of_mem_rest hd).1

/-- Nothing is reported that would refuse a dataset if nothing is repeated. -/
theorem forall_code_ne_iff (f : DatasetFile) :
    (∀ d ∈ diagnoseFile f, d.problem.code ≠ "E002" ∧ d.problem.code ≠ "E005") ↔
      f.repeats = [] := by
  rw [← List.map_eq_nil_iff, ← filter_diagnoseFile, List.filter_eq_nil_iff]
  simp only [decide_eq_true_iff]
  exact ⟨fun h d hd => (h d hd).2, fun h d hd => ⟨code_ne_of_mem_diagnoseFile hd, h d hd⟩⟩

end Lint

namespace Dataset

/-- There is a dataset of a file that repeats nothing. -/
theorem exists_ofFile_iff (f : DatasetFile) : (∃ d, ofFile f = .ok d) ↔ f.repeats = [] := by
  have hfirst : firstRepeated? [] f.pointers = f.repeats.head?.map Prod.fst :=
    firstRepeated?_eq_map_head? [] [] f.pointers fun _ => Iff.rfl
  cases hrepeats : f.repeats with
  | nil =>
    rw [hrepeats] at hfirst
    obtain ⟨d, hd, -⟩ := exists_ofFile_of_firstRepeated? hfirst
    exact iff_of_true ⟨d, hd⟩ rfl
  | cons e es =>
    rw [hrepeats] at hfirst
    rw [ofFile_of_firstRepeated? hfirst]
    exact iff_of_false (fun ⟨_, h⟩ => nomatch h) (List.cons_ne_nil e es)

/-- The error names the first repetition. -/
theorem ofFile_of_mem_head? {f : DatasetFile} {e : Pointer × Nat} (he : e ∈ f.repeats.head?) :
    ofFile f = .error (.duplicate e.1) := by
  refine ofFile_of_firstRepeated? ?_
  rw [firstRepeated?_eq_map_head? [] [] f.pointers fun _ => Iff.rfl]
  exact congrArg (Option.map Prod.fst) (Option.mem_def.mp he)

end Dataset

namespace Lint

/-- What stands at a path is diagnosed by the value that it holds. -/
theorem diagnostics_of {path : FileTree.Path} {found : Option FileTree} {v : Json}
    (h : Source.value path found = .ok v) (base : FileTree.Path) :
    (FileReport.of base path found).diagnostics = diagnose v := by
  unfold FileReport.of
  rw [h]

/-- **The linter and the loader accept the same documents.** A value is a dataset if neither a wrong
shape nor a repeated identity is reported of the file that holds it. A wrong shape is reported
alone, in the words of the error that refuses the value. Otherwise exactly the entities that repeat
an identity are reported as duplicates, and if there are some, the error names the first of them. -/
theorem diagnostics_iff_toDataset (base : FileTree.Path) {path : FileTree.Path}
    {found : Option FileTree} {v : Json} (h : Source.value path found = .ok v) :
    let ds := (FileReport.of base path found).diagnostics
    ((∃ d, Source.toDataset v = .ok d) ↔
      ∀ d ∈ ds, d.problem.code ≠ "E002" ∧ d.problem.code ≠ "E005") ∧
    (∀ fault, DatasetFile.ofJson v = .error fault → ∃ d error, ds = [d] ∧
      d.problem.code = "E002" ∧ Source.toDataset v = .error error ∧
      d.problem.message = error.message) ∧
    ∀ f, DatasetFile.ofJson v = .ok f → (∀ d ∈ ds, d.problem.code ≠ "E002") ∧
      ds.filter (fun d => d.problem.code = "E005") =
        (f.repeats.map fun e => ⟨entityPath e.2, .duplicate e.1⟩) ∧
      ∀ e ∈ f.repeats.head?, Source.toDataset v = .error (.invalidDataset (.duplicate e.1)) := by
  intro ds
  have hds : ds = diagnose v := diagnostics_of h base
  unfold diagnose at hds
  unfold Source.toDataset Dataset.ofJson
  cases hf : DatasetFile.ofJson v with
  | error fault =>
    rw [hf] at hds
    refine ⟨iff_of_false (fun ⟨_, hd⟩ => nomatch hd) fun hall => ?_,
      fun _ _ => ⟨_, _, hds, rfl, rfl, rfl⟩, fun _ hg => nomatch hg⟩
    rw [hds] at hall
    exact (hall _ List.mem_cons_self).1 rfl
  | ok f =>
    rw [hf] at hds
    rw [hds]
    refine ⟨?_, fun _ he => (nomatch he), fun g hg => ?_⟩
    · rw [forall_code_ne_iff, ← Dataset.exists_ofFile_iff]
      dsimp only
      simp only [mapError_eq_ok_iff]
    · obtain rfl := Except.ok.inj hg
      refine ⟨fun d hd => code_ne_of_mem_diagnoseFile hd, filter_diagnoseFile f, fun e he => ?_⟩
      dsimp only
      rw [Dataset.ofFile_of_mem_head? he]
      rfl

/-- Four entities with two identities: an integer id and its text are one, and the first of the
repetitions is the second entity. -/
theorem diagnostics_iff_toDataset_twice :
    let path := FileTree.Path.ofText "d.json"
    let found : Option FileTree := some (.file
      "[\x7b\x7d,[[\"u\",1],[\"u\",\"1\"],[\"v\",1],[\"u\",1]]]".toUTF8)
    ∃ v, Source.value path found = .ok v ∧
      (FileReport.of [] path found).diagnostics.filter (fun d => d.problem.code = "E005") =
        [⟨"/entities/1", .duplicate ⟨"u", "1"⟩⟩, ⟨"/entities/3", .duplicate ⟨"u", "1"⟩⟩] ∧
      Source.toDataset v = .error (.invalidDataset (.duplicate ⟨"u", "1"⟩)) := by
  intro path found
  have hrepeats : ((Source.value path found).toOption.bind fun v =>
      (DatasetFile.ofJson v).toOption.map DatasetFile.repeats) =
        some [(⟨"u", "1"⟩, 1), (⟨"u", "1"⟩, 3)] := by decide +kernel
  cases hv : Source.value path found with
  | error e => rw [hv] at hrepeats; cases hrepeats
  | ok v =>
    rw [hv] at hrepeats
    have hrepeats : (DatasetFile.ofJson v).toOption.map DatasetFile.repeats =
      some [(⟨"u", "1"⟩, 1), (⟨"u", "1"⟩, 3)] := hrepeats
    obtain ⟨-, -, hfile⟩ := diagnostics_iff_toDataset [] hv
    cases hf : DatasetFile.ofJson v with
    | error e => rw [hf] at hrepeats; cases hrepeats
    | ok f =>
      obtain ⟨-, hreported, hrefused⟩ := hfile f hf
      rw [hf] at hrepeats
      rw [show f.repeats = _ from Option.some.inj hrepeats] at hreported hrefused
      have hplaces : entityPath 1 = "/entities/1" ∧ entityPath 3 = "/entities/3" := by decide
      refine ⟨v, rfl, hreported.trans ?_, hrefused _ rfl⟩
      rw [← hplaces.1, ← hplaces.2]
      rfl

end Lint

end Sideload
