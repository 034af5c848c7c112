import Sideload.Proofs.Decimal.Digits
import Sideload.Proofs.Dataset.Entries
import Sideload.Proofs.Dataset.LoadErrors
import Sideload.Proofs.Lint.ErrorFree
import Sideload.Proofs.Lint.Duplicates
import Sideload.Proofs.Lists.Fronts

/-! # Links that lead nowhere

A relation of an entity links identities (`DatasetFile.linked`): the ids that the entity links, each
of the type that the relation is declared to lead to. The check of the file reports all of them that
are not in the file, each at its own place (`mem_diagnoseFile_iff`, `linkPath_inj`). The dataset
passes over those that are hidden, and is stopped by the first other one that is not there
(`exists_first_of_load_eq_error`); if there is none, all are loaded (`forall₂_entity?_of_load`).

`load_iff_diagnosed` says that the two agree. -/

namespace Sideload

/-! ### Places of links -/

namespace Lint

/-- The place of a link of an entity. -/
def linkPath (i : Nat) (relation : String) (j : Nat) : String :=
  entityPath i ++ "/relations/" ++ relation ++ "/" ++ Decimal.integerText j

theorem toList_linkPath (i : Nat) (relation : String) (j : Nat) :
    (linkPath i relation j).toList = "/entities/".toList ++ (Nat.toDigits 10 i ++
      '/' :: ("relations/".toList ++ (relation.toList ++ '/' :: Nat.toDigits 10 j))) := by
  unfold linkPath entityPath Decimal.integerText
  simp [Decimal.integerChars_natCast]

/-- **Different links have different places**, whatever letters the names of relations have. -/
theorem linkPath_inj {i i' j j' : Nat} {relation relation' : String} :
    linkPath i relation j = linkPath i' relation' j' ↔
      i = i' ∧ relation = relation' ∧ j = j' := by
  have hslash : ∀ n : Nat, '/' ∉ Nat.toDigits 10 n := fun n h =>
    absurd (Decimal.isDigit_of_mem_toDigits h) (by decide)
  constructor
  · intro h
    have hlist := congrArg String.toList h
    rw [toList_linkPath, toList_linkPath, List.append_cancel_left_eq] at hlist
    obtain ⟨hi, hlist⟩ := append_cons_inj (hslash i) (hslash i') hlist
    rw [List.append_cancel_left_eq] at hlist
    -- behind its last slash a place has the index of the link
    have hreverse := congrArg List.reverse hlist
    rw [List.reverse_append, List.reverse_append, List.reverse_cons, List.reverse_cons,
      List.append_assoc, List.append_assoc] at hreverse
    obtain ⟨hj, hrelation⟩ := append_cons_inj (mt List.mem_reverse.mp (hslash j))
      (mt List.mem_reverse.mp (hslash j')) hreverse
    refine ⟨Decimal.toDigits_injective hi, ?_, Decimal.toDigits_injective (List.reverse_inj.mp hj)⟩
    exact String.toList_inj.mp (List.reverse_inj.mp hrelation)
  · rintro ⟨rfl, rfl, rfl⟩
    rfl

end Lint

/-! ### Links of a file -/

namespace DatasetFile

/-- The identities behind links: none for a relation that is not declared. -/
def behind (f : DatasetFile) (type relation : String) (links : Links) : List Pointer :=
  match f.types.relation? type relation with
  | none => []
  | some d => links.ids.map (Pointer.mk d.target)

/-- The identities that an entity links, in the order of its links. -/
def linked (f : DatasetFile) (e : EntityEntry) (relation : String) : List Pointer :=
  match Fields.get? e.links relation with
  | none => []
  | some links => f.behind e.entity.type relation links

theorem getElem?_linked_eq_some_iff {f : DatasetFile} {e : EntityEntry} {relation : String}
    {j : Nat} {q : Pointer} : (f.linked e relation)[j]? = some q ↔
      ∃ links, Fields.get? e.links relation = some links ∧
        (f.behind e.entity.type relation links)[j]? = some q := by
  unfold linked
  cases Fields.get? e.links relation <;> simp

end DatasetFile

/-! ### What is reported -/

namespace Lint

theorem mem_missingTargets_iff {known : List Pointer} {path target : String} {ids : List String}
    {place : String} {q : Pointer} :
    ⟨place, .missingTarget q⟩ ∈ missingTargets known path target ids ↔
      ∃ j : Nat, (ids.map (Pointer.mk target))[j]? = some q ∧ q ∉ known ∧
        place = path ++ "/" ++ Decimal.integerText j := by
  unfold missingTargets
  rw [List.mem_map]
  simp only [List.mem_filter, Bool.not_eq_true', List.contains_eq_mem, decide_eq_false_iff_not,
    Prod.exists, List.mem_zipIdx_iff_getElem?, List.getElem?_map, Option.map_eq_some_iff,
    Diagnostic.mk.injEq, Problem.missingTarget.injEq]
  constructor
  · rintro ⟨id, j, ⟨hid, hmissing⟩, rfl, rfl⟩
    exact ⟨j, ⟨id, hid, rfl⟩, hmissing, rfl⟩
  · rintro ⟨j, ⟨id, hid, rfl⟩, hmissing, rfl⟩
    exact ⟨id, j, ⟨hid, hmissing⟩, rfl, rfl⟩

theorem mem_relationProblems_iff {f : DatasetFile} {type path relation : String} {links : Links}
    {place : String} {q : Pointer} :
    ⟨place, .missingTarget q⟩ ∈ relationProblems f type path relation links ↔
      ∃ j : Nat, (f.behind type relation links)[j]? = some q ∧ q ∉ f.pointers ∧
        place = path ++ "/" ++ Decimal.integerText j := by
  unfold relationProblems DatasetFile.behind
  cases f.types.relation? type relation with
  | none => simp
  | some d =>
    have hseveral : (⟨place, .missingTarget q⟩ : Diagnostic) ∉
        if d.cardinality = .one && links.isList then [⟨path, .severalLinks relation⟩] else [] := by
      split <;> simp
    rw [List.mem_append, mem_missingTargets_iff]
    exact or_iff_right hseveral

/-- **What is reported of links**: all that lead to no entity of the file, at their places. -/
theorem mem_diagnoseFile_iff {f : DatasetFile}
    (hlinks : ∀ e ∈ f.entities, Fields.Distinct e.links) {i : Nat} {relation : String} {j : Nat}
    {q : Pointer} : ⟨linkPath i relation j, .missingTarget q⟩ ∈ diagnoseFile f ↔
      ∃ e, f.entities[i]? = some e ∧ (f.linked e relation)[j]? = some q ∧ q ∉ f.pointers := by
  have hentities : ⟨linkPath i relation j, .missingTarget q⟩ ∈ diagnoseFile f ↔
      ⟨linkPath i relation j, .missingTarget q⟩ ∈
        f.entities.zipIdx.flatMap fun e => entityProblems f e.2 e.1 := by
    rw [diagnoseFile_eq, List.mem_append, List.mem_append, List.mem_append]
    have hrepeats : (⟨linkPath i relation j, .missingTarget q⟩ : Diagnostic) ∉
        f.repeats.map fun e => ⟨entityPath e.2, .duplicate e.1⟩ := by simp
    have htypes : ⟨linkPath i relation j, .missingTarget q⟩ ∉ unknownTargets f := by
      simp [unknownTargets]
    have hhidden : ⟨linkPath i relation j, .missingTarget q⟩ ∉ missingHidden f := by
      simp [missingHidden]
    tauto
  rw [hentities]
  unfold entityProblems
  simp only [List.mem_flatMap, Prod.exists, List.mem_zipIdx_iff_getElem?, mem_relationProblems_iff]
  constructor
  · rintro ⟨e, i', he, name, links, hmem, j', hq, hmissing, hpath⟩
    obtain ⟨rfl, rfl, rfl⟩ := linkPath_inj.mp hpath
    have hget := (hlinks e (List.mem_of_getElem? he)).get?_of_mem hmem
    exact ⟨e, he, DatasetFile.getElem?_linked_eq_some_iff.mpr ⟨links, hget, hq⟩, hmissing⟩
  · rintro ⟨e, he, hq, hmissing⟩
    obtain ⟨links, hget, hq⟩ := DatasetFile.getElem?_linked_eq_some_iff.mp hq
    exact ⟨e, i, he, relation, links, Fields.mem_of_get? hget, j, hq, hmissing, rfl⟩

theorem mem_diagnose_iff {v : Json} (hv : v.Distinct) {f : DatasetFile}
    (hf : DatasetFile.ofJson v = .ok f) {i : Nat} {e : EntityEntry} (he : f.entities[i]? = some e)
    {relation : String} {j : Nat} {q : Pointer} :
    ⟨linkPath i relation j, .missingTarget q⟩ ∈ diagnose v ↔
      (f.linked e relation)[j]? = some q ∧ q ∉ f.pointers := by
  have hdiagnose : diagnose v = diagnoseFile f := by
    unfold diagnose
    rw [hf]
  rw [hdiagnose, mem_diagnoseFile_iff fun e he => DatasetFile.distinct_links hv hf he]
  constructor
  · rintro ⟨e', he', h⟩
    obtain rfl := Option.some.inj (he'.symm.trans he)
    exact h
  · exact fun h => ⟨e, he, h⟩

end Lint

/-! ### What is loaded -/

namespace Dataset

section Loading
variable {f : DatasetFile} {d : Dataset} (h : ofFile f = .ok d) {e : EntityEntry}
  (he : e ∈ f.entities)
include h he

theorem record?_eq_recordOf : d.record? e.entity.pointer = some (recordOf e) := by
  obtain ⟨-, hrecords, -⟩ := of_ofFile h
  exact record?_of_mem (r := recordOf e) (hrecords ▸ List.mem_map_of_mem he)

/-- **What is loaded** for a relation of an entity is followed from what the file links. -/
theorem load_eq_follow (relation : String) :
    (∃ target ids, d.load e.entity.pointer relation =
        d.follow e.entity.pointer relation target ids ∧
      ids.map (Pointer.mk target) = f.linked e relation) ∨
    d.load e.entity.pointer relation = .ok [] ∧ f.linked e relation = [] := by
  have hrecord := record?_eq_recordOf h he
  obtain ⟨htypes, -, -⟩ := of_ofFile h
  have htarget : d.registry.targetType? e.entity.pointer.type relation =
      (f.types.relation? e.entity.type relation).map RelationDef.target := by
    unfold registry
    rw [htypes]
    rfl
  have hids : Fields.get? (recordOf e).links relation =
      (Fields.get? e.links relation).map Links.ids :=
    Fields.get?_mapValues Links.ids e.links relation
  unfold load DatasetFile.linked DatasetFile.behind
  rw [hrecord]
  dsimp only
  rw [hids, htarget]
  cases Fields.get? e.links relation with
  | none => exact Or.inr ⟨rfl, rfl⟩
  | some links =>
    cases f.types.relation? e.entity.type relation with
    | none => exact Or.inr ⟨rfl, rfl⟩
    | some def' => exact Or.inl ⟨def'.target, links.ids, rfl, rfl⟩

theorem load_eq_error_iff {relation : String} {error : LoadError} :
    d.load e.entity.pointer relation = .error error ↔
      ∃ q, (f.linked e relation).find? d.dangles = some q ∧
        error = .danglingReference e.entity.pointer relation q := by
  rcases load_eq_follow h he relation with ⟨target, ids, hload, hlinked⟩ | ⟨hload, hlinked⟩
  · rw [hload, ← hlinked, follow_eq_error_iff]
  · simp [hload, hlinked]

omit he in
/-- What dangles is in the file neither as an entity nor as hidden. -/
theorem dangles_iff {q : Pointer} : d.dangles q = true ↔ q ∉ f.pointers ∧ q ∉ f.hidden := by
  obtain ⟨-, hrecords, hhidden⟩ := of_ofFile h
  have hpointers : d.records.map Record.pointer = f.pointers := by
    rw [hrecords, List.map_map]
    rfl
  have hentity : (d.entity? q).isNone = true ↔ q ∉ f.pointers := by
    rw [← hpointers, ← isSome_entity?_iff]
    cases d.entity? q <;> simp
  unfold dangles isHidden
  rw [Bool.and_eq_true, hentity, hhidden, Bool.not_eq_true', List.contains_eq_mem,
    decide_eq_false_iff_not, and_comm]

/-- Loading fails if some link leads to what is neither in the file nor hidden. -/
theorem exists_load_eq_error_iff {relation : String} :
    (∃ error, d.load e.entity.pointer relation = .error error) ↔
      ∃ q ∈ f.linked e relation, q ∉ f.pointers ∧ q ∉ f.hidden := by
  simp only [load_eq_error_iff h he, ← dangles_iff h]
  rw [← List.find?_isSome, Option.isSome_iff_exists]
  exact ⟨fun ⟨_, q, hq, _⟩ => ⟨q, hq⟩, fun ⟨q, hq⟩ => ⟨_, q, hq, rfl⟩⟩

/-- What fails is the first such link. -/
theorem exists_first_of_load_eq_error {relation : String} {error : LoadError}
    (herror : d.load e.entity.pointer relation = .error error) :
    ∃ (j : Nat) (q : Pointer), (f.linked e relation)[j]? = some q ∧ q ∉ f.pointers ∧
      q ∉ f.hidden ∧ (∀ k < j, ∀ t, (f.linked e relation)[k]? = some t → t ∉ f.pointers →
        t ∈ f.hidden) ∧ error = .danglingReference e.entity.pointer relation q := by
  obtain ⟨q, hq, rfl⟩ := (load_eq_error_iff h he).mp herror
  obtain ⟨hdangles, j, hj, hget, hbefore⟩ := List.find?_eq_some_iff_getElem.mp hq
  obtain ⟨hmissing, hhidden⟩ := (dangles_iff h).mp hdangles
  refine ⟨j, q, List.getElem?_eq_some_iff.mpr ⟨hj, hget⟩, hmissing, hhidden,
    fun k hk t ht htmissing => ?_, rfl⟩
  obtain ⟨hlength, rfl⟩ := List.getElem?_eq_some_iff.mp ht
  by_contra hthidden
  have hnot := hbefore k hk
  rw [(dangles_iff h).mpr ⟨htmissing, hthidden⟩] at hnot
  cases hnot

/-- What is loaded are the entities behind all links that are not hidden. -/
theorem forall₂_entity?_of_load {relation : String} {values : List Entity}
    (hvalues : d.load e.entity.pointer relation = .ok values) :
    List.Forall₂ (fun q v => d.entity? q = some v)
      ((f.linked e relation).filter fun q => q ∉ f.hidden) values := by
  obtain ⟨-, -, hhidden⟩ := of_ofFile h
  have hfilter : ∀ ps : List Pointer, ps.filter (fun q => q ∉ f.hidden) =
      ps.filter fun q => !d.isHidden q := by
    refine fun ps => List.filter_congr fun q _ => ?_
    unfold isHidden
    rw [hhidden, List.contains_eq_mem, decide_not]
  rcases load_eq_follow h he relation with ⟨target, ids, hload, hlinked⟩ | ⟨hload, hlinked⟩
  · rw [hload, follow_eq_ok_iff, hlinked, ← hfilter] at hvalues
    exact hvalues.imp fun q v hq => (visible?_eq_some_iff.mp hq).2
  · obtain rfl := Except.ok.inj (hload.symm.trans hvalues)
    rw [hlinked]
    exact .nil

end Loading

/-- **Loading fails exactly where a link is reported** that leads nowhere and is not hidden, and the
first such link is what fails. Whatever is loaded are the entities that the relation links, in the
order of the links, one for each link that is not hidden. -/
theorem load_iff_diagnosed {v : Json} (hv : v.Distinct) {f : DatasetFile}
    (hf : DatasetFile.ofJson v = .ok f) {d : Dataset} (hd : Dataset.ofJson v = .ok d) {i : Nat}
    {e : EntityEntry} (he : f.entities[i]? = some e) (relation : String) :
    let p := e.entity.pointer
    let reported := fun (j : Nat) (q : Pointer) =>
      (⟨Lint.linkPath i relation j, .missingTarget q⟩ : Lint.Diagnostic) ∈ Lint.diagnose v
    (∀ base path found, Source.value path found = .ok v →
      (Lint.FileReport.of base path found).diagnostics = Lint.diagnose v) ∧
    ((∃ error, d.load p relation = .error error) ↔ ∃ j q, reported j q ∧ q ∉ f.hidden) ∧
    (∀ error, d.load p relation = .error error → ∃ j q, reported j q ∧ q ∉ f.hidden ∧
      (∀ k < j, ∀ t, reported k t → t ∈ f.hidden) ∧ error = .danglingReference p relation q) ∧
    ∀ values, d.load p relation = .ok values →
      List.Forall₂ (fun q v => d.entity? q = some v)
        ((f.linked e relation).filter fun q => q ∉ f.hidden) values := by
  intro p reported
  obtain ⟨f', hf', hd⟩ := ofJson_eq_ok_iff.mp hd
  obtain rfl := Except.ok.inj (hf.symm.trans hf')
  have hmem := List.mem_of_getElem? he
  have hreported : ∀ j q, reported j q ↔ (f.linked e relation)[j]? = some q ∧ q ∉ f.pointers :=
    fun _ _ => Lint.mem_diagnose_iff hv hf he
  refine ⟨fun base path found h => Lint.diagnostics_of h base, ?_, fun error herror => ?_,
    fun values h => forall₂_entity?_of_load hd hmem h⟩
  · rw [exists_load_eq_error_iff hd hmem]
    constructor
    · rintro ⟨q, hq, hmissing, hhidden⟩
      obtain ⟨j, hj⟩ := List.mem_iff_getElem?.mp hq
      exact ⟨j, q, (hreported j q).mpr ⟨hj, hmissing⟩, hhidden⟩
    · rintro ⟨j, q, hq, hhidden⟩
      obtain ⟨hj, hmissing⟩ := (hreported j q).mp hq
      exact ⟨q, List.mem_of_getElem? hj, hmissing, hhidden⟩
  · obtain ⟨j, q, hj, hmissing, hhidden, hbefore, rfl⟩ :=
      exists_first_of_load_eq_error hd hmem herror
    refine ⟨j, q, (hreported j q).mpr ⟨hj, hmissing⟩, hhidden, fun k hk t ht => ?_, rfl⟩
    obtain ⟨ht, htmissing⟩ := (hreported k t).mp ht
    exact hbefore k hk t ht htmissing

/-- A relation that links an entity twice, one that is hidden and missing, and two that are only
missing, beside one that lacks nothing but what is hidden. -/
theorem load_iff_diagnosed_hidden :
    let relation : Json := .object [("type", .string "u")]
    let v : Json := .array [
      .object [("c", .object [("relations", .object [("m", relation), ("n", relation)])])],
      .array [.array [.string "c", .int 1, .object [], .object [
          ("m", .array [.string "2", .int 3, .int 2, .string "8", .int 9]),
          ("n", .array [.int 2, .string "3", .int 2])]],
        .array [.string "u", .int 2]],
      .array [.array [.string "u", .string "3"]]]
    let p : Pointer := ⟨"c", "1"⟩
    let q : Pointer := ⟨"u", "2"⟩
    let f : DatasetFile := ⟨⟨[("c", ⟨[("m", ⟨"u", .many, true⟩), ("n", ⟨"u", .many, true⟩)]⟩)]⟩,
      [⟨⟨p, []⟩, [("m", .many ["2", "3", "2", "8", "9"]), ("n", .many ["2", "3", "2"])]⟩,
        ⟨⟨q, []⟩, []⟩], [⟨"u", "3"⟩]⟩
    let d : Dataset := { types := f.types, records := f.entities.map recordOf, hidden := f.hidden }
    DatasetFile.ofJson v = .ok f ∧ ofJson v = .ok d ∧
      (∃ j q, (⟨Lint.linkPath 0 "m" j, .missingTarget q⟩ : Lint.Diagnostic) ∈ Lint.diagnose v ∧
        q ∉ f.hidden ∧ d.load p "m" = .error (.danglingReference p "m" q)) ∧
      ¬∃ j q, (⟨Lint.linkPath 0 "n" j, .missingTarget q⟩ : Lint.Diagnostic) ∈ Lint.diagnose v ∧
        q ∉ f.hidden := by
  intro relation v p q f d
  have hscalar : (∀ n, (Json.int n).Distinct) ∧ ∀ s, (Json.string s).Distinct :=
    ⟨fun n => .number (.integer n), .string⟩
  have hv : v.Distinct := by
    simp [v, relation, Fields.Distinct, Fields.keys, hscalar]
  have hf : DatasetFile.ofJson v = .ok f := by rfl
  have hd : ofJson v = .ok d := by rfl
  have hfails : d.load p "m" = .error (.danglingReference p "m" ⟨"u", "8"⟩) := by rfl
  have hloads : d.load p "n" = .ok [⟨q, []⟩, ⟨q, []⟩] := by rfl
  obtain ⟨-, -, hfirst, -⟩ := load_iff_diagnosed (e := ⟨⟨p, []⟩, _⟩) hv hf hd (i := 0) rfl "m"
  obtain ⟨-, hiff, -⟩ := load_iff_diagnosed (e := ⟨⟨p, []⟩, _⟩) hv hf hd (i := 0) rfl "n"
  obtain ⟨j, t, hreported, hhidden, -, herror⟩ := hfirst _ hfails
  refine ⟨hf, hd, ⟨j, t, hreported, hhidden, hfails.trans (congrArg _ herror)⟩, ?_⟩
  rw [← hiff]
  rintro ⟨error, herror⟩
  rw [hloads] at herror
  cases herror

end Dataset

end Sideload
