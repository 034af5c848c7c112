import Sideload.Lint.Diagnostic

/-! # The checks of a dataset file

`diagnose` lists what is wrong with a JSON value that should be a dataset. A value of the wrong
shape has one diagnostic. Otherwise the file is looked through for repeated identities, for
declared relations with unknown targets, for the links of each entity, and for hidden identities
that are not there, in this order, each in the order of the file. -/

namespace Sideload.Lint

/-- The place of an entity. -/
def entityPath (i : Nat) : String := "/entities/" ++ Decimal.integerText i

/-- Identities that have occurred before, `seen` or behind it; the first of them is at index `i`. -/
def duplicates (seen : List Pointer) (i : Nat) : List Pointer → List Diagnostic
  | [] => []
  | p :: ps =>
    if p ∈ seen then ⟨entityPath i, .duplicate p⟩ :: duplicates seen (i + 1) ps
    else duplicates (p :: seen) (i + 1) ps

/-- The type is declared, or some entity has it. -/
def knowsType (f : DatasetFile) (type : String) : Bool :=
  f.types.containsType type || f.entities.any fun e => e.entity.type = type

/-- The declared relations with unknown targets. -/
def unknownTargets (f : DatasetFile) : List Diagnostic :=
  f.types.types.flatMap fun type =>
    (type.2.relations.filter fun relation => !knowsType f relation.2.target).map fun relation =>
      ⟨"/types/" ++ type.1 ++ "/relations/" ++ relation.1, .unknownTarget relation.2.target⟩

/-- The links of a relation that lead to entities that are not in the file. -/
def missingTargets (known : List Pointer) (path target : String) (ids : List String) :
    List Diagnostic :=
  (ids.zipIdx.filter fun id => !known.contains ⟨target, id.1⟩).map fun id =>
    ⟨path ++ "/" ++ Decimal.integerText id.2, .missingTarget ⟨target, id.1⟩⟩

/-- What is wrong with one relation of an entity. A relation to one entity must not be written as a
list, whatever its length. -/
def relationProblems (f : DatasetFile) (type path relation : String) (links : Links) :
    List Diagnostic :=
  match f.types.relation? type relation with
  | none => [⟨path, .undeclaredRelation type relation⟩]
  | some d =>
    (if d.cardinality = .one && links.isList then [⟨path, .severalLinks relation⟩] else []) ++
      missingTargets f.pointers path d.target links.ids

/-- What is wrong with the relations of an entity. -/
def entityProblems (f : DatasetFile) (i : Nat) (e : EntityEntry) : List Diagnostic :=
  e.links.flatMap fun relation =>
    relationProblems f e.entity.type (entityPath i ++ "/relations/" ++ relation.1) relation.1
      relation.2

/-- The hidden identities that are not in the file. -/
def missingHidden (f : DatasetFile) : List Diagnostic :=
  (f.hidden.zipIdx.filter fun p => !f.pointers.contains p.1).map fun p =>
    ⟨"/hidden/" ++ Decimal.integerText p.2, .missingHidden p.1⟩

/-- What is wrong with a dataset file. -/
def diagnoseFile (f : DatasetFile) : List Diagnostic :=
  duplicates [] 0 f.pointers ++ unknownTargets f ++
    (f.entities.zipIdx.flatMap fun e => entityProblems f e.2 e.1) ++ missingHidden f

/-- What is wrong with a JSON value that should be a dataset. -/
def diagnose (v : Json) : List Diagnostic :=
  match DatasetFile.ofJson v with
  | .error e => [⟨"/", .wrongShape e⟩]
  | .ok f => diagnoseFile f

end Sideload.Lint
