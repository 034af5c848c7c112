import Sideload.Compound
import Sideload.Dataset.Shape

/-! # Datasets

A dataset holds entities with their links in memory, each identity once. It is a registry, by the
types it declares, and a loader, by the links of its entities (`Dataset.load`). Hidden entities
stand for what a caller may not see: they can be looked up, but they are no roots and no link leads
to them, whether they are there or not. -/

namespace Sideload

/-- An entity and the ids that its relations link. -/
structure Record where
  entity : Entity
  links : Fields (List String)

/-- The identity of a record. -/
def Record.pointer (r : Record) : Pointer := r.entity.pointer

/-- Entities by identity, in the order of the file. -/
structure Dataset where
  types : TypeRegistry := {}
  records : List Record := []
  hidden : List Pointer := []
  /-- Each identity occurs once. -/
  nodup : (records.map Record.pointer).Nodup := by decide

/-- Why a JSON value is no dataset. -/
inductive DatasetError where
  | shape (e : ShapeError)
  | duplicate (p : Pointer)

/-- The error in words. -/
def DatasetError.message : DatasetError → String
  | shape e => e.message
  | duplicate p => "duplicate entity " ++ p.text

/-- The first identity that has occurred before. -/
def firstRepeated? : List Pointer → List Pointer → Option Pointer
  | _, [] => none
  | seen, p :: ps => if p ∈ seen then some p else firstRepeated? (p :: seen) ps

theorem nodup_of_firstRepeated? {seen ps : List Pointer} (h : firstRepeated? seen ps = none) :
    ps.Nodup ∧ ∀ p ∈ ps, p ∉ seen := by
  induction ps generalizing seen with
  | nil => simp
  | cons p ps ih =>
    unfold firstRepeated? at h
    split at h
    · simp at h
    · rename_i hp
      obtain ⟨hn, hs⟩ := ih h
      refine ⟨List.nodup_cons.2 ⟨fun hm => hs p hm (by simp), hn⟩, fun q hq => ?_⟩
      rcases List.mem_cons.1 hq with rfl | hq
      · exact hp
      · exact fun hm => hs q hq (by simp [hm])

namespace Dataset

/-- The record of an entity of a file. -/
def recordOf (e : EntityEntry) : Record := ⟨e.entity, Fields.mapValues Links.ids e.links⟩

/-- The dataset of a file; a repeated identity is refused. -/
def ofFile (f : DatasetFile) : Except DatasetError Dataset :=
  match h : firstRepeated? [] ((f.entities.map recordOf).map Record.pointer) with
  | some p => .error (.duplicate p)
  | none => .ok ⟨f.types, f.entities.map recordOf, f.hidden, (nodup_of_firstRepeated? h).1⟩

/-- The dataset that a JSON value describes. -/
def ofJson (v : Json) : Except DatasetError Dataset :=
  match DatasetFile.ofJson v with
  | .error e => .error (.shape e)
  | .ok f => ofFile f

/-- How many entities there are. -/
def size (d : Dataset) : Nat := d.records.length

/-- There are no entities. -/
def isEmpty (d : Dataset) : Bool := d.records.isEmpty

/-- The identity is hidden. -/
def isHidden (d : Dataset) (p : Pointer) : Bool := d.hidden.contains p

/-- The record with an identity. -/
def record? (d : Dataset) (p : Pointer) : Option Record := d.records.find? fun r => r.pointer = p

/-- The entity with an identity, hidden or not. -/
def entity? (d : Dataset) (p : Pointer) : Option Entity := (d.record? p).map (·.entity)

/-- The entity with an identity, unless it is hidden. -/
def visible? (d : Dataset) (p : Pointer) : Option Entity :=
  if d.isHidden p then none else d.entity? p

/-- The visible entities of a type, in the order of the file. -/
def entitiesOf (d : Dataset) (type : String) : List Entity :=
  (d.records.filter fun r => r.pointer.type = type && !d.isHidden r.pointer).map (·.entity)

/-- The visible entities of a type with some ids, in the order of the ids. The first id that has
none fails. -/
def roots (d : Dataset) (type : String) : List String → Except ResolveError (List Entity)
  | [] => .ok []
  | id :: ids =>
    match d.visible? ⟨type, id⟩ with
    | none => .error (.unknownRoot ⟨type, id⟩)
    | some e =>
      match d.roots type ids with
      | .error e => .error e
      | .ok es => .ok (e :: es)

/-- What the dataset's types tell of relations. -/
def registry (d : Dataset) : Registry := d.types.toRegistry

/-- The entities behind the links of one relation. Links to hidden identities are passed over; a
link to an identity that is neither hidden nor there fails. -/
def follow (d : Dataset) (source : Pointer) (relation target : String) :
    List String → Except LoadError (List Entity)
  | [] => .ok []
  | id :: ids =>
    if d.isHidden ⟨target, id⟩ then d.follow source relation target ids
    else match d.entity? ⟨target, id⟩ with
      | none => .error (.danglingReference source relation ⟨target, id⟩)
      | some e =>
        match d.follow source relation target ids with
        | .error e => .error e
        | .ok es => .ok (e :: es)

/-- The entities that a relation of an entity leads to. A relation without links, or of a type that
is not declared, leads nowhere. -/
def load (d : Dataset) (source : Pointer) (relation : String) : Except LoadError (List Entity) :=
  match d.record? source with
  | none => .error (.unknownEntity source)
  | some r =>
    match Fields.get? r.links relation, d.registry.targetType? source.type relation with
    | some ids, some target => d.follow source relation target ids
    | _, _ => .ok []

/-- The dataset as a loader. -/
def loader (d : Dataset) : Loader := .ofLoad d.load

/-- The compound document of an expression below some roots of the dataset. -/
def resolve (d : Dataset) (roots : List Entity) (expression : String) (options : ResolveOptions) :
    Except ResolveError Document :=
  resolveDocument d.registry d.loader roots expression options

end Dataset

end Sideload
