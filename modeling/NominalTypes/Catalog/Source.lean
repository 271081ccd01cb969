import NominalTypes.Catalog.Basic
import NominalTypes.Document.Reader

/-! Catalogs as they are written down. -/

namespace NominalTypes

/-- A declaration as it is written.  The parents are type expressions. -/
structure Entry where
  name : String
  kind : Kind
  params : List String
  extending : List String
  implementing : List String
  deriving DecidableEq

namespace Document

/-- The fields of a record in the order of `names`, where a field may be
missing.  Other fields, and fields that occur twice, are refused.  The fields
may also be written as a list, of which any number may be missing at its end. -/
def fields? (names : List String) : Document → Option (List (Option Document))
  | .record fields =>
    let keys := fields.map Prod.fst
    if keys.all names.contains ∧ keys.Nodup then
      some (names.map fun name => fields.lookup name)
    else none
  | .list items =>
    if items.length ≤ names.length then
      some (names.mapIdx fun index _ => items[index]?) else none
  | _ => none

def text? : Document → Option String
  | .text value => some value
  | _ => none

def list? : Document → Option (List Document)
  | .list items => some items
  | _ => none

def texts? (document : Document) : Option (List String) := do
  (← document.list?).mapM text?

/-- A kind is given by its name, or by a record with nothing under the name. -/
def kind? (document : Document) : Option Kind := do
  let name ← match document with
    | .text name => some name
    | .record [(name, .null)] => some name
    | _ => none
  if name = "class" then some .classType
  else if name = "interface" then some .interfaceType
  else none

/-- One type expression, several in a list, or none. -/
def extending? : Document → Option (List String)
  | .null => some []
  | .text value => some [value]
  | document => document.texts?

end Document

/-- What a field says, or the value it has when it is missing. -/
def Document.orDefault {α : Type} (read? : Document → Option α) (default : α) :
    Option Document → Option α
  | none => some default
  | some document => read? document

namespace Entry

def ofDocument? (document : Document) : Option Entry := do
  match ← document.fields? ["name", "kind", "params", "extends",
    "implements"] with
  | [some name, kind, params, extending, implementing] =>
    return {
      name := ← name.text?
      kind := ← Document.orDefault Document.kind? .classType kind
      params := ← Document.orDefault Document.texts? [] params
      extending := ← Document.orDefault Document.extending? [] extending
      implementing := ← Document.orDefault Document.texts? [] implementing }
  | _ => none

/-- The entries of a catalog document. -/
def listOfDocument? (document : Document) : Option (List Entry) := do
  match ← document.fields? ["types"] with
  | [some types] => (← types.list?).mapM ofDocument?
  | _ => none

/-- The entries of a catalog text. -/
def readAll? (text : String) : Option (List Entry) :=
  Document.read? text >>= listOfDocument?

end Entry

end NominalTypes
