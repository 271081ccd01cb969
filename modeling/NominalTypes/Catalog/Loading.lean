import NominalTypes.Catalog.Source
import NominalTypes.Expr.Reader
import NominalTypes.Registry

/-! Registries made from written catalogs.

All the types of a catalog are declared before the first is linked to its
parents, so entries may stand in any order. -/

namespace NominalTypes

/-- How many types a catalog may declare. -/
def maxTypes : Nat := 100000

/-- How many parameters a declared type may have. -/
def maxParams : Nat := 255

/-- Why a written parent is refused. -/
inductive ParentError where
  | malformed (error : Expr.ReadError)
  | notDeclared (text : String)
  | hole
  | appliedParam (name : String)
  | unknownName (name : String)
  | refused (error : LinkError)
  deriving DecidableEq

/-- Why a written catalog is refused. -/
inductive LoadError where
  | malformed
  | tooManyTypes (count : Nat)
  | tooManyParams (name : String) (count : Nat)
  | repeatedParam (name param : String)
  | implementingInterface (name : String)
  | severalSuperclasses (name : String)
  | repeatedName (name : String)
  | parent (name : String) (error : ParentError)
  deriving DecidableEq

namespace ParentError

def message : ParentError → String
  | .malformed error => error.message
  | .notDeclared text => "ancestor `" ++ text ++ "` must name a declared type"
  | .hole => "`?` is only allowed in queries, not in declarations"
  | .appliedParam name =>
      "type parameter " ++ name ++ " cannot take type arguments"
  | .unknownName name => "unknown type " ++ name
  | .refused error => error.message

def code? : ParentError → Option Code
  | .refused error => some error.code
  | _ => none

end ParentError

namespace LoadError

/-- What went wrong, from the whole to the part. -/
def chain : LoadError → List String
  | .malformed => ["malformed catalog JSON"]
  | .tooManyTypes count =>
    ["catalog declares " ++ toString count ++ " types; at most " ++
      toString maxTypes ++
      " are supported"]
  | .tooManyParams name count =>
    [name ++ " declares " ++ toString count ++ " type parameters; at most " ++
      toString maxParams ++ " are supported"]
  | .repeatedParam name param =>
      [name ++ " declares type parameter " ++ param ++ " twice"]
  | .implementingInterface name =>
    ["interface " ++ name ++
      " cannot use `implements`; list super-interfaces under `extends`"]
  | .severalSuperclasses name =>
      ["class " ++ name ++ " can extend only one type"]
  | .repeatedName name => ["type " ++ name ++ " is declared more than once"]
  | .parent name error => ["in declaration of " ++ name, error.message]

def code? : LoadError → Option Code
  | .parent _ error => error.code?
  | _ => none

end LoadError

/-- The first member of a list that stands in it before. -/
def firstRepeated? : List String → List String → Option String
  | _, [] => none
  | seen, name :: rest =>
    if seen.contains name then some name else firstRepeated? (name :: seen) rest

/-- Checks what can be seen of an entry by itself. -/
def Entry.check (entry : Entry) : Except LoadError Unit := do
  if entry.params.length > maxParams then
    throw (.tooManyParams entry.name entry.params.length)
  if let some param := firstRepeated? [] entry.params then
    throw (.repeatedParam entry.name param)
  if entry.kind = .interfaceType ∧ entry.implementing ≠ [] then
    throw (.implementingInterface entry.name)
  if entry.kind = .classType ∧ entry.extending.length > 1 then
    throw (.severalSuperclasses entry.name)

namespace Registry

mutual

/-- The argument that an expression stands for.  A name that is one of
the parameters stands for the parameter, and any other name for the
declared type. -/
def termOf (registry : Registry) (params : List String) :
    Expr → Except ParentError Term
  | .hole => .error .hole
  | .named name args =>
    match params.idxOf? name with
    | some index =>
        if args.isEmpty then .ok (.slot index) else .error (.appliedParam name)
    | none =>
      match registry.id? name with
      | none => .error (.unknownName name)
      | some id => do return .apply id (← termsOf registry params args)

def termsOf (registry : Registry) (params : List String) :
    List Expr → Except ParentError (List Term)
  | [] => .ok []
  | arg :: rest => do
    let first ← termOf registry params arg
    return first :: (← termsOf registry params rest)

end

/-- The parent that a text stands for. -/
def parentOf (registry : Registry) (params : List String) (text : String) :
    Except ParentError Parent :=
  match Expr.read text with
  | .error error => .error (.malformed error)
  | .ok expr => do
    match ← registry.termOf params expr with
    | .apply id args => return ⟨id, args⟩
    | _ => throw (.notDeclared text)

/-- Adds the declaration of an entry, without its parents. -/
def declareEntry (registry : Registry) (entry : Entry) :
    Except LoadError Registry := do
  entry.check
  if (registry.id? entry.name).isSome then throw (.repeatedName entry.name)
  return (registry.declare entry.kind entry.name entry.params).2

def declareEntries (registry : Registry) :
    List Entry → Except LoadError Registry
  | [] => .ok registry
  | entry :: rest => do declareEntries (← registry.declareEntry entry) rest

def linkSuperclass (registry : Registry) (id : TypeId) (params : List String)
    (text : String) : Except ParentError Registry := do
  (registry.setSuperclass id (← registry.parentOf params text)).mapError .refused

def linkInterfaces (registry : Registry) (id : TypeId) (params : List String) :
    List String → Except ParentError Registry
  | [] => .ok registry
  | text :: rest => do
    let linked ←
      (registry.addInterface id (← registry.parentOf params text)).mapError .refused
    linkInterfaces linked id params rest

/-- Gives a declared type the parents of its entry. -/
def linkEntry (registry : Registry) (id : TypeId) (entry : Entry) :
    Except ParentError Registry :=
  match entry.kind with
  | .interfaceType => registry.linkInterfaces id entry.params entry.extending
  | .classType => do
    let extended ← match entry.extending with
      | [] => pure registry
      | text :: _ => registry.linkSuperclass id entry.params text
    extended.linkInterfaces id entry.params entry.implementing

/-- Links the entries, the first of which is declared under `id`. -/
def linkEntries (registry : Registry) (id : TypeId) :
    List Entry → Except LoadError Registry
  | [] => .ok registry
  | entry :: rest => do
    let linked ← (registry.linkEntry id entry).mapError (.parent entry.name)
    linkEntries linked (id + 1) rest

/-- The registry of the entries of a catalog. -/
def ofEntries (entries : List Entry) : Except LoadError Registry := do
  if entries.length > maxTypes then throw (.tooManyTypes entries.length)
  (← empty.declareEntries entries).linkEntries 1 entries

/-- The registry of a catalog text. -/
def ofText (text : String) : Except LoadError Registry :=
  match Entry.readAll? text with
  | none => .error .malformed
  | some entries => ofEntries entries

end Registry

end NominalTypes
