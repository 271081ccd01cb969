import NominalTypes.Catalog.Basic

/-! Declarations as text. -/

namespace NominalTypes

open NominalTypes.Text

namespace Term

mutual

/-- An argument of a parent.  Parameters are called by their names, and by their
numbers where they have none. -/
def describe (catalog : Catalog) (params : List String) : Term → String
  | .slot index => params[index]?.getD ("#" ++ toString (index + 1))
  | .closed ty => ty.brief
  | .apply id args =>
      catalog.name id ++ bracketed (describeAll catalog params args)

def describeAll (catalog : Catalog) (params : List String) :
    List Term → List String
  | [] => []
  | arg :: rest =>
      arg.describe catalog params :: describeAll catalog params rest

end

end Term

def Kind.keyword : Kind → String
  | .classType => "class"
  | .interfaceType => "interface"

namespace Catalog

/-- A parent that `owner` declares. -/
def describeParent (catalog : Catalog) (owner : TypeId)
    (parent : Parent) : String :=
  Term.describe catalog (catalog.params owner) (.apply parent.id parent.args)

/-- The head of a declaration.  Interfaces follow `implements`, or `extends` in
an interface that has no superclass. -/
def describeDeclaration (catalog : Catalog) (id : TypeId) : String :=
  let kind := catalog.kind id
  let superclass := catalog.superclass id
  let interfaces := catalog.interfaces id
  let extending := match superclass with
    | none => ""
    | some parent => " extends " ++ catalog.describeParent id parent
  let keyword := if kind = .interfaceType ∧ superclass.isNone then " extends "
    else " implements "
  let implementing :=
    if interfaces.isEmpty then ""
    else keyword ++ ",".intercalate (interfaces.map (catalog.describeParent id))
  kind.keyword ++ " " ++ catalog.name id ++ bracketed (catalog.params id) ++
    extending ++
    implementing

end Catalog

end NominalTypes
