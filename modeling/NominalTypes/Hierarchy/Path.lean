import NominalTypes.Catalog.Basic
import NominalTypes.Hierarchy.Walk

/-! Ways up through the declared parents. -/

namespace NominalTypes

/-- A way up that has arrived at `id`.  The last step comes first. -/
structure Trail where
  id : TypeId
  steps : List Step

namespace Catalog

/-- The ways that go one step further. -/
def extend (catalog : Catalog) (trail : Trail) : List Trail :=
  (catalog.steps trail.id).map fun step => ⟨step.parent.id, step :: trail.steps⟩

/-- One way to each proper ancestor, the shortest ways first. -/
def trails (catalog : Catalog) (origin : TypeId) : List Trail :=
  Id.run (walkFrom Trail.id (fun trail => pure (catalog.extend trail))
    catalog.size ⟨origin, []⟩)

/-- The steps from one identity up to another.  Of several shortest ways it is
the one that takes the superclass before the interfaces, and an interface before
those declared after it, as early as the ways differ. -/
def path (catalog : Catalog) (origin target : TypeId) : Option (List Step) :=
  if origin = target then some []
  else ((catalog.trails origin).find? fun trail => trail.id == target).map
    (·.steps.reverse)

/-- Whether `ancestor` is `id` itself or one of its ancestors. -/
def derives (catalog : Catalog) (id ancestor : TypeId) : Bool :=
  (catalog.path id ancestor).isSome

@[simp] theorem path_self (catalog : Catalog) (id : TypeId) :
    catalog.path id id = some [] := by
  simp [path]

@[simp] theorem derives_self (catalog : Catalog) (id : TypeId) :
    catalog.derives id id = true := by
  simp [derives]

end Catalog

end NominalTypes
