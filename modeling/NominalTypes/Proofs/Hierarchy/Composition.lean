import NominalTypes.Proofs.Hierarchy.Ancestors

namespace NominalTypes

/-! First ways up are made of first ways, so views through an identity on
the way compose. -/

open Step (Earlier)

theorem Step.Earlier.after {first second : List Step}
    (earlier : Earlier first second) (below : List Step) :
    Earlier (below ++ first) (below ++ second) := by
  rw [Earlier, ranks, ranks, List.map_append, List.map_append]
  exact List.Shortlex.append_left earlier (ranks below)

namespace Catalog

variable {catalog : Catalog} {origin middle target : TypeId} {steps : List Step}

/-- A way from an identity on a first way that came before the rest of it would
make the whole way an earlier one. -/
theorem FirstChain.rest {below above : List Step}
    (first : catalog.FirstChain origin (below ++ above) target)
    (chain : catalog.Chain origin below middle) :
    catalog.FirstChain middle above target := by
  obtain ⟨arrival, chainToo, rest⟩ := first.chain.exists_middle
  obtain rfl := chain.target_unique chainToo
  refine ⟨rest, fun other otherRest => ?_⟩
  rcases first.first _ (chain.append otherRest) with same | earlier
  · exact .inl (List.append_cancel_left same)
  · rcases rest.earlier_or_eq otherRest with before | same | later
    · exact .inr before
    · exact .inl same.symm
    · exact absurd (later.after below) earlier.asymm

/-- An identity on a path splits it into the path to the identity and the path
from there on. -/
theorem exists_path_split (path : catalog.path origin target = some steps)
    (visited : middle ∈ origin :: steps.map (·.parent.id)) :
    ∃ below above, steps = below ++ above ∧
      catalog.path origin middle = some below ∧
      catalog.path middle target = some above := by
  have first := path_eq_some_iff.mp path
  obtain ⟨below, above, rfl, chain⟩ := first.chain.exists_split_of_mem visited
  obtain ⟨arrival, firstBelow, _⟩ := first.exists_middle
  obtain rfl := chain.target_unique firstBelow.chain
  exact ⟨below, above, rfl, path_eq_some_iff.mpr firstBelow,
    path_eq_some_iff.mpr (first.rest firstBelow.chain)⟩

theorem ascend_append (ty : Ty) (below above : List Step) :
    catalog.ascend ty (below ++ above) =
      catalog.ascend (catalog.ascend ty below) above :=
  List.foldl_append

theorem slots_ascend (ty : Ty) (steps : List Step) :
    (catalog.ascend ty steps).slots = catalog.slotsAlong ty.slots steps := by
  induction steps generalizing ty with
  | nil => rfl
  | cons step rest ih => exact ih _

theorem substitute_agrees {first second : Ty} (agreement : first.Agrees second)
    (parent : Parent) :
    (catalog.substitute first.slots parent).Agrees
      (catalog.substitute second.slots parent) :=
  Term.evaluate_agrees (Ty.agrees_iff.mp agreement).2
    (evaluate_term first.slots parent) (evaluate_term second.slots parent)

theorem ascend_agrees {first second : Ty} (agreement : first.Agrees second)
    (steps : List Step) :
    (catalog.ascend first steps).Agrees (catalog.ascend second steps) := by
  induction steps generalizing first second with
  | nil => exact agreement
  | cons step rest ih => exact ih (substitute_agrees agreement step.parent)

/-- On the path to an ancestor, the path to another ancestor and the path from
there follow each other.  Viewing a type as the one on the way and the view as
the last one is viewing the type as the last one.  Off the path this can fail,
because several ways up may put different types into the slots. -/
theorem viewAs_along_path {ty : Ty}
    (path : catalog.path ty.id target = some steps)
    (visited : middle ∈ ty.id :: steps.map (·.parent.id)) :
    ∃ below above between view, steps = below ++ above ∧
      catalog.path ty.id middle = some below ∧
      catalog.path middle target = some above ∧
      catalog.viewAs ty middle = some between ∧
      catalog.viewAs between target = some view ∧
      catalog.viewAs ty target = some view := by
  obtain ⟨below, above, rfl, pathBelow, pathAbove⟩ :=
    exists_path_split path visited
  have id : (catalog.ascend ty below).id = middle :=
    id_ascend (path_chain pathBelow)
  refine ⟨below, above, _, _, rfl, pathBelow, pathAbove,
    viewAs_eq_ascend pathBelow, ?_, viewAs_eq_ascend path⟩
  rw [ascend_append]
  exact viewAs_eq_ascend (id ▸ pathAbove)

end Catalog

namespace Collections

/-- The registry with sheets, which are grids with strings in the columns. -/
def withSheets : Registry :=
  (registry.apply (.declare .classType "Sheet" ["R"])).apply
    (.setSuperclass 6 ⟨4, [.slot 0, .apply 3 []]⟩)

/-- No closed types are handed over. -/
theorem exists_changes_withSheets :
    ∃ changes, withSheets = Registry.run changes ∧
    ∀ change ∈ changes, ∀ property, change.AllClosed property := by
  obtain ⟨changes, same, closed⟩ := exists_changes
  refine ⟨changes ++ [.declare .classType "Sheet" ["R"],
    .setSuperclass 6 ⟨4, [.slot 0, .apply 3 []]⟩], ?_,
      fun change member property => ?_⟩
  · rw [withSheets, same, Registry.run, Registry.run, List.foldl_append]
    rfl
  · simp only [List.mem_append, List.mem_cons, List.not_mem_nil,
      or_false] at member
    rcases member with member | rfl | rfl
    · exact closed change member property
    · exact trivial
    · exact .apply (by simp [Term.AllClosed.slot, Term.AllClosed.apply])

theorem withSheets_reachable : withSheets.Reachable := by
  obtain ⟨changes, same, closed⟩ := exists_changes_withSheets
  rw [same]
  exact Registry.reachable_run fun change member _ =>
    Change.closedIn_iff.mpr (closed change member _)

def sheet (row : Option Ty) : Ty := ⟨6, "Sheet", [row], none⟩

end Collections

open Collections in
/-- A sheet of which the rows are raw lists is a map by way of the grids. -/
theorem Catalog.viewAs_along_path_sheet :
    ∃ steps below above between view,
      withSheets.catalog.path 6 2 = some steps ∧
      4 ∈ 6 :: steps.map (·.parent.id) ∧
      steps = below ++ above ∧ withSheets.catalog.path 6 4 = some below ∧
      withSheets.catalog.path 4 2 = some above ∧
      withSheets.catalog.viewAs (sheet (some (list none))) 4 = some between ∧
      withSheets.catalog.viewAs between 2 = some view ∧
      withSheets.catalog.viewAs (sheet (some (list none))) 2 = some view := by
  have path : withSheets.catalog.path 6 2 =
      some [⟨.superclass, ⟨4, [.slot 0, .apply 3 []]⟩⟩,
        ⟨.interface 0, ⟨2, [.slot 0, .apply 1 [.slot 0]]⟩⟩] := rfl
  have visited : 4 ∈ 6 :: [⟨.superclass, ⟨4, [.slot 0, .apply 3 []]⟩⟩,
      (⟨.interface 0, ⟨2, [.slot 0, .apply 1 [.slot 0]]⟩⟩ : Step)].map
          (·.parent.id) := by decide
  obtain ⟨below, above, between, view, split⟩ :=
    @viewAs_along_path withSheets.catalog 4 2 _
      (sheet (some (list none))) path visited
  exact ⟨_, below, above, between, view, path, visited, split⟩

end NominalTypes
