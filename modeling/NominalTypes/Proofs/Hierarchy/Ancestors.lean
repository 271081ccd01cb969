import NominalTypes.Proofs.Hierarchy.View

namespace NominalTypes.Catalog

/-! The ancestors of a type are its views along the first ways up. -/

open Step (Earlier)

variable {catalog : Catalog}

/-- The type at the end of the steps, with what the slots hold in the place
of parameters. -/
def ascend (catalog : Catalog) (ty : Ty) (steps : List Step) : Ty :=
  steps.foldl (fun ty step => catalog.substitute ty.slots step.parent) ty

@[simp] theorem ascend_append_singleton (ty : Ty) (steps : List Step)
    (step : Step) :
    catalog.ascend ty (steps ++ [step]) =
      catalog.substitute (catalog.ascend ty steps).slots step.parent := by
  simp [ascend]

theorem climb_eq_ascend {origin target : TypeId} {steps : List Step}
    (chain : catalog.Chain origin steps target) {ty : Ty}
    (start : ty.id = origin) :
    catalog.climb ty steps = some (catalog.ascend ty steps) := by
  induction chain generalizing ty with
  | nil id => rfl
  | cons declared _ ih =>
      subst start
      rw [climb_cons ty declared]
      exact ih rfl

theorem viewAs_eq_ascend {ty : Ty} {target : TypeId} {steps : List Step}
    (found : catalog.path ty.id target = some steps) :
    catalog.viewAs ty target = some (catalog.ascend ty steps) := by
  rw [viewAs_of_path found]
  exact climb_eq_ascend (path_chain found) rfl

theorem id_ascend {ty : Ty} {target : TypeId} {steps : List Step}
    (chain : catalog.Chain ty.id steps target) :
    (catalog.ascend ty steps).id = target := by
  obtain ⟨view, found, id, _⟩ := exists_climb chain rfl
  rw [climb_eq_ascend chain rfl] at found
  cases found
  exact id

theorem isSome_viewAs_iff (ty : Ty) (target : TypeId) :
    (catalog.viewAs ty target).isSome = true ↔
      catalog.DerivesFrom ty.id target := by
  constructor
  · intro present
    obtain ⟨view, viewed⟩ := Option.isSome_iff_exists.mp present
    obtain ⟨steps, found⟩ := exists_path_of_viewAs viewed
    exact (path_chain found).derivesFrom
  · intro derived
    obtain ⟨steps, found⟩ := exists_path derived
    rw [viewAs_eq_ascend found, Option.isSome_some]

theorem toList_parentTypes (catalog : Catalog) (ty : Ty) :
    (catalog.parentTypes ty).toList =
      (catalog.steps ty.id).map fun step =>
        catalog.substitute ty.slots step.parent := by
  have all : (catalog.parentTypes ty).toList =
      (catalog.parents ty.id).map (catalog.substitute ty.slots) := by
    rw [ParentTypes.toList, parentTypes, parents, List.map_append]
    cases catalog.superclass ty.id <;> rfl
  rw [all, ← map_parent_steps, List.map_map]
  rfl

theorem ancestors_eq_visits (catalog : Catalog) (ty : Ty) :
    catalog.ancestors ty =
      visits Ty.id (fun ty => (catalog.parentTypes ty).toList)
        (catalog.size + 1) ((∅ : Std.TreeSet TypeId).insert ty.id) [ty] := rfl

theorem ancestors_eq_map (catalog : Catalog) (ty : Ty) :
    catalog.ancestors ty =
      (catalog.trails ty.id).map fun trail => catalog.ascend ty trail.way := by
  rw [ancestors_eq_visits, trails_eq_visits]
  refine visits_map Trail.id catalog.extend Ty.id _ (fun trail =>
      catalog.ascend ty trail.way)
    Function.injective_id (fun trail =>
      (catalog.ascend ty trail.way).id = trail.id)
    (fun _ same => same) ?_ ?_ _ (fun _ => Iff.rfl) [⟨ty.id, []⟩] ?_
  · intro trail same
    rw [toList_parentTypes, same, extend, List.map_map]
    refine List.map_congr_left fun step _ => ?_
    simp [Trail.way]
  · intro trail _ next extended
    obtain ⟨step, _, ids, ways⟩ := mem_extend_iff.mp extended
    rw [ways, ids, ascend_append_singleton]
    rfl
  · intro trail start
    obtain rfl := List.mem_singleton.mp start
    rfl

theorem path_of_mem_trails {ty : Ty} {trail : Trail}
    (member : trail ∈ catalog.trails ty.id) :
    catalog.path ty.id trail.id = some trail.way :=
  path_eq_some_iff.mpr (mem_trails_iff.mp member).1

theorem id_ascend_of_mem_trails {ty : Ty} {trail : Trail}
    (member : trail ∈ catalog.trails ty.id) :
    (catalog.ascend ty trail.way).id = trail.id :=
  id_ascend (path_chain (path_of_mem_trails member))

theorem ids_ancestors (catalog : Catalog) (ty : Ty) :
    (catalog.ancestors ty).map Ty.id = (catalog.trails ty.id).map Trail.id := by
  rw [ancestors_eq_map, List.map_map]
  exact List.map_congr_left fun _ member => id_ascend_of_mem_trails member

theorem viewAs_of_mem_ancestors {ty view : Ty}
    (member : view ∈ catalog.ancestors ty) :
    catalog.viewAs ty view.id = some view := by
  rw [ancestors_eq_map] at member
  obtain ⟨trail, found, rfl⟩ := List.mem_map.mp member
  rw [id_ascend_of_mem_trails found]
  exact viewAs_eq_ascend (path_of_mem_trails found)

theorem mem_ids_ancestors_iff (ty : Ty) (ancestor : TypeId) :
    ancestor ∈ (catalog.ancestors ty).map Ty.id ↔
      catalog.DerivesFrom ty.id ancestor ∧ ancestor ≠ ty.id := by
  rw [ids_ancestors, List.mem_map]
  constructor
  · rintro ⟨trail, member, rfl⟩
    exact ⟨(path_chain (path_of_mem_trails member)).derivesFrom,
      (mem_trails_iff.mp member).2⟩
  · rintro ⟨derived, proper⟩
    obtain ⟨steps, found⟩ := exists_path derived
    exact ⟨⟨ancestor, steps.reverse⟩,
      mem_trails_iff.mpr ⟨by simpa using path_eq_some_iff.mp found, proper⟩, rfl⟩

/-- The paths to the ancestors of a type, in the order of the ancestors. -/
theorem paths_of_ancestors (catalog : Catalog) (ty : Ty) :
    ∃ paths : List (List Step),
      (catalog.ancestors ty).map (fun view => catalog.path ty.id view.id) =
          paths.map some ∧
        paths.Pairwise Earlier := by
  refine ⟨(catalog.trails ty.id).map Trail.way, ?_, ?_⟩
  · rw [ancestors_eq_map, List.map_map, List.map_map]
    refine List.map_congr_left fun trail member => ?_
    rw [Function.comp_apply, id_ascend_of_mem_trails member,
      path_of_mem_trails member]
    rfl
  · exact List.pairwise_map.mpr (trails_sorted catalog ty.id)

end NominalTypes.Catalog
