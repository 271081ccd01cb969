import NominalTypes.Proofs.Session.Recomputation

namespace NominalTypes

/-! Commands about registries that declare the same under other identities.
What is reported shows names only, so it is the same, but for the order in which
the declarations are listed. -/

/-- The second registry finds and declares under `σ id` what the first one finds
and declares under `id`. -/
structure Registry.Relocates (σ : TypeId → TypeId)
    (first second : Registry) : Prop where
  renames : first.catalog.Renames σ second.catalog
  id? : ∀ name, second.id? name = (first.id? name).map σ
  declared : ∀ name id, first.id? name = some id →
    first.catalog.contains id = true

namespace Registry.Relocates

variable {σ : TypeId → TypeId} {first second : Registry}
  (relocates : first.Relocates σ second)

include relocates

theorem identify (name : String) :
    second.identify name = (first.identify name).map σ := by
  rw [Registry.identify, Registry.identify, relocates.id?]
  cases first.id? name <;> rfl

theorem contains_of_identify {name : String} {id : TypeId}
    (found : first.identify name = .ok id) :
    first.catalog.contains id = true := by
  rw [Registry.identify] at found
  cases known : first.id? name with
  | none => rw [known] at found; cases found
  | some other =>
      rw [known] at found
      obtain rfl := Except.ok.inj found
      exact relocates.declared name other known

theorem resolve {id : TypeId} (declared : first.catalog.contains id = true)
    (types : List Ty) :
    second.catalog.resolve (σ id) (types.map (Ty.rename σ)) =
      (first.catalog.resolve id types).map (Ty.rename σ) := by
  rw [Catalog.resolve, Catalog.resolve, relocates.renames.contains,
    relocates.renames.name, Catalog.bindSlots, Catalog.bindSlots,
    relocates.renames.arity, relocates.renames.name,
    List.length_map, declared]
  by_cases complete : types.length = first.catalog.arity id
  · simp [complete, bind, Except.bind, pure, Except.pure, Except.map,
      Ty.rename_mk]
  · simp [complete, bind, Except.bind, Except.map]

theorem resolveRaw {id : TypeId} (declared : first.catalog.contains id = true) :
    second.catalog.resolveRaw (σ id) =
      (first.catalog.resolveRaw id).map (Ty.rename σ) := by
  rw [Catalog.resolveRaw, Catalog.resolveRaw, relocates.renames.contains,
    Catalog.raw, Catalog.raw, relocates.renames.name,
    relocates.renames.arity, declared]
  simp [pure, Except.pure, Except.map, Ty.rename_mk]

omit relocates in
theorem typesOfExprs_of {exprs : List Expr}
    (each : ∀ expr ∈ exprs,
      second.typeOfExpr expr = (first.typeOfExpr expr).map (Ty.rename σ)) :
    second.typesOfExprs exprs =
      (first.typesOfExprs exprs).map (List.map (Ty.rename σ)) := by
  induction exprs with
  | nil => rfl
  | cons expr rest ih =>
      rw [Registry.typesOfExprs, Registry.typesOfExprs,
        each expr List.mem_cons_self, ih fun later member =>
          each later (List.mem_cons_of_mem _ member)]
      cases first.typeOfExpr expr with
      | error error => rfl
      | ok ty => cases first.typesOfExprs rest <;> rfl

theorem typeOfExpr (expr : Expr) :
    second.typeOfExpr expr = (first.typeOfExpr expr).map (Ty.rename σ) := by
  induction expr with
  | hole => rfl
  | named name args ih =>
      rw [Registry.typeOfExpr, Registry.typeOfExpr, relocates.identify]
      cases found : first.identify name with
      | error error => rfl
      | ok id =>
          have declared := relocates.contains_of_identify found
          simp only [bind, Except.bind, Except.map, relocates.renames.arity]
          split
          · rw [relocates.resolveRaw declared]
            cases first.catalog.resolveRaw id <;> rfl
          · split
            · rfl
            · split
              · rfl
              · rw [typesOfExprs_of ih]
                cases first.typesOfExprs args with
                | error error => rfl
                | ok types =>
                    simp only [Except.map, relocates.resolve declared]
                    cases first.catalog.resolve id types <;> rfl

theorem typeOf (text : String) :
    second.typeOf text = (first.typeOf text).map (Ty.rename σ) := by
  rw [Registry.typeOf, Registry.typeOf]
  cases Expr.read text with
  | error error => rfl
  | ok expr => exact relocates.typeOfExpr expr

theorem view (ty : Ty) (target : TypeId) :
    second.catalog.view (ty.rename σ) (σ target) =
      (first.catalog.view ty target).map (Ty.rename σ) := by
  rw [Catalog.view, Catalog.view, relocates.renames.viewAs,
    relocates.renames.name, Ty.name_rename]
  cases first.catalog.viewAs ty target <;> rfl

theorem bindings (ty : Ty) :
    Session.bindings second (ty.rename σ) = Session.bindings first ty := by
  rw [Session.bindings, Session.bindings, Ty.id_rename,
    relocates.renames.params, Ty.slots_rename, List.zipWith_map_right]
  congr
  funext param slot
  cases slot with
  | none => rfl
  | some inner =>
      exact congrArg (Binding.mk param)
        (congrArg some (Ty.brief_rename σ inner))

theorem report {command : Command} (asks : command ≠ .declarations) :
    second.report command = first.report command := by
  cases command with
  | resolve type =>
      rw [Registry.report, Registry.report, relocates.typeOf]
      cases first.typeOf type with
      | error error => rfl
      | ok ty =>
          simp only [bind, Except.bind, Except.map,
            relocates.renames.fullDescription, Ty.brief_rename,
            Ty.isFullyBound_rename]
  | subtype ancestor target =>
      rw [Registry.report, Registry.report, relocates.typeOf,
        relocates.identify]
      cases first.typeOf ancestor with
      | error error => rfl
      | ok known =>
          cases found : first.identify (Text.trim target) with
          | error error => rfl
          | ok id =>
              simp only [bind, Except.bind, Except.map,
                relocates.renames.infer known
                  (relocates.contains_of_identify found)]
              cases first.catalog.infer known id with
              | error error => rfl
              | ok result =>
                  simp only [Except.mapError, Ty.brief_rename,
                    relocates.bindings]
  | supertype type ancestor =>
      rw [Registry.report, Registry.report, relocates.typeOf,
        relocates.identify]
      cases first.typeOf type with
      | error error => rfl
      | ok ty =>
          cases first.identify (Text.trim ancestor) with
          | error error => rfl
          | ok id =>
              simp only [bind, Except.bind, Except.map, relocates.view]
              cases first.catalog.view ty id with
              | error error => rfl
              | ok result =>
                  simp only [Except.mapError, Ty.brief_rename,
                    relocates.bindings]
  | ancestors type =>
      rw [Registry.report, Registry.report, relocates.typeOf]
      cases first.typeOf type with
      | error error => rfl
      | ok ty =>
          simp only [bind, Except.bind, Except.map, relocates.renames.ancestors,
            Ty.brief_rename, List.map_map, Function.comp_def]
  | declarations => exact absurd rfl asks

theorem output {command : Command} (asks : command ≠ .declarations)
    (format : Format) (color : Bool) :
    second.output format color command = first.output format color command := by
  rw [Registry.output, Registry.output, relocates.report asks]

end Registry.Relocates

theorem Registry.relocates_bare {registry : Registry}
    (declared : ∀ name id, registry.id? name = some id →
      registry.catalog.contains id = true) :
    registry.Relocates (fun id => id) registry.bare :=
  ⟨registry.catalog.renames_bare, fun _ => Option.map_id'.symm, declared⟩

end NominalTypes
