import NominalTypes.Proofs.Pool.Faithful
import NominalTypes.Proofs.Pool.Requests
import NominalTypes.Proofs.Renaming.Inference

namespace NominalTypes

/-! A faithful pool answers every question as it is answered anew. -/

open Std (TreeSet)

theorem ParentTypes.mem_toList_of_along? {parents : ParentTypes} {edge : Edge}
    {parent : Ty} (found : parents.along? edge = some parent) :
    parent ∈ parents.toList := by
  cases edge with
  | superclass => exact List.mem_append_left _ (Option.mem_toList.mpr found)
  | interface index =>
      exact List.mem_append_right _ (List.mem_of_getElem? found)

theorem Catalog.climb_cons_eq (catalog : Catalog) (ty : Ty) (step : Step)
    (rest : List Step) :
    catalog.climb ty (step :: rest) =
      ((catalog.parentTypes ty).along? step.edge).bind fun parent =>
        catalog.climb parent rest := by
  simp only [climb, climbUsing, Id.run_bind, Id.run_pure]
  cases (catalog.parentTypes ty).along? step.edge <;> rfl

namespace Pool

variable {catalog : Catalog} {values : List Ty}

theorem yields_climb {ty : Ty} (genuine : ty.Genuine catalog values)
    (steps : List Step) :
    Yields catalog values (climbUsing (parentTypes catalog) ty steps)
      fun more found =>
        (∀ view, found = some view → view.Genuine catalog more) ∧
          found.map Ty.bare =
            catalog.bare.climb ty.bare
              (steps.map (Step.rename fun id => id)) := by
  induction steps generalizing values ty with
  | nil =>
      refine .of_pure ⟨?_, rfl⟩
      rintro view ⟨⟩
      exact genuine
  | cons step rest ih =>
      rw [List.map_cons, Catalog.climb_cons_eq]
      refine (yields_parentTypes genuine).bind fun more _ parents
        ⟨each, same⟩ => ?_
      have along :
          (catalog.bare.parentTypes ty.bare).along?
              (step.rename fun id => id).edge =
            (parents.along? step.edge).map Ty.bare := by
        rw [← same]
        exact parents.along?_rename _ step.edge
      rw [along]
      cases found : parents.along? step.edge with
      | none => exact .of_pure ⟨nofun, rfl⟩
      | some parent =>
          exact ih (each parent (ParentTypes.mem_toList_of_along? found))

theorem yields_viewAs? {ty : Ty} (genuine : ty.Genuine catalog values)
    (target : TypeId) :
    Yields catalog values (viewAs? catalog ty target) fun more found =>
      (∀ view, found = some view → view.Genuine catalog more) ∧
        found.map Ty.bare = catalog.bare.viewAs ty.bare target := by
  have path : catalog.bare.path ty.bare.id target =
      (catalog.path ty.id target).map
          (List.map (Step.rename fun id => id)) := by
    rw [Ty.bare, Ty.id_rename]
    exact catalog.renames_bare.path ty.id target
  rw [viewAs?]
  cases found : catalog.path ty.id target with
  | none =>
      refine .of_pure ⟨nofun, ?_⟩
      rw [found] at path
      simp [Catalog.viewAs, path]
  | some steps =>
      rw [found, Option.map_some] at path
      rw [Catalog.viewAs_of_path path]
      exact yields_climb genuine steps

theorem yields_viewAs {ty : Ty} (genuine : ty.Genuine catalog values)
    (target : TypeId) :
    Yields catalog values (viewAs catalog ty target).run
      (HandsOut catalog (catalog.bare.view ty.bare target)) := by
  refine (yields_viewAs? genuine target).lift_bind fun more _ found
    ⟨held, same⟩ => ?_
  rw [Catalog.view, ← same, Ty.bare, Ty.name_rename, catalog.name_bare]
  cases found with
  | none => exact .of_pure (.error _)
  | some view => exact .of_pure (.ok (held view rfl) rfl)

/-! Walks. -/

theorem yields_expandAll {level : List Ty}
    (genuine : ∀ ty ∈ level, ty.Genuine catalog values) :
    Yields catalog values
      (expandAll (fun ty => do return (← parentTypes catalog ty).toList) level)
      (HandsOutAll catalog ((level.map Ty.bare).flatMap fun ty =>
        (catalog.bare.parentTypes ty).toList)) := by
  induction level generalizing values with
  | nil => exact .of_pure .nil
  | cons ty rest ih =>
      have parents :
          Yields catalog values (do return (← parentTypes catalog ty).toList)
            (HandsOutAll catalog (catalog.bare.parentTypes ty.bare).toList) := by
        refine (yields_parentTypes (genuine ty List.mem_cons_self)).bind
          fun more _ parents ⟨each, same⟩ => .of_pure ⟨each, ?_⟩
        rw [← same]
        exact (parents.toList_rename _).symm
      refine parents.bind fun more longer _ first => ?_
      have later : ∀ ty ∈ rest, ty.Genuine catalog more := fun ty member =>
        (genuine ty (List.mem_cons_of_mem _ member)).mono (.refl catalog) longer
      exact (ih later).bind fun _ longest _ others =>
        .of_pure (first.append longest others)

theorem yields_walk (levels : Nat) {seen seenBare : TreeSet TypeId}
    (sameIds : ∀ id, id ∈ seenBare ↔ id ∈ seen) {level : List Ty}
    (genuine : ∀ ty ∈ level, ty.Genuine catalog values) :
    Yields catalog values
      (walk Ty.id (fun ty => do return (← parentTypes catalog ty).toList)
        levels seen level)
      (HandsOutAll catalog
        (visits Ty.id (fun ty => (catalog.bare.parentTypes ty).toList) levels
          seenBare (level.map Ty.bare))) := by
  induction levels generalizing values seen seenBare level with
  | zero => exact .of_pure .nil
  | succ levels ih =>
      refine (yields_expandAll genuine).bind fun more _ candidates
        ⟨held, same⟩ => ?_
      -- Both walks have seen the same identities, so they leave out the
      -- same candidates.
      obtain ⟨nodes, after⟩ :=
        newcomers_map Ty.id Ty.id Ty.bare (fun _ _ same => same)
          (fun ty (_ : ty ∈ candidates) => Ty.id_rename _ ty) sameIds
      rw [visits_succ, ← same, nodes, List.isEmpty_map]
      have stay : ∀ ty ∈ (newcomers Ty.id seen candidates).1,
          ty.Genuine catalog more :=
        fun ty stays => held ty (mem_of_mem_newcomers Ty.id stays).1
      have level : HandsOutAll catalog
          ((newcomers Ty.id seen candidates).1.map Ty.bare) more
          (newcomers Ty.id seen candidates).1 := ⟨stay, rfl⟩
      dsimp only
      split
      · exact .of_pure .nil
      · exact (ih after stay).bind fun _ longest _ beyond =>
          .of_pure (level.append longest beyond)

theorem yields_ancestors {ty : Ty} (genuine : ty.Genuine catalog values) :
    Yields catalog values (ancestors catalog ty)
      (HandsOutAll catalog (catalog.bare.ancestors ty.bare)) := by
  rw [Catalog.ancestors_eq_visits, catalog.renames_bare.size]
  refine yields_walk _ (fun id => ?_) fun inner member => ?_
  · rw [Ty.bare, Ty.id_rename]
  · rw [List.mem_singleton.mp member]
    exact genuine

/-! Built types. -/

theorem yields_intern (operation : Operation) {id : TypeId}
    {slots : List (Option Ty)} (declared : catalog.contains id = true)
    (complete : slots.length = catalog.arity id)
    (bound : ∀ inner, some inner ∈ slots → inner.Genuine catalog values) :
    Yields catalog values (intern catalog operation id slots) fun more ty =>
      ty.Genuine catalog more ∧
        ty.bare = Ty.bare ⟨id, catalog.name id, slots, none⟩ := by
  have built : Ty.Genuine catalog values ⟨id, catalog.name id, slots, none⟩ :=
    .mk ⟨declared, complete, rfl, nofun⟩ bound
  refine (yields_startQuery operation id none).bind
    fun more longer query _ => ?_
  have built := built.mono (.refl catalog) longer
  refine Yields.of_get.bind fun more longer pool faithful => ?_
  have built := built.mono (.refl catalog) longer
  -- Ending a query and counting leave what has been built as it is.
  have closing : ∀ {values : List Ty} {ty : Ty} (remembered : Bool),
      ty.Genuine catalog values →
      Yields catalog values (do
        endQuery query operation true remembered
        return ty) fun more result =>
          result.Genuine catalog more ∧ result = ty := by
    intro values ty remembered genuine
    exact (yields_endQuery query operation true remembered).bind
      fun more longer _ _ =>
        .of_pure ⟨genuine.mono (.refl catalog) longer, rfl⟩
  split
  · refine (yields_keep built).bind fun more _ ty ⟨genuine, same⟩ => ?_
    exact (closing false genuine).imp fun more _ result ⟨held, equal⟩ =>
      ⟨held, equal ▸ same⟩
  · have old : ∀ ty ∈
        (if pool.generation = catalog.generation then pool.remembered else []),
        ty.Genuine catalog more := by
      split
      · exact faithful.remembered
      · exact nofun
    generalize
      (if pool.generation = catalog.generation then pool.remembered else []) =
        remembered at old
    dsimp only
    split
    · rename_i ty found
      have genuine := old ty (List.mem_of_find?_eq_some found)
      have equal : (ty == ⟨id, catalog.name id, slots, none⟩) = true :=
        List.find?_some (p := (· == _)) found
      have same := Ty.bare_eq_of_beq genuine built equal
      refine (Yields.of_modify fun pool faithful => ?_).bind
        fun most longest _ _ => ?_
      · exact (faithful.remember old).of_eq rfl rfl rfl
      · exact (closing true (genuine.mono (.refl catalog) longest)).imp
          fun _ _ result ⟨held, equal⟩ => ⟨held, equal ▸ same⟩
    · refine (yields_keep built).bind fun most longest ty ⟨genuine, same⟩ => ?_
      refine (Yields.of_modify fun pool faithful => ?_).bind
        fun last longer _ _ => ?_
      · refine (faithful.remember fun inner member => ?_).of_eq rfl rfl rfl
        rcases List.mem_cons.mp member with rfl | member
        · exact genuine
        · exact (old inner member).mono (.refl catalog) longest
      · exact (closing false (genuine.mono (.refl catalog) longer)).imp
          fun _ _ result ⟨held, equal⟩ => ⟨held, equal ▸ same⟩

theorem yields_lift {ε : Type} {action : PoolM Ty} {value : Ty}
    (yields : Yields catalog values action fun more ty =>
      ty.Genuine catalog more ∧ ty.bare = value) :
    Yields catalog values (liftM action : ExceptT ε PoolM Ty).run
      (HandsOut catalog (.ok value)) :=
  yields.bind fun _ _ _ ⟨held, same⟩ => .of_pure (.ok held same)

theorem yields_resolve (id : TypeId) {args : List Ty}
    (genuine : ∀ arg ∈ args, arg.Genuine catalog values) :
    Yields catalog values (resolve catalog id args).run
      (HandsOut catalog (catalog.bare.resolve id (args.map Ty.bare))) := by
  rw [resolve, Catalog.resolve, catalog.contains_bare]
  cases declared : catalog.contains id with
  | false => exact .of_pure ⟨nofun, rfl⟩
  | true =>
      simp only [Bool.not_true, Bool.false_eq_true, if_false, Catalog.bindSlots,
        List.length_map, catalog.arity_bare, catalog.name_bare]
      by_cases complete : args.length = catalog.arity id
      · have bound : ∀ inner, some inner ∈ args.map some →
            inner.Genuine catalog values := by
          intro inner member
          obtain ⟨arg, argMember, equality⟩ := List.mem_map.mp member
          exact Option.some.inj equality ▸ genuine arg argMember
        simp only [complete, if_true]
        refine (yields_lift
            (yields_intern .resolve declared (by simpa using complete) bound)).imp
          fun more _ result ⟨held, same⟩ => ⟨held, same.trans ?_⟩
        rw [Ty.bare_eq, List.map_map, List.map_map]
        rfl
      · simp only [complete, if_false]
        exact .of_pure ⟨nofun, rfl⟩

theorem yields_resolveRaw (id : TypeId) :
    Yields catalog values (resolveRaw catalog id).run
      (HandsOut catalog (catalog.bare.resolveRaw id)) := by
  rw [resolveRaw, Catalog.resolveRaw, catalog.contains_bare]
  cases declared : catalog.contains id with
  | false => exact .of_pure ⟨nofun, rfl⟩
  | true =>
      simp only [Bool.not_true, Bool.false_eq_true, if_false]
      refine (yields_lift (yields_intern .resolveRaw declared (by simp) ?_)).imp
        fun more _ result ⟨held, same⟩ => ⟨held, same.trans ?_⟩
      · simp
      · rw [Ty.bare_eq, Catalog.raw, catalog.name_bare, catalog.arity_bare,
          List.map_replicate]
        rfl

theorem yields_infer {known : Ty} (genuine : known.Genuine catalog values)
    (target : TypeId) :
    Yields catalog values (infer catalog known target).run
      (HandsOut catalog (catalog.bare.infer known.bare target)) := by
  have same : catalog.bare.infer known.bare target =
      (catalog.infer known target).map Ty.bare := by
    cases declared : catalog.contains target with
    | true => exact catalog.renames_bare.infer known declared
    | false =>
        rw [Catalog.infer, Catalog.infer, catalog.contains_bare, declared]
        rfl
  have quietly : ∀ {values : List Ty}, known.Genuine catalog values →
      Yields catalog values (inferQuietly catalog known target).run
        (HandsOut catalog (catalog.bare.infer known.bare target)) := by
    intro values genuine
    refine .assuming fun declarations => ?_
    rw [inferQuietly, same]
    cases inferred : catalog.infer known target with
    | error error => exact .of_pure (.error error)
    | ok ty =>
        exact yields_lift (yields_keep (declarations.infer genuine inferred))
  refine (yields_startQuery .infer known.id (some target)).bind
    fun more longer query _ => ?_
  refine (quietly (genuine.mono (.refl catalog) longer)).bind
    fun more _ result out => ?_
  refine (yields_endQuery query .infer result.isOk false).bind
    fun more longer _ _ => .of_pure ⟨?_, out.bare⟩
  exact fun ty success => (out.genuine ty success).mono (.refl catalog) longer

theorem yields_fullDescription {ty : Ty} (genuine : ty.Genuine catalog values) :
    Yields catalog values (fullDescription catalog ty) fun _ text =>
      text = catalog.bare.fullDescription ty.bare := by
  refine (yields_parentTypes genuine).bind fun more _ parents ⟨_, same⟩ =>
    .of_pure ?_
  rw [Catalog.fullDescription, ← same, Ty.bare, Ty.id_rename, catalog.kind_bare]
  exact (Catalog.Renames.describeWithParents_rename _ _ _).symm

theorem yields_clear : Yields catalog values clear fun _ _ => True :=
  .of_modify fun _ faithful =>
    (faithful.remember (List.forall_mem_nil _)).of_eq rfl rfl rfl

/-! Answers. -/

/-- The types in an answer are genuine, and without their handles it is the
expected one. -/
def Shows (catalog : Catalog) (expected : Answer) (values : List Ty)
    (answer : Answer) : Prop :=
  (∀ ty ∈ answer.held, ty.Genuine catalog values) ∧ answer.bare = expected

section Shows

variable {expected : Answer}

theorem shows_types {found : List (Option Ty)} {bares : List (Option Ty)}
    (genuine : ∀ ty, some ty ∈ found → ty.Genuine catalog values)
    (same : found.map (Option.map Ty.bare) = bares) :
    Shows catalog (.types bares) values (.types found) := by
  refine ⟨fun ty member => ?_, congrArg Answer.types same⟩
  obtain ⟨slot, slotMember, rfl⟩ := List.mem_filterMap.mp member
  exact genuine ty slotMember

theorem shows_option {found : Option Ty} {bare : Option Ty}
    (genuine : ∀ ty, found = some ty → ty.Genuine catalog values)
    (same : found.map Ty.bare = bare) :
    Shows catalog (.types [bare]) values (.types [found]) :=
  shows_types (fun ty member => genuine ty (List.mem_singleton.mp member).symm)
    (congrArg (fun slot => [slot]) same)

theorem shows_list {found bares : List Ty}
    (out : HandsOutAll catalog bares values found) :
    Shows catalog (.types (bares.map some)) values
      (.types (found.map some)) := by
  refine shows_types (fun ty member => ?_) ?_
  · obtain ⟨inner, innerMember, equality⟩ := List.mem_map.mp member
    exact Option.some.inj equality ▸ out.genuine inner innerMember
  · rw [← out.bare, List.map_map, List.map_map]
    rfl

theorem shows_ofResult {result expected : Except TypeError Ty}
    (out : HandsOut catalog expected values result) :
    Shows catalog (.ofResult expected) values (.ofResult result) := by
  obtain ⟨genuine, rfl⟩ := out
  cases result with
  | error error => exact ⟨List.forall_mem_nil _, rfl⟩
  | ok ty =>
      refine shows_option ?_ rfl
      rintro _ ⟨⟩
      exact genuine ty rfl

theorem shows_ofSlots {result expected : Except TypeError Ty}
    (out : HandsOut catalog expected values result) :
    Shows catalog (.ofSlots expected) values (.ofSlots result) := by
  obtain ⟨genuine, rfl⟩ := out
  cases result with
  | error error => exact ⟨List.forall_mem_nil _, rfl⟩
  | ok ty =>
      exact shows_types (fun inner member => (genuine ty rfl).bound member)
        (Ty.slots_rename _ ty).symm

end Shows

theorem yields_answer {question : Question Ty}
    (genuine : ∀ ty ∈ question.types, ty.Genuine catalog values) :
    Yields catalog values (answer catalog question)
      (Shows catalog (catalog.bare.answer (question.map Ty.bare))) := by
  cases question with
  | resolve id args =>
      exact (yields_resolve id genuine).bind fun _ _ _ out =>
        .of_pure (shows_ofResult out)
  | resolveRaw id =>
      exact (yields_resolveRaw id).bind fun _ _ _ out =>
        .of_pure (shows_ofResult out)
  | infer known target =>
      exact (yields_infer (genuine known List.mem_cons_self) target).bind
        fun _ _ _ out => .of_pure (shows_ofResult out)
  | viewAs ty target =>
      exact (yields_viewAs (genuine ty List.mem_cons_self) target).bind
        fun _ _ _ out => .of_pure (shows_ofResult out)
  | slotsAs ty target =>
      exact (yields_viewAs (genuine ty List.mem_cons_self) target).bind
        fun _ _ _ out => .of_pure (shows_ofSlots out)
  | superclass ty =>
      refine (yields_parentTypes (genuine ty List.mem_cons_self)).bind
        fun _ _ parents ⟨each, same⟩ =>
          .of_pure (shows_option ?_ (congrArg (·.superclass) same))
      exact fun parent found =>
        each parent (List.mem_append_left _ (Option.mem_toList.mpr found))
  | interfaces ty =>
      refine (yields_parentTypes (genuine ty List.mem_cons_self)).bind
        fun _ _ parents ⟨each, same⟩ =>
          .of_pure (shows_list ⟨?_, congrArg (·.interfaces) same⟩)
      exact fun parent member => each parent (List.mem_append_right _ member)
  | parentAlong ty edge =>
      refine (yields_parentTypes (genuine ty List.mem_cons_self)).bind
        fun _ _ parents ⟨each, same⟩ => .of_pure (shows_option ?_ ?_)
      · exact fun parent found =>
          each parent (ParentTypes.mem_toList_of_along? found)
      · rw [← same]
        exact (parents.along?_rename _ edge).symm
  | ancestors ty =>
      exact (yields_ancestors (genuine ty List.mem_cons_self)).bind
        fun _ _ _ out => .of_pure (shows_list out)
  | slot ty index =>
      refine .of_pure (shows_option (fun inner bound => ?_) ?_)
      · exact (genuine ty List.mem_cons_self).slot? bound
      · exact (Ty.slot?_rename _ ty index).symm
  | brief ty =>
      exact .of_pure ⟨List.forall_mem_nil _,
        congrArg Answer.text (Ty.brief_rename _ ty).symm⟩
  | signature ty =>
      exact .of_pure ⟨List.forall_mem_nil _,
        congrArg Answer.text (Ty.signature_rename _ ty).symm⟩
  | fullDescription ty =>
      exact (yields_fullDescription (genuine ty List.mem_cons_self)).bind
        fun _ _ text same =>
          .of_pure ⟨List.forall_mem_nil _, congrArg Answer.text same⟩
  | same ty other =>
      exact .of_pure ⟨List.forall_mem_nil _,
        congrArg Answer.truth (Ty.beq_bare ty other).symm⟩
  | clear =>
      exact yields_clear.bind fun _ _ _ _ =>
        .of_pure ⟨List.forall_mem_nil _, rfl⟩

end Pool

end NominalTypes
