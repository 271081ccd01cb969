import NominalTypes.Proofs.Pool.Answers
import NominalTypes.Session.Basic

namespace NominalTypes

/-! Commands whose answers are computed anew, and sessions that give the same
ones from what a pool keeps. -/

@[induction_eliminator]
theorem Expr.induction {motive : Expr → Prop} (hole : motive .hole)
    (named : ∀ name args, (∀ arg ∈ args, motive arg) →
      motive (.named name args))
    (expr : Expr) : motive expr :=
  Expr.rec (motive_1 := motive)
    (motive_2 := fun args => ∀ arg ∈ args, motive arg)
    hole named (fun _ member => nomatch member)
    (fun _ _ first others arg member => by
      rcases List.mem_cons.mp member with rfl | later
      · exact first
      · exact others arg later)
    expr

namespace Registry

def identify (registry : Registry) (name : String) :
    Except CommandError TypeId :=
  match registry.id? name with
  | some id => .ok id
  | none => .error (.unknownName name)

mutual

def typeOfExpr (registry : Registry) : Expr → Except CommandError Ty
  | .hole => throw .bareHole
  | .named name args => do
    let id ← registry.identify name
    let arity := registry.catalog.arity id
    let holes := args.countP Expr.isHole
    if 0 < arity ∧ (args.isEmpty ∨ args.length = arity ∧ holes = arity) then
      (registry.catalog.resolveRaw id).mapError .refused
    else if args.length ≠ arity then
      throw (.refused (.argumentCount name arity args.length))
    else if 0 < holes then
      throw (.partlyBound (Expr.print (.named name args))
        (Expr.print (.named name (List.replicate arity .hole))))
    else
      let types ← typesOfExprs registry args
      (registry.catalog.resolve id types).mapError .refused

def typesOfExprs (registry : Registry) :
    List Expr → Except CommandError (List Ty)
  | [] => .ok []
  | expr :: rest => do
    let first ← typeOfExpr registry expr
    return first :: (← typesOfExprs registry rest)

end

def typeOf (registry : Registry) (text : String) : Except CommandError Ty :=
  match Expr.read text with
  | .ok expr => registry.typeOfExpr expr
  | .error error => .error (.malformed error)

def report (registry : Registry) : Command → Except CommandError Report
  | .resolve type => do
    let ty ← registry.typeOf type
    return .resolved ty.brief (registry.catalog.fullDescription ty)
      ty.isFullyBound
  | .subtype ancestor target => do
    let known ← registry.typeOf ancestor
    let target ← registry.identify (Text.trim target)
    let result ← (registry.catalog.infer known target).mapError .refused
    return .inferred known.brief result.brief (Session.bindings registry result)
  | .supertype type ancestor => do
    let ty ← registry.typeOf type
    let ancestor ← registry.identify (Text.trim ancestor)
    let result ← (registry.catalog.view ty ancestor).mapError .refused
    return .viewed ty.brief result.brief (Session.bindings registry result)
  | .ancestors type => do
    let ty ← registry.typeOf type
    return .ancestors ty.brief ((registry.catalog.ancestors ty).map Ty.brief)
  | .declarations =>
    return .declarations
      (registry.catalog.ids.map registry.catalog.describeDeclaration)

def output (registry : Registry) (format : Format) (color : Bool)
    (command : Command) : Output :=
  match registry.report command with
  | .ok report => .ofReport format report
  | .error error => .ofDiagnostic format color error.diagnostic

end Registry

namespace Session

open Pool (HandsOut Yields)

variable {registry : Registry} {values : List Ty}

theorem yields_lookup (name : String) :
    Yields registry.catalog values (lookup registry name).run fun _ result =>
      result = registry.bare.identify name := by
  have same : registry.bare.id? name = registry.id? name := rfl
  rw [lookup, Registry.identify, same]
  cases registry.id? name with
  | none => exact .of_pure rfl
  | some id => exact .of_pure rfl

theorem yields_adapt {action : ExceptT TypeError PoolM Ty}
    {expected : Except TypeError Ty}
    (yields : Yields registry.catalog values action.run
      (HandsOut registry.catalog expected)) :
    Yields registry.catalog values (action.adapt CommandError.refused).run
      (HandsOut registry.catalog (expected.mapError .refused)) := by
  refine yields.bind fun more _ result ⟨held, same⟩ => .of_pure ?_
  subst same
  cases result with
  | error error => exact .error _
  | ok ty => exact .ok (held ty rfl) rfl

theorem yields_typesOfExprs {exprs : List Expr}
    (each : ∀ expr ∈ exprs, ∀ values : List Ty,
      Yields registry.catalog values (typeOfExpr registry expr).run
        (HandsOut registry.catalog (registry.bare.typeOfExpr expr))) :
    Yields registry.catalog values (typesOfExprs registry exprs).run
      fun more result =>
        (∀ types, result = .ok types → ∀ ty ∈ types,
            ty.Genuine registry.catalog more) ∧
          result.map (List.map Ty.bare) = registry.bare.typesOfExprs exprs := by
  induction exprs generalizing values with
  | nil =>
      refine .of_pure ⟨?_, rfl⟩
      rintro _ ⟨⟩
      exact nofun
  | cons expr rest ih =>
      rw [typesOfExprs, Registry.typesOfExprs]
      refine (each expr List.mem_cons_self values).except_bind
        (fun more longer first ⟨held, same⟩ => ?_) fun more _ error
        ⟨_, same⟩ => ?_
      · have later := fun expr member =>
          each expr (List.mem_cons_of_mem _ member)
        refine (ih later).except_bind
          (fun most longest others ⟨heldOthers, sameOthers⟩ => ?_)
          fun most _ error ⟨_, sameError⟩ => ?_
        · rw [← same, ← sameOthers]
          refine .of_pure ⟨?_, rfl⟩
          rintro _ ⟨⟩ ty member
          rcases List.mem_cons.mp member with rfl | member
          · exact (held ty rfl).mono (.refl _) longest
          · exact heldOthers others rfl ty member
        · rw [← same, ← sameError]
          exact ⟨nofun, rfl⟩
      · rw [← same]
        exact ⟨nofun, rfl⟩

theorem yields_typeOfExpr (expr : Expr) :
    Yields registry.catalog values (typeOfExpr registry expr).run
      (HandsOut registry.catalog (registry.bare.typeOfExpr expr)) := by
  induction expr generalizing values with
  | hole =>
      rw [typeOfExpr, Registry.typeOfExpr]
      exact .of_pure (.error _)
  | named name args ih =>
      rw [typeOfExpr, Registry.typeOfExpr]
      refine (yields_lookup name).except_bind (fun more _ id same => ?_)
        fun more _ error same => ?_
      · have arity : registry.bare.catalog.arity id =
            registry.catalog.arity id :=
          registry.catalog.arity_bare id
        rw [← same]
        simp only [bind, Except.bind, arity]
        split
        · exact yields_adapt (Pool.yields_resolveRaw id)
        · split
          · exact .of_pure (.error _)
          · split
            · exact .of_pure (.error _)
            · refine (yields_typesOfExprs fun arg member values =>
                  ih arg member).except_bind
                (fun most _ types ⟨held, sameTypes⟩ => ?_) fun most _ error
                  ⟨_, sameError⟩ => ?_
              · rw [← sameTypes]
                exact yields_adapt (Pool.yields_resolve id (held types rfl))
              · rw [← sameError]
                exact .error error
      · rw [← same]
        exact .error error

theorem yields_typeOf (text : String) :
    Yields registry.catalog values (typeOf registry text).run
      (HandsOut registry.catalog (registry.bare.typeOf text)) := by
  rw [typeOf, Registry.typeOf]
  cases Expr.read text with
  | error error => exact .of_pure (.error _)
  | ok expr => exact yields_typeOfExpr expr

theorem bindings_bare (registry : Registry) (ty : Ty) :
    bindings registry.bare ty.bare = bindings registry ty := by
  have params : registry.bare.catalog.params ty.bare.id =
      registry.catalog.params ty.id := by
    rw [Ty.bare, Ty.id_rename]
    exact registry.catalog.renames_bare.params ty.id
  have slots : ty.bare.slots = ty.slots.map (Option.map Ty.bare) :=
    Ty.slots_rename _ ty
  rw [bindings, bindings, params, slots, List.zipWith_map_right]
  congr
  funext param slot
  cases slot with
  | none => rfl
  | some inner =>
      exact congrArg (Binding.mk param)
        (congrArg some (Ty.brief_rename _ inner))

theorem yields_reported {action : ExceptT TypeError PoolM Ty}
    {expected : Except TypeError Ty} {report reportBare : Ty → Report}
    (agree : ∀ ty, reportBare ty.bare = report ty)
    (yields : Yields registry.catalog values action.run
      (HandsOut registry.catalog expected)) :
    Yields registry.catalog values
      (action.adapt CommandError.refused >>= fun ty => pure (report ty)).run
      fun _ result =>
        result = expected.mapError .refused >>= fun ty =>
          .ok (reportBare ty) := by
  refine (yields_adapt yields).except_bind (fun _ _ ty ⟨_, same⟩ => .of_pure ?_)
    fun _ _ error ⟨_, same⟩ => by rw [← same]; rfl
  rw [← same]
  exact congrArg Except.ok (agree ty).symm

theorem yields_run (command : Command) :
    Yields registry.catalog values (run registry command).run fun _ result =>
      result = registry.bare.report command := by
  cases command with
  | resolve type =>
      rw [run, Registry.report]
      refine (yields_typeOf type).except_bind (fun more _ ty out => ?_)
        fun more _ error out => by rw [← out.bare]; rfl
      refine (Pool.yields_fullDescription (out.genuine ty rfl)).lift_bind
        fun _ _ text full => .of_pure ?_
      rw [← out.bare, full]
      change _ = Except.ok
        (Report.resolved ty.bare.brief _ ty.bare.isFullyBound)
      rw [Ty.brief_bare, Ty.isFullyBound_bare]
      rfl
  | subtype ancestor target =>
      rw [run, Registry.report]
      refine (yields_typeOf ancestor).except_bind (fun more _ known out => ?_)
        fun more _ error out => by rw [← out.bare]; rfl
      refine (yields_lookup _).except_bind (fun more longer id sameId => ?_)
        fun more _ error sameId => by rw [← out.bare, ← sameId]; rfl
      have genuine := (out.genuine known rfl).mono (.refl _) longer
      rw [← out.bare, ← sameId]
      refine yields_reported (fun result => ?_) (Pool.yields_infer genuine id)
      rw [Ty.brief_bare, Ty.brief_bare, bindings_bare]
  | supertype type ancestor =>
      rw [run, Registry.report]
      refine (yields_typeOf type).except_bind (fun more _ ty out => ?_)
        fun more _ error out => by rw [← out.bare]; rfl
      refine (yields_lookup _).except_bind (fun more longer id sameId => ?_)
        fun more _ error sameId => by rw [← out.bare, ← sameId]; rfl
      have genuine := (out.genuine ty rfl).mono (.refl _) longer
      rw [← out.bare, ← sameId]
      refine yields_reported (fun result => ?_) (Pool.yields_viewAs genuine id)
      rw [Ty.brief_bare, Ty.brief_bare, bindings_bare]
  | ancestors type =>
      rw [run, Registry.report]
      refine (yields_typeOf type).except_bind (fun more _ ty out => ?_)
        fun more _ error out => by rw [← out.bare]; rfl
      refine (Pool.yields_ancestors (out.genuine ty rfl)).lift_bind
        fun _ _ found all =>
          .of_pure ?_
      rw [← out.bare]
      change _ = Except.ok (Report.ancestors ty.bare.brief
        ((registry.catalog.bare.ancestors ty.bare).map Ty.brief))
      rw [← all.bare, List.map_map, Ty.brief_bare]
      simp only [Function.comp_def, Ty.brief_bare]
  | declarations =>
      refine .of_pure ?_
      have ids : registry.bare.catalog.ids = registry.catalog.ids := by
        rw [Catalog.ids, Catalog.ids]
        exact congrArg (List.range' 1) registry.catalog.renames_bare.size
      rw [Registry.report, ids]
      refine congrArg (fun lines => Except.ok (Report.declarations lines)) ?_
      exact List.map_congr_left fun id _ =>
        (registry.catalog.renames_bare.describeDeclaration id).symm

theorem yields_execute (format : Format) (color : Bool) (command : Command) :
    Yields registry.catalog values (execute registry format color command)
      fun _ output =>
        output = registry.bare.output format color command := by
  refine (yields_run command).bind fun more _ result same => ?_
  rw [Registry.output, ← same]
  cases result with
  | ok report => exact .of_pure rfl
  | error error => exact .of_pure rfl

/-- Commands one after the other, each with the way in which it is
written down. -/
def executeAll (registry : Registry)
    (commands : List (Format × Bool × Command)) : PoolM (List Output) :=
  commands.mapM fun (format, color, command) =>
    execute registry format color command

theorem yields_executeAll (commands : List (Format × Bool × Command)) :
    Yields registry.catalog values (executeAll registry commands)
      fun _ outputs =>
        outputs = commands.map fun (format, color, command) =>
          registry.bare.output format color command := by
  induction commands generalizing values with
  | nil => exact .of_pure rfl
  | cons command rest ih =>
      rw [executeAll, List.mapM_cons]
      refine (yields_execute _ _ _).bind fun more _ output same => ?_
      refine ih.bind fun most _ others sameOthers => .of_pure ?_
      rw [same, sameOthers, List.map_cons]

end Session

end NominalTypes
