import NominalTypes.Expr.Reader
import NominalTypes.Pool.Query
import NominalTypes.Registry
import NominalTypes.Session.Report

/-! Commands about the types of a registry. -/

namespace NominalTypes

/-- A command, with its operands as they are written. -/
inductive Command where
  | resolve (type : String)
  | subtype (ancestor target : String)
  | supertype (type ancestor : String)
  | ancestors (type : String)
  | declarations
  deriving DecidableEq

/-- Why a command fails. -/
inductive CommandError where
  | malformed (error : Expr.ReadError)
  | bareHole
  | unknownName (name : String)
  /-- Some arguments are bound and some are not; `raw` is how the type is
  written with all of them unbound. -/
  | partlyBound (written raw : String)
  | refused (error : TypeError)
  deriving DecidableEq

namespace CommandError

def diagnostic : CommandError → Diagnostic
  | .malformed error => .ofCode .malformedExpression [error.message] []
  | .bareHole =>
      .ofCode .malformedExpression ["`?` can only appear as a type argument"] []
  | .unknownName name => .ofCode .unknownName [name] []
  | .partlyBound written raw => .ofCode .partlyBound [written, raw] []
  | .refused error => error.diagnostic

end CommandError

/-- A computation of a session.  It uses and changes the session's pool,
and it may fail. -/
abbrev SessionM := ExceptT CommandError PoolM

namespace Session

def lookup (registry : Registry) (name : String) : SessionM TypeId :=
  match registry.id? name with
  | some id => pure id
  | none => throw (.unknownName name)

mutual

/-- The type that an expression stands for.  A generic type without arguments,
or with nothing but `?` for arguments, has all its slots unbound. -/
def typeOfExpr (registry : Registry) : Expr → SessionM Ty
  | .hole => throw .bareHole
  | .named name args => do
    let id ← lookup registry name
    let arity := registry.catalog.arity id
    let holes := args.countP Expr.isHole
    if 0 < arity ∧ (args.isEmpty ∨ args.length = arity ∧ holes = arity) then
      (Pool.resolveRaw registry.catalog id).adapt .refused
    else if args.length ≠ arity then
      throw (.refused (.argumentCount name arity args.length))
    else if 0 < holes then
      throw (.partlyBound (Expr.print (.named name args))
        (Expr.print (.named name (List.replicate arity .hole))))
    else
      let types ← typesOfExprs registry args
      (Pool.resolve registry.catalog id types).adapt .refused

def typesOfExprs (registry : Registry) : List Expr → SessionM (List Ty)
  | [] => pure []
  | expr :: rest => do
    let first ← typeOfExpr registry expr
    return first :: (← typesOfExprs registry rest)

end

/-- The type that a text stands for. -/
def typeOf (registry : Registry) (text : String) : SessionM Ty :=
  match Expr.read text with
  | .ok expr => typeOfExpr registry expr
  | .error error => throw (.malformed error)

def bindings (registry : Registry) (ty : Ty) : List Binding :=
  (registry.catalog.params ty.id).zipWith
    (fun param slot => ⟨param, slot.map Ty.brief⟩) ty.slots

/-- Runs a command.  Operands that name a type may have blanks around them. -/
def run (registry : Registry) : Command → SessionM Report
  | .resolve type => do
    let ty ← typeOf registry type
    return .resolved ty.brief (← Pool.fullDescription registry.catalog ty)
      ty.isFullyBound
  | .subtype ancestor target => do
    let known ← typeOf registry ancestor
    let target ← lookup registry (Text.trim target)
    let result ← (Pool.infer registry.catalog known target).adapt .refused
    return .inferred known.brief result.brief (bindings registry result)
  | .supertype type ancestor => do
    let ty ← typeOf registry type
    let ancestor ← lookup registry (Text.trim ancestor)
    let result ← (Pool.viewAs registry.catalog ty ancestor).adapt .refused
    return .viewed ty.brief result.brief (bindings registry result)
  | .ancestors type => do
    let ty ← typeOf registry type
    let ancestors ← Pool.ancestors registry.catalog ty
    return .ancestors ty.brief (ancestors.map Ty.brief)
  | .declarations =>
    return .declarations
      (registry.catalog.ids.map registry.catalog.describeDeclaration)

/-- Runs a command and writes down how it ends. -/
def execute (registry : Registry) (format : Format) (color : Bool)
    (command : Command) : PoolM Output := do
  match ← (run registry command).run with
  | .ok report => return .ofReport format report
  | .error error => return .ofDiagnostic format color error.diagnostic

end Session

end NominalTypes
