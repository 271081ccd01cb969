import NominalTypes.Text.Bracketed

namespace NominalTypes

open NominalTypes.Text

/-- A type expression as it is written: `?`, or a name applied to argument
expressions.  Whether a name stands for a declared type or for a type parameter
is not decided here. -/
inductive Expr where
  | hole
  | named (name : String) (args : List Expr)

namespace Expr

def isHole : Expr → Bool
  | .hole => true
  | .named _ _ => false

mutual

/-- The text of an expression, without any blanks. -/
def print : Expr → String
  | .hole => "?"
  | .named name args => name ++ bracketed (printAll args)

def printAll : List Expr → List String
  | [] => []
  | arg :: rest => arg.print :: printAll rest

end

mutual

/-- The nodes from the top down and from left to right, each with its depth
below `depth`; `none` stands for `?`. -/
def outline (depth : Nat) : Expr → List (Nat × Option String)
  | .hole => [(depth, none)]
  | .named name args => (depth, some name) :: outlineAll (depth + 1) args

def outlineAll (depth : Nat) : List Expr → List (Nat × Option String)
  | [] => []
  | arg :: rest => arg.outline depth ++ outlineAll depth rest

end

@[simp] theorem print_hole : hole.print = "?" := rfl

@[simp] theorem printAll_eq_map (args : List Expr) :
    printAll args = args.map print := by
  induction args with
  | nil => rfl
  | cons arg rest ih => rw [printAll, ih, List.map_cons]

theorem print_named (name : String) (args : List Expr) :
    (named name args).print = name ++ bracketed (args.map print) := by
  rw [print, printAll_eq_map]

@[simp] theorem outlineAll_eq_flatMap (depth : Nat) (args : List Expr) :
    outlineAll depth args = args.flatMap (outline depth) := by
  induction args with
  | nil => rfl
  | cons arg rest ih => rw [outlineAll, ih, List.flatMap_cons]

end Expr

end NominalTypes
