import NominalTypes.TypeId
import Std.Data.TreeSet

/-! Breadth-first walks that come to each identity once.

A walk goes level by level.  Of the candidates for the next level, taken in the
order of the nodes that lead to them, those with a new identity stay, the first
for each identity. -/

namespace NominalTypes

open Std (TreeSet)

variable {α : Type}

/-- The candidates that are the first with their identity, and the identities
seen after them. -/
def newcomers (idOf : α → TypeId) (seen : TreeSet TypeId) :
    List α → List α × TreeSet TypeId
  | [] => ([], seen)
  | candidate :: rest =>
    if seen.contains (idOf candidate) then newcomers idOf seen rest
    else
      let found := newcomers idOf (seen.insert (idOf candidate)) rest
      (candidate :: found.1, found.2)

variable {m : Type → Type} [Monad m]

/-- What the nodes lead to, one node after the other. -/
def expandAll (expand : α → m (List α)) : List α → m (List α)
  | [] => pure []
  | node :: rest => do
    let first ← expand node
    let others ← expandAll expand rest
    pure (first ++ others)

/-- The nodes beyond a level in the order in which the walk finds them, through
at most `levels` levels. -/
def walk (idOf : α → TypeId) (expand : α → m (List α)) :
    Nat → TreeSet TypeId → List α → m (List α)
  | 0, _, _ => pure []
  | levels + 1, seen, level => do
    let candidates ← expandAll expand level
    let found := newcomers idOf seen candidates
    if found.1.isEmpty then pure []
    else
      let beyond ← walk idOf expand levels found.2 found.1
      pure (found.1 ++ beyond)

/-- All the nodes that a walk from `start` finds in a catalog of `size`
declarations.  Only declared identities lead further, so every level but the
last uses up a declaration. -/
def walkFrom (idOf : α → TypeId) (expand : α → m (List α)) (size : Nat)
    (start : α) : m (List α) :=
  walk idOf expand (size + 1) ((∅ : TreeSet TypeId).insert (idOf start)) [start]

end NominalTypes
