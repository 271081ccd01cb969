/-! The wording of messages: fixed text with numbered places for what differs
from case to case. -/

namespace NominalTypes

/-- A piece of a wording: fixed text, or the place of an argument. -/
inductive Piece where
  | words (text : String)
  | arg (index : Nat)

abbrev Wording := List Piece

/-- How the place of an argument is written in a template. -/
def placeholder (index : Nat) : String := "\x7b" ++ toString index ++ "\x7d"

namespace Piece

def template : Piece → String
  | .words text => text
  | .arg index => placeholder index

def fill (args : List String) : Piece → String
  | .words text => text
  | .arg index => args[index]?.getD ""

end Piece

namespace Wording

/-- The wording with its places written out. -/
def template (wording : Wording) : String :=
  String.join (wording.map Piece.template)

/-- The wording with the arguments in their places. -/
def fill (wording : Wording) (args : List String) : String :=
  String.join (wording.map (Piece.fill args))

end Wording

/-- Skips `skip` characters and replaces every occurrence of `pattern` after
them, from left to right.  Occurrences do not overlap, and what is put in is not
searched again. -/
def replaceFrom (pattern replacement : List Char) : Nat → List Char → List Char
  | _, [] => []
  | skip + 1, _ :: rest => replaceFrom pattern replacement skip rest
  | 0, c :: rest =>
    if pattern.isPrefixOf (c :: rest) then
      replacement ++ replaceFrom pattern replacement (pattern.length - 1) rest
    else c :: replaceFrom pattern replacement 0 rest

def replaceAll (pattern replacement text : String) : String :=
  String.ofList (replaceFrom pattern.toList replacement.toList 0 text.toList)

/-- Puts the arguments from number `index` on in the places of a template, one
argument after the other.  The place of a later argument is filled also where an
earlier argument has brought it in. -/
def fillTemplateFrom (index : Nat) (text : String) : List String → String
  | [] => text
  | arg :: rest =>
      fillTemplateFrom (index + 1)
        (replaceAll (placeholder index) arg text) rest

def fillTemplate (template : String) (args : List String) : String :=
  fillTemplateFrom 0 template args

@[simp] theorem replaceFrom_nil (pattern replacement : List Char) (skip : Nat) :
    replaceFrom pattern replacement skip [] = [] := by
  cases skip <;> rfl

@[simp] theorem fillTemplate_nil (template : String) :
    fillTemplate template [] = template := rfl

end NominalTypes
