import NominalTypes.Expr.Basic
import NominalTypes.Text.Alphabetic
import NominalTypes.Text.Numeric
import NominalTypes.Text.Blank

/-! Reading type expressions.

The grammar is `expr := '?' | name ('<' expr (',' expr)* '>')?`, with blanks
allowed before, between and after the tokens.  The text is read one character at
a time, so a refusal always concerns the first character that no expression can
have at that place. -/

namespace NominalTypes.Expr

open NominalTypes.Text

/-- How many brackets may be open at once. -/
def maxDepth : Nat := 64

def startsName (c : Char) : Bool :=
  isAlphabetic c || c == '_' || c == '$'

def continuesName (c : Char) : Bool :=
  isAlphabetic c || isNumeric c || c == '_' || c == '$' || c == '.'

/-- What is wrong with a text.  Offsets count the bytes of the text in UTF-8. -/
inductive Fault where
  | ended
  | unexpected (offset : Nat) (found : Char)
  | tooDeep (limit : Nat)
  deriving DecidableEq

structure ReadError where
  input : String
  fault : Fault
  deriving DecidableEq

def ReadError.message (error : ReadError) : String :=
  match error.fault with
  | .ended => "unexpected end of type expression `" ++ error.input ++ "`"
  | .unexpected offset found =>
    "unexpected `" ++ found.toString ++ "` at offset " ++ toString offset ++
      " in type expression `" ++ error.input ++ "`"
  | .tooDeep limit =>
    "type expression `" ++ error.input ++ "` nests deeper than " ++
      toString limit ++ " levels"

/-- An application whose bracket is still open: its name, and the arguments that
are complete, the last one first. -/
structure Frame where
  name : String
  args : List Expr

/-- What has just been read, and so what may come next. -/
inductive Focus where
  /-- Nothing of an expression that has to come. -/
  | awaiting
  /-- Part of a name, or all of it. -/
  | spelling (name : String)
  /-- A name and a blank after it. -/
  | spelled (name : String)
  /-- An expression that nothing can be added to. -/
  | complete (expr : Expr)

/-- The part of an expression that has been read: the open applications, the
innermost first, and the focus. -/
structure Progress where
  frames : List Frame
  focus : Focus

/-- Why the next character is refused. -/
inductive Refusal where
  | impossible
  | tooDeep

namespace Progress

def start : Progress := ⟨[], .awaiting⟩

/-- What a character after the complete expression `expr` leads to. -/
def afterExpr (frames : List Frame) (expr : Expr) (c : Char) :
    Except Refusal Progress :=
  if isBlank c then .ok ⟨frames, .complete expr⟩
  else match frames with
    | [] => .error .impossible
    | frame :: rest =>
      if c == ',' then .ok ⟨⟨frame.name, expr :: frame.args⟩ :: rest, .awaiting⟩
      else if c == '>' then
        .ok ⟨rest, .complete (.named frame.name (expr :: frame.args).reverse)⟩
      else .error .impossible

/-- What a character after the whole of a name leads to. -/
def afterName (frames : List Frame) (name : String) (c : Char) :
    Except Refusal Progress :=
  if c == '<' then
    if frames.length < maxDepth then .ok ⟨⟨name, []⟩ :: frames, .awaiting⟩
    else .error .tooDeep
  else if isBlank c then .ok ⟨frames, .spelled name⟩
  else afterExpr frames (.named name []) c

def step (progress : Progress) (c : Char) : Except Refusal Progress :=
  match progress.focus with
  | .awaiting =>
    if isBlank c then .ok progress
    else if c == '?' then .ok ⟨progress.frames, .complete .hole⟩
    else if startsName c then
      .ok ⟨progress.frames, .spelling (String.singleton c)⟩
    else .error .impossible
  | .spelling name =>
    if continuesName c then .ok ⟨progress.frames, .spelling (name.push c)⟩
    else afterName progress.frames name c
  | .spelled name => afterName progress.frames name c
  | .complete expr => afterExpr progress.frames expr c

/-- The expression that is read when the text ends here. -/
def finish? (progress : Progress) : Option Expr :=
  match progress.frames, progress.focus with
  | [], .spelling name => some (.named name [])
  | [], .spelled name => some (.named name [])
  | [], .complete expr => some expr
  | _, _ => none

/-- Reads on through the characters of a text, the first of which
stands at `offset`. -/
def read (progress : Progress) (offset : Nat) : List Char → Except Fault Expr
  | [] => match progress.finish? with
    | some expr => .ok expr
    | none => .error .ended
  | c :: rest => match progress.step c with
    | .ok next => next.read (offset + c.utf8Size) rest
    | .error .impossible => .error (.unexpected offset c)
    | .error .tooDeep => .error (.tooDeep maxDepth)

end Progress

/-- Reads a text that has to be one type expression and nothing else. -/
def read (text : String) : Except ReadError Expr :=
  match Progress.start.read 0 text.toList with
  | .ok expr => .ok expr
  | .error fault => .error ⟨text, fault⟩

end NominalTypes.Expr
