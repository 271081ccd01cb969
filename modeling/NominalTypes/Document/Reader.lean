import NominalTypes.Document.Basic

/-! Reading JSON text.

The text is read one character at a time.  Lists and records that are still open
are kept on a stack, so their depth is not limited. -/

namespace NominalTypes.Document

/-- How far an escape within a quoted text has been read. -/
inductive Escape where
  | none
  /-- The backslash. -/
  | begun
  /-- A part of the four digits of a code unit with `left` digits to come.
  `high` is the high surrogate before it. -/
  | unit (high : Option Nat) (left value : Nat)
  /-- A high surrogate; the backslash of the low one has to follow. -/
  | paired (high : Nat)
  /-- A high surrogate and a backslash. -/
  | pairedBegun (high : Nat)

/-- How far a number has been read. -/
inductive Numeral where
  | sign
  | zero
  | whole
  | point
  | fraction
  | exponent
  | exponentSign
  | exponentDigits

/-- A list or a record that is still open, with what is in it,
the last first. -/
inductive Frame where
  | list (items : List Document)
  | record (fields : List (String × Document))
  /-- A record, and the key of the field that comes next. -/
  | field (fields : List (String × Document)) (key : String)

/-- What is being read, and so what may come next. -/
inductive Focus where
  | value
  | firstItem
  | firstKey
  | key
  | colon
  | quoted (isKey : Bool) (text : String) (escape : Escape)
  | word (rest : List Char) (meaning : Document)
  | numeral (part : Numeral) (spelling : String)
  | complete (document : Document)

structure Progress where
  frames : List Frame
  focus : Focus

def isSpace (c : Char) : Bool := c == ' ' || c == '\t' || c == '\n' || c == '\r'

def hexDigit? (c : Char) : Option Nat :=
  if '0' ≤ c ∧ c ≤ '9' then some (c.toNat - 48)
  else if 'a' ≤ c ∧ c ≤ 'f' then some (c.toNat - 87)
  else if 'A' ≤ c ∧ c ≤ 'F' then some (c.toNat - 55)
  else none

/-- The character that a letter after a backslash stands for. -/
def unescape? (c : Char) : Option Char :=
  match c with
  | '"' => some '"'
  | '\\' => some '\\'
  | '/' => some '/'
  | 'b' => some '\x08'
  | 'f' => some '\x0c'
  | 'n' => some '\n'
  | 'r' => some '\r'
  | 't' => some '\t'
  | _ => none

namespace Numeral

def isComplete : Numeral → Bool
  | .zero | .whole | .fraction | .exponentDigits => true
  | .sign | .point | .exponent | .exponentSign => false

/-- What a character makes of a number; nothing if the number cannot
go on with it. -/
def step (part : Numeral) (c : Char) : Option Numeral :=
  let digit := '0' ≤ c ∧ c ≤ '9'
  let mark := c = 'e' ∨ c = 'E'
  match part with
  | .sign => if c = '0' then some .zero else if digit then some .whole else none
  | .zero =>
      if c = '.' then some .point else if mark then some .exponent else none
  | .whole =>
    if digit then some .whole
    else if c = '.' then some .point
    else if mark then some .exponent
    else none
  | .point => if digit then some .fraction else none
  | .fraction =>
      if digit then some .fraction else if mark then some .exponent else none
  | .exponent =>
    if digit then some .exponentDigits
    else if c = '+' ∨ c = '-' then some .exponentSign
    else none
  | .exponentSign => if digit then some .exponentDigits else none
  | .exponentDigits => if digit then some .exponentDigits else none

end Numeral

namespace Progress

def start : Progress := ⟨[], .value⟩

/-- The first character of a value. -/
def beginValue (frames : List Frame) (c : Char) : Option Progress :=
  match c with
  | '"' => some ⟨frames, .quoted false "" .none⟩
  | '[' => some ⟨.list [] :: frames, .firstItem⟩
  | '\x7b' => some ⟨.record [] :: frames, .firstKey⟩
  | 'n' => some ⟨frames, .word ['u', 'l', 'l'] .null⟩
  | 't' => some ⟨frames, .word ['r', 'u', 'e'] (.truth true)⟩
  | 'f' => some ⟨frames, .word ['a', 'l', 's', 'e'] (.truth false)⟩
  | '-' => some ⟨frames, .numeral .sign "-"⟩
  | c =>
      (Numeral.sign.step c).map fun part =>
        ⟨frames, .numeral part (String.singleton c)⟩

/-- A character after a complete value. -/
def afterValue (frames : List Frame) (document : Document)
    (c : Char) : Option Progress :=
  if isSpace c then some ⟨frames, .complete document⟩
  else match frames, c with
    | .list items :: rest, ',' =>
        some ⟨.list (document :: items) :: rest, .value⟩
    | .list items :: rest, ']' =>
        some ⟨rest, .complete (.list (document :: items).reverse)⟩
    | .field fields key :: rest, ',' =>
        some ⟨.record ((key, document) :: fields) :: rest, .key⟩
    | .field fields key :: rest, '\x7d' =>
      some ⟨rest, .complete (.record ((key, document) :: fields).reverse)⟩
    | _, _ => none

/-- The quote at the end of a text.  A key waits for its colon. -/
def endQuoted (frames : List Frame) (isKey : Bool)
    (text : String) : Option Progress :=
  if isKey then
    match frames with
    | .record fields :: rest => some ⟨.field fields text :: rest, .colon⟩
    | _ => none
  else some ⟨frames, .complete (.text text)⟩

/-- What four digits after `\u` add to a text.  A high surrogate waits for a low
one, and a low one needs a high one. -/
def endUnit (high : Option Nat) (value : Nat) (text : String) :
    Option (String × Escape) :=
  let isHigh := 0xD800 ≤ value ∧ value < 0xDC00
  let isLow := 0xDC00 ≤ value ∧ value < 0xE000
  match high with
  | none =>
    if isHigh then some (text, .paired value)
    else if isLow then none
    else some (text.push (Char.ofNat value), .none)
  | some high =>
    if isLow then
      some (text.push (Char.ofNat
        (0x10000 + (high - 0xD800) * 0x400 + (value - 0xDC00))), .none)
    else none

/-- A character within a quoted text. -/
def stepQuoted (frames : List Frame) (isKey : Bool) (text : String)
    (escape : Escape) (c : Char) : Option Progress :=
  match escape with
  | .none =>
    if c == '"' then endQuoted frames isKey text
    else if c == '\\' then some ⟨frames, .quoted isKey text .begun⟩
    else if c.toNat < 32 then none
    else some ⟨frames, .quoted isKey (text.push c) .none⟩
  | .begun =>
    if c == 'u' then some ⟨frames, .quoted isKey text (.unit none 4 0)⟩
    else (unescape? c).map fun meant =>
      ⟨frames, .quoted isKey (text.push meant) .none⟩
  | .unit high left value => do
    let digit ← hexDigit? c
    let value := value * 16 + digit
    if left ≤ 1 then
      let (extended, next) ← endUnit high value text
      some ⟨frames, .quoted isKey extended next⟩
    else some ⟨frames, .quoted isKey text (.unit high (left - 1) value)⟩
  | .paired high =>
    if c == '\\' then some ⟨frames, .quoted isKey text (.pairedBegun high)⟩
    else none
  | .pairedBegun high =>
    if c == 'u' then some ⟨frames, .quoted isKey text (.unit (some high) 4 0)⟩
    else none

def step (progress : Progress) (c : Char) : Option Progress :=
  let frames := progress.frames
  match progress.focus with
  | .value => if isSpace c then some progress else beginValue frames c
  | .firstItem =>
    if isSpace c then some progress
    else if c == ']' then some ⟨frames.tail, .complete (.list [])⟩
    else beginValue frames c
  | .firstKey =>
    if isSpace c then some progress
    else if c == '"' then some ⟨frames, .quoted true "" .none⟩
    else if c == '\x7d' then some ⟨frames.tail, .complete (.record [])⟩
    else none
  | .key =>
    if isSpace c then some progress
    else if c == '"' then some ⟨frames, .quoted true "" .none⟩
    else none
  | .colon =>
    if isSpace c then some progress else if c == ':' then some ⟨frames, .value⟩
    else none
  | .quoted isKey read escape => stepQuoted frames isKey read escape c
  | .word rest meaning =>
    match rest with
    | [last] => if c == last then some ⟨frames, .complete meaning⟩ else none
    | next :: rest =>
        if c == next then some ⟨frames, .word rest meaning⟩ else none
    | [] => none
  | .numeral part spelling =>
    match part.step c with
    | some part => some ⟨frames, .numeral part (spelling.push c)⟩
    | none =>
        if part.isComplete then afterValue frames (.number spelling) c else none
  | .complete document => afterValue frames document c

/-- The document that is read when the text ends here. -/
def finish? (progress : Progress) : Option Document :=
  match progress.frames, progress.focus with
  | [], .complete document => some document
  | [], .numeral part spelling =>
      if part.isComplete then some (.number spelling) else none
  | _, _ => none

def read? (progress : Progress) : List Char → Option Document
  | [] => progress.finish?
  | c :: rest => match progress.step c with
    | some next => next.read? rest
    | none => none

end Progress

/-- Reads a text that has to be one document and nothing else. -/
def read? (text : String) : Option Document := Progress.start.read? text.toList

end NominalTypes.Document
