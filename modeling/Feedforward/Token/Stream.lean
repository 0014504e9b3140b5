import Feedforward.Token.Scan

/-! A text cut into lexemes, and the place of each lexeme's token. Cutting does
not look at positions, so the positions are read off the lexemes afterwards. -/
namespace Feedforward

structure Lexeme where
  token : Token
  text : List Char
deriving DecidableEq, Repr

/-- The lexemes at the front of a text, as many as can be read, and the text
left unread, which is empty when all of it could be read. -/
def Lexeme.cut (s : List Char) : List Lexeme × List Char :=
  match _h : Token.scan s with
  | .error _ => ([], s)
  | .ok r =>
    let (lexemes, unread) := cut r.rest
    (⟨r.value, r.lexeme⟩ :: lexemes, unread)
termination_by s.length
decreasing_by exact Token.scan_rest_length _h

/-- Where a token stands: byte offsets of its start and end, line and column of its start. -/
structure Span where
  start : Nat
  stop : Nat
  line : Nat
  column : Nat
deriving DecidableEq, Repr

structure Placed where
  token : Token
  span : Span
deriving DecidableEq, Repr

def Placed.sequence (p : Position) : List Lexeme → List Placed
  | [] => []
  | l :: ls =>
    let next := p.after l.text
    ⟨l.token, ⟨p.offset, next.offset, p.line, p.column⟩⟩ :: sequence next ls

structure Unreadable where
  text : List Char
  position : Position
deriving DecidableEq, Repr

namespace Unreadable

/-- At most twenty characters are quoted. -/
def found (u : Unreadable) : String := String.ofList (u.text.take 20)

/-- The span of an error is taken to be one byte long. -/
def span (u : Unreadable) : Span :=
  ⟨u.position.offset, u.position.offset + 1, u.position.line, u.position.column⟩

def report (u : Unreadable) : String :=
  match Token.scan u.text with
  | .ok _ => ""
  | .error trail => trail.report u.text

def message (u : Unreadable) : String :=
  "Parse error: " ++ u.report ++ " at position line: " ++ u.span.line.repr ++
    ", column: " ++ u.span.column.repr ++ ", start: " ++ u.span.start.repr ++
    ", end: " ++ u.span.stop.repr

end Unreadable

/-- The tokens of a text read from a position on, and the position reached:
the end of the text, or the place of the first unreadable character. -/
def tokenize (p : Position) (s : List Char) : Except Unreadable (List Placed) × Position :=
  let (lexemes, unread) := Lexeme.cut s
  let reached := p.after (lexemes.flatMap Lexeme.text)
  match unread with
  | [] => (.ok (Placed.sequence p lexemes), reached)
  | _ => (.error ⟨unread, reached⟩, reached)

def tokenizeAll (p : Position) : List (List Char) → List (Except Unreadable (List Placed))
  | [] => []
  | s :: ss =>
    let (result, reached) := tokenize p s
    result :: tokenizeAll reached ss

end Feedforward
