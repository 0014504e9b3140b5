import Feedforward.Document.Assignment
import Feedforward.Token.Stream

/-! Declarations, one to a line. The first word of a line says what it should
declare; a line that starts with no known word declares nothing. -/
namespace Feedforward

inductive Declaration where
  | model (name : String)
  | input (size : Int)
  | layer (units : Int) (activation : String)
  | close
deriving DecidableEq, Repr

inductive LineKind where
  | declares (keyword : Keyword)
  | closes
deriving DecidableEq, Repr

namespace LineKind

def ofLine? (s : List Char) : Option LineKind :=
  match Text.trimStart s with
  | '}' :: _ => some closes
  | t =>
    match Token.word t with
    | .error _ => none
    | .ok r => (Keyword.ofString? r.value).map declares

end LineKind

namespace Declaration
open Line

/-- `model NAME {` -/
def readModel (ts : List Token) : Except LineFault Declaration := do
  let (_, ts) ← keyword .model ts
  let (name, ts) ← identifier ts
  let (_, ts) ← delimiter .openBrace ts
  endOfLine ts
  return .model name

def readAssignments (k : Keyword) (allowed : List String) (ts : List Token) :
    Except LineFault (List Assignment) := do
  let (_, ts) ← keyword k ts
  let (_, ts) ← delimiter .colon ts
  let (pairs, ts) ← Assignment.readAll [] ts
  endOfLine ts
  match Assignment.unknownKey? allowed pairs with
  | some key => .error (.unknownKey key)
  | none => .ok pairs

/-- `input: size=INTEGER` -/
def readInput (ts : List Token) : Except LineFault Declaration := do
  let pairs ← readAssignments .input ["size"] ts
  let size ← Assignment.integerValue pairs "size"
  return .input size

/-- `layer: units=INTEGER, activation=STRING`, in either order. -/
def readLayer (ts : List Token) : Except LineFault Declaration := do
  let pairs ← readAssignments .layer ["units", "activation"] ts
  let units ← Assignment.integerValue pairs "units"
  let activation ← Assignment.stringValue pairs "activation"
  return .layer units activation

def readClose (ts : List Token) : Except LineFault Declaration := do
  let (_, ts) ← delimiter .closeBrace ts
  endOfLine ts
  return .close

def ofTokens : LineKind → List Token → Except LineFault Declaration
  | .declares .model => readModel
  | .declares .input => readInput
  | .declares .layer => readLayer
  | .closes => readClose

def significant (s : List Char) : Except LineFault (List Token) :=
  match (tokenize Position.start s).1 with
  | .error u => .error (.unreadable u.found u.position.column)
  | .ok placed => .ok ((placed.map Placed.token).filter (!·.isTrivia))

def ofLine? (s : List Char) : Option (Except LineFault Declaration) :=
  (LineKind.ofLine? s).map fun kind =>
    match significant s with
    | .error f => .error f
    | .ok ts => ofTokens kind ts

end Declaration
end Feedforward
