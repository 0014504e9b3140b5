import Feedforward.Target.Reserved
import Feedforward.Token.Scan

/-! Names that a model can have: identifiers of the description language that
every target accepts as a class name. -/
namespace Feedforward

inductive ModelError where
  | missingName
  | invalidName (name : String)
  | reservedName (name : String) (target : Target)
  | invalidInputSize (size : Int)
  | noLayers
  | invalidUnits (layer : Nat) (units : Int)
deriving DecidableEq, Repr

def ModelError.message : ModelError → String
  | missingName => "Model name is missing: no `model` declaration found"
  | invalidName name => "Model name `" ++ name ++ "` is not an identifier or is a DSL keyword"
  | reservedName name target =>
    "Model name `" ++ name ++ "` is reserved in " ++ target.name ++ " output"
  | invalidInputSize size => "Input size must be a positive integer, got " ++ decimal size
  | noLayers => "Model declares no layers"
  | invalidUnits layer units =>
    "Layer " ++ layer.repr ++ " must have a positive unit count, got " ++ decimal units

namespace Name

def isWord : List Char → Bool
  | [] => false
  | c :: t => Token.isWordStart c && t.all Token.isWordPart

def isIdentifier (name : String) : Bool :=
  isWord name.toList && (Keyword.ofString? name).isNone

def reservedIn? (name : String) : Option Target := Target.all.find? (·.isReserved name)

def check (name : String) : Except ModelError Unit :=
  if name = "" then .error .missingName
  else if !isIdentifier name then .error (.invalidName name)
  else match reservedIn? name with
    | some target => .error (.reservedName name target)
    | none => .ok ()

end Name
end Feedforward
