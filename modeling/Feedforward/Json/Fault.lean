import Feedforward.Number.Shortest
import Feedforward.Text.Quoted
import Feedforward.Token.Basic

/-! What can be wrong with a JSON text that is read for values of given types. -/
namespace Feedforward.Json

/-- Numbers are integers while they fit 64 bits, and else doubles with a sign. -/
inductive Number where
  | integer (value : Int)
  | double (negative : Bool) (magnitude : Double)
deriving DecidableEq, Repr

/-- A value as far as it was looked at. -/
inductive Found where
  | null
  | boolean (value : Bool)
  | number (value : Number)
  | string (content : String)
  | sequence
  | map
deriving DecidableEq, Repr

inductive Part where
  | value
  | string
  | list
  | object
deriving DecidableEq, Repr

inductive Container where
  | list
  | object
deriving DecidableEq, Repr

inductive Fault where
  | ended (part : Part)
  | expectedValue
  | expectedWord
  | expectedColon
  | expectedCommaOrEnd (container : Container)
  | keyNotString
  | trailingComma
  | trailingCharacters
  | invalidNumber
  | numberOutOfRange
  | invalidEscape
  | unfinishedSurrogate
  | loneSurrogate
  | invalidCodePoint
  | controlCharacter
  | wrongType (found : Found) (expected : String)
  | wrongValue (found : Found) (expected : String)
  | unknownVariant (name : String) (known : List String)
  | duplicateField (name : String)
deriving DecidableEq, Repr

/-- Whether a text stopped short, breaks the grammar, or holds the wrong things. -/
inductive Category where
  | ended
  | malformed
  | content
deriving DecidableEq, Repr

def Container.part : Container → Part
  | list => .list
  | object => .object

def Part.text : Part → String
  | value => "a value"
  | string => "a string"
  | list => "a list"
  | object => "an object"

def Found.text : Found → String
  | null => "null"
  | boolean true => "boolean `true`"
  | boolean false => "boolean `false`"
  | number (.integer n) => "integer `" ++ decimal n ++ "`"
  | number (.double negative x) =>
    "floating point `" ++ (if negative then "-" else "") ++ x.text ++ "`"
  | string content => "string " ++ Text.quoted content
  | sequence => "sequence"
  | map => "map"

namespace Fault

def category : Fault → Category
  | ended _ => .ended
  | wrongType _ _ | wrongValue _ _ | unknownVariant _ _ | duplicateField _ => .content
  | _ => .malformed

def message : Fault → String
  | ended part => "EOF while parsing " ++ part.text
  | expectedValue => "expected value"
  | expectedWord => "expected ident"
  | expectedColon => "expected `:`"
  | expectedCommaOrEnd .list => "expected `,` or `]`"
  | expectedCommaOrEnd .object => "expected `,` or `\x7d`"
  | keyNotString => "key must be a string"
  | trailingComma => "trailing comma"
  | trailingCharacters => "trailing characters"
  | invalidNumber => "invalid number"
  | numberOutOfRange => "number out of range"
  | invalidEscape => "invalid escape"
  | unfinishedSurrogate => "unexpected end of hex escape"
  | loneSurrogate => "lone leading surrogate in hex escape"
  | invalidCodePoint => "invalid unicode code point"
  | controlCharacter => "control character (\\u0000-\\u001F) found while parsing a string"
  | wrongType found expected => "invalid type: " ++ found.text ++ ", expected " ++ expected
  | wrongValue found expected => "invalid value: " ++ found.text ++ ", expected " ++ expected
  | unknownVariant name known =>
    "unknown variant `" ++ name ++ "`, expected one of " ++
      String.intercalate ", " (known.map fun k => "`" ++ k ++ "`")
  | duplicateField name => "duplicate field `" ++ name ++ "`"

end Fault
end Feedforward.Json
