/-! Tokens of a network description and the text each one is shown as. -/
namespace Feedforward

inductive Keyword where
  | model
  | input
  | layer
deriving DecidableEq, Repr

namespace Keyword

def all : List Keyword := [model, input, layer]

def spelling : Keyword → String
  | model => "model"
  | input => "input"
  | layer => "layer"

/-- Keywords are spelled in lower case only. -/
def ofString? (s : String) : Option Keyword := all.find? fun k => k.spelling == s

theorem ofString?_spelling (k : Keyword) : ofString? k.spelling = some k := by
  cases k <;> decide

theorem spelling_of_ofString? {s : String} {k : Keyword} (h : ofString? s = some k) :
    k.spelling = s := by
  simpa using List.find?_some h

end Keyword

inductive Delimiter where
  | openBrace
  | closeBrace
  | colon
  | comma
  | equal
deriving DecidableEq, Repr

namespace Delimiter

def all : List Delimiter := [openBrace, closeBrace, colon, comma, equal]

def char : Delimiter → Char
  | openBrace => '{'
  | closeBrace => '}'
  | colon => ':'
  | comma => ','
  | equal => '='

def ofChar? (c : Char) : Option Delimiter := all.find? fun d => d.char == c

theorem ofChar?_char (d : Delimiter) : ofChar? d.char = some d := by
  cases d <;> decide

theorem char_of_ofChar? {c : Char} {d : Delimiter} (h : ofChar? c = some d) : d.char = c := by
  simpa using List.find?_some h

end Delimiter

/-- Integer literals are those of 64-bit two's complement. -/
inductive Literal where
  | integer (value : Int)
  | string (content : String)
deriving DecidableEq, Repr

namespace Literal

def leastInteger : Int := -(Nat.pow 2 63 : Nat)

def greatestInteger : Int := (Nat.pow 2 63 : Nat) - 1

def InRange (value : Int) : Prop := leastInteger ≤ value ∧ value ≤ greatestInteger

instance (value : Int) : Decidable (InRange value) :=
  inferInstanceAs (Decidable (_ ∧ _))

end Literal

def decimal : Int → String
  | .ofNat n => n.repr
  | .negSucc n => "-" ++ (n + 1).repr

def Literal.spelling : Literal → String
  | .integer value => decimal value
  | .string content => "\"" ++ content ++ "\""

inductive CommentStyle where
  | line
  | hash
  | block
deriving DecidableEq, Repr

inductive Token where
  | keyword (keyword : Keyword)
  | identifier (name : String)
  | delimiter (delimiter : Delimiter)
  | literal (literal : Literal)
  | blanks (text : String)
  | newline
  | comment (style : CommentStyle) (content : String)
deriving DecidableEq, Repr

namespace Token

def isTrivia : Token → Bool
  | blanks _ | newline | comment _ _ => true
  | keyword _ | identifier _ | delimiter _ | literal _ => false

/-- The text a token is shown as: comments are padded, a line end is one line feed. -/
def display : Token → String
  | keyword k => k.spelling
  | identifier name => name
  | delimiter d => String.singleton d.char
  | literal l => l.spelling
  | blanks text => text
  | newline => "\n"
  | comment .line content => "// " ++ content
  | comment .hash content => "# " ++ content
  | comment .block content => "/* " ++ content ++ " */"

end Token
end Feedforward
