import Feedforward.Text.Basic

/-! Why a scanner failed: a trail of what was expected and where, innermost
first, and the report that shows each entry under its line of the text. -/
namespace Feedforward

inductive Expectation where
  | run
  | tag
  | digits
  | closing
  | conversion
  | alternative
  | char (c : Char)
  | context (name : String)
deriving DecidableEq, Repr

/-- The name a report gives to an expectation other than a single character. -/
def Expectation.label : Expectation → String
  | run => "TakeWhile1"
  | tag => "Tag"
  | digits => "Digit"
  | closing => "TakeUntil"
  | conversion => "MapRes"
  | alternative => "Alt"
  | char c => String.singleton c
  | context name => name

structure Failure where
  offset : Nat
  expectation : Expectation
deriving DecidableEq, Repr

abbrev Trail := List Failure

namespace Failure

/-- The part of its line before a failure, a whole number of characters. -/
def linePart (f : Failure) (input : List Char) : List Char :=
  ((Text.takeBytes f.offset input).reverse.takeWhile (· ≠ '\n')).reverse

def lineNumber (f : Failure) (input : List Char) : Nat :=
  (Text.takeBytes f.offset input).count '\n' + 1

def lineText (f : Failure) (input : List Char) : List Char :=
  Text.trimEnd ((f.linePart input ++ Text.dropBytes f.offset input).takeWhile (· ≠ '\n'))

/-- The line number, the line, and a caret in the column of the failure, counted in bytes. -/
def pointer (f : Failure) (input : List Char) (purpose : String) : String :=
  "at line " ++ (f.lineNumber input).repr ++ purpose ++ ":\n" ++
    String.ofList (f.lineText input) ++ "\n" ++
    String.ofList (List.replicate (Text.byteLength (f.linePart input)) ' ') ++ "^\n"

def report (f : Failure) (input : List Char) : String :=
  match input, f.expectation with
  | [], .char c => "expected '" ++ String.singleton c ++ "', got empty input\n\n"
  | [], e => "in " ++ e.label ++ ", got empty input\n\n"
  | _, .char c =>
    f.pointer input "" ++ "expected '" ++ String.singleton c ++ "', " ++
      (match Text.dropBytes f.offset input with
        | [] => "got end of input"
        | found :: _ => "found " ++ String.singleton found) ++ "\n\n"
  | _, e => f.pointer input (", in " ++ e.label) ++ "\n"

end Failure

def Trail.report (trail : Trail) (input : List Char) : String :=
  String.join (trail.zipIdx.map fun (f, i) => i.repr ++ ": " ++ f.report input)

end Feedforward
