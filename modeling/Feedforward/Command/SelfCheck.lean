import Feedforward.Code.Transpile
import Feedforward.Document.Reading

/-! Checks of the program on a sample document. -/
namespace Feedforward.Command

inductive SelfCheckError where
  | document (error : DocumentError)
  | failed (what : String)
deriving DecidableEq, Repr

namespace SelfCheck

def sample : String :=
  "\n" ++
  "    model TestModel \x7b\n" ++
  "        input: size=4\n" ++
  "        layer: units=8, activation=\"relu\"\n" ++
  "        layer: units=2, activation=\"sigmoid\"\n" ++
  "    \x7d\n"

def occursIn (part : List Char) : List Char → Bool
  | [] => part.isEmpty
  | c :: s => part.isPrefixOf (c :: s) || occursIn part s

def contains (text part : String) : Bool := occursIn part.toList text.toList

def ensure (condition : Bool) (what : String) : Except SelfCheckError Unit :=
  if condition then .ok () else .error (.failed what)

def checkModel (m : Model) : Except SelfCheckError Unit := do
  ensure (m.name == "TestModel") "model name"
  ensure (m.inputSize == 4) "input size"
  ensure (m.layers == [⟨8, .relu⟩, ⟨2, .sigmoid⟩]) "layers"

def checkPython (code : String) : Except SelfCheckError Unit := do
  ensure (contains code "class TestModel") "python class declaration"
  ensure (contains code "def forward") "python forward method"
  ensure (contains code "np.random.rand(8, 4)" && contains code "np.random.rand(2, 8)")
    "python weight shapes"

def checkCpp (code : String) : Except SelfCheckError Unit := do
  ensure ("#include <Eigen/Dense>".toList.isPrefixOf code.toList) "c++ header"
  ensure (contains code "class TestModel \x7b") "c++ class declaration"
  ensure (contains code "Eigen::MatrixXd forward(const Eigen::MatrixXd& input)")
    "c++ forward method"

def run : Except SelfCheckError (List String) := do
  let m ← (Model.read sample).mapError .document
  checkModel m
  checkPython (Target.python.generate 4 m)
  checkCpp (Target.cpp.generate 4 m)
  return ["Parser", "Python transpilation", "C++ transpilation"]

end SelfCheck
end Feedforward.Command
