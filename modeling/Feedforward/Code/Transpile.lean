import Feedforward.Code.Program
import Feedforward.Code.Writer
import Feedforward.Document.Reading
import Feedforward.Settings

/-! The program of a network as source code. A dialect spells the statements
and the text around them; the statements and their order are the program's. -/
namespace Feedforward

/-- The text before the setup, between setup and forward pass, and after it. -/
structure Dialect where
  opening : (name : String) → List Step
  between : List Step
  closing : (name : String) → List Parameter → List Step
  spell : Statement → String

namespace Dialect
open Parameter (weightName biasName)

def cppSpell : Statement → String
  | .setWeight i rows cols =>
    weightName i ++ " = Eigen::MatrixXd::Random(" ++ rows.repr ++ ", " ++ cols.repr ++ ");"
  | .setBias i rows => biasName i ++ " = Eigen::VectorXd::Random(" ++ rows.repr ++ ");"
  | .affine i => "x = (" ++ weightName i ++ " * x).colwise() + " ++ biasName i ++ ";"
  | .relu => "x = x.cwiseMax(0.0);"
  | .sigmoid => "x = (1.0 / (1.0 + (-x.array()).exp())).matrix();"

/-- A class whose members are declared after the functions that use them. -/
def cpp : Dialect where
  opening name := [
    .line "#include <Eigen/Dense>", .blank,
    .line ("class " ++ name ++ " \x7b"), .line "public:", .indent,
    .line (name ++ "() \x7b"), .indent]
  between := [
    .dedent, .line "\x7d", .blank,
    .line "Eigen::MatrixXd forward(const Eigen::MatrixXd& input) \x7b", .indent,
    .line "Eigen::MatrixXd x = input;"]
  closing _ parameters :=
    [.line "return x;", .dedent, .line "\x7d", .blank,
      .dedent, .line "private:", .indent] ++
    parameters.flatMap (fun p => [
      .line ("Eigen::MatrixXd " ++ weightName p.index ++ ";"),
      .line ("Eigen::VectorXd " ++ biasName p.index ++ ";")]) ++
    [.dedent, .line "\x7d;"]
  spell := cppSpell

def pythonSpell : Statement → String
  | .setWeight i rows cols =>
    "self." ++ weightName i ++ " = np.random.rand(" ++ rows.repr ++ ", " ++ cols.repr ++ ")"
  | .setBias i rows => "self." ++ biasName i ++ " = np.random.rand(" ++ rows.repr ++ ")"
  | .affine i => "x = np.dot(self." ++ weightName i ++ ", x) + self." ++ biasName i
  | .relu => "x = np.maximum(0, x)"
  | .sigmoid => "x = 1 / (1 + np.exp(-x))"

def python : Dialect where
  opening name := [
    .line "import numpy as np", .blank,
    .line ("class " ++ name ++ ":"), .indent,
    .line "def __init__(self):", .indent]
  between := [
    .dedent, .blank,
    .line "def forward(self, x):", .indent,
    .line "x = np.array(x)"]
  closing _ _ := [.line "return x", .dedent, .dedent]
  spell := pythonSpell

def javascriptSpell : Statement → String
  | .setWeight i rows cols =>
    "this." ++ weightName i ++ " = tf.randomUniform([" ++ rows.repr ++ ", " ++ cols.repr ++ "]);"
  | .setBias i rows => "this." ++ biasName i ++ " = tf.randomUniform([" ++ rows.repr ++ "]);"
  | .affine i => "x = tf.dot(this." ++ weightName i ++ ", x).add(this." ++ biasName i ++ ");"
  | .relu => "x = tf.relu(x);"
  | .sigmoid => "x = tf.sigmoid(x);"

def javascript : Dialect where
  opening name := [
    .line "const tf = require('@tensorflow/tfjs');", .blank,
    .line ("class " ++ name ++ " \x7b"), .indent,
    .line "constructor() \x7b", .indent]
  between := [
    .dedent, .line "\x7d", .blank,
    .line "forward(input) \x7b", .indent,
    .line "let x = tf.tensor(input);"]
  closing name _ := [
    .line "return x;", .dedent, .line "\x7d",
    .dedent, .line "\x7d", .blank,
    .line ("module.exports = \x7b " ++ name ++ " \x7d;")]
  spell := javascriptSpell

def statement (d : Dialect) (s : Statement) : Step := .line (d.spell s)

def steps (d : Dialect) (m : Model) : List Step :=
  d.opening m.name ++ m.program.setup.map d.statement ++
    d.between ++ m.program.forward.map d.statement ++
    d.closing m.name m.parameters

end Dialect

namespace Target

def dialect : Target → Dialect
  | cpp => .cpp
  | python => .python
  | javascript => .javascript

def generate (t : Target) (indent : Nat) (m : Model) : String :=
  Writer.render indent (t.dialect.steps m)

def transpile (t : Target) (source : String) : Except DocumentError String :=
  (Model.read source).map (t.generate ({} : Settings).indent)

@[simp] theorem transpile_of_read {source : String} {m : Model} (t : Target)
    (h : Model.read source = .ok m) :
    t.transpile source = .ok (t.generate ({} : Settings).indent m) := by
  simp [transpile, h, Except.map]

end Target
end Feedforward
