import Feedforward.Code.Writer
import Feedforward.Model.Basic

/-! The texts of a model: its canonical document, and an outline as JSON for
inspection. -/
namespace Feedforward

/-- How a document is laid out: spaces to a level, spaces around `=`, and a
blank line between the input and the layers. -/
structure Layout where
  indent : Nat := 4
  spacedOperators : Bool := false
  spacedBlocks : Bool := false
deriving DecidableEq, Repr

namespace Layout

def assign (layout : Layout) (key value : String) : String :=
  if layout.spacedOperators then key ++ " = " ++ value else key ++ "=" ++ value

def layerLine (layout : Layout) (l : Layer) : String :=
  "layer: " ++ layout.assign "units" l.units.repr ++ ", " ++
    layout.assign "activation" ("\"" ++ l.activation.name ++ "\"")

def steps (layout : Layout) (m : Model) : List Step :=
  [.line ("model " ++ m.name ++ " \x7b"), .indent,
    .line ("input: " ++ layout.assign "size" m.inputSize.repr)] ++
  (if layout.spacedBlocks then [.blank] else []) ++
  m.layers.map (fun l => .line (layout.layerLine l)) ++
  [.dedent, .line "\x7d"]

def render (layout : Layout) (m : Model) : String :=
  Writer.render layout.indent (layout.steps m)

end Layout

def Layer.outline (after : String) (l : Layer) : List Step :=
  [.line "\x7b", .indent,
    .line ("\"units\": " ++ l.units.repr ++ ","),
    .line ("\"activation\": \"" ++ l.activation.name ++ "\""),
    .dedent, .line ("\x7d" ++ after)]

def Layer.outlineAll : List Layer → List Step
  | [] => []
  | [l] => l.outline ""
  | l :: ls => l.outline "," ++ outlineAll ls

/-- A model name is an identifier, so nothing in it needs an escape. -/
def Model.outline (m : Model) : String :=
  Writer.render 2 <|
    [.line "\x7b", .indent,
      .line ("\"name\": \"" ++ m.name ++ "\","),
      .line ("\"input_size\": " ++ m.inputSize.repr ++ ","),
      .line "\"layers\": [", .indent] ++
    Layer.outlineAll m.layers ++
    [.dedent, .line "]", .dedent, .line "\x7d"]

end Feedforward
