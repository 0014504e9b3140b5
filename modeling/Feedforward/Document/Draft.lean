import Feedforward.Document.Declaration
import Feedforward.Model.Basic

/-! What the declarations of a document say, before it is checked to be a model. -/
namespace Feedforward

structure Draft where
  name : Option String
  inputSize : Option Int
  layers : List (Int × Activation)
deriving DecidableEq, Repr

namespace Draft

def ofDeclarations (ds : List Declaration) : Draft where
  name := ds.findSome? fun
    | .model name => some name
    | _ => none
  inputSize := ds.findSome? fun
    | .input size => some size
    | _ => none
  layers := ds.filterMap fun
    | .layer units activation => some (units, Activation.ofName activation)
    | _ => none

/-- The first layer without a positive number of units, counted from one. -/
def badLayer? (d : Draft) : Option (Nat × Int) :=
  (d.layers.zipIdx.find? fun l => l.1.1 ≤ 0).map fun l => (l.2 + 1, l.1.1)

/-- The checks go from name to input size to layers. A missing input size counts as zero. -/
def build (d : Draft) : Except ModelError Model :=
  match d.name with
  | none => .error .missingName
  | some name =>
    match Name.check name with
    | .error e => .error e
    | .ok () =>
      let size := d.inputSize.getD 0
      if size ≤ 0 then .error (.invalidInputSize size)
      else if d.layers = [] then .error .noLayers
      else match d.badLayer? with
        | some (layer, units) => .error (.invalidUnits layer units)
        | none =>
          Model.make name size.toNat (d.layers.map fun l => ⟨l.1.toNat, l.2⟩)

end Draft
end Feedforward
