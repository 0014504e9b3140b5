import Feedforward.Model.Name

/-! Feed-forward networks: an input size and layers of units, each with an
activation. A `Model` satisfies every condition that code generation needs. -/
namespace Feedforward

inductive Activation where
  | relu
  | sigmoid
  | none
deriving DecidableEq, Repr

namespace Activation

def all : List Activation := [relu, sigmoid, none]

def name : Activation → String
  | relu => "relu"
  | sigmoid => "sigmoid"
  | none => "none"

def ofName? (s : String) : Option Activation := all.find? fun a => a.name == s

/-- A layer with an activation that is not known stays linear. -/
def ofName (s : String) : Activation := (ofName? s).getD none

theorem ofName?_name (a : Activation) : ofName? a.name = some a := by
  cases a <;> decide

@[simp] theorem ofName_name (a : Activation) : ofName a.name = a := by
  simp [ofName, ofName?_name]

end Activation

structure Layer where
  units : Nat
  activation : Activation
deriving DecidableEq, Repr

structure Model where
  name : String
  inputSize : Nat
  layers : List Layer
  name_ok : Name.check name = .ok ()
  inputSize_pos : 0 < inputSize
  layers_ne_nil : layers ≠ []
  units_pos : ∀ l ∈ layers, 0 < l.units
deriving DecidableEq

namespace Model

/-- The checks go from name to input size to layers; of several layers without
units the first is reported, counted from one. -/
def make (name : String) (inputSize : Nat) (layers : List Layer) : Except ModelError Model :=
  match hn : Name.check name with
  | .error e => .error e
  | .ok () =>
    if hs : inputSize = 0 then .error (.invalidInputSize 0)
    else if hl : layers = [] then .error .noLayers
    else match hu : layers.findIdx? (·.units == 0) with
      | some i => .error (.invalidUnits (i + 1) 0)
      | none => .ok {
          name, inputSize, layers
          name_ok := hn
          inputSize_pos := Nat.pos_of_ne_zero hs
          layers_ne_nil := hl
          units_pos := by
            intro l hmem
            have h := List.findIdx?_eq_none_iff.mp hu l hmem
            simp only [beq_eq_false_iff_ne] at h
            exact Nat.pos_of_ne_zero h }

end Model

/-- The weights of one layer: its index from one, and a matrix of `rows` by
`cols` that maps the previous layer's output to this one's. -/
structure Parameter where
  index : Nat
  rows : Nat
  cols : Nat
  activation : Activation
deriving DecidableEq, Repr

namespace Parameter

def weightName (index : Nat) : String := "W" ++ index.repr

def biasName (index : Nat) : String := "b" ++ index.repr

def chain (index cols : Nat) : List Layer → List Parameter
  | [] => []
  | l :: ls => ⟨index, l.units, cols, l.activation⟩ :: chain (index + 1) l.units ls

end Parameter

namespace Model

def parameters (m : Model) : List Parameter := Parameter.chain 1 m.inputSize m.layers

def shapes (m : Model) : List (Nat × Nat) := m.parameters.map fun p => (p.rows, p.cols)

end Model
end Feedforward
