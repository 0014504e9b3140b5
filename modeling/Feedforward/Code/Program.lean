import Feedforward.Model.Basic

/-! The computation of a network, before any language is chosen for it. -/
namespace Feedforward

inductive Statement where
  | setWeight (index rows cols : Nat)
  | setBias (index rows : Nat)
  | affine (index : Nat)
  | relu
  | sigmoid
deriving DecidableEq, Repr

/-- The parameters are set once; the forward pass uses them in order. -/
structure Program where
  setup : List Statement
  forward : List Statement
deriving DecidableEq, Repr

def Activation.statements : Activation → List Statement
  | .relu => [.relu]
  | .sigmoid => [.sigmoid]
  | .none => []

namespace Parameter

def setup (p : Parameter) : List Statement :=
  [.setWeight p.index p.rows p.cols, .setBias p.index p.rows]

def forward (p : Parameter) : List Statement := .affine p.index :: p.activation.statements

end Parameter

def Model.program (m : Model) : Program where
  setup := m.parameters.flatMap Parameter.setup
  forward := m.parameters.flatMap Parameter.forward

end Feedforward
