/-! Text written a line at a time at the current depth of nested blocks. -/
namespace Feedforward

inductive Step where
  | line (text : String)
  | blank
  | indent
  | dedent
deriving DecidableEq, Repr

structure Writer where
  width : Nat
  level : Nat
  output : String
deriving DecidableEq, Repr

namespace Writer

def new (width : Nat) : Writer := ⟨width, 0, ""⟩

def margin (w : Writer) : String := String.ofList (List.replicate (w.level * w.width) ' ')

/-- An empty line gets no margin, and a block that is not open cannot be closed. -/
def step (w : Writer) : Step → Writer
  | .line text =>
    if text = "" then { w with output := w.output ++ "\n" }
    else { w with output := w.output ++ w.margin ++ text ++ "\n" }
  | .blank => { w with output := w.output ++ "\n" }
  | .indent => { w with level := w.level + 1 }
  | .dedent => { w with level := w.level - 1 }

def run (w : Writer) (steps : List Step) : Writer := steps.foldl step w

def trace (w : Writer) : List Step → List Writer
  | [] => []
  | s :: steps => w.step s :: trace (w.step s) steps

def render (width : Nat) (steps : List Step) : String := ((new width).run steps).output

@[simp] theorem run_nil (w : Writer) : w.run [] = w := rfl

@[simp] theorem run_cons (w : Writer) (s : Step) (steps : List Step) :
    w.run (s :: steps) = (w.step s).run steps := rfl

@[simp] theorem run_append (w : Writer) (first second : List Step) :
    w.run (first ++ second) = (w.run first).run second := by
  simp [run]

end Writer
end Feedforward
