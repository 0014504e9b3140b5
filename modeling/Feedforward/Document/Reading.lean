import Feedforward.Document.Draft
import Feedforward.Text.Basic

/-! Documents: a line at a time, up to the first line that is at fault. Lines
that declare nothing are skipped, so that documents may hold declarations that
are not known here. -/
namespace Feedforward

inductive DocumentError where
  | malformedLine (line : Nat) (fault : LineFault)
  | model (error : ModelError)
deriving DecidableEq, Repr

def DocumentError.message : DocumentError → String
  | malformedLine line fault => "Malformed line " ++ line.repr ++ ": " ++ fault.message
  | model e => e.message

structure Warning where
  line : Nat
  activation : String
deriving DecidableEq, Repr

structure Declared where
  model : Option Nat := none
  input : Option Nat := none
deriving DecidableEq, Repr

namespace Declared

def fault? (seen : Declared) : Declaration → Option LineFault
  | .model _ => seen.model.map (.repeated .model)
  | .input _ => seen.input.map (.repeated .input)
  | .layer _ _ | .close => none

def note (seen : Declared) (line : Nat) : Declaration → Declared
  | .model _ => { seen with model := some line }
  | .input _ => { seen with input := some line }
  | .layer _ _ | .close => seen

end Declared

def Declaration.warning? (line : Nat) : Declaration → Option Warning
  | .layer _ activation =>
    match Activation.ofName? activation with
    | some _ => none
    | none => some ⟨line, activation⟩
  | .model _ | .input _ | .close => none

/-- What the lines of a document hold, up to a line at fault if there is one. -/
structure Survey where
  declarations : Except (Nat × LineFault) (List Declaration)
  skipped : List Nat
  warnings : List Warning
deriving Repr

namespace Survey

def stopped (line : Nat) (fault : LineFault) : Survey := ⟨.error (line, fault), [], []⟩

def afterSkipped (line : Nat) (s : Survey) : Survey := { s with skipped := line :: s.skipped }

def afterDeclared (line : Nat) (d : Declaration) (s : Survey) : Survey where
  declarations := s.declarations.map (d :: ·)
  skipped := s.skipped
  warnings := (d.warning? line).toList ++ s.warnings

def ofLines (line : Nat) (seen : Declared) : List (List Char) → Survey
  | [] => ⟨.ok [], [], []⟩
  | s :: ss =>
    match Declaration.ofLine? s with
    | none => afterSkipped line (ofLines (line + 1) seen ss)
    | some (.error f) => stopped line f
    | some (.ok d) =>
      match seen.fault? d with
      | some f => stopped line f
      | none => afterDeclared line d (ofLines (line + 1) (seen.note line d) ss)

end Survey

/-- The model of a document or what is wrong with it, the lines that were
skipped, and the activations that were not known. -/
structure Reading where
  result : Except DocumentError Model
  skipped : List Nat
  warnings : List Warning

namespace Reading

def ofSurvey (s : Survey) : Reading where
  result := match s.declarations with
    | .error (line, f) => .error (.malformedLine line f)
    | .ok ds => (Draft.ofDeclarations ds).build.mapError .model
  skipped := s.skipped
  warnings := s.warnings

def ofString (source : String) : Reading :=
  ofSurvey (Survey.ofLines 1 {} (Text.lines source.toList))

end Reading

def Model.read (source : String) : Except DocumentError Model := (Reading.ofString source).result

end Feedforward
