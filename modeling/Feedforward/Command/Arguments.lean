import Feedforward.Target.Basic

/-! Command-line arguments. They are looked at from left to right; the first
that is wrong ends the reading, and so does a request for help or the version. -/
namespace Feedforward.Command

structure Options where
  input : Option String := none
  target : Option Target := none
  outDir : Option String := none
  stdout : Bool := false
  emitModel : Bool := false
  config : String := "ailang.json"
  verbose : Bool := false
deriving DecidableEq, Repr

inductive Request where
  | help
  | version
  | run (options : Options)
deriving DecidableEq, Repr

inductive ValueOption where
  | target
  | outDir
  | config
deriving DecidableEq, Repr

inductive Flag where
  | stdout
  | emitModel
  | verbose
deriving DecidableEq, Repr

inductive Switch where
  | value (option : ValueOption)
  | flag (flag : Flag)
  | help
  | version
deriving DecidableEq, Repr

def longSwitch? : String → Option Switch
  | "target" => some (.value .target)
  | "out-dir" => some (.value .outDir)
  | "config" => some (.value .config)
  | "stdout" => some (.flag .stdout)
  | "emit-ast" => some (.flag .emitModel)
  | "verbose" => some (.flag .verbose)
  | "help" => some .help
  | "version" => some .version
  | _ => none

def shortSwitch? : Char → Option Switch
  | 't' => some (.value .target)
  | 'o' => some (.value .outDir)
  | 'c' => some (.value .config)
  | 'v' => some (.flag .verbose)
  | 'h' => some .help
  | 'V' => some .version
  | _ => none

structure Given where
  input : Option String := none
  target : Option Target := none
  outDir : Option String := none
  config : Option String := none
  stdout : Bool := false
  emitModel : Bool := false
  verbose : Bool := false
deriving DecidableEq, Repr

namespace Given

def options (g : Given) : Options :=
  let d : Options := {}
  { input := g.input, target := g.target, outDir := g.outDir
    stdout := g.stdout, emitModel := g.emitModel, verbose := g.verbose
    config := g.config.getD d.config }

/-- A text that may be given once and must not be empty. -/
def once (old : Option String) (value : String) : Option String :=
  if old.isSome || value = "" then none else some value

def setInput? (g : Given) (value : String) : Option Given :=
  (once g.input value).map fun v => { g with input := some v }

def setValue? (g : Given) : ValueOption → String → Option Given
  | .target, value =>
    if g.target.isSome then none
    else (Target.ofString? value).map fun t => { g with target := some t }
  | .outDir, value => (once g.outDir value).map fun v => { g with outDir := some v }
  | .config, value => (once g.config value).map fun v => { g with config := some v }

def setFlag? (g : Given) : Flag → Option Given
  | .stdout => if g.stdout then none else some { g with stdout := true }
  | .emitModel => if g.emitModel then none else some { g with emitModel := true }
  | .verbose => if g.verbose then none else some { g with verbose := true }

end Given

inductive Progress where
  | next (given : Given)
  | needsValue (given : Given) (option : ValueOption)
  | done (request : Request)
  | wrong
deriving DecidableEq, Repr

namespace Progress

def ofGiven : Option Given → Progress
  | some g => next g
  | none => wrong

/-- Letters after one hyphen. A letter that takes a value takes all that
follows it, less an equals sign, or else the next argument. -/
def ofLetters (g : Given) : List Char → Progress
  | [] => next g
  | c :: cs =>
    match shortSwitch? c with
    | none => wrong
    | some .help => done .help
    | some .version => done .version
    | some (.flag f) =>
      match g.setFlag? f with
      | none => wrong
      | some g => ofLetters g cs
    | some (.value o) =>
      match cs with
      | [] => needsValue g o
      | '=' :: value => ofGiven (g.setValue? o (String.ofList value))
      | value => ofGiven (g.setValue? o (String.ofList value))

def ofName (g : Given) (name : String) (value : Option String) : Progress :=
  match longSwitch? name, value with
  | some (.value o), some value => ofGiven (g.setValue? o value)
  | some (.value o), none => needsValue g o
  | some (.flag f), none => ofGiven (g.setFlag? f)
  | some .help, none => done .help
  | some .version, none => done .version
  | _, _ => wrong

/-- One argument other than `--`. A hyphen alone is an input. -/
def ofArgument (g : Given) (arg : String) : Progress :=
  match arg.toList with
  | '-' :: '-' :: text =>
    let name := String.ofList (text.takeWhile (· ≠ '='))
    match text.dropWhile (· ≠ '=') with
    | [] => ofName g name none
    | _ :: value => ofName g name (some (String.ofList value))
  | '-' :: c :: cs => ofLetters g (c :: cs)
  | _ => ofGiven (g.setInput? arg)

end Progress

def isValue (arg : String) : Bool := arg.toList.head? != some '-' || arg == "-"

/-- Arguments after `--`, which are inputs whatever they look like. -/
def readInputs (g : Given) : List String → Option Request
  | [] => some (.run g.options)
  | arg :: args =>
    match g.setInput? arg with
    | none => none
    | some g => readInputs g args

def readArguments (g : Given) : List String → Option Request
  | [] => some (.run g.options)
  | "--" :: args => readInputs g args
  | arg :: args =>
    match Progress.ofArgument g arg with
    | .wrong => none
    | .done request => some request
    | .next g => readArguments g args
    | .needsValue g o =>
      match args with
      | [] => none
      | value :: args =>
        if isValue value then
          match g.setValue? o value with
          | none => none
          | some g => readArguments g args
        else none

def Request.ofArguments? (args : List String) : Option Request := readArguments {} args

end Feedforward.Command
