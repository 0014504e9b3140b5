import Feedforward.Document.Layout
import Feedforward.Command.Arguments
import Feedforward.Command.SelfCheck
import Feedforward.Settings

/-! The program as a function of its arguments and the files around it. What it
does is decided from what it reads, before anything is printed or written. -/
namespace Feedforward.Command

inductive RunError where
  | settings (error : SettingsError)
  | unreadable (path : String) (fault : FileFault)
  | document (error : DocumentError)
  | unwritable (path : String) (fault : FileFault)
  | selfCheck (what : String)
deriving DecidableEq, Repr

def RunError.message : RunError → String
  | settings e => "Config error: " ++ e.message
  | unreadable path f => "Could not open file " ++ path ++ ": " ++ f.message
  | document e => "Parse error: " ++ e.message
  | unwritable path f => "Could not write file " ++ path ++ ": " ++ f.message
  | selfCheck what => "Self check failed: " ++ what

inductive Action where
  | print (text : String)
  | save (path content : String)
deriving DecidableEq, Repr

structure Plan where
  result : Except RunError Action
  warnings : List Warning
deriving Repr

abbrev FileReader := String → Except FileFault (List UInt8)

def readText (read : FileReader) (path : String) : Except FileFault String :=
  match read path with
  | .error f => .error f
  | .ok content =>
    match Text.decode? content with
    | none => .error .notText
    | some text => .ok text

/-- Options go before the settings of a file. -/
def Options.settings (o : Options) (file : Settings) : Settings :=
  { file with target := o.target.getD file.target, outDir := o.outDir.getD file.outDir }

def codeOf (s : Settings) (m : Model) : String := s.target.generate s.indent m

/-- The model is printed before code is, and code is printed before it is saved. -/
def Options.action (o : Options) (s : Settings) (m : Model) : Action :=
  if o.emitModel then .print m.outline
  else if o.stdout then .print (codeOf s m)
  else .save (s.outputPath m.name) (codeOf s m)

def selfCheckPlan : Plan where
  result := match SelfCheck.run with
    | .error (.document e) => .error (.document e)
    | .error (.failed what) => .error (.selfCheck what)
    | .ok names => .ok (.print (String.join (names.map (· ++ " test passed.\n"))))
  warnings := []

def documentPlan (o : Options) (s : Settings) (source : String) : Plan :=
  let reading := Reading.ofString source
  { result := match reading.result with
      | .error e => .error (.document e)
      | .ok m => .ok (o.action s m)
    warnings := reading.warnings }

/-- The settings come first, also for a run without input. -/
def plan (o : Options) (read : FileReader) : Plan :=
  match Settings.ofFileOrDefault (read o.config) with
  | .error e => ⟨.error (.settings e), []⟩
  | .ok file =>
    match o.input with
    | none => selfCheckPlan
    | some path =>
      match readText read path with
      | .error f => ⟨.error (.unreadable path f), []⟩
      | .ok source => documentPlan o (o.settings file) source

structure Report where
  exitCode : Nat
  stdout : String
  error : Option RunError
  warnings : List Warning
  tree : FileTree
deriving Repr

def savedText (path : String) : String := "Model class generated successfully: " ++ path ++ "\n"

def run (o : Options) (tree : FileTree) : Report :=
  let p := plan o tree.read
  let failed (e : RunError) : Report := ⟨1, "", some e, p.warnings, tree⟩
  match p.result with
  | .error e => failed e
  | .ok (.print text) => ⟨0, text, none, p.warnings, tree⟩
  | .ok (.save path content) =>
    match tree.write path (Text.encode content) with
    | .error f => failed (.unwritable path f)
    | .ok tree => ⟨0, savedText path, none, p.warnings, tree⟩

def versionText : String := "ailang 0.1.0\n"

def helpText : String :=
  "Transpiles a small neural-network description DSL into forward-pass source code\n" ++
  "\n" ++
  "Usage: ailang [OPTIONS] [INPUT]\n" ++
  "\n" ++
  "Arguments:\n" ++
  "  [INPUT]  Model description to transpile. Runs the built-in self checks when omitted\n" ++
  "\n" ++
  "Options:\n" ++
  "  -t, --target <TARGET>    Output language: cpp, python or javascript\n" ++
  "  -o, --out-dir <OUT_DIR>  Directory for the generated file\n" ++
  "      --stdout             Print the generated code instead of writing a file\n" ++
  "      --emit-ast           Print the parsed model as JSON instead of generating code\n" ++
  "  -c, --config <CONFIG>    Path to config file [default: ailang.json]\n" ++
  "  -v, --verbose            Enable debug logging\n" ++
  "  -h, --help               Print help\n" ++
  "  -V, --version            Print version\n"

def usageExitCode : Nat := 2

def runArguments (args : List String) (tree : FileTree) : Report :=
  match Request.ofArguments? args with
  | none => ⟨usageExitCode, "", none, [], tree⟩
  | some .help => ⟨0, helpText, none, [], tree⟩
  | some .version => ⟨0, versionText, none, [], tree⟩
  | some (.run o) => run o tree

end Feedforward.Command
