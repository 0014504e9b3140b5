import Feedforward.Command.Run

/-! The command line: files are read, the plan is made from them, and its one
action is carried out. -/
namespace Feedforward.Command

/-- The system gives an error's code as it is or negated. -/
def hasCode (expected code : UInt32) : Bool := code == expected || code == 0 - expected

def faultOf (e : IO.Error) : FileFault :=
  match e with
  | .noFileOrDirectory _ _ _ => .notFound
  | .inappropriateType _ code _ =>
    if hasCode 20 code then .notDirectory
    else if hasCode 21 code then .isDirectory
    else .other (toString e)
  | .invalidArgument _ code _ => if hasCode 36 code then .nameTooLong else .other (toString e)
  | .permissionDenied _ code _ => if hasCode 13 code then .permissionDenied else .other (toString e)
  | _ => .other (toString e)

def readFile (path : String) : IO (Except FileFault (List UInt8)) := do
  try
    return .ok (← IO.FS.readBinFile path).data.toList
  catch e =>
    return .error (faultOf e)

def writeFile (path content : String) : IO (Except FileFault Unit) := do
  try
    return .ok (← IO.FS.writeFile path content)
  catch e =>
    return .error (faultOf e)

def fail (e : RunError) : IO UInt32 := do
  IO.eprintln ("Error: " ++ e.message)
  return 1

def perform : Action → IO UInt32
  | .print text => do
    IO.print text
    return 0
  | .save path content => do
    match ← writeFile path content with
    | .error f => fail (.unwritable path f)
    | .ok () =>
      IO.print (savedText path)
      return 0

/-- The settings file and the input are the only files a plan looks at. -/
def runOnFiles (o : Options) : IO UInt32 := do
  let settings ← readFile o.config
  let input ← match o.input with
    | none => pure (.error .notFound)
    | some path => readFile path
  let p := plan o fun path => if path = o.config then settings else input
  for w in p.warnings do
    IO.eprintln ("WARN line " ++ w.line.repr ++ ": unrecognized activation " ++
      Text.quoted w.activation ++ ", layer stays linear")
  match p.result with
  | .error e => fail e
  | .ok action => perform action

end Feedforward.Command

open Feedforward.Command in
def main (args : List String) : IO UInt32 :=
  match Request.ofArguments? args with
  | none => do
    IO.eprintln "error: invalid arguments\n\nUsage: ailang [OPTIONS] [INPUT]"
    return usageExitCode.toUInt32
  | some .help => do
    IO.print helpText
    return 0
  | some .version => do
    IO.print versionText
    return 0
  | some (.run o) => runOnFiles o
