import Feedforward.Text.Basic

/-! Paths, and files and directories by their location, a list of names from the
root on. A path has its names between slashes; it is walked name by name, and each
name but the last must be that of a directory. -/
namespace Feedforward
namespace Path

/-- The texts between slashes, of which there is one more than there are slashes. -/
def splitSlashes : List Char → List (List Char)
  | [] => [[]]
  | '/' :: s => [] :: splitSlashes s
  | c :: s =>
    match splitSlashes s with
    | [] => [[c]]
    | part :: others => (c :: part) :: others

def parts (path : String) : List String := (splitSlashes path.toList).map String.ofList

def isAbsolute (path : String) : Bool := path.toList.head? == some '/'

/-- A file in a directory. An absolute file is in none, and the empty directory adds nothing. -/
def join (dir file : String) : String :=
  if isAbsolute file || dir = "" then file
  else if dir.toList.getLast? = some '/' then dir ++ file
  else dir ++ "/" ++ file

def isStep (part : String) : Bool := part != "" && part != "."

/-- The steps of a path. A dot is a step only at the front of a relative path. -/
def steps (path : String) : List String :=
  match parts path with
  | "." :: others => "." :: others.filter isStep
  | all => all.filter isStep

def same (p q : String) : Bool := isAbsolute p == isAbsolute q && steps p == steps q

end Path

inductive FileFault where
  | notFound
  | notDirectory
  | isDirectory
  | notText
  | nulInPath
  | nameTooLong
  | permissionDenied
  | other (description : String)
deriving DecidableEq, Repr

namespace FileFault

def message : FileFault → String
  | notFound => "No such file or directory (os error 2)"
  | notDirectory => "Not a directory (os error 20)"
  | isDirectory => "Is a directory (os error 21)"
  | notText => "stream did not contain valid UTF-8"
  | nulInPath => "file name contained an unexpected NUL byte"
  | nameTooLong => "File name too long (os error 36)"
  | permissionDenied => "Permission denied (os error 13)"
  | other description => description

/-- Whether a path with this fault leads to nothing that is there. -/
def leadsNowhere : FileFault → Bool
  | notFound | notDirectory | nulInPath | nameTooLong => true
  | isDirectory | notText | permissionDenied | other _ => false

end FileFault

abbrev Location := List String

inductive Node where
  | directory
  | file (content : List UInt8)
deriving DecidableEq, Repr

structure FileTree where
  entries : List (Location × Node)
  workingDir : Location
deriving Repr

namespace FileTree

/-- What is at a location; the root is always a directory. -/
def node? (t : FileTree) (loc : Location) : Option Node :=
  if loc = [] then some .directory else t.entries.lookup loc

def put (t : FileTree) (loc : Location) (n : Node) : FileTree :=
  { t with entries := (loc, n) :: t.entries.filter (·.1 ≠ loc) }

def maxNameSize : Nat := 255
def maxPathSize : Nat := 4095

def walk (t : FileTree) (loc : Location) : List String → Except FileFault Location
  | [] => .ok loc
  | part :: others =>
    match t.node? loc with
    | none => .error .notFound
    | some (.file _) => .error .notDirectory
    | some .directory =>
      if !Path.isStep part then t.walk loc others
      else if part = ".." then t.walk loc.dropLast others
      else if maxNameSize < part.utf8ByteSize then .error .nameTooLong
      else t.walk (loc ++ [part]) others

def resolve (t : FileTree) (path : String) : Except FileFault Location :=
  if path.toList.contains '\x00' then .error .nulInPath
  else if path = "" then .error .notFound
  else if maxPathSize < path.utf8ByteSize then .error .nameTooLong
  else t.walk (if Path.isAbsolute path then [] else t.workingDir) (Path.parts path)

def read (t : FileTree) (path : String) : Except FileFault (List UInt8) :=
  match t.resolve path with
  | .error f => .error f
  | .ok loc =>
    match t.node? loc with
    | none => .error .notFound
    | some .directory => .error .isDirectory
    | some (.file content) => .ok content

/-- A file is written whole or not at all. -/
def write (t : FileTree) (path : String) (content : List UInt8) : Except FileFault FileTree :=
  match t.resolve path with
  | .error f => .error f
  | .ok loc =>
    match t.node? loc with
    | some .directory => .error .isDirectory
    | _ => .ok (t.put loc (.file content))

def addDirectories (t : FileTree) (loc : Location) : List String → FileTree
  | [] => t
  | name :: names =>
    let here := loc ++ [name]
    let t := if (t.node? here).isNone then t.put here .directory else t
    t.addDirectories here names

def add (t : FileTree) (path : String) (n : Node) : FileTree :=
  let names := (Path.parts path).filter Path.isStep
  (t.addDirectories t.workingDir names.dropLast).put (t.workingDir ++ names) n

def empty (workingDir : Location) : FileTree :=
  FileTree.addDirectories ⟨[], workingDir⟩ [] workingDir

def changes (before after : FileTree) : List (Location × List UInt8) :=
  after.entries.filterMap fun (loc, n) =>
    match n with
    | .directory => none
    | .file content => if before.node? loc = some n then none else some (loc, content)

theorem node?_put_self (t : FileTree) {loc : Location} (n : Node) (h : loc ≠ []) :
    (t.put loc n).node? loc = some n := by
  simp [node?, put, h]

theorem lookup_filter_ne {loc other : Location} (h : other ≠ loc)
    (entries : List (Location × Node)) :
    (entries.filter (·.1 ≠ loc)).lookup other = entries.lookup other := by
  induction entries with
  | nil => rfl
  | cons e entries ih =>
    obtain ⟨l, n⟩ := e
    by_cases hl : l = loc
    · have ho : (other == l) = false := by simpa [hl] using h
      simp only [List.filter_cons, hl, ne_eq, not_true_eq_false, decide_false, Bool.false_eq_true,
        ↓reduceIte, ih, List.lookup_cons]
      simp [← hl, ho]
    · simp only [List.filter_cons, hl, ne_eq, not_false_eq_true, decide_true, ↓reduceIte,
        List.lookup_cons, ih]

theorem node?_put_of_ne (t : FileTree) {loc other : Location} (n : Node) (h : other ≠ loc) :
    (t.put loc n).node? other = t.node? other := by
  have ho : (other == loc) = false := by simpa using h
  simp only [node?, put, List.lookup_cons, ho, lookup_filter_ne h]

end FileTree
end Feedforward
