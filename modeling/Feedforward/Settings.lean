import Feedforward.FileTree
import Feedforward.Json.Found
import Feedforward.Json.Skip
import Feedforward.Target.Basic

/-! Settings of code generation, with their defaults, and how they are read. A
settings file is a JSON text: an object with any of the three fields, in any order
and among others, or a list of their values in order. The text is read once from
left to right, and the first fault is reported. -/
namespace Feedforward

structure Settings where
  target : Target := .cpp
  outDir : String := "."
  indent : Nat := 4
deriving DecidableEq, Repr

namespace Settings
open Json

def outputPath (s : Settings) (modelName : String) : String :=
  Path.join s.outDir (modelName ++ "." ++ s.target.extension)

/-- Whether settings say no more than the defaults; directories are compared as paths. -/
def isDefault (s : Settings) : Bool :=
  let d : Settings := {}
  s.target == d.target && Path.same s.outDir d.outDir && s.indent == d.indent

inductive Field where
  | target
  | outDir
  | indent
deriving DecidableEq, Repr

namespace Field

def all : List Field := [target, outDir, indent]

def key : Field → String
  | target => "target"
  | outDir => "out_dir"
  | indent => "indent_spaces"

def ofKey? (s : String) : Option Field := all.find? fun f => f.key == s

end Field

structure Fields where
  target : Option Target := none
  outDir : Option String := none
  indent : Option Nat := none
deriving DecidableEq, Repr

namespace Fields

def has (fields : Fields) : Field → Bool
  | .target => fields.target.isSome
  | .outDir => fields.outDir.isSome
  | .indent => fields.indent.isSome

def settings (fields : Fields) : Settings :=
  let d : Settings := {}
  { target := fields.target.getD d.target
    outDir := fields.outDir.getD d.outDir
    indent := fields.indent.getD d.indent }

end Fields

def targetNamed (name : String) : Except Fault Target :=
  match Target.ofName? name with
  | some t => .ok t
  | none => .error (.unknownVariant name (Target.all.map Target.name))

/-- The key of an object whose brace was read and that must not be empty. -/
def readOnlyKey : Reader String := fun s =>
  match dropBlanks s with
  | [] => .error (.ended .object)
  | b :: s =>
    if ascii b = '"' then readString s
    else if ascii b = '}' then .error .expectedValue
    else .error .keyNotString

/-- The only member of an object whose brace was read: a target and `null`. -/
def readTargetMember : Reader Target := fun s =>
  match readOnlyKey s with
  | .error f => .error f
  | .ok (name, s) =>
    match targetNamed name with
    | .error f => .error f
    | .ok target =>
      match readColon s with
      | .error f => .error f
      | .ok s =>
        match readNull "unit" s with
        | .error f => .error f
        | .ok s =>
          match dropBlanks s with
          | [] => .error (.ended .object)
          | b :: s => if ascii b = '}' then .ok (target, s) else .error .expectedValue

/-- A target by name, or as the only key of an object. -/
def readTarget : Reader Target := fun s =>
  match dropBlanks s with
  | [] => .error (.ended .value)
  | b :: s =>
    if ascii b = '"' then
      match readString s with
      | .error f => .error f
      | .ok (name, s) =>
        match targetNamed name with
        | .error f => .error f
        | .ok target => .ok (target, s)
    else if ascii b = '{' then readTargetMember s
    else .error .expectedValue

def readField (fields : Fields) : Field → Reader Fields
  | .target, s =>
    match readTarget s with
    | .error f => .error f
    | .ok (target, s) => .ok ({ fields with target := some target }, s)
  | .outDir, s =>
    match readText "path string" s with
    | .error f => .error f
    | .ok (outDir, s) => .ok ({ fields with outDir := some outDir }, s)
  | .indent, s =>
    match readPositive "a nonzero usize" s with
    | .error f => .error f
    | .ok (indent, s) => .ok ({ fields with indent := some indent }, s)

/-- A member whose opening quote was read. A field that is repeated is a fault
before its value is looked at; values of other keys are read past. -/
def readMember (fields : Fields) : Reader Fields := fun s =>
  match readString s with
  | .error f => .error f
  | .ok (key, s) =>
    match Field.ofKey? key with
    | none =>
      match readColon s with
      | .error f => .error f
      | .ok s =>
        match skip s with
        | .error f => .error f
        | .ok s => .ok (fields, s)
    | some field =>
      if fields.has field then .error (.duplicateField field.key)
      else match readColon s with
        | .error f => .error f
        | .ok s => readField fields field s

/-- Whether an object goes on, and what follows the quote of its next key or its brace. -/
def nextMember (first : Bool) (s : Bytes) : Except Fault (Bool × Bytes) :=
  match dropBlanks s with
  | [] => .error (.ended .object)
  | b :: s =>
    if ascii b = '}' then .ok (false, s)
    else if first then
      if ascii b = '"' then .ok (true, s) else .error .keyNotString
    else if ascii b = ',' then
      match dropBlanks s with
      | [] => .error (.ended .value)
      | c :: s =>
        if ascii c = '"' then .ok (true, s)
        else if ascii c = '}' then .error .trailingComma
        else .error .keyNotString
    else .error (.expectedCommaOrEnd .object)

theorem readOnlyKey_length {s t : Bytes} {key : String} (h : readOnlyKey s = .ok (key, t)) :
    t.length < s.length := by
  simp only [readOnlyKey] at h
  split at h
  · cases h
  · next hs =>
    have hd := dropBlanks_length s
    rw [hs] at hd
    simp only [List.length_cons] at hd
    split at h
    · have := readString_length h; omega
    · split at h <;> cases h

theorem readTargetMember_length {s t : Bytes} {target : Target}
    (h : readTargetMember s = .ok (target, t)) : t.length < s.length := by
  simp only [readTargetMember] at h
  split at h
  · cases h
  · next hn =>
    split at h
    · cases h
    · split at h
      · cases h
      · next hc =>
        split at h
        · cases h
        · next s₁ hu =>
          have := readOnlyKey_length hn
          have := readColon_length hc
          have := readNull_length hu
          split at h
          · cases h
          · next hs =>
            have hd := dropBlanks_length s₁
            rw [hs] at hd
            simp only [List.length_cons] at hd
            split at h
            · cases h; omega
            · cases h

theorem readTarget_length {s t : Bytes} {target : Target} (h : readTarget s = .ok (target, t)) :
    t.length < s.length := by
  simp only [readTarget] at h
  split at h
  · cases h
  · next hs =>
    have hd := dropBlanks_length s
    rw [hs] at hd
    simp only [List.length_cons] at hd
    split at h
    · split at h
      · cases h
      · next hn =>
        have := readString_length hn
        split at h
        · cases h
        · cases h; omega
    · split at h
      · have := readTargetMember_length h; omega
      · cases h

theorem readField_length {fields fields' : Fields} {field : Field} {s t : Bytes}
    (h : readField fields field s = .ok (fields', t)) : t.length < s.length := by
  cases field <;> simp only [readField] at h <;> split at h
  · cases h
  · next hv => cases h; exact readTarget_length hv
  · cases h
  · next hv => cases h; exact readText_length hv
  · cases h
  · next hv => cases h; exact readPositive_length hv

theorem readMember_length {fields fields' : Fields} {s t : Bytes}
    (h : readMember fields s = .ok (fields', t)) : t.length < s.length := by
  simp only [readMember] at h
  split at h
  · cases h
  · next hk =>
    have := readString_length hk
    split at h
    · split at h
      · cases h
      · next hc =>
        have := readColon_length hc
        split at h
        · cases h
        · next hv => cases h; have := skip_length hv; omega
    · split at h
      · cases h
      · split at h
        · cases h
        · next hc =>
          have := readColon_length hc
          have := readField_length h
          omega

theorem nextMember_length {first more : Bool} {s t : Bytes}
    (h : nextMember first s = .ok (more, t)) : t.length < s.length := by
  simp only [nextMember] at h
  split at h
  · cases h
  · next u hs =>
    have hd := dropBlanks_length s
    rw [hs] at hd
    simp only [List.length_cons] at hd
    split at h
    · cases h; omega
    · split at h
      · split at h
        · cases h; omega
        · cases h
      · split at h
        · split at h
          · cases h
          · next hu =>
            have he := dropBlanks_length u
            rw [hu] at he
            simp only [List.length_cons] at he
            split at h
            · cases h; omega
            · split at h <;> cases h
        · cases h

def readMembers (fields : Fields) (first : Bool) (s : Bytes) :
    Except Fault (Fields × Bytes) :=
  match _h : nextMember first s with
  | .error f => .error f
  | .ok (false, t) => .ok (fields, t)
  | .ok (true, t) =>
    match _hm : readMember fields t with
    | .error f => .error f
    | .ok (fields, u) => readMembers fields false u
termination_by s.length
decreasing_by
  have := nextMember_length _h
  have := readMember_length _hm
  omega

/-- Whether a list goes on; its closing bracket is left where it is. -/
def nextElement (first : Bool) (s : Bytes) : Except Fault (Bool × Bytes) :=
  match dropBlanks s with
  | [] => .error (.ended .list)
  | b :: s =>
    if ascii b = ']' then .ok (false, b :: s)
    else if first then .ok (true, b :: s)
    else if ascii b = ',' then
      match dropBlanks s with
      | [] => .error (.ended .value)
      | c :: s => if ascii c = ']' then .error .trailingComma else .ok (true, c :: s)
    else .error (.expectedCommaOrEnd .list)

def readElements (fields : Fields) (first : Bool) : List Field → Reader Fields
  | [], s => .ok (fields, s)
  | field :: others, s =>
    match nextElement first s with
    | .error f => .error f
    | .ok (false, t) => .ok (fields, t)
    | .ok (true, t) =>
      match readField fields field t with
      | .error f => .error f
      | .ok (fields, u) => readElements fields false others u

def endList (s : Bytes) : Except Fault Bytes :=
  match dropBlanks s with
  | [] => .error (.ended .list)
  | b :: s =>
    if ascii b = ']' then .ok s
    else if ascii b = ',' then
      if (dropBlanks s).head?.map ascii = some ']' then .error .trailingComma
      else .error .trailingCharacters
    else .error .trailingCharacters

def readFields : Reader Fields := fun s =>
  match dropBlanks s with
  | [] => .error (.ended .value)
  | b :: t =>
    if ascii b = '{' then readMembers {} true t
    else if ascii b = '[' then
      match readElements {} true Field.all t with
      | .error f => .error f
      | .ok (fields, u) =>
        match endList u with
        | .error f => .error f
        | .ok u => .ok (fields, u)
    else .error (mismatch "struct TranspilerConfig" (b :: t))

def read (s : Bytes) : Except Fault Settings :=
  match readFields s with
  | .error f => .error f
  | .ok (fields, rest) =>
    match dropBlanks rest with
    | [] => .ok fields.settings
    | _ => .error .trailingCharacters

end Settings

/-- A directory can be opened but not read; all else that is wrong with a file
shows when it is opened. -/
inductive SettingsError where
  | unopened (fault : FileFault)
  | unread (fault : FileFault)
  | invalid (fault : Json.Fault)
deriving DecidableEq, Repr

def SettingsError.message : SettingsError → String
  | unopened f => "IO error: " ++ f.message
  | unread f => "JSON parsing error: " ++ f.message
  | invalid f => "JSON parsing error: " ++ f.message

namespace Settings

def ofFile : Except FileFault (List UInt8) → Except SettingsError Settings
  | .error .isDirectory => .error (.unread .isDirectory)
  | .error f => .error (.unopened f)
  | .ok content => (read content).mapError .invalid

/-- A file that is not there stands for the defaults. -/
def ofFileOrDefault (file : Except FileFault (List UInt8)) : Except SettingsError Settings :=
  match file with
  | .error f => if f.leadsNowhere then .ok {} else ofFile file
  | .ok _ => ofFile file

end Settings

end Feedforward
