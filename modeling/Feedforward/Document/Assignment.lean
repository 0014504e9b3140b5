import Feedforward.Token.Basic

/-! The tokens of one line read from left to right, and the assignments
`key=value` that follow a declaration's colon. -/
namespace Feedforward

inductive Wanted where
  | keyword (keyword : Keyword)
  | delimiter (delimiter : Delimiter)
  | identifier
  | value
deriving DecidableEq, Repr

inductive LineFault where
  | unreadable (found : String) (column : Nat)
  | unexpected (wanted : Wanted) (found : Option Token)
  | trailing (found : Token)
  | duplicateKey (key : String)
  | unknownKey (key : String)
  | missingKey (key : String)
  | notInteger (key : String) (found : Literal)
  | notString (key : String) (found : Literal)
  | repeated (keyword : Keyword) (firstLine : Nat)
deriving DecidableEq, Repr

def Wanted.text : Wanted → String
  | keyword k => "`" ++ k.spelling ++ "`"
  | delimiter d => "`" ++ String.singleton d.char ++ "`"
  | identifier => "identifier"
  | value => "value"

namespace LineFault

def describe : Option Token → String
  | some t => "`" ++ t.display ++ "`"
  | none => "end of line"

def message : LineFault → String
  | unreadable found column =>
    "unexpected input `" ++ found ++ "` at column " ++ column.repr
  | unexpected wanted found => "expected " ++ wanted.text ++ ", found " ++ describe found
  | trailing found => "unexpected " ++ describe (some found) ++ " at end of line"
  | duplicateKey key => "duplicate key `" ++ key ++ "`"
  | unknownKey key => "unknown key `" ++ key ++ "`"
  | missingKey key => "missing `" ++ key ++ "`"
  | notInteger key found => "`" ++ key ++ "` must be an integer, found " ++ found.spelling
  | notString key found => "`" ++ key ++ "` must be a quoted string, found " ++ found.spelling
  | repeated k firstLine =>
    "duplicate `" ++ k.spelling ++ "` declaration, first declared on line " ++ firstLine.repr

end LineFault

namespace Line

def expect {α : Type} (wanted : Wanted) (accept : Token → Option α) :
    List Token → Except LineFault (α × List Token)
  | [] => .error (.unexpected wanted none)
  | t :: ts =>
    match accept t with
    | some a => .ok (a, ts)
    | none => .error (.unexpected wanted (some t))

theorem expect_eq_ok {α : Type} {wanted : Wanted} {accept : Token → Option α}
    {ts rest : List Token} {a : α} :
    expect wanted accept ts = .ok (a, rest) ↔ ∃ t, ts = t :: rest ∧ accept t = some a := by
  cases ts with
  | nil => simp [expect]
  | cons t ts =>
    simp only [expect]
    constructor
    · intro h
      split at h
      · next b hb => cases h; exact ⟨t, rfl, hb⟩
      · cases h
    · rintro ⟨u, hu, ha⟩
      cases hu
      simp [ha]

def keyword (k : Keyword) : List Token → Except LineFault (Unit × List Token) :=
  expect (.keyword k) fun t => if t = .keyword k then some () else none

def delimiter (d : Delimiter) : List Token → Except LineFault (Unit × List Token) :=
  expect (.delimiter d) fun t => if t = .delimiter d then some () else none

def identifier : List Token → Except LineFault (String × List Token) :=
  expect .identifier fun
    | .identifier name => some name
    | _ => none

def literal : List Token → Except LineFault (Literal × List Token) :=
  expect .value fun
    | .literal l => some l
    | _ => none

def endOfLine : List Token → Except LineFault Unit
  | [] => .ok ()
  | t :: _ => .error (.trailing t)

@[simp] theorem keyword_eq_ok {k : Keyword} {ts rest : List Token} {u : Unit} :
    keyword k ts = .ok (u, rest) ↔ ts = .keyword k :: rest := by
  simp [keyword, expect_eq_ok]

@[simp] theorem delimiter_eq_ok {d : Delimiter} {ts rest : List Token} {u : Unit} :
    delimiter d ts = .ok (u, rest) ↔ ts = .delimiter d :: rest := by
  simp [delimiter, expect_eq_ok]

@[simp] theorem identifier_eq_ok {ts rest : List Token} {name : String} :
    identifier ts = .ok (name, rest) ↔ ts = .identifier name :: rest := by
  simp only [identifier, expect_eq_ok]
  constructor
  · rintro ⟨t, rfl, ht⟩
    split at ht
    · cases ht; rfl
    · cases ht
  · rintro rfl
    exact ⟨_, rfl, rfl⟩

@[simp] theorem literal_eq_ok {ts rest : List Token} {l : Literal} :
    literal ts = .ok (l, rest) ↔ ts = .literal l :: rest := by
  simp only [literal, expect_eq_ok]
  constructor
  · rintro ⟨t, rfl, ht⟩
    split at ht
    · cases ht; rfl
    · cases ht
  · rintro rfl
    exact ⟨_, rfl, rfl⟩

@[simp] theorem endOfLine_eq_ok {ts : List Token} {u : Unit} :
    endOfLine ts = .ok u ↔ ts = [] := by
  cases ts <;> simp [endOfLine]

end Line

abbrev Assignment := String × Literal

namespace Assignment
open Line

def read (ts : List Token) : Except LineFault (Assignment × List Token) :=
  match identifier ts with
  | .error f => .error f
  | .ok (key, ts) =>
    match delimiter .equal ts with
    | .error f => .error f
    | .ok (_, ts) =>
      match literal ts with
      | .error f => .error f
      | .ok (value, ts) => .ok ((key, value), ts)

theorem read_eq_ok {ts rest : List Token} {key : String} {value : Literal} :
    read ts = .ok ((key, value), rest) ↔
      ts = .identifier key :: .delimiter .equal :: .literal value :: rest := by
  constructor
  · intro h
    simp only [read] at h
    split at h
    · cases h
    · next hk =>
      split at h
      · cases h
      · next he =>
        split at h
        · cases h
        · next hv =>
          cases h
          rw [identifier_eq_ok] at hk
          rw [delimiter_eq_ok] at he
          rw [literal_eq_ok] at hv
          simp [hk, he, hv]
  · rintro rfl
    simp [read, identifier, delimiter, literal, expect]

/-- Assignments separated by commas, with keys that differ from each other and
from those already seen. A comma promises another assignment. -/
def readAll (seen : List String) (ts : List Token) :
    Except LineFault (List Assignment × List Token) :=
  match _h : read ts with
  | .error f => .error f
  | .ok ((key, value), rest) =>
    if key ∈ seen then .error (.duplicateKey key)
    else match rest with
      | .delimiter .comma :: more =>
        match readAll (key :: seen) more with
        | .error f => .error f
        | .ok (pairs, left) => .ok ((key, value) :: pairs, left)
      | _ => .ok ([(key, value)], rest)
termination_by ts.length
decreasing_by
  rw [read_eq_ok] at _h
  simp [_h]
  omega

def unknownKey? (allowed : List String) (pairs : List Assignment) : Option String :=
  (pairs.find? fun p => !allowed.contains p.1).map Prod.fst

def integerValue (pairs : List Assignment) (key : String) : Except LineFault Int :=
  match pairs.lookup key with
  | none => .error (.missingKey key)
  | some (.integer value) => .ok value
  | some l => .error (.notInteger key l)

def stringValue (pairs : List Assignment) (key : String) : Except LineFault String :=
  match pairs.lookup key with
  | none => .error (.missingKey key)
  | some (.string content) => .ok content
  | some l => .error (.notString key l)

end Assignment
end Feedforward
