import Feedforward.Json.Lexical

/-! JSON numbers. A number is read in three parts, and its value is that of a
significand below `2 ^ 64` times a power of ten: digits that no longer fit the
significand are dropped. -/
namespace Feedforward.Json

def digitValue (b : UInt8) : Nat := (ascii b).toNat - '0'.toNat

structure NumberText where
  whole : Bytes
  fraction : Option Bytes
  power : Option (Bool × Bytes)
deriving DecidableEq, Repr

namespace NumberText

/-- At least one digit; without one the text ended or is no number. -/
def readDigits (atEnd : Fault) : Reader Bytes := fun s =>
  match s with
  | [] => .error atEnd
  | b :: _ =>
    if isDigit b then .ok (s.takeWhile isDigit, s.dropWhile isDigit) else .error .invalidNumber

/-- The digits before the point; a zero stands alone. -/
def readWhole (atEnd : Fault) : Reader Bytes := fun s =>
  match readDigits atEnd s with
  | .error f => .error f
  | .ok (ds, rest) =>
    if ds.length ≠ 1 ∧ ds.head?.map ascii = some '0' then .error .invalidNumber
    else .ok (ds, rest)

def readFraction (atEnd : Fault) : Reader (Option Bytes) := fun s =>
  match s with
  | [] => .ok (none, [])
  | b :: t =>
    if ascii b = '.' then
      match readDigits atEnd t with
      | .error f => .error f
      | .ok (ds, rest) => .ok (some ds, rest)
    else .ok (none, s)

def readSign (s : Bytes) : Bool × Bytes :=
  match s with
  | [] => (false, [])
  | b :: t =>
    if ascii b = '-' then (true, t) else if ascii b = '+' then (false, t) else (false, s)

def readPower (atEnd : Fault) : Reader (Option (Bool × Bytes)) := fun s =>
  match s with
  | [] => .ok (none, [])
  | b :: t =>
    if ascii b = 'e' ∨ ascii b = 'E' then
      let (negative, t) := readSign t
      match readDigits atEnd t with
      | .error f => .error f
      | .ok (ds, rest) => .ok (some (negative, ds), rest)
    else .ok (none, s)

/-- A number whose minus sign, if it has one, was read. -/
def read (atEnd : Fault) : Reader NumberText := fun s =>
  match readWhole atEnd s with
  | .error f => .error f
  | .ok (whole, s) =>
    match readFraction atEnd s with
    | .error f => .error f
    | .ok (fraction, s) =>
      match readPower atEnd s with
      | .error f => .error f
      | .ok (power, s) => .ok (⟨whole, fraction, power⟩, s)

theorem readDigits_length {atEnd : Fault} {s ds t : Bytes}
    (h : readDigits atEnd s = .ok (ds, t)) : t.length < s.length := by
  cases s with
  | nil => cases h
  | cons b s =>
    simp only [readDigits] at h
    split at h
    · next hb =>
      cases h
      rw [List.dropWhile_cons_of_pos hb]
      exact Nat.lt_succ_of_le (List.dropWhile_suffix _).length_le
    · cases h

theorem readWhole_length {atEnd : Fault} {s ds t : Bytes}
    (h : readWhole atEnd s = .ok (ds, t)) : t.length < s.length := by
  simp only [readWhole] at h
  split at h
  · cases h
  · next hd =>
    split at h
    · cases h
    · cases h; exact readDigits_length hd

theorem readFraction_length {atEnd : Fault} {s t : Bytes} {ds : Option Bytes}
    (h : readFraction atEnd s = .ok (ds, t)) : t.length ≤ s.length := by
  cases s with
  | nil => cases h; simp
  | cons b s =>
    simp only [readFraction] at h
    split at h
    · split at h
      · cases h
      · next hd => cases h; have := readDigits_length hd; simp; omega
    · cases h; simp

theorem readSign_length (s : Bytes) : (readSign s).2.length ≤ s.length := by
  cases s with
  | nil => simp [readSign]
  | cons b s => simp only [readSign]; split <;> (try split) <;> simp

theorem readPower_length {atEnd : Fault} {s t : Bytes} {p : Option (Bool × Bytes)}
    (h : readPower atEnd s = .ok (p, t)) : t.length ≤ s.length := by
  cases s with
  | nil => cases h; simp
  | cons b s =>
    simp only [readPower] at h
    split at h
    · split at h
      · cases h
      · next hd =>
        cases h
        have := readDigits_length hd
        have := readSign_length s
        simp; omega
    · cases h; simp

theorem read_length {atEnd : Fault} {s t : Bytes} {x : NumberText}
    (h : read atEnd s = .ok (x, t)) : t.length < s.length := by
  simp only [read] at h
  split at h
  · cases h
  · next hw =>
    split at h
    · cases h
    · next hf =>
      split at h
      · cases h
      · next hp =>
        cases h
        have := readWhole_length hw
        have := readFraction_length hf
        have := readPower_length hp
        omega

end NumberText

def maxSignificand : Nat := Nat.pow 2 64 - 1

/-- Digits taken into a significand while it stays in range, and how many were taken. -/
def absorb (significand : Nat) : Bytes → Nat × Nat
  | [] => (significand, 0)
  | d :: ds =>
    let next := significand * 10 + digitValue d
    if next ≤ maxSignificand then
      let (result, taken) := absorb next ds
      (result, taken + 1)
    else (significand, 0)

def natOfDigits (ds : Bytes) : Nat := ds.foldl (fun n d => n * 10 + digitValue d) 0

def signed (negative : Bool) (n : Nat) : Int := if negative then -(n : Int) else n

namespace NumberText

/-- A whole number that fits 64 bits is an integer, except for minus zero. -/
def integer? (negative : Bool) (x : NumberText) : Option Int :=
  let (n, taken) := absorb 0 x.whole
  if x.fraction.isSome || x.power.isSome || taken < x.whole.length then none
  else if !negative then some n
  else if 0 < n ∧ n ≤ Nat.pow 2 63 then some (-(n : Int))
  else none

def double? (x : NumberText) : Option Double :=
  let (n, taken) := absorb 0 x.whole
  let (n, places) := absorb n (x.fraction.getD [])
  let power := match x.power with
    | none => 0
    | some (negative, ds) => signed negative (natOfDigits ds)
  Double.ofScientific? n ((x.whole.length - taken : Nat) - (places : Int) + power)

def value (negative : Bool) (x : NumberText) : Except Fault Number :=
  match x.integer? negative with
  | some n => .ok (.integer n)
  | none =>
    match x.double? with
    | some d => .ok (.double negative d)
    | none => .error .numberOutOfRange

end NumberText

def readUnsigned (negative : Bool) : Reader Number := fun s =>
  match NumberText.read (.ended .value) s with
  | .error f => .error f
  | .ok (x, rest) =>
    match x.value negative with
    | .error f => .error f
    | .ok n => .ok (n, rest)

def readNumber? : Bytes → Option (Except Fault (Number × Bytes))
  | [] => none
  | b :: s =>
    if ascii b = '-' then some (readUnsigned true s)
    else if isDigit b then some (readUnsigned false (b :: s))
    else none

theorem readUnsigned_length {negative : Bool} {s t : Bytes} {n : Number}
    (h : readUnsigned negative s = .ok (n, t)) : t.length < s.length := by
  simp only [readUnsigned] at h
  split at h
  · cases h
  · next hx =>
    split at h
    · cases h
    · cases h; exact NumberText.read_length hx

theorem readNumber?_length {s t : Bytes} {n : Number}
    (h : readNumber? s = some (.ok (n, t))) : t.length < s.length := by
  cases s with
  | nil => cases h
  | cons b s =>
    simp only [readNumber?] at h
    split at h
    · have := readUnsigned_length (Option.some.inj h); simp; omega
    · split at h
      · exact readUnsigned_length (Option.some.inj h)
      · cases h

end Feedforward.Json
