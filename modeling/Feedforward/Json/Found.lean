import Feedforward.Json.Number

/-! What a text holds in place of a value of another type. A simple value is
read in full first, so that a fault inside it is the one reported. -/
namespace Feedforward.Json

def readFound (s : Bytes) : Except Fault Found :=
  match s with
  | [] => .error (.ended .value)
  | b :: t =>
    match ascii b with
    | 'n' => (readWord ['u', 'l', 'l'] t).map fun _ => .null
    | 't' => (readWord ['r', 'u', 'e'] t).map fun _ => .boolean true
    | 'f' => (readWord ['a', 'l', 's', 'e'] t).map fun _ => .boolean false
    | '"' => (readString t).map fun r => .string r.1
    | '[' => .ok .sequence
    | '{' => .ok .map
    | _ =>
      match readNumber? s with
      | some r => r.map fun r => .number r.1
      | none => .error .expectedValue

def mismatch (expected : String) (s : Bytes) : Fault :=
  match readFound s with
  | .error f => f
  | .ok found => .wrongType found expected

def readText (expected : String) : Reader String := fun s =>
  match dropBlanks s with
  | [] => .error (mismatch expected [])
  | b :: t => if ascii b = '"' then readString t else .error (mismatch expected (b :: t))

def readNull (expected : String) (s : Bytes) : Except Fault Bytes :=
  match dropBlanks s with
  | [] => .error (mismatch expected [])
  | b :: t =>
    if ascii b = 'n' then readWord ['u', 'l', 'l'] t else .error (mismatch expected (b :: t))

def readPositive (expected : String) : Reader Nat := fun s =>
  match readNumber? (dropBlanks s) with
  | none => .error (mismatch expected (dropBlanks s))
  | some (.error f) => .error f
  | some (.ok (.integer n, t)) =>
    if 0 < n then .ok (n.toNat, t) else .error (.wrongValue (.number (.integer n)) expected)
  | some (.ok (x, _)) => .error (.wrongType (.number x) expected)

theorem readText_length {expected : String} {s t : Bytes} {text : String}
    (h : readText expected s = .ok (text, t)) : t.length < s.length := by
  simp only [readText] at h
  split at h
  · cases h
  · next hs =>
    have hd := dropBlanks_length s
    rw [hs] at hd
    simp only [List.length_cons] at hd
    split at h
    · have := readString_length h; omega
    · cases h

theorem readNull_length {expected : String} {s t : Bytes} (h : readNull expected s = .ok t) :
    t.length < s.length := by
  simp only [readNull] at h
  split at h
  · cases h
  · next hs =>
    have hd := dropBlanks_length s
    rw [hs] at hd
    simp only [List.length_cons] at hd
    split at h
    · have := readWord_length h; omega
    · cases h

theorem readPositive_length {expected : String} {s t : Bytes} {n : Nat}
    (h : readPositive expected s = .ok (n, t)) : t.length < s.length := by
  simp only [readPositive] at h
  split at h
  · cases h
  · cases h
  · next hn =>
    have := readNumber?_length hn
    have := dropBlanks_length s
    split at h
    · cases h; omega
    · cases h
  · cases h

theorem readPositive_pos {expected : String} {s t : Bytes} {n : Nat}
    (h : readPositive expected s = .ok (n, t)) : 0 < n := by
  simp only [readPositive] at h
  split at h
  · cases h
  · cases h
  · split at h
    · next hpos => cases h; omega
    · cases h
  · cases h

end Feedforward.Json
