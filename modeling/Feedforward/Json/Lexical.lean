import Feedforward.Json.Fault
import Feedforward.Text.Basic

/-! The pieces of a JSON text: blanks, the words `null`, `true` and `false`,
and strings. A text is a list of bytes, of which only the content of a string
has to be UTF-8. -/
namespace Feedforward.Json

abbrev Bytes := List UInt8

/-- A byte as the character of its code. The grammar names none from 128 on. -/
def ascii (b : UInt8) : Char := Char.ofUInt8 b

abbrev Reader (α : Type) := Bytes → Except Fault (α × Bytes)

def isBlank (b : UInt8) : Bool :=
  ascii b == ' ' || ascii b == '\t' || ascii b == '\n' || ascii b == '\r'

def dropBlanks (s : Bytes) : Bytes := s.dropWhile isBlank

theorem dropBlanks_length (s : Bytes) : (dropBlanks s).length ≤ s.length :=
  (List.dropWhile_suffix _).length_le

def isDigit (b : UInt8) : Bool := (ascii b).isDigit

/-- The rest of a word whose first letter was read. -/
def readWord : List Char → Bytes → Except Fault Bytes
  | [], s => .ok s
  | _ :: _, [] => .error (.ended .value)
  | c :: cs, b :: s => if ascii b = c then readWord cs s else .error .expectedWord

theorem readWord_length {word : List Char} {s t : Bytes} (h : readWord word s = .ok t) :
    t.length ≤ s.length := by
  induction word generalizing s with
  | nil => cases h; exact Nat.le_refl _
  | cons c cs ih =>
    cases s with
    | nil => cases h
    | cons b s =>
      simp only [readWord] at h
      split at h
      · exact Nat.le_succ_of_le (ih h)
      · cases h

def hexValue? (b : UInt8) : Option Nat :=
  let c := ascii b
  if '0' ≤ c ∧ c ≤ '9' then some (c.toNat - '0'.toNat)
  else if 'a' ≤ c ∧ c ≤ 'f' then some (c.toNat - 'a'.toNat + 10)
  else if 'A' ≤ c ∧ c ≤ 'F' then some (c.toNat - 'A'.toNat + 10)
  else none

def readHex : Reader Nat
  | a :: b :: c :: d :: s =>
    match hexValue? a, hexValue? b, hexValue? c, hexValue? d with
    | some a, some b, some c, some d => .ok (((a * 16 + b) * 16 + c) * 16 + d, s)
    | _, _, _, _ => .error .invalidEscape
  | _ => .error (.ended .string)

theorem readHex_length {s t : Bytes} {n : Nat} (h : readHex s = .ok (n, t)) :
    t.length < s.length := by
  unfold readHex at h
  split at h
  · split at h
    · cases h; simp; omega
    · cases h
  · cases h

def isLeading (n : Nat) : Bool := 0xD800 ≤ n && n ≤ 0xDBFF

def isTrailing (n : Nat) : Bool := 0xDC00 ≤ n && n ≤ 0xDFFF

def readInPair (c : Char) : Bytes → Except Fault Bytes
  | [] => .error (.ended .string)
  | b :: s => if ascii b = c then .ok s else .error .unfinishedSurrogate

theorem readInPair_length {c : Char} {s t : Bytes} (h : readInPair c s = .ok t) :
    t.length < s.length := by
  cases s with
  | nil => cases h
  | cons b s =>
    simp only [readInPair] at h
    split at h
    · cases h; simp
    · cases h

/-- The second half of a surrogate pair, and the character of the pair. -/
def readPair (leading : Nat) : Reader Char := fun s =>
  match readInPair '\\' s with
  | .error f => .error f
  | .ok s =>
    match readInPair 'u' s with
    | .error f => .error f
    | .ok s =>
      match readHex s with
      | .error f => .error f
      | .ok (n, s) =>
        if isTrailing n then
          .ok (Char.ofNat ((leading - 0xD800) * 0x400 + (n - 0xDC00) + 0x10000), s)
        else .error .loneSurrogate

theorem readPair_length {leading : Nat} {s t : Bytes} {c : Char}
    (h : readPair leading s = .ok (c, t)) : t.length < s.length := by
  simp only [readPair] at h
  split at h
  · cases h
  · next h₁ =>
    split at h
    · cases h
    · next h₂ =>
      split at h
      · cases h
      · next h₃ =>
        split at h
        · simp only [Except.ok.injEq, Prod.mk.injEq] at h
          obtain ⟨-, rfl⟩ := h
          have := readInPair_length h₁
          have := readInPair_length h₂
          have := readHex_length h₃
          omega
        · cases h

def readCodePoint : Reader Char := fun s =>
  match readHex s with
  | .error f => .error f
  | .ok (n, s) =>
    if isTrailing n then .error .loneSurrogate
    else if isLeading n then readPair n s
    else .ok (Char.ofNat n, s)

theorem readCodePoint_length {s t : Bytes} {c : Char} (h : readCodePoint s = .ok (c, t)) :
    t.length < s.length := by
  simp only [readCodePoint] at h
  split at h
  · cases h
  · next h₁ =>
    have := readHex_length h₁
    split at h
    · cases h
    · split at h
      · have := readPair_length h; omega
      · cases h; assumption

def simpleEscape? (b : UInt8) : Option Char :=
  match ascii b with
  | '"' => some '"'
  | '\\' => some '\\'
  | '/' => some '/'
  | 'b' => some '\x08'
  | 'f' => some '\x0c'
  | 'n' => some '\n'
  | 'r' => some '\r'
  | 't' => some '\t'
  | _ => none

def readEscape : Reader Char
  | [] => .error (.ended .string)
  | b :: s =>
    if ascii b = 'u' then readCodePoint s
    else match simpleEscape? b with
      | some c => .ok (c, s)
      | none => .error .invalidEscape

theorem readEscape_length {s t : Bytes} {c : Char} (h : readEscape s = .ok (c, t)) :
    t.length < s.length := by
  cases s with
  | nil => cases h
  | cons b s =>
    simp only [readEscape] at h
    split at h
    · have := readCodePoint_length h; simp; omega
    · split at h
      · cases h; simp
      · cases h

/-- The content of a string whose opening quote was read, in bytes. -/
def readContent (s : Bytes) : Except Fault (Bytes × Bytes) :=
  match s with
  | [] => .error (.ended .string)
  | b :: s =>
    if ascii b = '"' then .ok ([], s)
    else if ascii b = '\\' then
      match _h : readEscape s with
      | .error f => .error f
      | .ok (c, t) =>
        match readContent t with
        | .error f => .error f
        | .ok (content, rest) => .ok (String.utf8EncodeChar c ++ content, rest)
    else if b < 0x20 then .error .controlCharacter
    else
      match readContent s with
      | .error f => .error f
      | .ok (content, rest) => .ok (b :: content, rest)
termination_by s.length
decreasing_by
  · have := readEscape_length _h; simp; omega
  · simp

theorem readContent_length {s content t : Bytes} (h : readContent s = .ok (content, t)) :
    t.length < s.length := by
  fun_induction readContent s generalizing content with
  | case1 => cases h
  | case2 => cases h; simp
  | case3 => cases h
  | case4 => cases h
  | case5 _ _ _ _ _ _ he _ _ hc ih =>
    cases h
    have := readEscape_length he
    have := ih hc
    simp; omega
  | case6 => cases h
  | case7 => cases h
  | case8 _ _ _ _ _ _ _ hc ih =>
    cases h
    have := ih hc
    simp; omega

/-- A string whose opening quote was read. Its content must be UTF-8. -/
def readString : Reader String := fun s =>
  match readContent s with
  | .error f => .error f
  | .ok (content, rest) =>
    match Text.decode? content with
    | none => .error .invalidCodePoint
    | some text => .ok (text, rest)

theorem readString_length {s t : Bytes} {text : String} (h : readString s = .ok (text, t)) :
    t.length < s.length := by
  simp only [readString] at h
  split at h
  · cases h
  · next hc =>
    split at h
    · cases h
    · cases h; exact readContent_length hc

def readColon (s : Bytes) : Except Fault Bytes :=
  match dropBlanks s with
  | [] => .error (.ended .object)
  | b :: s => if ascii b = ':' then .ok s else .error .expectedColon

theorem readColon_length {s t : Bytes} (h : readColon s = .ok t) : t.length < s.length := by
  simp only [readColon] at h
  split at h
  · cases h
  · next hs =>
    have := dropBlanks_length s
    split at h
    · cases h; rw [hs] at this; exact this
    · cases h

end Feedforward.Json
