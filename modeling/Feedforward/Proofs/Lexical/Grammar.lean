import Feedforward.Model.Name

/-! The lexical grammar, said without scanners: `Token.Reads` relates a token to
its lexeme and to the text after it. -/
namespace Feedforward.Text

/-- The text does not go on with a character of the class. -/
def Stops (p : Char → Bool) (s : List Char) : Prop := ∀ c ∈ s.head?, p c = false

@[simp] theorem stops_nil (p : Char → Bool) : Stops p [] := by
  intro c hc
  cases hc

@[simp] theorem stops_cons (p : Char → Bool) (c : Char) (s : List Char) :
    Stops p (c :: s) ↔ p c = false := by
  simp [Stops]

theorem stops_dropWhile (p : Char → Bool) (s : List Char) : Stops p (s.dropWhile p) := by
  intro c hc
  have h := List.head?_dropWhile_not p s
  rw [hc] at h
  exact h

theorem Stops.of_initial {p : Char → Bool} {s t : List Char} (h : Stops p s) (ht : t <+: s) :
    Stops p t := by
  obtain ⟨u, rfl⟩ := ht
  cases t with
  | nil => exact stops_nil p
  | cons c t => simpa using h

theorem Stops.append {p : Char → Bool} {s : List Char} (h : Stops p s) (hne : s ≠ [])
    (t : List Char) : Stops p (s ++ t) := by
  cases s with
  | nil => exact absurd rfl hne
  | cons c s => simpa using h

/-- A longest run of a class of characters at the front of a text. -/
structure Run (p : Char → Bool) (run rest : List Char) : Prop where
  all : ∀ c ∈ run, p c = true
  stops : Stops p rest

theorem run_takeWhile (p : Char → Bool) (s : List Char) :
    Run p (s.takeWhile p) (s.dropWhile p) where
  all := List.all_eq_true.mp List.all_takeWhile
  stops := stops_dropWhile p s

namespace Run
variable {p : Char → Bool} {run rest : List Char}

theorem takeWhile_eq (h : Run p run rest) : (run ++ rest).takeWhile p = run := by
  rw [List.takeWhile_append_of_pos h.all]
  cases rest with
  | nil => simp
  | cons c t =>
    have hc := (stops_cons p c t).mp h.stops
    simp [hc]

theorem dropWhile_eq (h : Run p run rest) : (run ++ rest).dropWhile p = rest := by
  rw [List.dropWhile_append_of_pos h.all]
  cases rest with
  | nil => simp
  | cons c t =>
    have hc := (stops_cons p c t).mp h.stops
    simp [hc]

theorem tail {c : Char} (h : Run p (c :: run) rest) : Run p run rest :=
  ⟨fun x hx => h.all x (List.mem_cons_of_mem c hx), h.stops⟩

end Run

theorem isDigit_repr (n : Nat) : ∀ c ∈ n.repr.toList, c.isDigit = true := by
  rw [Nat.toList_repr]
  exact fun c hc => Nat.isDigit_of_mem_toDigits (by decide) (by decide) hc

theorem repr_toList_ne_nil (n : Nat) : n.repr.toList ≠ [] := by
  rw [Nat.toList_repr]
  exact Nat.toDigits_ne_nil

theorem ofDigitChars_repr (n : Nat) : Nat.ofDigitChars 10 n.repr.toList 0 = n := by
  rw [Nat.toList_repr, Nat.ofDigitChars_ten_toDigits]

end Feedforward.Text

namespace Feedforward.Token
open Text (Run Stops)

/-- A token, the lexeme that it stands for, and the text after the lexeme. Runs
of blanks, digits and letters are as long as they can be, a block comment ends
at the first `*/`, and the text after `//` or `#` ends with its line. -/
inductive Reads : Token → List Char → List Char → Prop where
  | blanks {text rest : List Char} : text ≠ [] → Run isBlank text rest →
      Reads (.blanks (String.ofList text)) text rest
  | lineFeed {rest : List Char} : Reads .newline ['\n'] rest
  | returnAndLineFeed {rest : List Char} : Reads .newline ['\r', '\n'] rest
  | blockComment {body rest : List Char} : ¬ ['*', '/'] <:+: body ++ ['*'] →
      Reads (.comment .block (String.ofList (Text.trim body)))
        ('/' :: '*' :: (body ++ ['*', '/'])) rest
  | lineComment {body rest : List Char} : Run (!isLineEnd ·) body rest → atLineEnd rest →
      Reads (.comment .line (String.ofList (Text.trim body))) ('/' :: '/' :: body) rest
  | hashComment {body rest : List Char} : Run (!isLineEnd ·) body rest → atLineEnd rest →
      Reads (.comment .hash (String.ofList (Text.trim body))) ('#' :: body) rest
  | string {content rest : List Char} : (∀ c ∈ content, isStringPart c = true) →
      Reads (.literal (.string (String.ofList content))) ('"' :: (content ++ ['"'])) rest
  | natural {digits rest : List Char} : digits ≠ [] → Run Char.isDigit digits rest →
      Literal.InRange (Nat.ofDigitChars 10 digits 0) →
      Reads (.literal (.integer (Nat.ofDigitChars 10 digits 0))) digits rest
  | negative {digits rest : List Char} : digits ≠ [] → Run Char.isDigit digits rest →
      Literal.InRange (-(Nat.ofDigitChars 10 digits 0 : Int)) →
      Reads (.literal (.integer (-(Nat.ofDigitChars 10 digits 0 : Int)))) ('-' :: digits) rest
  | keyword {k : Keyword} {rest : List Char} : Stops isWordPart rest →
      Reads (.keyword k) k.spelling.toList rest
  | identifier {word rest : List Char} : Name.isWord word = true → Stops isWordPart rest →
      Keyword.ofString? (String.ofList word) = none →
      Reads (.identifier (String.ofList word)) word rest
  | delimiter {d : Delimiter} {rest : List Char} : Reads (.delimiter d) [d.char] rest

end Feedforward.Token
