import Feedforward.Token.Basic
import Feedforward.Token.Failure

/-! Scanners for single tokens. Each reads a non-empty lexeme off the front of
a text or says what it expected; `Exact` is that a lexeme and what follows it
make up the text. -/
namespace Feedforward

structure Scanned (α : Type) where
  value : α
  lexeme : List Char
  rest : List Char
deriving Repr

theorem mapError_eq_ok {ε δ α : Type} {x : Except ε α} {f : ε → δ} {a : α} :
    x.mapError f = .ok a ↔ x = .ok a := by
  cases x with
  | error e => exact iff_of_false nofun nofun
  | ok b =>
    change Except.ok b = Except.ok a ↔ _
    rw [Except.ok.injEq, Except.ok.injEq]

abbrev Scanner (α : Type) := List Char → Except Trail (Scanned α)

namespace Scanner

def fail {α : Type} (e : Expectation) : Except Trail (Scanned α) := .error [⟨0, e⟩]

def noting {α : Type} (e : Expectation) (p : Scanner α) : Scanner α := fun s =>
  (p s).mapError (· ++ [⟨0, e⟩])

def context {α : Type} (name : String) (p : Scanner α) : Scanner α := p.noting (.context name)

def map {α β : Type} (f : α → β) (p : Scanner α) : Scanner β := fun s =>
  (p s).map fun r => ⟨f r.value, r.lexeme, r.rest⟩

/-- The first scanner that succeeds; the failures are those of the last. -/
def orElse {α : Type} (p q : Scanner α) : Scanner α := fun s =>
  match p s with
  | .ok r => .ok r
  | .error _ => q s

def Exact {α : Type} (p : Scanner α) : Prop :=
  ∀ s r, p s = .ok r → r.lexeme ≠ [] ∧ r.lexeme ++ r.rest = s

theorem Exact.noting {α : Type} {p : Scanner α} (hp : p.Exact) (e : Expectation) :
    (p.noting e).Exact := by
  intro s r h
  exact hp s r (mapError_eq_ok.mp h)

theorem Exact.context {α : Type} {p : Scanner α} (hp : p.Exact) (name : String) :
    (p.context name).Exact := hp.noting _

theorem Exact.map {α β : Type} {p : Scanner α} (hp : p.Exact) (f : α → β) : (p.map f).Exact := by
  intro s r h
  simp only [Scanner.map] at h
  cases hs : p s with
  | error t => simp [hs, Except.map] at h
  | ok a =>
    simp only [hs, Except.map, Except.ok.injEq] at h
    exact h ▸ hp s a hs

theorem Exact.orElse {α : Type} {p q : Scanner α} (hp : p.Exact) (hq : q.Exact) :
    (p.orElse q).Exact := by
  intro s r h
  simp only [Scanner.orElse] at h
  split at h
  · next a hs => cases h; exact hp s _ hs
  · exact hq s r h

end Scanner

namespace Token
open Scanner

def isWordStart (c : Char) : Bool := c.isAlpha || c == '_'

def isWordPart (c : Char) : Bool := c.isAlphanum || c == '_'

def isBlank (c : Char) : Bool := c == ' ' || c == '\t'

def isLineEnd (c : Char) : Bool := c == '\r' || c == '\n'

/-- A longest run of a class of characters. The first may have to be of a class
of its own. -/
def longestRun {α : Type} (first part : Char → Bool) (value : String → α) : Scanner α := fun s =>
  match s with
  | [] => fail .run
  | c :: t =>
    if first c then
      let text := c :: t.takeWhile part
      .ok ⟨value (String.ofList text), text, t.dropWhile part⟩
    else fail .run

def word : Scanner String := context "word" <| longestRun isWordStart isWordPart id

def scanKeyword : Scanner Token := context "keyword" fun s =>
  match word s with
  | .error trail => .error trail
  | .ok r =>
    match Keyword.ofString? r.value with
    | none => fail .conversion
    | some k => .ok ⟨.keyword k, r.lexeme, r.rest⟩

def scanIdentifier : Scanner Token := word.map .identifier

def scanBlanks : Scanner Token :=
  context "whitespace expected" <| longestRun isBlank isBlank .blanks

def scanNewline : Scanner Token := context "newline expected" <| noting .alternative fun s =>
  match s with
  | '\r' :: '\n' :: t => .ok ⟨.newline, ['\r', '\n'], t⟩
  | '\n' :: t => .ok ⟨.newline, ['\n'], t⟩
  | _ => fail .tag

def atLineEnd : List Char → Bool
  | [] => true
  | '\n' :: _ => true
  | '\r' :: '\n' :: _ => true
  | _ => false

/-- The rest of a line after a comment marker. The first line-end character
must end the line, so that a lone carriage return spoils the comment. -/
def commentToLineEnd (style : CommentStyle) (marker body : List Char) :
    Except Trail (Scanned Token) :=
  let text := body.takeWhile (!isLineEnd ·)
  let rest := body.dropWhile (!isLineEnd ·)
  if atLineEnd rest then
    .ok ⟨.comment style (String.ofList (Text.trim text)), marker ++ text, rest⟩
  else .error [⟨marker.length, .tag⟩]

def scanLineComment : Scanner Token := context "line comment" fun s =>
  match s with
  | '/' :: '/' :: body => commentToLineEnd .line ['/', '/'] body
  | _ => fail .tag

def scanHashComment : Scanner Token := context "hash comment" fun s =>
  match s with
  | '#' :: body => commentToLineEnd .hash ['#'] body
  | _ => fail .tag

/-- A text split at its first `*/`, which is in neither part. -/
def splitAtClosing? : List Char → Option (List Char × List Char)
  | [] => none
  | '*' :: '/' :: rest => some ([], rest)
  | c :: s => (splitAtClosing? s).map fun (body, rest) => (c :: body, rest)

def scanBlockComment : Scanner Token := context "block comment" fun s =>
  match s with
  | '/' :: '*' :: t =>
    match splitAtClosing? t with
    | none => .error [⟨2, .closing⟩]
    | some (body, rest) =>
      .ok ⟨.comment .block (String.ofList (Text.trim body)),
        '/' :: '*' :: (body ++ ['*', '/']), rest⟩
  | _ => fail .tag

def scanComment : Scanner Token := context "comment" <| noting .alternative <|
  scanBlockComment.orElse <| scanLineComment.orElse scanHashComment

def isStringPart (c : Char) : Bool := c != '"' && !isLineEnd c

/-- Text in double quotes on one line; nothing in it is an escape. -/
def scanString : Scanner Literal := context "string literal" fun s =>
  match s with
  | '"' :: t =>
    let text := t.takeWhile isStringPart
    match t.dropWhile isStringPart with
    | '"' :: rest => .ok ⟨.string (String.ofList text), '"' :: (text ++ ['"']), rest⟩
    | _ => .error [⟨1 + Text.byteLength text, .char '"'⟩]
  | _ => fail (.char '"')

def integerAfter (sign : List Char) (value : Nat → Int) (s : List Char) :
    Except Trail (Scanned Literal) :=
  let digits := s.takeWhile Char.isDigit
  let number := value (Nat.ofDigitChars 10 digits 0)
  if digits = [] then .error [⟨sign.length, .digits⟩]
  else if Literal.InRange number then
    .ok ⟨.integer number, sign ++ digits, s.dropWhile Char.isDigit⟩
  else fail .conversion

def scanInteger : Scanner Literal := context "integer literal" fun s =>
  match s with
  | '-' :: t => integerAfter ['-'] (fun n => -(n : Int)) t
  | _ => integerAfter [] (fun n => (n : Int)) s

def scanLiteral : Scanner Token := context "literal" <| map .literal <| noting .alternative <|
  scanString.orElse scanInteger

def scanDelimiter : Scanner Token := context "delimiter" <| noting .alternative fun s =>
  match s with
  | [] => fail (.char Delimiter.equal.char)
  | c :: t =>
    match Delimiter.ofChar? c with
    | none => fail (.char Delimiter.equal.char)
    | some d => .ok ⟨.delimiter d, [c], t⟩

/-- The next token. Keywords come before identifiers; no other two
alternatives can read the same text. -/
def scan : Scanner Token := noting .alternative <|
  scanBlanks.orElse <| scanNewline.orElse <| scanComment.orElse <| scanLiteral.orElse <|
    scanKeyword.orElse <| scanIdentifier.orElse scanDelimiter

theorem longestRun_exact {α : Type} (first part : Char → Bool) (value : String → α) :
    (longestRun first part value).Exact := by
  intro s r h
  match s, h with
  | c :: t, h =>
    dsimp only [longestRun] at h
    split at h
    · cases h; simp [List.takeWhile_append_dropWhile]
    · cases h

theorem word_exact : word.Exact := (longestRun_exact _ _ _).context _

theorem scanKeyword_exact : scanKeyword.Exact := by
  apply Exact.context
  intro s r h
  dsimp only at h
  split at h
  · cases h
  · next a ha =>
    split at h
    · cases h
    · cases h; exact word_exact s a ha

theorem scanIdentifier_exact : scanIdentifier.Exact := word_exact.map _

theorem scanBlanks_exact : scanBlanks.Exact := (longestRun_exact _ _ _).context _

theorem scanNewline_exact : scanNewline.Exact := by
  apply Exact.context
  apply Exact.noting
  intro s r h
  dsimp only at h
  split at h
  · cases h; simp
  · cases h; simp
  · cases h

theorem commentToLineEnd_exact {style : CommentStyle} {marker body : List Char}
    {r : Scanned Token} (hm : marker ≠ []) (h : commentToLineEnd style marker body = .ok r) :
    r.lexeme ≠ [] ∧ r.lexeme ++ r.rest = marker ++ body := by
  simp only [commentToLineEnd] at h
  split at h
  · cases h; simp [hm, List.takeWhile_append_dropWhile]
  · cases h

theorem scanLineComment_exact : scanLineComment.Exact := by
  apply Exact.context
  intro s r h
  dsimp only at h
  split at h
  · simpa using commentToLineEnd_exact (by simp) h
  · cases h

theorem scanHashComment_exact : scanHashComment.Exact := by
  apply Exact.context
  intro s r h
  dsimp only at h
  split at h
  · simpa using commentToLineEnd_exact (by simp) h
  · cases h

theorem splitAtClosing?_eq {s body rest : List Char} (h : splitAtClosing? s = some (body, rest)) :
    s = body ++ '*' :: '/' :: rest := by
  fun_induction splitAtClosing? s generalizing body with
  | case1 => cases h
  | case2 => cases h; rfl
  | case3 c s _ ih =>
    obtain ⟨⟨b, t⟩, hb, he⟩ := Option.map_eq_some_iff.mp h
    cases he
    simp [ih hb]

theorem scanBlockComment_exact : scanBlockComment.Exact := by
  apply Exact.context
  intro s r h
  dsimp only at h
  split at h
  · next t =>
    split at h
    · cases h
    · next body rest hs =>
      cases h
      simp [splitAtClosing?_eq hs]
  · cases h

theorem scanComment_exact : scanComment.Exact :=
  ((scanBlockComment_exact.orElse
    (scanLineComment_exact.orElse scanHashComment_exact)).noting _).context _

theorem scanString_exact : scanString.Exact := by
  apply Exact.context
  intro s r h
  dsimp only at h
  split at h
  · next t =>
    split at h
    · next rest hd =>
      cases h
      have ht := List.takeWhile_append_dropWhile (p := isStringPart) (l := t)
      rw [hd] at ht
      simp [ht]
    · cases h
  · cases h

theorem integerAfter_exact {sign : List Char} {value : Nat → Int} {s : List Char}
    {r : Scanned Literal} (h : integerAfter sign value s = .ok r) :
    r.lexeme ≠ [] ∧ r.lexeme ++ r.rest = sign ++ s := by
  simp only [integerAfter] at h
  split at h
  · cases h
  · next hd =>
    split at h
    · cases h; simp [hd, List.takeWhile_append_dropWhile]
    · cases h

theorem scanInteger_exact : scanInteger.Exact := by
  apply Exact.context
  intro s r h
  dsimp only at h
  split at h
  · simpa using integerAfter_exact h
  · simpa using integerAfter_exact h

theorem scanLiteral_exact : scanLiteral.Exact :=
  (((scanString_exact.orElse scanInteger_exact).noting _).map _).context _

theorem scanDelimiter_exact : scanDelimiter.Exact := by
  apply Exact.context
  apply Exact.noting
  intro s r h
  match s, h with
  | c :: t, h =>
    dsimp only at h
    split at h
    · cases h
    · cases h; simp

theorem scan_exact : scan.Exact :=
  (scanBlanks_exact.orElse <| scanNewline_exact.orElse <| scanComment_exact.orElse <|
    scanLiteral_exact.orElse <| scanKeyword_exact.orElse <|
      scanIdentifier_exact.orElse scanDelimiter_exact).noting _

theorem scan_rest_length {s : List Char} {r : Scanned Token} (h : scan s = .ok r) :
    r.rest.length < s.length := by
  obtain ⟨hne, hs⟩ := scan_exact s r h
  rw [← hs, List.length_append]
  have := List.length_pos_iff.mpr hne
  omega

end Token
end Feedforward
