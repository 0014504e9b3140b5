import Feedforward.Proofs.Lexical.Soundness

/-! What the lexical grammar has is read: no two classes of first characters
meet, so the scanners before the right one fail. With soundness, a scan
succeeds exactly where the grammar has a token. -/
namespace Feedforward.Scanner
variable {α β : Type} {p q : Scanner α}

/-- Whatever the scanner reads starts with a character of the class. -/
def Starts (p : Scanner α) (first : Char → Bool) : Prop :=
  ∀ s r, p s = .ok r → ∃ c t, s = c :: t ∧ first c = true

theorem Starts.fails {first : Char → Bool} (h : p.Starts first) {c : Char} {t : List Char}
    (hc : first c = false) : p.Fails (c :: t) := by
  apply fails_of_not_ok
  intro r hr
  obtain ⟨d, u, hs, hd⟩ := h _ r hr
  cases hs
  rw [hc] at hd
  cases hd

theorem Starts.orElse {first second : Char → Bool} (hp : p.Starts first) (hq : q.Starts second) :
    (p.orElse q).Starts (fun c => first c || second c) := by
  intro s r h
  rcases orElse_eq_ok.mp h with h | ⟨-, h⟩
  · obtain ⟨c, t, hs, hc⟩ := hp s r h
    exact ⟨c, t, hs, by simp [hc]⟩
  · obtain ⟨c, t, hs, hc⟩ := hq s r h
    exact ⟨c, t, hs, by simp [hc]⟩

theorem Starts.noting {first : Char → Bool} (hp : p.Starts first) (e : Expectation) :
    (p.noting e).Starts first := fun s r h => hp s r (noting_eq_ok.mp h)

theorem Starts.context {first : Char → Bool} (hp : p.Starts first) (name : String) :
    (p.context name).Starts first := hp.noting _

theorem Starts.map {first : Char → Bool} (hp : p.Starts first) (f : α → β) :
    (p.map f).Starts first := by
  intro s r h
  obtain ⟨a, ha, -⟩ := map_eq_ok.mp h
  exact hp s a ha

end Feedforward.Scanner

namespace Feedforward.Token
open Text (Run Stops)

variable {s : List Char}

theorem word_starts : word.Starts isWordStart := by
  intro s r h
  obtain ⟨hs, hw, -, -⟩ := word_eq_ok.mp h
  cases hl : r.lexeme with
  | nil => simp [hl, Name.isWord] at hw
  | cons c t =>
    simp only [hl, Name.isWord, Bool.and_eq_true] at hw
    exact ⟨c, t ++ r.rest, by rw [hs, hl]; rfl, hw.1⟩

theorem isWord_spelling (k : Keyword) : Name.isWord k.spelling.toList = true := by
  cases k <;> decide

theorem scanKeyword_starts : scanKeyword.Starts isWordStart := by
  intro s r h
  obtain ⟨a, -, ha, -, -⟩ := scanKeyword_eq_ok.mp h
  exact word_starts s a ha

theorem scanIdentifier_starts : scanIdentifier.Starts isWordStart := word_starts.map _

theorem scanBlanks_starts : scanBlanks.Starts isBlank := by
  apply Scanner.Starts.context
  intro s r h
  obtain ⟨c, run, rest, hs, hc, -, -⟩ := longestRun_eq_ok.mp h
  exact ⟨c, run ++ rest, hs, hc⟩

theorem scanNewline_starts : scanNewline.Starts isLineEnd := by
  apply Scanner.Starts.context
  apply Scanner.Starts.noting
  intro s r h
  dsimp only at h
  split at h
  · exact ⟨_, _, rfl, by decide⟩
  · exact ⟨_, _, rfl, by decide⟩
  · cases h

def isCommentStart (c : Char) : Bool := c == '/' || c == '#'

theorem scanBlockComment_starts : scanBlockComment.Starts (· == '/') := by
  apply Scanner.Starts.context
  intro s r h
  dsimp only at h
  split at h
  · exact ⟨_, _, rfl, by decide⟩
  · cases h

theorem scanLineComment_starts : scanLineComment.Starts (· == '/') := by
  apply Scanner.Starts.context
  intro s r h
  dsimp only at h
  split at h
  · exact ⟨_, _, rfl, by decide⟩
  · cases h

theorem scanHashComment_starts : scanHashComment.Starts (· == '#') := by
  apply Scanner.Starts.context
  intro s r h
  dsimp only at h
  split at h
  · exact ⟨_, _, rfl, by decide⟩
  · cases h

theorem scanComment_starts : scanComment.Starts isCommentStart := by
  have h := ((scanBlockComment_starts.orElse (scanLineComment_starts.orElse
    scanHashComment_starts)).noting .alternative).context "comment"
  intro s r hs
  obtain ⟨c, t, he, hc⟩ := h s r hs
  exact ⟨c, t, he, by simpa [isCommentStart] using hc⟩

def isLiteralStart (c : Char) : Bool := c == '"' || c == '-' || c.isDigit

theorem scanString_starts : scanString.Starts (· == '"') := by
  apply Scanner.Starts.context
  intro s r h
  dsimp only at h
  split at h
  · exact ⟨_, _, rfl, by decide⟩
  · cases h

theorem integerAfter_starts {sign : List Char} {value : Nat → Int} {r : Scanned Literal}
    (h : integerAfter sign value s = .ok r) : ∃ c t, s = c :: t ∧ c.isDigit = true := by
  obtain ⟨digits, rest, rfl, hd, hrun, -, -⟩ := integerAfter_eq_ok.mp h
  cases digits with
  | nil => contradiction
  | cons c t => exact ⟨c, t ++ rest, rfl, hrun.all c List.mem_cons_self⟩

theorem scanInteger_starts : scanInteger.Starts (fun c => c == '-' || c.isDigit) := by
  apply Scanner.Starts.context
  intro s r h
  dsimp only at h
  split at h
  · exact ⟨_, _, rfl, by decide⟩
  · obtain ⟨c, t, hs, hc⟩ := integerAfter_starts h
    exact ⟨c, t, hs, by simp [hc]⟩

theorem scanLiteral_starts : scanLiteral.Starts isLiteralStart := by
  have h := (((scanString_starts.orElse scanInteger_starts).noting .alternative).map
    Token.literal).context "literal"
  intro s r hs
  obtain ⟨c, t, he, hc⟩ := h s r hs
  exact ⟨c, t, he, by simpa [isLiteralStart, Bool.or_assoc] using hc⟩

theorem ne_of_class {p : Char → Bool} {c : Char} (h : p c = true) (d : Char)
    (hd : p d = false) : c ≠ d := by
  rintro rfl
  rw [h] at hd
  cases hd

theorem isLineEnd_disjoint {c : Char} (h : isLineEnd c = true) : isBlank c = false := by
  have hne := ne_of_class h
  simp [isBlank, hne ' ' (by decide), hne '\t' (by decide)]

theorem isCommentStart_disjoint {c : Char} (h : isCommentStart c = true) :
    isBlank c = false ∧ isLineEnd c = false := by
  have hne := ne_of_class h
  simp [isBlank, isLineEnd, hne ' ' (by decide), hne '\t' (by decide), hne '\r' (by decide),
    hne '\n' (by decide)]

theorem isLiteralStart_disjoint {c : Char} (h : isLiteralStart c = true) :
    isBlank c = false ∧ isLineEnd c = false ∧ isCommentStart c = false := by
  have hne := ne_of_class h
  simp [isBlank, isLineEnd, isCommentStart, hne ' ' (by decide), hne '\t' (by decide),
    hne '\r' (by decide), hne '\n' (by decide), hne '/' (by decide), hne '#' (by decide)]

theorem toNat_of_isAlpha {c : Char} (h : c.isAlpha = true) :
    65 ≤ c.toNat ∧ c.toNat ≤ 90 ∨ 97 ≤ c.toNat ∧ c.toNat ≤ 122 := by
  rcases (Bool.or_eq_true _ _).mp h with hupper | hlower
  · exact .inl (of_decide_eq_true hupper)
  · obtain ⟨hlow, hhigh⟩ := (Bool.and_eq_true _ _).mp hlower
    exact .inr ⟨of_decide_eq_true hlow, of_decide_eq_true hhigh⟩

theorem toNat_of_isDigit {c : Char} (h : c.isDigit = true) : 48 ≤ c.toNat ∧ c.toNat ≤ 57 := by
  obtain ⟨hlow, hhigh⟩ := (Bool.and_eq_true _ _).mp h
  exact ⟨of_decide_eq_true hlow, of_decide_eq_true hhigh⟩

theorem not_isDigit_of_isWordStart {c : Char} (h : isWordStart c = true) : c.isDigit = false := by
  rw [isWordStart, Bool.or_eq_true, beq_iff_eq] at h
  rcases h with h | rfl
  · rw [Bool.eq_false_iff]
    intro hd
    have halpha := toNat_of_isAlpha h
    have hdigit := toNat_of_isDigit hd
    omega
  · decide

theorem isWordStart_disjoint {c : Char} (h : isWordStart c = true) :
    isBlank c = false ∧ isLineEnd c = false ∧ isCommentStart c = false ∧
      isLiteralStart c = false := by
  have hne := ne_of_class h
  simp [isBlank, isLineEnd, isCommentStart, isLiteralStart, hne ' ' (by decide),
    hne '\t' (by decide), hne '\r' (by decide), hne '\n' (by decide), hne '/' (by decide),
    hne '#' (by decide), hne '"' (by decide), hne '-' (by decide), not_isDigit_of_isWordStart h]

theorem delimiter_disjoint (d : Delimiter) :
    isBlank d.char = false ∧ isLineEnd d.char = false ∧ isCommentStart d.char = false ∧
      isLiteralStart d.char = false ∧ isWordStart d.char = false := by
  cases d <;> decide

section FirstCharacter
variable {c : Char} {t : List Char} {r : Scanned Token}

theorem scan_of_newline (hc : isLineEnd c = true) (h : scanNewline (c :: t) = .ok r) :
    scan (c :: t) = .ok r :=
  scan_eq_ok.mpr (.inr ⟨scanBlanks_starts.fails (isLineEnd_disjoint hc), .inl h⟩)

theorem scan_of_comment (hc : isCommentStart c = true) (h : scanComment (c :: t) = .ok r) :
    scan (c :: t) = .ok r := by
  obtain ⟨hb, hn⟩ := isCommentStart_disjoint hc
  exact scan_eq_ok.mpr (.inr ⟨scanBlanks_starts.fails hb,
    .inr ⟨scanNewline_starts.fails hn, .inl h⟩⟩)

theorem scan_of_literal (hc : isLiteralStart c = true) (h : scanLiteral (c :: t) = .ok r) :
    scan (c :: t) = .ok r := by
  obtain ⟨hb, hn, hm⟩ := isLiteralStart_disjoint hc
  exact scan_eq_ok.mpr (.inr ⟨scanBlanks_starts.fails hb,
    .inr ⟨scanNewline_starts.fails hn, .inr ⟨scanComment_starts.fails hm, .inl h⟩⟩⟩)

theorem scan_of_word (hc : isWordStart c = true)
    (h : scanKeyword (c :: t) = .ok r ∨
      scanKeyword.Fails (c :: t) ∧ scanIdentifier (c :: t) = .ok r) :
    scan (c :: t) = .ok r := by
  obtain ⟨hb, hn, hm, hl⟩ := isWordStart_disjoint hc
  refine scan_eq_ok.mpr (.inr ⟨scanBlanks_starts.fails hb, .inr ⟨scanNewline_starts.fails hn,
    .inr ⟨scanComment_starts.fails hm, .inr ⟨scanLiteral_starts.fails hl, ?_⟩⟩⟩⟩)
  rcases h with h | ⟨hk, h⟩
  · exact .inl h
  · exact .inr ⟨hk, .inl h⟩

theorem scan_delimiter (d : Delimiter) (t : List Char) :
    scan (d.char :: t) = .ok ⟨.delimiter d, [d.char], t⟩ := by
  obtain ⟨hb, hn, hm, hl, hw⟩ := delimiter_disjoint d
  refine scan_eq_ok.mpr (.inr ⟨scanBlanks_starts.fails hb, .inr ⟨scanNewline_starts.fails hn,
    .inr ⟨scanComment_starts.fails hm, .inr ⟨scanLiteral_starts.fails hl,
      .inr ⟨scanKeyword_starts.fails hw, .inr ⟨scanIdentifier_starts.fails hw, ?_⟩⟩⟩⟩⟩⟩)
  exact scanDelimiter_eq_ok.mpr ⟨d, t, rfl, rfl⟩

theorem scan_fails_of_literal (hc : isLiteralStart c = true) (h : scanLiteral.Fails (c :: t)) :
    scan.Fails (c :: t) := by
  obtain ⟨hb, hn, hm⟩ := isLiteralStart_disjoint hc
  have hw : isWordStart c = false := by
    cases hw : isWordStart c with
    | false => rfl
    | true => rw [(isWordStart_disjoint hw).2.2.2] at hc; cases hc
  apply Scanner.fails_of_not_ok
  intro r hr
  rcases scan_eq_ok.mp hr with
    h' | ⟨-, h' | ⟨-, h' | ⟨-, h' | ⟨-, h' | ⟨-, h' | ⟨-, h'⟩⟩⟩⟩⟩⟩
  · exact Scanner.not_fails_of_ok h' (scanBlanks_starts.fails hb)
  · exact Scanner.not_fails_of_ok h' (scanNewline_starts.fails hn)
  · exact Scanner.not_fails_of_ok h' (scanComment_starts.fails hm)
  · exact Scanner.not_fails_of_ok h' h
  · exact Scanner.not_fails_of_ok h' (scanKeyword_starts.fails hw)
  · exact Scanner.not_fails_of_ok h' (scanIdentifier_starts.fails hw)
  · obtain ⟨d, u, hd, -⟩ := scanDelimiter_eq_ok.mp h'
    cases hd
    rw [(delimiter_disjoint d).2.2.2.1] at hc
    cases hc

end FirstCharacter

theorem splitAtClosing?_append {body rest : List Char} (h : ¬ ['*', '/'] <:+: body ++ ['*']) :
    splitAtClosing? (body ++ '*' :: '/' :: rest) = some (body, rest) := by
  induction body with
  | nil => rfl
  | cons c body ih =>
    rw [closing_infix_cons, not_or] at h
    have hne : ∀ t, c = '*' → body ++ '*' :: '/' :: rest = '/' :: t → False := by
      intro t hc ht
      apply h.1
      refine ⟨hc, ?_⟩
      cases body with
      | nil => simp at ht
      | cons d body => simpa using (List.cons.inj ht).1
    rw [List.cons_append, splitAtClosing?.eq_3 _ _ hne, ih h.2]
    rfl

namespace Reads
variable {rest : List Char}

theorem scan_blanks {text : List Char} (hne : text ≠ []) (hrun : Run isBlank text rest) :
    scan (text ++ rest) = .ok ⟨.blanks (String.ofList text), text, rest⟩ := by
  rw [scan_eq_ok]
  exact .inl (scanBlanks_eq_ok.mpr ⟨text, rest, rfl, hne, hrun, rfl⟩)

theorem scan_blockComment {body : List Char} (h : ¬ ['*', '/'] <:+: body ++ ['*']) :
    scan ('/' :: '*' :: (body ++ ['*', '/']) ++ rest) =
      .ok ⟨.comment .block (String.ofList (Text.trim body)),
        '/' :: '*' :: (body ++ ['*', '/']), rest⟩ := by
  apply scan_of_comment (by decide)
  unfold scanComment
  rw [Scanner.context_eq_ok, Scanner.noting_eq_ok, Scanner.orElse_eq_ok]
  left
  unfold scanBlockComment
  rw [Scanner.context_eq_ok]
  simp [splitAtClosing?_append h]

theorem scan_lineComment {body : List Char} (hrun : Run (!isLineEnd ·) body rest)
    (he : atLineEnd rest = true) :
    scan ('/' :: '/' :: body ++ rest) =
      .ok ⟨.comment .line (String.ofList (Text.trim body)), '/' :: '/' :: body, rest⟩ := by
  apply scan_of_comment (by decide)
  unfold scanComment
  rw [Scanner.context_eq_ok, Scanner.noting_eq_ok, Scanner.orElse_eq_ok, Scanner.orElse_eq_ok]
  refine .inr ⟨⟨_, rfl⟩, .inl ?_⟩
  unfold scanLineComment
  rw [Scanner.context_eq_ok]
  exact commentToLineEnd_eq_ok.mpr ⟨body, rest, rfl, hrun, he, rfl⟩

theorem scan_hashComment {body : List Char} (hrun : Run (!isLineEnd ·) body rest)
    (he : atLineEnd rest = true) :
    scan ('#' :: body ++ rest) =
      .ok ⟨.comment .hash (String.ofList (Text.trim body)), '#' :: body, rest⟩ := by
  apply scan_of_comment (by decide)
  unfold scanComment
  rw [Scanner.context_eq_ok, Scanner.noting_eq_ok, Scanner.orElse_eq_ok, Scanner.orElse_eq_ok]
  refine .inr ⟨⟨_, rfl⟩, .inr ⟨⟨_, rfl⟩, ?_⟩⟩
  unfold scanHashComment
  rw [Scanner.context_eq_ok]
  exact commentToLineEnd_eq_ok.mpr ⟨body, rest, rfl, hrun, he, rfl⟩

theorem scanLiteral_of_string {a : Scanned Literal} (h : scanString s = .ok a) :
    scanLiteral s = .ok ⟨.literal a.value, a.lexeme, a.rest⟩ := by
  unfold scanLiteral
  rw [Scanner.context_eq_ok, Scanner.map_eq_ok]
  refine ⟨a, ?_, rfl⟩
  rw [Scanner.noting_eq_ok, Scanner.orElse_eq_ok]
  exact .inl h

theorem scanLiteral_of_integer {a : Scanned Literal} (hs : scanString.Fails s)
    (h : scanInteger s = .ok a) :
    scanLiteral s = .ok ⟨.literal a.value, a.lexeme, a.rest⟩ := by
  unfold scanLiteral
  rw [Scanner.context_eq_ok, Scanner.map_eq_ok]
  refine ⟨a, ?_, rfl⟩
  rw [Scanner.noting_eq_ok, Scanner.orElse_eq_ok]
  exact .inr ⟨hs, h⟩

theorem scan_string {content : List Char} (h : ∀ c ∈ content, isStringPart c = true) :
    scan ('"' :: (content ++ ['"']) ++ rest) =
      .ok ⟨.literal (.string (String.ofList content)), '"' :: (content ++ ['"']), rest⟩ := by
  apply scan_of_literal (by decide)
  have hrun : Run isStringPart content ('"' :: rest) := ⟨h, by rw [Text.stops_cons]; decide⟩
  apply scanLiteral_of_string (a := ⟨.string (String.ofList content), _, _⟩)
  unfold scanString
  rw [Scanner.context_eq_ok]
  simp [hrun.takeWhile_eq, hrun.dropWhile_eq]

/-- A digit is not the minus sign, so its number is read without one. -/
theorem scanInteger_of_isDigit {c : Char} {t : List Char} {r : Scanned Literal}
    (hc : c.isDigit = true) :
    scanInteger (c :: t) = .ok r ↔ integerAfter [] (fun n => (n : Int)) (c :: t) = .ok r := by
  unfold scanInteger
  rw [Scanner.context_eq_ok]
  split
  · next h =>
    cases h
    exact absurd hc (by decide)
  · exact Iff.rfl

theorem isLiteralStart_of_isDigit {c : Char} (hc : c.isDigit = true) :
    isLiteralStart c = true := by
  simp [isLiteralStart, hc]

theorem scanString_fails_of_isDigit {c : Char} {t : List Char} (hc : c.isDigit = true) :
    scanString.Fails (c :: t) := by
  apply scanString_starts.fails
  simpa using ne_of_class hc '"' (by decide)

theorem scan_natural {digits : List Char} (hne : digits ≠ []) (hrun : Run Char.isDigit digits rest)
    (hr : Literal.InRange (Nat.ofDigitChars 10 digits 0)) :
    scan (digits ++ rest) =
      .ok ⟨.literal (.integer (Nat.ofDigitChars 10 digits 0)), digits, rest⟩ := by
  cases digits with
  | nil => contradiction
  | cons c t =>
    have hc := hrun.all c List.mem_cons_self
    rw [List.cons_append]
    apply scan_of_literal (isLiteralStart_of_isDigit hc)
    apply scanLiteral_of_integer (scanString_fails_of_isDigit hc)
      (a := ⟨.integer (Nat.ofDigitChars 10 (c :: t) 0), _, _⟩)
    rw [scanInteger_of_isDigit hc]
    exact integerAfter_eq_ok.mpr ⟨c :: t, rest, rfl, hne, hrun, hr, rfl⟩

theorem scan_negative {digits : List Char} (hne : digits ≠ [])
    (hrun : Run Char.isDigit digits rest)
    (hr : Literal.InRange (-(Nat.ofDigitChars 10 digits 0 : Int))) :
    scan ('-' :: digits ++ rest) =
      .ok ⟨.literal (.integer (-(Nat.ofDigitChars 10 digits 0 : Int))), '-' :: digits, rest⟩ := by
  apply scan_of_literal (by decide)
  apply scanLiteral_of_integer (scanString_starts.fails (by decide))
    (a := ⟨.integer (-(Nat.ofDigitChars 10 digits 0 : Int)), _, _⟩)
  unfold scanInteger
  rw [Scanner.context_eq_ok]
  exact integerAfter_eq_ok.mpr ⟨digits, rest, rfl, hne, hrun, hr, rfl⟩

theorem word_append {text : List Char} (hw : Name.isWord text = true)
    (hstop : Stops isWordPart rest) :
    word (text ++ rest) = .ok ⟨String.ofList text, text, rest⟩ :=
  word_eq_ok.mpr ⟨rfl, hw, hstop, rfl⟩

theorem exists_isWordStart {text : List Char} (hw : Name.isWord text = true) :
    ∃ c t, text = c :: t ∧ isWordStart c = true := by
  cases text with
  | nil => cases hw
  | cons c t =>
    rw [Name.isWord, Bool.and_eq_true] at hw
    exact ⟨c, t, rfl, hw.1⟩

theorem scan_keyword {k : Keyword} (hstop : Stops isWordPart rest) :
    scan (k.spelling.toList ++ rest) = .ok ⟨.keyword k, k.spelling.toList, rest⟩ := by
  have hword := word_append (isWord_spelling k) hstop
  have hkey : scanKeyword (k.spelling.toList ++ rest) =
      .ok ⟨.keyword k, k.spelling.toList, rest⟩ :=
    scanKeyword_eq_ok.mpr ⟨_, k, hword, by simp [Keyword.ofString?_spelling], rfl⟩
  obtain ⟨c, t, ht, hc⟩ := exists_isWordStart (isWord_spelling k)
  rw [ht] at hkey ⊢
  exact scan_of_word hc (.inl hkey)

theorem scan_identifier {text : List Char} (hw : Name.isWord text = true)
    (hstop : Stops isWordPart rest) (hk : Keyword.ofString? (String.ofList text) = none) :
    scan (text ++ rest) = .ok ⟨.identifier (String.ofList text), text, rest⟩ := by
  have hword := word_append hw hstop
  have hnot : scanKeyword.Fails (text ++ rest) := by
    apply Scanner.fails_of_not_ok
    intro r hr
    obtain ⟨a, k, ha, hof, -⟩ := scanKeyword_eq_ok.mp hr
    rw [hword] at ha
    cases ha
    rw [hk] at hof
    cases hof
  have hid : scanIdentifier (text ++ rest) =
      .ok ⟨.identifier (String.ofList text), text, rest⟩ :=
    Scanner.map_eq_ok.mpr ⟨_, hword, rfl⟩
  obtain ⟨c, t, rfl, hc⟩ := exists_isWordStart hw
  exact scan_of_word hc (.inr ⟨hnot, hid⟩)

theorem scan_append {t : Token} {lexeme : List Char} (h : Reads t lexeme rest) :
    scan (lexeme ++ rest) = .ok ⟨t, lexeme, rest⟩ := by
  cases h with
  | blanks hne hrun => exact scan_blanks hne hrun
  | lineFeed => exact scan_of_newline (by decide) rfl
  | returnAndLineFeed => exact scan_of_newline (by decide) rfl
  | blockComment h => exact scan_blockComment h
  | lineComment hrun he => exact scan_lineComment hrun he
  | hashComment hrun he => exact scan_hashComment hrun he
  | string h => exact scan_string h
  | natural hne hrun hr => exact scan_natural hne hrun hr
  | negative hne hrun hr => exact scan_negative hne hrun hr
  | keyword hstop => exact scan_keyword hstop
  | identifier hw hstop hk => exact scan_identifier hw hstop hk
  | delimiter => exact scan_delimiter _ rest

end Reads

/-- The scanner and the grammar agree on every text. -/
theorem scan_eq_ok_iff_reads {r : Scanned Token} :
    scan s = .ok r ↔ s = r.lexeme ++ r.rest ∧ Reads r.value r.lexeme r.rest := by
  constructor
  · intro h
    exact ⟨(scan_exact s r h).2.symm, scan_reads h⟩
  · rintro ⟨rfl, h⟩
    exact h.scan_append

theorem Reads.determined {t t' : Token} {lexeme lexeme' rest rest' : List Char}
    (h : Reads t lexeme rest) (h' : Reads t' lexeme' rest')
    (he : lexeme ++ rest = lexeme' ++ rest') : t = t' ∧ lexeme = lexeme' ∧ rest = rest' := by
  have hscan := h.scan_append
  rw [he, h'.scan_append] at hscan
  cases hscan
  exact ⟨rfl, rfl, rfl⟩

theorem integerAfter_ne_ok {sign digits rest : List Char} {value : Nat → Int}
    (hrun : Run Char.isDigit digits rest)
    (hr : ¬ Literal.InRange (value (Nat.ofDigitChars 10 digits 0))) (r : Scanned Literal) :
    integerAfter sign value (digits ++ rest) ≠ .ok r := by
  intro h
  obtain ⟨digits', rest', hs, -, hrun', hr', -⟩ := integerAfter_eq_ok.mp h
  have hd : digits' = digits := by
    rw [← hrun'.takeWhile_eq, ← hs, hrun.takeWhile_eq]
  rw [hd] at hr'
  exact hr hr'

theorem scan_fails_of_scanInteger {c : Char} {t : List Char} (hc : c = '-' ∨ c.isDigit = true)
    (h : ∀ r, scanInteger (c :: t) ≠ .ok r) : scan.Fails (c :: t) := by
  have hliteral : isLiteralStart c = true := by
    rcases hc with rfl | hc
    · decide
    · exact Reads.isLiteralStart_of_isDigit hc
  have hstring : scanString.Fails (c :: t) := by
    rcases hc with rfl | hc
    · exact scanString_starts.fails (by decide)
    · exact Reads.scanString_fails_of_isDigit hc
  apply scan_fails_of_literal hliteral
  apply Scanner.fails_of_not_ok
  intro r hr
  unfold scanLiteral at hr
  rw [Scanner.context_eq_ok, Scanner.map_eq_ok] at hr
  obtain ⟨a, ha, -⟩ := hr
  rw [Scanner.noting_eq_ok, Scanner.orElse_eq_ok] at ha
  rcases ha with ha | ⟨-, ha⟩
  · exact Scanner.not_fails_of_ok ha hstring
  · exact h a ha

/-- A number that is too large cannot be read in part. -/
theorem scan_fails_of_not_inRange {digits rest : List Char} (hne : digits ≠ [])
    (hrun : Run Char.isDigit digits rest)
    (hr : ¬ Literal.InRange (Nat.ofDigitChars 10 digits 0)) : scan.Fails (digits ++ rest) := by
  cases digits with
  | nil => contradiction
  | cons c t =>
    have hc := hrun.all c List.mem_cons_self
    apply scan_fails_of_scanInteger (.inr hc)
    intro r h
    rw [Reads.scanInteger_of_isDigit hc] at h
    exact integerAfter_ne_ok hrun hr r h

theorem scan_fails_of_negative_not_inRange {digits rest : List Char}
    (hrun : Run Char.isDigit digits rest)
    (hr : ¬ Literal.InRange (-(Nat.ofDigitChars 10 digits 0 : Int))) :
    scan.Fails ('-' :: digits ++ rest) := by
  apply scan_fails_of_scanInteger (.inl rfl)
  intro r h
  unfold scanInteger at h
  rw [Scanner.context_eq_ok] at h
  exact integerAfter_ne_ok hrun hr r h

end Feedforward.Token
