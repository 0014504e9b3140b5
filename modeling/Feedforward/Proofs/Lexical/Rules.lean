import Mathlib.Algebra.Group.Int.Defs
import Feedforward.Proofs.Lexical.Cutting

/-! The lexical grammar as eight rules on characters. At most one rule applies
to the front of a text, and in one way only; a scan fails where none does. -/
namespace Feedforward.Text

structure Trimmed (body content : List Char) : Prop where
  ends : ∃ front back, body = front ++ content ++ back ∧
    (∀ c ∈ front, isSpace c = true) ∧ ∀ c ∈ back, isSpace c = true
  head : Stops isSpace content
  last : Stops isSpace content.reverse

theorem trimmed_trim (body : List Char) : Trimmed body (trim body) := by
  have hfront := run_takeWhile isSpace body
  have hback := run_takeWhile isSpace (trimStart body).reverse
  have hstart : trim body ++ ((trimStart body).reverse.takeWhile isSpace).reverse =
      trimStart body := by
    rw [trim, trimEnd, ← List.reverse_append, List.takeWhile_append_dropWhile, List.reverse_reverse]
  refine ⟨⟨body.takeWhile isSpace, ((trimStart body).reverse.takeWhile isSpace).reverse, ?_,
    hfront.all, ?_⟩, hfront.stops.of_initial ⟨_, hstart⟩, ?_⟩
  · rw [List.append_assoc, hstart]
    exact List.takeWhile_append_dropWhile.symm
  · simpa using hback.all
  · rw [trim, trimEnd, List.reverse_reverse]
    exact hback.stops

theorem Trimmed.trim_eq {body content : List Char} (h : Trimmed body content) :
    trim body = content := by
  obtain ⟨⟨front, back, rfl, hfront, hback⟩, hhead, hlast⟩ := h
  cases content with
  | nil =>
    -- All is white space, and trimming its front leaves nothing to trim at the end.
    have hrun : Run isSpace (front ++ back) [] :=
      ⟨List.forall_mem_append.mpr ⟨hfront, hback⟩, stops_nil _⟩
    have hnil := hrun.dropWhile_eq
    rw [List.append_nil] at hnil
    rw [List.append_nil, trim, trimStart, hnil]
    rfl
  | cons c content =>
    have hstart : trimStart (front ++ (c :: content ++ back)) = c :: content ++ back :=
      Run.dropWhile_eq ⟨hfront, by simpa using hhead⟩
    have hend : ((c :: content ++ back).reverse).dropWhile isSpace = (c :: content).reverse := by
      rw [List.reverse_append]
      exact Run.dropWhile_eq ⟨by simpa using hback, hlast⟩
    rw [List.append_assoc, trim, hstart, trimEnd, hend, List.reverse_reverse]

end Feedforward.Text

namespace Feedforward.Token

inductive Rule where
  | blanks
  | lineEnd
  | blockComment
  | lineComment
  | string
  | integer
  | word
  | delimiter
deriving DecidableEq, Repr

inductive Alternative where
  | blanks
  | newline
  | blockComment
  | lineComment
  | hashComment
  | string
  | integer
  | keyword
  | identifier
  | delimiter
deriving DecidableEq, Repr

def Alternative.rule : Alternative → Rule
  | blanks => .blanks
  | newline => .lineEnd
  | blockComment => .blockComment
  | lineComment | hashComment => .lineComment
  | string => .string
  | integer => .integer
  | keyword | identifier => .word
  | delimiter => .delimiter

def alternative : Token → Alternative
  | keyword _ => .keyword
  | identifier _ => .identifier
  | delimiter _ => .delimiter
  | literal (.integer _) => .integer
  | literal (.string _) => .string
  | blanks _ => .blanks
  | newline => .newline
  | comment .block _ => .blockComment
  | comment .line _ => .lineComment
  | comment .hash _ => .hashComment

def rule (t : Token) : Rule := t.alternative.rule

namespace Rule
open Text (Trimmed Run Stops)

/-- What a rule makes of the front of a text: a token, its lexeme, and the text
after it. No `*/` starts inside the body of a block comment, and the first line
end after `//` or `#` is a whole one. -/
def Applies : Rule → Token → List Char → List Char → Prop
  | blanks, t, lexeme, rest =>
    lexeme ≠ [] ∧ (∀ c ∈ lexeme, c = ' ' ∨ c = '\t') ∧ (∀ c ∈ rest.head?, c ≠ ' ' ∧ c ≠ '\t') ∧
      t = .blanks (String.ofList lexeme)
  | lineEnd, t, lexeme, _ => (lexeme = ['\n'] ∨ lexeme = ['\r', '\n']) ∧ t = .newline
  | blockComment, t, lexeme, _ =>
    ∃ body content, lexeme = '/' :: '*' :: (body ++ ['*', '/']) ∧
      ¬ ['*', '/'] <:+: body ++ ['*'] ∧
      Trimmed body content ∧ t = .comment .block (String.ofList content)
  | lineComment, t, lexeme, rest =>
    ∃ style marker body content,
      (style = .line ∧ marker = ['/', '/'] ∨ style = .hash ∧ marker = ['#']) ∧
      lexeme = marker ++ body ∧ (∀ c ∈ body, c ≠ '\r' ∧ c ≠ '\n') ∧
      (rest = [] ∨ (∃ s, rest = '\n' :: s) ∨ ∃ s, rest = '\r' :: '\n' :: s) ∧
      Trimmed body content ∧ t = .comment style (String.ofList content)
  | string, t, lexeme, _ =>
    ∃ content, lexeme = '"' :: (content ++ ['"']) ∧
      (∀ c ∈ content, c ≠ '"' ∧ c ≠ '\r' ∧ c ≠ '\n') ∧
      t = .literal (.string (String.ofList content))
  | integer, t, lexeme, rest =>
    ∃ sign digits value,
      (sign = [] ∧ value = (Nat.ofDigitChars 10 digits 0 : Int) ∨
        sign = ['-'] ∧ value = -(Nat.ofDigitChars 10 digits 0 : Int)) ∧
      lexeme = sign ++ digits ∧ digits ≠ [] ∧ (∀ c ∈ digits, c.isDigit = true) ∧
      (∀ c ∈ rest.head?, c.isDigit = false) ∧
      -2 ^ 63 ≤ value ∧ value ≤ 2 ^ 63 - 1 ∧ t = .literal (.integer value)
  | word, t, lexeme, rest =>
    (∃ c tail, lexeme = c :: tail ∧ (c.isAlpha = true ∨ c = '_') ∧
      ∀ d ∈ tail, d.isAlphanum = true ∨ d = '_') ∧
    (∀ c ∈ rest.head?, c.isAlphanum = false ∧ c ≠ '_') ∧
    (lexeme = "model".toList ∧ t = .keyword .model ∨ lexeme = "input".toList ∧ t = .keyword .input ∨
      lexeme = "layer".toList ∧ t = .keyword .layer ∨
      lexeme ∉ ["model".toList, "input".toList, "layer".toList] ∧
        t = .identifier (String.ofList lexeme))
  | delimiter, t, lexeme, _ =>
    lexeme = ['{'] ∧ t = .delimiter .openBrace ∨ lexeme = ['}'] ∧ t = .delimiter .closeBrace ∨
      lexeme = [':'] ∧ t = .delimiter .colon ∨ lexeme = [','] ∧ t = .delimiter .comma ∨
      lexeme = ['='] ∧ t = .delimiter .equal

section Reading
variable {t : Token} {lexeme rest : List Char}

theorem stops_isBlank_iff : Stops isBlank rest ↔ ∀ c ∈ rest.head?, c ≠ ' ' ∧ c ≠ '\t' := by
  simp [Stops, isBlank]

theorem stops_isWordPart_iff :
    Stops isWordPart rest ↔ ∀ c ∈ rest.head?, c.isAlphanum = false ∧ c ≠ '_' := by
  simp [Stops, isWordPart]

theorem isWord_iff : Name.isWord lexeme = true ↔
    ∃ c tail, lexeme = c :: tail ∧ (c.isAlpha = true ∨ c = '_') ∧
      ∀ d ∈ tail, d.isAlphanum = true ∨ d = '_' := by
  have hcons (c : Char) (tail : List Char) : Name.isWord (c :: tail) = true ↔
      (c.isAlpha = true ∨ c = '_') ∧ ∀ d ∈ tail, d.isAlphanum = true ∨ d = '_' := by
    simp [Name.isWord, isWordStart, isWordPart]
  constructor
  · intro h
    cases lexeme with
    | nil => cases h
    | cons c tail => exact ⟨c, tail, rfl, (hcons c tail).mp h⟩
  · rintro ⟨c, tail, rfl, h⟩
    exact (hcons c tail).mpr h

theorem ofString?_eq_none : Keyword.ofString? (String.ofList lexeme) = none ↔
    lexeme ∉ ["model".toList, "input".toList, "layer".toList] := by
  have hspelling (k : Keyword) :
      k.spelling = String.ofList lexeme ↔ lexeme = k.spelling.toList := by
    rw [← String.toList_inj, String.toList_ofList, eq_comm]
  rw [Keyword.ofString?, List.find?_eq_none]
  simp only [Keyword.all, beq_iff_eq, hspelling, List.mem_cons, forall_eq_or_imp, not_or,
    List.not_mem_nil, or_false, forall_eq]
  rfl

theorem inRange_iff {value : Int} :
    Literal.InRange value ↔ -2 ^ 63 ≤ value ∧ value ≤ 2 ^ 63 - 1 := by
  simp [Literal.InRange, Literal.leastInteger, Literal.greatestInteger]

theorem Applies.reads {rule : Rule} (h : rule.Applies t lexeme rest) :
    Reads t lexeme rest ∧ t.rule = rule := by
  cases rule with
  | blanks =>
    obtain ⟨hne, hall, hstop, rfl⟩ := h
    exact ⟨.blanks hne ⟨by simpa [isBlank] using hall, stops_isBlank_iff.mpr hstop⟩, rfl⟩
  | lineEnd =>
    obtain ⟨rfl | rfl, rfl⟩ := h
    · exact ⟨.lineFeed, rfl⟩
    · exact ⟨.returnAndLineFeed, rfl⟩
  | blockComment =>
    obtain ⟨body, content, rfl, hclosing, htrim, rfl⟩ := h
    rw [← htrim.trim_eq]
    exact ⟨.blockComment hclosing, rfl⟩
  | lineComment =>
    obtain ⟨style, marker, body, content, hmarker, rfl, hbody, hrest, htrim, rfl⟩ := h
    have hend := atLineEnd_iff.mpr hrest
    have hrun : Run (!isLineEnd ·) body rest :=
      ⟨by simpa [isLineEnd] using hbody, stops_of_atLineEnd hend (by decide) (by decide)⟩
    rw [← htrim.trim_eq]
    rcases hmarker with ⟨rfl, rfl⟩ | ⟨rfl, rfl⟩
    · exact ⟨.lineComment hrun hend, rfl⟩
    · exact ⟨.hashComment hrun hend, rfl⟩
  | string =>
    obtain ⟨content, rfl, hcontent, rfl⟩ := h
    exact ⟨.string (by simpa [isStringPart, isLineEnd] using hcontent), rfl⟩
  | integer =>
    obtain ⟨sign, digits, value, hvalue, rfl, hne, hall, hstop, hrange⟩ := h
    obtain ⟨hleast, hgreatest, rfl⟩ := hrange
    have hinRange := inRange_iff.mpr ⟨hleast, hgreatest⟩
    rcases hvalue with ⟨rfl, rfl⟩ | ⟨rfl, rfl⟩
    · exact ⟨.natural hne ⟨hall, hstop⟩ hinRange, rfl⟩
    · exact ⟨.negative hne ⟨hall, hstop⟩ hinRange, rfl⟩
  | word =>
    obtain ⟨hword, hstop, hkind⟩ := h
    have hstop := stops_isWordPart_iff.mpr hstop
    rcases hkind with ⟨rfl, rfl⟩ | ⟨rfl, rfl⟩ | ⟨rfl, rfl⟩ | ⟨hno, rfl⟩
    · exact ⟨@Reads.keyword .model rest hstop, rfl⟩
    · exact ⟨@Reads.keyword .input rest hstop, rfl⟩
    · exact ⟨@Reads.keyword .layer rest hstop, rfl⟩
    · exact ⟨.identifier (isWord_iff.mpr hword) hstop (ofString?_eq_none.mpr hno), rfl⟩
  | delimiter =>
    rcases h with ⟨rfl, rfl⟩ | ⟨rfl, rfl⟩ | ⟨rfl, rfl⟩ | ⟨rfl, rfl⟩ | ⟨rfl, rfl⟩ <;>
      exact ⟨.delimiter, rfl⟩

theorem applies_of_reads (h : Reads t lexeme rest) : t.rule.Applies t lexeme rest := by
  cases h with
  | blanks hne hrun =>
    exact ⟨hne, by simpa [isBlank] using hrun.all, stops_isBlank_iff.mp hrun.stops, rfl⟩
  | lineFeed => exact ⟨.inl rfl, rfl⟩
  | returnAndLineFeed => exact ⟨.inr rfl, rfl⟩
  | @blockComment body rest hclosing =>
    exact ⟨body, _, rfl, hclosing, Text.trimmed_trim body, rfl⟩
  | @lineComment body rest hrun hend =>
    exact ⟨.line, _, body, _, .inl ⟨rfl, rfl⟩, rfl, by simpa [isLineEnd] using hrun.all,
      atLineEnd_iff.mp hend, Text.trimmed_trim body, rfl⟩
  | @hashComment body rest hrun hend =>
    exact ⟨.hash, _, body, _, .inr ⟨rfl, rfl⟩, rfl, by simpa [isLineEnd] using hrun.all,
      atLineEnd_iff.mp hend, Text.trimmed_trim body, rfl⟩
  | @string content rest hcontent =>
    exact ⟨content, rfl, by simpa [isStringPart, isLineEnd] using hcontent, rfl⟩
  | natural hne hrun hrange =>
    obtain ⟨hleast, hgreatest⟩ := inRange_iff.mp hrange
    exact ⟨[], _, _, .inl ⟨rfl, rfl⟩, rfl, hne, hrun.all, hrun.stops, hleast, hgreatest, rfl⟩
  | negative hne hrun hrange =>
    obtain ⟨hleast, hgreatest⟩ := inRange_iff.mp hrange
    exact ⟨['-'], _, _, .inr ⟨rfl, rfl⟩, rfl, hne, hrun.all, hrun.stops, hleast, hgreatest, rfl⟩
  | @keyword k rest hstop =>
    refine ⟨isWord_iff.mp (isWord_spelling k), stops_isWordPart_iff.mp hstop, ?_⟩
    cases k with
    | model => exact .inl ⟨rfl, rfl⟩
    | input => exact .inr (.inl ⟨rfl, rfl⟩)
    | layer => exact .inr (.inr (.inl ⟨rfl, rfl⟩))
  | identifier hword hstop hno =>
    exact ⟨isWord_iff.mp hword, stops_isWordPart_iff.mp hstop,
      .inr (.inr (.inr ⟨ofString?_eq_none.mp hno, rfl⟩))⟩
  | @delimiter d rest =>
    cases d with
    | openBrace => exact .inl ⟨rfl, rfl⟩
    | closeBrace => exact .inr (.inl ⟨rfl, rfl⟩)
    | colon => exact .inr (.inr (.inl ⟨rfl, rfl⟩))
    | comma => exact .inr (.inr (.inr (.inl ⟨rfl, rfl⟩)))
    | equal => exact .inr (.inr (.inr (.inr ⟨rfl, rfl⟩)))

def Takes (rule : Rule) (s : List Char) (t : Token) (lexeme rest : List Char) : Prop :=
  lexeme ++ rest = s ∧ rule.Applies t lexeme rest

theorem Takes.unique {a b : Rule} {s lexeme' rest' : List Char} {t' : Token}
    (h : a.Takes s t lexeme rest) (h' : b.Takes s t' lexeme' rest') :
    a = b ∧ t = t' ∧ lexeme = lexeme' ∧ rest = rest' := by
  obtain ⟨hread, rfl⟩ := h.2.reads
  obtain ⟨hread', rfl⟩ := h'.2.reads
  obtain ⟨rfl, hlexeme, hrest⟩ := hread.determined hread' (h.1.trans h'.1.symm)
  exact ⟨rfl, rfl, hlexeme, hrest⟩

theorem fails_of_not_takes {s : List Char}
    (h : ∀ (a : Rule) (t : Token) (l x : List Char), ¬ a.Takes s t l x) : scan.Fails s := by
  apply Scanner.fails_of_not_ok
  intro r hr
  obtain ⟨hs, hread⟩ := scan_eq_ok_iff_reads.mp hr
  exact h _ _ _ _ ⟨hs.symm, applies_of_reads hread⟩

end Reading
end Rule

end Feedforward.Token
