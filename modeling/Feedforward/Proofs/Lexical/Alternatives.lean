import Feedforward.Proofs.Lexical.Rules
import Feedforward.Proofs.Lexical.Spans

/-! The order in which the scanners of single tokens are tried. Where keywords
come before identifiers, a scan reads the token of the one rule that applies,
whatever the order of the others. -/
namespace Feedforward.Token

namespace Alternative
variable {a b : Alternative} {s : List Char} {r : Scanned Token}

def all : List Alternative :=
  [blanks, newline, blockComment, lineComment, hashComment, string, integer, keyword, identifier,
    delimiter]

theorem mem_all (a : Alternative) : a ∈ all := by
  cases a <;> decide

def scanner : Alternative → Scanner Token
  | blanks => scanBlanks
  | newline => scanNewline
  | blockComment => scanBlockComment
  | lineComment => scanLineComment
  | hashComment => scanHashComment
  | string => scanString.map .literal
  | integer => scanInteger.map .literal
  | keyword => scanKeyword
  | identifier => scanIdentifier
  | delimiter => scanDelimiter

def tryEach : List Alternative → Scanner Token
  | [] => fun _ => Scanner.fail .alternative
  | a :: order => a.scanner.orElse (tryEach order)

theorem tryEach_eq_ok {order : List Alternative} :
    tryEach order s = .ok r ↔ ∃ front a back, order = front ++ a :: back ∧
      (∀ b ∈ front, b.scanner.Fails s) ∧ a.scanner s = .ok r := by
  induction order with
  | nil => simp [tryEach, Scanner.fail]
  | cons a order ih =>
    rw [tryEach, Scanner.orElse_eq_ok, ih]
    constructor
    · rintro (h | ⟨hfails, front, b, back, rfl, hfront, hb⟩)
      · exact ⟨[], a, order, rfl, by simp, h⟩
      · exact ⟨a :: front, b, back, rfl, List.forall_mem_cons.mpr ⟨hfails, hfront⟩, hb⟩
    · rintro ⟨front, b, back, horder, hfront, hb⟩
      cases front with
      | nil =>
        cases horder
        exact .inl hb
      | cons c front =>
        cases horder
        obtain ⟨hc, hfront⟩ := List.forall_mem_cons.mp hfront
        exact .inr ⟨hc, front, b, back, rfl, hfront, hb⟩

theorem alternative_of_scanner (h : a.scanner s = .ok r) : r.value.alternative = a := by
  cases a with
  | blanks =>
    obtain ⟨text, rest, -, -, -, rfl⟩ := scanBlanks_eq_ok.mp h
    rfl
  | newline =>
    simp only [scanner, scanNewline, Scanner.context_eq_ok, Scanner.noting_eq_ok] at h
    split at h <;> cases h <;> rfl
  | blockComment =>
    simp only [scanner, scanBlockComment, Scanner.context_eq_ok] at h
    split at h
    · split at h <;> cases h
      rfl
    · cases h
  | lineComment =>
    simp only [scanner, scanLineComment, Scanner.context_eq_ok] at h
    split at h
    · obtain ⟨_, _, -, -, -, rfl⟩ := commentToLineEnd_eq_ok.mp h
      rfl
    · cases h
  | hashComment =>
    simp only [scanner, scanHashComment, Scanner.context_eq_ok] at h
    split at h
    · obtain ⟨_, _, -, -, -, rfl⟩ := commentToLineEnd_eq_ok.mp h
      rfl
    · cases h
  | string =>
    simp only [scanner, scanString, Scanner.map_eq_ok, Scanner.context_eq_ok] at h
    obtain ⟨l, h, rfl⟩ := h
    split at h
    · split at h <;> cases h
      rfl
    · cases h
  | integer =>
    simp only [scanner, scanInteger, Scanner.map_eq_ok, Scanner.context_eq_ok] at h
    obtain ⟨l, h, rfl⟩ := h
    split at h <;> obtain ⟨_, _, -, -, -, -, rfl⟩ := integerAfter_eq_ok.mp h <;> rfl
  | keyword =>
    obtain ⟨_, _, -, -, rfl⟩ := scanKeyword_eq_ok.mp h
    rfl
  | identifier =>
    obtain ⟨_, -, rfl⟩ := Scanner.map_eq_ok.mp h
    rfl
  | delimiter =>
    obtain ⟨_, _, -, rfl⟩ := scanDelimiter_eq_ok.mp h
    rfl

theorem scanner_exact (a : Alternative) : a.scanner.Exact := by
  cases a with
  | blanks => exact scanBlanks_exact
  | newline => exact scanNewline_exact
  | blockComment => exact scanBlockComment_exact
  | lineComment => exact scanLineComment_exact
  | hashComment => exact scanHashComment_exact
  | string => exact scanString_exact.map _
  | integer => exact scanInteger_exact.map _
  | keyword => exact scanKeyword_exact
  | identifier => exact scanIdentifier_exact
  | delimiter => exact scanDelimiter_exact

/-- What an alternative reads is in the grammar; of words it must be known that
they are no keywords before they are read as identifiers. -/
theorem reads_of_scanner (hkeyword : a = identifier → keyword.scanner.Fails s)
    (h : a.scanner s = .ok r) : Reads r.value r.lexeme r.rest := by
  cases a with
  | blanks => exact scanBlanks_reads h
  | newline => exact scanNewline_reads h
  | blockComment => exact scanBlockComment_reads h
  | lineComment => exact scanLineComment_reads h
  | hashComment => exact scanHashComment_reads h
  | string =>
    obtain ⟨l, hl, rfl⟩ := Scanner.map_eq_ok.mp h
    exact scanString_reads hl
  | integer =>
    obtain ⟨l, hl, rfl⟩ := Scanner.map_eq_ok.mp h
    exact scanInteger_reads hl
  | keyword => exact scanKeyword_reads h
  | identifier => exact scanIdentifier_reads (hkeyword rfl) h
  | delimiter =>
    obtain ⟨d, t, -, rfl⟩ := scanDelimiter_eq_ok.mp h
    exact .delimiter

theorem scan_of_scanner (hkeyword : a = identifier → keyword.scanner.Fails s)
    (h : a.scanner s = .ok r) : scan s = .ok r :=
  scan_eq_ok_iff_reads.mpr ⟨(a.scanner_exact s r h).2.symm, reads_of_scanner hkeyword h⟩

theorem exists_scanner_of_scan (h : scan s = .ok r) : ∃ a : Alternative, a.scanner s = .ok r := by
  rcases scan_eq_ok.mp h with
    h | ⟨-, h | ⟨-, h | ⟨-, h | ⟨-, h | ⟨-, h | ⟨-, h⟩⟩⟩⟩⟩⟩
  · exact ⟨blanks, h⟩
  · exact ⟨newline, h⟩
  · rw [scanComment, Scanner.context_eq_ok, Scanner.noting_eq_ok, Scanner.orElse_eq_ok,
      Scanner.orElse_eq_ok] at h
    rcases h with h | ⟨-, h | ⟨-, h⟩⟩
    · exact ⟨blockComment, h⟩
    · exact ⟨lineComment, h⟩
    · exact ⟨hashComment, h⟩
  · rw [scanLiteral, Scanner.context_eq_ok, Scanner.map_eq_ok] at h
    obtain ⟨l, hl, rfl⟩ := h
    rw [Scanner.noting_eq_ok, Scanner.orElse_eq_ok] at hl
    rcases hl with hl | ⟨-, hl⟩
    · exact ⟨string, Scanner.map_eq_ok.mpr ⟨l, hl, rfl⟩⟩
    · exact ⟨integer, Scanner.map_eq_ok.mpr ⟨l, hl, rfl⟩⟩
  · exact ⟨keyword, h⟩
  · exact ⟨identifier, h⟩
  · exact ⟨delimiter, h⟩

theorem fails_of_keyword (h : keyword.scanner s = .ok r) (hk : b ≠ keyword)
    (hi : b ≠ identifier) : b.scanner.Fails s := by
  apply Scanner.fails_of_not_ok
  intro r' hb
  have hscan := scan_of_scanner (by simp) h
  rw [scan_of_scanner (fun he => absurd he hi) hb] at hscan
  cases hscan
  rw [← alternative_of_scanner hb, alternative_of_scanner h] at hk
  exact hk rfl

theorem idxOf_lt_iff {front back : List Alternative} (hb : b ∉ front) :
    (front ++ b :: back).idxOf a < (front ++ b :: back).idxOf b ↔ a ∈ front := by
  have hidx : (front ++ b :: back).idxOf b = front.length := by
    simp [List.idxOf_append, hb]
  rw [hidx]
  by_cases ha : a ∈ front
  · simp [List.idxOf_append, ha, List.idxOf_lt_length_iff]
  · simp [List.idxOf_append, ha]

theorem scan_of_tryEach {order : List Alternative}
    (h : order.idxOf keyword < order.idxOf identifier) (hr : tryEach order s = .ok r) :
    scan s = .ok r := by
  obtain ⟨front, a, back, rfl, hfront, ha⟩ := tryEach_eq_ok.mp hr
  apply scan_of_scanner _ ha
  rintro rfl
  -- Identifiers were reached, so keywords were tried before them and failed.
  have hfirst : identifier ∉ front := fun hmem => Scanner.not_fails_of_ok ha (hfront _ hmem)
  exact hfront keyword ((idxOf_lt_iff hfirst).mp h)

theorem exists_tryEach {order : List Alternative} (ha : a ∈ order) (h : a.scanner s = .ok r) :
    ∃ r', tryEach order s = .ok r' := by
  induction order with
  | nil => cases ha
  | cons b order ih =>
    rcases Scanner.fails_or_ok b.scanner s with hb | ⟨r', hb⟩
    · have hne : a ≠ b := by
        rintro rfl
        exact Scanner.not_fails_of_ok h hb
      obtain ⟨r', hr'⟩ := ih (List.mem_of_ne_of_mem hne ha)
      exact ⟨r', Scanner.orElse_eq_ok.mpr (.inr ⟨hb, hr'⟩)⟩
    · exact ⟨r', Scanner.orElse_eq_ok.mpr (.inl hb)⟩

/-- With keywords before identifiers every order gives the same tokens. -/
theorem tryEach_eq_ok_iff_scan {order : List Alternative} (hall : ∀ a, a ∈ order)
    (h : order.idxOf keyword < order.idxOf identifier) :
    tryEach order s = .ok r ↔ scan s = .ok r := by
  refine ⟨scan_of_tryEach h, fun hscan => ?_⟩
  obtain ⟨a, ha⟩ := exists_scanner_of_scan hscan
  obtain ⟨r', hr'⟩ := exists_tryEach (hall a) ha
  rw [scan_of_tryEach h hr'] at hscan
  cases hscan
  exact hr'

theorem tryEach_model {order : List Alternative} (hall : ∀ a, a ∈ order)
    (h : ¬ order.idxOf keyword < order.idxOf identifier) :
    tryEach order "model".toList = .ok ⟨.identifier "model", "model".toList, []⟩ := by
  obtain ⟨front, back, rfl, hfirst⟩ := List.eq_append_cons_of_mem (hall identifier)
  rw [idxOf_lt_iff hfirst] at h
  refine tryEach_eq_ok.mpr ⟨front, identifier, back, rfl, ?_, rfl⟩
  intro b hb
  have hmodel : keyword.scanner "model".toList = .ok ⟨.keyword .model, "model".toList, []⟩ := rfl
  exact fails_of_keyword hmodel (fun he => h (he ▸ hb)) (fun he => hfirst (he ▸ hb))

end Alternative

theorem scan_model : scan "model".toList = .ok ⟨.keyword .model, "model".toList, []⟩ := rfl

end Feedforward.Token

namespace Feedforward

open Token (Rule Alternative)

theorem tokenize_of_reads (p : Position) {t : Token} {lexeme rest : List Char}
    (h : Token.Reads t lexeme rest) :
    tokenize p (lexeme ++ rest) =
      ((tokenize (p.after lexeme) rest).1.map
          (⟨t, p.offset, p.offset + Text.byteLength lexeme, p.line, p.column⟩ :: ·),
        (tokenize (p.after lexeme) rest).2) := by
  simp only [tokenize, Lexeme.cut_of_reads h, List.flatMap_cons, Position.after_append]
  cases (Lexeme.cut rest).2 with
  | nil => simp [Except.map, Placed.sequence, Position.after_offset]
  | cons c unread => rfl

theorem tokenize_of_fails (p : Position) {s : List Char} (h : Token.scan.Fails s) (hne : s ≠ []) :
    tokenize p s = (.error ⟨s, p⟩, p) := by
  have hstop := tokenize_of_cover p (show Lexeme.Cover [] s from h) hne
  simpa [Position.counted_nil] using hstop

/-- Tokenizing takes the one rule that applies to the text at hand, or stops
where none does, and the order in which the alternatives are tried matters only
for keywords and identifiers. -/
theorem tokenize_takes_rule :
    (∀ (p : Position) (s : List Char), s ≠ [] →
      (∀ (a b : Rule) (t u : Token) (l m x y : List Char),
        a.Takes s t l x → b.Takes s u m y → a = b ∧ t = u ∧ l = m ∧ x = y) ∧
      (∀ (a : Rule) (t : Token) (l x : List Char), a.Takes s t l x →
        tokenize p s =
          ((tokenize (p.after l) x).1.map
              (⟨t, p.offset, p.offset + Text.byteLength l, p.line, p.column⟩ :: ·),
            (tokenize (p.after l) x).2)) ∧
      ((∀ (a : Rule) (t : Token) (l x : List Char), ¬ a.Takes s t l x) →
        tokenize p s = (.error ⟨s, p⟩, p))) ∧
    ∀ order : List Alternative, order.Perm Alternative.all →
      ((∀ s r, Alternative.tryEach order s = .ok r ↔ Token.scan s = .ok r) ↔
        order.idxOf .keyword < order.idxOf .identifier) := by
  refine ⟨fun p s hne => ⟨?_, ?_, ?_⟩, ?_⟩
  · intro a b t u l m x y ha hb
    exact ha.unique hb
  · rintro a t l x ⟨rfl, ha⟩
    exact tokenize_of_reads p ha.reads.1
  · intro hnone
    exact tokenize_of_fails p (Rule.fails_of_not_takes hnone) hne
  · intro order hperm
    have hall (a : Alternative) : a ∈ order := hperm.mem_iff.mpr a.mem_all
    refine ⟨fun hagree => ?_, fun h s r => Alternative.tryEach_eq_ok_iff_scan hall h⟩
    by_contra hnot
    -- The text `model` tells an order with identifiers first from the scan.
    have hmodel := (hagree _ _).mp (Alternative.tryEach_model hall hnot)
    rw [Token.scan_model] at hmodel
    cases hmodel

end Feedforward
