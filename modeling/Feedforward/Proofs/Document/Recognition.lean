import Feedforward.Proofs.Document.Forms
import Feedforward.Proofs.Lexical.Spans
import Feedforward.Proofs.Naming

/-! Lines that should declare something, said without scanning them, and what
they declare. A line is recognized by what stands after its white space; if it
can be read at all, that is also its first significant token. -/
namespace Feedforward.Text
open Token (isWordPart isBlank)

theorem isSpace_of_isWordPart {c : Char} (h : isWordPart c = true) : isSpace c = false := by
  rw [isWordPart, Bool.or_eq_true, beq_iff_eq] at h
  rcases h with h | rfl
  · have hrange : 48 ≤ c.toNat ∧ c.toNat ≤ 122 := by
      rcases (Bool.or_eq_true _ _).mp h with halpha | hdigit
      · have := Token.toNat_of_isAlpha halpha
        omega
      · have := Token.toNat_of_isDigit hdigit
        omega
    simp only [isSpace, Bool.or_eq_false_iff, Bool.and_eq_false_iff, decide_eq_false_iff_not,
      beq_eq_false_iff_ne]
    omega
  · decide

theorem isSpace_of_isBlank {c : Char} (h : isBlank c = true) : isSpace c = true := by
  rw [isBlank, Bool.or_eq_true, beq_iff_eq, beq_iff_eq] at h
  rcases h with rfl | rfl <;> decide

theorem exists_white_of_append {lexeme rest white tail : List Char}
    (hl : ∀ c ∈ lexeme, isSpace c = true) (hstop : Stops isSpace tail)
    (h : lexeme ++ rest = white ++ tail) :
    ∃ white', white = lexeme ++ white' ∧ rest = white' ++ tail := by
  rcases List.append_eq_append_iff.mp h with ⟨white', hwhite, hrest⟩ | ⟨extra, hlexeme, htail⟩
  · exact ⟨white', hwhite, hrest⟩
  · cases extra with
    | nil => exact ⟨[], by simpa using hlexeme.symm, by simpa using htail.symm⟩
    | cons c extra =>
      have hc := hl c (by rw [hlexeme]; simp)
      rw [htail, List.cons_append, stops_cons, hc] at hstop
      cases hstop

end Feedforward.Text

namespace Feedforward.Token
open Text (isSpace Stops)

theorem stops_isSpace_of_isWord {word : List Char} (h : Name.isWord word = true) :
    Stops isSpace word := by
  cases word with
  | nil => cases h
  | cons c t =>
    have hc := Name.isWordPart_of_isWord h c List.mem_cons_self
    exact (Text.stops_cons _ _ _).mpr (Text.isSpace_of_isWordPart hc)

theorem stops_isSpace_of_isDigit {digits : List Char} (h : ∀ c ∈ digits, c.isDigit = true) :
    Stops isSpace digits := by
  intro c hc
  have hd := h c (List.mem_of_mem_head? hc)
  exact Text.isSpace_of_isWordPart (by simp [isWordPart, Char.isAlphanum, hd])

theorem Reads.white_or_stops {t : Token} {lexeme rest : List Char} (h : Reads t lexeme rest) :
    t.isTrivia = true ∧ (∀ c ∈ lexeme, isSpace c = true) ∨ Stops isSpace lexeme := by
  cases h with
  | blanks _ hrun => exact .inl ⟨rfl, fun c hc => Text.isSpace_of_isBlank (hrun.all c hc)⟩
  | lineFeed => exact .inl ⟨rfl, List.all_eq_true.mp (by decide)⟩
  | returnAndLineFeed => exact .inl ⟨rfl, List.all_eq_true.mp (by decide)⟩
  | natural _ hrun _ => exact .inr (stops_isSpace_of_isDigit hrun.all)
  | @keyword k => exact .inr (stops_isSpace_of_isWord (isWord_spelling k))
  | identifier hw _ _ => exact .inr (stops_isSpace_of_isWord hw)
  | @delimiter d => exact .inr ((Text.stops_cons _ _ _).mpr (by cases d <;> decide))
  | blockComment | lineComment | hashComment | string | negative =>
    exact .inr ((Text.stops_cons _ _ _).mpr (by decide))

end Feedforward.Token

namespace Feedforward.Lexeme
open Token (Reads)
open Text (isSpace Stops)

def significant (ls : List Lexeme) : List Token := (ls.map token).filter (!·.isTrivia)

theorem Cover.split_white {ls : List Lexeme} {t : Token} {white lexeme rest : List Char}
    (h : Cover ls []) (hs : ls.flatMap text = white ++ (lexeme ++ rest))
    (hw : ∀ c ∈ white, isSpace c = true) (ht : Reads t lexeme rest) (htrivia : t.isTrivia = false) :
    ∃ ws ms, ls = ws ++ ⟨t, lexeme⟩ :: ms ∧ ws.flatMap text = white ∧ ms.flatMap text = rest ∧
      ∀ l ∈ ws, l.token.isTrivia = true := by
  have hne := ht.lexeme_ne_nil
  have hstop : Stops isSpace (lexeme ++ rest) := by
    rcases ht.white_or_stops with ⟨htrue, -⟩ | hstop
    · rw [htrivia] at htrue
      cases htrue
    · exact hstop.append hne rest
  -- White lexemes use up the white space; the first other one is the token itself.
  induction ls generalizing white with
  | nil =>
    have hnil := List.append_eq_nil_iff.mp hs.symm
    exact absurd (List.append_eq_nil_iff.mp hnil.2).1 hne
  | cons l ls ih =>
    obtain ⟨hl, hls⟩ := h
    rw [List.append_nil] at hl
    rw [List.flatMap_cons] at hs
    rcases hl.white_or_stops with ⟨htrue, hwhite⟩ | hlstop
    · obtain ⟨white', rfl, hrest⟩ := Text.exists_white_of_append hwhite hstop hs
      obtain ⟨ws, ms, rfl, rfl, hms, htrue'⟩ :=
        ih hls hrest fun c hc => hw c (List.mem_append_right _ hc)
      exact ⟨l :: ws, ms, rfl, rfl, hms, List.forall_mem_cons.mpr ⟨htrue, htrue'⟩⟩
    · cases white with
      | nil =>
        obtain ⟨rfl, rfl, rfl⟩ := hl.determined ht hs
        exact ⟨[], ls, rfl, rfl, rfl, by simp⟩
      | cons c white =>
        have hc := hlstop.append hl.lexeme_ne_nil (ls.flatMap text)
        rw [hs, List.cons_append, Text.stops_cons, hw c List.mem_cons_self] at hc
        cases hc

theorem significant_append (ls ms : List Lexeme) :
    significant (ls ++ ms) = significant ls ++ significant ms := by
  simp [significant]

theorem significant_eq_nil {ls : List Lexeme} :
    significant ls = [] ↔ ∀ l ∈ ls, l.token.isTrivia = true := by
  simp [significant]

theorem Cover.significant_cons {ls : List Lexeme} {t : Token} {white lexeme rest : List Char}
    (h : Cover ls []) (hs : ls.flatMap text = white ++ (lexeme ++ rest))
    (hw : ∀ c ∈ white, isSpace c = true) (ht : Reads t lexeme rest) (htrivia : t.isTrivia = false) :
    ∃ ts, significant ls = t :: ts := by
  obtain ⟨ws, ms, rfl, -, -, hws⟩ := h.split_white hs hw ht htrivia
  refine ⟨significant ms, ?_⟩
  rw [significant_append, significant_eq_nil.mpr hws]
  simp [significant, htrivia]

end Feedforward.Lexeme

namespace Feedforward.LineKind
open Token (Reads isWordPart)
open Text (isSpace Run Stops)

/-- What stands first on a line, after white space: a keyword that is a whole
word, or a closing brace. -/
inductive Opens : LineKind → List Char → Prop where
  | declares {white tail : List Char} {k : Keyword} : (∀ c ∈ white, isSpace c = true) →
      Stops isWordPart tail → Opens (.declares k) (white ++ (k.spelling.toList ++ tail))
  | closes {white tail : List Char} : (∀ c ∈ white, isSpace c = true) →
      Opens .closes (white ++ '}' :: tail)

def token : LineKind → Token
  | .declares k => .keyword k
  | .closes => .delimiter .closeBrace

theorem isTrivia_token (k : LineKind) : k.token.isTrivia = false := by
  cases k <;> rfl

theorem token_injective {k k' : LineKind} (h : k.token = k'.token) : k = k' := by
  cases k <;> cases k' <;> simp_all [token]

theorem Opens.exists_reads {k : LineKind} {s : List Char} (h : Opens k s) :
    ∃ white lexeme rest, s = white ++ (lexeme ++ rest) ∧ (∀ c ∈ white, isSpace c = true) ∧
      Reads k.token lexeme rest := by
  cases h with
  | declares hw hstop => exact ⟨_, _, _, rfl, hw, .keyword hstop⟩
  | @closes white tail hw =>
    exact ⟨white, [Delimiter.char .closeBrace], tail, rfl, hw, .delimiter⟩

theorem ofLine?_of_opens {k : LineKind} {s : List Char} (h : Opens k s) : ofLine? s = some k := by
  unfold ofLine?
  cases h with
  | @declares white tail k hw hstop =>
    have hword := Token.isWord_spelling k
    obtain ⟨c, t, hspell, hc⟩ := Token.Reads.exists_isWordStart hword
    have hspace := (Token.stops_isSpace_of_isWord hword).append (by simp [hspell]) tail
    have htrim : Text.trimStart (white ++ (k.spelling.toList ++ tail)) =
        k.spelling.toList ++ tail := Run.dropWhile_eq ⟨hw, hspace⟩
    rw [htrim]
    split
    · next u hu =>
      rw [hspell, List.cons_append] at hu
      cases hu
      exact absurd hc (by decide)
    · rw [Token.Reads.word_append hword hstop]
      simp [Keyword.ofString?_spelling]
  | @closes white tail hw =>
    have htrim : Text.trimStart (white ++ '}' :: tail) = '}' :: tail :=
      Run.dropWhile_eq ⟨hw, (Text.stops_cons _ _ _).mpr (by decide)⟩
    rw [htrim]
    rfl

theorem opens_of_ofLine? {k : LineKind} {s : List Char} (h : ofLine? s = some k) : Opens k s := by
  have hs : s = s.takeWhile isSpace ++ Text.trimStart s := List.takeWhile_append_dropWhile.symm
  have hw := (Text.run_takeWhile isSpace s).all
  unfold ofLine? at h
  split at h
  · next tail htail =>
    cases h
    rw [hs, htail]
    exact .closes hw
  · split at h
    · cases h
    · next r hr =>
      obtain ⟨k, hk, rfl⟩ := Option.map_eq_some_iff.mp h
      obtain ⟨hword, -, hstop, hvalue⟩ := Token.word_eq_ok.mp hr
      have hspell := Keyword.spelling_of_ofString? hk
      rw [hvalue] at hspell
      rw [hs, hword, ← String.toList_ofList (l := r.lexeme), ← hspell]
      exact .declares hw hstop

theorem ofLine?_eq_some {k : LineKind} {s : List Char} : ofLine? s = some k ↔ Opens k s :=
  ⟨opens_of_ofLine?, ofLine?_of_opens⟩

theorem ofLine?_eq_none {s : List Char} : ofLine? s = none ↔ ∀ k, ¬ Opens k s := by
  simp only [← ofLine?_eq_some, Option.eq_none_iff_forall_ne_some, ne_eq]

end Feedforward.LineKind

namespace Feedforward.Declaration
open LineKind (Opens)

theorem Form.head_eq {d : Declaration} {t : Token} {ts : List Token} (h : Form d (t :: ts)) :
    t = d.kind.token := by
  cases h <;> rfl

/-- What a line declares: nothing if it is not recognized, otherwise what the
form of its significant tokens says. -/
def Declares (s : List Char) : Option Declaration → Prop
  | none => ∀ k, ¬ Opens k s
  | some d => (∃ k, Opens k s) ∧ ∃ placed, (tokenize Position.start s).1 = .ok placed ∧
      Form d ((placed.map Placed.token).filter (!·.isTrivia))

theorem significant_eq_ok {s : List Char} {ts : List Token} :
    significant s = .ok ts ↔ ∃ placed, (tokenize Position.start s).1 = .ok placed ∧
      (placed.map Placed.token).filter (!·.isTrivia) = ts := by
  unfold significant
  cases (tokenize Position.start s).1 with
  | error u => simp
  | ok placed => simp

theorem kind_eq_of_opens {k : LineKind} {s : List Char} {d : Declaration} {placed : List Placed}
    (hopens : Opens k s) (hplaced : (tokenize Position.start s).1 = .ok placed)
    (hform : Form d ((placed.map Placed.token).filter (!·.isTrivia))) : d.kind = k := by
  obtain ⟨ls, hcover, hs, rfl⟩ := tokenize_eq_ok.mp hplaced
  obtain ⟨white, lexeme, rest, hsplit, hw, hread⟩ := hopens.exists_reads
  obtain ⟨ts, hts⟩ := hcover.significant_cons (hs.trans hsplit) hw hread k.isTrivia_token
  rw [Placed.sequence_map_token] at hform
  rw [Lexeme.significant] at hts
  rw [hts] at hform
  exact LineKind.token_injective hform.head_eq.symm

theorem ofLine?_eq_some_ok {s : List Char} {d : Declaration} :
    ofLine? s = some (.ok d) ↔ Declares s (some d) := by
  unfold ofLine?
  rw [Option.map_eq_some_iff]
  constructor
  · rintro ⟨k, hk, h⟩
    split at h
    · cases h
    · next ts hts =>
      obtain ⟨placed, hplaced, rfl⟩ := significant_eq_ok.mp hts
      exact ⟨⟨k, LineKind.ofLine?_eq_some.mp hk⟩, placed, hplaced, (ofTokens_eq_ok.mp h).1⟩
  · rintro ⟨⟨k, hopens⟩, placed, hplaced, hform⟩
    refine ⟨k, LineKind.ofLine?_eq_some.mpr hopens, ?_⟩
    rw [significant_eq_ok.mpr ⟨placed, hplaced, rfl⟩]
    exact ofTokens_eq_ok.mpr ⟨hform, kind_eq_of_opens hopens hplaced hform⟩

theorem ofLine?_eq_iff {s : List Char} {d : Option Declaration} :
    ofLine? s = d.map .ok ↔ Declares s d := by
  cases d with
  | none =>
    unfold ofLine?
    rw [Option.map_none, Option.map_eq_none_iff]
    exact LineKind.ofLine?_eq_none
  | some d => exact ofLine?_eq_some_ok

end Feedforward.Declaration
