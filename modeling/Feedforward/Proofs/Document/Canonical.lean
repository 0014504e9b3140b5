import Feedforward.Document.Layout
import Feedforward.Proofs.Document.Recognition
import Feedforward.Proofs.Writing

/-! The lines of a canonical document and how they are read. Layout only moves
blanks, so the tokens of a line depend on its keyword and its values alone; a
number that is too large stops the reading of its line. -/
namespace Feedforward

theorem Literal.inRange_natCast {n : Nat} : InRange (n : Int) ↔ n < Nat.pow 2 63 := by
  have hbound : Nat.pow 2 63 = 9223372036854775808 := rfl
  unfold InRange leastInteger greatestInteger
  rw [hbound]
  omega

namespace Lexeme
open Token (Reads isBlank isWordPart)
open Text (Stops)
variable {s lexeme rest unread : List Char} {t : Token} {ts : List Token}

/-- The significant tokens at the front of a text, up to text that cannot be read. -/
def Yields (s : List Char) (ts : List Token) (unread : List Char) : Prop :=
  ∃ ls, ls.flatMap text ++ unread = s ∧ Cover ls unread ∧ significant ls = ts

theorem yields_iff_cut :
    Yields s ts unread ↔ significant (cut s).1 = ts ∧ (cut s).2 = unread := by
  constructor
  · rintro ⟨ls, hs, hcover, hts⟩
    rw [cut_eq_iff.mpr ⟨hs, hcover⟩]
    exact ⟨hts, rfl⟩
  · rintro ⟨hts, rfl⟩
    obtain ⟨hs, hcover⟩ := cover_cut s
    exact ⟨_, hs, hcover, hts⟩

theorem yields_trivia_append (h : Reads t lexeme rest) (ht : t.isTrivia = true) :
    Yields (lexeme ++ rest) ts unread ↔ Yields rest ts unread := by
  rw [yields_iff_cut, yields_iff_cut, cut_of_reads h]
  simp [significant, ht]

theorem yields_dropBlanks : Yields s ts unread ↔ Yields (s.dropWhile isBlank) ts unread := by
  have hrun := Text.run_takeWhile isBlank s
  have hs : s.takeWhile isBlank ++ s.dropWhile isBlank = s := List.takeWhile_append_dropWhile
  by_cases hnil : s.takeWhile isBlank = []
  · rw [hnil, List.nil_append] at hs
    rw [hs]
  · nth_rewrite 1 [← hs]
    exact yields_trivia_append (.blanks hnil hrun) rfl

namespace Yields

theorem stop (h : Token.scan.Fails unread) : Yields unread [] unread :=
  ⟨[], rfl, h, rfl⟩

theorem nil : Yields [] [] [] := stop Token.scan_nil_fails

theorem read (h : Yields rest ts unread) (ht : Reads t lexeme rest) :
    Yields (lexeme ++ rest) ([t].filter (!·.isTrivia) ++ ts) unread := by
  obtain ⟨ls, rfl, hcover, rfl⟩ := h
  refine ⟨⟨t, lexeme⟩ :: ls, ?_, ⟨ht, hcover⟩, ?_⟩
  · rw [List.flatMap_cons, List.append_assoc]
  · exact List.filter_append [t] (ls.map Lexeme.token)

theorem blank (h : Yields rest ts unread) {c : Char} (hc : isBlank c = true) :
    Yields (c :: rest) ts unread := by
  rw [yields_dropBlanks, List.dropWhile_cons_of_pos hc, ← yields_dropBlanks]
  exact h

theorem spaces (h : Yields rest ts unread) (n : Nat) :
    Yields (List.replicate n ' ' ++ rest) ts unread := by
  induction n with
  | zero => exact h
  | succ n ih => exact ih.blank (by decide)

theorem delimiter (h : Yields rest ts unread) (d : Delimiter) :
    Yields (d.char :: rest) (.delimiter d :: ts) unread :=
  h.read .delimiter

theorem keyword (h : Yields rest ts unread) (k : Keyword) (hstop : Stops isWordPart rest) :
    Yields (k.spelling.toList ++ rest) (.keyword k :: ts) unread :=
  h.read (.keyword hstop)

theorem identifier (h : Yields rest ts unread) {name : String}
    (hname : Name.isIdentifier name = true) (hstop : Stops isWordPart rest) :
    Yields (name.toList ++ rest) (.identifier name :: ts) unread := by
  rw [Name.isIdentifier, Bool.and_eq_true, Option.isNone_iff_eq_none] at hname
  have hread : Reads (.identifier (String.ofList name.toList)) name.toList rest :=
    .identifier hname.1 hstop (by rw [String.ofList_toList]; exact hname.2)
  rw [String.ofList_toList] at hread
  exact h.read hread

theorem number (h : Yields rest ts unread) {n : Nat} (hn : n < Nat.pow 2 63)
    (hstop : Stops Char.isDigit rest) :
    Yields (n.repr.toList ++ rest) (.literal (.integer n) :: ts) unread := by
  have hvalue := Text.ofDigitChars_repr n
  have hread := Reads.natural (Text.repr_toList_ne_nil n) ⟨Text.isDigit_repr n, hstop⟩
    (by rw [hvalue]; exact Literal.inRange_natCast.mpr hn)
  rw [hvalue] at hread
  exact h.read hread

theorem tooLarge {n : Nat} (hn : ¬ n < Nat.pow 2 63) (hstop : Stops Char.isDigit rest) :
    Yields (n.repr.toList ++ rest) [] (n.repr.toList ++ rest) := by
  apply stop
  apply Token.scan_fails_of_not_inRange (Text.repr_toList_ne_nil n) ⟨Text.isDigit_repr n, hstop⟩
  rw [Text.ofDigitChars_repr, Literal.inRange_natCast]
  exact hn

end Yields

theorem Yields.assign (h : Yields rest ts unread) {key : String}
    (hkey : Name.isIdentifier key = true) (gap : Nat) :
    Yields (key.toList ++ (List.replicate gap ' ' ++ '=' :: (List.replicate gap ' ' ++ rest)))
      (.identifier key :: .delimiter .equal :: ts) unread := by
  have hequal := (h.spaces gap).delimiter .equal
  apply (hequal.spaces gap).identifier hkey
  cases gap with
  | zero => exact (Text.stops_cons _ _ _).mpr (by decide)
  | succ gap => exact (Text.stops_cons _ _ _).mpr (by decide)

theorem Yields.tokenize_eq {s : List Char} (h : Yields s ts []) :
    ∃ placed, (tokenize Position.start s).1 = .ok placed ∧
      (placed.map Placed.token).filter (!·.isTrivia) = ts := by
  obtain ⟨ls, hs, hcover, rfl⟩ := h
  rw [List.append_nil] at hs
  refine ⟨_, tokenize_eq_ok.mpr ⟨ls, hcover, hs, rfl⟩, ?_⟩
  rw [Placed.sequence_map_token]
  rfl

theorem Yields.significant_eq {s : List Char} (h : Yields s ts unread) (hne : unread ≠ []) :
    ∃ found column, Declaration.significant s = .error (.unreadable found column) := by
  obtain ⟨ls, rfl, hcover, -⟩ := h
  unfold Declaration.significant
  rw [tokenize_of_cover Position.start hcover hne]
  exact ⟨_, _, rfl⟩

end Lexeme

namespace Layout
open Lexeme (Yields)
open Text (Stops)

def gap (layout : Layout) : Nat := if layout.spacedOperators then 1 else 0

theorem assign_toList (layout : Layout) (key value : String) :
    (layout.assign key value).toList = key.toList ++ (List.replicate layout.gap ' ' ++
      '=' :: (List.replicate layout.gap ' ' ++ value.toList)) := by
  unfold assign gap
  cases layout.spacedOperators <;> simp

def numbered (layout : Layout) (k : Keyword) (key : String) (n : Nat) (tail : List Char) :
    List Char :=
  List.replicate layout.indent ' ' ++ (k.spelling.toList ++ (':' :: ' ' ::
    (key.toList ++ (List.replicate layout.gap ' ' ++
      '=' :: (List.replicate layout.gap ' ' ++ (n.repr.toList ++ tail))))))

def activationTail (layout : Layout) (a : Activation) : List Char :=
  ',' :: ' ' :: ("activation".toList ++ (List.replicate layout.gap ' ' ++
    '=' :: (List.replicate layout.gap ' ' ++ ('"' :: (a.name.toList ++ ['"'])))))

theorem marginLine_input (layout : Layout) (n : Nat) :
    Writer.marginLine layout.indent 1 ("input: " ++ layout.assign "size" n.repr) =
      layout.numbered .input "size" n [] := by
  unfold Writer.marginLine
  rw [if_neg (by simp)]
  simp [numbered, assign_toList, Keyword.spelling]

theorem marginLine_layer (layout : Layout) (l : Layer) :
    Writer.marginLine layout.indent 1 (layout.layerLine l) =
      layout.numbered .layer "units" l.units (layout.activationTail l.activation) := by
  unfold Writer.marginLine layerLine
  rw [if_neg (by simp)]
  simp [numbered, activationTail, assign_toList, Keyword.spelling]

theorem yields_numbered (layout : Layout) (k : Keyword) {key : String} {n : Nat}
    {tail unread : List Char} {ts : List Token} (hkey : Name.isIdentifier key = true)
    (h : Yields (n.repr.toList ++ tail) ts unread) :
    Yields (layout.numbered k key n tail)
      (.keyword k :: .delimiter .colon :: .identifier key :: .delimiter .equal :: ts) unread := by
  -- From the number outwards to the margin.
  have hassign := h.assign hkey layout.gap
  have hcolon := (hassign.spaces 1).delimiter .colon
  have hkeyword := hcolon.keyword k ((Text.stops_cons _ _ _).mpr (by decide))
  exact hkeyword.spaces layout.indent

theorem opens_numbered (layout : Layout) (k : Keyword) (key : String) (n : Nat) (tail : List Char) :
    LineKind.Opens (.declares k) (layout.numbered k key n tail) := by
  refine .declares ?_ ((Text.stops_cons _ _ _).mpr (by decide))
  intro c hc
  rw [List.eq_of_mem_replicate hc]
  decide

theorem declares_numbered (layout : Layout) {d : Declaration} {k : Keyword} {key : String} {n : Nat}
    {tail : List Char} {ts : List Token} (hkey : Name.isIdentifier key = true)
    (hn : n < Nat.pow 2 63) (hstop : Stops Char.isDigit tail) (h : Yields tail ts [])
    (hform : d.Form (.keyword k :: .delimiter .colon :: .identifier key :: .delimiter .equal ::
      .literal (.integer n) :: ts)) :
    Declaration.Declares (layout.numbered k key n tail) (some d) := by
  obtain ⟨placed, hplaced, hts⟩ := (layout.yields_numbered k hkey (h.number hn hstop)).tokenize_eq
  refine ⟨⟨_, layout.opens_numbered k key n tail⟩, placed, hplaced, ?_⟩
  rw [hts]
  exact hform

theorem ofLine?_numbered (layout : Layout) (k : Keyword) {key : String} {n : Nat} {tail : List Char}
    (hkey : Name.isIdentifier key = true) (hn : ¬ n < Nat.pow 2 63)
    (hstop : Stops Char.isDigit tail) :
    ∃ found column, Declaration.ofLine? (layout.numbered k key n tail) =
      some (.error (.unreadable found column)) := by
  have hyields := layout.yields_numbered k hkey (Yields.tooLarge hn hstop)
  have hne : n.repr.toList ++ tail ≠ [] := by
    intro h
    exact Text.repr_toList_ne_nil n (List.append_eq_nil_iff.mp h).1
  obtain ⟨found, column, hsignificant⟩ := hyields.significant_eq hne
  refine ⟨found, column, ?_⟩
  unfold Declaration.ofLine?
  rw [LineKind.ofLine?_eq_some.mpr (layout.opens_numbered k key n tail), hsignificant]
  rfl

theorem yields_activationTail (layout : Layout) (a : Activation) :
    Yields (layout.activationTail a) [.delimiter .comma, .identifier "activation",
      .delimiter .equal, .literal (.string a.name)] [] := by
  have hname : ∀ c ∈ a.name.toList, Token.isStringPart c = true := by
    rw [← List.all_eq_true]
    cases a <;> decide
  have hstring := Yields.nil.read (.string hname)
  rw [String.ofList_toList, List.append_nil] at hstring
  have hassign := hstring.assign (show Name.isIdentifier "activation" = true by decide) layout.gap
  exact (hassign.spaces 1).delimiter .comma

theorem declares_input (layout : Layout) {n : Nat} (hn : n < Nat.pow 2 63) :
    Declaration.Declares (layout.numbered .input "size" n []) (some (.input n)) :=
  layout.declares_numbered (by decide) hn (Text.stops_nil _) Yields.nil
    (.input n)

theorem declares_layer (layout : Layout) {l : Layer} (hn : l.units < Nat.pow 2 63) :
    Declaration.Declares
      (layout.numbered .layer "units" l.units (layout.activationTail l.activation))
      (some (.layer l.units l.activation.name)) :=
  layout.declares_numbered (by decide) hn ((Text.stops_cons _ _ _).mpr (by decide))
    (layout.yields_activationTail l.activation) (.layer l.units l.activation.name)

def modelLine (name : String) : List Char :=
  "model".toList ++ (' ' :: (name.toList ++ [' ', '{']))

theorem declares_model (m : Model) :
    Declaration.Declares (modelLine m.name) (some (.model m.name)) := by
  have hbrace := Yields.nil.delimiter .openBrace
  have hname := (hbrace.spaces 1).identifier m.isIdentifier_name
    ((Text.stops_cons _ _ _).mpr (by decide))
  have hyields := (hname.spaces 1).keyword .model ((Text.stops_cons _ _ _).mpr (by decide))
  obtain ⟨placed, hplaced, hts⟩ := hyields.tokenize_eq
  refine ⟨⟨.declares .model, ?_⟩, placed, hplaced, ?_⟩
  · exact @LineKind.Opens.declares [] _ .model (by simp) ((Text.stops_cons _ _ _).mpr (by decide))
  · rw [hts]
    exact .model m.name

theorem declares_close : Declaration.Declares ['}'] (some .close) := by
  have hyields := Yields.nil.delimiter .closeBrace
  obtain ⟨placed, hplaced, hts⟩ := hyields.tokenize_eq
  refine ⟨⟨.closes, ?_⟩, placed, hplaced, ?_⟩
  · exact @LineKind.Opens.closes [] [] (by simp)
  · rw [hts]
    exact .close

theorem declares_blank : Declaration.Declares [] none := LineKind.ofLine?_eq_none.mp rfl

end Layout
end Feedforward
