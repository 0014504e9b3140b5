import Feedforward.Proofs.Lexical.Completeness

/-! How far a token looks ahead. What may follow a lexeme depends on its token
alone, and mostly on one character of the text after it; so a lexeme stays one
in front of other text that starts alike. -/
namespace Feedforward.Token.Reads
variable {t : Token} {lexeme rest : List Char}

theorem lexeme_ne_nil (h : Reads t lexeme rest) : lexeme ≠ [] :=
  (scan_exact _ _ h.scan_append).1

theorem lexeme_ne_return (h : Reads t lexeme rest) : lexeme ≠ ['\r'] := by
  intro he
  cases h with
  | blanks _ hrun =>
    subst he
    exact absurd (hrun.all '\r' List.mem_cons_self) (by decide)
  | natural _ hrun _ =>
    subst he
    exact absurd (hrun.all '\r' List.mem_cons_self) (by decide)
  | identifier hw _ _ =>
    subst he
    exact absurd hw (by decide)
  | @keyword k _ _ => cases k <;> simp [Keyword.spelling] at he
  | @delimiter d _ => cases d <;> simp [Delimiter.char] at he
  | lineFeed => simp at he
  | returnAndLineFeed => simp at he
  | blockComment _ => simp at he
  | lineComment _ _ => simp at he
  | hashComment _ _ => simp at he
  | string _ => simp at he
  | negative _ _ _ => simp at he

end Feedforward.Token.Reads

namespace Feedforward.Token
open Text (Stops)
variable {t : Token} {lexeme rest tail : List Char}

theorem atLineEnd_iff {s : List Char} :
    atLineEnd s = true ↔ s = [] ∨ (∃ t, s = '\n' :: t) ∨ ∃ t, s = '\r' :: '\n' :: t := by
  constructor
  · intro h
    unfold atLineEnd at h
    split at h
    · exact .inl rfl
    · exact .inr (.inl ⟨_, rfl⟩)
    · exact .inr (.inr ⟨_, rfl⟩)
    · cases h
  · rintro (rfl | ⟨t, rfl⟩ | ⟨t, rfl⟩) <;> rfl

theorem stops_of_atLineEnd {p : Char → Bool} {s : List Char} (h : atLineEnd s = true)
    (hr : p '\r' = false) (hn : p '\n' = false) : Stops p s := by
  rcases atLineEnd_iff.mp h with rfl | ⟨s, rfl⟩ | ⟨s, rfl⟩
  · exact Text.stops_nil p
  · exact (Text.stops_cons _ _ _).mpr hn
  · exact (Text.stops_cons _ _ _).mpr hr

theorem atLineEnd_of_initial {short rest : List Char} (h : atLineEnd rest = true)
    (hs : short <+: rest) (hne : short ≠ ['\r']) : atLineEnd short = true := by
  match short with
  | [] => rfl
  | [c] =>
    rcases atLineEnd_iff.mp h with rfl | ⟨t, rfl⟩ | ⟨t, rfl⟩
    · simp at hs
    · rw [(List.cons_prefix_cons.mp hs).1]
      rfl
    · rw [(List.cons_prefix_cons.mp hs).1] at hne
      contradiction
  | c :: d :: u =>
    rcases atLineEnd_iff.mp h with rfl | ⟨t, rfl⟩ | ⟨t, rfl⟩
    · simp at hs
    · rw [(List.cons_prefix_cons.mp hs).1]
      rfl
    · obtain ⟨hc, hs⟩ := List.cons_prefix_cons.mp hs
      rw [hc, (List.cons_prefix_cons.mp hs).1]
      rfl

/-- A class of characters that a lexeme may run through. It holds no line end,
and all digits or none. -/
structure RunClass (p : Char → Bool) : Prop where
  return_not : p '\r' = false
  feed_not : p '\n' = false
  digits : ∀ {c d : Char}, c.isDigit = true → d.isDigit = true → p c = p d

theorem runClass_isWordPart : RunClass isWordPart where
  return_not := by decide
  feed_not := by decide
  digits hc hd := by simp [isWordPart, Char.isAlphanum, hc, hd]

theorem runClass_isDigit : RunClass Char.isDigit where
  return_not := by decide
  feed_not := by decide
  digits hc hd := hc.trans hd.symm

theorem runClass_isBlank : RunClass isBlank where
  return_not := by decide
  feed_not := by decide
  digits hc hd := by
    rw [(isLiteralStart_disjoint (Reads.isLiteralStart_of_isDigit hc)).1,
      (isLiteralStart_disjoint (Reads.isLiteralStart_of_isDigit hd)).1]

/-- The text can stand after a lexeme of the token, which then ends there. -/
def Before : Token → List Char → Prop
  | keyword _, rest | identifier _, rest => Stops isWordPart rest
  | literal (.integer _), rest => Stops Char.isDigit rest
  | blanks _, rest => Stops isBlank rest
  | comment .line _, rest | comment .hash _, rest => atLineEnd rest = true
  | comment .block _, _ | literal (.string _), _ | delimiter _, _ | newline, _ => True

theorem before_nil (t : Token) : t.Before [] := by
  unfold Before
  split <;> first | exact Text.stops_nil _ | exact rfl | trivial

namespace Reads

theorem before (h : Reads t lexeme rest) : t.Before rest := by
  cases h with
  | blanks _ hrun => exact hrun.stops
  | lineComment _ hend => exact hend
  | hashComment _ hend => exact hend
  | natural _ hrun _ => exact hrun.stops
  | negative _ hrun _ => exact hrun.stops
  | keyword hstop => exact hstop
  | identifier _ hstop _ => exact hstop
  | lineFeed | returnAndLineFeed | blockComment | string | delimiter => trivial

theorem of_before (h : Reads t lexeme rest) (htail : t.Before tail) : Reads t lexeme tail := by
  cases h with
  | blanks hne hrun => exact .blanks hne ⟨hrun.all, htail⟩
  | lineFeed => exact .lineFeed
  | returnAndLineFeed => exact .returnAndLineFeed
  | blockComment hbody => exact .blockComment hbody
  | lineComment hrun _ =>
    exact .lineComment ⟨hrun.all, stops_of_atLineEnd htail (by decide) (by decide)⟩ htail
  | hashComment hrun _ =>
    exact .hashComment ⟨hrun.all, stops_of_atLineEnd htail (by decide) (by decide)⟩ htail
  | string hcontent => exact .string hcontent
  | natural hne hrun hrange => exact .natural hne ⟨hrun.all, htail⟩ hrange
  | negative hne hrun hrange => exact .negative hne ⟨hrun.all, htail⟩ hrange
  | keyword _ => exact .keyword htail
  | identifier hword _ hkeyword => exact .identifier hword htail hkeyword
  | delimiter => exact .delimiter

theorem newline_of_atLineEnd (h : Reads t lexeme rest) (hend : atLineEnd (lexeme ++ rest) = true) :
    t = .newline := by
  rcases atLineEnd_iff.mp hend with hnil | ⟨s, hs⟩ | ⟨s, hs⟩
  · exact absurd (List.append_eq_nil_iff.mp hnil).1 h.lexeme_ne_nil
  · have hfeed : Reads .newline ['\n'] s := .lineFeed
    exact (h.determined hfeed hs).1
  · have hfeed : Reads .newline ['\r', '\n'] s := .returnAndLineFeed
    exact (h.determined hfeed hs).1

end Reads

/-- Other text can follow a token as well, if no class of characters and no line
end tells the two apart. -/
theorem Before.map (h : t.Before rest)
    (hstops : ∀ {p : Char → Bool}, RunClass p → Stops p rest → Stops p tail)
    (hend : atLineEnd rest = true → atLineEnd tail = true) : t.Before tail := by
  cases t with
  | keyword | identifier => exact hstops runClass_isWordPart h
  | blanks => exact hstops runClass_isBlank h
  | literal l =>
    cases l with
    | integer => exact hstops runClass_isDigit h
    | string => trivial
  | comment style =>
    cases style with
    | line | hash => exact hend h
    | block => trivial
  | delimiter | newline => trivial

/-- Less text after a lexeme does not change how it is read, unless a line end is cut in two. -/
theorem Reads.of_initial {short : List Char} (h : Reads t lexeme rest)
    (hs : short <+: rest) (hne : short ≠ ['\r']) : Reads t lexeme short :=
  h.of_before (h.before.map (fun _ hp => hp.of_initial hs)
    fun he => atLineEnd_of_initial he hs hne)

theorem Before.of_reads {u : Token} (h : t.Before (lexeme ++ rest)) (hread : Reads u lexeme rest)
    (tail : List Char) : t.Before (lexeme ++ tail) := by
  apply h.map
  · intro p _ hp
    exact (hp.of_initial (List.prefix_append _ _)).append hread.lexeme_ne_nil tail
  · intro he
    cases hread.newline_of_atLineEnd he
    cases hread <;> rfl

end Feedforward.Token
