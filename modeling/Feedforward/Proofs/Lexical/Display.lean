import Feedforward.Proofs.Lexical.Lookahead
import Feedforward.Proofs.Lexical.Rules
import Feedforward.Proofs.Lexical.Spans

/-! Displayed tokens read back. The text that a token is shown as is a lexeme of
that token, and starts so much like the lexeme it was read from that the tokens
of a text can be shown one after the other. Only a zero with a minus sign, which
is shown without it, may run into a number before it. -/
namespace Feedforward.Text

theorem Trimmed.subset {body content : List Char} (h : Trimmed body content) : content ⊆ body := by
  obtain ⟨⟨front, back, rfl, -, -⟩, -, -⟩ := h
  intro c hc
  simp [hc]

theorem Trimmed.trim_pad {body content : List Char} (h : Trimmed body content) {back : List Char}
    (hback : ∀ c ∈ back, isSpace c = true) : trim (' ' :: (content ++ back)) = content := by
  apply Trimmed.trim_eq
  have hfront : ∀ c ∈ [' '], isSpace c = true := List.forall_mem_singleton.mpr (by decide)
  exact ⟨⟨[' '], back, by simp, hfront, hback⟩, h.head, h.last⟩

theorem trim_pad_start (body : List Char) : trim (' ' :: trim body) = trim body := by
  have hback : ∀ c ∈ ([] : List Char), isSpace c = true := by simp
  simpa using (trimmed_trim body).trim_pad hback

/-- A space before the end of a comment keeps it from ending sooner. -/
theorem closing_infix_of_padded {s : List Char} (h : ['*', '/'] <:+: ' ' :: (s ++ [' ', '*'])) :
    ['*', '/'] <:+: s := by
  have htail : ['*', '/'] <:+: s ++ [' ', '*'] := by
    rw [List.infix_cons_iff, List.cons_prefix_cons] at h
    exact h.resolve_left fun h => absurd h.1 (by decide)
  clear h
  induction s with
  | nil => exact absurd htail (by decide)
  | cons c s ih =>
    rw [List.cons_append, List.infix_cons_iff, List.cons_prefix_cons] at htail
    rw [List.infix_cons_iff, List.cons_prefix_cons]
    rcases htail with ⟨hc, hslash⟩ | htail
    · left
      refine ⟨hc, ?_⟩
      cases s with
      | nil => exact absurd hslash (by decide)
      | cons d s =>
        rw [List.cons_append, List.cons_prefix_cons] at hslash
        exact List.cons_prefix_cons.mpr ⟨hslash.1, List.nil_prefix⟩
    · exact .inr (ih htail)

end Feedforward.Text

namespace Feedforward.Token
open Text (Run Stops)
variable {t u : Token} {lexeme rest tail : List Char}

theorem decimal_neg_natCast (n : Nat) (hn : n ≠ 0) : decimal (-(n : Int)) = "-" ++ n.repr := by
  cases n with
  | zero => contradiction
  | succ n => rfl

theorem reads_repr {n : Nat} (hn : Literal.InRange n) (htail : Stops Char.isDigit tail) :
    Reads (.literal (.integer n)) n.repr.toList tail := by
  have hread : Reads (.literal (.integer (Nat.ofDigitChars 10 n.repr.toList 0)))
      n.repr.toList tail :=
    .natural (Text.repr_toList_ne_nil n) ⟨Text.isDigit_repr n, htail⟩
      (by rw [Text.ofDigitChars_repr]; exact hn)
  rw [Text.ofDigitChars_repr] at hread
  exact hread

theorem reads_decimal_neg {n : Nat} (hn : Literal.InRange (-(n : Int)))
    (htail : Stops Char.isDigit tail) :
    Reads (.literal (.integer (-(n : Int)))) (decimal (-(n : Int))).toList tail := by
  by_cases hzero : n = 0
  · subst hzero
    exact reads_repr (n := 0) (by decide) htail
  · have hread : Reads (.literal (.integer (-(Nat.ofDigitChars 10 n.repr.toList 0 : Int))))
        ('-' :: n.repr.toList) tail :=
      .negative (Text.repr_toList_ne_nil n) ⟨Text.isDigit_repr n, htail⟩
        (by rw [Text.ofDigitChars_repr]; exact hn)
    rw [Text.ofDigitChars_repr] at hread
    rw [decimal_neg_natCast n hzero, String.toList_append]
    exact hread

theorem run_padded {body : List Char} (h : Run (!isLineEnd ·) body rest)
    (htail : atLineEnd tail = true) : Run (!isLineEnd ·) (' ' :: Text.trim body) tail := by
  refine ⟨List.forall_mem_cons.mpr ⟨by decide, ?_⟩,
    stops_of_atLineEnd htail (by decide) (by decide)⟩
  intro c hc
  exact h.all c ((Text.trimmed_trim body).subset hc)

theorem Reads.display (h : Reads t lexeme rest) (htail : t.Before tail) :
    Reads t t.display.toList tail := by
  cases h with
  | blanks hne hrun =>
    rw [Token.display, String.toList_ofList]
    exact .blanks hne ⟨hrun.all, htail⟩
  | lineFeed => exact .lineFeed
  | returnAndLineFeed => exact .lineFeed
  | @blockComment body _ hbody =>
    have htrim := Text.trimmed_trim body
    have hpadded : ¬ ['*', '/'] <:+: ' ' :: (Text.trim body ++ [' ']) ++ ['*'] := by
      intro hinfix
      obtain ⟨⟨front, back, heq, -, -⟩, -, -⟩ := htrim
      have hcontent := Text.closing_infix_of_padded (by simpa using hinfix)
      apply hbody
      rw [heq]
      exact hcontent.trans ⟨front, back ++ ['*'], by simp⟩
    have hread : Reads _ _ tail := .blockComment hpadded
    rw [htrim.trim_pad (List.forall_mem_singleton.mpr (by decide))] at hread
    simpa [Token.display] using hread
  | lineComment hrun _ =>
    have hread := Reads.lineComment (run_padded hrun htail) htail
    rw [Text.trim_pad_start] at hread
    simpa [Token.display] using hread
  | hashComment hrun _ =>
    have hread := Reads.hashComment (run_padded hrun htail) htail
    rw [Text.trim_pad_start] at hread
    simpa [Token.display] using hread
  | string hcontent =>
    have hread : Reads _ _ tail := .string hcontent
    simpa [Token.display, Literal.spelling] using hread
  | natural _ _ hrange => exact reads_repr hrange htail
  | negative _ _ hrange => exact reads_decimal_neg hrange htail
  | keyword _ => exact .keyword htail
  | identifier hword _ hkeyword =>
    rw [Token.display, String.toList_ofList]
    exact .identifier hword htail hkeyword
  | @delimiter d _ =>
    rw [Token.display, String.toList_singleton]
    exact .delimiter

/-- A zero with a minus sign, which a number cannot show. -/
def IsNegativeZero (t : Token) (lexeme : List Char) : Prop :=
  t = .literal (.integer 0) ∧ lexeme.head? = some '-'

/-- A token is shown with the first character of its lexeme, or one like it: a
line end as a line feed, and leading zeros left out. -/
theorem Reads.head?_display (h : Reads t lexeme rest) (hzero : ¬ IsNegativeZero t lexeme) :
    t.display.toList.head? = lexeme.head? ∨ t = .newline ∨
      ∃ c d, lexeme.head? = some c ∧ t.display.toList.head? = some d ∧
        c.isDigit = true ∧ d.isDigit = true := by
  cases h with
  | blanks | identifier => exact .inl (by rw [Token.display, String.toList_ofList])
  | lineFeed | returnAndLineFeed => exact .inr (.inl rfl)
  | blockComment | lineComment | hashComment | string =>
    exact .inl (by simp [Token.display, Literal.spelling])
  | natural hne hrun _ =>
    have hfirst {s : List Char} (hs : s ≠ []) (hall : ∀ c ∈ s, c.isDigit = true) :
        ∃ c, s.head? = some c ∧ c.isDigit = true := by
      cases s with
      | nil => contradiction
      | cons c s => exact ⟨c, rfl, hall c List.mem_cons_self⟩
    obtain ⟨c, hc, hcdigit⟩ := hfirst hne hrun.all
    obtain ⟨d, hd, hddigit⟩ := hfirst (Text.repr_toList_ne_nil _)
      (Text.isDigit_repr (Nat.ofDigitChars 10 lexeme 0))
    exact .inr (.inr ⟨c, d, hc, hd, hcdigit, hddigit⟩)
  | @negative digits _ _ _ _ =>
    have hvalue : Nat.ofDigitChars 10 digits 0 ≠ 0 := by
      intro h
      exact hzero ⟨by rw [h]; rfl, rfl⟩
    left
    rw [Token.display, Literal.spelling, decimal_neg_natCast _ hvalue, String.toList_append]
    rfl
  | keyword => exact .inl rfl
  | delimiter => exact .inl (by rw [Token.display, String.toList_singleton])

theorem Before.display (h : t.Before (lexeme ++ rest)) (hread : Reads u lexeme rest)
    (hzero : ¬ IsNegativeZero u lexeme) : t.Before (u.display.toList ++ tail) := by
  apply h.map
  · intro p hclass hp
    have hlexeme : Stops p lexeme := hp.of_initial (List.prefix_append _ _)
    apply Stops.append _ (hread.display u.before_nil).lexeme_ne_nil
    unfold Stops at hlexeme ⊢
    rcases hread.head?_display hzero with heq | rfl | ⟨c, d, hc, hd, hcdigit, hddigit⟩
    · rw [heq]
      exact hlexeme
    · rintro _ ⟨⟩
      exact hclass.feed_not
    · rw [hd]
      rintro _ ⟨⟩
      rw [hclass.digits hddigit hcdigit]
      exact hlexeme c hc
  · intro he
    rw [hread.newline_of_atLineEnd he]
    rfl

end Feedforward.Token

namespace Feedforward.Lexeme
open Token (Reads IsNegativeZero)
variable {ls : List Lexeme}

def shown (l : Lexeme) : Lexeme := ⟨l.token, l.token.display.toList⟩

theorem Cover.shown (h : Cover ls []) (hzero : ∀ l ∈ ls, ¬ IsNegativeZero l.token l.text) :
    Cover (ls.map Lexeme.shown) [] := by
  induction ls with
  | nil => exact h
  | cons l ls ih =>
    obtain ⟨hl, hls⟩ := h
    rw [List.forall_mem_cons] at hzero
    refine ⟨?_, ih hls hzero.2⟩
    apply hl.display
    have hbefore := hl.before
    -- What follows the token is the next one, as it is shown.
    cases ls with
    | nil => exact l.token.before_nil
    | cons m ls =>
      rw [List.append_nil, List.flatMap_cons] at hbefore
      rw [List.append_nil, List.map_cons, List.flatMap_cons]
      exact hbefore.display (by simpa using hls.1) (hzero.2 m List.mem_cons_self)

end Feedforward.Lexeme

namespace Feedforward

theorem tokenize_of_cover_map {p : Position} {ls : List Lexeme} (h : Lexeme.Cover ls []) :
    ∃ ts, (tokenize p (ls.flatMap Lexeme.text)).1 = .ok ts ∧
      ts.map Placed.token = ls.map Lexeme.token :=
  ⟨_, tokenize_eq_ok.mpr ⟨ls, h, rfl, rfl⟩, Placed.sequence_map_token p ls⟩

/-- Every token of a text reads back from what it is shown as, and so do all of
them from what they are shown as one after the other, unless a zero was spelled
with a minus sign. -/
theorem tokenize_displayed {p : Position} {s : List Char} {ts : List Placed}
    (h : (tokenize p s).1 = .ok ts) :
    (∀ t ∈ ts.map Placed.token, ∀ q, ∃ us,
      (tokenize q t.display.toList).1 = .ok us ∧ us.map Placed.token = [t]) ∧
    ((∀ l ∈ (Lexeme.cut s).1, l.token = .literal (.integer 0) → l.text.head? ≠ some '-') →
      ∀ q, ∃ us,
        (tokenize q ((ts.map Placed.token).flatMap fun t => t.display.toList)).1 = .ok us ∧
        us.map Placed.token = ts.map Placed.token) := by
  obtain ⟨ls, hcover, rfl, rfl⟩ := tokenize_eq_ok.mp h
  rw [Placed.sequence_map_token]
  constructor
  · intro t ht q
    obtain ⟨l, hl, rfl⟩ := List.mem_map.mp ht
    obtain ⟨rest, hread⟩ := hcover.reads_of_mem l hl
    have hshown : Lexeme.Cover [l.shown] [] :=
      ⟨hread.display l.token.before_nil, Token.scan_nil_fails⟩
    simpa [Lexeme.shown] using tokenize_of_cover_map (p := q) hshown
  · intro hzero q
    have hcut := Lexeme.cut_of_cover hcover
    rw [List.append_nil] at hcut
    rw [hcut] at hzero
    have hshown := hcover.shown fun l hl hneg => hzero l hl hneg.1 hneg.2
    simpa [List.flatMap_map, Lexeme.shown, Function.comp_def] using
      tokenize_of_cover_map (p := q) hshown

/-- Numbers with leading zeros and a minus sign, a comment and both line ends. -/
theorem tokenize_displayed_numbers :
    ∃ ts us, (tokenize .start "x-07=00\r\n//  a \n".toList).1 = .ok ts ∧
      (tokenize .start "x-7=0\n// a\n".toList).1 = .ok us ∧
      us.map Placed.token = ts.map Placed.token := by
  have hts : (tokenize .start "x-07=00\r\n//  a \n".toList).1 =
      .ok ((tokenize .start "x-07=00\r\n//  a \n".toList).1.toOption.getD []) := by
    decide +kernel
  have hzero : ∀ l ∈ (Lexeme.cut "x-07=00\r\n//  a \n".toList).1,
      l.token = .literal (.integer 0) → l.text.head? ≠ some '-' := by
    decide +kernel
  obtain ⟨us, hus, htokens⟩ := (tokenize_displayed hts).2 hzero .start
  refine ⟨_, us, hts, ?_, htokens⟩
  rw [← hus]
  decide +kernel

/-- A zero that loses its minus sign becomes a digit of the number before it. -/
example : ((tokenize .start "1-0".toList).1.toOption.getD []).map Placed.token =
      [.literal (.integer 1), .literal (.integer 0)] ∧
    ((tokenize .start "10".toList).1.toOption.getD []).map Placed.token =
      [.literal (.integer 10)] := by
  decide +kernel

end Feedforward
