import Feedforward.Proofs.Lexical.Grammar

/-! What a scanner reads is in the lexical grammar: one lemma for each scanner,
and from these the one for the next token, `scan_reads`. -/
namespace Feedforward.Scanner
variable {α β : Type} {p q : Scanner α} {s : List Char}

def Fails (p : Scanner α) (s : List Char) : Prop := ∃ trail, p s = .error trail

theorem not_fails_of_ok {r : Scanned α} (h : p s = .ok r) : ¬ p.Fails s := by
  rintro ⟨trail, ht⟩
  rw [h] at ht
  cases ht

theorem fails_or_ok (p : Scanner α) (s : List Char) : p.Fails s ∨ ∃ r, p s = .ok r := by
  cases h : p s with
  | error trail => exact .inl ⟨trail, h⟩
  | ok r => exact .inr ⟨r, rfl⟩

@[simp] theorem noting_eq_ok {e : Expectation} {r : Scanned α} :
    p.noting e s = .ok r ↔ p s = .ok r := mapError_eq_ok

@[simp] theorem context_eq_ok {name : String} {r : Scanned α} :
    p.context name s = .ok r ↔ p s = .ok r := noting_eq_ok

@[simp] theorem map_eq_ok {f : α → β} {r : Scanned β} :
    p.map f s = .ok r ↔ ∃ a, p s = .ok a ∧ ⟨f a.value, a.lexeme, a.rest⟩ = r := by
  unfold map
  cases p s <;> simp [Except.map]

theorem orElse_eq_ok {r : Scanned α} :
    p.orElse q s = .ok r ↔ p s = .ok r ∨ p.Fails s ∧ q s = .ok r := by
  unfold orElse Fails
  cases p s <;> simp

theorem fails_of_not_ok (h : ∀ r, p s ≠ .ok r) : p.Fails s := by
  rcases fails_or_ok p s with hf | ⟨r, hr⟩
  · exact hf
  · exact absurd hr (h r)

end Feedforward.Scanner

namespace Feedforward.Token
open Text (Run Stops)

variable {s : List Char}

theorem longestRun_eq_ok {α : Type} {first part : Char → Bool} {value : String → α}
    {r : Scanned α} :
    longestRun first part value s = .ok r ↔ ∃ c run rest, s = c :: (run ++ rest) ∧
      first c = true ∧ Run part run rest ∧
      ⟨value (String.ofList (c :: run)), c :: run, rest⟩ = r := by
  constructor
  · intro h
    match s, h with
    | c :: t, h =>
      dsimp only [longestRun] at h
      split at h
      · next hc =>
        have hsplit := List.takeWhile_append_dropWhile (p := part) (l := t)
        exact ⟨c, _, _, by rw [hsplit], hc, Text.run_takeWhile part t, Except.ok.inj h⟩
      · cases h
  · rintro ⟨c, run, rest, rfl, hc, hrun, rfl⟩
    simp [longestRun, hc, hrun.takeWhile_eq, hrun.dropWhile_eq]

theorem word_eq_ok {r : Scanned String} :
    word s = .ok r ↔ s = r.lexeme ++ r.rest ∧ Name.isWord r.lexeme = true ∧
      Stops isWordPart r.rest ∧ r.value = String.ofList r.lexeme := by
  rw [word, Scanner.context_eq_ok, longestRun_eq_ok]
  constructor
  · rintro ⟨c, run, rest, rfl, hc, hrun, rfl⟩
    refine ⟨rfl, ?_, hrun.stops, rfl⟩
    rw [Name.isWord, hc, Bool.true_and, List.all_eq_true]
    exact hrun.all
  · rintro ⟨hs, hw, hstop, hv⟩
    obtain ⟨value, lexeme, rest⟩ := r
    dsimp only at hv
    subst hv
    cases lexeme with
    | nil => cases hw
    | cons c run =>
      rw [Name.isWord, Bool.and_eq_true, List.all_eq_true] at hw
      exact ⟨c, run, rest, hs, hw.1, ⟨hw.2, hstop⟩, rfl⟩

theorem scanBlanks_eq_ok {r : Scanned Token} :
    scanBlanks s = .ok r ↔ ∃ text rest, s = text ++ rest ∧ text ≠ [] ∧ Run isBlank text rest ∧
      ⟨.blanks (String.ofList text), text, rest⟩ = r := by
  rw [scanBlanks, Scanner.context_eq_ok, longestRun_eq_ok]
  constructor
  · rintro ⟨c, run, rest, rfl, hc, hrun, rfl⟩
    have hall : ∀ x ∈ c :: run, isBlank x = true := List.forall_mem_cons.mpr ⟨hc, hrun.all⟩
    exact ⟨c :: run, rest, rfl, List.cons_ne_nil c run, ⟨hall, hrun.stops⟩, rfl⟩
  · rintro ⟨text, rest, rfl, hne, hrun, rfl⟩
    obtain ⟨c, run, rfl⟩ := List.exists_cons_of_ne_nil hne
    exact ⟨c, run, rest, rfl, hrun.all c List.mem_cons_self, hrun.tail, rfl⟩

theorem scanKeyword_eq_ok {r : Scanned Token} :
    scanKeyword s = .ok r ↔
      ∃ a k, word s = .ok a ∧ Keyword.ofString? a.value = some k ∧
        ⟨.keyword k, a.lexeme, a.rest⟩ = r := by
  unfold scanKeyword
  rw [Scanner.context_eq_ok]
  constructor
  · intro h
    split at h
    · cases h
    · next a ha =>
      split at h
      · cases h
      · next k hk => exact ⟨a, k, ha, hk, Except.ok.inj h⟩
  · rintro ⟨a, k, ha, hk, rfl⟩
    simp [ha, hk]

theorem integerAfter_eq_ok {sign : List Char} {value : Nat → Int} {r : Scanned Literal} :
    integerAfter sign value s = .ok r ↔ ∃ digits rest, s = digits ++ rest ∧ digits ≠ [] ∧
      Run Char.isDigit digits rest ∧
      Literal.InRange (value (Nat.ofDigitChars 10 digits 0)) ∧
      ⟨.integer (value (Nat.ofDigitChars 10 digits 0)), sign ++ digits, rest⟩ = r := by
  unfold integerAfter
  dsimp only
  constructor
  · intro h
    split at h
    · cases h
    · next hd =>
      split at h
      · next hr =>
        exact ⟨_, _, List.takeWhile_append_dropWhile.symm, hd, Text.run_takeWhile _ s, hr,
          Except.ok.inj h⟩
      · cases h
  · rintro ⟨digits, rest, rfl, hd, hrun, hr, rfl⟩
    rw [hrun.takeWhile_eq, hrun.dropWhile_eq, if_neg hd, if_pos hr]

theorem scan_eq_ok {r : Scanned Token} :
    scan s = .ok r ↔ scanBlanks s = .ok r ∨ scanBlanks.Fails s ∧
      (scanNewline s = .ok r ∨ scanNewline.Fails s ∧
      (scanComment s = .ok r ∨ scanComment.Fails s ∧
      (scanLiteral s = .ok r ∨ scanLiteral.Fails s ∧
      (scanKeyword s = .ok r ∨ scanKeyword.Fails s ∧
      (scanIdentifier s = .ok r ∨ scanIdentifier.Fails s ∧ scanDelimiter s = .ok r))))) := by
  simp only [scan, Scanner.noting_eq_ok, Scanner.orElse_eq_ok]

theorem scanBlanks_reads {r : Scanned Token} (h : scanBlanks s = .ok r) :
    Reads r.value r.lexeme r.rest := by
  obtain ⟨text, rest, -, hne, hrun, rfl⟩ := scanBlanks_eq_ok.mp h
  exact .blanks hne hrun

theorem scanNewline_reads {r : Scanned Token} (h : scanNewline s = .ok r) :
    Reads r.value r.lexeme r.rest := by
  unfold scanNewline at h
  rw [Scanner.context_eq_ok, Scanner.noting_eq_ok] at h
  split at h
  · cases h; exact .returnAndLineFeed
  · cases h; exact .lineFeed
  · cases h

theorem commentToLineEnd_eq_ok {style : CommentStyle} {marker body : List Char}
    {r : Scanned Token} :
    commentToLineEnd style marker body = .ok r ↔ ∃ text rest, body = text ++ rest ∧
      Run (!isLineEnd ·) text rest ∧ atLineEnd rest = true ∧
      ⟨.comment style (String.ofList (Text.trim text)), marker ++ text, rest⟩ = r := by
  unfold commentToLineEnd
  dsimp only
  constructor
  · intro h
    split at h
    · next he =>
      exact ⟨_, _, List.takeWhile_append_dropWhile.symm, Text.run_takeWhile _ body, he,
        Except.ok.inj h⟩
    · cases h
  · rintro ⟨text, rest, rfl, hrun, he, rfl⟩
    rw [hrun.takeWhile_eq, hrun.dropWhile_eq, if_pos he]

theorem closing_infix_cons {c : Char} {body : List Char} :
    ['*', '/'] <:+: c :: body ++ ['*'] ↔
      (c = '*' ∧ body.head? = some '/') ∨ ['*', '/'] <:+: body ++ ['*'] := by
  rw [List.cons_append, List.infix_cons_iff, List.cons_prefix_cons]
  cases body with
  | nil => simp
  | cons d t =>
    rw [List.cons_append, List.cons_prefix_cons, List.head?_cons, Option.some.injEq]
    simp [eq_comm]

theorem not_closing_infix_nil : ¬ ['*', '/'] <:+: [] ++ ['*'] := by
  intro h
  have := h.length_le
  simp at this

theorem splitAtClosing?_first {body rest : List Char}
    (h : splitAtClosing? s = some (body, rest)) : ¬ ['*', '/'] <:+: body ++ ['*'] := by
  fun_induction splitAtClosing? s generalizing body with
  | case1 => cases h
  | case2 =>
    cases h
    exact not_closing_infix_nil
  | case3 c s hne ih =>
    obtain ⟨⟨b, t⟩, hb, he⟩ := Option.map_eq_some_iff.mp h
    cases he
    rw [closing_infix_cons]
    rintro (⟨rfl, hhead⟩ | hin)
    · -- A closing that starts here would have been taken.
      rw [splitAtClosing?_eq hb] at hne
      cases b with
      | nil => simp at hhead
      | cons d b =>
        cases hhead
        exact hne _ rfl rfl
    · exact ih hb hin

theorem scanBlockComment_reads {r : Scanned Token} (h : scanBlockComment s = .ok r) :
    Reads r.value r.lexeme r.rest := by
  unfold scanBlockComment at h
  rw [Scanner.context_eq_ok] at h
  split at h
  · next t =>
    split at h
    · cases h
    · next body rest hs =>
      cases h
      exact .blockComment (splitAtClosing?_first hs)
  · cases h

theorem scanLineComment_reads {r : Scanned Token} (h : scanLineComment s = .ok r) :
    Reads r.value r.lexeme r.rest := by
  unfold scanLineComment at h
  rw [Scanner.context_eq_ok] at h
  split at h
  · obtain ⟨text, rest, -, hrun, he, rfl⟩ := commentToLineEnd_eq_ok.mp h
    exact .lineComment hrun he
  · cases h

theorem scanHashComment_reads {r : Scanned Token} (h : scanHashComment s = .ok r) :
    Reads r.value r.lexeme r.rest := by
  unfold scanHashComment at h
  rw [Scanner.context_eq_ok] at h
  split at h
  · obtain ⟨text, rest, -, hrun, he, rfl⟩ := commentToLineEnd_eq_ok.mp h
    exact .hashComment hrun he
  · cases h

theorem scanComment_reads {r : Scanned Token} (h : scanComment s = .ok r) :
    Reads r.value r.lexeme r.rest := by
  unfold scanComment at h
  rw [Scanner.context_eq_ok, Scanner.noting_eq_ok, Scanner.orElse_eq_ok,
    Scanner.orElse_eq_ok] at h
  rcases h with h | ⟨-, h | ⟨-, h⟩⟩
  · exact scanBlockComment_reads h
  · exact scanLineComment_reads h
  · exact scanHashComment_reads h

theorem scanString_reads {r : Scanned Literal} (h : scanString s = .ok r) :
    Reads (.literal r.value) r.lexeme r.rest := by
  unfold scanString at h
  rw [Scanner.context_eq_ok] at h
  split at h
  · next t =>
    split at h
    · cases h
      exact .string (Text.run_takeWhile isStringPart t).all
    · cases h
  · cases h

theorem scanInteger_reads {r : Scanned Literal} (h : scanInteger s = .ok r) :
    Reads (.literal r.value) r.lexeme r.rest := by
  unfold scanInteger at h
  rw [Scanner.context_eq_ok] at h
  split at h
  · obtain ⟨digits, rest, -, hd, hrun, hr, rfl⟩ := integerAfter_eq_ok.mp h
    exact .negative hd hrun hr
  · obtain ⟨digits, rest, -, hd, hrun, hr, rfl⟩ := integerAfter_eq_ok.mp h
    exact .natural hd hrun hr

theorem scanLiteral_reads {r : Scanned Token} (h : scanLiteral s = .ok r) :
    Reads r.value r.lexeme r.rest := by
  unfold scanLiteral at h
  rw [Scanner.context_eq_ok, Scanner.map_eq_ok] at h
  obtain ⟨a, ha, rfl⟩ := h
  rw [Scanner.noting_eq_ok, Scanner.orElse_eq_ok] at ha
  rcases ha with ha | ⟨-, ha⟩
  · exact scanString_reads ha
  · exact scanInteger_reads ha

theorem scanKeyword_reads {r : Scanned Token} (h : scanKeyword s = .ok r) :
    Reads r.value r.lexeme r.rest := by
  obtain ⟨a, k, ha, hk, rfl⟩ := scanKeyword_eq_ok.mp h
  obtain ⟨-, -, hstop, hv⟩ := word_eq_ok.mp ha
  have hl : a.lexeme = k.spelling.toList := by
    rw [Keyword.spelling_of_ofString? hk, hv, String.toList_ofList]
  dsimp only
  rw [hl]
  exact .keyword hstop

/-- Only a word that is no keyword is left to be an identifier. -/
theorem scanIdentifier_reads {r : Scanned Token} (hk : scanKeyword.Fails s)
    (h : scanIdentifier s = .ok r) : Reads r.value r.lexeme r.rest := by
  unfold scanIdentifier at h
  rw [Scanner.map_eq_ok] at h
  obtain ⟨a, ha, rfl⟩ := h
  obtain ⟨-, hw, hstop, hv⟩ := word_eq_ok.mp ha
  dsimp only
  rw [hv]
  refine .identifier hw hstop ?_
  cases hof : Keyword.ofString? a.value with
  | none => rw [← hv, hof]
  | some k => exact absurd hk (Scanner.not_fails_of_ok (scanKeyword_eq_ok.mpr ⟨a, k, ha, hof, rfl⟩))

theorem scanDelimiter_eq_ok {r : Scanned Token} :
    scanDelimiter s = .ok r ↔ ∃ d t, s = d.char :: t ∧ ⟨.delimiter d, [d.char], t⟩ = r := by
  unfold scanDelimiter
  rw [Scanner.context_eq_ok, Scanner.noting_eq_ok]
  constructor
  · intro h
    match s, h with
    | c :: t, h =>
      dsimp only at h
      split at h
      · cases h
      · next d hd =>
        cases h
        cases Delimiter.char_of_ofChar? hd
        exact ⟨d, t, rfl, rfl⟩
  · rintro ⟨d, t, rfl, rfl⟩
    simp [Delimiter.ofChar?_char]

theorem scan_reads {r : Scanned Token} (h : scan s = .ok r) : Reads r.value r.lexeme r.rest := by
  rcases scan_eq_ok.mp h with
    h | ⟨-, h | ⟨-, h | ⟨-, h | ⟨-, h | ⟨hk, h | ⟨-, h⟩⟩⟩⟩⟩⟩
  · exact scanBlanks_reads h
  · exact scanNewline_reads h
  · exact scanComment_reads h
  · exact scanLiteral_reads h
  · exact scanKeyword_reads h
  · exact scanIdentifier_reads hk h
  · obtain ⟨d, t, -, rfl⟩ := scanDelimiter_eq_ok.mp h
    exact .delimiter

end Feedforward.Token
