import Feedforward.Proofs.Document.Canonical
import Feedforward.Proofs.Document.Survey
import Feedforward.Proofs.Lexical.Chunks

/-! Blanks and comments put into a line. They go between lexemes, where at most
they become part of blanks or of a comment that were there; so the tokens that
carry meaning stay, and with them whatever the document is read as. -/
namespace Feedforward.Token
open Text (Run Stops Unbroken)
variable {t : Token} {lexeme rest : List Char}

/-- Blanks and closed block comments on one line, in any order. -/
inductive Filler : List Char → Prop where
  | nil : Filler []
  | blank {c : Char} {s : List Char} : c = ' ' ∨ c = '\t' → Filler s → Filler (c :: s)
  | comment {body s : List Char} : ¬ ['*', '/'] <:+: body ++ ['*'] → Unbroken body → Filler s →
      Filler ('/' :: '*' :: (body ++ ['*', '/']) ++ s)

theorem filler_of_blanks {s : List Char} (h : ∀ c ∈ s, c = ' ' ∨ c = '\t') : Filler s := by
  induction s with
  | nil => exact .nil
  | cons c s ih =>
    obtain ⟨hc, hs⟩ := List.forall_mem_cons.mp h
    exact .blank hc (ih hs)

theorem Filler.unbroken {s : List Char} (h : Filler s) : Unbroken s := by
  induction h with
  | nil => exact Text.unbroken_nil
  | blank hc _ ih => rcases hc with rfl | rfl <;> simpa [isLineEnd] using ih
  | comment _ hbody _ ih => simpa [isLineEnd] using ⟨hbody, ih⟩

/-- After a lexeme, the text goes on with the same character as another, or with
one that ends every word. -/
def FollowsAs (tail rest : List Char) : Prop := tail.head? = rest.head? ∨ Stops isWordPart tail

theorem Filler.followsAs {s : List Char} (h : Filler s) (rest : List Char) :
    FollowsAs (s ++ rest) rest := by
  cases h with
  | nil => exact .inl rfl
  | blank hc _ =>
    right
    rw [List.cons_append, Text.stops_cons]
    rcases hc with rfl | rfl <;> decide
  | comment => exact .inr ((Text.stops_cons _ _ _).mpr (by decide))

theorem FollowsAs.append {tail : List Char} (h : FollowsAs tail rest) (front : List Char) :
    FollowsAs (front ++ tail) (front ++ rest) := by
  cases front with
  | nil => exact h
  | cons c front => exact .inl rfl

theorem FollowsAs.stops {p : Char → Bool} {tail : List Char} (h : FollowsAs tail rest)
    (hp : ∀ c, p c = true → isWordPart c = true) (hrest : Stops p rest) : Stops p tail := by
  intro c hc
  rcases h with hhead | hstop
  · exact hrest c (hhead ▸ hc)
  · have hpart := hstop c hc
    cases hpc : p c with
    | false => rfl
    | true => rw [hp c hpc] at hpart; cases hpart

theorem run_of_unbroken {s : List Char} (h : Unbroken s) : Run (!isLineEnd ·) s [] := by
  refine ⟨fun c hc => ?_, Text.stops_nil _⟩
  rw [h c hc]
  rfl

/-- A lexeme within a line, and what may follow it instead. Blanks and comments
up to the line's end take in what follows; all others look at most for the end
of a word. -/
theorem Reads.followed (h : Reads t lexeme rest) (hline : Unbroken (lexeme ++ rest)) :
    t.isTrivia = true ∧ (∀ c ∈ lexeme, c = ' ' ∨ c = '\t') ∨
    t.isTrivia = true ∧ rest = [] ∧
      (∀ more, Unbroken more → ∃ t', t'.isTrivia = true ∧ Reads t' (lexeme ++ more) []) ∨
    ∀ tail, FollowsAs tail rest → Reads t lexeme tail := by
  rw [Text.unbroken_append] at hline
  have hnil (he : atLineEnd rest = true) : rest = [] := by
    rcases atLineEnd_iff.mp he with rfl | ⟨s, rfl⟩ | ⟨s, rfl⟩
    · rfl
    · exact absurd hline.2 (by simp [isLineEnd])
    · exact absurd hline.2 (by simp [isLineEnd])
  have hrun {c : Char} {body more : List Char} (hbody : Unbroken (c :: body))
      (hmore : Unbroken more) : Run (!isLineEnd ·) (body ++ more) [] :=
    run_of_unbroken ((Text.unbroken_append _ _).mpr ⟨((Text.unbroken_cons _ _).mp hbody).2, hmore⟩)
  have hdigit (c : Char) (hc : c.isDigit = true) : isWordPart c = true := by
    simp [isWordPart, Char.isAlphanum, hc]
  cases h with
  | blanks _ hrun => exact .inl ⟨rfl, by simpa [isBlank] using hrun.all⟩
  | lineFeed => exact absurd hline.1 (by decide)
  | returnAndLineFeed => exact absurd hline.1 (by decide)
  | lineComment _ he =>
    have hbody := ((Text.unbroken_cons _ _).mp hline.1).2
    exact .inr (.inl ⟨rfl, hnil he, fun more hmore =>
      ⟨_, rfl, .lineComment (hrun hbody hmore) rfl⟩⟩)
  | hashComment _ he =>
    exact .inr (.inl ⟨rfl, hnil he, fun more hmore =>
      ⟨_, rfl, .hashComment (hrun hline.1 hmore) rfl⟩⟩)
  | blockComment hb => exact .inr (.inr fun _ _ => .blockComment hb)
  | string hc => exact .inr (.inr fun _ _ => .string hc)
  | natural hne hd hr =>
    exact .inr (.inr fun _ hp => .natural hne ⟨hd.all, hp.stops hdigit hd.stops⟩ hr)
  | negative hne hd hr =>
    exact .inr (.inr fun _ hp => .negative hne ⟨hd.all, hp.stops hdigit hd.stops⟩ hr)
  | keyword hstop => exact .inr (.inr fun _ hp => .keyword (hp.stops (fun _ => id) hstop))
  | identifier hw hstop hk =>
    exact .inr (.inr fun _ hp => .identifier hw (hp.stops (fun _ => id) hstop) hk)
  | delimiter => exact .inr (.inr fun _ _ => .delimiter)

theorem Reads.followed_of_significant {tail : List Char} (h : Reads t lexeme rest)
    (hline : Unbroken (lexeme ++ rest)) (ht : t.isTrivia = false) (hfollows : FollowsAs tail rest) :
    Reads t lexeme tail := by
  rcases h.followed hline with ⟨htrue, -⟩ | ⟨htrue, -⟩ | htails
  · rw [ht] at htrue
    cases htrue
  · rw [ht] at htrue
    cases htrue
  · exact htails tail hfollows

end Feedforward.Token

namespace Feedforward.Lexeme
open Token (Reads isBlank Filler FollowsAs)
open Text (Unbroken)
variable {s gap unread : List Char} {ts : List Token} {ls ms : List Lexeme}

theorem Yields.filler (hgap : Filler gap) (h : Yields s ts unread) :
    Yields (gap ++ s) ts unread := by
  induction hgap with
  | nil => exact h
  | blank hc _ ih => exact ih.blank (by simpa [isBlank] using hc)
  | comment hbody _ _ ih =>
    rw [List.append_assoc, yields_trivia_append (.blockComment hbody) rfl]
    exact ih

theorem Cover.yields_tail {tail : List Char} (h : Cover (ls ++ ms) [])
    (hline : Unbroken ((ls ++ ms).flatMap text)) (htail : Unbroken tail)
    (hyields : Yields tail (significant ms) []) (hfollows : FollowsAs tail (ms.flatMap text)) :
    Yields (ls.flatMap text ++ tail) (significant (ls ++ ms)) [] := by
  induction ls with
  | nil => exact hyields
  | cons l ls ih =>
    rw [List.cons_append] at h hline ⊢
    obtain ⟨hl, hls⟩ := h
    rw [List.append_nil] at hl
    rw [List.flatMap_cons] at hline
    rw [List.flatMap_cons, List.append_assoc]
    obtain ⟨-, hlstext⟩ := (Text.unbroken_append _ _).mp hline
    have hrest := ih hls hlstext
    have hskip (ht : l.token.isTrivia = true) :
        significant (l :: (ls ++ ms)) = significant (ls ++ ms) := by
      simp [significant, ht]
    rcases hl.followed hline with ⟨ht, hblanks⟩ | ⟨ht, hnil, hmore⟩ | htails
    · rw [hskip ht]
      exact hrest.filler (Token.filler_of_blanks hblanks)
    · -- Nothing but the comment up to the line's end follows; it takes in what is put there.
      have hempty : ls ++ ms = [] := by
        cases hcons : ls ++ ms with
        | nil => rfl
        | cons m others =>
          rw [hcons, List.flatMap_cons, List.append_eq_nil_iff] at hnil
          exact absurd hnil.1 (hls.text_ne_nil m (by rw [hcons]; exact List.mem_cons_self))
      obtain ⟨rfl, rfl⟩ := List.append_eq_nil_iff.mp hempty
      obtain ⟨t', ht', hread⟩ := hmore tail htail
      have hcomment := (yields_trivia_append hread ht').mpr Yields.nil
      rw [List.append_nil] at hcomment
      rw [hskip ht]
      exact hcomment
    · have hfollows' : FollowsAs (ls.flatMap text ++ tail) ((ls ++ ms).flatMap text) := by
        rw [List.flatMap_append]
        exact hfollows.append _
      rw [← List.singleton_append, significant_append]
      exact hrest.read (htails _ hfollows')

end Feedforward.Lexeme

namespace Feedforward.LineKind
open Lexeme (Cover significant)
open Text (isSpace)
open Token (Reads)
variable {k : LineKind} {white : List Char} {ls ms : List Lexeme}

theorem ofLine?_white_append (hw : ∀ c ∈ white, isSpace c = true) (s : List Char) :
    ofLine? (white ++ s) = ofLine? s := by
  have htrim : Text.trimStart (white ++ s) = Text.trimStart s :=
    List.dropWhile_append_of_pos hw
  unfold ofLine?
  rw [htrim]

theorem opens_of_reads {lexeme rest : List Char} (hw : ∀ c ∈ white, isSpace c = true)
    (h : Reads k.token lexeme rest) : Opens k (white ++ (lexeme ++ rest)) := by
  cases k with
  | declares k =>
    cases h with
    | keyword hstop => exact .declares hw hstop
  | closes =>
    cases h with
    | delimiter => exact .closes hw

/-- Some first lexemes of a recognized line are white, or hold what it is recognized by. -/
theorem Opens.of_append (h : Opens k ((ls ++ ms).flatMap Lexeme.text))
    (hcover : Cover (ls ++ ms) []) :
    significant ls = [] ∧ (∀ c ∈ ls.flatMap Lexeme.text, isSpace c = true) ∨
    ∃ ws lexeme ns, ls = ws ++ ⟨k.token, lexeme⟩ :: ns ∧
      (∀ c ∈ ws.flatMap Lexeme.text, isSpace c = true) ∧
      Reads k.token lexeme (ns.flatMap Lexeme.text ++ ms.flatMap Lexeme.text) := by
  obtain ⟨white, lexeme, rest, hs, hw, hread⟩ := h.exists_reads
  obtain ⟨ws, ns, hsplit, rfl, rfl, htrivia⟩ := hcover.split_white hs hw hread k.isTrivia_token
  rcases List.append_eq_append_iff.mp hsplit with ⟨xs, rfl, -⟩ | ⟨xs, rfl, hxs⟩
  · left
    rw [List.forall_mem_append] at htrivia
    rw [List.flatMap_append, List.forall_mem_append] at hw
    exact ⟨Lexeme.significant_eq_nil.mpr htrivia.1, hw.1⟩
  · cases xs with
    | nil =>
      left
      rw [List.append_nil]
      exact ⟨Lexeme.significant_eq_nil.mpr htrivia, hw⟩
    | cons x xs =>
      right
      rw [List.cons_append, List.cons.injEq] at hxs
      obtain ⟨rfl, rfl⟩ := hxs
      rw [List.flatMap_append] at hread
      exact ⟨ws, lexeme, xs, rfl, hw, hread⟩

end Feedforward.LineKind

namespace Feedforward
open Lexeme (Cover Yields significant)
open Text (isSpace Unbroken)
open Token (Filler FollowsAs)
variable {k : LineKind} {ts : List Placed} {line line' : List Char} {ls ms : List Lexeme}

/-- A line in which blanks or comments were put, the tokens of the line given:
blanks between any two tokens, blanks and comments after the first significant
one, or a comment at the end. -/
inductive Padded (ts : List Placed) : List Char → List Char → Prop where
  | blanks {front gap back : List Char} : Placed.Boundary .start ts front →
      (∀ c ∈ gap, c = ' ' ∨ c = '\t') → Padded ts (front ++ back) (front ++ (gap ++ back))
  | filler {front gap back : List Char} {t : Placed} : Placed.Boundary .start ts front →
      t ∈ ts → t.token.isTrivia = false → t.span.stop ≤ Text.byteLength front → Filler gap →
      Padded ts (front ++ back) (front ++ (gap ++ back))
  | comment {line marker body : List Char} : marker = ['/', '/'] ∨ marker = ['#'] →
      Unbroken body → Padded ts line (line ++ (marker ++ body))

theorem significant_ne_nil_of_stop {t : Placed} (hcover : Cover (ls ++ ms) [])
    (ht : t ∈ Placed.sequence .start (ls ++ ms)) (htrivia : t.token.isTrivia = false)
    (hstop : t.span.stop ≤ Text.byteLength (ls.flatMap Lexeme.text)) : significant ls ≠ [] := by
  rw [Placed.sequence_append, List.mem_append] at ht
  rcases ht with ht | ht
  · intro hnil
    obtain ⟨l, hl, hlt⟩ := Placed.exists_lexeme_of_mem_sequence ht
    have htrue := Lexeme.significant_eq_nil.mp hnil l hl
    rw [hlt, htrivia] at htrue
    cases htrue
  · obtain ⟨ks, l, ns, rfl, hbytes⟩ := Placed.exists_stop_of_mem_sequence ht
    have hne := hcover.back.text_ne_nil l (by simp)
    have hpos := mt Text.byteLength_eq_zero.mp hne
    rw [Position.after_offset, List.flatMap_append, Text.byteLength_append,
      List.flatMap_singleton] at hbytes
    omega

/-- A line with another end. It is recognized the same if its front holds what it
is recognized by, or if only more white space comes before that. -/
theorem significant_tail {tail : List Char} (hcover : Cover (ls ++ ms) [])
    (hline : Unbroken ((ls ++ ms).flatMap Lexeme.text))
    (hk : LineKind.ofLine? ((ls ++ ms).flatMap Lexeme.text) = some k) (htail : Unbroken tail)
    (hyields : Yields tail (significant ms) []) (hfollows : FollowsAs tail (ms.flatMap Lexeme.text))
    (hfirst : significant ls = [] →
      ∃ gap, (∀ c ∈ gap, isSpace c = true) ∧ tail = gap ++ ms.flatMap Lexeme.text) :
    Unbroken (ls.flatMap Lexeme.text ++ tail) ∧
      LineKind.ofLine? (ls.flatMap Lexeme.text ++ tail) = some k ∧
      Declaration.significant (ls.flatMap Lexeme.text ++ tail) = .ok (significant (ls ++ ms)) := by
  have hwhole := hcover.yields_tail hline htail hyields hfollows
  have hopens := LineKind.ofLine?_eq_some.mp hk
  rw [List.flatMap_append] at hline hk
  refine ⟨?_, ?_, Declaration.significant_eq_ok.mpr hwhole.tokenize_eq⟩
  · exact (Text.unbroken_append _ _).mpr ⟨((Text.unbroken_append _ _).mp hline).1, htail⟩
  · rcases hopens.of_append hcover with ⟨hnil, hwhite⟩ | ⟨ws, lexeme, ns, rfl, hw, hread⟩
    · obtain ⟨gap, hgap, rfl⟩ := hfirst hnil
      rw [LineKind.ofLine?_white_append hwhite] at hk
      rw [LineKind.ofLine?_white_append hwhite, LineKind.ofLine?_white_append hgap, hk]
    · rw [List.flatMap_append, List.flatMap_cons, List.append_assoc, List.append_assoc] at hline ⊢
      rw [Text.unbroken_append] at hline
      rw [LineKind.ofLine?_eq_some]
      apply LineKind.opens_of_reads hw
      exact hread.followed_of_significant hline.2 k.isTrivia_token (hfollows.append _)

theorem significant_filler {gap : List Char} (hcover : Cover (ls ++ ms) [])
    (hline : Unbroken ((ls ++ ms).flatMap Lexeme.text))
    (hk : LineKind.ofLine? ((ls ++ ms).flatMap Lexeme.text) = some k) (hgap : Filler gap)
    (hfirst : significant ls = [] → ∀ c ∈ gap, isSpace c = true) :
    Unbroken (ls.flatMap Lexeme.text ++ (gap ++ ms.flatMap Lexeme.text)) ∧
      LineKind.ofLine? (ls.flatMap Lexeme.text ++ (gap ++ ms.flatMap Lexeme.text)) = some k ∧
      Declaration.significant (ls.flatMap Lexeme.text ++ (gap ++ ms.flatMap Lexeme.text)) =
        .ok (significant (ls ++ ms)) := by
  have hback : Yields (ms.flatMap Lexeme.text) (significant ms) [] :=
    ⟨ms, List.append_nil _, hcover.back, rfl⟩
  have hms : Unbroken (ms.flatMap Lexeme.text) := by
    rw [List.flatMap_append, Text.unbroken_append] at hline
    exact hline.2
  exact significant_tail hcover hline hk ((Text.unbroken_append _ _).mpr ⟨hgap.unbroken, hms⟩)
    (hback.filler hgap) (hgap.followsAs _) fun hnil => ⟨gap, hfirst hnil, rfl⟩

theorem Lexeme.yields_comment {marker body : List Char}
    (hmarker : marker = ['/', '/'] ∨ marker = ['#']) (hbody : Unbroken body) :
    Yields (marker ++ body) [] [] := by
  have hrun := Token.run_of_unbroken hbody
  rcases hmarker with rfl | rfl
  · have h := Yields.nil.read (.lineComment hrun rfl)
    rwa [List.append_nil] at h
  · have h := Yields.nil.read (.hashComment hrun rfl)
    rwa [List.append_nil] at h

theorem Padded.significant_eq (h : Padded ts line line') (hline : Unbroken line)
    (hk : LineKind.ofLine? line = some k) (hts : (tokenize .start line).1 = .ok ts) :
    Unbroken line' ∧ LineKind.ofLine? line' = some k ∧
      Declaration.significant line' = .ok ((ts.map Placed.token).filter (!·.isTrivia)) := by
  obtain ⟨ls, hcover, hs, rfl⟩ := tokenize_eq_ok.mp hts
  rw [Placed.sequence_map_token]
  cases h with
  | @blanks front gap back hboundary hgap =>
    obtain ⟨ks, ms, rfl, rfl, rfl⟩ := hboundary.split hs
    rw [← List.flatMap_append] at hline hk
    refine significant_filler hcover hline hk (Token.filler_of_blanks hgap) fun _ c hc => ?_
    rcases hgap c hc with rfl | rfl <;> decide
  | @filler front gap back t hboundary ht htrivia hstop hgap =>
    obtain ⟨ks, ms, rfl, rfl, rfl⟩ := hboundary.split hs
    rw [← List.flatMap_append] at hline hk
    refine significant_filler hcover hline hk hgap fun hnil => ?_
    exact absurd hnil (significant_ne_nil_of_stop hcover ht htrivia hstop)
  | @comment _ marker body hmarker hbody =>
    subst hs
    obtain ⟨white, lexeme, rest, hsplit, hw, hread⟩ :=
      (LineKind.ofLine?_eq_some.mp hk).exists_reads
    obtain ⟨us, hus⟩ := hcover.significant_cons hsplit hw hread k.isTrivia_token
    rw [← List.append_nil ls] at hcover hline hk
    have htail : Unbroken (marker ++ body) := by
      rcases hmarker with rfl | rfl <;> simpa [Token.isLineEnd] using hbody
    have hfollows : FollowsAs (marker ++ body) [] := by
      rcases hmarker with rfl | rfl <;> exact .inr ((Text.stops_cons _ _ _).mpr (by decide))
    have h := significant_tail hcover hline hk htail (Lexeme.yields_comment hmarker hbody) hfollows
      fun hnil => by rw [hus] at hnil; cases hnil
    rwa [List.append_nil] at h

theorem Text.exists_lines_append {after : List Char} (h : Token.atLineEnd after = true) :
    ∃ others, ∀ l, Unbroken l → l ≠ [] → lines (l ++ after) = l :: others := by
  rcases Token.atLineEnd_iff.mp h with rfl | ⟨s, rfl⟩ | ⟨s, rfl⟩
  · refine ⟨[], fun l hl hne => ?_⟩
    rw [List.append_nil, lines_of_unbroken hl hne]
  · exact ⟨lines s, fun l hl _ => lines_append_lineFeed hl s⟩
  · exact ⟨lines s, fun l hl _ => lines_append_returnAndLineFeed hl s⟩

theorem LineKind.ne_nil_of_ofLine? {s : List Char} (h : ofLine? s = some k) : s ≠ [] := by
  rintro rfl
  cases h

/-- Blanks and comments put into a recognized line of a document, where they
cannot hide what it is recognized by, change nothing in what the line says nor
in what the document is read as. -/
theorem reading_padded {before after : List Char} (hbefore : ∀ c ∈ before.getLast?, c = '\n')
    (hafter : Token.atLineEnd after = true) (hline : Unbroken line)
    (hk : LineKind.ofLine? line = some k) (hts : (tokenize .start line).1 = .ok ts)
    (hpadded : Padded ts line line') :
    (∃ tokens, Declaration.significant line = .ok tokens ∧
      Declaration.significant line' = .ok tokens) ∧
    Reading.ofString (String.ofList (before ++ (line' ++ after))) =
      Reading.ofString (String.ofList (before ++ (line ++ after))) := by
  obtain ⟨hline', hk', htokens'⟩ := hpadded.significant_eq hline hk hts
  have htokens := Declaration.significant_eq_ok.mpr ⟨ts, hts, rfl⟩
  refine ⟨⟨_, htokens, htokens'⟩, ?_⟩
  have hdeclared : Declaration.ofLine? line' = Declaration.ofLine? line := by
    simp only [Declaration.ofLine?, hk, hk', htokens, htokens']
  obtain ⟨others, hothers⟩ := Text.exists_lines_append hafter
  simp only [Reading.ofString, String.toList_ofList, Text.lines_append hbefore,
    hothers line hline (LineKind.ne_nil_of_ofLine? hk),
    hothers line' hline' (LineKind.ne_nil_of_ofLine? hk'), Survey.ofLines_replace hdeclared]

/-- A comment and a blank in front of a number, which are not read as a part of it. -/
theorem reading_padded_number :
    ∃ ts, (tokenize .start "input:size=5".toList).1 = .ok ts ∧
      Padded ts "input:size=5".toList "input:size=/*-*/ 5".toList ∧
      (Reading.ofString "odd\ninput:size=5\r\nmodel A \x7b").result =
        .error (.model .noLayers) ∧
      (Reading.ofString "odd\ninput:size=5\r\nmodel A \x7b").skipped = [1] ∧
      Reading.ofString "odd\ninput:size=/*-*/ 5\r\nmodel A \x7b" =
        Reading.ofString "odd\ninput:size=5\r\nmodel A \x7b" := by
  have hts : (tokenize .start "input:size=5".toList).1 =
      .ok ((tokenize .start "input:size=5".toList).1.toOption.getD []) := by
    decide +kernel
  generalize hplaced : Option.getD _ _ = ts at hts
  have hpadded : Padded ts "input:size=5".toList "input:size=/*-*/ 5".toList := by
    have hgap : Filler "/*-*/ ".toList :=
      @Filler.comment ['-'] [' '] (by decide) (by decide) (.blank (.inl rfl) .nil)
    have hboundary : Placed.Boundary .start ts "input:size=".toList := by
      subst hplaced
      unfold Placed.Boundary
      decide +kernel
    have hfirst : (⟨.keyword .input, ⟨0, 5, 1, 1⟩⟩ : Placed) ∈ ts := by
      subst hplaced
      decide +kernel
    exact @Padded.filler _ _ _ ['5'] _ hboundary hfirst rfl (by decide) hgap
  have hsource : String.ofList ("odd\n".toList ++ ("input:size=5".toList ++
      "\r\nmodel A \x7b".toList)) = "odd\ninput:size=5\r\nmodel A \x7b" := by
    decide +kernel
  have hsource' : String.ofList ("odd\n".toList ++ ("input:size=/*-*/ 5".toList ++
      "\r\nmodel A \x7b".toList)) = "odd\ninput:size=/*-*/ 5\r\nmodel A \x7b" := by
    decide +kernel
  have hsame := (@reading_padded (.declares .input) _ _ _ "odd\n".toList
    "\r\nmodel A \x7b".toList (by simp) rfl (by decide) (by decide +kernel) hts hpadded).2
  rw [hsource, hsource'] at hsame
  exact ⟨ts, hts, hpadded, by decide +kernel, by decide +kernel, hsame⟩

end Feedforward
