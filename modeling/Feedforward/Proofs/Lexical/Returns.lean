import Feedforward.Document.Reading
import Feedforward.Proofs.Lexical.LineByLine

/-! Documents with a carriage return before each line feed. The lines are the
same, so a document is read as the same. A lexeme can stand before either line
end if it can stand before one of them, so the tokens are the same as well, and
each moves on by the carriage returns before it. -/
namespace Feedforward.Text

/-- A text with a carriage return put before each line feed. -/
def withReturns (s : List Char) : List Char :=
  s.flatMap fun c => if c = '\n' then ['\r', '\n'] else [c]

@[simp] theorem withReturns_nil : withReturns [] = [] := rfl

@[simp] theorem withReturns_feed (s : List Char) :
    withReturns ('\n' :: s) = '\r' :: '\n' :: withReturns s := rfl

theorem withReturns_cons {c : Char} (h : c ≠ '\n') (s : List Char) :
    withReturns (c :: s) = c :: withReturns s := by
  simp [withReturns, h]

theorem withReturns_append (s t : List Char) :
    withReturns (s ++ t) = withReturns s ++ withReturns t := List.flatMap_append

theorem withReturns_eq_self {s : List Char} (h : '\n' ∉ s) : withReturns s = s := by
  induction s with
  | nil => rfl
  | cons c s ih =>
    rw [List.mem_cons, not_or] at h
    rw [withReturns_cons (Ne.symm h.1), ih h.2]

theorem lines_withReturns {s : List Char} (h : '\r' ∉ s) : lines (withReturns s) = lines s := by
  induction s with
  | nil => rfl
  | cons c s ih =>
    rw [List.mem_cons, not_or] at h
    by_cases hc : c = '\n'
    · rw [hc, withReturns_feed, lines_crlf, lines_lf, ih h.2]
    · have hreturn (t u : List Char) : c = '\r' → t = '\n' :: u → False :=
        fun hr _ => h.1 hr.symm
      rw [withReturns_cons hc, lines.eq_4 c _ (hreturn _) hc, lines.eq_4 c _ (hreturn _) hc, ih h.2]

theorem dropBytes_append (s t : List Char) : dropBytes (byteLength s) (s ++ t) = t := by
  induction s with
  | nil => simp [dropBytes]
  | cons c s ih =>
    obtain ⟨n, hn⟩ : ∃ n, byteLength (c :: s) = n + 1 :=
      Nat.exists_eq_succ_of_ne_zero (by have := c.utf8Size_pos; rw [byteLength_cons]; omega)
    rw [hn, List.cons_append, dropBytes, ← hn, byteLength_cons, Nat.add_sub_cancel_left, ih]

theorem takeBytes_append (s t : List Char) : takeBytes (byteLength s) (s ++ t) = s := by
  rw [takeBytes, dropBytes_append, List.length_append, Nat.add_sub_cancel, List.take_left]

end Feedforward.Text

namespace Feedforward
open Text (withReturns)

theorem Position.after_withReturns (p : Position) (s : List Char) :
    p.after (withReturns s) =
      ⟨(p.after s).offset + s.count '\n', (p.after s).line, (p.after s).column⟩ := by
  induction s using List.reverseRecOn with
  | nil => rfl
  | append_singleton s c ih =>
    rw [Text.withReturns_append, after_append, ih, after_append, List.count_append]
    by_cases hc : c = '\n'
    · have hfeed (q : Position) : q.after ['\n'] = ⟨q.offset + 1, q.line + 1, 1⟩ := rfl
      have hends (q : Position) : q.after ['\r', '\n'] = ⟨q.offset + 2, q.line + 1, 1⟩ := rfl
      rw [hc, Text.withReturns_feed, Text.withReturns_nil, hends, hfeed, List.count_singleton_self,
        mk.injEq]
      exact ⟨by dsimp only; omega, rfl, rfl⟩
    · have hother (q : Position) : q.after [c] = ⟨q.offset + c.utf8Size, q.line, q.column + 1⟩ := by
        rw [after_cons, after_nil, advance, if_neg hc, if_neg hc]
      have hcount : [c].count '\n' = 0 := List.count_eq_zero.mpr (by simpa using Ne.symm hc)
      rw [Text.withReturns_eq_self (List.count_eq_zero.mp hcount), hother, hother, hcount, mk.injEq]
      exact ⟨by dsimp only; omega, rfl, rfl⟩

namespace Token
variable {t : Token} {lexeme rest : List Char}

theorem Before.withReturns (h : t.Before rest) (hreturn : '\r' ∉ rest) :
    t.Before (Text.withReturns rest) := by
  refine h.map ?_ ?_
  · intro p hclass hp
    cases rest with
    | nil => exact hp
    | cons c rest =>
      by_cases hc : c = '\n'
      · rw [hc, Text.withReturns_feed, Text.stops_cons]
        exact hclass.return_not
      · rw [Text.withReturns_cons hc, Text.stops_cons]
        exact (Text.stops_cons p c rest).mp hp
  · intro hend
    rcases atLineEnd_iff.mp hend with rfl | ⟨s, rfl⟩ | ⟨s, rfl⟩
    · rfl
    · rfl
    · simp at hreturn

theorem Reads.withReturns (h : Reads t lexeme rest)
    (hcomment : t.isComment = true → '\n' ∉ lexeme) (hlexeme : '\r' ∉ lexeme)
    (hrest : '\r' ∉ rest) : Reads t (Text.withReturns lexeme) (Text.withReturns rest) := by
  by_cases hne : t = .newline
  · subst hne
    rcases h.text_of_newline with rfl | rfl
    · exact .returnAndLineFeed
    · simp at hlexeme
  · rw [Text.withReturns_eq_self (h.feed_not_mem hne hcomment)]
    exact h.of_before (h.before.withReturns hrest)

end Token

namespace Lexeme
variable {ls : List Lexeme}

def withReturns (l : Lexeme) : Lexeme := ⟨l.token, Text.withReturns l.text⟩

theorem flatMap_withReturns (ls : List Lexeme) :
    (ls.map withReturns).flatMap text = Text.withReturns (ls.flatMap text) := by
  induction ls with
  | nil => rfl
  | cons l ls ih =>
    rw [List.map_cons, List.flatMap_cons, ih, List.flatMap_cons, Text.withReturns_append]
    rfl

theorem Cover.withReturns (h : Cover ls []) (hcomments : OneLineComments ls)
    (hreturn : '\r' ∉ ls.flatMap text) : Cover (ls.map Lexeme.withReturns) [] := by
  induction ls with
  | nil => exact h
  | cons l ls ih =>
    obtain ⟨hl, hls⟩ := h
    rw [List.flatMap_cons, List.mem_append, not_or] at hreturn
    refine ⟨?_, ih hls (fun m hm => hcomments m (List.mem_cons_of_mem l hm)) hreturn.2⟩
    rw [List.append_nil] at hl ⊢
    rw [flatMap_withReturns]
    exact hl.withReturns (hcomments l List.mem_cons_self) hreturn.1 hreturn.2

theorem Cover.count_feed (h : Cover ls []) (hcomments : OneLineComments ls) :
    ∀ l ∈ ls, l.text.count '\n' = if l.token = .newline then 1 else 0 := by
  intro l hl
  obtain ⟨rest, hread⟩ := h.reads_of_mem l hl
  split
  · next hnewline =>
    rw [hnewline] at hread
    rcases hread.text_of_newline with htext | htext <;> rw [htext] <;> rfl
  · next hnewline => exact List.count_eq_zero.mpr (hread.feed_not_mem hnewline (hcomments l hl))

end Lexeme

namespace Placed

/-- A token of a text moved to where it is once carriage returns are put into
the text: on by the line feeds before it, and a line end also ends later by its own. -/
def withReturns (s : List Char) (t : Placed) : Placed :=
  let before := (Text.takeBytes t.span.start s).count '\n'
  let own := if t.token = .newline then 1 else 0
  { t with span := { t.span with
    start := t.span.start + before
    stop := t.span.stop + before + own } }

theorem sequence_withReturns (before : List Char) {ls : List Lexeme}
    (hcount : ∀ l ∈ ls, l.text.count '\n' = if l.token = .newline then 1 else 0) :
    sequence (Position.start.after (Text.withReturns before)) (ls.map Lexeme.withReturns) =
      (sequence (Position.start.after before) ls).map
        (withReturns (before ++ ls.flatMap Lexeme.text)) := by
  -- The induction moves lexemes over to the text before, and the whole text stays the same.
  induction ls generalizing before with
  | nil => rfl
  | cons l ls ih =>
    obtain ⟨hl, hls⟩ := List.forall_mem_cons.mp hcount
    have hnext := ih (before ++ l.text) hls
    have hstart : (Position.start.after before).offset = Text.byteLength before := by
      rw [Position.after_offset]
      exact Nat.zero_add _
    have hbefore : Text.takeBytes (Position.start.after before).offset
        (before ++ (l.text ++ ls.flatMap Lexeme.text)) = before := by
      rw [hstart, Text.takeBytes_append]
    rw [List.append_assoc] at hnext
    rw [List.map_cons, sequence, sequence, List.map_cons, List.flatMap_cons, Lexeme.withReturns,
      ← Position.after_append, ← Position.after_append, ← Text.withReturns_append, hnext,
      Position.after_withReturns, Position.after_withReturns, List.cons.injEq]
    refine ⟨?_, rfl⟩
    simp only [withReturns, hbefore, List.count_append, hl, Nat.add_assoc]

end Placed

/-- Carriage returns put before the line feeds of a document change nothing in
what it is read as. If it can be tokenized, with no comment over several lines,
they do not change the tokens either nor their lines and columns, and each token
moves on by the line feeds before it. -/
theorem reading_withReturns {source : String} (h : '\r' ∉ source.toList) :
    Reading.ofString (String.ofList (withReturns source.toList)) = Reading.ofString source ∧
    ∀ ts, (tokenize .start source.toList).1 = .ok ts →
      (∀ l ∈ (Lexeme.cut source.toList).1, l.token.isComment = true → '\n' ∉ l.text) →
      (tokenize .start (withReturns source.toList)).1 =
        .ok (ts.map (Placed.withReturns source.toList)) := by
  constructor
  · rw [Reading.ofString, String.toList_ofList, Text.lines_withReturns h, Reading.ofString]
  · intro ts hts hcomments
    have hcut := tokenize_isOk_iff.mp ⟨ts, hts⟩
    obtain ⟨hcover, htext⟩ := Lexeme.cover_of_readable hcut
    rw [tokenize_of_readable _ hcut, Except.ok.injEq] at hts
    have hreturn : '\r' ∉ (Lexeme.cut source.toList).1.flatMap Lexeme.text := by rwa [htext]
    refine tokenize_eq_ok.mpr ⟨_, hcover.withReturns hcomments hreturn, ?_, ?_⟩
    · rw [Lexeme.flatMap_withReturns, htext]
    · have hsequence := Placed.sequence_withReturns [] (hcover.count_feed hcomments)
      rw [List.nil_append, htext, Position.after_nil, hts] at hsequence
      exact hsequence.symm

/-- Two line ends after a comment move the word on the third line by two bytes. -/
theorem reading_withReturns_comment :
    ∃ ts, '\r' ∉ "input: size=0 # c\n\nb".toList ∧
      (tokenize .start "input: size=0 # c\n\nb".toList).1 = .ok ts ∧
      Reading.ofString "input: size=0 # c\r\n\r\nb" = Reading.ofString "input: size=0 # c\n\nb" ∧
      (Reading.ofString "input: size=0 # c\n\nb").skipped = [2, 3] ∧
      (tokenize .start "input: size=0 # c\r\n\r\nb".toList).1 =
        .ok (ts.map (Placed.withReturns "input: size=0 # c\n\nb".toList)) ∧
      (⟨.identifier "b", ⟨19, 20, 3, 1⟩⟩ : Placed) ∈ ts ∧
      Placed.withReturns "input: size=0 # c\n\nb".toList ⟨.identifier "b", ⟨19, 20, 3, 1⟩⟩ =
        ⟨.identifier "b", ⟨21, 22, 3, 1⟩⟩ := by
  have hts : (tokenize .start "input: size=0 # c\n\nb".toList).1 =
      .ok ((tokenize .start "input: size=0 # c\n\nb".toList).1.toOption.getD []) := by
    decide +kernel
  generalize hplaced : Option.getD _ _ = ts at hts
  have hword : (⟨.identifier "b", ⟨19, 20, 3, 1⟩⟩ : Placed) ∈ ts := by
    subst hplaced
    decide +kernel
  have hreturns : withReturns "input: size=0 # c\n\nb".toList =
      "input: size=0 # c\r\n\r\nb".toList := by
    decide +kernel
  have hreturn : '\r' ∉ "input: size=0 # c\n\nb".toList := by decide +kernel
  obtain ⟨hreading, htokens⟩ := reading_withReturns hreturn
  have hsame := htokens ts hts (by decide +kernel)
  rw [hreturns] at hsame
  rw [hreturns, String.ofList_toList] at hreading
  exact ⟨ts, hreturn, hts, hreading, by decide +kernel, hsame, hword, by decide +kernel⟩

end Feedforward
