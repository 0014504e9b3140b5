import Feedforward.Proofs.Lexical.LineEnds
import Feedforward.Proofs.Lexical.Spans

/-! A document tokenized as a whole and a line at a time. The tokens on a line
are the same, and so are their lines and columns; bytes are counted from the
start of the document or from the start of the line. -/
namespace Feedforward.Placed
open Text (Ends Division)

/-- The tokens that start on a line, less the line ends. -/
def onLine (n : Nat) (ts : List Placed) : List Placed :=
  ts.filter fun t => t.span.line = n ∧ t.token ≠ .newline

def shift (bytes : Nat) (t : Placed) : Placed :=
  { t with span := { t.span with start := bytes + t.span.start, stop := bytes + t.span.stop } }

theorem sequence_append (p : Position) (ls ms : List Lexeme) :
    sequence p (ls ++ ms) = sequence p ls ++ sequence (p.after (ls.flatMap Lexeme.text)) ms := by
  induction ls generalizing p with
  | nil => rfl
  | cons l ls ih => simp [sequence, ih]

theorem sequence_shift (bytes : Nat) (p : Position) (ls : List Lexeme) :
    sequence ⟨bytes + p.offset, p.line, p.column⟩ ls = (sequence p ls).map (shift bytes) := by
  induction ls generalizing p with
  | nil => rfl
  | cons l ls ih =>
    have hafter : (Position.mk (bytes + p.offset) p.line p.column).after l.text =
        ⟨bytes + (p.after l.text).offset, (p.after l.text).line, (p.after l.text).column⟩ := by
      simp [Position.after_eq_counted, Position.counted, Nat.add_assoc]
    simp only [sequence, List.map_cons, hafter, ih, shift]

theorem line_le_of_mem_sequence {p : Position} {ls : List Lexeme} :
    ∀ t ∈ sequence p ls, p.line ≤ t.span.line := by
  induction ls generalizing p with
  | nil => simp [sequence]
  | cons l ls ih =>
    intro t ht
    rcases List.mem_cons.mp ht with rfl | ht
    · exact Nat.le_refl _
    · have hle := ih t ht
      rw [Position.after_eq_counted] at hle
      exact Nat.le_trans (Nat.le_add_right _ _) hle

theorem line_eq_of_mem_sequence {p : Position} {ls : List Lexeme}
    (h : ∀ l ∈ ls, '\n' ∉ l.text) : ∀ t ∈ sequence p ls, t.span.line = p.line := by
  induction ls generalizing p with
  | nil => simp [sequence]
  | cons l ls ih =>
    obtain ⟨hl, hls⟩ := List.forall_mem_cons.mp h
    intro t ht
    rcases List.mem_cons.mp ht with rfl | ht
    · rfl
    · rw [ih hls t ht, Position.after_eq_counted]
      simp [Position.counted, List.count_eq_zero.mpr hl]

theorem onLine_append (n : Nat) (ts us : List Placed) :
    onLine n (ts ++ us) = onLine n ts ++ onLine n us := List.filter_append ts us

theorem onLine_eq_nil {n : Nat} {ts : List Placed} (h : ∀ t ∈ ts, t.span.line ≠ n) :
    onLine n ts = [] := by
  rw [onLine, List.filter_eq_nil_iff]
  intro t ht
  simp [h t ht]

theorem onLine_eq_self {n : Nat} {ts : List Placed}
    (h : ∀ t ∈ ts, t.span.line = n ∧ t.token ≠ .newline) : onLine n ts = ts := by
  rw [onLine, List.filter_eq_self]
  intro t ht
  simpa using h t ht

theorem token_ne_newline {p : Position} {line : List Char} (hfeed : '\n' ∉ line) :
    ∀ t ∈ sequence p (Lexeme.cut line).1, t.token ≠ .newline := by
  intro t ht hnewline
  obtain ⟨l, hl, htoken⟩ := exists_lexeme_of_mem_sequence ht
  obtain ⟨rest, hread⟩ := (Lexeme.cover_cut line).2.reads_of_mem l hl
  rw [htoken, hnewline] at hread
  apply Lexeme.feed_not_mem_of_mem_cut hfeed l hl
  rcases hread.text_of_newline with htext | htext <;> simp [htext]

theorem onLine_sequence_cut (p : Position) {line : List Char} (hfeed : '\n' ∉ line) :
    onLine p.line (sequence p (Lexeme.cut line).1) = sequence p (Lexeme.cut line).1 := by
  apply onLine_eq_self
  intro t ht
  exact ⟨line_eq_of_mem_sequence (Lexeme.feed_not_mem_of_mem_cut hfeed) t ht,
    token_ne_newline hfeed t ht⟩

theorem after_ends (p : Position) {line ending : List Char} (hfeed : '\n' ∉ line)
    (hends : Ends line ending) :
    p.after (line ++ ending) = ⟨p.offset + Text.byteLength (line ++ ending), p.line + 1, 1⟩ := by
  have hline : (p.after line).line = p.line := by
    simp [Position.after_eq_counted, Position.counted, List.count_eq_zero.mpr hfeed]
  rw [Position.after_append, Text.byteLength_append, ← Nat.add_assoc, ← Position.after_offset]
  cases hends <;> simp [Position.advance, hline, Nat.add_assoc]

theorem onLine_cons_piece (n : Nat) (p : Position) {line ending : List Char}
    {pieces : List (List Char × List Char)} (hread : (Lexeme.cut line).2 = [])
    (hfeed : '\n' ∉ line) (hends : Ends line ending) :
    onLine n (sequence p (((line, ending) :: pieces).flatMap Lexeme.ofPiece)) =
      onLine n (sequence p (Lexeme.cut line).1) ++
        onLine n (sequence ⟨p.offset + Text.byteLength (line ++ ending), p.line + 1, 1⟩
          (pieces.flatMap Lexeme.ofPiece)) := by
  have htext := (Lexeme.cover_of_readable hread).2
  rw [List.flatMap_cons, Lexeme.ofPiece_of_ends hends, List.append_assoc, sequence_append, htext,
    onLine_append, List.singleton_append, sequence, ← Position.after_append,
    after_ends p hfeed hends]
  simp [onLine]

theorem onLine_of_division {s line : List Char} {pieces : List (List Char × List Char)}
    (h : Division s pieces) (hread : ∀ piece ∈ pieces, (Lexeme.cut piece.1).2 = [])
    {k : Nat} (hk : (pieces.map Prod.fst)[k]? = some line) (offset n : Nat) :
    ∃ before after, s = before ++ (line ++ after) ∧ before.count '\n' = k ∧
      (∀ c ∈ before.getLast?, c = '\n') ∧
      onLine (n + k) (sequence ⟨offset, n, 1⟩ (pieces.flatMap Lexeme.ofPiece)) =
        (sequence (.lineStart (n + k)) (Lexeme.cut line).1).map
          (shift (offset + Text.byteLength before)) := by
  -- The position at the start of the text moves from line to line, so it is not fixed here.
  induction h generalizing k offset n with
  | nil => simp at hk
  | @last whole _ hfeed =>
    obtain ⟨rfl, rfl⟩ : k = 0 ∧ whole = line := by
      cases k with
      | zero => simpa using hk
      | succ k => simp at hk
    refine ⟨[], [], by simp, rfl, by simp, ?_⟩
    rw [← sequence_shift]
    simpa [Lexeme.ofPiece, Position.lineStart] using onLine_sequence_cut ⟨offset, n, 1⟩ hfeed
  | @cons first ending rest pieces hfeed hends _ ih =>
    obtain ⟨hfirst, hpieces⟩ := List.forall_mem_cons.mp hread
    rw [onLine_cons_piece _ ⟨offset, n, 1⟩ hfirst hfeed hends]
    cases k with
    | zero =>
      obtain rfl : first = line := by simpa using hk
      refine ⟨[], ending ++ rest, rfl, rfl, by simp, ?_⟩
      have hrest : onLine n (sequence ⟨offset + Text.byteLength (first ++ ending), n + 1, 1⟩
          (pieces.flatMap Lexeme.ofPiece)) = [] := by
        apply onLine_eq_nil
        intro t ht
        exact Nat.ne_of_gt (line_le_of_mem_sequence t ht)
      rw [Nat.add_zero, hrest, List.append_nil, ← sequence_shift]
      exact onLine_sequence_cut ⟨offset, n, 1⟩ hfeed
    | succ k =>
      obtain ⟨before, after, rfl, hcount, hlast, honLine⟩ :=
        ih hpieces hk (offset + Text.byteLength (first ++ ending)) (n + 1)
      have hnone : onLine (n + (k + 1)) (sequence ⟨offset, n, 1⟩ (Lexeme.cut first).1) = [] := by
        apply onLine_eq_nil
        intro t ht
        rw [line_eq_of_mem_sequence (Lexeme.feed_not_mem_of_mem_cut hfeed) t ht]
        simp
      refine ⟨first ++ (ending ++ before), after, by simp, ?_, ?_, ?_⟩
      · rw [List.count_append, List.count_append, hcount, List.count_eq_zero.mpr hfeed,
          hends.count_feed]
        omega
      · intro c hc
        rw [List.getLast?_append, List.getLast?_append] at hc
        cases hbefore : before.getLast? with
        | none =>
          rw [hbefore, hends.getLast?_eq] at hc
          exact (Option.some.inj hc).symm
        | some d =>
          rw [hbefore] at hc
          exact hlast c (hbefore.trans hc)
      · rw [hnone, List.nil_append, show n + (k + 1) = n + 1 + k by omega, honLine]
        simp [Nat.add_assoc]

end Feedforward.Placed

namespace Feedforward
open Text (Division)

theorem tokenize_isOk_iff {p : Position} {s : List Char} :
    (∃ ts, (tokenize p s).1 = .ok ts) ↔ (Lexeme.cut s).2 = [] := by
  unfold tokenize
  cases hcut : Lexeme.cut s with
  | mk ls unread => cases unread <;> simp

theorem tokenize_of_readable (p : Position) {s : List Char} (h : (Lexeme.cut s).2 = []) :
    (tokenize p s).1 = .ok (Placed.sequence p (Lexeme.cut s).1) := by
  obtain ⟨hcover, htext⟩ := Lexeme.cover_of_readable h
  exact tokenize_eq_ok.mpr ⟨_, hcover, htext, rfl⟩

/-- The lines of a document can all be tokenized just if the document can and no
comment in it goes over several lines. Then the tokens of the document on a line
are those of the line, moved on by the bytes before it. -/
theorem tokenize_line_by_line (s : List Char) :
    ((∀ k line, (Text.lines s)[k]? = some line →
        ∃ us, (tokenize (.lineStart (k + 1)) line).1 = .ok us) ↔
      (∃ ts, (tokenize .start s).1 = .ok ts) ∧
        ∀ l ∈ (Lexeme.cut s).1, l.token.isComment = true → '\n' ∉ l.text) ∧
    ∀ ts, (tokenize .start s).1 = .ok ts →
      (∀ l ∈ (Lexeme.cut s).1, l.token.isComment = true → '\n' ∉ l.text) →
      ∀ k line, (Text.lines s)[k]? = some line →
        ∃ before after us, s = before ++ (line ++ after) ∧ before.count '\n' = k ∧
          (∀ c ∈ before.getLast?, c = '\n') ∧
          (tokenize (.lineStart (k + 1)) line).1 = .ok us ∧
          Placed.onLine (k + 1) ts = us.map (Placed.shift (Text.byteLength before)) := by
  obtain ⟨pieces, hdivision, hlines⟩ := Text.exists_division s
  have hreadable : (∀ (k : Nat) line, (Text.lines s)[k]? = some line → (Lexeme.cut line).2 = []) ↔
      ∀ piece ∈ pieces, (Lexeme.cut piece.1).2 = [] := by
    rw [← hlines, ← List.forall_mem_map (P := fun line => (Lexeme.cut line).2 = [])]
    simp only [List.mem_iff_getElem?, forall_exists_index]
    exact forall_comm
  simp only [tokenize_isOk_iff, hreadable]
  refine ⟨⟨fun hread => ?_, fun h => Lexeme.readable_of_division hdivision h.1 h.2⟩, ?_⟩
  · have hcut := Lexeme.cut_of_division hdivision hread
    rw [hcut]
    exact ⟨rfl, Lexeme.oneLineComments_of_division hdivision⟩
  · intro ts hts hcomments k line hk
    have hcut := tokenize_isOk_iff.mp ⟨ts, hts⟩
    have hread := Lexeme.readable_of_division hdivision hcut hcomments
    obtain ⟨before, after, hs, hcount, hlast, honLine⟩ :=
      Placed.onLine_of_division hdivision hread (hlines ▸ hk) 0 1
    refine ⟨before, after, _, hs, hcount, hlast,
      tokenize_of_readable _ (hreadable.mpr hread k line hk), ?_⟩
    rw [tokenize_of_readable _ hcut, Lexeme.cut_of_division hdivision hread] at hts
    cases hts
    rw [Nat.add_comm k 1, ← Nat.zero_add (Text.byteLength before)]
    exact honLine

end Feedforward
