import Mathlib.Data.List.Induction
import Feedforward.Proofs.Lexical.Cutting

/-! Where tokens stand. Positions are counted over the text that was read, bytes
and characters apart, and the spans of the tokens leave no gap and no overlap. -/
namespace Feedforward.Position

/-- The position after a text, by counting: its bytes, its line feeds, and the
characters after the last of these. -/
def counted (p : Position) (s : List Char) : Position where
  offset := p.offset + Text.byteLength s
  line := p.line + s.count '\n'
  column :=
    if '\n' ∈ s then 1 + (s.reverse.takeWhile (· ≠ '\n')).length else p.column + s.length

theorem counted_nil (p : Position) : p.counted [] = p := by
  simp [counted]

theorem counted_concat (p : Position) (s : List Char) (c : Char) :
    p.counted (s ++ [c]) = (p.counted s).advance c := by
  simp only [counted, advance, Text.byteLength_append, Text.byteLength_cons, Text.byteLength_nil,
    List.count_append, List.reverse_append, mk.injEq]
  refine ⟨by omega, ?_⟩
  by_cases hc : c = '\n'
  · subst hc
    exact ⟨rfl, by simp⟩
  · refine ⟨by simp [hc], ?_⟩
    by_cases hs : '\n' ∈ s
    · simp [hs, hc]
      omega
    · simp [hs, hc, Ne.symm hc]
      omega

theorem after_eq_counted (p : Position) (s : List Char) : p.after s = p.counted s := by
  induction s using List.reverseRecOn with
  | nil => rw [after_nil, counted_nil]
  | append_singleton s c ih =>
    rw [after_append, ih, after_cons, after_nil, counted_concat]

end Feedforward.Position

namespace Feedforward.Placed

theorem sequence_map_token (p : Position) (lexemes : List Lexeme) :
    (sequence p lexemes).map token = lexemes.map Lexeme.token := by
  induction lexemes generalizing p with
  | nil => rfl
  | cons l ls ih => simp [sequence, ih]

theorem exists_lexeme_of_mem_sequence {p : Position} {lexemes : List Lexeme} {t : Placed}
    (h : t ∈ sequence p lexemes) : ∃ l ∈ lexemes, l.token = t.token := by
  have htoken : t.token ∈ (sequence p lexemes).map token := List.mem_map_of_mem h
  rw [sequence_map_token] at htoken
  exact List.mem_map.mp htoken

end Feedforward.Placed

namespace Feedforward
variable {ls : List Lexeme} {unread : List Char}

theorem tokenize_of_cover_nil (p : Position) (h : Lexeme.Cover ls []) :
    tokenize p (ls.flatMap Lexeme.text) =
      (.ok (Placed.sequence p ls), p.counted (ls.flatMap Lexeme.text)) := by
  have hcut := Lexeme.cut_of_cover h
  rw [List.append_nil] at hcut
  simp only [tokenize, hcut, Position.after_eq_counted]

theorem tokenize_of_cover (p : Position) (h : Lexeme.Cover ls unread) (hne : unread ≠ []) :
    tokenize p (ls.flatMap Lexeme.text ++ unread) =
      (.error ⟨unread, p.counted (ls.flatMap Lexeme.text)⟩,
        p.counted (ls.flatMap Lexeme.text)) := by
  simp only [tokenize, Lexeme.cut_of_cover h, Position.after_eq_counted]

theorem tokenize_eq_ok {p : Position} {s : List Char} {placed : List Placed} :
    (tokenize p s).1 = .ok placed ↔
      ∃ ls, Lexeme.Cover ls [] ∧ ls.flatMap Lexeme.text = s ∧ placed = Placed.sequence p ls := by
  constructor
  · intro h
    cases hcut : Lexeme.cut s with
    | mk ls unread =>
      rw [tokenize, hcut] at h
      cases unread with
      | nil =>
        cases h
        obtain ⟨hs, hcover⟩ := Lexeme.cut_eq_iff.mp hcut
        exact ⟨ls, hcover, by simpa using hs, rfl⟩
      | cons c unread => cases h
  · rintro ⟨ls, hcover, rfl, rfl⟩
    rw [tokenize_of_cover_nil p hcover]

theorem exists_reads_of_tokenize {p : Position} {s : List Char} {placed : List Placed} {t : Token}
    (h : (tokenize p s).1 = .ok placed) (hmem : t ∈ placed.map Placed.token) :
    ∃ lexeme rest, Token.Reads t lexeme rest := by
  obtain ⟨ls, hcover, -, rfl⟩ := tokenize_eq_ok.mp h
  rw [Placed.sequence_map_token] at hmem
  obtain ⟨l, hl, rfl⟩ := List.mem_map.mp hmem
  exact ⟨l.text, hcover.reads_of_mem l hl⟩

end Feedforward
