import Feedforward.Proofs.Lexical.LineByLine

/-! A text tokenized in two chunks by one tokenizer. What a lexeme looks at after
its end does not reach over a token boundary, and a line end looks at nothing, so
a text may be cut at every boundary and continued after every line end. -/
namespace Feedforward.Text

theorem byteLength_eq_zero {s : List Char} : byteLength s = 0 ↔ s = [] := by
  cases s with
  | nil => simp
  | cons c s =>
    have hc := c.utf8Size_pos
    rw [byteLength_cons]
    constructor
    · omega
    · simp

theorem append_inj_of_byteLength {a b c d : List Char} (h : a ++ b = c ++ d)
    (hbytes : byteLength a = byteLength c) : a = c ∧ b = d := by
  rcases List.append_eq_append_iff.mp h with ⟨x, rfl, rfl⟩ | ⟨x, rfl, rfl⟩
  · rw [byteLength_append] at hbytes
    have hx : x = [] := byteLength_eq_zero.mp (by omega)
    simp [hx]
  · rw [byteLength_append] at hbytes
    have hx : x = [] := byteLength_eq_zero.mp (by omega)
    simp [hx]

end Feedforward.Text

namespace Feedforward.Placed
variable {p : Position} {ls : List Lexeme}

/-- The front of a text ends where a token does, or before the first one. -/
def Boundary (p : Position) (ts : List Placed) (front : List Char) : Prop :=
  p.offset + Text.byteLength front ∈ p.offset :: ts.map (·.span.stop)

theorem exists_stop_of_mem_sequence {t : Placed} (h : t ∈ sequence p ls) :
    ∃ ks l ms, ls = ks ++ l :: ms ∧
      t.span.stop = p.offset + Text.byteLength ((ks ++ [l]).flatMap Lexeme.text) := by
  induction ls generalizing p with
  | nil => simp [sequence] at h
  | cons l ls ih =>
    rcases List.mem_cons.mp h with rfl | h
    · exact ⟨[], l, ls, rfl, by simp [Position.after_offset]⟩
    · obtain ⟨ks, m, ms, rfl, hstop⟩ := ih h
      refine ⟨l :: ks, m, ms, rfl, ?_⟩
      rw [hstop, Position.after_offset, List.cons_append, List.flatMap_cons,
        Text.byteLength_append, Nat.add_assoc]

theorem Boundary.split {front back : List Char} (h : Boundary p (sequence p ls) front)
    (hs : ls.flatMap Lexeme.text = front ++ back) :
    ∃ ks ms, ls = ks ++ ms ∧ ks.flatMap Lexeme.text = front ∧ ms.flatMap Lexeme.text = back := by
  obtain ⟨ks, ms, rfl, hbytes⟩ : ∃ ks ms, ls = ks ++ ms ∧
      Text.byteLength (ks.flatMap Lexeme.text) = Text.byteLength front := by
    rcases List.mem_cons.mp h with hstart | hstop
    · exact ⟨[], ls, rfl, by rw [List.flatMap_nil, Text.byteLength_nil]; omega⟩
    · obtain ⟨t, ht, hstop⟩ := List.mem_map.mp hstop
      obtain ⟨ks, l, ms, rfl, htext⟩ := exists_stop_of_mem_sequence ht
      exact ⟨ks ++ [l], ms, by simp, by omega⟩
  rw [List.flatMap_append] at hs
  exact ⟨ks, ms, rfl, Text.append_inj_of_byteLength hs hbytes⟩

end Feedforward.Placed

namespace Feedforward
open Lexeme (Cover)
variable {p : Position} {a : List Char}

theorem tokenize_eq_ok_pair {ts : List Placed} {reached : Position} :
    tokenize p a = (.ok ts, reached) ↔ ∃ ls, Cover ls [] ∧ ls.flatMap Lexeme.text = a ∧
      ts = Placed.sequence p ls ∧ reached = p.after a := by
  constructor
  · intro h
    obtain ⟨ls, hcover, rfl, rfl⟩ := tokenize_eq_ok.mp (congrArg Prod.fst h)
    refine ⟨ls, hcover, rfl, rfl, ?_⟩
    rw [tokenize_of_cover_nil p hcover] at h
    rw [Position.after_eq_counted]
    exact (congrArg Prod.snd h).symm
  · rintro ⟨ls, hcover, rfl, rfl, rfl⟩
    rw [tokenize_of_cover_nil p hcover, Position.after_eq_counted]

theorem tokenize_append {ks ms : List Lexeme} {unread : List Char} (p : Position)
    (h : Cover (ks ++ ms) unread) :
    tokenize p (ks.flatMap Lexeme.text ++ (ms.flatMap Lexeme.text ++ unread)) =
      ((tokenize (p.after (ks.flatMap Lexeme.text)) (ms.flatMap Lexeme.text ++ unread)).1.map
          (Placed.sequence p ks ++ ·),
        (tokenize (p.after (ks.flatMap Lexeme.text)) (ms.flatMap Lexeme.text ++ unread)).2) := by
  have hwhole := Lexeme.cut_of_cover h
  rw [List.flatMap_append, List.append_assoc] at hwhole
  have hback := Lexeme.cut_of_cover h.back
  simp only [tokenize, hwhole, hback, List.flatMap_append, Position.after_append,
    Placed.sequence_append]
  cases unread with
  | nil => rfl
  | cons c unread => rfl

theorem exists_lexeme_of_getLast? {ls : List Lexeme} {t : Token}
    (h : (Placed.sequence p ls).getLast?.map Placed.token = some t) :
    ∃ ks l, ls = ks ++ [l] ∧ l.token = t := by
  rw [← List.getLast?_map, Placed.sequence_map_token, List.getLast?_map] at h
  obtain ⟨l, hl, htoken⟩ := Option.map_eq_some_iff.mp h
  obtain ⟨ks, hks⟩ := List.getLast?_eq_some_iff.mp hl
  exact ⟨ks, l, hks, htoken⟩

theorem Lexeme.Cover.append_of_newline {ks : List Lexeme} {l : Lexeme} (h : Cover (ks ++ [l]) [])
    (hl : l.token = .newline) (b : List Char) : Cover (ks ++ l :: (cut b).1) (cut b).2 := by
  have hread := h.back.1
  rw [hl] at hread
  refine h.front.append ⟨?_, (cover_cut b).2⟩ ?_
  · rw [hl]
    rcases hread.text_of_newline with htext | htext
    · rw [htext]
      exact .lineFeed
    · rw [htext]
      exact .returnAndLineFeed
  · rcases hread.text_of_newline with htext | htext <;> simp [htext, Token.atLineEnd]

/-- Two chunks are tokenized one after the other as their whole is: if the whole
can be tokenized and the cut is at a token boundary, and for every second chunk
if the first one ends with a line end. -/
theorem tokenize_chunks (p : Position) (a b : List Char) :
    (∀ ts reached, tokenize p (a ++ b) = (.ok ts, reached) → Placed.Boundary p ts a →
      ∃ us vs between, tokenize p a = (.ok us, between) ∧
        tokenize between b = (.ok vs, reached) ∧ ts = us ++ vs) ∧
    ∀ us between, tokenize p a = (.ok us, between) →
      us.getLast?.map Placed.token = some .newline →
      (∀ vs reached, tokenize between b = (.ok vs, reached) →
        tokenize p (a ++ b) = (.ok (us ++ vs), reached)) ∧
      ∀ u reached, tokenize between b = (.error u, reached) →
        tokenize p (a ++ b) = (.error u, reached) := by
  constructor
  · intro ts reached h hboundary
    obtain ⟨ls, hcover, hs, rfl, rfl⟩ := tokenize_eq_ok_pair.mp h
    obtain ⟨ks, ms, rfl, rfl, rfl⟩ := hboundary.split hs
    refine ⟨_, _, _, tokenize_eq_ok_pair.mpr ⟨ks, hcover.front, rfl, rfl, rfl⟩,
      tokenize_eq_ok_pair.mpr ⟨ms, hcover.back, rfl, rfl, ?_⟩, Placed.sequence_append p ks ms⟩
    rw [Position.after_append]
  · intro us between h hlast
    obtain ⟨ls, hcover, rfl, rfl, rfl⟩ := tokenize_eq_ok_pair.mp h
    obtain ⟨ks, l, rfl, hl⟩ := exists_lexeme_of_getLast? hlast
    have hwhole := hcover.append_of_newline hl b
    rw [← List.singleton_append, ← List.append_assoc] at hwhole
    have happend := tokenize_append p hwhole
    rw [(Lexeme.cover_cut b).1] at happend
    constructor
    · intro vs reached hb
      rw [happend, hb]
      rfl
    · intro u reached hb
      rw [happend, hb]
      rfl

/-- After a comment and its line end, a string that is never closed is found from
the position where the second chunk starts. -/
theorem tokenize_chunks_unclosed :
    ∃ us between, tokenize ⟨7, 3, 5⟩ "x # c\r\n".toList = (.ok us, between) ∧
      us.getLast?.map Placed.token = some .newline ∧
      tokenize between "\"open".toList = (.error ⟨"\"open".toList, ⟨14, 4, 1⟩⟩, ⟨14, 4, 1⟩) ∧
      tokenize ⟨7, 3, 5⟩ ("x # c\r\n".toList ++ "\"open".toList) =
        (.error ⟨"\"open".toList, ⟨14, 4, 1⟩⟩, ⟨14, 4, 1⟩) := by
  have hfirst : tokenize ⟨7, 3, 5⟩ "x # c\r\n".toList =
      (.ok ((tokenize ⟨7, 3, 5⟩ "x # c\r\n".toList).1.toOption.getD []), ⟨14, 4, 1⟩) := by
    decide +kernel
  generalize hus : Option.getD _ _ = us at hfirst
  have hlast : us.getLast?.map Placed.token = some .newline := by
    subst hus
    decide +kernel
  have hsecond : tokenize ⟨14, 4, 1⟩ "\"open".toList =
      (.error ⟨"\"open".toList, ⟨14, 4, 1⟩⟩, ⟨14, 4, 1⟩) := by
    decide +kernel
  exact ⟨us, _, hfirst, hlast, hsecond,
    ((tokenize_chunks _ _ _).2 us _ hfirst hlast).2 _ _ hsecond⟩

end Feedforward
