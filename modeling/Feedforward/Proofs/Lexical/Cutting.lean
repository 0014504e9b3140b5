import Feedforward.Proofs.Lexical.Lookahead
import Feedforward.Token.Stream

/-! A text and its lexemes. `Lexeme.Cover` says of lexemes, without cutting
anything, that they are the ones at the front of a text: each is read with the
text after it in view, and no token starts where they end. -/
namespace Feedforward.Token

theorem scan_nil_fails : scan.Fails [] := by
  apply Scanner.fails_of_not_ok
  intro r h
  obtain ⟨hne, hs⟩ := scan_exact [] r h
  exact hne (List.append_eq_nil_iff.mp hs).1

end Feedforward.Token

namespace Feedforward.Lexeme
open Token (Reads)
variable {s unread : List Char} {ls : List Lexeme}

/-- The lexemes at the front of a text, up to where no token starts. -/
def Cover : List Lexeme → List Char → Prop
  | [], unread => Token.scan.Fails unread
  | l :: ls, unread => Reads l.token l.text (ls.flatMap text ++ unread) ∧ Cover ls unread

theorem cut_of_fails (h : Token.scan.Fails s) : cut s = ([], s) := by
  obtain ⟨trail, ht⟩ := h
  rw [cut]
  split
  · rfl
  · next r hr =>
    rw [ht] at hr
    cases hr

theorem cut_of_reads {t : Token} {lexeme rest : List Char} (h : Reads t lexeme rest) :
    cut (lexeme ++ rest) = (⟨t, lexeme⟩ :: (cut rest).1, (cut rest).2) := by
  have hscan := h.scan_append
  rw [cut]
  split
  · next trail ht =>
    rw [hscan] at ht
    cases ht
  · next r hr =>
    rw [hscan] at hr
    cases hr
    rfl

theorem cut_of_cover (h : Cover ls unread) : cut (ls.flatMap text ++ unread) = (ls, unread) := by
  induction ls with
  | nil => exact cut_of_fails h
  | cons l ls ih =>
    rw [List.flatMap_cons, List.append_assoc, cut_of_reads h.1, ih h.2]

theorem cover_cut (s : List Char) :
    (cut s).1.flatMap text ++ (cut s).2 = s ∧ Cover (cut s).1 (cut s).2 := by
  fun_induction cut s with
  | case1 s trail ht => exact ⟨rfl, trail, ht⟩
  | case2 s r hr lexemes unread hcut ih =>
    rw [hcut] at ih
    obtain ⟨hs, hread⟩ := Token.scan_eq_ok_iff_reads.mp hr
    obtain ⟨hrest, hcover⟩ := ih
    dsimp only at hrest hcover ⊢
    refine ⟨?_, ?_, hcover⟩
    · rw [List.flatMap_cons, List.append_assoc, hrest, ← hs]
    · dsimp only
      rw [hrest]
      exact hread

theorem cut_eq_iff : cut s = (ls, unread) ↔ ls.flatMap text ++ unread = s ∧ Cover ls unread := by
  constructor
  · intro h
    have hc := cover_cut s
    rw [h] at hc
    exact hc
  · rintro ⟨rfl, h⟩
    exact cut_of_cover h

theorem Cover.reads_of_mem (h : Cover ls unread) :
    ∀ l ∈ ls, ∃ rest, Reads l.token l.text rest := by
  induction ls with
  | nil => simp
  | cons l ls ih => exact List.forall_mem_cons.mpr ⟨⟨_, h.1⟩, ih h.2⟩

theorem Cover.text_ne_nil (h : Cover ls unread) : ∀ l ∈ ls, l.text ≠ [] := by
  intro l hl
  obtain ⟨rest, hread⟩ := h.reads_of_mem l hl
  exact hread.lexeme_ne_nil

theorem Cover.flatMap_ne_return (h : Cover ls unread) : ls.flatMap text ≠ ['\r'] := by
  cases ls with
  | nil => simp
  | cons l ls =>
    intro he
    rw [List.flatMap_cons] at he
    have hne := h.1.lexeme_ne_nil
    cases hl : l.text with
    | nil => contradiction
    | cons c t =>
      rw [hl, List.cons_append, List.cons.injEq, List.append_eq_nil_iff] at he
      apply h.1.lexeme_ne_return
      rw [hl, he.1, he.2.1]

theorem Cover.front {ms : List Lexeme} (h : Cover (ls ++ ms) unread) : Cover ls [] := by
  induction ls with
  | nil => exact Token.scan_nil_fails
  | cons l ls ih =>
    rw [List.cons_append] at h
    obtain ⟨hl, hls⟩ := h
    have hfront := ih hls
    refine ⟨?_, hfront⟩
    rw [List.append_nil]
    apply hl.of_initial ?_ hfront.flatMap_ne_return
    rw [List.flatMap_append, List.append_assoc]
    exact List.prefix_append _ _

theorem Cover.back {ms : List Lexeme} (h : Cover (ls ++ ms) unread) : Cover ms unread := by
  induction ls with
  | nil => exact h
  | cons l ls ih => exact ih h.2

/-- The first lexemes of a text stay what they are if the text goes on in another
way, as long as the last of them can stand before it. -/
theorem Cover.replace {ms ns : List Lexeme} {unread' : List Char}
    (h : Cover (ls ++ ms) unread) (hnew : Cover ns unread')
    (hlast : ∀ l ∈ ls.getLast?, l.token.Before (ns.flatMap text ++ unread')) :
    Cover (ls ++ ns) unread' := by
  induction ls with
  | nil => exact hnew
  | cons l ls ih =>
    rw [List.cons_append] at h
    obtain ⟨hl, hls⟩ := h
    cases ls with
    | nil => exact ⟨hl.of_before (hlast l rfl), hnew⟩
    | cons m ls =>
      rw [List.cons_append, List.cons_append]
      refine ⟨hl.of_before ?_, ih hls hlast⟩
      have hbefore := hl.before
      rw [List.cons_append] at hls
      rw [List.cons_append, List.flatMap_cons, List.append_assoc] at hbefore
      rw [List.flatMap_cons, List.append_assoc]
      exact hbefore.of_reads hls.1 _

end Feedforward.Lexeme
