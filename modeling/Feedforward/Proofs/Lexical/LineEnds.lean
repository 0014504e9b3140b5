import Feedforward.Proofs.Lexical.Cutting
import Feedforward.Proofs.Lines
import Feedforward.Proofs.Naming

/-! Lexemes and line ends. Only line ends and block comments hold line feeds, so
without comments over several lines the lexemes of a text are those of its lines
with the line ends between them. -/
namespace Feedforward.Token
open Text (Unbroken Ends)
variable {t : Token} {lexeme rest : List Char}

def isComment : Token → Bool
  | comment _ _ => true
  | _ => false

theorem Reads.text_of_newline (h : Reads .newline lexeme rest) :
    lexeme = ['\n'] ∨ lexeme = ['\r', '\n'] := by
  cases h with
  | lineFeed => exact .inl rfl
  | returnAndLineFeed => exact .inr rfl

/-- Of all other lexemes only block comments hold characters that end lines. -/
theorem Reads.unbroken (h : Reads t lexeme rest) (hne : t ≠ .newline) :
    Unbroken lexeme ∨ t.isComment = true ∧ lexeme.getLast? = some '/' := by
  cases h with
  | lineFeed => contradiction
  | returnAndLineFeed => contradiction
  | @blockComment body _ _ =>
    have hlast : '/' :: '*' :: (body ++ ['*', '/']) = ('/' :: '*' :: (body ++ ['*'])) ++ ['/'] := by
      simp
    exact .inr ⟨rfl, by rw [hlast, List.getLast?_concat]⟩
  | blanks _ hrun => exact .inl (Text.unbroken_of_class hrun.all (by decide) (by decide))
  | lineComment hrun _ =>
    have hbody := Text.unbroken_of_class hrun.all (by decide) (by decide)
    exact .inl (by simpa [isLineEnd] using hbody)
  | hashComment hrun _ =>
    have hbody := Text.unbroken_of_class hrun.all (by decide) (by decide)
    exact .inl (by simpa [isLineEnd] using hbody)
  | string hcontent =>
    have hbody := Text.unbroken_of_class hcontent (by decide) (by decide)
    exact .inl (by simpa [isLineEnd] using hbody)
  | natural _ hrun _ => exact .inl (Text.unbroken_of_class hrun.all (by decide) (by decide))
  | negative _ hrun _ =>
    have hdigits := Text.unbroken_of_class hrun.all (by decide) (by decide)
    exact .inl (by simpa [isLineEnd] using hdigits)
  | @keyword k => exact .inl (by cases k <;> decide)
  | identifier hword _ _ =>
    exact .inl (Text.unbroken_of_class (Name.isWordPart_of_isWord hword) (by decide) (by decide))
  | @delimiter d => exact .inl (by cases d <;> decide)

theorem Reads.feed_not_mem (h : Reads t lexeme rest) (hne : t ≠ .newline)
    (hcomment : t.isComment = true → '\n' ∉ lexeme) : '\n' ∉ lexeme := by
  rcases h.unbroken hne with hunbroken | ⟨hc, -⟩
  · intro hmem
    exact absurd (hunbroken _ hmem) (by decide)
  · exact hcomment hc

theorem atLineEnd_append {s u : List Char} (hs : atLineEnd s = true) (hu : atLineEnd u = true) :
    atLineEnd (s ++ u) = true := by
  rcases atLineEnd_iff.mp hs with rfl | ⟨s, rfl⟩ | ⟨s, rfl⟩
  · exact hu
  · rfl
  · rfl

theorem Reads.append {u : List Char} (h : Reads t lexeme rest) (hu : atLineEnd u = true) :
    Reads t lexeme (rest ++ u) := by
  apply h.of_before
  apply h.before.map
  · intro p hclass hp
    cases rest with
    | nil => exact stops_of_atLineEnd hu hclass.return_not hclass.feed_not
    | cons c rest => simpa using hp
  · intro he
    exact atLineEnd_append he hu

theorem Reads.within_line {line ending more : List Char} (h : Reads t lexeme rest)
    (hne : t ≠ .newline) (hfeed : '\n' ∉ lexeme) (hends : Ends line ending)
    (hs : lexeme ++ rest = line ++ (ending ++ more)) :
    ∃ line', line = lexeme ++ line' ∧ rest = line' ++ (ending ++ more) := by
  have hlast : lexeme.getLast? ≠ some '\r' := by
    rcases h.unbroken hne with hunbroken | ⟨-, hlast⟩
    · intro hlast
      exact absurd (hunbroken _ (List.mem_of_getLast? hlast)) (by decide)
    · rw [hlast]
      decide
  -- A lexeme that went on past its line would hold the line feed, or end with the return before it.
  rcases List.append_eq_append_iff.mp hs with ⟨line', hline, hrest⟩ | ⟨extra, rfl, hextra⟩
  · exact ⟨line', hline, hrest⟩
  · match extra with
    | [] => exact ⟨[], by simp, hextra.symm⟩
    | [c] =>
      cases hends with
      | lineFeed _ =>
        cases hextra
        simp at hfeed
      | returnAndLineFeed =>
        cases hextra
        simp at hlast
    | c :: d :: extra =>
      cases hends with
      | lineFeed _ =>
        cases hextra
        simp at hfeed
      | returnAndLineFeed =>
        cases hextra
        simp at hfeed

theorem Reads.at_line_end {line ending more : List Char} (h : Reads .newline lexeme rest)
    (hfeed : '\n' ∉ line) (hends : Ends line ending)
    (hs : lexeme ++ rest = line ++ (ending ++ more)) :
    line = [] ∧ lexeme = ending ∧ rest = more := by
  cases line with
  | nil =>
    rcases h.text_of_newline with rfl | rfl <;> cases hends <;> simp_all
  | cons c line =>
    exfalso
    rcases h.text_of_newline with rfl | rfl
    · cases hs
      simp at hfeed
    · cases line with
      | nil =>
        cases hends with
        | lineFeed hlast =>
          cases hs
          simp at hlast
        | returnAndLineFeed => simp at hs
      | cons d line =>
        cases hs
        simp at hfeed

end Feedforward.Token

namespace Feedforward.Lexeme
open Token (Reads atLineEnd)
open Text (Ends Division)
variable {ls ms : List Lexeme} {s line ending rest : List Char}

def OneLineComments (ls : List Lexeme) : Prop :=
  ∀ l ∈ ls, l.token.isComment = true → '\n' ∉ l.text

theorem atLineEnd_of_ends (h : Ends line ending) (s : List Char) :
    atLineEnd (ending ++ s) = true := by
  cases h <;> rfl

theorem Cover.append {unread : List Char} (h : Cover ls []) (hms : Cover ms unread)
    (hend : atLineEnd (ms.flatMap text ++ unread) = true) : Cover (ls ++ ms) unread := by
  induction ls with
  | nil => exact hms
  | cons l ls ih =>
    refine ⟨?_, ih h.2⟩
    have hl := h.1.append hend
    simpa [List.append_assoc] using hl

theorem reads_newline (h : Ends line ending) (s : List Char) :
    Reads .newline ending s := by
  cases h with
  | lineFeed _ => exact .lineFeed
  | returnAndLineFeed => exact .returnAndLineFeed

theorem Cover.join (h : Cover ls []) (hms : Cover ms []) (hends : Ends line ending) :
    Cover (ls ++ ⟨.newline, ending⟩ :: ms) [] := by
  refine h.append ⟨?_, hms⟩ ?_
  · exact reads_newline hends _
  · simpa using atLineEnd_of_ends hends (ms.flatMap text)

theorem Cover.split (h : Cover ls []) (hcomments : OneLineComments ls) (hfeed : '\n' ∉ line)
    (hends : Ends line ending) (hs : ls.flatMap text = line ++ (ending ++ rest)) :
    ∃ ks ms, ls = ks ++ ⟨.newline, ending⟩ :: ms ∧ Cover ks [] ∧ ks.flatMap text = line ∧
      Cover ms [] ∧ ms.flatMap text = rest := by
  -- The induction goes up to the first line end, and each lexeme before it shortens the line.
  induction ls generalizing line with
  | nil => cases hends <;> simp at hs
  | cons l ls ih =>
    obtain ⟨hl, hls⟩ := h
    rw [List.append_nil] at hl
    rw [List.flatMap_cons] at hs
    by_cases hnewline : l.token = .newline
    · rw [hnewline] at hl
      obtain ⟨rfl, htext, hrest⟩ := hl.at_line_end hfeed hends hs
      refine ⟨[], ls, ?_, Token.scan_nil_fails, rfl, hls, hrest⟩
      rw [← htext, ← hnewline]
      rfl
    · have hltext := hl.feed_not_mem hnewline (hcomments l List.mem_cons_self)
      obtain ⟨line', rfl, hline'⟩ := hl.within_line hnewline hltext hends hs
      obtain ⟨ks, ms, rfl, hks, hkstext, hms, hmstext⟩ :=
        ih hls (fun m hm => hcomments m (List.mem_cons_of_mem l hm))
          (fun hmem => hfeed (List.mem_append_right _ hmem)) hends.of_append hline'
      refine ⟨l :: ks, ms, rfl, ⟨?_, hks⟩, by rw [List.flatMap_cons, hkstext], hms, hmstext⟩
      refine hl.of_initial ?_ ?_
      · rw [List.append_nil, List.flatMap_append]
        exact ⟨_, rfl⟩
      · rw [List.append_nil]
        exact hks.flatMap_ne_return

def ofPiece (piece : List Char × List Char) : List Lexeme :=
  (cut piece.1).1 ++ if piece.2 = [] then [] else [⟨.newline, piece.2⟩]

theorem ofPiece_of_ends (h : Ends line ending) :
    ofPiece (line, ending) = (cut line).1 ++ [⟨.newline, ending⟩] := by
  cases h <;> rfl

theorem cover_of_readable (h : (cut line).2 = []) :
    Cover (cut line).1 [] ∧ (cut line).1.flatMap text = line := by
  obtain ⟨hs, hcover⟩ := cover_cut line
  rw [h] at hs hcover
  exact ⟨hcover, by simpa using hs⟩

variable {pieces : List (List Char × List Char)}

theorem cut_of_division (h : Division s pieces) (hread : ∀ piece ∈ pieces, (cut piece.1).2 = []) :
    cut s = (pieces.flatMap ofPiece, []) := by
  induction h with
  | nil => exact cut_of_fails Token.scan_nil_fails
  | @last line _ _ =>
    have hline := hread (line, []) List.mem_cons_self
    simp [ofPiece, ← hline]
  | @cons line ending rest pieces _ hends _ ih =>
    obtain ⟨hline, hpieces⟩ := List.forall_mem_cons.mp hread
    obtain ⟨hcover, htext⟩ := cover_of_readable hline
    obtain ⟨hrest, hmore⟩ := cut_eq_iff.mp (ih hpieces)
    rw [List.append_nil] at hrest
    rw [cut_eq_iff, List.flatMap_cons, ofPiece_of_ends hends, List.append_assoc]
    refine ⟨?_, hcover.join hmore hends⟩
    simp [htext, hrest]

theorem readable_of_division (h : Division s pieces) (hs : (cut s).2 = [])
    (hcomments : OneLineComments (cut s).1) : ∀ piece ∈ pieces, (cut piece.1).2 = [] := by
  induction h with
  | nil => simp
  | last _ _ => simpa using hs
  | @cons line ending rest pieces hfeed hends _ ih =>
    obtain ⟨hcover, htext⟩ := cover_of_readable hs
    obtain ⟨ks, ms, hls, hks, hline, hms, hrest⟩ := hcover.split hcomments hfeed hends htext
    have hcutLine : cut line = (ks, []) := cut_eq_iff.mpr ⟨by simpa using hline, hks⟩
    have hcutRest : cut rest = (ms, []) := cut_eq_iff.mpr ⟨by simpa using hrest, hms⟩
    rw [List.forall_mem_cons]
    refine ⟨by rw [hcutLine], ih (by rw [hcutRest]) ?_⟩
    rw [hcutRest]
    intro m hm
    exact hcomments m (by rw [hls]; simp [hm])

theorem feed_not_mem_of_mem_cut (hfeed : '\n' ∉ line) : ∀ l ∈ (cut line).1, '\n' ∉ l.text := by
  intro l hl hmem
  apply hfeed
  rw [← (cover_cut line).1]
  exact List.mem_append_left _ (List.mem_flatMap_of_mem hl hmem)

theorem oneLineComments_of_division (h : Division s pieces) :
    OneLineComments (pieces.flatMap ofPiece) := by
  intro l hl hcomment
  obtain ⟨piece, hpiece, hl⟩ := List.mem_flatMap.mp hl
  rcases List.mem_append.mp hl with hl | hl
  · exact feed_not_mem_of_mem_cut (h.feed_not_mem piece hpiece) l hl
  · split at hl
    · cases hl
    · rw [List.mem_singleton.mp hl] at hcomment
      cases hcomment

end Feedforward.Lexeme
