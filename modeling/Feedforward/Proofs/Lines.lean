import Feedforward.Text.Basic

/-! Texts divided into lines. A `Division` keeps what ends each line, so that
nothing of the text is lost, and inductions over a text can go line by line. -/
namespace Feedforward.Text

/-- What may end a line. A carriage return before a line feed belongs to the
line end, so a line that a lone line feed ends has none at its end. -/
inductive Ends : List Char → List Char → Prop where
  | lineFeed {line : List Char} : line.getLast? ≠ some '\r' → Ends line ['\n']
  | returnAndLineFeed {line : List Char} : Ends line ['\r', '\n']

theorem Ends.of_append {front line ending : List Char} (h : Ends (front ++ line) ending) :
    Ends line ending := by
  cases h with
  | lineFeed hlast =>
    refine .lineFeed fun hline => hlast ?_
    rw [List.getLast?_append, hline]
    rfl
  | returnAndLineFeed => exact .returnAndLineFeed

theorem Ends.cons {c : Char} {line ending : List Char} (h : Ends line ending)
    (hc : line = [] → ending = ['\n'] → c ≠ '\r') : Ends (c :: line) ending := by
  cases h with
  | lineFeed hlast =>
    refine .lineFeed ?_
    cases line with
    | nil => simpa using hc rfl rfl
    | cons d line => simpa [List.getLast?_cons_cons] using hlast
  | returnAndLineFeed => exact .returnAndLineFeed

theorem Ends.count_feed {line ending : List Char} (h : Ends line ending) :
    ending.count '\n' = 1 := by
  cases h <;> decide

theorem Ends.getLast?_eq {line ending : List Char} (h : Ends line ending) :
    ending.getLast? = some '\n' := by
  cases h <;> rfl

/-- A text as its lines, each with what ends it. Only the last line may end
with the text, and then it is not empty. -/
inductive Division : List Char → List (List Char × List Char) → Prop where
  | nil : Division [] []
  | last {line : List Char} : line ≠ [] → '\n' ∉ line → Division line [(line, [])]
  | cons {line ending rest : List Char} {pieces : List (List Char × List Char)} :
      '\n' ∉ line → Ends line ending → Division rest pieces →
      Division (line ++ (ending ++ rest)) ((line, ending) :: pieces)

theorem Division.feed_not_mem {s : List Char} {pieces : List (List Char × List Char)}
    (h : Division s pieces) : ∀ piece ∈ pieces, '\n' ∉ piece.1 := by
  induction h with
  | nil => simp
  | last _ hline => simpa using hline
  | cons hline _ _ ih => exact List.forall_mem_cons.mpr ⟨hline, ih⟩

theorem Division.extendFirst {c : Char} {s : List Char} {pieces : List (List Char × List Char)}
    (h : Division s pieces) (hreturn : ∀ t, c = '\r' → s = '\n' :: t → False) (hfeed : c ≠ '\n') :
    ∃ pieces', Division (c :: s) pieces' ∧
      pieces'.map Prod.fst = Text.extendFirst c (pieces.map Prod.fst) := by
  cases h with
  | nil => exact ⟨[([c], [])], .last (by simp) (by simpa using hfeed.symm), rfl⟩
  | last hne hline =>
    exact ⟨[(c :: s, [])], .last (by simp) (by simpa using ⟨hfeed.symm, hline⟩), rfl⟩
  | @cons line ending rest pieces hline hends hrest =>
    refine ⟨(c :: line, ending) :: pieces, ?_, rfl⟩
    refine .cons (by simpa using ⟨hfeed.symm, hline⟩) (hends.cons ?_) hrest
    rintro rfl rfl rfl
    exact hreturn rest rfl rfl

theorem exists_division (s : List Char) :
    ∃ pieces, Division s pieces ∧ pieces.map Prod.fst = lines s := by
  fun_induction lines s with
  | case1 => exact ⟨[], .nil, rfl⟩
  | case2 s ih =>
    obtain ⟨pieces, hpieces, hlines⟩ := ih
    have hends : Ends [] ['\r', '\n'] := .returnAndLineFeed
    exact ⟨([], ['\r', '\n']) :: pieces, .cons List.not_mem_nil hends hpieces, by simp [hlines]⟩
  | case3 s ih =>
    obtain ⟨pieces, hpieces, hlines⟩ := ih
    have hends : Ends [] ['\n'] := .lineFeed (by simp)
    exact ⟨([], ['\n']) :: pieces, .cons List.not_mem_nil hends hpieces, by simp [hlines]⟩
  | case4 c s hreturn hfeed ih =>
    obtain ⟨pieces, hpieces, hlines⟩ := ih
    obtain ⟨pieces', hpieces', hlines'⟩ := hpieces.extendFirst hreturn hfeed
    exact ⟨pieces', hpieces', by rw [hlines', hlines]⟩

theorem lines_ne_nil {s : List Char} (h : s ≠ []) : lines s ≠ [] := by
  fun_cases lines s with
  | case1 => contradiction
  | case2 s => simp
  | case3 s => simp
  | case4 c s =>
    unfold extendFirst
    split <;> simp

theorem lines_append {front : List Char} (h : ∀ c ∈ front.getLast?, c = '\n') (s : List Char) :
    lines (front ++ s) = lines front ++ lines s := by
  have hlast {c : Char} {t : List Char} (h : ∀ d ∈ (c :: t).getLast?, d = '\n') :
      ∀ d ∈ t.getLast?, d = '\n' := by
    intro d hd
    apply h
    rw [List.getLast?_cons, Option.mem_def.mp hd]
    rfl
  fun_induction lines front with
  | case1 => rfl
  | case2 t ih =>
    simp only [List.cons_append, lines_crlf, ih (hlast (hlast h))]
  | case3 t ih =>
    simp only [List.cons_append, lines_lf, ih (hlast h)]
  | case4 c t hreturn hfeed ih =>
    -- The line goes on: it was not ended by the character, which is the last one of no front.
    have hne : t ≠ [] := by
      rintro rfl
      exact hfeed (h c rfl)
    have hreturn' : ∀ u, c = '\r' → t ++ s = '\n' :: u → False := by
      intro u hc hu
      obtain ⟨d, t', rfl⟩ := List.exists_cons_of_ne_nil hne
      rw [List.cons_append, List.cons.injEq] at hu
      exact hreturn t' hc (by rw [hu.1])
    obtain ⟨first, others, hlines⟩ := List.exists_cons_of_ne_nil (lines_ne_nil hne)
    rw [List.cons_append, lines.eq_4 c _ hreturn' hfeed, ih (hlast h), hlines]
    rfl

end Feedforward.Text
