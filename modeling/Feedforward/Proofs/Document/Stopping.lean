import Feedforward.Proofs.Document.Precedence
import Feedforward.Proofs.Lines

/-! Documents with a line at fault. Reading stops there, so what it reports is
decided by the lines up to that one, and the lines before it are all in order. -/
namespace Feedforward

namespace Text

/-- The text of the first lines, each with what ends it: the text as far as that
many line feeds. -/
def firstLines : Nat → List Char → List Char
  | 0, _ => []
  | _ + 1, [] => []
  | n + 1, c :: s => c :: firstLines (if c = '\n' then n else n + 1) s

theorem take_extendFirst (c : Char) (ls : List (List Char)) (n : Nat) :
    (extendFirst c ls).take (n + 1) = extendFirst c (ls.take (n + 1)) := by
  cases ls <;> simp [extendFirst]

theorem head?_firstLines (n : Nat) (s : List Char) :
    (firstLines (n + 1) s).head? = s.head? := by
  cases s <;> rfl

theorem lines_firstLines (n : Nat) (s : List Char) :
    lines (firstLines n s) = (lines s).take n := by
  fun_induction lines s generalizing n with
  | case1 => cases n <;> rfl
  | case2 s ih =>
    cases n with
    | zero => rfl
    | succ n => simp [firstLines, ih]
  | case3 s ih =>
    cases n with
    | zero => rfl
    | succ n => simp [firstLines, ih]
  | case4 c s hreturn hfeed ih =>
    cases n with
    | zero => rfl
    | succ n =>
      -- The text goes on with the same character, so a carriage return ends no line here either.
      have hreturn' : ∀ t, c = '\r' → firstLines (n + 1) s = '\n' :: t → False := by
        intro t hc ht
        have hhead := head?_firstLines n s
        rw [ht, List.head?_cons] at hhead
        obtain ⟨u, rfl⟩ := List.head?_eq_some_iff.mp hhead.symm
        exact hreturn u hc rfl
      rw [firstLines, if_neg hfeed, lines.eq_4 c _ hreturn' hfeed, ih, take_extendFirst]

end Text

namespace Survey
variable {line n k : Nat} {seen : Declared} {f : LineFault} {lines : List (List Char)}

theorem ofLines_take_of_stop (h : (ofLines 1 {} lines).declarations = .error (n, f)) :
    0 < n ∧ n ≤ lines.length ∧
      (∃ ds, (ofLines 1 {} (lines.take (n - 1))).declarations = .ok ds) ∧
      (ofLines 1 {} (lines.take n)).declarations = .error (n, f) := by
  obtain ⟨front, s, back, rfl, rfl, hfront, hstop⟩ := exists_stop h
  have hbefore : (front ++ s :: back).take (1 + front.length - 1) = front := by
    rw [Nat.add_sub_cancel_left, List.take_left]
  have hupto : (front ++ s :: back).take (1 + front.length) = front ++ [s] := by
    rw [Nat.add_comm, List.take_length_add_append, List.take_succ_cons, List.take_zero]
  rw [hbefore, hupto]
  refine ⟨by omega, ?_, hfront, hstop⟩
  rw [List.length_append, List.length_cons]
  omega

theorem ofLines_eq_of_stop (h : (ofLines line seen (lines.take k)).declarations = .error (n, f)) :
    ofLines line seen lines = ofLines line seen (lines.take k) := by
  rw [← List.take_append_drop k lines, ofLines_append, List.take_append_drop, andThen_of_error h]

end Survey

/-- A document that is refused for a line at fault is read the same by whatever
document has the same lines up to that one, and the lines before it by
themselves are not refused for any line. -/
theorem reading_stopped {source : String} {line : Nat} {f : LineFault}
    (h : Model.read source = .error (.malformedLine line f)) :
    (0 < line ∧ line ≤ (Text.lines source.toList).length) ∧
    (∀ other : String,
      (Text.lines other.toList).take line = (Text.lines source.toList).take line →
        Reading.ofString other = Reading.ofString source) ∧
    ∀ line' f', Model.read (String.ofList (Text.firstLines (line - 1) source.toList)) ≠
      .error (.malformedLine line' f') := by
  rw [Model.read_eq_malformedLine] at h
  obtain ⟨hpos, hle, ⟨ds, hbefore⟩, hstop⟩ := Survey.ofLines_take_of_stop h
  refine ⟨⟨hpos, hle⟩, ?_, ?_⟩
  · intro other hsame
    unfold Reading.ofString
    rw [Survey.ofLines_eq_of_stop hstop, ← hsame, Survey.ofLines_eq_of_stop (by rwa [hsame])]
  · intro line' f'
    rw [Ne, Model.read_eq_malformedLine, String.toList_ofList, Text.lines_firstLines, hbefore]
    simp

/-- After a second model neither the rest nor the line ends before it matter. -/
theorem reading_stopped_second_model :
    let source := "model A \x7b\r\nodd\r\n" ++ "layer: units=1, activation=\"tanh\"\r\n" ++
      "model B \x7b\r\n\x7d \x7d"
    let other := "model A \x7b\nodd\nlayer: units=1, activation=\"tanh\"\nmodel B \x7b"
    Model.read source = .error (.malformedLine 4 (.repeated .model 1)) ∧
    (Reading.ofString source).skipped = [2] ∧
    (Reading.ofString source).warnings = [⟨3, "tanh"⟩] ∧
    (Text.lines other.toList).take 4 = (Text.lines source.toList).take 4 ∧
    Reading.ofString other = Reading.ofString source ∧
    ∀ line f, Model.read (String.ofList (Text.firstLines 3 source.toList)) ≠
      .error (.malformedLine line f) := by
  intro source other
  have hread : Model.read source = .error (.malformedLine 4 (.repeated .model 1)) := by
    decide +kernel
  have hsame : (Text.lines other.toList).take 4 = (Text.lines source.toList).take 4 := by
    decide +kernel
  obtain ⟨-, hother, hbefore⟩ := reading_stopped hread
  exact ⟨hread, by decide +kernel, by decide +kernel, hsame, hother other hsame, hbefore⟩

end Feedforward
