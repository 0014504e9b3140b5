import Feedforward.Proofs.Writing

/-! Nested blocks. Levels of writing and braces in text both open and close
blocks, and a sequence is well nested if it never closes one that is not open.
Written lines are described by their depth and text; the width of a level is
then all that is left to choose. -/
namespace Feedforward

inductive Turn where
  | opens
  | closes
  | neither
deriving DecidableEq, Repr

namespace Turn
variable {α : Type} {turn : α → Turn}

/-- The number of open blocks after a turn. Where none is open, none can be closed. -/
def next? : Turn → Nat → Option Nat
  | opens, n => some (n + 1)
  | closes, 0 => none
  | closes, n + 1 => some n
  | neither, n => some n

def openAfter? (turn : α → Turn) : Nat → List α → Option Nat
  | n, [] => some n
  | n, a :: as => ((turn a).next? n).bind fun k => openAfter? turn k as

theorem openAfter?_append (n : Nat) (as bs : List α) :
    openAfter? turn n (as ++ bs) =
      (openAfter? turn n as).bind fun k => openAfter? turn k bs := by
  induction as generalizing n with
  | nil => rfl
  | cons a as ih =>
    rw [List.cons_append, openAfter?, openAfter?, Option.bind_assoc]
    simp only [ih]

theorem openAfter?_append_eq_some {n k : Nat} {as bs : List α} :
    openAfter? turn n (as ++ bs) = some k ↔
      ∃ j, openAfter? turn n as = some j ∧ openAfter? turn j bs = some k := by
  rw [openAfter?_append, Option.bind_eq_some_iff]

theorem openAfter?_of_neither {as : List α} (h : ∀ a ∈ as, turn a = neither) (n : Nat) :
    openAfter? turn n as = some n := by
  induction as with
  | nil => rfl
  | cons a as ih =>
    rw [List.forall_mem_cons] at h
    rw [openAfter?, h.1]
    exact ih h.2

end Turn

def Text.brace (c : Char) : Turn :=
  if c = '\x7b' then .opens else if c = '\x7d' then .closes else .neither

namespace Text
open Turn (openAfter?)

theorem count_of_openAfter? {n k : Nat} {s : List Char} (h : openAfter? brace n s = some k) :
    n + s.count '\x7b' = k + s.count '\x7d' := by
  induction s generalizing n with
  | nil =>
    cases h
    rfl
  | cons c s ih =>
    rw [openAfter?, Option.bind_eq_some_iff] at h
    obtain ⟨j, hj, h⟩ := h
    have hs := ih h
    by_cases hopen : c = '\x7b'
    · subst hopen
      cases hj
      rw [List.count_cons_self, List.count_cons_of_ne (by decide)]
      omega
    by_cases hclose : c = '\x7d'
    · subst hclose
      rw [List.count_cons_self, List.count_cons_of_ne (by decide)]
      cases n with
      | zero => cases hj
      | succ n =>
        cases hj
        omega
    · rw [brace, if_neg hopen, if_neg hclose] at hj
      cases hj
      rw [List.count_cons_of_ne hopen, List.count_cons_of_ne hclose]
      exact hs

theorem brace_of_isWordPart {c : Char} (h : Token.isWordPart c = true) : brace c = .neither := by
  have hopen : c ≠ '\x7b' := by
    rintro rfl
    cases h
  have hclose : c ≠ '\x7d' := by
    rintro rfl
    cases h
  rw [brace, if_neg hopen, if_neg hclose]

theorem openAfter?_replicate (n width : Nat) :
    openAfter? brace n (List.replicate width ' ') = some n := by
  apply Turn.openAfter?_of_neither
  intro c hc
  rw [(List.mem_replicate.mp hc).2]
  rfl

/-- A line with something on it that neither starts nor ends in a space. -/
structure Solid (s : List Char) : Prop where
  unbroken : Unbroken s
  ne_nil : s ≠ []
  head_ne : s.head? ≠ some ' '
  last_ne : s.getLast? ≠ some ' '

instance (s : List Char) : Decidable (Solid s) :=
  decidable_of_iff (Unbroken s ∧ s ≠ [] ∧ s.head? ≠ some ' ' ∧ s.getLast? ≠ some ' ')
    ⟨fun h => ⟨h.1, h.2.1, h.2.2.1, h.2.2.2⟩, fun h => ⟨h.1, h.2, h.3, h.4⟩⟩

end Text

def Step.turn : Step → Turn
  | .line _ | .blank => .neither
  | .indent => .opens
  | .dedent => .closes

/-- A line of code by its depth and what stands after the margin. -/
structure CodeLine where
  depth : Nat
  text : List Char
deriving DecidableEq, Repr

namespace CodeLine

def empty : CodeLine := ⟨0, []⟩

def chars (width : Nat) (l : CodeLine) : List Char :=
  List.replicate (width * l.depth) ' ' ++ l.text

def ofChars (width : Nat) (l : List Char) : CodeLine :=
  ⟨(l.takeWhile (· == ' ')).length / width, l.dropWhile (· == ' ')⟩

theorem ofChars_chars {width : Nat} (hwidth : 0 < width) {l : CodeLine}
    (h : l.text.head? ≠ some ' ') : ofChars width (l.chars width) = l := by
  have hspaces : ∀ c ∈ List.replicate (width * l.depth) ' ', (c == ' ') = true := by
    intro c hc
    rw [(List.mem_replicate.mp hc).2]
    rfl
  have hdrop := List.dropWhile_beq_eq_self_of_head?_ne h
  have htake : l.text.takeWhile (· == ' ') = [] := by
    have hlength := congrArg List.length (l.text.takeWhile_append_dropWhile (p := (· == ' ')))
    rw [hdrop, List.length_append] at hlength
    exact List.eq_nil_of_length_eq_zero (by omega)
  unfold ofChars chars
  rw [List.takeWhile_append_of_pos hspaces, List.dropWhile_append_of_pos hspaces, htake, hdrop,
    List.append_nil, List.length_replicate, Nat.mul_div_cancel_left _ hwidth]

end CodeLine

def codeLines (width : Nat) (code : String) : List CodeLine :=
  (Text.lines code.toList).map (CodeLine.ofChars width)

namespace Writer
open Turn (openAfter?)

theorem step_level {w : Writer} {s : Step} {level : Nat} (h : s.turn.next? w.level = some level) :
    (w.step s).level = level := by
  cases s with
  | line text =>
    cases h
    rw [step_line_output]
  | blank =>
    cases h
    rfl
  | indent =>
    cases h
    rfl
  | dedent =>
    obtain ⟨width, _ | n, output⟩ := w
    · cases h
    · cases h
      rfl

theorem run_level {w : Writer} {steps : List Step} {level : Nat}
    (h : openAfter? Step.turn w.level steps = some level) : (w.run steps).level = level := by
  induction steps generalizing w with
  | nil =>
    cases h
    rfl
  | cons s steps ih =>
    rw [openAfter?, Option.bind_eq_some_iff] at h
    obtain ⟨next, hnext, h⟩ := h
    rw [run_cons]
    apply ih
    rw [step_level hnext]
    exact h

theorem level_pos_of_dedent {w : Writer} {front back : List Step} {level : Nat}
    (h : openAfter? Step.turn w.level (front ++ .dedent :: back) = some level) :
    0 < (w.run front).level := by
  obtain ⟨before, hbefore, hafter⟩ := Turn.openAfter?_append_eq_some.mp h
  rw [run_level hbefore]
  cases before with
  | zero => cases hafter
  | succ before => exact Nat.succ_pos before

def outline : Nat → List Step → List CodeLine
  | _, [] => []
  | level, .line text :: steps => ⟨level, text.toList⟩ :: outline level steps
  | level, .blank :: steps => .empty :: outline level steps
  | level, .indent :: steps => outline (level + 1) steps
  | level, .dedent :: steps => outline (level - 1) steps

theorem outline_text (level : Nat) (steps : List Step) :
    (outline level steps).map CodeLine.text = steps.filterMap Step.text? := by
  fun_induction outline level steps with
  | case1 => rfl
  | case2 level text steps ih =>
    rw [List.map_cons, ih]
    rfl
  | case3 level steps ih =>
    rw [List.map_cons, ih]
    rfl
  | case4 level steps ih => exact ih
  | case5 level steps ih => exact ih

theorem outline_append {level next : Nat} {first : List Step}
    (h : openAfter? Step.turn level first = some next) (second : List Step) :
    outline level (first ++ second) = outline level first ++ outline next second := by
  induction first generalizing level with
  | nil =>
    cases h
    rfl
  | cons s first ih =>
    rw [openAfter?, Option.bind_eq_some_iff] at h
    obtain ⟨j, hj, h⟩ := h
    have hrest := ih h
    cases s with
    | line text =>
      cases hj
      rw [List.cons_append, outline, outline, hrest, List.cons_append]
    | blank =>
      cases hj
      rw [List.cons_append, outline, outline, hrest, List.cons_append]
    | indent =>
      cases hj
      rw [List.cons_append, outline, outline, hrest]
    | dedent =>
      cases level with
      | zero => cases hj
      | succ level =>
        cases hj
        rw [List.cons_append, outline, outline, Nat.add_sub_cancel, hrest]

theorem written_eq_outline {width level : Nat} {steps : List Step}
    (h : ∀ text, .line text ∈ steps → text ≠ "") :
    written width level steps = (outline level steps).map (CodeLine.chars width) := by
  fun_induction outline level steps with
  | case1 => rfl
  | case2 level text steps ih =>
    have htext := h text List.mem_cons_self
    rw [written, ih fun s hs => h s (List.mem_cons_of_mem _ hs), marginLine, if_neg htext,
      List.map_cons, CodeLine.chars, Nat.mul_comm]
  | case3 level steps ih =>
    rw [written, ih fun s hs => h s (List.mem_cons_of_mem _ hs)]
    rfl
  | case4 level steps ih => exact ih fun s hs => h s (List.mem_cons_of_mem _ hs)
  | case5 level steps ih => exact ih fun s hs => h s (List.mem_cons_of_mem _ hs)

end Writer
end Feedforward
