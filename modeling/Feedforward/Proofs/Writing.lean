import Feedforward.Code.Writer
import Feedforward.Text.Basic
import Feedforward.Token.Scan

/-! The lines that steps write. Written text is these lines, each ended by a
line feed, so reading its lines gives them back: with their margins, or without
them as the texts of the steps. -/
namespace Feedforward.Text
open Token (isLineEnd)

def Unbroken (s : List Char) : Prop := ∀ c ∈ s, isLineEnd c = false

instance (s : List Char) : Decidable (Unbroken s) :=
  List.decidableBAll (isLineEnd · = false) s

@[simp] theorem unbroken_nil : Unbroken [] := by
  intro c hc
  cases hc

@[simp] theorem unbroken_cons (c : Char) (s : List Char) :
    Unbroken (c :: s) ↔ isLineEnd c = false ∧ Unbroken s := by
  simp [Unbroken]

@[simp] theorem unbroken_append (s t : List Char) :
    Unbroken (s ++ t) ↔ Unbroken s ∧ Unbroken t := by
  simp only [Unbroken, List.mem_append]
  constructor
  · intro h
    exact ⟨fun c hc => h c (.inl hc), fun c hc => h c (.inr hc)⟩
  · rintro ⟨hs, ht⟩ c (hc | hc)
    · exact hs c hc
    · exact ht c hc

theorem unbroken_of_class {p : Char → Bool} {s : List Char} (h : ∀ c ∈ s, p c = true)
    (hr : p '\r' = false) (hn : p '\n' = false) : Unbroken s := by
  intro c hc
  have hp := h c hc
  have hcr : c ≠ '\r' := by
    rintro rfl
    rw [hr] at hp
    cases hp
  have hcn : c ≠ '\n' := by
    rintro rfl
    rw [hn] at hp
    cases hp
  simp [isLineEnd, hcr, hcn]

@[simp] theorem unbroken_toDigits (n : Nat) : Unbroken (Nat.toDigits 10 n) :=
  unbroken_of_class (fun c hc => Nat.isDigit_of_mem_toDigits (by decide) (by decide) hc)
    (by decide) (by decide)

theorem unbroken_replicate (n : Nat) : Unbroken (List.replicate n ' ') := by
  intro c hc
  rw [(List.mem_replicate.mp hc).2]
  decide

theorem lines_append_unbroken {l : List Char} (h : Unbroken l) (s : List Char) :
    lines (l ++ s) = l.foldr extendFirst (lines s) := by
  induction l with
  | nil => rfl
  | cons c l ih =>
    rw [unbroken_cons] at h
    have hreturn : ∀ t, c = '\r' → l ++ s = '\n' :: t → False := by
      rintro t rfl -
      exact absurd h.1 (by decide)
    have hfeed : c = '\n' → False := by
      rintro rfl
      exact absurd h.1 (by decide)
    rw [List.cons_append, lines.eq_4 c _ hreturn hfeed, ih h.2, List.foldr_cons]

theorem foldr_extendFirst (l first : List Char) (others : List (List Char)) :
    l.foldr extendFirst (first :: others) = (l ++ first) :: others := by
  induction l with
  | nil => rfl
  | cons c l ih => rw [List.foldr_cons, ih, extendFirst, List.cons_append]

theorem lines_append_lineFeed {l : List Char} (h : Unbroken l) (s : List Char) :
    lines (l ++ '\n' :: s) = l :: lines s := by
  rw [lines_append_unbroken h, lines_lf, foldr_extendFirst, List.append_nil]

theorem lines_append_returnAndLineFeed {l : List Char} (h : Unbroken l) (s : List Char) :
    lines (l ++ '\r' :: '\n' :: s) = l :: lines s := by
  rw [lines_append_unbroken h, lines_crlf, foldr_extendFirst, List.append_nil]

theorem lines_of_unbroken {l : List Char} (h : Unbroken l) (hne : l ≠ []) : lines l = [l] := by
  have hlines := lines_append_unbroken h []
  rw [List.append_nil, lines_nil] at hlines
  rw [hlines, ← List.dropLast_concat_getLast hne, List.foldr_append]
  exact foldr_extendFirst _ _ []

theorem lines_flatMap {ls : List (List Char)} (h : ∀ l ∈ ls, Unbroken l) :
    lines (ls.flatMap (· ++ ['\n'])) = ls := by
  induction ls with
  | nil => rfl
  | cons l ls ih =>
    have hl := h l List.mem_cons_self
    have hls : ∀ m ∈ ls, Unbroken m := fun m hm => h m (List.mem_cons_of_mem l hm)
    rw [List.flatMap_cons, List.append_assoc, List.singleton_append, lines_append_lineFeed hl,
      ih hls]

def unlines (ls : List (List Char)) : String := String.ofList (ls.flatMap (· ++ ['\n']))

theorem lines_unlines {ls : List (List Char)} (h : ∀ l ∈ ls, Unbroken l) :
    lines (unlines ls).toList = ls := by
  rw [unlines, String.toList_ofList, lines_flatMap h]

end Feedforward.Text

namespace Feedforward

def Step.text? : Step → Option (List Char)
  | .line text => some text.toList
  | .blank => some []
  | .indent | .dedent => none

namespace Writer
open Text (Unbroken)

/-- A line at a level; an empty one has no margin. -/
def marginLine (width level : Nat) (text : String) : List Char :=
  if text = "" then [] else List.replicate (level * width) ' ' ++ text.toList

def written (width : Nat) : Nat → List Step → List (List Char)
  | _, [] => []
  | level, .line text :: steps => marginLine width level text :: written width level steps
  | level, .blank :: steps => [] :: written width level steps
  | level, .indent :: steps => written width (level + 1) steps
  | level, .dedent :: steps => written width (level - 1) steps

theorem step_line_output (w : Writer) (text : String) :
    w.step (.line text) =
      { w with output := w.output ++ String.ofList (marginLine w.width w.level text) ++ "\n" } := by
  unfold step marginLine
  by_cases h : text = ""
  · simp [h]
  · simp [h, margin, String.append_assoc, String.ofList_append]

theorem run_output (w : Writer) (steps : List Step) :
    (w.run steps).output.toList =
      w.output.toList ++ (written w.width w.level steps).flatMap (· ++ ['\n']) := by
  induction steps generalizing w with
  | nil => simp [written]
  | cons s steps ih =>
    rw [run_cons, ih]
    cases s with
    | line text =>
      rw [step_line_output]
      simp [written, String.toList_append]
    | blank => simp [step, written, String.toList_append]
    | indent => simp [step, written]
    | dedent => simp [step, written]

theorem render_toList (width : Nat) (steps : List Step) :
    (render width steps).toList = (written width 0 steps).flatMap (· ++ ['\n']) := by
  unfold render
  rw [run_output]
  simp [new]

theorem unbroken_of_mem_written {width level : Nat} {steps : List Step}
    (h : ∀ text, .line text ∈ steps → Unbroken text.toList) :
    ∀ l ∈ written width level steps, Unbroken l := by
  fun_induction written width level steps with
  | case1 => simp
  | case2 level text steps ih =>
    have htext := h text List.mem_cons_self
    intro l hl
    rcases List.mem_cons.mp hl with rfl | hl
    · unfold marginLine
      split
      · exact Text.unbroken_nil
      · exact (Text.unbroken_append _ _).mpr ⟨Text.unbroken_replicate _, htext⟩
    · exact ih (fun t ht => h t (List.mem_cons_of_mem _ ht)) l hl
  | case3 level steps ih =>
    intro l hl
    rcases List.mem_cons.mp hl with rfl | hl
    · exact Text.unbroken_nil
    · exact ih (fun t ht => h t (List.mem_cons_of_mem _ ht)) l hl
  | case4 level steps ih => exact ih fun t ht => h t (List.mem_cons_of_mem _ ht)
  | case5 level steps ih => exact ih fun t ht => h t (List.mem_cons_of_mem _ ht)

theorem lines_render {width : Nat} {steps : List Step}
    (h : ∀ text, .line text ∈ steps → Unbroken text.toList) :
    Text.lines (render width steps).toList = written width 0 steps := by
  rw [render_toList]
  exact Text.lines_flatMap (unbroken_of_mem_written h)

theorem written_map_line {α : Type} (width level : Nat) (f : α → String) (as : List α)
    (steps : List Step) :
    written width level (as.map (fun a => .line (f a)) ++ steps) =
      as.map (fun a => marginLine width level (f a)) ++ written width level steps := by
  induction as with
  | nil => rfl
  | cons a as ih =>
    rw [List.map_cons, List.cons_append, written, ih]
    rfl

theorem unindented_written {width level : Nat} {steps : List Step}
    (h : ∀ text, .line text ∈ steps → text.toList.head? ≠ some ' ') :
    (written width level steps).map (List.dropWhile (· == ' ')) = steps.filterMap Step.text? := by
  fun_induction written width level steps with
  | case1 => rfl
  | case2 level text steps ih =>
    have htext := h text List.mem_cons_self
    have hline : (marginLine width level text).dropWhile (· == ' ') = text.toList := by
      unfold marginLine
      split
      · next he => simp [he]
      · rw [List.dropWhile_append_of_pos (by simp +contextual)]
        exact List.dropWhile_beq_eq_self_of_head?_ne htext
    rw [List.map_cons, hline, ih fun t ht => h t (List.mem_cons_of_mem _ ht)]
    rfl
  | case3 level steps ih =>
    rw [List.map_cons, ih fun t ht => h t (List.mem_cons_of_mem _ ht)]
    rfl
  | case4 level steps ih => exact ih fun t ht => h t (List.mem_cons_of_mem _ ht)
  | case5 level steps ih => exact ih fun t ht => h t (List.mem_cons_of_mem _ ht)

end Writer
end Feedforward
