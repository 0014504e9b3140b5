import Feedforward.Proofs.Code.Sections
import Feedforward.Proofs.Nesting

/-! The blocks of generated code. Every line is checked once, at its level and
with the braces open before it; the margins, the levels and the braces of whole
code follow from that. -/
namespace Feedforward
open Parameter (weightName biasName)
open Token (isWordPart)
open Turn (openAfter?)

def Text.closers (s : List Char) : Nat := if s.head? = some '\x7d' then 1 else 0

namespace Target
open Text (Solid)

def accessLabels : Target → List (List Char)
  | cpp => ["public:".toList, "private:".toList]
  | python | javascript => []

/-- A line that can be written at a level with some braces open: where blocks
have braces, the level is their number, and a line that first closes one is on
the outside of it. -/
structure Fits (t : Target) (level opened : Nat) (s : List Char) (after : Nat) : Prop where
  solid : Solid s
  depth_le : level ≤ 2
  turned : openAfter? Text.brace opened s = some after
  braced : t ≠ python → s ∉ t.accessLabels → opened = level + Text.closers s

instance (t : Target) (level opened : Nat) (s : List Char) (after : Nat) :
    Decidable (t.Fits level opened s after) :=
  decidable_of_iff (Solid s ∧ level ≤ 2 ∧ openAfter? Text.brace opened s = some after ∧
      (t ≠ python → s ∉ t.accessLabels → opened = level + Text.closers s))
    ⟨fun h => ⟨h.1, h.2.1, h.2.2.1, h.2.2.2⟩, fun h => ⟨h.1, h.2, h.3, h.4⟩⟩

theorem zero_not_mem_accessLabels (t : Target) (u w : List Char) :
    u ++ '0' :: w ∉ t.accessLabels := by
  have hlabels : ∀ l ∈ t.accessLabels, '0' ∉ l := by
    cases t <;> decide
  intro h
  exact hlabels _ h (List.mem_append_right u List.mem_cons_self)

/-- Which word or number stands on a line decides nothing: a line fits if it
does with a zero there. -/
theorem Fits.of_zero {t : Target} {level opened after : Nat} {u v w : List Char}
    (h : t.Fits level opened (u ++ '0' :: w) after) (hv : ∀ c ∈ v, isWordPart c = true)
    (hne : v ≠ []) : t.Fits level opened (u ++ v ++ w) after := by
  have hword {c : Char} (hc : isWordPart c = false) : v.head? ≠ some c ∧ v.getLast? ≠ some c := by
    constructor
    · intro hhead
      rw [hv c (List.mem_of_mem_head? hhead)] at hc
      cases hc
    · intro hlast
      rw [hv c (List.mem_of_getLast? hlast)] at hc
      cases hc
  have hhead {c : Char} (hc : isWordPart c = false) :
      (u ++ v ++ w).head? = some c ↔ (u ++ '0' :: w).head? = some c := by
    cases u with
    | cons d u => rfl
    | nil =>
      rw [List.nil_append, List.nil_append, head?_of_initial (List.prefix_append v w) hne,
        List.head?_cons]
      constructor
      · intro hsome
        exact absurd hsome (hword hc).1
      · rintro ⟨⟩
        cases hc
  have hlast : (u ++ v ++ w).getLast? ≠ some ' ' := by
    have hzero := h.solid.last_ne
    cases w with
    | nil =>
      rw [List.append_nil, List.getLast?_append_of_ne_nil u hne]
      exact (hword (by decide)).2
    | cons d w =>
      rw [List.getLast?_append_of_ne_nil _ (List.cons_ne_nil d w)]
      rwa [List.getLast?_append_of_ne_nil _ (List.cons_ne_nil _ _), List.getLast?_cons_cons]
        at hzero
  refine ⟨⟨?_, ?_, ?_, hlast⟩, h.depth_le, ?_, ?_⟩
  · have hunbroken := h.solid.unbroken
    rw [Text.unbroken_append, Text.unbroken_cons] at hunbroken
    rw [Text.unbroken_append, Text.unbroken_append]
    exact ⟨⟨hunbroken.1, Text.unbroken_of_class hv (by decide) (by decide)⟩, hunbroken.2.2⟩
  · simp [hne]
  · rw [Ne, hhead (by decide)]
    exact h.solid.head_ne
  · have hturned := h.turned
    rw [Turn.openAfter?_append_eq_some] at hturned
    obtain ⟨j, hu, hw⟩ := hturned
    have hneutral : openAfter? Text.brace j v = some j :=
      Turn.openAfter?_of_neither (fun c hc => Text.brace_of_isWordPart (hv c hc)) j
    rw [List.append_assoc, Turn.openAfter?_append, hu, Option.bind_some, Turn.openAfter?_append,
      hneutral]
    exact hw
  · intro ht _
    rw [h.braced ht (t.zero_not_mem_accessLabels u w)]
    simp only [Text.closers, hhead (by decide : isWordPart '\x7d' = false)]

theorem Fits.fill {t : Target} {level opened after : Nat} {us : List String} {ns : List Nat}
    {u : List Char} (h : t.Fits level opened (u ++ Text.fill us (ns.map fun _ => 0)) after) :
    t.Fits level opened (u ++ Text.fill us ns) after := by
  induction us generalizing ns u with
  | nil => exact h
  | cons v us ih =>
    cases ns with
    | nil => exact h
    | cons n ns =>
      have hdigits : ∀ c ∈ n.repr.toList, isWordPart c = true := by
        intro c hc
        simp [isWordPart, Char.isAlphanum, Text.isDigit_repr n c hc]
      have hzero : t.Fits level opened
          ((u ++ v.toList ++ ['0']) ++ Text.fill us (ns.map fun _ => 0)) after := by
        simpa [Text.fill] using h
      have hrest := ih hzero
      rw [List.append_assoc, List.singleton_append] at hrest
      have hline := hrest.of_zero hdigits (Text.repr_toList_ne_nil n)
      simpa [Text.fill] using hline

def openAt (t : Target) (level : Nat) : Nat := if t = python then 0 else level

theorem fits_line (t : Target) (s : Statement) : t.Fits 2 (t.openAt 2) (t.line s) (t.openAt 2) := by
  apply Fits.fill (u := [])
  cases s with
  | setWeight | setBias | affine =>
    simp only [Statement.kind, Statement.numbers, List.map_cons, List.map_nil]
    cases t <;> decide
  | relu | sigmoid => cases t <;> decide

/-- Steps that write fitting lines, from a level with some braces open to another. -/
inductive Laid (t : Target) : Nat → Nat → List Step → Nat → Nat → Prop
  | nil {level opened : Nat} : Laid t level opened [] level opened
  | line {level opened level' opened' : Nat} {text : String} {steps : List Step} (after : Nat)
      (fits : t.Fits level opened text.toList after)
      (rest : Laid t level after steps level' opened') :
      Laid t level opened (.line text :: steps) level' opened'
  | blank {level opened level' opened' : Nat} {steps : List Step}
      (rest : Laid t level opened steps level' opened') :
      Laid t level opened (.blank :: steps) level' opened'
  | indent {level opened level' opened' : Nat} {steps : List Step}
      (rest : Laid t (level + 1) opened steps level' opened') :
      Laid t level opened (.indent :: steps) level' opened'
  | dedent {level opened level' opened' : Nat} {steps : List Step}
      (rest : Laid t level opened steps level' opened') :
      Laid t (level + 1) opened (.dedent :: steps) level' opened'

namespace Laid
variable {t : Target} {level opened level' opened' : Nat} {steps : List Step}

theorem append {level'' opened'' : Nat} {more : List Step}
    (h : t.Laid level opened steps level' opened')
    (hmore : t.Laid level' opened' more level'' opened'') :
    t.Laid level opened (steps ++ more) level'' opened'' := by
  induction h with
  | nil => exact hmore
  | line _ fits _ ih => exact .line _ fits (ih hmore)
  | blank _ ih => exact .blank (ih hmore)
  | indent _ ih => exact .indent (ih hmore)
  | dedent _ ih => exact .dedent (ih hmore)

theorem levels (h : t.Laid level opened steps level' opened') :
    openAfter? Step.turn level steps = some level' := by
  induction h with
  | nil => rfl
  | line _ _ _ ih => exact ih
  | blank _ ih => exact ih
  | indent _ ih => exact ih
  | dedent _ ih => exact ih

theorem solid_of_mem (h : t.Laid level opened steps level' opened') {text : String}
    (htext : .line text ∈ steps) : Solid text.toList := by
  induction h with
  | nil => cases htext
  | line _ fits _ ih =>
    rcases List.mem_cons.mp htext with heq | htext
    · cases heq
      exact fits.solid
    · exact ih htext
  | blank _ ih | indent _ ih | dedent _ ih =>
    rcases List.mem_cons.mp htext with heq | htext
    · cases heq
    · exact ih htext

theorem outline_cases (h : t.Laid level opened steps level' opened') :
    ∀ l ∈ Writer.outline level steps, l = .empty ∨ l.depth ≤ 2 ∧ Solid l.text := by
  induction h with
  | nil => simp [Writer.outline]
  | line _ fits _ ih => exact List.forall_mem_cons.mpr ⟨.inr ⟨fits.depth_le, fits.solid⟩, ih⟩
  | blank _ ih => exact List.forall_mem_cons.mpr ⟨.inl rfl, ih⟩
  | indent _ ih => exact ih
  | dedent _ ih => exact ih

theorem braces (h : t.Laid level opened steps level' opened') (width : Nat) :
    openAfter? Text.brace opened
      (((Writer.outline level steps).map (CodeLine.chars width)).flatMap (· ++ ['\n'])) =
        some opened' := by
  induction h with
  | nil => rfl
  | line _ fits _ ih =>
    rw [Writer.outline, List.map_cons, List.flatMap_cons, CodeLine.chars]
    simp only [Turn.openAfter?_append, Text.openAfter?_replicate, Option.bind_some, fits.turned]
    exact ih
  | blank _ ih => exact ih
  | indent _ ih => exact ih
  | dedent _ ih => exact ih

/-- The depth of a line is the number of braces open before it, less those it
first closes. -/
theorem depth (h : t.Laid level opened steps level' opened') {front back : List CodeLine}
    {l : CodeLine} (hlines : Writer.outline level steps = front ++ l :: back) :
    ∃ before, openAfter? Text.brace opened (front.flatMap CodeLine.text) = some before ∧
      (t ≠ python → l.text ≠ [] → l.text ∉ t.accessLabels →
        before = l.depth + Text.closers l.text) := by
  induction h generalizing front with
  | nil => cases front <;> cases hlines
  | line _ fits _ ih =>
    cases front with
    | nil =>
      cases hlines
      exact ⟨_, rfl, fun ht _ => fits.braced ht⟩
    | cons first front =>
      rw [Writer.outline, List.cons_append, List.cons.injEq] at hlines
      obtain ⟨rfl, hlines⟩ := hlines
      obtain ⟨before, hbefore, hdepth⟩ := ih hlines
      refine ⟨before, ?_, hdepth⟩
      rw [List.flatMap_cons, Turn.openAfter?_append, fits.turned]
      exact hbefore
  | blank _ ih =>
    cases front with
    | nil =>
      cases hlines
      exact ⟨_, rfl, fun _ hne => absurd rfl hne⟩
    | cons first front =>
      rw [Writer.outline, List.cons_append, List.cons.injEq] at hlines
      obtain ⟨rfl, hlines⟩ := hlines
      obtain ⟨before, hbefore, hdepth⟩ := ih hlines
      exact ⟨before, hbefore, hdepth⟩
  | indent _ ih => exact ih hlines
  | dedent _ ih => exact ih hlines

end Laid

theorem laid_statements (t : Target) (ss : List Statement) :
    t.Laid 2 (t.openAt 2) (ss.map t.dialect.statement) 2 (t.openAt 2) := by
  induction ss with
  | nil => exact .nil
  | cons s ss ih =>
    refine .line _ ?_ ih
    rw [spell_toList]
    exact t.fits_line s

theorem fits_name {t : Target} {level opened after : Nat} {u w : String} (m : Model)
    (h : t.Fits level opened (u.toList ++ '0' :: w.toList) after) :
    t.Fits level opened (u ++ m.name ++ w).toList after := by
  rw [String.toList_append, String.toList_append]
  exact h.of_zero m.isWordPart_name m.name_toList_ne_nil

theorem laid_opening (t : Target) (m : Model) :
    t.Laid 0 0 (t.dialect.opening m.name) 2 (t.openAt 2) := by
  cases t with
  | cpp =>
    have hclass : cpp.Fits 0 0 ("class " ++ m.name ++ " \x7b").toList 1 := fits_name m (by decide)
    have hconstructor : cpp.Fits 1 1 (m.name ++ "() \x7b").toList 2 := by
      rw [← String.empty_append (s := m.name)]
      exact fits_name m (by decide)
    exact .line 0 (by decide) <| .blank <| .line _ hclass <|
      .line 1 (by decide) <| .indent <| .line _ hconstructor <| .indent .nil
  | python =>
    have hclass : python.Fits 0 0 ("class " ++ m.name ++ ":").toList 0 := fits_name m (by decide)
    exact .line 0 (by decide) <| .blank <| .line _ hclass <| .indent <|
      .line 0 (by decide) <| .indent .nil
  | javascript =>
    have hclass : javascript.Fits 0 0 ("class " ++ m.name ++ " \x7b").toList 1 :=
      fits_name m (by decide)
    exact .line 0 (by decide) <| .blank <| .line _ hclass <| .indent <|
      .line 2 (by decide) <| .indent .nil

theorem laid_between (t : Target) :
    t.Laid 2 (t.openAt 2) t.dialect.between 2 (t.openAt 2) := by
  cases t with
  | cpp | javascript =>
    exact .dedent <| .line 1 (by decide) <| .blank <| .line 2 (by decide) <| .indent <|
      .line 2 (by decide) .nil
  | python =>
    exact .dedent <| .blank <| .line 0 (by decide) <| .indent <| .line 0 (by decide) .nil

theorem laid_members (ps : List Parameter) :
    cpp.Laid 1 1 (ps.flatMap fun p => [
      Step.line ("Eigen::MatrixXd " ++ weightName p.index ++ ";"),
      Step.line ("Eigen::VectorXd " ++ biasName p.index ++ ";")]) 1 1 := by
  have hmember {u p : String} (hp : isParameterName p.toList = true)
      (h : cpp.Fits 1 1 (u.toList ++ '0' :: ";".toList) 1) :
      cpp.Fits 1 1 (u ++ p ++ ";").toList 1 := by
    have hne : p.toList ≠ [] := by
      intro hnil
      rw [hnil] at hp
      cases hp
    rw [String.toList_append, String.toList_append]
    exact h.of_zero (isWordPart_of_isParameterName hp) hne
  induction ps with
  | nil => exact .nil
  | cons p ps ih =>
    rw [List.flatMap_cons]
    exact .line _ (hmember (isParameterName_weightName p.index) (by decide)) <|
      .line _ (hmember (isParameterName_biasName p.index) (by decide)) ih

theorem laid_closing (t : Target) (m : Model) :
    t.Laid 2 (t.openAt 2) (t.dialect.closing m.name m.parameters) 0 0 := by
  cases t with
  | cpp =>
    have hfront : cpp.Laid 2 2 [.line "return x;", .dedent, .line "\x7d", .blank,
        .dedent, .line "private:", .indent] 1 1 :=
      .line 2 (by decide) <| .dedent <| .line 1 (by decide) <| .blank <| .dedent <|
        .line 1 (by decide) <| .indent .nil
    have hback : cpp.Laid 1 1 [.dedent, .line "\x7d;"] 0 0 :=
      .dedent <| .line 0 (by decide) .nil
    exact (hfront.append (laid_members m.parameters)).append hback
  | python => exact .line 0 (by decide) <| .dedent <| .dedent .nil
  | javascript =>
    have hmodule : javascript.Fits 0 0 ("module.exports = \x7b " ++ m.name ++ " \x7d;").toList 0 :=
      fits_name m (by decide)
    exact .line 2 (by decide) <| .dedent <| .line 1 (by decide) <| .dedent <|
      .line 0 (by decide) <| .blank <| .line _ hmodule .nil

theorem laid_steps (t : Target) (m : Model) : t.Laid 0 0 (t.dialect.steps m) 0 0 :=
  ((((t.laid_opening m).append (t.laid_statements _)).append t.laid_between).append
    (t.laid_statements _)).append (t.laid_closing m)

def outline (t : Target) (m : Model) : List CodeLine := Writer.outline 0 (t.dialect.steps m)

theorem generate_toList (t : Target) (indent : Nat) (m : Model) :
    (t.generate indent m).toList =
      ((t.outline m).map (CodeLine.chars indent)).flatMap (· ++ ['\n']) := by
  have hne (text : String) (h : .line text ∈ t.dialect.steps m) : text ≠ "" := by
    rintro rfl
    exact ((t.laid_steps m).solid_of_mem h).ne_nil rfl
  rw [generate, Writer.render_toList, Writer.written_eq_outline hne]
  rfl

theorem lines_generate (t : Target) (indent : Nat) (m : Model) :
    Text.lines (t.generate indent m).toList = (t.outline m).map (CodeLine.chars indent) := by
  have hunbroken : ∀ l ∈ (t.outline m).map (CodeLine.chars indent), Text.Unbroken l := by
    rw [List.forall_mem_map]
    intro l hl
    rw [CodeLine.chars, Text.unbroken_append]
    refine ⟨Text.unbroken_replicate _, ?_⟩
    rcases (t.laid_steps m).outline_cases l hl with rfl | ⟨-, hsolid⟩
    · exact Text.unbroken_nil
    · exact hsolid.unbroken
  rw [generate_toList, Text.lines_flatMap hunbroken]

theorem codeLines_generate (t : Target) {indent : Nat} (hindent : 0 < indent) (m : Model) :
    codeLines indent (t.generate indent m) = t.outline m := by
  have hread : ∀ l ∈ t.outline m, CodeLine.ofChars indent (l.chars indent) = id l := by
    intro l hl
    apply CodeLine.ofChars_chars hindent
    rcases (t.laid_steps m).outline_cases l hl with rfl | ⟨-, hsolid⟩
    · exact nofun
    · exact hsolid.head_ne
  rw [codeLines, lines_generate, List.map_map]
  exact (List.map_congr_left hread).trans (List.map_id _)

theorem outline_eq (t : Target) (m : Model) :
    t.outline m =
      Writer.outline 0 (t.dialect.opening m.name) ++ m.declared.setup.map (⟨2, t.line ·⟩) ++
        Writer.outline 2 t.dialect.between ++ m.declared.forward.map (⟨2, t.line ·⟩) ++
        Writer.outline 2 (t.dialect.closing m.name m.parameters) := by
  have hstatements (ss : List Statement) :
      Writer.outline 2 (ss.map t.dialect.statement) = ss.map (⟨2, t.line ·⟩) := by
    induction ss with
    | nil => rfl
    | cons s ss ih =>
      rw [List.map_cons, Dialect.statement, Writer.outline, ih, spell_toList, List.map_cons]
  have hopening := t.laid_opening m
  have hsetup := hopening.append (t.laid_statements m.program.setup)
  have hbetween := hsetup.append t.laid_between
  have hforward := hbetween.append (t.laid_statements m.program.forward)
  unfold outline Dialect.steps
  rw [Writer.outline_append hforward.levels, Writer.outline_append hbetween.levels,
    Writer.outline_append hsetup.levels, Writer.outline_append hopening.levels, hstatements,
    hstatements, m.program_eq_declared]

theorem exists_last_line (t : Target) (m : Model) :
    ∃ front l, t.outline m = front ++ [l] ∧ l.text ≠ [] := by
  have hclosing : ∃ s ∈ ((t.dialect.closing m.name m.parameters).filterMap Step.text?).getLast?,
      s ≠ [] := by
    cases t with
    | cpp =>
      rw [closing_cpp, ← List.append_assoc, List.getLast?_concat]
      exact ⟨_, rfl, by decide⟩
    | python => exact ⟨_, rfl, by decide⟩
    | javascript =>
      exact ⟨("module.exports = \x7b " ++ m.name ++ " \x7d;").toList, rfl, by simp⟩
  obtain ⟨s, hs, hne⟩ := hclosing
  have hlast : ((t.outline m).map CodeLine.text).getLast? = some s := by
    rw [outline, Writer.outline_text, texts_steps, List.getLast?_append, hs, Option.some_or]
  rw [List.getLast?_map, Option.map_eq_some_iff] at hlast
  obtain ⟨l, hl, rfl⟩ := hlast
  obtain ⟨front, hfront⟩ := List.getLast?_eq_some_iff.mp hl
  exact ⟨front, l, hfront, hne⟩

theorem generate_ends (t : Target) (indent : Nat) (m : Model) :
    ∃ front c, (t.generate indent m).toList = front ++ [c, '\n'] ∧ c ≠ '\n' := by
  obtain ⟨lines, l, hlines, hne⟩ := t.exists_last_line m
  have hl : l ∈ t.outline m := by simp [hlines]
  have hsolid : Solid l.text := by
    rcases (t.laid_steps m).outline_cases l hl with rfl | ⟨-, hsolid⟩
    · exact absurd rfl hne
    · exact hsolid
  obtain ⟨start, c, htext⟩ := (List.eq_nil_or_concat l.text).resolve_left hne
  refine ⟨(lines.map (CodeLine.chars indent)).flatMap (· ++ ['\n']) ++
    (List.replicate (indent * l.depth) ' ' ++ start), c, ?_, ?_⟩
  · rw [generate_toList, hlines]
    simp [CodeLine.chars, htext]
  · rintro rfl
    have hbreak := hsolid.unbroken '\n' (by simp [htext])
    cases hbreak

theorem braces_generate (t : Target) (indent : Nat) (m : Model) :
    (∀ p, p <+: (t.generate indent m).toList → p.count '\x7d' ≤ p.count '\x7b') ∧
    (t.generate indent m).toList.count '\x7d' = (t.generate indent m).toList.count '\x7b' := by
  have hcode := (t.laid_steps m).braces indent
  rw [← outline, ← generate_toList] at hcode
  constructor
  · rintro p ⟨rest, hrest⟩
    rw [← hrest, Turn.openAfter?_append_eq_some] at hcode
    obtain ⟨n, hp, -⟩ := hcode
    have hcount := Text.count_of_openAfter? hp
    omega
  · have hcount := Text.count_of_openAfter? hcode
    omega

theorem depth_outline {t : Target} {m : Model} {front back : List CodeLine} {l : CodeLine}
    (ht : t ≠ python) (hlines : t.outline m = front ++ l :: back) (hne : l.text ≠ [])
    (hlabel : l.text ∉ t.accessLabels) :
    (front.flatMap CodeLine.text).count '\x7b' =
      (front.flatMap CodeLine.text).count '\x7d' + l.depth + Text.closers l.text := by
  obtain ⟨before, hbefore, hdepth⟩ := (t.laid_steps m).depth hlines
  have hcount := Text.count_of_openAfter? hbefore
  rw [hdepth ht hne hlabel] at hcount
  omega

/-- Code is laid out in blocks. Levels are closed only where they are open, and
all are closed in the end. Every line is empty or is indented by at most two
levels, whose width is all that the indent decides, and one line feed ends the
last. Braces, where a language has them, open and close the same blocks; where
it has none, methods are one level inside their class and statements two. -/
theorem generate_blocks (t : Target) {indent : Nat} (hindent : 0 < indent) (m : Model) :
    (∀ front back, t.dialect.steps m = front ++ .dedent :: back →
      0 < ((Writer.new indent).run front).level) ∧
    ((Writer.new indent).run (t.dialect.steps m)).level = 0 ∧
    Text.lines (t.generate indent m).toList =
      (codeLines indent (t.generate indent m)).map (CodeLine.chars indent) ∧
    (∀ l ∈ codeLines indent (t.generate indent m),
      l = .empty ∨ l.depth ≤ 2 ∧ Solid l.text) ∧
    (∃ front c, (t.generate indent m).toList = front ++ [c, '\n'] ∧ c ≠ '\n') ∧
    (∀ other, 0 < other →
      codeLines other (t.generate other m) = codeLines indent (t.generate indent m)) ∧
    (t ≠ python →
      (∀ p, p <+: (t.generate indent m).toList → p.count '\x7d' ≤ p.count '\x7b') ∧
      (t.generate indent m).toList.count '\x7d' = (t.generate indent m).toList.count '\x7b' ∧
      ∀ front l back, codeLines indent (t.generate indent m) = front ++ l :: back →
        l.text ≠ [] → l.text ∉ t.accessLabels →
        (front.flatMap CodeLine.text).count '\x7b' =
          (front.flatMap CodeLine.text).count '\x7d' + l.depth + Text.closers l.text) ∧
    (t = python →
      codeLines indent (t.generate indent m) =
        [⟨0, "import numpy as np".toList⟩, .empty, ⟨0, ("class " ++ m.name ++ ":").toList⟩,
          ⟨1, "def __init__(self):".toList⟩] ++
        m.declared.setup.map (⟨2, t.line ·⟩) ++
        [.empty, ⟨1, "def forward(self, x):".toList⟩, ⟨2, "x = np.array(x)".toList⟩] ++
        m.declared.forward.map (⟨2, t.line ·⟩) ++
        [⟨2, "return x".toList⟩]) := by
  have hlaid := t.laid_steps m
  have hlines := t.codeLines_generate hindent m
  rw [hlines]
  refine ⟨?_, Writer.run_level hlaid.levels, t.lines_generate indent m, hlaid.outline_cases,
    t.generate_ends indent m, fun other hother => t.codeLines_generate hother m, ?_, ?_⟩
  · intro front back hsteps
    have hlevels := hlaid.levels
    rw [hsteps] at hlevels
    exact Writer.level_pos_of_dedent hlevels
  · intro ht
    obtain ⟨hopen, hclosed⟩ := t.braces_generate indent m
    exact ⟨hopen, hclosed, fun front l back => depth_outline ht⟩
  · rintro rfl
    exact python.outline_eq m

theorem generate_blocks_two_layers :
    let m : Model := ⟨"Net", 3, [⟨4, .relu⟩, ⟨2, .none⟩], by decide +kernel, by decide, by decide,
      by decide⟩
    0 < 3 ∧
    (codeLines 3 (python.generate 3 m)).map CodeLine.depth =
      [0, 0, 0, 1, 2, 2, 2, 2, 0, 1, 2, 2, 2, 2, 2] ∧
    codeLines 8 (cpp.generate 8 m) = codeLines 3 (cpp.generate 3 m) ∧
    (cpp.generate 3 m).toList.count '\x7d' = (cpp.generate 3 m).toList.count '\x7b' := by
  intro m
  obtain ⟨-, -, -, -, -, -, -, hpython⟩ := generate_blocks python (by decide : 0 < 3) m
  obtain ⟨-, -, -, -, -, hwidth, hbraces, -⟩ := generate_blocks cpp (by decide : 0 < 3) m
  refine ⟨by decide, ?_, hwidth 8 (by decide), (hbraces (by decide)).2.1⟩
  rw [hpython rfl]
  rfl

end Target
end Feedforward
