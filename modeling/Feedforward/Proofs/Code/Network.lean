import Feedforward.Proofs.Code.ReadBack
import Feedforward.Proofs.Naming

/-! The code of a model sets up and runs the declared network. Without margins
its lines are a frame around the lines of the program, no line of the frame
spells a statement, and so every target's code reads back as the same program. -/
namespace Feedforward
namespace Model

/-- The units that layer `i` reads; before the first layer these are the inputs. -/
def unitsAt (m : Model) (i : Nat) : Nat := (m.inputSize :: m.layers.map Layer.units).getD i 0

/-- The network of the declared layers, counted from one. -/
def declared (m : Model) : Program where
  setup := m.layers.zipIdx.flatMap fun (l, i) =>
    [.setWeight (i + 1) l.units (m.unitsAt i), .setBias (i + 1) l.units]
  forward := m.layers.zipIdx.flatMap fun (l, i) =>
    .affine (i + 1) :: match l.activation with
      | .relu => [.relu]
      | .sigmoid => [.sigmoid]
      | .none => []

end Model

theorem Parameter.chain_eq_zipIdx (index cols : Nat) (ls : List Layer) :
    chain index cols ls = ls.zipIdx.map fun (l, i) =>
      ⟨index + i, l.units, (cols :: ls.map Layer.units).getD i 0, l.activation⟩ := by
  induction ls generalizing index cols with
  | nil => rfl
  | cons l ls ih =>
    rw [chain, ih, List.zipIdx_cons, List.zipIdx_succ, List.map_cons, List.map_map]
    congr 1
    apply List.map_congr_left
    rintro ⟨l', i⟩ -
    simp [Nat.add_assoc, Nat.add_comm 1 i]

theorem Model.program_eq_declared (m : Model) : m.program = m.declared := by
  unfold program declared parameters
  rw [Parameter.chain_eq_zipIdx, List.flatMap_map, List.flatMap_map]
  congr 2
  · funext ⟨l, i⟩
    simp [Parameter.setup, unitsAt, Nat.add_comm 1 i]
  · funext ⟨l, i⟩
    simp only [Parameter.forward, Nat.add_comm 1 i]
    cases l.activation <;> rfl

def Statement.isSetup : Statement → Bool
  | .setWeight _ _ _ | .setBias _ _ => true
  | .affine _ | .relu | .sigmoid => false

theorem Model.isSetup_declared_setup (m : Model) :
    ∀ s ∈ m.declared.setup, s.isSetup = true := by
  intro s hs
  rw [declared, List.mem_flatMap] at hs
  obtain ⟨⟨l, i⟩, -, hs⟩ := hs
  rw [List.mem_cons, List.mem_singleton] at hs
  rcases hs with rfl | rfl <;> rfl

theorem Model.isSetup_declared_forward (m : Model) :
    ∀ s ∈ m.declared.forward, s.isSetup = false := by
  intro s hs
  rw [declared, List.mem_flatMap] at hs
  obtain ⟨⟨l, i⟩, -, hs⟩ := hs
  rcases List.mem_cons.mp hs with rfl | hs
  · rfl
  · cases ha : l.activation <;> simp_all [Statement.isSetup]

namespace Target
open Statement (Kind)
open Text (Unbroken)

/-- A line that can stand around the statements of a target. -/
structure Outer (t : Target) (l : List Char) : Prop where
  unbroken : Unbroken l
  flush : l.head? ≠ some ' '
  foreign : ∀ s, l ≠ t.line s

theorem head?_of_initial {u l : List Char} (h : u <+: l) (hu : u ≠ []) : l.head? = u.head? := by
  obtain ⟨v, rfl⟩ := h
  cases u with
  | nil => exact absurd rfl hu
  | cons c u => rfl

theorem lead_ne_nil (t : Target) (k : Kind) : t.lead k ≠ [] := by
  cases t <;> cases k <;> decide

def Fixed (t : Target) (l : List Char) : Prop :=
  Unbroken l ∧ l.head? ≠ some ' ' ∧ ∀ k ∈ Kind.all, ¬ t.lead k <+: l

instance (t : Target) (l : List Char) : Decidable (t.Fixed l) :=
  inferInstanceAs (Decidable (_ ∧ _))

theorem Fixed.outer {t : Target} {l : List Char} (h : t.Fixed l) : t.Outer l := by
  obtain ⟨hunbroken, hflush, hlead⟩ := h
  refine ⟨hunbroken, hflush, ?_⟩
  rintro s rfl
  exact hlead s.kind (Kind.mem_all _) (t.lead_prefix_line s)

theorem outer_of_fixed {t : Target} {ls : List (List Char)} (h : ∀ l ∈ ls, t.Fixed l) :
    ∀ l ∈ ls, t.Outer l :=
  fun l hl => (h l hl).outer

/-- The front of a line whose first character no statement starts with. -/
def Front (t : Target) (u : String) : Prop :=
  Unbroken u.toList ∧ u.toList.head? ≠ some ' ' ∧ u.toList ≠ [] ∧
    ∀ k ∈ Kind.all, (t.lead k).head? ≠ u.toList.head?

instance (t : Target) (u : String) : Decidable (t.Front u) :=
  inferInstanceAs (Decidable (_ ∧ _))

theorem Front.outer_append {t : Target} {u : String} (h : t.Front u) {v : List Char}
    (hv : Unbroken v) : t.Outer (u.toList ++ v) := by
  obtain ⟨hu, hflush, hne, hhead⟩ := h
  have hfirst := head?_of_initial (List.prefix_append u.toList v) hne
  refine ⟨(Text.unbroken_append _ _).mpr ⟨hu, hv⟩, ?_, ?_⟩
  · rw [hfirst]
    exact hflush
  · intro s hs
    apply hhead s.kind (Kind.mem_all _)
    have hlead := t.lead_prefix_line s
    rw [← hs] at hlead
    rw [← hfirst, head?_of_initial hlead (t.lead_ne_nil _)]

theorem Front.outer_around {t : Target} {u v w : String} (h : t.Front u)
    (hv : Unbroken v.toList) (hw : Unbroken w.toList) : t.Outer (u ++ v ++ w).toList := by
  rw [String.append_assoc, String.toList_append, String.toList_append]
  exact h.outer_append ((Text.unbroken_append _ _).mpr ⟨hv, hw⟩)

theorem mem_cpp_line (s : Statement) : '=' ∈ cpp.line s := by
  unfold line
  cases s <;> simp [Statement.kind, Statement.numbers, texts, Text.fill]

theorem outer_cpp_constructor (m : Model) : cpp.Outer (m.name ++ "() \x7b").toList := by
  -- The name may start like a statement, but nothing is assigned on this line.
  rw [String.toList_append]
  refine ⟨(Text.unbroken_append _ _).mpr ⟨m.unbroken_name, by decide⟩, ?_, ?_⟩
  · rw [head?_of_initial (List.prefix_append _ _) m.name_toList_ne_nil]
    exact m.name_head?_ne (by decide)
  · intro s hs
    have h := mem_cpp_line s
    rw [← hs, List.mem_append] at h
    rcases h with h | h
    · exact absurd (m.isWordPart_name _ h) (by decide)
    · exact absurd h (by decide)

theorem outer_class (t : Target) (m : Model) {w : String} (hw : Unbroken w.toList) :
    t.Outer ("class " ++ m.name ++ w).toList := by
  have hfront : t.Front "class " := by
    cases t <;> decide
  exact hfront.outer_around m.unbroken_name hw

theorem outer_opening (t : Target) (m : Model) :
    ∀ l ∈ (t.dialect.opening m.name).filterMap Step.text?, t.Outer l := by
  have hclass {w : String} (hw : Unbroken w.toList) := t.outer_class m hw
  cases t with
  | cpp =>
    simp only [dialect, Dialect.cpp, Step.text?, List.filterMap_cons, List.filterMap_nil,
      List.forall_mem_cons]
    exact ⟨Fixed.outer (by decide), Fixed.outer (by decide), hclass (by decide),
      Fixed.outer (by decide), outer_cpp_constructor m, by simp⟩
  | python =>
    simp only [dialect, Dialect.python, Step.text?, List.filterMap_cons, List.filterMap_nil,
      List.forall_mem_cons]
    exact ⟨Fixed.outer (by decide), Fixed.outer (by decide), hclass (by decide),
      Fixed.outer (by decide), by simp⟩
  | javascript =>
    simp only [dialect, Dialect.javascript, Step.text?, List.filterMap_cons, List.filterMap_nil,
      List.forall_mem_cons]
    exact ⟨Fixed.outer (by decide), Fixed.outer (by decide), hclass (by decide),
      Fixed.outer (by decide), by simp⟩

theorem outer_between (t : Target) :
    ∀ l ∈ t.dialect.between.filterMap Step.text?, t.Outer l := by
  cases t <;> exact outer_of_fixed (by decide)

theorem outer_cpp_members (ps : List Parameter) :
    ∀ l ∈ (ps.flatMap fun p => [
      Step.line ("Eigen::MatrixXd " ++ Parameter.weightName p.index ++ ";"),
      Step.line ("Eigen::VectorXd " ++ Parameter.biasName p.index ++ ";")]).filterMap Step.text?,
    cpp.Outer l := by
  have hweight (i : Nat) : Unbroken (Parameter.weightName i).toList := by
    simp [Parameter.weightName, Token.isLineEnd]
  have hbias (i : Nat) : Unbroken (Parameter.biasName i).toList := by
    simp [Parameter.biasName, Token.isLineEnd]
  induction ps with
  | nil => simp
  | cons p ps ih =>
    simp only [List.flatMap_cons, List.cons_append, List.nil_append, List.filterMap_cons,
      Step.text?, List.forall_mem_cons]
    exact ⟨Front.outer_around (by decide) (hweight _) (by decide),
      Front.outer_around (by decide) (hbias _) (by decide), ih⟩

theorem outer_closing (t : Target) (m : Model) :
    ∀ l ∈ (t.dialect.closing m.name m.parameters).filterMap Step.text?, t.Outer l := by
  cases t with
  | cpp =>
    simp only [dialect, Dialect.cpp, List.filterMap_append, List.forall_mem_append]
    exact ⟨⟨outer_of_fixed (by decide), outer_cpp_members m.parameters⟩,
      outer_of_fixed (by decide)⟩
  | python =>
    simp only [dialect, Dialect.python]
    exact outer_of_fixed (by decide)
  | javascript =>
    simp only [dialect, Dialect.javascript, Step.text?, List.filterMap_cons, List.filterMap_nil,
      List.forall_mem_cons]
    exact ⟨Fixed.outer (by decide), Fixed.outer (by decide), Fixed.outer (by decide),
      Fixed.outer (by decide), Front.outer_around (by decide) m.unbroken_name (by decide), by simp⟩

def constructorLine (t : Target) (name : String) : String :=
  match t with
  | cpp => name ++ "() \x7b"
  | python => "def __init__(self):"
  | javascript => "constructor() \x7b"

/-- The lines from the end of the constructor to the one that introduces the running value. -/
def bridge : Target → List String
  | cpp => ["\x7d", "", "Eigen::MatrixXd forward(const Eigen::MatrixXd& input) \x7b",
      "Eigen::MatrixXd x = input;"]
  | python => ["", "def forward(self, x):", "x = np.array(x)"]
  | javascript => ["\x7d", "", "forward(input) \x7b", "let x = tf.tensor(input);"]

def returnLine : Target → String
  | python => "return x"
  | cpp | javascript => "return x;"

theorem opening_eq (t : Target) (name : String) :
    (t.dialect.opening name).filterMap Step.text? =
      ((t.dialect.opening name).filterMap Step.text?).dropLast ++
        [(t.constructorLine name).toList] := by
  cases t <;> rfl

theorem between_eq (t : Target) :
    t.dialect.between.filterMap Step.text? = t.bridge.map String.toList := by
  cases t <;> rfl

theorem closing_eq (t : Target) (name : String) (ps : List Parameter) :
    (t.dialect.closing name ps).filterMap Step.text? =
      t.returnLine.toList :: ((t.dialect.closing name ps).filterMap Step.text?).tail := by
  cases t <;> rfl

theorem unbroken_line (t : Target) (s : Statement) : Unbroken (t.line s) := by
  have htexts : ∀ u ∈ t.texts s.kind, Unbroken u.toList := by
    cases t <;> cases s.kind <;> decide
  exact Text.unbroken_fill htexts _

theorem line_head?_ne (t : Target) (s : Statement) : (t.line s).head? ≠ some ' ' := by
  rw [head?_of_initial (t.lead_prefix_line s) (t.lead_ne_nil _)]
  cases t <;> cases s.kind <;> decide

theorem text?_statements (t : Target) (ss : List Statement) :
    (ss.map t.dialect.statement).filterMap Step.text? = ss.map t.line := by
  induction ss with
  | nil => rfl
  | cons s ss ih =>
    rw [List.map_cons, List.map_cons, ← ih, ← spell_toList]
    rfl

def unindented (code : String) : List (List Char) :=
  (Text.lines code.toList).map (List.dropWhile (· == ' '))

theorem texts_steps (t : Target) (m : Model) :
    (t.dialect.steps m).filterMap Step.text? =
      (t.dialect.opening m.name).filterMap Step.text? ++ m.declared.setup.map t.line ++
        t.dialect.between.filterMap Step.text? ++ m.declared.forward.map t.line ++
        (t.dialect.closing m.name m.parameters).filterMap Step.text? := by
  unfold Dialect.steps
  simp only [List.filterMap_append, text?_statements, m.program_eq_declared]

theorem unindented_generate (t : Target) (indent : Nat) (m : Model) :
    unindented (t.generate indent m) = (t.dialect.steps m).filterMap Step.text? := by
  -- No text breaks its line or brings blanks of its own to the front of it.
  have hlines : ∀ l ∈ (t.dialect.steps m).filterMap Step.text?,
      Unbroken l ∧ l.head? ≠ some ' ' := by
    rw [texts_steps]
    simp only [List.forall_mem_append, List.forall_mem_map]
    have houter {ls : List (List Char)} (h : ∀ l ∈ ls, t.Outer l) :
        ∀ l ∈ ls, Unbroken l ∧ l.head? ≠ some ' ' :=
      fun l hl => ⟨(h l hl).unbroken, (h l hl).flush⟩
    have hline (ss : List Statement) :
        ∀ s ∈ ss, Unbroken (t.line s) ∧ (t.line s).head? ≠ some ' ' :=
      fun s _ => ⟨t.unbroken_line s, t.line_head?_ne s⟩
    exact ⟨⟨⟨⟨houter (t.outer_opening m), hline _⟩, houter t.outer_between⟩, hline _⟩,
      houter (t.outer_closing m)⟩
  have hstep (text : String) (h : .line text ∈ t.dialect.steps m) :
      Unbroken text.toList ∧ text.toList.head? ≠ some ' ' :=
    hlines _ (List.mem_filterMap.mpr ⟨_, h, rfl⟩)
  unfold unindented generate
  rw [Writer.lines_render fun text h => (hstep text h).1,
    Writer.unindented_written fun text h => (hstep text h).2]

/-- The program that code sets up and runs, wherever its statements stand. -/
def readProgram (t : Target) (code : String) : Program :=
  let statements := (unindented code).filterMap t.statement?
  ⟨statements.filter (·.isSetup), statements.filter (!·.isSetup)⟩

theorem filterMap_statement?_outer {t : Target} {ls : List (List Char)}
    (h : ∀ l ∈ ls, t.Outer l) : ls.filterMap t.statement? = [] := by
  rw [List.filterMap_eq_nil_iff]
  exact fun l hl => statement?_eq_none (h l hl).foreign

theorem filterMap_statement?_map_line (t : Target) (ss : List Statement) :
    (ss.map t.line).filterMap t.statement? = ss := by
  rw [List.filterMap_map, show t.statement? ∘ t.line = some from funext t.statement?_line,
    List.filterMap_some]

theorem statements_generate (t : Target) (indent : Nat) (m : Model) :
    (unindented (t.generate indent m)).filterMap t.statement? =
      m.declared.setup ++ m.declared.forward := by
  rw [unindented_generate, texts_steps]
  simp only [List.filterMap_append, filterMap_statement?_map_line,
    filterMap_statement?_outer (t.outer_opening m), filterMap_statement?_outer t.outer_between,
    filterMap_statement?_outer (t.outer_closing m), List.nil_append, List.append_nil]

theorem readProgram_generate_eq (t : Target) (indent : Nat) (m : Model) :
    t.readProgram (t.generate indent m) = m.declared := by
  have hsetup := m.isSetup_declared_setup
  have hforward := m.isSetup_declared_forward
  unfold readProgram
  rw [statements_generate]
  dsimp only
  rw [List.filter_append, List.filter_append,
    List.filter_eq_self.mpr hsetup, List.filter_eq_nil_iff.mpr (by simpa using hforward),
    List.filter_eq_nil_iff.mpr (by simpa using hsetup),
    List.filter_eq_self.mpr (by simpa using hforward), List.append_nil, List.nil_append]

/-- The constructor holds the setup of the declared network and the forward pass
its operations, between lines that spell no statement; so all targets run the
same program. -/
theorem generate_implements_declared (t : Target) (indent : Nat) (m : Model) :
    (∃ front back : List (List Char),
      unindented (t.generate indent m) =
        front ++ [(t.constructorLine m.name).toList] ++ m.declared.setup.map t.line ++
          t.bridge.map String.toList ++ m.declared.forward.map t.line ++
          t.returnLine.toList :: back ∧
      ∀ l ∈ front ++ [(t.constructorLine m.name).toList] ++ t.bridge.map String.toList ++
        t.returnLine.toList :: back, ∀ s, l ≠ t.line s) ∧
    t.readProgram (t.generate indent m) = m.declared ∧
    ∀ (other : Target) (margin : Nat),
      other.readProgram (other.generate margin m) = t.readProgram (t.generate indent m) := by
  refine ⟨⟨((t.dialect.opening m.name).filterMap Step.text?).dropLast,
    ((t.dialect.closing m.name m.parameters).filterMap Step.text?).tail, ?_, ?_⟩,
    t.readProgram_generate_eq indent m, ?_⟩
  · rw [unindented_generate, texts_steps, ← opening_eq, ← between_eq, ← closing_eq]
  · rw [← opening_eq, ← between_eq, ← closing_eq]
    simp only [List.forall_mem_append]
    exact ⟨⟨fun l hl => (t.outer_opening m l hl).foreign,
      fun l hl => (t.outer_between l hl).foreign⟩,
      fun l hl => (t.outer_closing m l hl).foreign⟩
  · intro other margin
    rw [readProgram_generate_eq, readProgram_generate_eq]

end Target
end Feedforward
