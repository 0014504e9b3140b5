import Feedforward.Code.Transpile
import Feedforward.Proofs.Lexical.Grammar
import Feedforward.Proofs.Writing

/-! Statements read back from the lines that spell them. A line is a template of
its kind filled with numbers: its first text tells the kind, and the numbers
between the texts tell the statement. -/
namespace Feedforward.Text

/-- The numbers in a text, in order, after the digits of one that is not complete. -/
def numeralsAfter : Option Nat → List Char → List Nat
  | number, [] => number.toList
  | number, c :: s =>
    if c.isDigit then numeralsAfter (some (10 * number.getD 0 + (c.toNat - '0'.toNat))) s
    else number.toList ++ numeralsAfter none s

def numerals (s : List Char) : List Nat := numeralsAfter none s

theorem numerals_skip {u : List Char} (h : ∀ c ∈ u, c.isDigit = false) (s : List Char) :
    numerals (u ++ s) = numerals s := by
  unfold numerals
  induction u with
  | nil => rfl
  | cons c u ih =>
    have hc := h c List.mem_cons_self
    have hu : ∀ d ∈ u, d.isDigit = false := fun d hd => h d (List.mem_cons_of_mem c hd)
    simp [numeralsAfter, hc, ih hu]

theorem numeralsAfter_digits {digits : List Char} (h : ∀ c ∈ digits, c.isDigit = true) (n : Nat)
    (s : List Char) :
    numeralsAfter (some n) (digits ++ s) =
      numeralsAfter (some (Nat.ofDigitChars 10 digits n)) s := by
  induction digits generalizing n with
  | nil => simp
  | cons c digits ih =>
    have hc := h c List.mem_cons_self
    have hd : ∀ d ∈ digits, d.isDigit = true := fun d hd => h d (List.mem_cons_of_mem c hd)
    rw [List.cons_append, numeralsAfter, if_pos hc, Option.getD_some, ih hd,
      Nat.ofDigitChars_cons]

theorem numeralsAfter_stops (n : Nat) {s : List Char} (h : Stops Char.isDigit s) :
    numeralsAfter (some n) s = n :: numerals s := by
  cases s with
  | nil => rfl
  | cons c s =>
    rw [stops_cons] at h
    simp [numerals, numeralsAfter, h]

theorem numerals_repr (n : Nat) {s : List Char} (h : Stops Char.isDigit s) :
    numerals (n.repr.toList ++ s) = n :: numerals s := by
  have hdigits := isDigit_repr n
  have hvalue := ofDigitChars_repr n
  cases hl : n.repr.toList with
  | nil => exact absurd hl (repr_toList_ne_nil n)
  | cons c t =>
    rw [hl] at hdigits hvalue
    have hc := hdigits c List.mem_cons_self
    have ht : ∀ d ∈ t, d.isDigit = true := fun d hd => hdigits d (List.mem_cons_of_mem c hd)
    rw [Nat.ofDigitChars_cons] at hvalue
    rw [numerals, List.cons_append, numeralsAfter, if_pos hc, Option.getD_none,
      numeralsAfter_digits ht, hvalue, numeralsAfter_stops n h]

/-- Texts with a number after each, as long as there are numbers. -/
def fill : List String → List Nat → List Char
  | [], _ => []
  | u :: _, [] => u.toList
  | u :: us, n :: ns => u.toList ++ (n.repr.toList ++ fill us ns)

theorem unbroken_fill {us : List String} (h : ∀ u ∈ us, Unbroken u.toList) (ns : List Nat) :
    Unbroken (fill us ns) := by
  induction us generalizing ns with
  | nil => exact unbroken_nil
  | cons u us ih =>
    rw [List.forall_mem_cons] at h
    cases ns with
    | nil => exact h.1
    | cons n ns => simp [fill, h.1, ih h.2]

def separates (u : String) : Bool := u != "" && u.toList.all (!·.isDigit)

theorem numerals_separates {u : String} (h : separates u = true) (s : List Char) :
    numerals (u.toList ++ s) = numerals s := by
  rw [separates, Bool.and_eq_true] at h
  exact numerals_skip (by simpa using h.2) s

theorem stops_separates {u : String} (h : separates u = true) (s : List Char) :
    Stops Char.isDigit (u.toList ++ s) := by
  rw [separates, Bool.and_eq_true, bne_iff_ne] at h
  cases hl : u.toList with
  | nil => exact absurd (String.toList_eq_nil_iff.mp hl) h.1
  | cons c t =>
    have hall := h.2
    rw [hl, List.all_cons, Bool.and_eq_true, Bool.not_eq_true'] at hall
    exact (stops_cons _ _ _).mpr hall.1

theorem stops_fill {us : List String} (h : us.all separates = true) (ns : List Nat) :
    Stops Char.isDigit (fill us ns) := by
  cases us with
  | nil => exact stops_nil _
  | cons u us =>
    rw [List.all_cons, Bool.and_eq_true] at h
    cases ns with
    | nil => simpa [fill] using stops_separates h.1 []
    | cons n ns => exact stops_separates h.1 _

theorem numerals_fill {us : List String} (h : us.all separates = true) {ns : List Nat}
    (hlength : ns.length ≤ us.length) : numerals (fill us ns) = ns := by
  induction us generalizing ns with
  | nil =>
    cases ns with
    | nil => rfl
    | cons n ns => simp at hlength
  | cons u us ih =>
    rw [List.all_cons, Bool.and_eq_true] at h
    cases ns with
    | nil =>
      rw [fill, ← List.append_nil u.toList, numerals_separates h.1]
      rfl
    | cons n ns =>
      rw [fill, numerals_separates h.1, numerals_repr n (stops_fill h.2 ns),
        ih h.2 (by simpa using hlength)]

end Feedforward.Text

namespace Feedforward.Statement

inductive Kind where
  | setWeight
  | setBias
  | affine
  | relu
  | sigmoid
deriving DecidableEq

namespace Kind

def all : List Kind := [setWeight, setBias, affine, relu, sigmoid]

theorem mem_all (k : Kind) : k ∈ all := by
  cases k <;> decide

end Kind

def kind : Statement → Kind
  | setWeight _ _ _ => .setWeight
  | setBias _ _ => .setBias
  | affine _ => .affine
  | relu => .relu
  | sigmoid => .sigmoid

def numbers : Statement → List Nat
  | setWeight index rows cols => [index, rows, cols]
  | setBias index rows => [index, rows]
  | affine index => [index, index]
  | relu | sigmoid => []

def ofNumbers (ns : List Nat) : Kind → Statement
  | .setWeight => .setWeight (ns.getD 0 0) (ns.getD 1 0) (ns.getD 2 0)
  | .setBias => .setBias (ns.getD 0 0) (ns.getD 1 0)
  | .affine => .affine (ns.getD 0 0)
  | .relu => .relu
  | .sigmoid => .sigmoid

end Feedforward.Statement

namespace Feedforward.Target
open Statement (Kind)

/-- The texts of a kind of line: the first one, and those after the numbers. -/
def texts : Target → Kind → List String
  | cpp, .setWeight => ["W", " = Eigen::MatrixXd::Random(", ", ", ");"]
  | cpp, .setBias => ["b", " = Eigen::VectorXd::Random(", ");"]
  | cpp, .affine => ["x = (W", " * x).colwise() + b", ";"]
  | cpp, .relu => ["x = x.cwiseMax(0.0);"]
  | cpp, .sigmoid => ["x = (1.0 / (1.0 + (-x.array()).exp())).matrix();"]
  | python, .setWeight => ["self.W", " = np.random.rand(", ", ", ")"]
  | python, .setBias => ["self.b", " = np.random.rand(", ")"]
  | python, .affine => ["x = np.dot(self.W", ", x) + self.b"]
  | python, .relu => ["x = np.maximum(0, x)"]
  | python, .sigmoid => ["x = 1 / (1 + np.exp(-x))"]
  | javascript, .setWeight => ["this.W", " = tf.randomUniform([", ", ", "]);"]
  | javascript, .setBias => ["this.b", " = tf.randomUniform([", "]);"]
  | javascript, .affine => ["x = tf.dot(this.W", ", x).add(this.b", ");"]
  | javascript, .relu => ["x = tf.relu(x);"]
  | javascript, .sigmoid => ["x = tf.sigmoid(x);"]

def line (t : Target) (s : Statement) : List Char := Text.fill (t.texts s.kind) s.numbers

theorem spell_toList (t : Target) (s : Statement) : (t.dialect.spell s).toList = t.line s := by
  unfold line texts dialect Dialect.cpp Dialect.python Dialect.javascript Dialect.cppSpell
    Dialect.pythonSpell Dialect.javascriptSpell Parameter.weightName Parameter.biasName
  cases t <;> cases s <;> simp [Statement.kind, Statement.numbers, Text.fill]

/-- The lines without numbers of their own may hold digits as they like. -/
theorem texts_separate (t : Target) (k : Kind) (h : k ≠ .relu ∧ k ≠ .sigmoid) :
    (t.texts k).all Text.separates = true := by
  revert h
  cases t <;> cases k <;> decide

theorem numbers_length_le (t : Target) (s : Statement) :
    s.numbers.length ≤ (t.texts s.kind).length := by
  cases t <;> cases s <;> simp [Statement.numbers, Statement.kind, texts]

def lead (t : Target) (k : Kind) : List Char := ((t.texts k).headD "").toList

/-- A kind of line by the first of its texts that stands at the front. -/
def lineKind (t : Target) (l : List Char) : Kind :=
  (Kind.all.find? fun k => (t.lead k).isPrefixOf l).getD .sigmoid

theorem eq_of_leads {t : Target} {k k' : Kind}
    (h : t.lead k <+: t.lead k') : k = k' := by
  revert h
  cases t <;> cases k <;> cases k' <;> decide

theorem lead_prefix_line (t : Target) (s : Statement) : t.lead s.kind <+: t.line s := by
  unfold line lead
  cases t.texts s.kind with
  | nil => exact ⟨[], rfl⟩
  | cons u us =>
    cases s.numbers with
    | nil => exact ⟨[], by rw [Text.fill, List.headD_cons, List.append_nil]⟩
    | cons n ns => exact ⟨_, rfl⟩

theorem eq_of_lead_starts {t : Target} {k : Kind} {s : Statement}
    (h : t.lead k <+: t.line s) : k = s.kind := by
  rcases List.prefix_or_prefix_of_prefix h (t.lead_prefix_line s) with h | h
  · exact eq_of_leads h
  · exact (eq_of_leads h).symm

theorem lineKind_line (t : Target) (s : Statement) : t.lineKind (t.line s) = s.kind := by
  unfold lineKind
  cases h : Kind.all.find? fun k => (t.lead k).isPrefixOf (t.line s) with
  | none =>
    have hnot := List.find?_eq_none.mp h s.kind (Kind.mem_all _)
    exact absurd (List.isPrefixOf_iff_prefix.mpr (t.lead_prefix_line s)) hnot
  | some k =>
    have hk := List.find?_some h
    exact eq_of_lead_starts (List.isPrefixOf_iff_prefix.mp hk)

def statement? (t : Target) (l : List Char) : Option Statement :=
  let s := Statement.ofNumbers (Text.numerals l) (t.lineKind l)
  if t.line s = l then some s else none

theorem numerals_line (t : Target) (s : Statement) (h : s.kind ≠ .relu ∧ s.kind ≠ .sigmoid) :
    Text.numerals (t.line s) = s.numbers := by
  exact Text.numerals_fill (t.texts_separate s.kind h) (t.numbers_length_le s)

theorem ofNumbers_numerals_line (t : Target) (s : Statement) :
    Statement.ofNumbers (Text.numerals (t.line s)) s.kind = s := by
  cases s with
  | setWeight index rows cols => rw [numerals_line t _ (by simp [Statement.kind])]; rfl
  | setBias index rows => rw [numerals_line t _ (by simp [Statement.kind])]; rfl
  | affine index => rw [numerals_line t _ (by simp [Statement.kind])]; rfl
  | relu => rfl
  | sigmoid => rfl

@[simp] theorem statement?_line (t : Target) (s : Statement) :
    t.statement? (t.line s) = some s := by
  unfold statement?
  rw [lineKind_line, ofNumbers_numerals_line]
  exact if_pos rfl

theorem statement?_eq_none {t : Target} {l : List Char} (h : ∀ s, l ≠ t.line s) :
    t.statement? l = none := by
  unfold statement?
  exact if_neg fun he => h _ he.symm

end Feedforward.Target
