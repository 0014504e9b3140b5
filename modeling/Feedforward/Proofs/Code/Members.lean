import Mathlib.Data.List.Nodup
import Feedforward.Proofs.Code.Atoms
import Feedforward.Proofs.Code.Network

/-! The members of the generated class. The names `W1`, `b1` and so on differ
from each other and from the class; each is assigned once in the constructor
and used once in the forward pass, and nothing else is named like a member. -/
namespace Feedforward
open Parameter (weightName biasName)
open Token (isWordPart)

namespace Parameter

theorem weightName_toList (i : Nat) : (weightName i).toList = 'W' :: i.repr.toList := by
  rw [weightName, String.toList_append]
  rfl

theorem biasName_toList (i : Nat) : (biasName i).toList = 'b' :: i.repr.toList := by
  rw [biasName, String.toList_append]
  rfl

theorem letter_repr_inj {c : Char} {i j : Nat} :
    c :: i.repr.toList = c :: j.repr.toList ↔ i = j := by
  constructor
  · intro h
    have hdigits : i.repr.toList = j.repr.toList := (List.cons.inj h).2
    rw [← Text.ofDigitChars_repr i, hdigits, Text.ofDigitChars_repr]
  · rintro rfl
    rfl

theorem weightName_inj {i j : Nat} : weightName i = weightName j ↔ i = j := by
  rw [← String.toList_inj, weightName_toList, weightName_toList, letter_repr_inj]

theorem biasName_inj {i j : Nat} : biasName i = biasName j ↔ i = j := by
  rw [← String.toList_inj, biasName_toList, biasName_toList, letter_repr_inj]

theorem weightName_ne_biasName (i j : Nat) : weightName i ≠ biasName j := by
  rw [Ne, ← String.toList_inj, weightName_toList, biasName_toList, List.cons.injEq]
  exact fun h => absurd h.1 (by decide)

end Parameter

namespace Model

def memberNames (m : Model) : List String :=
  (List.range m.layers.length).flatMap fun i => [weightName (i + 1), biasName (i + 1)]

theorem length_memberNames (m : Model) : m.memberNames.length = 2 * m.layers.length := by
  simp [memberNames, Nat.mul_comm]

theorem nodup_memberNames (m : Model) : m.memberNames.Nodup := by
  rw [memberNames, List.nodup_flatMap]
  constructor
  · intro i _
    simp [Parameter.weightName_ne_biasName]
  · apply List.nodup_range.pairwise_of_forall_ne
    intro i _ j _ hij
    simp [Function.onFun, Parameter.weightName_inj, Parameter.biasName_inj,
      Parameter.weightName_ne_biasName, (Parameter.weightName_ne_biasName _ _).symm, Ne.symm hij]

theorem flatMap_zipIdx (m : Model) :
    (m.layers.zipIdx.flatMap fun l => [weightName (l.2 + 1), biasName (l.2 + 1)]) =
      m.memberNames := by
  rw [memberNames, List.range_eq_range', ← List.zipIdx_map_snd 0 m.layers, List.flatMap_map]

end Model

def Statement.assigned : Statement → List String
  | .setWeight i _ _ => [weightName i]
  | .setBias i _ => [biasName i]
  | .affine _ | .relu | .sigmoid => []

def Statement.used : Statement → List String
  | .affine i => [weightName i, biasName i]
  | .setWeight _ _ _ | .setBias _ _ | .relu | .sigmoid => []

def Statement.named (s : Statement) : List String := s.assigned ++ s.used

namespace Model

theorem assigned_setup (m : Model) :
    m.declared.setup.flatMap Statement.assigned = m.memberNames := by
  rw [← flatMap_zipIdx, declared, List.flatMap_assoc]
  rfl

theorem named_setup (m : Model) : m.declared.setup.flatMap Statement.named = m.memberNames := by
  rw [← flatMap_zipIdx, declared, List.flatMap_assoc]
  rfl

theorem used_forward (m : Model) :
    m.declared.forward.flatMap Statement.used = m.memberNames := by
  rw [← flatMap_zipIdx, declared, List.flatMap_assoc]
  apply List.flatMap_congr
  rintro ⟨⟨units, activation⟩, i⟩ -
  cases activation <;> rfl

theorem named_forward (m : Model) :
    m.declared.forward.flatMap Statement.named = m.memberNames := by
  rw [← used_forward]
  apply List.flatMap_congr
  intro s hs
  have hsetup := m.isSetup_declared_forward s hs
  cases s with
  | setWeight | setBias => cases hsetup
  | affine | relu | sigmoid => rfl

theorem memberNames_eq_parameters (m : Model) :
    m.memberNames = m.parameters.flatMap fun p => [weightName p.index, biasName p.index] := by
  rw [← flatMap_zipIdx, parameters, Parameter.chain_eq_zipIdx, List.flatMap_map]
  simp [Nat.add_comm]

end Model

namespace Target

/-- The object whose member a name is, where it has to be given. -/
def receiver : Target → String
  | cpp => ""
  | python => "self."
  | javascript => "this."

def member (t : Target) (name : String) : List Char := t.receiver.toList ++ name.toList

/-- What names are made of. Where members are given with their object, a name
is all of it. -/
def isNamePart : Target → Char → Bool
  | cpp, c => isWordPart c
  | python, c | javascript, c => isWordPart c || c == '.'

/-- Whether a name in code is that of a member: it has the form of a parameter,
or it is given with the object. -/
def isMember (t : Target) (w : List Char) : Bool :=
  match t with
  | cpp => isParameterName w
  | python | javascript => t.receiver.toList.isPrefixOf w

def mentioned (t : Target) (l : List Char) : List (List Char) :=
  (Atom.names (Atom.ofText t.isNamePart l)).filter t.isMember

def assigned (t : Target) (l : List Char) : List (List Char) :=
  (Atom.names (Atom.sides (Atom.ofText t.isNamePart l)).1).filter t.isMember

def used (t : Target) (l : List Char) : List (List Char) :=
  (Atom.names (Atom.sides (Atom.ofText t.isNamePart l)).2).filter t.isMember

theorem mentioned_eq (t : Target) (l : List Char) : t.mentioned l = t.assigned l ++ t.used l := by
  unfold mentioned assigned used
  rw [← List.filter_append, Atom.names_sides]

theorem member_inj (t : Target) {p q : String} : t.member p = t.member q ↔ p = q := by
  rw [member, member, List.append_right_inj, String.toList_inj]

theorem isNamePart_of_isWordPart (t : Target) {c : Char} (h : isWordPart c = true) :
    t.isNamePart c = true := by
  cases t <;> simp [isNamePart, h]

theorem isNamePart_of_isDigit (t : Target) (c : Char) (h : c.isDigit = true) :
    t.isNamePart c = true :=
  t.isNamePart_of_isWordPart (by simp [isWordPart, Char.isAlphanum, h])

theorem isParameterName_letter {c : Char} (hc : c = 'W' ∨ c = 'b') (n : Nat) :
    isParameterName (c :: n.repr.toList) = true := by
  have hdigits : n.repr.toList.all Char.isDigit = true := List.all_eq_true.mpr (Text.isDigit_repr n)
  have hne : n.repr.toList.isEmpty = false :=
    List.isEmpty_eq_false_iff.mpr (Text.repr_toList_ne_nil n)
  rcases hc with rfl | rfl <;> simp only [isParameterName, hdigits, hne] <;> rfl

theorem isParameterName_weightName (i : Nat) : isParameterName (weightName i).toList = true := by
  rw [Parameter.weightName_toList]
  exact isParameterName_letter (.inl rfl) i

theorem isParameterName_biasName (i : Nat) : isParameterName (biasName i).toList = true := by
  rw [Parameter.biasName_toList]
  exact isParameterName_letter (.inr rfl) i

theorem isMember_member (t : Target) {name : String} (h : isParameterName name.toList = true) :
    t.isMember (t.member name) = true := by
  cases t with
  | cpp => exact h
  | python => exact List.isPrefixOf_iff_prefix.mpr (List.prefix_append _ _)
  | javascript => exact List.isPrefixOf_iff_prefix.mpr (List.prefix_append _ _)

theorem isMember_word (t : Target) {w : List Char} (hw : ∀ c ∈ w, isWordPart c = true)
    (h : isParameterName w = false) : t.isMember w = false := by
  have hdot {u : List Char} (hu : '.' ∈ u) : u.isPrefixOf w = false := by
    rw [Bool.eq_false_iff, Ne, List.isPrefixOf_iff_prefix]
    intro hstart
    exact absurd (hw '.' (hstart.subset hu)) (by decide)
  cases t with
  | cpp => exact h
  | python => exact hdot (by decide)
  | javascript => exact hdot (by decide)

theorem isMember_repr (t : Target) (n : Nat) : t.isMember n.repr.toList = false := by
  have hdigits := Text.isDigit_repr n
  apply isMember_word
  · intro c hc
    simp [isWordPart, Char.isAlphanum, hdigits c hc]
  · cases hn : n.repr.toList with
    | nil => rfl
    | cons c w =>
      have hc := hdigits c (by rw [hn]; exact List.mem_cons_self)
      unfold isParameterName
      split
      · next heq =>
        cases heq
        exact absurd hc (by decide)
      · next heq =>
        cases heq
        exact absurd hc (by decide)
      · rfl

theorem filter_isMember_numbers {t : Target} {names : List (List Char)}
    (h : names.filter t.isMember = []) (ns : List Nat) :
    (names ++ ns.map fun n => n.repr.toList).filter t.isMember = [] := by
  rw [List.filter_append, h, List.nil_append, List.filter_eq_nil_iff, List.forall_mem_map]
  intro n _
  rw [isMember_repr]
  exact Bool.false_ne_true

theorem ends_texts (t : Target) (k : Statement.Kind) :
    (t.texts k).tail.all (Atom.ends t.isNamePart) = true := by
  cases t <;> cases k <;> decide

theorem ofText_line (t : Target) (s : Statement) :
    Atom.ofText t.isNamePart (t.line s) =
      Atom.ofTemplate t.isNamePart (t.texts s.kind) s.numbers :=
  Atom.ofText_fill t.isNamePart_of_isDigit (t.ends_texts s.kind) s.numbers

def sideNames (t : Target) (s : Statement) : List (List Char) × List (List Char) :=
  let sides := Atom.sides (Atom.ofTemplate t.isNamePart (t.texts s.kind) s.numbers)
  (Atom.names sides.1, Atom.names sides.2)

theorem sideNames_setWeight (t : Target) (i rows cols : Nat) :
    ∃ names, names.filter t.isMember = [] ∧ t.sideNames (.setWeight i rows cols) =
      ([t.member (weightName i)], names ++ [rows, cols].map fun n => n.repr.toList) := by
  rw [member, Parameter.weightName_toList]
  cases t with
  | cpp => exact ⟨["Eigen".toList, "MatrixXd".toList, "Random".toList], rfl, rfl⟩
  | python => exact ⟨["np.random.rand".toList], rfl, rfl⟩
  | javascript => exact ⟨["tf.randomUniform".toList], rfl, rfl⟩

theorem sideNames_setBias (t : Target) (i rows : Nat) :
    ∃ names, names.filter t.isMember = [] ∧ t.sideNames (.setBias i rows) =
      ([t.member (biasName i)], names ++ [rows].map fun n => n.repr.toList) := by
  rw [member, Parameter.biasName_toList]
  cases t with
  | cpp => exact ⟨["Eigen".toList, "VectorXd".toList, "Random".toList], rfl, rfl⟩
  | python => exact ⟨["np.random.rand".toList], rfl, rfl⟩
  | javascript => exact ⟨["tf.randomUniform".toList], rfl, rfl⟩

theorem sideNames_affine (t : Target) (i : Nat) :
    ∃ before between, before.filter t.isMember = [] ∧ between.filter t.isMember = [] ∧
      t.sideNames (.affine i) = (["x".toList],
        before ++ t.member (weightName i) :: (between ++ [t.member (biasName i)])) := by
  rw [member, member, Parameter.weightName_toList, Parameter.biasName_toList]
  cases t with
  | cpp => exact ⟨[], ["x".toList, "colwise".toList], rfl, rfl, rfl⟩
  | python => exact ⟨["np.dot".toList], ["x".toList], rfl, rfl, rfl⟩
  | javascript => exact ⟨["tf.dot".toList], ["x".toList, ".add".toList], rfl, rfl, rfl⟩

/-- The line of a statement assigns to the members that the statement sets and
reads those that it uses. -/
theorem members_line (t : Target) (s : Statement) :
    t.assigned (t.line s) = s.assigned.map t.member ∧
      t.used (t.line s) = s.used.map t.member := by
  have hsides : t.assigned (t.line s) = (t.sideNames s).1.filter t.isMember ∧
      t.used (t.line s) = (t.sideNames s).2.filter t.isMember := by
    rw [assigned, used, ofText_line]
    exact ⟨rfl, rfl⟩
  have hweight (i : Nat) := t.isMember_member (isParameterName_weightName i)
  have hbias (i : Nat) := t.isMember_member (isParameterName_biasName i)
  rw [hsides.1, hsides.2]
  cases s with
  | setWeight i rows cols =>
    obtain ⟨names, hnames, h⟩ := t.sideNames_setWeight i rows cols
    rw [h, filter_isMember_numbers hnames]
    simp [Statement.assigned, Statement.used, hweight]
  | setBias i rows =>
    obtain ⟨names, hnames, h⟩ := t.sideNames_setBias i rows
    rw [h, filter_isMember_numbers hnames]
    simp [Statement.assigned, Statement.used, hbias]
  | affine i =>
    obtain ⟨before, between, hbefore, hbetween, h⟩ := t.sideNames_affine i
    rw [h]
    simp only [List.filter_append, List.filter_cons, List.filter_nil, hbefore, hbetween, hweight,
      hbias, if_true]
    exact ⟨by cases t <;> rfl, rfl⟩
  | relu => cases t <;> exact ⟨rfl, rfl⟩
  | sigmoid => cases t <;> exact ⟨rfl, rfl⟩

theorem mentioned_line (t : Target) (s : Statement) :
    t.mentioned (t.line s) = s.named.map t.member := by
  rw [mentioned_eq, (t.members_line s).1, (t.members_line s).2, Statement.named, List.map_append]

def className? (t : Target) (l : List Char) : Option (List Char) :=
  match Atom.ofText t.isNamePart l with
  | .name keyword :: .mark ' ' :: .name w :: _ => if keyword = "class".toList then some w else none
  | _ => none

theorem className?_line (t : Target) (s : Statement) : t.className? (t.line s) = none := by
  unfold className?
  rw [ofText_line]
  cases t <;> cases s <;> rfl

/-- A word between two texts that hold it apart from other names. -/
structure Apart (t : Target) (u v w : String) : Prop where
  word : ∀ c ∈ v.toList, isWordPart c = true
  ne_nil : v.toList ≠ []
  before : ∀ v, Atom.extendLast v (Atom.ofText t.isNamePart u.toList) =
    Atom.ofText t.isNamePart u.toList ++ [.name v]
  after : Text.Stops t.isNamePart w.toList

theorem Apart.ofText_eq {t : Target} {u v w : String} (h : t.Apart u v w) :
    Atom.ofText t.isNamePart (u ++ v ++ w).toList =
      Atom.ofText t.isNamePart u.toList ++ .name v.toList ::
        Atom.ofText t.isNamePart w.toList := by
  have hparts : ∀ c ∈ v.toList, t.isNamePart c = true :=
    fun c hc => t.isNamePart_of_isWordPart (h.word c hc)
  rw [String.append_assoc, String.toList_append, String.toList_append,
    Atom.ofText_around hparts h.ne_nil h.after, h.before, List.append_assoc,
    List.singleton_append]

theorem Apart.mentioned_eq {t : Target} {u v w : String} (h : t.Apart u v w) :
    t.mentioned (u ++ v ++ w).toList =
      t.mentioned u.toList ++ ([v.toList].filter t.isMember ++ t.mentioned w.toList) := by
  unfold mentioned
  rw [h.ofText_eq, ← List.filter_append, ← List.filter_append]
  simp [Atom.names]

end Target

namespace Model

theorem isReserved_name (m : Model) (t : Target) : t.isReserved m.name = false := by
  have hnone := (Name.check_eq_ok_iff.mp m.name_ok).2
  rw [Name.reservedIn?, List.find?_eq_none] at hnone
  exact Bool.eq_false_iff.mpr (hnone t t.mem_all)

theorem isParameterName_name (m : Model) : Target.isParameterName m.name.toList = false := by
  have hreserved := m.isReserved_name .cpp
  rw [Target.isReserved, Bool.or_eq_false_iff] at hreserved
  exact hreserved.2

theorem isMember_name (m : Model) (t : Target) : t.isMember m.name.toList = false :=
  t.isMember_word m.isWordPart_name m.isParameterName_name

theorem name_not_mem_bindings (m : Model) (t : Target) : m.name ∉ t.bindings := by
  have hreserved := m.isReserved_name t
  rw [Target.isReserved, Bool.or_eq_false_iff, Bool.or_eq_false_iff] at hreserved
  simpa using hreserved.1.2

theorem name_ne_of_isParameterName (m : Model) {name : String}
    (h : Target.isParameterName name.toList = true) : m.name ≠ name := by
  rintro rfl
  rw [m.isParameterName_name] at h
  cases h

end Model

namespace Target

theorem isWordPart_of_isParameterName {w : List Char} (h : isParameterName w = true) :
    ∀ c ∈ w, isWordPart c = true := by
  have hdigits {index : List Char} (hindex : index.all Char.isDigit = true) :
      ∀ c ∈ index, isWordPart c = true := by
    intro c hc
    simp [isWordPart, Char.isAlphanum, List.all_eq_true.mp hindex c hc]
  unfold isParameterName at h
  split at h
  · rw [Bool.and_eq_true] at h
    exact List.forall_mem_cons.mpr ⟨by decide, hdigits h.2⟩
  · rw [Bool.and_eq_true] at h
    exact List.forall_mem_cons.mpr ⟨by decide, hdigits h.2⟩
  · cases h

def memberType (name : String) : String :=
  if name.toList.head? = some 'W' then "Eigen::MatrixXd " else "Eigen::VectorXd "

def memberLine (name : String) : String := memberType name ++ name ++ ";"

theorem members_memberLine {name : String} (h : isParameterName name.toList = true) :
    cpp.mentioned (memberLine name).toList = [cpp.member name] ∧
      cpp.className? (memberLine name).toList = none := by
  have hne : name.toList ≠ [] := by
    intro hnil
    rw [hnil] at h
    cases h
  have hapart : cpp.Apart (memberType name) name ";" := by
    refine ⟨isWordPart_of_isParameterName h, hne, ?_, (Text.stops_cons _ _ _).mpr (by decide)⟩
    unfold memberType
    split <;> exact fun _ => rfl
  rw [memberLine, hapart.mentioned_eq, className?, hapart.ofText_eq, List.filter_singleton,
    show cpp.isMember name.toList = true from h]
  unfold memberType
  split <;> exact ⟨rfl, rfl⟩

end Target

theorem Model.isParameterName_of_mem (m : Model) {name : String} (h : name ∈ m.memberNames) :
    Target.isParameterName name.toList = true := by
  rw [memberNames, List.mem_flatMap] at h
  obtain ⟨i, -, hi⟩ := h
  rw [List.mem_cons, List.mem_singleton] at hi
  rcases hi with rfl | rfl
  · exact Target.isParameterName_weightName _
  · exact Target.isParameterName_biasName _

end Feedforward
