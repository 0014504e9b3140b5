import Feedforward.Proofs.Code.Members

/-! The sections of generated code. The constructor, the forward pass and, where
members have to be declared, their declarations are found by the lines around
them; in each of them every member of the class is named once, and nowhere else. -/
namespace Feedforward
open Parameter (weightName biasName)
open Token (isWordPart)

namespace Target

/-- A line that names no member and opens no class. -/
structure Plain (t : Target) (l : List Char) : Prop where
  mentioned_eq_nil : t.mentioned l = []
  className?_eq_none : t.className? l = none

instance (t : Target) (l : List Char) : Decidable (t.Plain l) :=
  decidable_of_iff (t.mentioned l = [] ∧ t.className? l = none)
    ⟨fun h => ⟨h.1, h.2⟩, fun h => ⟨h.1, h.2⟩⟩

theorem mentioned_plain {t : Target} {ls : List (List Char)} (h : ∀ l ∈ ls, t.Plain l) :
    ls.flatMap t.mentioned = [] :=
  List.flatMap_eq_nil_iff.mpr fun l hl => (h l hl).mentioned_eq_nil

theorem classNames_plain {t : Target} {ls : List (List Char)} (h : ∀ l ∈ ls, t.Plain l) :
    ls.filterMap t.className? = [] :=
  List.filterMap_eq_nil_iff.mpr fun l hl => (h l hl).className?_eq_none

theorem apart_name {t : Target} (m : Model) {u w : String}
    (hu : ∀ v, Atom.extendLast v (Atom.ofText t.isNamePart u.toList) =
      Atom.ofText t.isNamePart u.toList ++ [.name v])
    (hw : Text.Stops t.isNamePart w.toList) : t.Apart u m.name w :=
  ⟨m.isWordPart_name, m.name_toList_ne_nil, hu, hw⟩

theorem Apart.mentioned_name {t : Target} {m : Model} {u w : String} (h : t.Apart u m.name w) :
    t.mentioned (u ++ m.name ++ w).toList = t.mentioned u.toList ++ t.mentioned w.toList := by
  rw [h.mentioned_eq, List.filter_singleton, m.isMember_name]
  rfl

theorem exists_opening (t : Target) (m : Model) :
    ∃ front w back, (t.dialect.opening m.name).filterMap Step.text? =
        front ++ ("class " ++ m.name ++ w).toList :: back ∧
      t.Apart "class " m.name w ∧ t.Plain w.toList ∧ ∀ l ∈ front ++ back, t.Plain l := by
  cases t with
  | cpp =>
    have hconstructor : cpp.Plain (m.name ++ "() \x7b").toList := by
      have hapart : cpp.Apart "" m.name "() \x7b" :=
        apart_name m (fun _ => rfl) ((Text.stops_cons _ _ _).mpr (by decide))
      rw [← String.empty_append (s := m.name)]
      constructor
      · rw [hapart.mentioned_name]
        rfl
      · rw [className?, hapart.ofText_eq]
        rfl
    refine ⟨["#include <Eigen/Dense>".toList, []], " \x7b",
      ["public:".toList, (m.name ++ "() \x7b").toList], rfl,
      apart_name m (fun _ => rfl) ((Text.stops_cons _ _ _).mpr (by decide)), by decide, ?_⟩
    simp only [List.cons_append, List.nil_append, List.forall_mem_cons]
    exact ⟨by decide, by decide, by decide, hconstructor, by simp⟩
  | python =>
    exact ⟨["import numpy as np".toList, []], ":", ["def __init__(self):".toList], rfl,
      apart_name m (fun _ => rfl) ((Text.stops_cons _ _ _).mpr (by decide)), by decide, by decide⟩
  | javascript =>
    exact ⟨["const tf = require('@tensorflow/tfjs');".toList, []], " \x7b",
      ["constructor() \x7b".toList], rfl,
      apart_name m (fun _ => rfl) ((Text.stops_cons _ _ _).mpr (by decide)), by decide, by decide⟩

theorem members_opening (t : Target) (m : Model) :
    ((t.dialect.opening m.name).filterMap Step.text?).flatMap t.mentioned = [] ∧
      ((t.dialect.opening m.name).filterMap Step.text?).filterMap t.className? =
        [m.name.toList] := by
  obtain ⟨front, w, back, hopening, hapart, hw, hplain⟩ := t.exists_opening m
  rw [List.forall_mem_append] at hplain
  have hmentioned : t.mentioned ("class " ++ m.name ++ w).toList = [] := by
    rw [hapart.mentioned_name, hw.mentioned_eq_nil]
    cases t <;> rfl
  have hclass : t.className? ("class " ++ m.name ++ w).toList = some m.name.toList := by
    rw [className?, hapart.ofText_eq]
    cases t <;> rfl
  rw [hopening]
  constructor
  · rw [List.flatMap_append, List.flatMap_cons, hmentioned, mentioned_plain hplain.1,
      mentioned_plain hplain.2]
    rfl
  · rw [List.filterMap_append, List.filterMap_cons_some hclass, classNames_plain hplain.1,
      classNames_plain hplain.2, List.nil_append]

theorem plain_between (t : Target) : ∀ l ∈ t.dialect.between.filterMap Step.text?, t.Plain l := by
  cases t <;> decide

def memberLines (m : Model) : List (List Char) := m.memberNames.map fun p => (memberLine p).toList

theorem text?_members (m : Model) :
    (m.parameters.flatMap fun p => [
      Step.line ("Eigen::MatrixXd " ++ weightName p.index ++ ";"),
      Step.line ("Eigen::VectorXd " ++ biasName p.index ++ ";")]).filterMap Step.text? =
    memberLines m := by
  rw [memberLines, m.memberNames_eq_parameters, List.filterMap_flatMap, List.map_flatMap]
  apply List.flatMap_congr
  intro p _
  simp [Step.text?, memberLine, memberType, Parameter.weightName_toList, Parameter.biasName_toList]

theorem members_memberLines (m : Model) :
    (memberLines m).flatMap cpp.mentioned = m.memberNames.map cpp.member ∧
      (memberLines m).filterMap cpp.className? = [] := by
  have hline {p : String} (hp : p ∈ m.memberNames) :=
    members_memberLine (m.isParameterName_of_mem hp)
  constructor
  · rw [memberLines, List.flatMap_map, List.map_eq_flatMap]
    exact List.flatMap_congr fun p hp => (hline hp).1
  · rw [memberLines, List.filterMap_map, List.filterMap_eq_nil_iff]
    exact fun p hp => (hline hp).2

theorem closing_cpp (m : Model) :
    (cpp.dialect.closing m.name m.parameters).filterMap Step.text? =
      ["return x;", "\x7d", "", "private:"].map String.toList ++
        (memberLines m ++ ["\x7d;".toList]) := by
  rw [← text?_members]
  simp only [dialect, Dialect.cpp, List.filterMap_append, List.append_assoc]
  rfl

/-- The members that code declares. Where they need no declaration, none. -/
def declaredNames (t : Target) (m : Model) : List String :=
  match t with
  | cpp => m.memberNames
  | python | javascript => []

theorem members_closing (t : Target) (m : Model) :
    ((t.dialect.closing m.name m.parameters).filterMap Step.text?).flatMap t.mentioned =
        (t.declaredNames m).map t.member ∧
      ((t.dialect.closing m.name m.parameters).filterMap Step.text?).filterMap t.className? =
        [] := by
  cases t with
  | cpp =>
    obtain ⟨hmentioned, hclass⟩ := members_memberLines m
    rw [closing_cpp]
    simp only [List.flatMap_append, List.filterMap_append, hmentioned, hclass]
    exact ⟨List.append_nil _, rfl⟩
  | python => exact ⟨rfl, rfl⟩
  | javascript =>
    have hmodule : javascript.Plain ("module.exports = \x7b " ++ m.name ++ " \x7d;").toList := by
      have hapart : javascript.Apart "module.exports = \x7b " m.name " \x7d;" :=
        apart_name m (fun _ => rfl) ((Text.stops_cons _ _ _).mpr (by decide))
      constructor
      · rw [hapart.mentioned_name]
        rfl
      · rw [className?, hapart.ofText_eq]
        rfl
    have hplain : ∀ l ∈ (javascript.dialect.closing m.name m.parameters).filterMap Step.text?,
        javascript.Plain l := by
      simp only [dialect, Dialect.javascript, Step.text?, List.filterMap_cons, List.filterMap_nil,
        List.forall_mem_cons]
      exact ⟨by decide, by decide, by decide, by decide, hmodule, by simp⟩
    exact ⟨mentioned_plain hplain, classNames_plain hplain⟩

theorem mentioned_statements (t : Target) (ss : List Statement) :
    (ss.map t.line).flatMap t.mentioned =
      (ss.flatMap Statement.named).map t.member := by
  rw [List.flatMap_map, List.map_flatMap]
  simp only [mentioned_line]

theorem mentioned_generate (t : Target) (indent : Nat) (m : Model) :
    (unindented (t.generate indent m)).flatMap t.mentioned =
      (m.memberNames ++ m.memberNames ++ t.declaredNames m).map t.member := by
  rw [unindented_generate, texts_steps]
  simp only [List.flatMap_append, (t.members_opening m).1, mentioned_statements, m.named_setup,
    mentioned_plain t.plain_between, m.named_forward, (t.members_closing m).1, List.nil_append,
    List.append_nil, List.map_append]

theorem classNames_generate (t : Target) (indent : Nat) (m : Model) :
    (unindented (t.generate indent m)).filterMap t.className? = [m.name.toList] := by
  have hlines (ss : List Statement) : (ss.map t.line).filterMap t.className? = [] := by
    rw [List.filterMap_map, List.filterMap_eq_nil_iff]
    exact fun s _ => t.className?_line s
  rw [unindented_generate, texts_steps]
  simp only [List.filterMap_append, (t.members_opening m).2, hlines,
    classNames_plain t.plain_between, (t.members_closing m).2, List.append_nil]

/-- The lines after a header up to the next line that is the footer. -/
def block (header footer : String) (ls : List (List Char)) : List (List Char) :=
  (ls.dropWhile (· ≠ header.toList)).tail.takeWhile (· ≠ footer.toList)

theorem block_eq {header footer : String} {front body back : List (List Char)}
    (hfront : header.toList ∉ front) (hbody : footer.toList ∉ body)
    (hback : ∀ l ∈ back.head?, l = footer.toList) :
    block header footer (front ++ header.toList :: (body ++ back)) = body := by
  have hne {l : List Char} {ls : List (List Char)} (h : l ∉ ls) :
      ∀ k ∈ ls, decide (k ≠ l) = true :=
    fun k hk => decide_eq_true (ne_of_mem_of_not_mem hk h)
  unfold block
  rw [List.dropWhile_append_of_pos (hne hfront), List.dropWhile_cons_of_neg (by simp),
    List.tail_cons, List.takeWhile_append_of_pos (hne hbody)]
  cases back with
  | nil => simp
  | cons l back =>
    rw [List.takeWhile_cons_of_neg (by simpa using hback l rfl), List.append_nil]

def gap : Target → List String
  | python => [""]
  | cpp | javascript => ["\x7d", ""]

def methodEnd (t : Target) : String := t.gap.headD ""

def forwardLine : Target → String
  | cpp => "Eigen::MatrixXd forward(const Eigen::MatrixXd& input) \x7b"
  | python => "def forward(self, x):"
  | javascript => "forward(input) \x7b"

def inputLine : Target → String
  | cpp => "Eigen::MatrixXd x = input;"
  | python => "x = np.array(x)"
  | javascript => "let x = tf.tensor(input);"

theorem bridge_eq (t : Target) : t.bridge = t.gap ++ [t.forwardLine, t.inputLine] := by
  cases t <;> rfl

def constructorBody (t : Target) (name code : String) : List (List Char) :=
  block (t.constructorLine name) t.methodEnd (unindented code)

def forwardBody (t : Target) (code : String) : List (List Char) :=
  block t.forwardLine t.methodEnd (unindented code)

def privateBody (code : String) : List (List Char) :=
  block "private:" "\x7d;" (unindented code)

theorem Outer.not_mem_lines {t : Target} {l : List Char} (h : t.Outer l) (ss : List Statement) :
    l ∉ ss.map t.line := by
  rw [List.mem_map]
  rintro ⟨s, -, hs⟩
  exact h.foreign s hs.symm

theorem outer_methodEnd (t : Target) : t.Outer t.methodEnd.toList := by
  apply t.outer_between
  rw [between_eq]
  cases t <;> decide

theorem not_mem_around_name (m : Model) {c : Char} (hc : isWordPart c = false) {u w : String}
    (huw : c ∉ u.toList ++ w.toList) : c ∉ (u ++ m.name ++ w).toList := by
  have hname : c ∉ m.name.toList := by
    intro h
    rw [m.isWordPart_name c h] at hc
    cases hc
  rw [List.mem_append, not_or] at huw
  simp [huw, hname]

theorem constructorLine_not_mem (t : Target) (m : Model) :
    (t.constructorLine m.name).toList ∉
      ((t.dialect.opening m.name).filterMap Step.text?).dropLast := by
  -- Before the constructor only what brings in the library can hold a bracket.
  have hbracket : '(' ∈ (t.constructorLine m.name).toList := by
    cases t <;> simp [constructorLine]
  have hclass {w : String} (hw : '(' ∉ "class ".toList ++ w.toList) :
      (t.constructorLine m.name).toList ≠ ("class " ++ m.name ++ w).toList :=
    ne_of_mem_of_not_mem' hbracket (not_mem_around_name m (by decide) hw)
  have hfixed {l : List Char} (hl : '(' ∉ l) : (t.constructorLine m.name).toList ≠ l :=
    ne_of_mem_of_not_mem' hbracket hl
  cases t with
  | cpp =>
    simp only [dialect, Dialect.cpp, Step.text?, List.filterMap_cons, List.filterMap_nil,
      List.dropLast_cons_cons, List.dropLast_singleton, List.mem_cons, not_or]
    exact ⟨hfixed (by decide), hfixed (by decide), hclass (by decide), hfixed (by decide), by simp⟩
  | python =>
    simp only [dialect, Dialect.python, Step.text?, List.filterMap_cons, List.filterMap_nil,
      List.dropLast_cons_cons, List.dropLast_singleton, List.mem_cons, not_or]
    exact ⟨hfixed (by decide), hfixed (by decide), hclass (by decide), by simp⟩
  | javascript =>
    simp only [dialect, Dialect.javascript, Step.text?, List.filterMap_cons, List.filterMap_nil,
      List.dropLast_cons_cons, List.dropLast_singleton, List.mem_cons, not_or]
    have himport : "constructor() \x7b".toList ≠
        "const tf = require('@tensorflow/tfjs');".toList := by decide
    exact ⟨himport, hfixed (by decide), hclass (by decide), by simp⟩

theorem constructorBody_generate (t : Target) (indent : Nat) (m : Model) :
    t.constructorBody m.name (t.generate indent m) = m.declared.setup.map t.line := by
  unfold constructorBody
  rw [unindented_generate, texts_steps, opening_eq]
  simp only [List.append_assoc, List.singleton_append]
  apply block_eq (t.constructorLine_not_mem m) (t.outer_methodEnd.not_mem_lines _)
  cases t <;> simp [between_eq, bridge, methodEnd, gap]

theorem not_mem_opening_cpp (m : Model) {c : Char} (hc : isWordPart c = false) {l : List Char}
    (hl : c ∈ l) (hclass : c ∉ "class ".toList ++ " \x7b".toList)
    (hconstructor : c ∉ "".toList ++ "() \x7b".toList)
    (hfixed : l ∉ ["#include <Eigen/Dense>", "", "public:"].map String.toList) :
    l ∉ (cpp.dialect.opening m.name).filterMap Step.text? := by
  simp only [List.map_cons, List.map_nil, List.mem_cons, not_or] at hfixed
  simp only [dialect, Dialect.cpp, Step.text?, List.filterMap_cons, List.filterMap_nil,
    List.mem_cons, not_or]
  rw [← String.empty_append (s := m.name)]
  exact ⟨hfixed.1, hfixed.2.1, ne_of_mem_of_not_mem' hl (not_mem_around_name m hc hclass),
    hfixed.2.2.1, ne_of_mem_of_not_mem' hl (not_mem_around_name m hc hconstructor), by simp⟩

theorem forwardLine_not_mem (t : Target) (m : Model) :
    t.forwardLine.toList ∉ (t.dialect.opening m.name).filterMap Step.text? := by
  cases t with
  | cpp =>
    exact not_mem_opening_cpp m (c := '&') rfl (by decide) (by decide) (by decide) (by decide)
  | python =>
    simp only [dialect, Dialect.python, Step.text?, List.filterMap_cons, List.filterMap_nil,
      List.mem_cons, not_or]
    exact ⟨by decide, by decide, ne_of_mem_of_not_mem' (a := '(') (by decide)
      (not_mem_around_name m rfl (by decide)), by decide, by simp⟩
  | javascript =>
    simp only [dialect, Dialect.javascript, Step.text?, List.filterMap_cons, List.filterMap_nil,
      List.mem_cons, not_or]
    exact ⟨by decide, by decide, ne_of_mem_of_not_mem' (a := '(') (by decide)
      (not_mem_around_name m rfl (by decide)), by decide, by simp⟩

/-- After the return the forward pass ends, with the code or with a line for it. -/
theorem head?_tail_closing (t : Target) (m : Model) :
    ∀ l ∈ ((t.dialect.closing m.name m.parameters).filterMap Step.text?).tail.head?,
      l = t.methodEnd.toList := by
  intro l hl
  cases t with
  | cpp | javascript => exact (Option.some.inj hl).symm
  | python => cases hl

theorem forwardBody_generate (t : Target) (indent : Nat) (m : Model) :
    t.forwardBody (t.generate indent m) =
      t.inputLine.toList :: (m.declared.forward.map t.line ++ [t.returnLine.toList]) := by
  have hforward : t.Outer t.forwardLine.toList := by
    apply t.outer_between
    rw [between_eq, bridge_eq]
    simp
  have hfront : t.forwardLine.toList ∉ (t.dialect.opening m.name).filterMap Step.text? ++
      (m.declared.setup.map t.line ++ t.gap.map String.toList) := by
    simp only [List.mem_append, not_or]
    exact ⟨t.forwardLine_not_mem m, hforward.not_mem_lines _, by cases t <;> decide⟩
  have hbody : t.methodEnd.toList ∉
      t.inputLine.toList :: (m.declared.forward.map t.line ++ [t.returnLine.toList]) := by
    simp only [List.mem_cons, List.mem_append, not_or]
    exact ⟨by cases t <;> decide, t.outer_methodEnd.not_mem_lines _, by cases t <;> decide, by simp⟩
  unfold forwardBody
  rw [unindented_generate, texts_steps, between_eq, bridge_eq, closing_eq]
  -- The lines split at the header, with the return as the last line of the section.
  have hlines := block_eq hfront hbody (t.head?_tail_closing m)
  simpa only [List.map_append, List.map_cons, List.map_nil, List.append_assoc, List.cons_append,
    List.nil_append] using hlines

theorem privateBody_generate (indent : Nat) (m : Model) :
    privateBody (cpp.generate indent m) = memberLines m := by
  have hprivate : cpp.Outer "private:".toList := by
    apply cpp.outer_closing m
    rw [closing_cpp]
    simp
  have hfront : "private:".toList ∉ (cpp.dialect.opening m.name).filterMap Step.text? ++
      (m.declared.setup.map cpp.line ++ (cpp.bridge.map String.toList ++
        (m.declared.forward.map cpp.line ++ ["return x;", "\x7d", ""].map String.toList))) := by
    simp only [List.mem_append, not_or]
    exact ⟨not_mem_opening_cpp m (c := ':') rfl (by decide) (by decide) (by decide) (by decide),
      hprivate.not_mem_lines _, by decide, hprivate.not_mem_lines _, by decide⟩
  have hbody : "\x7d;".toList ∉ memberLines m := by
    -- The last line names nothing, and each declaration names its member.
    rw [memberLines, List.mem_map]
    rintro ⟨p, hp, hline⟩
    have hmentioned := (members_memberLine (m.isParameterName_of_mem hp)).1
    rw [hline] at hmentioned
    exact absurd hmentioned (List.cons_ne_nil _ _).symm
  unfold privateBody
  rw [unindented_generate, texts_steps, between_eq, closing_cpp]
  have hback : ∀ l ∈ ["\x7d;".toList].head?, l = "\x7d;".toList := by simp
  have hlines := block_eq hfront hbody hback
  simpa only [List.map_cons, List.map_nil, List.append_assoc, List.cons_append,
    List.nil_append] using hlines

theorem assigned_constructorBody (t : Target) (indent : Nat) (m : Model) :
    (t.constructorBody m.name (t.generate indent m)).flatMap t.assigned =
      m.memberNames.map t.member := by
  rw [constructorBody_generate, List.flatMap_map, ← m.assigned_setup, List.map_flatMap]
  simp only [(t.members_line _).1]

theorem used_forwardBody (t : Target) (indent : Nat) (m : Model) :
    (t.forwardBody (t.generate indent m)).flatMap t.used = m.memberNames.map t.member := by
  have hinput : t.used t.inputLine.toList = [] := by
    cases t <;> decide
  have hreturn : t.used t.returnLine.toList = [] := by
    cases t <;> decide
  rw [forwardBody_generate, List.flatMap_cons, List.flatMap_append, List.flatMap_singleton, hinput,
    hreturn, List.nil_append, List.append_nil, List.flatMap_map, ← m.used_forward,
    List.map_flatMap]
  simp only [(t.members_line _).2]

theorem count_member {t : Target} {m : Model} {p : String} (hp : p ∈ m.memberNames) :
    (m.memberNames.map t.member).count (t.member p) = 1 :=
  List.count_eq_one_of_mem (m.nodup_memberNames.map fun _ _ => t.member_inj.mp)
    (List.mem_map_of_mem hp)

theorem count_memberLine {m : Model} {p : String} (hp : p ∈ m.memberNames) :
    (memberLines m).count (memberLine p).toList = 1 := by
  have hmentioned {q : String} (hq : q ∈ m.memberNames) :=
    (members_memberLine (m.isParameterName_of_mem hq)).1
  apply List.count_eq_one_of_mem
  · apply m.nodup_memberNames.map_on
    intro q hq r hr hline
    have hmembers := hmentioned hq
    rw [hline, hmentioned hr, List.singleton_inj, member_inj] at hmembers
    exact hmembers.symm
  · exact List.mem_map_of_mem hp

theorem count_mentioned_generate (t : Target) (indent : Nat) {m : Model} {p : String}
    (hp : p ∈ m.memberNames) :
    ((unindented (t.generate indent m)).flatMap t.mentioned).count (t.member p) =
      if t = cpp then 3 else 2 := by
  rw [mentioned_generate]
  simp only [List.map_append, List.count_append, count_member hp]
  cases t with
  | cpp =>
    rw [declaredNames, count_member hp]
    rfl
  | python | javascript => rfl

theorem exists_of_mentioned_generate {t : Target} {indent : Nat} {m : Model} {l w : List Char}
    (hl : l ∈ unindented (t.generate indent m)) (hw : w ∈ t.mentioned l) :
    ∃ p ∈ m.memberNames, t.member p = w := by
  have hmem : w ∈ (unindented (t.generate indent m)).flatMap t.mentioned :=
    List.mem_flatMap.mpr ⟨l, hl, hw⟩
  rw [mentioned_generate, List.mem_map] at hmem
  obtain ⟨p, hp, hmember⟩ := hmem
  refine ⟨p, ?_, hmember⟩
  cases t <;> simpa [declaredNames] using hp

/-- The members of a class are twice as many as its layers and differ from each
other and from the class. The constructor sets each of them once and the forward
pass uses each once; where they are declared, each is once. Code names no member
in another place and no other member, opens one class, and gives it a name that
it needs for nothing else. -/
theorem generate_members (t : Target) (indent : Nat) (m : Model) :
    m.memberNames.Nodup ∧ m.memberNames.length = 2 * m.layers.length ∧
    (∀ p ∈ m.memberNames,
      ((t.constructorBody m.name (t.generate indent m)).flatMap t.assigned).count
          (t.member p) = 1 ∧
      ((t.forwardBody (t.generate indent m)).flatMap t.used).count (t.member p) = 1 ∧
      (t = cpp → (privateBody (t.generate indent m)).count (memberLine p).toList = 1) ∧
      ((unindented (t.generate indent m)).flatMap t.mentioned).count (t.member p) =
        if t = cpp then 3 else 2) ∧
    (∀ l ∈ unindented (t.generate indent m), ∀ w ∈ t.mentioned l,
      ∃ p ∈ m.memberNames, t.member p = w) ∧
    (unindented (t.generate indent m)).filterMap t.className? = [m.name.toList] ∧
    (∀ i, m.name ≠ weightName i ∧ m.name ≠ biasName i) ∧
    m.name ∉ ["forward", "Eigen", "np", "tf", "require", "module", "exports"] := by
  have hbound : m.name ∉ ["forward", "Eigen", "np", "tf", "require", "module", "exports"] := by
    have hcpp := m.name_not_mem_bindings .cpp
    have hpython := m.name_not_mem_bindings .python
    have hjavascript := m.name_not_mem_bindings .javascript
    simp only [bindings, List.mem_cons, not_or] at hcpp hpython hjavascript
    simp [hcpp, hpython, hjavascript]
  refine ⟨m.nodup_memberNames, m.length_memberNames, ?_,
    fun l hl w hw => exists_of_mentioned_generate hl hw, t.classNames_generate indent m,
    fun i => ⟨m.name_ne_of_isParameterName (isParameterName_weightName i),
      m.name_ne_of_isParameterName (isParameterName_biasName i)⟩, hbound⟩
  intro p hp
  rw [assigned_constructorBody, used_forwardBody]
  refine ⟨count_member hp, count_member hp, ?_, t.count_mentioned_generate indent hp⟩
  rintro rfl
  rw [privateBody_generate]
  exact count_memberLine hp

/-- A class may have the letter of a weight for its name. -/
theorem generate_members_letter :
    let m : Model := ⟨"W", 3, [⟨4, .relu⟩, ⟨2, .none⟩], by decide +kernel, by decide, by decide,
      by decide⟩
    m.memberNames = ["W1", "b1", "W2", "b2"] ∧
    ((cpp.constructorBody "W" (cpp.generate 4 m)).flatMap cpp.assigned).count "b2".toList = 1 ∧
    ((cpp.forwardBody (cpp.generate 4 m)).flatMap cpp.used).count "b2".toList = 1 ∧
    (privateBody (cpp.generate 4 m)).count "Eigen::VectorXd b2;".toList = 1 := by
  intro m
  have hnames : m.memberNames = ["W1", "b1", "W2", "b2"] := by decide +kernel
  obtain ⟨-, -, hmembers, -⟩ := generate_members cpp 4 m
  obtain ⟨hassigned, hused, hdeclared, -⟩ := hmembers "b2" (by rw [hnames]; decide)
  exact ⟨hnames, hassigned, hused, hdeclared rfl⟩

end Target
end Feedforward
