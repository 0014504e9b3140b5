import Feedforward.Proofs.Document.Reading

/-! Surveys piece by piece. The lines of a document are surveyed one after the
other, so a survey is that of its first lines followed by that of the others,
and one that stops does so at a line after which nothing is looked at. -/
namespace Feedforward

/-- What is declared once some more lines are read. -/
def Declared.through (seen : Declared) (line : Nat) : List (List Char) → Declared
  | [] => seen
  | s :: ss =>
    match Declaration.ofLine? s with
    | some (.ok d) => (seen.note line d).through (line + 1) ss
    | _ => seen.through (line + 1) ss

namespace Survey
variable {line n : Nat} {seen : Declared} {f : LineFault} {lines front back : List (List Char)}

/-- One survey after another. After a line at fault nothing more is surveyed. -/
def andThen (s t : Survey) : Survey :=
  match s.declarations with
  | .error _ => s
  | .ok ds => ⟨t.declarations.map (ds ++ ·), s.skipped ++ t.skipped, s.warnings ++ t.warnings⟩

theorem andThen_of_error {s : Survey} {e : Nat × LineFault} (h : s.declarations = .error e)
    (t : Survey) : s.andThen t = s := by
  unfold andThen
  rw [h]

theorem andThen_of_ok {s : Survey} {ds : List Declaration} (h : s.declarations = .ok ds)
    (t : Survey) :
    s.andThen t =
      ⟨t.declarations.map (ds ++ ·), s.skipped ++ t.skipped, s.warnings ++ t.warnings⟩ := by
  unfold andThen
  rw [h]

theorem nil_andThen (t : Survey) : andThen ⟨.ok [], [], []⟩ t = t := by
  obtain ⟨ds, skipped, warnings⟩ := t
  cases ds <;> rfl

theorem afterSkipped_andThen (line : Nat) (s t : Survey) :
    (afterSkipped line s).andThen t = afterSkipped line (s.andThen t) := by
  obtain ⟨ds, skipped, warnings⟩ := s
  cases ds <;> rfl

theorem afterDeclared_andThen (line : Nat) (d : Declaration) (s t : Survey) :
    (afterDeclared line d s).andThen t = afterDeclared line d (s.andThen t) := by
  obtain ⟨ds, skipped, warnings⟩ := s
  cases ds with
  | error e => rfl
  | ok ds =>
    obtain ⟨es, skipped', warnings'⟩ := t
    cases es <;> simp [andThen, afterDeclared, Except.map]

/-- The survey of the first lines decides whether the others are surveyed, and
leaves to them their numbers and what was declared. -/
theorem ofLines_append (line : Nat) (seen : Declared) (front back : List (List Char)) :
    ofLines line seen (front ++ back) = (ofLines line seen front).andThen
      (ofLines (line + front.length) (seen.through line front) back) := by
  induction front generalizing line seen with
  | nil =>
    rw [List.nil_append, ofLines, nil_andThen, Declared.through, List.length_nil, Nat.add_zero]
  | cons s front ih =>
    rw [List.cons_append, ofLines, ofLines, Declared.through, List.length_cons, ← Nat.add_assoc,
      Nat.add_right_comm]
    cases Declaration.ofLine? s with
    | none =>
      dsimp only
      rw [ih, afterSkipped_andThen]
    | some declared =>
      cases declared with
      | error f => rfl
      | ok d =>
        dsimp only
        cases seen.fault? d with
        | some f => rfl
        | none =>
          dsimp only
          rw [ih, afterDeclared_andThen]

theorem ofLines_replace {s s' : List Char} (h : Declaration.ofLine? s = Declaration.ofLine? s')
    (front back : List (List Char)) :
    ofLines line seen (front ++ s :: back) = ofLines line seen (front ++ s' :: back) := by
  rw [ofLines_append, ofLines_append, ofLines, ofLines, h]

theorem andThen_exists_ok {s t : Survey} :
    (∃ ds, (s.andThen t).declarations = .ok ds) ↔
      (∃ ds, s.declarations = .ok ds) ∧ ∃ ds, t.declarations = .ok ds := by
  unfold andThen
  cases hs : s.declarations with
  | error e => simp [hs]
  | ok ds => cases t.declarations <;> simp [Except.map]

theorem andThen_eq_error {s t : Survey} {ds : List Declaration} {e : Nat × LineFault}
    (h : s.declarations = .ok ds) (ht : (s.andThen t).declarations = .error e) :
    t.declarations = .error e := by
  rw [andThen_of_ok h] at ht
  cases hdeclared : t.declarations with
  | ok es => simp [hdeclared, Except.map] at ht
  | error e' =>
    rw [hdeclared] at ht
    exact ht

theorem line_of_stopped {s : List Char}
    (h : (ofLines line seen [s]).declarations = .error (n, f)) : n = line := by
  rw [ofLines] at h
  split at h
  · cases h
  · cases h
    rfl
  · split at h
    · cases h
      rfl
    · cases h

theorem exists_stop (h : (ofLines line seen lines).declarations = .error (n, f)) :
    ∃ front s back, lines = front ++ s :: back ∧ n = line + front.length ∧
      (∃ ds, (ofLines line seen front).declarations = .ok ds) ∧
      (ofLines line seen (front ++ [s])).declarations = .error (n, f) := by
  induction lines using List.reverseRecOn generalizing n f with
  | nil => cases h
  | append_singleton lines s ih =>
    cases hlines : (ofLines line seen lines).declarations with
    | error e =>
      have hstop := h
      rw [ofLines_append, andThen_of_error hlines] at hstop
      obtain ⟨front, s', back, rfl, hn, hfront, hs'⟩ := ih hstop
      exact ⟨front, s', back ++ [s], by simp, hn, hfront, hs'⟩
    | ok ds =>
      refine ⟨lines, s, [], rfl, ?_, ⟨ds, hlines⟩, h⟩
      rw [ofLines_append] at h
      exact line_of_stopped (andThen_eq_error hlines h)

end Survey
end Feedforward
