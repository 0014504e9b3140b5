import Feedforward.Proofs.Document.Faults
import Feedforward.Proofs.Document.Survey
import Feedforward.Proofs.Writing

/-! Lines that are not recognized. Reading a document does not depend on where
its lines are numbered from, and a line that is skipped changes only the numbers
of the lines after it; so one more such line is neutral, whatever it holds. -/
namespace Feedforward

namespace LineFault

/-- The line, other than its own, that a fault speaks of. -/
def otherLine? : LineFault → Option Nat
  | repeated _ firstLine => some firstLine
  | _ => none

def renumber (f : LineFault) (σ : Nat → Nat) : LineFault :=
  match f with
  | repeated k firstLine => repeated k (σ firstLine)
  | f => f

theorem renumber_eq_self {f : LineFault} (h : f.otherLine? = none) (σ : Nat → Nat) :
    f.renumber σ = f := by
  cases f with
  | repeated k firstLine => cases h
  | _ => rfl

end LineFault

theorem Declaration.otherLine?_of_ofLine? {s : List Char} {f : LineFault}
    (h : ofLine? s = some (.error f)) : f.otherLine? = none := by
  rcases ofLine?_eq_some_error h with ⟨found, column, rfl⟩ | ⟨k, ts, -, -, hf⟩
  · rfl
  · rcases faultAt_ofTokens k ts f hf with hopening | hinner
    · rw [faults_opening k ts f hopening]
      rfl
    · cases hinner <;> rfl

/-- Lines numbered from `line` on get the numbers from `line'` on. -/
def Renumbers (σ : Nat → Nat) (line line' count : Nat) : Prop :=
  ∀ i < count, σ (line + i) = line' + i

namespace Renumbers
variable {σ : Nat → Nat} {line line' count : Nat}

theorem head (h : Renumbers σ line line' (count + 1)) : σ line = line' := h 0 (by omega)

theorem tail (h : Renumbers σ line line' (count + 1)) :
    Renumbers σ (line + 1) (line' + 1) count := by
  intro i hi
  have hnext := h (i + 1) (by omega)
  rw [show line + 1 + i = line + (i + 1) by omega, hnext]
  omega

end Renumbers

def Warning.renumber (w : Warning) (σ : Nat → Nat) : Warning := { w with line := σ w.line }

theorem Declaration.warning?_renumber (σ : Nat → Nat) (line : Nat) (d : Declaration) :
    d.warning? (σ line) = (d.warning? line).map (·.renumber σ) := by
  cases d with
  | layer units activation =>
    simp only [warning?]
    cases Activation.ofName? activation <;> rfl
  | model _ | input _ | close => rfl

namespace Declared
variable {σ : Nat → Nat} {line line' : Nat} {lines : List (List Char)}

def renumber (seen : Declared) (σ : Nat → Nat) : Declared := ⟨seen.model.map σ, seen.input.map σ⟩

theorem fault?_renumber (seen : Declared) (σ : Nat → Nat) (d : Declaration) :
    (seen.renumber σ).fault? d = (seen.fault? d).map (·.renumber σ) := by
  cases d <;> simp [fault?, renumber, LineFault.renumber, Function.comp_def]

theorem note_renumber (seen : Declared) (σ : Nat → Nat) (line : Nat) (d : Declaration) :
    (seen.renumber σ).note (σ line) d = (seen.note line d).renumber σ := by
  cases d <;> rfl

theorem through_renumber (h : Renumbers σ line line' lines.length) (seen : Declared) :
    (seen.renumber σ).through line' lines = (seen.through line lines).renumber σ := by
  induction lines generalizing line line' seen with
  | nil => rfl
  | cons s lines ih =>
    rw [through, through]
    split
    · rw [← h.head, note_renumber, h.head, ih h.tail]
    · exact ih h.tail seen

end Declared

namespace Survey
variable {σ : Nat → Nat} {line line' n : Nat} {seen : Declared} {lines : List (List Char)}

def renumber (s : Survey) (σ : Nat → Nat) : Survey where
  declarations := s.declarations.mapError fun e => (σ e.1, e.2.renumber σ)
  skipped := s.skipped.map σ
  warnings := s.warnings.map (·.renumber σ)

theorem afterSkipped_renumber (s : Survey) (line : Nat) :
    (afterSkipped line s).renumber σ = afterSkipped (σ line) (s.renumber σ) := rfl

theorem afterDeclared_renumber (s : Survey) (line : Nat) (d : Declaration) :
    (afterDeclared line d s).renumber σ = afterDeclared (σ line) d (s.renumber σ) := by
  obtain ⟨ds, skipped, warnings⟩ := s
  simp only [afterDeclared, renumber, Declaration.warning?_renumber, List.map_append]
  cases ds <;> cases d.warning? line <;> rfl

theorem ofLines_renumber (h : Renumbers σ line line' lines.length) (seen : Declared) :
    ofLines line' (seen.renumber σ) lines = (ofLines line seen lines).renumber σ := by
  induction lines generalizing line line' seen with
  | nil => rfl
  | cons s lines ih =>
    rw [ofLines, ofLines]
    cases hs : Declaration.ofLine? s with
    | none =>
      dsimp only
      rw [ih h.tail, afterSkipped_renumber, h.head]
    | some declared =>
      cases declared with
      | error f =>
        have hf := LineFault.renumber_eq_self (Declaration.otherLine?_of_ofLine? hs) σ
        simp [stopped, renumber, Except.mapError, hf, h.head]
      | ok d =>
        dsimp only
        rw [Declared.fault?_renumber]
        cases seen.fault? d with
        | some f => simp [stopped, renumber, Except.mapError, h.head]
        | none =>
          dsimp only [Option.map_none]
          rw [afterDeclared_renumber, ← ih h.tail, ← Declared.note_renumber, h.head]

/-- All lines that a survey reports are numbered from `low` up to `high`. -/
structure Within (s : Survey) (low high : Nat) : Prop where
  stop : ∀ n f, s.declarations = .error (n, f) → low ≤ n ∧ n < high
  skipped : ∀ n ∈ s.skipped, low ≤ n ∧ n < high
  warnings : ∀ w ∈ s.warnings, low ≤ w.line ∧ w.line < high

theorem within_stopped {high : Nat} (h : line < high) (f : LineFault) :
    (stopped line f).Within line high where
  stop := by
    intro n f' h'
    cases h'
    exact ⟨Nat.le_refl line, h⟩
  skipped := by simp [stopped]
  warnings := by simp [stopped]

theorem Within.afterSkipped {s : Survey} {high : Nat} (h : s.Within (line + 1) high)
    (hline : line < high) : (afterSkipped line s).Within line high where
  stop n f hstop := by
    have hn := h.stop n f hstop
    omega
  skipped := by
    intro n hn
    rcases List.mem_cons.mp hn with rfl | hn
    · omega
    · have hbounds := h.skipped n hn
      omega
  warnings w hw := by
    have hbounds := h.warnings w hw
    omega

theorem Within.afterDeclared {s : Survey} {high : Nat} (h : s.Within (line + 1) high)
    (hline : line < high) (d : Declaration) : (afterDeclared line d s).Within line high where
  stop n f hstop := by
    have hs : s.declarations = .error (n, f) := by
      unfold Survey.afterDeclared at hstop
      cases hd : s.declarations with
      | error e =>
        rw [hd] at hstop
        exact hstop
      | ok ds => simp [hd, Except.map] at hstop
    have hn := h.stop n f hs
    omega
  skipped n hn := by
    have hbounds := h.skipped n hn
    omega
  warnings := by
    intro w hw
    rcases List.mem_append.mp hw with hw | hw
    · have hw := Option.mem_toList.mp hw
      have hw : w.line = line := by
        cases d with
        | layer units activation =>
          simp only [Declaration.warning?] at hw
          split at hw
          · cases hw
          · cases hw
            rfl
        | model _ | input _ | close => cases hw
      omega
    · have hbounds := h.warnings w hw
      omega

theorem within_ofLines (line : Nat) (seen : Declared) (lines : List (List Char)) :
    (ofLines line seen lines).Within line (line + lines.length) := by
  induction lines generalizing line seen with
  | nil => exact ⟨by simp [ofLines], by simp [ofLines], by simp [ofLines]⟩
  | cons s lines ih =>
    have hlength : line + (s :: lines).length = line + 1 + lines.length := by
      rw [List.length_cons]
      omega
    rw [ofLines, hlength]
    split
    · exact (ih (line + 1) seen).afterSkipped (by omega)
    · exact within_stopped (by omega) _
    · split
      · exact within_stopped (by omega) _
      · exact (ih (line + 1) _).afterDeclared (by omega) _

end Survey

/-- The number of a line once there is one more line, numbered `here`. -/
def raised (here n : Nat) : Nat := if n < here then n else n + 1

theorem raised_of_lt {here n : Nat} (h : n < here) : raised here n = n := if_pos h

theorem raised_of_le {here n : Nat} (h : here ≤ n) : raised here n = n + 1 :=
  if_neg (Nat.not_lt.mpr h)

namespace Reading

/-- Whether reading came as far as a line. -/
def reaches (r : Reading) (here : Nat) : Bool :=
  match r.result with
  | .error (.malformedLine line _) => here ≤ line
  | .error (.model _) | .ok _ => true

/-- The reading of a document with one more line, numbered `here`, that is
skipped: the lines from there on have their numbers raised by one wherever they
are reported, and nothing else changes. -/
def withSkipped (r : Reading) (here : Nat) : Reading where
  result := r.result.mapError fun
    | .malformedLine line f =>
      if line < here then .malformedLine line f
      else .malformedLine (line + 1) (f.renumber (raised here))
    | .model e => .model e
  skipped := r.skipped.filter (· < here) ++ (if r.reaches here then [here] else []) ++
    (r.skipped.filter (here ≤ ·)).map (· + 1)
  warnings := r.warnings.map (·.renumber (raised here))

end Reading

namespace Survey
variable {here : Nat} {s t : Survey}

theorem Within.renumber_warnings {low : Nat} (h : s.Within low here) :
    s.warnings.map (·.renumber (raised here)) = s.warnings := by
  have hsame : ∀ w ∈ s.warnings, w.renumber (raised here) = w := by
    intro w hw
    rw [Warning.renumber, raised_of_lt (h.warnings w hw).2]
  exact (List.map_congr_left hsame).trans (List.map_id _)

theorem Within.skipped_before {low : Nat} (h : s.Within low here) :
    s.skipped.filter (· < here) = s.skipped ∧ s.skipped.filter (here ≤ ·) = [] := by
  rw [List.filter_eq_self, List.filter_eq_nil_iff]
  refine ⟨fun n hn => ?_, fun n hn => ?_⟩
  · exact decide_eq_true (h.skipped n hn).2
  · simpa using (h.skipped n hn).2

theorem Within.skipped_after {high : Nat} (h : t.Within here high) :
    t.skipped.filter (· < here) = [] ∧ t.skipped.filter (here ≤ ·) = t.skipped := by
  rw [List.filter_eq_self, List.filter_eq_nil_iff]
  refine ⟨fun n hn => ?_, fun n hn => ?_⟩
  · simpa using (h.skipped n hn).1
  · exact decide_eq_true (h.skipped n hn).1

theorem Within.renumber_skipped {high : Nat} (h : t.Within here high) :
    t.skipped.map (raised here) = t.skipped.map (· + 1) := by
  apply List.map_congr_left
  intro n hn
  exact raised_of_le (h.skipped n hn).1

theorem withSkipped_of_stopped {low : Nat} {e : Nat × LineFault} (h : s.declarations = .error e)
    (hs : s.Within low here) : (Reading.ofSurvey s).withSkipped here = Reading.ofSurvey s := by
  obtain ⟨n, f⟩ := e
  have hn := (hs.stop n f h).2
  simp only [Reading.withSkipped, Reading.reaches, Reading.ofSurvey, h, Except.mapError, if_pos hn,
    hs.skipped_before, hs.renumber_warnings]
  simp [hn]

theorem withSkipped_of_reached {low high : Nat} {ds : List Declaration}
    (h : s.declarations = .ok ds) (hs : s.Within low here) (ht : t.Within here high) :
    (Reading.ofSurvey (s.andThen t)).withSkipped here =
      Reading.ofSurvey (s.andThen (afterSkipped here (t.renumber (raised here)))) := by
  rw [andThen_of_ok h, andThen_of_ok h]
  have hskipped : (s.skipped ++ t.skipped).filter (· < here) ++ [here] ++
      ((s.skipped ++ t.skipped).filter (here ≤ ·)).map (· + 1) =
        s.skipped ++ here :: t.skipped.map (raised here) := by
    simp [List.filter_append, hs.skipped_before, ht.skipped_after, ht.renumber_skipped]
  cases hdeclared : t.declarations with
  | error e =>
    obtain ⟨n, f⟩ := e
    have hn := (ht.stop n f hdeclared).1
    simp only [Reading.withSkipped, Reading.reaches, Reading.ofSurvey, hdeclared, afterSkipped,
      renumber, Except.map, Except.mapError, if_neg (Nat.not_lt.mpr hn), decide_eq_true hn,
      if_true, hskipped, List.map_append, hs.renumber_warnings, raised_of_le hn]
  | ok es =>
    cases hbuild : (Draft.ofDeclarations (ds ++ es)).build <;>
      simp only [Reading.withSkipped, Reading.reaches, Reading.ofSurvey, hdeclared, hbuild,
        afterSkipped, renumber, Except.map, Except.mapError, if_true, hskipped, List.map_append,
        hs.renumber_warnings]

theorem ofLines_insert {u : List Char} (hu : Declaration.ofLine? u = none)
    (front back : List (List Char)) :
    ofLines 1 {} (front ++ u :: back) = (ofLines 1 {} front).andThen
      (afterSkipped (1 + front.length)
        ((ofLines (1 + front.length) (({} : Declared).through 1 front) back).renumber
          (raised (1 + front.length)))) := by
  have hfront : Renumbers (raised (1 + front.length)) 1 1 front.length := by
    intro i hi
    exact raised_of_lt (by omega)
  have hback : Renumbers (raised (1 + front.length)) (1 + front.length) (1 + front.length + 1)
      back.length := by
    intro i hi
    rw [raised_of_le (by omega)]
    omega
  have hseen := Declared.through_renumber hfront {}
  rw [ofLines_append, ofLines, hu, ← ofLines_renumber hback, ← hseen]
  rfl

end Survey

/-- A line that is not recognized is neutral: put in anywhere, it changes what a
document is read as only by the numbers of the lines from there on, and it is
among the lines that are skipped if the document is read as far as there. -/
theorem reading_insert_unrecognized {front back : List (List Char)} {u : List Char}
    (hlines : ∀ l ∈ front ++ u :: back, Text.Unbroken l) (hu : LineKind.ofLine? u = none) :
    Reading.ofString (Text.unlines (front ++ u :: back)) =
      (Reading.ofString (Text.unlines (front ++ back))).withSkipped (front.length + 1) := by
  have hrest : ∀ l ∈ front ++ back, Text.Unbroken l := by
    intro l hl
    rcases List.mem_append.mp hl with hl | hl
    · exact hlines l (List.mem_append_left _ hl)
    · exact hlines l (List.mem_append_right _ (List.mem_cons_of_mem u hl))
  have hnone : Declaration.ofLine? u = none := by
    rw [Declaration.ofLine?, hu, Option.map_none]
  unfold Reading.ofString
  rw [Text.lines_unlines hlines, Text.lines_unlines hrest, Survey.ofLines_insert hnone,
    Survey.ofLines_append, Nat.add_comm front.length]
  have hwithin := Survey.within_ofLines 1 {} front
  cases hfront : (Survey.ofLines 1 {} front).declarations with
  | error e =>
    rw [Survey.andThen_of_error hfront, Survey.andThen_of_error hfront,
      Survey.withSkipped_of_stopped hfront hwithin]
  | ok ds => rw [Survey.withSkipped_of_reached hfront hwithin (Survey.within_ofLines _ _ back)]

/-- A line that cannot even be read moves both lines that a fault speaks of. -/
theorem reading_insert_unrecognized_unreadable :
    let u := "@ odd \"".toList
    let lines := ["model A \x7b", "model B \x7b"].map String.toList
    LineKind.ofLine? u = none ∧ (∀ l ∈ u :: lines, Text.Unbroken l) ∧
    (Reading.ofString (Text.unlines lines)).result =
      .error (.malformedLine 2 (.repeated .model 1)) ∧
    Reading.ofString (Text.unlines (u :: lines)) =
      (Reading.ofString (Text.unlines lines)).withSkipped 1 ∧
    (Reading.ofString (Text.unlines (u :: lines))).result =
      .error (.malformedLine 3 (.repeated .model 2)) ∧
    (Reading.ofString (Text.unlines (u :: lines))).skipped = [1] := by
  intro u lines
  have hu : LineKind.ofLine? u = none := by decide +kernel
  have hlines : ∀ l ∈ u :: lines, Text.Unbroken l := by decide +kernel
  have hinsert := @reading_insert_unrecognized [] lines u hlines hu
  exact ⟨hu, hlines, by decide +kernel, hinsert, by decide +kernel, by decide +kernel⟩

end Feedforward
