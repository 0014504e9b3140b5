import Mathlib.Data.List.Forall2
import Mathlib.Data.List.ReduceOption
import Feedforward.Document.Reading
import Feedforward.Proofs.Document.Recognition

/-! Documents that are accepted. The lines of a document declare things one by
one; it is read as a model just if the declarations describe that model, and
then the lines that declare nothing are those skipped. -/
namespace Feedforward

theorem Activation.ofName?_eq_none {activation : String} :
    ofName? activation = Option.none ↔ activation ∉ ["relu", "sigmoid", "none"] := by
  unfold ofName? all
  simp [name, @eq_comm String activation]

namespace Declaration

def modelName? : Declaration → Option String
  | .model name => some name
  | _ => none

def inputSize? : Declaration → Option Int
  | .input size => some size
  | _ => none

def layer? : Declaration → Option (Int × String)
  | .layer units activation => some (units, activation)
  | _ => none

/-- Declarations of exactly one model name and one input size, and of at least
one layer, that fulfil what a model requires. -/
structure Describe (ds : List Declaration) (name : String) (size : Int)
    (layers : List (Int × String)) : Prop where
  names_eq : ds.filterMap modelName? = [name]
  sizes_eq : ds.filterMap inputSize? = [size]
  layers_eq : ds.filterMap layer? = layers
  name_ok : Name.check name = .ok ()
  size_pos : 0 < size
  layers_ne_nil : layers ≠ []
  units_pos : ∀ l ∈ layers, 0 < l.1

theorem exists_declares_of_mem {lines : List (List Char)} {ds : List (Option Declaration)}
    {d : Declaration} (h : List.Forall₂ Declares lines ds) (hmem : d ∈ ds.reduceOption) :
    ∃ s, Declares s (some d) := by
  rw [List.reduceOption_mem_iff] at hmem
  induction h with
  | nil => cases hmem
  | @cons s _ _ _ hs _ ih =>
    rcases List.mem_cons.mp hmem with rfl | hmem
    · exact ⟨s, hs⟩
    · exact ih hmem

/-- The lines without a declaration, numbered from a line on. -/
def skippedLines (line : Nat) (ds : List (Option Declaration)) : List Nat :=
  (ds.zipIdx line).filterMap fun (d, i) => if d = none then some i else none

def unknownActivations (line : Nat) (ds : List (Option Declaration)) : List Warning :=
  (ds.zipIdx line).filterMap fun
    | (some (.layer _ activation), i) =>
      if activation ∈ ["relu", "sigmoid", "none"] then none else some ⟨i, activation⟩
    | _ => none

theorem skippedLines_cons (line : Nat) (d : Option Declaration) (ds : List (Option Declaration)) :
    skippedLines line (d :: ds) =
      (if d = none then [line] else []) ++ skippedLines (line + 1) ds := by
  by_cases h : d = none <;> simp [skippedLines, h]

theorem unknownActivations_cons (line : Nat) (d : Option Declaration)
    (ds : List (Option Declaration)) :
    unknownActivations line (d :: ds) =
      (d.bind (warning? line)).toList ++ unknownActivations (line + 1) ds := by
  unfold unknownActivations
  rw [List.zipIdx_cons, List.filterMap_cons]
  match d with
  | none | some (.model _) | some (.input _) | some .close => rfl
  | some (.layer units activation) =>
    rw [Option.bind_some, warning?]
    cases h : Activation.ofName? activation with
    | none => simp [Activation.ofName?_eq_none.mp h]
    | some a =>
      have hmem : activation ∈ ["relu", "sigmoid", "none"] := by
        apply Decidable.not_not.mp
        rw [← Activation.ofName?_eq_none, h]
        simp
      simp [hmem]

end Declaration

namespace Declared

/-- No second model and no second input, counting those already seen. -/
def Allows (seen : Declared) (ds : List Declaration) : Prop :=
  seen.model.toList.length + (ds.filterMap Declaration.modelName?).length ≤ 1 ∧
    seen.input.toList.length + (ds.filterMap Declaration.inputSize?).length ≤ 1

theorem allows_nil (seen : Declared) : seen.Allows [] := by
  unfold Allows
  cases seen.model <;> cases seen.input <;> simp

theorem length_add_one_le_iff (first : Option Nat) (n : Nat) :
    first.toList.length + (n + 1) ≤ 1 ↔ first = none ∧ 1 + n ≤ 1 := by
  cases first with
  | none =>
    simp only [Option.toList_none, List.length_nil, true_and]
    omega
  | some line => simp

theorem allows_cons (seen : Declared) (line : Nat) (d : Declaration) (ds : List Declaration) :
    seen.Allows (d :: ds) ↔ seen.fault? d = none ∧ (seen.note line d).Allows ds := by
  unfold Allows
  cases d with
  | model name =>
    rw [fault?, Option.map_eq_none_iff, ← and_assoc]
    exact and_congr_left' (length_add_one_le_iff seen.model _)
  | input size =>
    rw [fault?, Option.map_eq_none_iff, and_left_comm]
    exact and_congr_right' (length_add_one_le_iff seen.input _)
  | layer units activation => exact (and_iff_right rfl).symm
  | close => exact (and_iff_right rfl).symm

end Declared

namespace Survey
open Declaration (Declares skippedLines unknownActivations)
variable {lines : List (List Char)} {ds : List (Option Declaration)}

theorem ofLines_of_declares (h : List.Forall₂ Declares lines ds) {seen : Declared}
    (hseen : seen.Allows ds.reduceOption) (line : Nat) :
    ofLines line seen lines =
      ⟨.ok ds.reduceOption, skippedLines line ds, unknownActivations line ds⟩ := by
  -- What was declared before a line is part of the state, so it is not fixed here.
  induction h generalizing seen line with
  | nil => rfl
  | @cons s d lines ds hd _ ih =>
    rw [← Declaration.ofLine?_eq_iff] at hd
    rw [Declaration.skippedLines_cons, Declaration.unknownActivations_cons]
    cases d with
    | none =>
      simp only [ofLines, hd, Option.map_none, afterSkipped, ih hseen (line + 1)]
      simp
    | some d =>
      rw [List.reduceOption_cons_of_some, Declared.allows_cons seen line] at hseen
      simp only [ofLines, hd, Option.map_some, hseen.1, ih hseen.2 (line + 1), afterDeclared]
      simp [Except.map]

theorem afterDeclared_eq_ok {line : Nat} {d : Declaration} {s : Survey}
    {declared : List Declaration} :
    (afterDeclared line d s).declarations = .ok declared ↔
      ∃ rest, s.declarations = .ok rest ∧ d :: rest = declared := by
  unfold afterDeclared
  cases s.declarations <;> simp [Except.map]

theorem ofLines_stopped (h : List.Forall₂ Declares lines ds) {seen : Declared}
    (hseen : seen.Allows ds.reduceOption) {s : List Char} {f : LineFault}
    (hs : Declaration.ofLine? s = some (.error f)) (rest : List (List Char)) (line : Nat) :
    (ofLines line seen (lines ++ s :: rest)).declarations = .error (line + lines.length, f) := by
  induction h generalizing seen line with
  | nil => simp [ofLines, hs, stopped]
  | @cons s' d lines ds hd _ ih =>
    rw [← Declaration.ofLine?_eq_iff] at hd
    rw [List.cons_append, List.length_cons, ← Nat.add_assoc, Nat.add_right_comm]
    cases d with
    | none =>
      simp only [ofLines, hd, Option.map_none, afterSkipped]
      exact ih hseen (line + 1)
    | some d =>
      rw [List.reduceOption_cons_of_some, Declared.allows_cons seen line] at hseen
      simp only [ofLines, hd, Option.map_some, hseen.1, afterDeclared, ih hseen.2 (line + 1)]
      rfl

theorem declares_of_ofLines {line : Nat} {seen : Declared} {declared : List Declaration}
    (h : (ofLines line seen lines).declarations = .ok declared) :
    ∃ ds, List.Forall₂ Declares lines ds ∧ seen.Allows ds.reduceOption ∧
      ds.reduceOption = declared := by
  induction lines generalizing line seen declared with
  | nil =>
    cases h
    exact ⟨[], .nil, seen.allows_nil, rfl⟩
  | cons s lines ih =>
    rw [ofLines] at h
    split at h
    · next hs =>
      obtain ⟨ds, hds, hallows, hdeclared⟩ := ih h
      exact ⟨none :: ds, .cons (Declaration.ofLine?_eq_iff.mp hs) hds, hallows, hdeclared⟩
    · cases h
    · next d hs =>
      split at h
      · cases h
      · next hfault =>
        obtain ⟨rest, hrest, rfl⟩ := afterDeclared_eq_ok.mp h
        obtain ⟨ds, hds, hallows, rfl⟩ := ih hrest
        refine ⟨some d :: ds, .cons (Declaration.ofLine?_eq_iff.mp hs) hds, ?_, rfl⟩
        rw [List.reduceOption_cons_of_some, Declared.allows_cons seen line]
        exact ⟨hfault, hallows⟩

end Survey

theorem Model.make_eq_ok {name : String} {inputSize : Nat} {layers : List Layer} {m : Model} :
    Model.make name inputSize layers = .ok m ↔
      m.name = name ∧ m.inputSize = inputSize ∧ m.layers = layers := by
  unfold make
  constructor
  · intro h
    split at h
    · cases h
    · split at h
      · cases h
      · split at h
        · cases h
        · split at h
          · cases h
          · cases h
            exact ⟨rfl, rfl, rfl⟩
  · rintro ⟨rfl, rfl, rfl⟩
    have hunits : m.layers.findIdx? (·.units == 0) = none := by
      rw [List.findIdx?_eq_none_iff]
      intro l hl
      exact beq_eq_false_iff_ne.mpr (Nat.pos_iff_ne_zero.mp (m.units_pos l hl))
    split
    · next e he =>
      rw [m.name_ok] at he
      cases he
    · rw [dif_neg (Nat.pos_iff_ne_zero.mp m.inputSize_pos), dif_neg m.layers_ne_nil]
      split
      · next i hi =>
        rw [hunits] at hi
        cases hi
      · rfl

namespace Draft

theorem badLayer?_eq_none {d : Draft} : d.badLayer? = none ↔ ∀ l ∈ d.layers, 0 < l.1 := by
  unfold badLayer?
  rw [Option.map_eq_none_iff, List.find?_eq_none]
  constructor
  · intro h l hl
    obtain ⟨i, hi⟩ := List.mem_iff_getElem?.mp hl
    have hpos := h (l, i) (List.mk_mem_zipIdx_iff_getElem?.mpr hi)
    simpa using hpos
  · intro h l hl
    have hpos := h l.1 (List.fst_mem_of_mem_zipIdx hl)
    simpa using hpos

theorem build_eq_ok_cases {d : Draft} {m : Model} (h : d.build = .ok m) :
    ∃ name, d.name = some name ∧ 0 < d.inputSize.getD 0 ∧ (∀ l ∈ d.layers, 0 < l.1) ∧
      Model.make name (d.inputSize.getD 0).toNat (d.layers.map fun l => ⟨l.1.toNat, l.2⟩) =
        .ok m := by
  unfold build at h
  split at h
  · cases h
  · next name hname =>
    split at h
    · cases h
    · dsimp only at h
      split at h
      · cases h
      · next hsize =>
        split at h
        · cases h
        · split at h
          · cases h
          · next hbad =>
            exact ⟨name, hname, Int.not_le.mp hsize, badLayer?_eq_none.mp hbad, h⟩

theorem build_eq_ok {d : Draft} {m : Model} :
    d.build = .ok m ↔ d.name = some m.name ∧ d.inputSize = some (m.inputSize : Int) ∧
      d.layers = m.layers.map fun l => ((l.units : Int), l.activation) := by
  constructor
  · intro h
    obtain ⟨name, hname, hsize, hpos, hmake⟩ := build_eq_ok_cases h
    obtain ⟨rfl, hinput, hlayers⟩ := Model.make_eq_ok.mp hmake
    refine ⟨hname, ?_, ?_⟩
    · cases hs : d.inputSize with
      | none => simp [hs] at hsize
      | some size =>
        simp only [hs, Option.getD_some] at hsize hinput
        rw [hinput, Int.toNat_of_nonneg (Int.le_of_lt hsize)]
    · have hround : ∀ l ∈ d.layers, ((l.1.toNat : Int), l.2) = l := by
        intro l hl
        rw [Int.toNat_of_nonneg (Int.le_of_lt (hpos l hl))]
      rw [hlayers, List.map_map]
      exact ((List.map_congr_left hround).trans (List.map_id _)).symm
  · rintro ⟨hname, hsize, hlayers⟩
    have hne : d.layers ≠ [] := by
      rw [hlayers]
      simpa using m.layers_ne_nil
    have hpos : ∀ l ∈ d.layers, 0 < l.1 := by
      rw [hlayers, List.forall_mem_map]
      exact fun l hl => Int.natCast_pos.mpr (m.units_pos l hl)
    have hinput : ¬ (m.inputSize : Int) ≤ 0 :=
      Int.not_le.mpr (Int.natCast_pos.mpr m.inputSize_pos)
    unfold build
    simp only [hname, hsize, m.name_ok, Option.getD_some, if_neg hinput, if_neg hne,
      badLayer?_eq_none.mpr hpos]
    rw [Model.make_eq_ok, hlayers]
    simp [Function.comp_def]

theorem ofDeclarations_eq (ds : List Declaration) :
    ofDeclarations ds = ⟨(ds.filterMap Declaration.modelName?).head?,
      (ds.filterMap Declaration.inputSize?).head?,
      (ds.filterMap Declaration.layer?).map fun l => (l.1, Activation.ofName l.2)⟩ := by
  unfold ofDeclarations
  rw [List.head?_filterMap, List.head?_filterMap, List.map_filterMap]
  congr 2
  funext d
  cases d <;> rfl

theorem head?_eq_some_iff_of_length_le {α : Type} {l : List α} (h : l.length ≤ 1) (a : α) :
    l.head? = some a ↔ l = [a] := by
  match l with
  | [] => simp
  | [b] => simp
  | b :: c :: l => simp at h

theorem build_ofDeclarations {ds : List Declaration} {m : Model} (h : ({} : Declared).Allows ds) :
    (ofDeclarations ds).build = .ok m ↔ ∃ layers,
      Declaration.Describe ds m.name m.inputSize layers ∧
      (m.layers.map fun l => ((l.units : Int), l.activation)) =
        layers.map fun l => (l.1, Activation.ofName l.2) := by
  -- Of at most one declaration the first is the only one.
  obtain ⟨hmodel, hinput⟩ := h
  rw [ofDeclarations_eq, build_eq_ok, head?_eq_some_iff_of_length_le (by simpa using hmodel),
    head?_eq_some_iff_of_length_le (by simpa using hinput)]
  constructor
  · rintro ⟨hname, hsize, hlayers⟩
    refine ⟨_, ⟨hname, hsize, rfl, m.name_ok, ?_, ?_, ?_⟩, hlayers.symm⟩
    · exact Int.natCast_pos.mpr m.inputSize_pos
    · intro hnil
      rw [hnil] at hlayers
      exact m.layers_ne_nil (List.map_eq_nil_iff.mp hlayers.symm)
    · intro l hl
      have hmem : (l.1, Activation.ofName l.2) ∈
          m.layers.map fun l => ((l.units : Int), l.activation) := by
        rw [← hlayers]
        exact List.mem_map_of_mem hl
      obtain ⟨k, hk, he⟩ := List.mem_map.mp hmem
      rw [← (Prod.mk.inj he).1]
      exact Int.natCast_pos.mpr (m.units_pos k hk)
  · rintro ⟨layers, hd, hlayers⟩
    rw [hd.layers_eq]
    exact ⟨hd.names_eq, hd.sizes_eq, hlayers.symm⟩

end Draft

theorem Declared.allows_of_describe {ds : List Declaration} {name : String} {size : Int}
    {layers : List (Int × String)} (h : Declaration.Describe ds name size layers) :
    ({} : Declared).Allows ds := by
  simp [Allows, h.names_eq, h.sizes_eq]

theorem Reading.ofSurvey_eq_ok {ds : List Declaration} {m : Model} {skipped skipped' : List Nat}
    {warnings warnings' : List Warning} :
    ofSurvey ⟨.ok ds, skipped, warnings⟩ = ⟨.ok m, skipped', warnings'⟩ ↔
      (Draft.ofDeclarations ds).build = .ok m ∧ skipped = skipped' ∧ warnings = warnings' := by
  simp [ofSurvey, mapError_eq_ok]

theorem Reading.result_of_stopped {source : String} {line : Nat} {f : LineFault}
    (h : (Survey.ofLines 1 {} (Text.lines source.toList)).declarations = .error (line, f)) :
    (ofString source).result = .error (.malformedLine line f) := by
  unfold ofString ofSurvey
  rw [h]

theorem Reading.ofString_of_describe {source : String} {m : Model}
    {ds : List (Option Declaration)} {layers : List (Int × String)}
    (hds : List.Forall₂ Declaration.Declares (Text.lines source.toList) ds)
    (hd : Declaration.Describe ds.reduceOption m.name m.inputSize layers)
    (hlayers : (m.layers.map fun l => ((l.units : Int), l.activation)) =
      layers.map fun l => (l.1, Activation.ofName l.2)) :
    ofString source =
      ⟨.ok m, Declaration.skippedLines 1 ds, Declaration.unknownActivations 1 ds⟩ := by
  have hallows := Declared.allows_of_describe hd
  unfold ofString
  rw [Survey.ofLines_of_declares hds hallows, ofSurvey_eq_ok, Draft.build_ofDeclarations hallows]
  exact ⟨⟨layers, hd, hlayers⟩, rfl, rfl⟩

/-- A document is read as a model just if its lines have the forms of
declarations that describe the model; the lines that are not recognized are
skipped, and unknown activations are noted. -/
theorem reading_eq_ok_iff (source : String) (m : Model) (skipped : List Nat)
    (warnings : List Warning) :
    Reading.ofString source = ⟨.ok m, skipped, warnings⟩ ↔
      ∃ ds name size layers,
        List.Forall₂ Declaration.Declares (Text.lines source.toList) ds ∧
        Declaration.Describe ds.reduceOption name size layers ∧
        m.name = name ∧ (m.inputSize : Int) = size ∧
        (m.layers.map fun l => ((l.units : Int), l.activation)) =
          layers.map (fun l => (l.1, Activation.ofName l.2)) ∧
        skipped = Declaration.skippedLines 1 ds ∧
        warnings = Declaration.unknownActivations 1 ds := by
  constructor
  · intro h
    unfold Reading.ofString at h
    cases hdeclared : (Survey.ofLines 1 {} (Text.lines source.toList)).declarations with
    | error e => simp [Reading.ofSurvey, hdeclared] at h
    | ok declared =>
      obtain ⟨ds, hds, hallows, rfl⟩ := Survey.declares_of_ofLines hdeclared
      rw [Survey.ofLines_of_declares hds hallows, Reading.ofSurvey_eq_ok,
        Draft.build_ofDeclarations hallows] at h
      obtain ⟨⟨layers, hd, hlayers⟩, hskipped, hwarnings⟩ := h
      exact ⟨ds, _, _, layers, hds, hd, rfl, rfl, hlayers, hskipped.symm, hwarnings.symm⟩
  · rintro ⟨ds, name, size, layers, hds, hd, rfl, rfl, hlayers, rfl, rfl⟩
    exact Reading.ofString_of_describe hds hd hlayers

end Feedforward
