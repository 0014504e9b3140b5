import Feedforward.Proofs.Document.Canonical
import Feedforward.Proofs.Document.Reading

/-! A canonical document is read as the model that it was written from, in every
layout, as long as its numbers are integer literals. The first number that is
none stops the reading at its line. -/
namespace Feedforward
namespace Declaration

theorem skippedLines_eq_nil {ds : List (Option Declaration)} (h : none ∉ ds) (line : Nat) :
    skippedLines line ds = [] := by
  unfold skippedLines
  rw [List.filterMap_eq_nil_iff]
  rintro ⟨d, i⟩ hd
  have hmem := List.fst_mem_of_mem_zipIdx hd
  apply if_neg
  rintro rfl
  exact h hmem

theorem unknownActivations_eq_nil {ds : List (Option Declaration)}
    (h : ∀ units activation, some (.layer units activation) ∈ ds →
      activation ∈ ["relu", "sigmoid", "none"]) (line : Nat) :
    unknownActivations line ds = [] := by
  unfold unknownActivations
  rw [List.filterMap_eq_nil_iff]
  rintro ⟨d, i⟩ hd
  have hmem := List.fst_mem_of_mem_zipIdx hd
  split
  · next he =>
    cases he
    exact if_pos (h _ _ hmem)
  · rfl

end Declaration

namespace Reading

/-- A line of the document cannot be read. -/
def StopsAt (r : Reading) (line : Nat) : Prop :=
  ∃ found column, r.result = .error (.malformedLine line (.unreadable found column))

theorem StopsAt.result_ne {r : Reading} {line : Nat} (h : r.StopsAt line) (m : Model) :
    r.result ≠ .ok m := by
  obtain ⟨found, column, hr⟩ := h
  rw [hr]
  simp

end Reading

namespace Layout
open Declaration (Declares)

def header (layout : Layout) (m : Model) : List (List Char) :=
  [modelLine m.name, layout.numbered .input "size" m.inputSize []] ++
    if layout.spacedBlocks then [[]] else []

def layerText (layout : Layout) (l : Layer) : List Char :=
  layout.numbered .layer "units" l.units (layout.activationTail l.activation)

theorem unbroken_assign (layout : Layout) {key value : String} (hkey : Text.Unbroken key.toList)
    (hvalue : Text.Unbroken value.toList) : Text.Unbroken (layout.assign key value).toList := by
  rw [assign_toList]
  simp [hkey, hvalue, Text.unbroken_replicate, Token.isLineEnd]

theorem unbroken_layerLine (layout : Layout) (l : Layer) :
    Text.Unbroken (layout.layerLine l).toList := by
  have hname : Text.Unbroken ("\"" ++ l.activation.name ++ "\"").toList := by
    cases l.activation <;> decide
  unfold layerLine
  rw [String.toList_append, String.toList_append, String.toList_append]
  simp only [Text.unbroken_append]
  exact ⟨⟨⟨by decide, layout.unbroken_assign (by decide) (by simp)⟩, by decide⟩,
    layout.unbroken_assign (by decide) hname⟩

theorem unbroken_steps (layout : Layout) (m : Model) :
    ∀ text, .line text ∈ layout.steps m → Text.Unbroken text.toList := by
  have hmodel : Text.Unbroken ("model " ++ m.name ++ " \x7b").toList := by
    rw [String.toList_append, String.toList_append]
    simp only [Text.unbroken_append]
    exact ⟨⟨by decide, m.unbroken_name⟩, by decide⟩
  have hinput : Text.Unbroken ("input: " ++ layout.assign "size" m.inputSize.repr).toList := by
    rw [String.toList_append, Text.unbroken_append]
    exact ⟨by decide, layout.unbroken_assign (by decide) (by simp)⟩
  intro text h
  unfold steps at h
  simp only [List.mem_append, List.mem_cons, List.mem_map, Step.line.injEq, reduceCtorEq,
    List.not_mem_nil, or_false, false_or] at h
  rcases h with (((rfl | rfl) | h) | ⟨l, -, rfl⟩) | rfl
  · exact hmodel
  · exact hinput
  · cases layout.spacedBlocks <;> simp at h
  · exact layout.unbroken_layerLine l
  · decide

theorem marginLine_model (width : Nat) (name : String) :
    Writer.marginLine width 0 ("model " ++ name ++ " \x7b") = modelLine name := by
  unfold Writer.marginLine
  rw [if_neg (by simp)]
  simp [modelLine]

theorem lines_render (layout : Layout) (m : Model) :
    Text.lines (layout.render m).toList =
      layout.header m ++ m.layers.map layout.layerText ++ [['}']] := by
  have hclose : Writer.marginLine layout.indent 0 "\x7d" = ['}'] := by
    simp [Writer.marginLine]
  have hlayers : (m.layers.map fun l => Writer.marginLine layout.indent 1 (layout.layerLine l)) =
      m.layers.map layout.layerText := by
    simp only [marginLine_layer]
    rfl
  unfold render
  rw [Writer.lines_render (layout.unbroken_steps m)]
  unfold steps header
  cases layout.spacedBlocks <;>
    simp [Writer.written, Writer.written_map_line, marginLine_model, marginLine_input, hlayers,
      hclose]

def headerDeclarations (layout : Layout) (m : Model) : List (Option Declaration) :=
  [some (.model m.name), some (.input m.inputSize)] ++ if layout.spacedBlocks then [none] else []

def layerDeclaration (l : Layer) : Declaration := .layer l.units l.activation.name

theorem declares_header (layout : Layout) {m : Model} (h : m.inputSize < Nat.pow 2 63) :
    List.Forall₂ Declares (layout.header m) (layout.headerDeclarations m) := by
  unfold header headerDeclarations
  refine .cons (declares_model m) (.cons (layout.declares_input h) ?_)
  cases layout.spacedBlocks with
  | false => exact .nil
  | true => exact .cons declares_blank .nil

theorem declares_layers (layout : Layout) {ls : List Layer} (h : ∀ l ∈ ls, l.units < Nat.pow 2 63) :
    List.Forall₂ Declares (ls.map layout.layerText) (ls.map (some ∘ layerDeclaration)) := by
  rw [List.forall₂_map_left_iff, List.forall₂_map_right_iff, List.forall₂_same]
  exact fun l hl => layout.declares_layer (h l hl)

theorem reduceOption_document (layout : Layout) (m : Model) (ls : List Layer) :
    (layout.headerDeclarations m ++ ls.map (some ∘ layerDeclaration)).reduceOption =
      [.model m.name, .input m.inputSize] ++ ls.map layerDeclaration := by
  unfold headerDeclarations List.reduceOption
  cases layout.spacedBlocks <;> simp [List.filterMap_append, List.filterMap_map]

theorem modelNames_layers (ls : List Layer) :
    (ls.map layerDeclaration).filterMap Declaration.modelName? = [] := by
  simp [layerDeclaration, Declaration.modelName?]

theorem inputSizes_layers (ls : List Layer) :
    (ls.map layerDeclaration).filterMap Declaration.inputSize? = [] := by
  simp [layerDeclaration, Declaration.inputSize?]

theorem allows_document (layout : Layout) (m : Model) (ls : List Layer) :
    ({} : Declared).Allows
      (layout.headerDeclarations m ++ ls.map (some ∘ layerDeclaration)).reduceOption := by
  rw [reduceOption_document, Declared.Allows, List.filterMap_append, List.filterMap_append,
    modelNames_layers, inputSizes_layers]
  exact ⟨Nat.le_refl 1, Nat.le_refl 1⟩

def declarations (layout : Layout) (m : Model) : List (Option Declaration) :=
  layout.headerDeclarations m ++ m.layers.map (some ∘ layerDeclaration) ++ [some .close]

theorem describe_declarations (layout : Layout) (m : Model) :
    Declaration.Describe (layout.declarations m).reduceOption m.name m.inputSize
      (m.layers.map fun l => ((l.units : Int), l.activation.name)) := by
  have hlayer : (m.layers.map layerDeclaration).filterMap Declaration.layer? =
      m.layers.map fun l => ((l.units : Int), l.activation.name) := by
    rw [List.filterMap_map, ← List.filterMap_eq_map]
    rfl
  unfold declarations
  rw [List.reduceOption_append, reduceOption_document]
  refine ⟨?_, ?_, ?_, m.name_ok, Int.natCast_pos.mpr m.inputSize_pos, ?_, ?_⟩
  · rw [List.filterMap_append, List.filterMap_append, modelNames_layers]
    rfl
  · rw [List.filterMap_append, List.filterMap_append, inputSizes_layers]
    rfl
  · rw [List.filterMap_append, List.filterMap_append, hlayer]
    exact List.append_nil _
  · simpa using m.layers_ne_nil
  · rw [List.forall_mem_map]
    exact fun l hl => Int.natCast_pos.mpr (m.units_pos l hl)

theorem skippedLines_declarations (layout : Layout) (m : Model) :
    Declaration.skippedLines 1 (layout.declarations m) =
      if layout.spacedBlocks then [3] else [] := by
  have hrest : none ∉ m.layers.map (some ∘ layerDeclaration) ++ [some .close] := by
    simp
  unfold declarations headerDeclarations
  cases layout.spacedBlocks <;>
    simp [Declaration.skippedLines_cons, Declaration.skippedLines_eq_nil hrest]

theorem unknownActivations_declarations (layout : Layout) (m : Model) :
    Declaration.unknownActivations 1 (layout.declarations m) = [] := by
  have hname (a : Activation) : a.name ∈ ["relu", "sigmoid", "none"] := by
    cases a <;> decide
  apply Declaration.unknownActivations_eq_nil
  intro units activation h
  unfold declarations headerDeclarations layerDeclaration at h
  cases layout.spacedBlocks <;> simp at h
  all_goals
    obtain ⟨l, -, -, rfl⟩ := h
    exact hname l.activation

theorem ofString_render (layout : Layout) {m : Model} (hsize : m.inputSize < Nat.pow 2 63)
    (hunits : ∀ l ∈ m.layers, l.units < Nat.pow 2 63) :
    Reading.ofString (layout.render m) =
      ⟨.ok m, if layout.spacedBlocks then [3] else [], []⟩ := by
  have hlines : List.Forall₂ Declares (Text.lines (layout.render m).toList)
      (layout.declarations m) := by
    rw [lines_render]
    exact List.rel_append (List.rel_append (layout.declares_header hsize)
      (layout.declares_layers hunits)) (.cons declares_close .nil)
  have hactivation : (m.layers.map fun l => ((l.units : Int), l.activation)) =
      (m.layers.map fun l => ((l.units : Int), l.activation.name)).map
        fun l => (l.1, Activation.ofName l.2) := by
    simp [Function.comp_def]
  rw [Reading.ofString_of_describe hlines (layout.describe_declarations m) hactivation,
    skippedLines_declarations, unknownActivations_declarations]

theorem length_header (layout : Layout) (m : Model) :
    (layout.header m).length = 2 + if layout.spacedBlocks then 1 else 0 := by
  unfold header
  cases layout.spacedBlocks <;> rfl

theorem stopsAt_input (layout : Layout) {m : Model} (hsize : ¬ m.inputSize < Nat.pow 2 63) :
    (Reading.ofString (layout.render m)).StopsAt 2 := by
  obtain ⟨found, column, hline⟩ := layout.ofLine?_numbered .input
    (show Name.isIdentifier "size" = true by decide) hsize (Text.stops_nil _)
  have hallows : ({} : Declared).Allows [some (.model m.name)].reduceOption :=
    ⟨Nat.le_refl 1, Nat.zero_le 1⟩
  refine ⟨found, column, Reading.result_of_stopped ?_⟩
  rw [lines_render]
  exact Survey.ofLines_stopped (.cons (declares_model m) .nil) hallows hline _ 1

theorem stopsAt_layer (layout : Layout) {m : Model} (hsize : m.inputSize < Nat.pow 2 63)
    {front back : List Layer} {l : Layer} (hlayers : m.layers = front ++ l :: back)
    (hfront : ∀ k ∈ front, k.units < Nat.pow 2 63) (hl : ¬ l.units < Nat.pow 2 63) :
    (Reading.ofString (layout.render m)).StopsAt
      (2 + (front.length + 1) + if layout.spacedBlocks then 1 else 0) := by
  obtain ⟨found, column, hline⟩ := layout.ofLine?_numbered .layer
    (show Name.isIdentifier "units" = true by decide) hl
    (show Text.Stops Char.isDigit (layout.activationTail l.activation) from
      (Text.stops_cons _ _ _).mpr (by decide))
  refine ⟨found, column, Reading.result_of_stopped ?_⟩
  have hlines : Text.lines (layout.render m).toList =
      layout.header m ++ front.map layout.layerText ++
        layout.layerText l :: (back.map layout.layerText ++ [['}']]) := by
    rw [lines_render, hlayers]
    simp
  have hnumber : 1 + (layout.header m ++ front.map layout.layerText).length =
      2 + (front.length + 1) + if layout.spacedBlocks then 1 else 0 := by
    rw [List.length_append, length_header, List.length_map]
    omega
  rw [hlines, ← hnumber]
  exact Survey.ofLines_stopped
    (List.rel_append (layout.declares_header hsize) (layout.declares_layers hfront))
    (layout.allows_document m front) hline _ 1

theorem exists_first_layer {ls : List Layer} (h : ¬ ∀ l ∈ ls, l.units < Nat.pow 2 63) :
    ∃ front l back, ls = front ++ l :: back ∧ (∀ k ∈ front, k.units < Nat.pow 2 63) ∧
      ¬ l.units < Nat.pow 2 63 := by
  cases hfind : ls.find? fun l => !decide (l.units < Nat.pow 2 63) with
  | none => exact absurd (by simpa using List.find?_eq_none.mp hfind) h
  | some l =>
    obtain ⟨hl, front, back, hls, hfront⟩ := List.find?_eq_some_iff_append.mp hfind
    exact ⟨front, l, back, hls, by simpa using hfront, by simpa using hl⟩

/-- In every layout the document of a model is read as that model just if its
numbers are integer literals; then nothing but the blank line between blocks is
skipped and nothing is noted. Otherwise the line of the first other number is at
fault. -/
theorem read_render (layout : Layout) (m : Model) :
    ((Reading.ofString (layout.render m)).result = .ok m ↔
      m.inputSize < Nat.pow 2 63 ∧ ∀ l ∈ m.layers, l.units < Nat.pow 2 63) ∧
    ((m.inputSize < Nat.pow 2 63 ∧ (∀ l ∈ m.layers, l.units < Nat.pow 2 63) ∧
        Reading.ofString (layout.render m) =
          ⟨.ok m, if layout.spacedBlocks then [3] else [], []⟩) ∨
      (¬ m.inputSize < Nat.pow 2 63 ∧ (Reading.ofString (layout.render m)).StopsAt 2) ∨
      (m.inputSize < Nat.pow 2 63 ∧ ∃ front l back, m.layers = front ++ l :: back ∧
        (∀ k ∈ front, k.units < Nat.pow 2 63) ∧ ¬ l.units < Nat.pow 2 63 ∧
        (Reading.ofString (layout.render m)).StopsAt
          (2 + (front.length + 1) + if layout.spacedBlocks then 1 else 0))) := by
  by_cases hsize : m.inputSize < Nat.pow 2 63
  · by_cases hunits : ∀ l ∈ m.layers, l.units < Nat.pow 2 63
    · have hread := layout.ofString_render hsize hunits
      refine ⟨?_, .inl ⟨hsize, hunits, hread⟩⟩
      rw [hread]
      exact iff_of_true rfl ⟨hsize, hunits⟩
    · obtain ⟨front, l, back, hlayers, hfront, hl⟩ := exists_first_layer hunits
      have hstop := layout.stopsAt_layer hsize hlayers hfront hl
      refine ⟨?_, .inr (.inr ⟨hsize, front, l, back, hlayers, hfront, hl, hstop⟩)⟩
      exact iff_of_false (hstop.result_ne m) fun h => hunits h.2
  · have hstop := layout.stopsAt_input hsize
    exact ⟨iff_of_false (hstop.result_ne m) fun h => hsize h.1, .inr (.inl ⟨hsize, hstop⟩)⟩

end Layout
end Feedforward
