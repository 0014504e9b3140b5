import Feedforward.Proofs.Document.Precedence
import Feedforward.Proofs.Writing

/-! Documents with their lines in another order. Where no line is at fault, a
document is its declarations: at most one name, at most one input size, and the
layers one after the other. Only the layers have an order to keep. -/
namespace Feedforward

namespace Declaration
variable {s : List Char} {d : Declaration}

/-- What a line declares, if it is recognized and has a form. -/
def declared? (s : List Char) : Option Declaration :=
  match ofLine? s with
  | some (.ok d) => some d
  | some (.error _) | none => none

theorem declared?_of_declares {d : Option Declaration} (h : Declares s d) : declared? s = d := by
  unfold declared?
  rw [ofLine?_eq_iff.mpr h]
  cases d <;> rfl

theorem declared?_eq_some : declared? s = some d ↔ Declares s (some d) := by
  constructor
  · intro h
    unfold declared? at h
    split at h
    · next hs =>
      cases h
      exact ofLine?_eq_some_ok.mp hs
    · cases h
    · cases h
  · exact declared?_of_declares

theorem forall₂_declares_iff {lines : List (List Char)} {ds : List (Option Declaration)} :
    List.Forall₂ Declares lines ds ↔
      (∀ s ∈ lines, Declares s (declared? s)) ∧ lines.map declared? = ds := by
  constructor
  · intro h
    induction h with
    | nil => simp
    | cons hs _ ih =>
      have hd := declared?_of_declares hs
      rw [List.forall_mem_cons, List.map_cons, ih.2, hd]
      exact ⟨⟨hs, ih.1⟩, rfl⟩
  · rintro ⟨hlines, rfl⟩
    rw [List.forall₂_map_right_iff, List.forall₂_same]
    exact hlines

theorem Declares.ofLine?_eq (h : Declares s (some d)) : LineKind.ofLine? s = some d.kind := by
  obtain ⟨⟨k, hopens⟩, placed, hplaced, hform⟩ := h
  rw [kind_eq_of_opens hopens hplaced hform]
  exact LineKind.ofLine?_eq_some.mpr hopens

/-- The lines that are recognized as layers, well formed or not. -/
def layerLines (lines : List (List Char)) : List (List Char) :=
  lines.filter (LineKind.ofLine? · = some (.declares .layer))

theorem layers_eq_of_layerLines (lines : List (List Char)) :
    (lines.filterMap declared?).filterMap layer? =
      (layerLines lines).filterMap fun s => (declared? s).bind layer? := by
  rw [List.filterMap_filterMap, layerLines, List.filterMap_filter]
  congr 1
  funext s
  cases hs : declared? s with
  | none => simp
  | some d =>
    have hkind := (declared?_eq_some.mp hs).ofLine?_eq
    cases d with
    | layer units activation => simp [hkind, kind]
    | model _ | input _ | close => simp [layer?]

end Declaration

open Declaration (Declares declared? layerLines)

theorem Declared.Allows.perm {seen : Declared} {ds ds' : List Declaration} (h : seen.Allows ds)
    (hperm : ds.Perm ds') : seen.Allows ds' := by
  unfold Allows at h ⊢
  rw [← (hperm.filterMap _).length_eq, ← (hperm.filterMap _).length_eq]
  exact h

/-- A survey comes to the end just if no line is ill-formed and nothing is
declared twice that may be declared once; it has found what the lines declare. -/
theorem Survey.ofLines_eq_ok_iff {line : Nat} {seen : Declared} {lines : List (List Char)}
    {ds : List Declaration} :
    (ofLines line seen lines).declarations = .ok ds ↔
      (∀ s ∈ lines, Declares s (declared? s)) ∧ seen.Allows (lines.filterMap declared?) ∧
        lines.filterMap declared? = ds := by
  have hreduce : (lines.map declared?).reduceOption = lines.filterMap declared? := by
    rw [List.reduceOption, List.filterMap_map]
    rfl
  constructor
  · intro h
    obtain ⟨found, hfound, hallows, hds⟩ := declares_of_ofLines h
    obtain ⟨hlines, rfl⟩ := Declaration.forall₂_declares_iff.mp hfound
    rw [hreduce] at hallows hds
    exact ⟨hlines, hallows, hds⟩
  · rintro ⟨hlines, hallows, rfl⟩
    have hfound := Declaration.forall₂_declares_iff.mpr ⟨hlines, rfl⟩
    rw [ofLines_of_declares hfound (by rwa [hreduce]), hreduce]

namespace Draft

theorem perm_eq_of_length_le {α : Type} {l l' : List α} (h : l.Perm l') (hlength : l.length ≤ 1) :
    l = l' := by
  match l with
  | [] => exact h.nil_eq
  | [a] => exact List.singleton_perm.mp h
  | a :: b :: l => simp at hlength

theorem ofDeclarations_perm {ds ds' : List Declaration} (hallows : ({} : Declared).Allows ds)
    (hperm : ds.Perm ds')
    (hlayers : ds.filterMap Declaration.layer? = ds'.filterMap Declaration.layer?) :
    ofDeclarations ds = ofDeclarations ds' := by
  obtain ⟨hmodel, hinput⟩ := hallows
  simp only [Option.toList_none, List.length_nil, Nat.zero_add] at hmodel hinput
  rw [ofDeclarations_eq, ofDeclarations_eq, hlayers,
    perm_eq_of_length_le (hperm.filterMap Declaration.modelName?) hmodel,
    perm_eq_of_length_le (hperm.filterMap Declaration.inputSize?) hinput]

end Draft

/-- The order of the lines of a document does not matter, but for that of its
layers: unless a line is at fault, any other order of the lines that keeps the
order of the layer lines is read as the same model or refused for the same
reason. -/
theorem read_reordered {lines lines' : List (List Char)} (hlines : ∀ l ∈ lines, Text.Unbroken l)
    (hperm : lines.Perm lines') (hlayers : layerLines lines = layerLines lines')
    (hfault : ∀ line f, Model.read (Text.unlines lines) ≠ .error (.malformedLine line f)) :
    Model.read (Text.unlines lines') = Model.read (Text.unlines lines) := by
  have hlines' : ∀ l ∈ lines', Text.Unbroken l := fun l hl => hlines l (hperm.mem_iff.mpr hl)
  cases hfound : (Survey.ofLines 1 {} (Text.lines (Text.unlines lines).toList)).declarations with
  | error e => exact absurd (Model.read_eq_malformedLine.mpr hfound) (hfault e.1 e.2)
  | ok ds =>
    have hsurveyed := hfound
    rw [Text.lines_unlines hlines] at hsurveyed
    obtain ⟨hdeclares, hallows, rfl⟩ := Survey.ofLines_eq_ok_iff.mp hsurveyed
    -- Neither the form of a line nor the number of declarations depends on the order.
    have hds := hperm.filterMap declared?
    have hfound' : (Survey.ofLines 1 {} (Text.lines (Text.unlines lines').toList)).declarations =
        .ok (lines'.filterMap declared?) := by
      rw [Text.lines_unlines hlines', Survey.ofLines_eq_ok_iff]
      exact ⟨fun s hs => hdeclares s (hperm.mem_iff.mpr hs), hallows.perm hds, rfl⟩
    have hsame : (lines.filterMap declared?).filterMap Declaration.layer? =
        (lines'.filterMap declared?).filterMap Declaration.layer? := by
      rw [Declaration.layers_eq_of_layerLines, hlayers, Declaration.layers_eq_of_layerLines]
    rw [Model.read_of_surveyed hfound, Model.read_of_surveyed hfound',
      Draft.ofDeclarations_perm hallows hds hsame]

/-- A document from its last line to its first, but for the layers, is refused
for the same layer. -/
theorem read_reordered_backwards :
    let layers := ["layer: units=4, activation=\"relu\"", "layer: units=-7, activation=\"none\""]
    let lines := (["model A \x7b", "input: size=3"] ++ layers ++ ["odd", "\x7d"]).map String.toList
    let lines' := (["\x7d", "odd"] ++ layers ++ ["input: size=3", "model A \x7b"]).map String.toList
    lines.Perm lines' ∧ layerLines lines = layerLines lines' ∧
    Model.read (Text.unlines lines) = .error (.model (.invalidUnits 2 (-7))) ∧
    Model.read (Text.unlines lines') = Model.read (Text.unlines lines) := by
  intro layers lines lines'
  have hlines : ∀ l ∈ lines, Text.Unbroken l := by decide +kernel
  have hperm : lines.Perm lines' := by decide +kernel
  have hlayers : layerLines lines = layerLines lines' := by decide +kernel
  have hread : Model.read (Text.unlines lines) = .error (.model (.invalidUnits 2 (-7))) := by
    decide +kernel
  refine ⟨hperm, hlayers, hread, read_reordered hlines hperm hlayers ?_⟩
  intro line f
  rw [hread]
  simp

end Feedforward
