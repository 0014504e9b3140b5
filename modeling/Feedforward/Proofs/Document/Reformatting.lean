import Mathlib.Algebra.Group.Nat.Defs
import Feedforward.Code.Transpile
import Feedforward.Proofs.Document.RoundTrip

/-! Writing an accepted document anew. What a document declares came through
integer literals, so every number of the model that it is read as is one; hence
each layout of that model is read as the same model, and gives the same code. -/
namespace Feedforward
open Literal (InRange)

theorem Token.Reads.integer_inRange {value : Int} {lexeme rest : List Char}
    (h : Reads (.literal (.integer value)) lexeme rest) : InRange value := by
  cases h with
  | natural _ _ hrange => exact hrange
  | negative _ _ hrange => exact hrange

namespace Declaration
variable {s : List Char} {d : Declaration}

def number? : Declaration → Option Int
  | .input size => some size
  | .layer units _ => some units
  | .model _ | .close => none

theorem number?_of_inputSize? {size : Int} (h : d.inputSize? = some size) :
    d.number? = some size := by
  cases d with
  | input _ => exact h
  | model _ | layer _ _ | close => cases h

theorem number?_of_layer? {layer : Int × String} (h : d.layer? = some layer) :
    d.number? = some layer.1 := by
  cases d with
  | layer _ _ =>
    cases h
    rfl
  | model _ | input _ | close => cases h

theorem Form.integer_mem {ts : List Token} {value : Int} (h : Form d ts)
    (hd : d.number? = some value) : .literal (.integer value) ∈ ts := by
  cases h <;> simp_all [number?]

theorem Declares.number_inRange {value : Int} (h : Declares s (some d))
    (hd : d.number? = some value) : InRange value := by
  obtain ⟨-, placed, hplaced, hform⟩ := h
  obtain ⟨lexeme, rest, hread⟩ :=
    exists_reads_of_tokenize hplaced (List.mem_of_mem_filter (hform.integer_mem hd))
  exact hread.integer_inRange

theorem number_inRange_of_mem {lines : List (List Char)} {ds : List (Option Declaration)}
    (h : List.Forall₂ Declares lines ds) (hmem : d ∈ ds.reduceOption) {value : Int}
    (hd : d.number? = some value) : InRange value := by
  obtain ⟨s, hs⟩ := exists_declares_of_mem h hmem
  exact hs.number_inRange hd

end Declaration

namespace Model
open Declaration (Declares Describe)
variable {source : String} {m : Model}

theorem exists_describe_of_read (h : Model.read source = .ok m) :
    ∃ ds layers, List.Forall₂ Declares (Text.lines source.toList) ds ∧
      Describe ds.reduceOption m.name m.inputSize layers ∧
      (m.layers.map fun l => ((l.units : Int), l.activation)) =
        layers.map fun l => (l.1, Activation.ofName l.2) := by
  unfold Model.read Reading.ofString Reading.ofSurvey at h
  cases hdeclared : (Survey.ofLines 1 {} (Text.lines source.toList)).declarations with
  | error e => simp [hdeclared] at h
  | ok declared =>
    obtain ⟨ds, hds, hallows, rfl⟩ := Survey.declares_of_ofLines hdeclared
    simp only [hdeclared, mapError_eq_ok] at h
    obtain ⟨layers, hd, hlayers⟩ := (Draft.build_ofDeclarations hallows).mp h
    exact ⟨ds, layers, hds, hd, hlayers⟩

theorem inputSize_lt_of_read (h : Model.read source = .ok m) : m.inputSize < Nat.pow 2 63 := by
  obtain ⟨ds, layers, hds, hd, -⟩ := exists_describe_of_read h
  have hsize : (m.inputSize : Int) ∈ ds.reduceOption.filterMap Declaration.inputSize? := by
    rw [hd.sizes_eq]
    exact List.mem_singleton_self _
  obtain ⟨d, hmem, hinput⟩ := List.mem_filterMap.mp hsize
  exact Literal.inRange_natCast.mp
    (Declaration.number_inRange_of_mem hds hmem (Declaration.number?_of_inputSize? hinput))

theorem units_lt_of_read (h : Model.read source = .ok m) :
    ∀ l ∈ m.layers, l.units < Nat.pow 2 63 := by
  obtain ⟨ds, layers, hds, hd, hlayers⟩ := exists_describe_of_read h
  intro l hl
  have hunits := List.mem_map_of_mem (f := fun l => ((l.units : Int), l.activation)) hl
  rw [hlayers, ← hd.layers_eq] at hunits
  obtain ⟨k, hk, heq⟩ := List.mem_map.mp hunits
  obtain ⟨d, hmem, hlayer⟩ := List.mem_filterMap.mp hk
  rw [← Literal.inRange_natCast, ← (Prod.mk.inj heq).1]
  exact Declaration.number_inRange_of_mem hds hmem (Declaration.number?_of_layer? hlayer)

theorem read_render_of_read (h : Model.read source = .ok m) (layout : Layout) :
    Model.read (layout.render m) = .ok m := by
  unfold Model.read
  rw [layout.ofString_render (inputSize_lt_of_read h) (units_lt_of_read h)]

end Model

/-- A document that is accepted can be written anew in every layout: its model
has a name that may be used, an input and layers of sizes that are integer
literals, and the new document is read as the same model. So laying it out again
changes no character, and each target makes the same code of it. -/
theorem read_canonicalized {source : String} {m : Model} (h : Model.read source = .ok m) :
    Name.check m.name = .ok () ∧ m.layers ≠ [] ∧
    (1 ≤ m.inputSize ∧ m.inputSize ≤ 2 ^ 63 - 1) ∧
    (∀ l ∈ m.layers, 1 ≤ l.units ∧ l.units ≤ 2 ^ 63 - 1) ∧
    ∀ layout : Layout,
      Model.read (layout.render m) = .ok m ∧
      (Model.read (layout.render m)).map layout.render = .ok (layout.render m) ∧
      ∀ t : Target, t.transpile (layout.render m) = t.transpile source := by
  have hsize := Model.inputSize_lt_of_read h
  have hunits := Model.units_lt_of_read h
  refine ⟨m.name_ok, m.layers_ne_nil, ⟨m.inputSize_pos, Nat.le_pred_of_lt hsize⟩, ?_, ?_⟩
  · exact fun l hl => ⟨m.units_pos l hl, Nat.le_pred_of_lt (hunits l hl)⟩
  · intro layout
    have hread := Model.read_render_of_read h layout
    refine ⟨hread, ?_, fun t => ?_⟩
    · rw [hread]
      rfl
    · rw [t.transpile_of_read hread, t.transpile_of_read h]

/-- The comment, the unknown activation, the leading zero and the order of the
lines are gone after writing, and what was read is the same. -/
theorem read_canonicalized_disordered :
    ∃ m, Model.read
        "model A \x7b // x\nlayer: activation=\"tanh\", units=07\ninput: size=3\n\x7d" = .ok m ∧
      m.inputSize = 3 ∧ m.layers = [⟨7, .none⟩] ∧
      ∀ layout : Layout, Model.read (layout.render m) = .ok m := by
  have hread : (Model.read
      "model A \x7b // x\nlayer: activation=\"tanh\", units=07\ninput: size=3\n\x7d").toOption.map
        (fun m => (m.inputSize, m.layers)) = some (3, [⟨7, .none⟩]) := by
    decide +kernel
  generalize hm : Model.read _ = read at hread ⊢
  cases read with
  | error e => cases hread
  | ok m =>
    obtain ⟨hsize, hlayers⟩ := Prod.mk.inj (Option.some.inj hread)
    exact ⟨m, rfl, hsize, hlayers, fun layout => ((read_canonicalized hm).2.2.2.2 layout).1⟩

end Feedforward
