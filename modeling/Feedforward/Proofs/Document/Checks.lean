import Feedforward.Proofs.Document.Precedence

/-! A draft is checked before its model is made, and making a model checks the
same things again. The two agree: on numbers that are not negative they give the
same model or the same error, and what passes the first is never refused by the
second. -/
namespace Feedforward
namespace Draft

def ofParts (name : String) (inputSize : Nat) (layers : List Layer) : Draft :=
  ⟨some name, some (inputSize : Int), layers.map fun l => ((l.units : Int), l.activation)⟩

/-- The checks of a draft that come before its model is made. -/
structure Passes (d : Draft) (name : String) : Prop where
  named : d.name = some name
  name_ok : Name.check name = .ok ()
  inputSize_pos : 0 < d.inputSize.getD 0
  layers_ne_nil : d.layers ≠ []
  no_badLayer : d.badLayer? = none

theorem badLayer?_ofParts (name : String) (inputSize : Nat) (layers : List Layer) :
    (ofParts name inputSize layers).badLayer? =
      (layers.findIdx? (·.units == 0)).map fun i => (i + 1, 0) := by
  have hbad : ((fun l : (Int × Activation) × Nat => decide (l.1.1 ≤ 0)) ∘
      Prod.map (fun l : Layer => ((l.units : Int), l.activation)) id) =
        fun l => l.1.units == 0 := by
    funext ⟨l, i⟩
    rw [Function.comp_apply, Prod.map_apply, Bool.eq_iff_iff, decide_eq_true_iff, beq_iff_eq]
    exact Int.natCast_nonpos_iff
  unfold badLayer? ofParts
  rw [List.zipIdx_map, List.find?_map, hbad, List.findIdx?_eq_fst_find?_zipIdx, Option.map_map,
    Option.map_map]
  cases hfound : layers.zipIdx.find? fun l => l.1.units == 0 with
  | none => rfl
  | some l =>
    have hzero := List.find?_some hfound
    rw [beq_iff_eq] at hzero
    simp [hzero]

theorem build_of_passes {d : Draft} {name : String} (h : d.Passes name) :
    d.build =
      Model.make name (d.inputSize.getD 0).toNat (d.layers.map fun l => ⟨l.1.toNat, l.2⟩) := by
  unfold build
  simp only [h.named, h.name_ok, if_neg (Int.not_le.mpr h.inputSize_pos), if_neg h.layers_ne_nil,
    h.no_badLayer]

theorem passes_of_build {d : Draft} {m : Model} (h : d.build = .ok m) : d.Passes m.name := by
  obtain ⟨name, hname, hsize, hunits, hmake⟩ := build_eq_ok_cases h
  obtain ⟨rfl, -, hlayers⟩ := Model.make_eq_ok.mp hmake
  refine ⟨hname, m.name_ok, hsize, ?_, badLayer?_eq_none.mpr hunits⟩
  intro hnil
  rw [hnil] at hlayers
  exact m.layers_ne_nil hlayers

theorem exists_build_of_passes {d : Draft} {name : String} (h : d.Passes name) :
    ∃ m, d.build = .ok m := by
  rw [build_of_passes h]
  exact exists_make h.name_ok h.inputSize_pos h.layers_ne_nil (badLayer?_eq_none.mp h.no_badLayer)

theorem build_ofParts (name : String) (inputSize : Nat) (layers : List Layer) :
    (ofParts name inputSize layers).build = Model.make name inputSize layers := by
  have hbad := badLayer?_ofParts name inputSize layers
  unfold Model.make
  split
  · next e hname => simp only [build, ofParts, hname]
  · next hname =>
    by_cases hsize : inputSize = 0
    · rw [dif_pos hsize, hsize]
      simp [build, ofParts, hname]
    · rw [dif_neg hsize]
      by_cases hlayers : layers = []
      · rw [dif_pos hlayers, hlayers]
        simp [build, ofParts, hname, hsize]
      · rw [dif_neg hlayers]
        split
        · next i hi =>
          rw [hi, Option.map_some] at hbad
          unfold build
          rw [hbad]
          simp [ofParts, hname, hsize, hlayers]
        · exact build_eq_ok.mpr ⟨rfl, rfl, rfl⟩

end Draft

/-- Drafts and models are checked alike. For a name, an input size and layers
with numbers that are not negative, the draft of them is built just as the model
is made, with the same error if there is one. For any draft, once its own checks
pass the model is made, and it has the declared name, input size and layers. -/
theorem build_agrees_with_make :
    (∀ (name : String) (inputSize : Nat) (layers : List Layer),
      (Draft.ofParts name inputSize layers).build = Model.make name inputSize layers) ∧
    (∀ d : Draft, (∃ m, d.build = .ok m) ↔ ∃ name, d.Passes name) ∧
    ∀ (d : Draft) (name : String), d.Passes name →
      ∃ m, Model.make name (d.inputSize.getD 0).toNat
          (d.layers.map fun l => ⟨l.1.toNat, l.2⟩) = .ok m ∧ d.build = .ok m ∧
        d.name = some m.name ∧ d.inputSize = some (m.inputSize : Int) ∧
        d.layers = m.layers.map fun l => ((l.units : Int), l.activation) := by
  refine ⟨Draft.build_ofParts, fun d => ⟨?_, ?_⟩, fun d name h => ?_⟩
  · rintro ⟨m, hm⟩
    exact ⟨m.name, Draft.passes_of_build hm⟩
  · rintro ⟨name, h⟩
    exact Draft.exists_build_of_passes h
  · obtain ⟨m, hm⟩ := Draft.exists_build_of_passes h
    exact ⟨m, (Draft.build_of_passes h).symm.trans hm, hm, Draft.build_eq_ok.mp hm⟩

/-- A draft with two layers passes; without units in the second, both ways of
checking report that layer. -/
theorem build_agrees_with_make_two_layers :
    let d : Draft := ⟨some "Net", some 3, [(4, .relu), (2, .none)]⟩
    let layers : List Layer := [⟨4, .relu⟩, ⟨0, .none⟩]
    d.Passes "Net" ∧
    (∃ m, d.build = .ok m ∧ d.name = some m.name ∧ d.inputSize = some (m.inputSize : Int) ∧
      d.layers = m.layers.map fun l => ((l.units : Int), l.activation)) ∧
    Model.make "Net" 3 layers = .error (.invalidUnits 2 0) ∧
    (Draft.ofParts "Net" 3 layers).build = .error (.invalidUnits 2 0) := by
  intro d layers
  have hpasses : d.Passes "Net" := by
    refine ⟨rfl, ?_, ?_, ?_, ?_⟩ <;> decide +kernel
  have hmake : Model.make "Net" 3 layers = .error (.invalidUnits 2 0) := by decide +kernel
  obtain ⟨hparts, -, hpass⟩ := build_agrees_with_make
  obtain ⟨m, -, hm, hdeclared⟩ := hpass d "Net" hpasses
  exact ⟨hpasses, ⟨m, hm, hdeclared⟩, hmake, (hparts "Net" 3 layers).trans hmake⟩

end Feedforward
