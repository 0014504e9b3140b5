import Feedforward.Proofs.Document.Survey

/-! Which error a document is rejected with. A line at fault comes before all
else, and the first such line is reported; without one the declarations of the
document are looked at in stages, and the flaw of the first stage is reported. -/
namespace Feedforward

namespace Declaration
open LineKind (Opens)
variable {s : List Char}

/-- Two declarations of which a document can have only one. -/
def Clash : Declaration → Declaration → Prop
  | .model _, .model _ | .input _, .input _ => True
  | _, _ => False

/-- A line at fault, by the lines before it: it is recognized and has no form of
a declaration, or it declares a second model or a second input. -/
inductive AtFault (front : List (List Char)) (s : List Char) : Prop where
  | illFormed {k : LineKind} : Opens k s → (∀ d, ¬ Declares s (some d)) → AtFault front s
  | second {first : List Char} {d d' : Declaration} : first ∈ front → Declares first (some d) →
      Declares s (some d') → Clash d d' → AtFault front s

def Faultless (lines : List (List Char)) : Prop :=
  ∀ front s back, lines = front ++ s :: back → ¬ AtFault front s

theorem Declares.unique {d d' : Option Declaration} (h : Declares s d) (h' : Declares s d') :
    d = d' := by
  have heq := (ofLine?_eq_iff.mpr h).symm.trans (ofLine?_eq_iff.mpr h')
  exact Option.map_injective (fun _ _ => Except.ok.inj) heq

end Declaration

namespace Declared
open Declaration (Declares Clash)
variable {seen : Declared} {line : Nat} {d : Declaration}

theorem note_fault?_eq_none {d' : Declaration} :
    (seen.note line d').fault? d = none ↔ seen.fault? d = none ∧ ¬ Clash d' d := by
  cases d <;> cases d' <;> simp [fault?, note, Clash]

theorem through_fault?_eq_none {lines : List (List Char)} :
    (seen.through line lines).fault? d = none ↔
      seen.fault? d = none ∧ ∀ t ∈ lines, ∀ d', Declares t (some d') → ¬ Clash d' d := by
  induction lines generalizing seen line with
  | nil => simp [through]
  | cons t lines ih =>
    rw [List.forall_mem_cons, through]
    split
    · next d' hd' =>
      have hdeclares := Declaration.ofLine?_eq_some_ok.mp hd'
      have hfirst : (∀ e, Declares t (some e) → ¬ Clash e d) ↔ ¬ Clash d' d := by
        constructor
        · exact fun h => h d' hdeclares
        · intro h e he
          rw [Option.some.inj (he.unique hdeclares)]
          exact h
      rw [ih, note_fault?_eq_none, hfirst, and_assoc]
    · next hnone =>
      have hfirst : ∀ e, Declares t (some e) → ¬ Clash e d := by
        intro e he
        exact absurd (Declaration.ofLine?_eq_some_ok.mpr he) (hnone e)
      rw [ih, and_iff_right hfirst]

end Declared

namespace Survey
open Declaration (Declares AtFault Faultless Clash)
variable {front lines : List (List Char)} {s : List Char}

theorem exists_ok_singleton {line : Nat} :
    (∃ ds, (ofLines line (({} : Declared).through 1 front) [s]).declarations = .ok ds) ↔
      ¬ AtFault front s := by
  rw [ofLines]
  cases hs : Declaration.ofLine? s with
  | none =>
    have hnone : Declares s none := Declaration.ofLine?_eq_iff.mp hs
    refine iff_of_true ⟨_, rfl⟩ ?_
    rintro (⟨hopens, -⟩ | ⟨-, -, hd, -⟩)
    · exact hnone _ hopens
    · cases hnone.unique hd
  | some declared =>
    cases declared with
    | error f =>
      refine iff_of_false (by rintro ⟨ds, h⟩; cases h) ?_
      obtain ⟨k, hk, -⟩ := Option.map_eq_some_iff.mp hs
      refine not_not.mpr (.illFormed (LineKind.ofLine?_eq_some.mp hk) ?_)
      intro d hd
      rw [← Declaration.ofLine?_eq_some_ok, hs] at hd
      cases hd
    | ok d =>
      have hd := Declaration.ofLine?_eq_some_ok.mp hs
      have hfault : (({} : Declared).through 1 front).fault? d = none ↔ ¬ AtFault front s := by
        rw [Declared.through_fault?_eq_none]
        constructor
        · rintro ⟨-, hclash⟩ (⟨-, hno⟩ | ⟨hmem, hfirst, hd', hboth⟩)
          · exact hno d hd
          · cases hd.unique hd'
            exact hclash _ hmem _ hfirst hboth
        · intro h
          refine ⟨by cases d <;> rfl, fun t ht e he hboth => h (.second ht he hd hboth)⟩
      rw [← hfault]
      dsimp only
      cases (({} : Declared).through 1 front).fault? d with
      | none => simp [ofLines, afterDeclared, Except.map]
      | some f => simp [stopped]

theorem exists_ok_concat :
    (∃ ds, (ofLines 1 {} (front ++ [s])).declarations = .ok ds) ↔
      (∃ ds, (ofLines 1 {} front).declarations = .ok ds) ∧ ¬ AtFault front s := by
  rw [ofLines_append, andThen_exists_ok, exists_ok_singleton]

theorem atFault_of_stop {e : Nat × LineFault}
    (hfront : ∃ ds, (ofLines 1 {} front).declarations = .ok ds)
    (hstop : (ofLines 1 {} (front ++ [s])).declarations = .error e) : AtFault front s := by
  by_contra hs
  obtain ⟨ds, hok⟩ := exists_ok_concat.mpr ⟨hfront, hs⟩
  rw [hstop] at hok
  cases hok

theorem exists_ok_iff :
    (∃ ds, (ofLines 1 {} lines).declarations = .ok ds) ↔ Faultless lines := by
  constructor
  · rintro hok front s back rfl
    rw [← List.singleton_append, ← List.append_assoc, ofLines_append, andThen_exists_ok,
      exists_ok_concat] at hok
    exact hok.1.2
  · intro h
    cases hlines : (ofLines 1 {} lines).declarations with
    | ok ds => exact ⟨ds, rfl⟩
    | error e =>
      obtain ⟨front, s, back, rfl, -, hfront, hstop⟩ := exists_stop hlines
      exact absurd (atFault_of_stop hfront hstop) (h front s back rfl)

theorem exists_error_iff {n : Nat} :
    (∃ f, (ofLines 1 {} lines).declarations = .error (n, f)) ↔
      ∃ front s back, lines = front ++ s :: back ∧ n = front.length + 1 ∧
        Faultless front ∧ AtFault front s := by
  constructor
  · rintro ⟨f, h⟩
    obtain ⟨front, s, back, rfl, hn, hfront, hstop⟩ := exists_stop h
    exact ⟨front, s, back, rfl, by omega, exists_ok_iff.mp hfront, atFault_of_stop hfront hstop⟩
  · rintro ⟨front, s, back, rfl, rfl, hfront, hs⟩
    obtain ⟨ds, hds⟩ := exists_ok_iff.mpr hfront
    cases hstop : (ofLines 1 {} (front ++ [s])).declarations with
    | ok ds => exact absurd hs (exists_ok_concat.mp ⟨ds, hstop⟩).2
    | error e =>
      obtain ⟨n, f⟩ := e
      have hn : n = 1 + front.length := by
        have hlast := hstop
        rw [ofLines_append] at hlast
        exact line_of_stopped (andThen_eq_error hds hlast)
      refine ⟨f, ?_⟩
      rw [← List.singleton_append, ← List.append_assoc, ofLines_append, andThen_of_error hstop,
        hstop, hn, Nat.add_comm]

end Survey

/-- The order in which the declarations of a document are looked at. -/
def ModelError.stage : ModelError → Nat
  | missingName => 0
  | invalidName _ | reservedName _ _ => 1
  | invalidInputSize _ => 2
  | noLayers => 3
  | invalidUnits _ _ => 4

/-- Why declarations make up no model. A name that several targets reserve is
reported for the first of them, and of the layers without units the first one
is reported, by its number among the layers. -/
inductive Declaration.Flaw (ds : List Declaration) : ModelError → Prop where
  | missingName : ds.filterMap modelName? = [] → Flaw ds .missingName
  | reservedName {name : String} {before after : List Target} {target : Target} :
      ds.filterMap modelName? = [name] →
      [.cpp, .python, .javascript] = before ++ target :: after →
      (∀ t ∈ before, t.isReserved name = false) → target.isReserved name = true →
      Flaw ds (.reservedName name target)
  | missingInput : ds.filterMap inputSize? = [] → Flaw ds (.invalidInputSize 0)
  | inputSize {size : Int} : ds.filterMap inputSize? = [size] → size ≤ 0 →
      Flaw ds (.invalidInputSize size)
  | noLayers : ds.filterMap layer? = [] → Flaw ds .noLayers
  | units {front back : List (Int × String)} {units : Int} {activation : String} :
      ds.filterMap layer? = front ++ (units, activation) :: back →
      (∀ l ∈ front, 0 < l.1) → units ≤ 0 → Flaw ds (.invalidUnits (front.length + 1) units)

theorem Name.reservedIn?_eq_some {name : String} {target : Target} :
    reservedIn? name = some target ↔ ∃ before after,
      [.cpp, .python, .javascript] = before ++ target :: after ∧
      (∀ t ∈ before, t.isReserved name = false) ∧ target.isReserved name = true := by
  rw [reservedIn?, Target.all, List.find?_eq_some_iff_append]
  simp only [Bool.not_eq_true']
  constructor
  · rintro ⟨htarget, before, after, hsplit, hbefore⟩
    exact ⟨before, after, hsplit, hbefore, htarget⟩
  · rintro ⟨before, after, hsplit, hbefore, htarget⟩
    exact ⟨htarget, before, after, hsplit, hbefore⟩

theorem Name.check_eq_error {name : String} {e : ModelError} (hid : isIdentifier name = true)
    (h : check name = .error e) :
    ∃ target, e = .reservedName name target ∧ reservedIn? name = some target := by
  have hne : name ≠ "" := by
    rintro rfl
    exact absurd hid (by decide)
  unfold check at h
  rw [if_neg hne, hid] at h
  cases hr : reservedIn? name with
  | none => simp [hr] at h
  | some target =>
    simp only [hr, Bool.not_true, Bool.false_eq_true, if_false, Except.error.injEq] at h
    exact ⟨target, h.symm, rfl⟩

namespace Draft
variable {d : Draft} {e e' : ModelError}

def HasFlaw (d : Draft) : ModelError → Prop
  | .missingName => d.name = none
  | .invalidName _ => False
  | .reservedName name target => d.name = some name ∧ Name.reservedIn? name = some target
  | .invalidInputSize size => d.inputSize.getD 0 = size ∧ size ≤ 0
  | .noLayers => d.layers = []
  | .invalidUnits layer units => d.badLayer? = some (layer, units)

theorem HasFlaw.unique (h : d.HasFlaw e) (h' : d.HasFlaw e') (hstage : e.stage = e'.stage) :
    e = e' := by
  cases e <;> cases e' <;> simp_all [HasFlaw, ModelError.stage]

theorem badLayer?_eq_some {layer : Nat} {units : Int} :
    d.badLayer? = some (layer, units) ↔ ∃ front activation back,
      d.layers = front ++ (units, activation) :: back ∧ layer = front.length + 1 ∧
      (∀ l ∈ front, 0 < l.1) ∧ units ≤ 0 := by
  unfold badLayer?
  rw [Option.map_eq_some_iff]
  constructor
  · rintro ⟨⟨⟨u, activation⟩, i⟩, hfind, heq⟩
    obtain ⟨hbad, before, after, hsplit, hbefore⟩ := List.find?_eq_some_iff_append.mp hfind
    obtain ⟨front, rest, hlayers, rfl, hrest⟩ := List.zipIdx_eq_append_iff.mp hsplit
    obtain ⟨l, back, rfl, hl, -⟩ := List.zipIdx_eq_cons_iff.mp hrest.symm
    cases hl
    cases heq
    refine ⟨front, activation, back, hlayers, by simp, ?_, by simpa using hbad⟩
    intro l hl
    obtain ⟨j, hj⟩ := List.mem_iff_getElem?.mp hl
    have hpos := hbefore (l, j) (List.mk_mem_zipIdx_iff_getElem?.mpr hj)
    simpa using hpos
  · rintro ⟨front, activation, back, hlayers, rfl, hfront, hbad⟩
    refine ⟨((units, activation), front.length), ?_, rfl⟩
    rw [hlayers, List.find?_eq_some_iff_append]
    refine ⟨by simpa using hbad, front.zipIdx, back.zipIdx (front.length + 1), ?_, ?_⟩
    · simp [List.zipIdx_append, List.zipIdx_cons]
    · intro l hl
      have hpos := hfront l.1 (List.fst_mem_of_mem_zipIdx hl)
      simpa using hpos

theorem exists_make {name : String} (hname : Name.check name = .ok ())
    (hsize : 0 < d.inputSize.getD 0) (hlayers : d.layers ≠ []) (hunits : ∀ l ∈ d.layers, 0 < l.1) :
    ∃ m, Model.make name (d.inputSize.getD 0).toNat (d.layers.map fun l => ⟨l.1.toNat, l.2⟩) =
      .ok m := by
  let m : Model := {
    name
    inputSize := (d.inputSize.getD 0).toNat
    layers := d.layers.map fun l => ⟨l.1.toNat, l.2⟩
    name_ok := hname
    inputSize_pos := by omega
    layers_ne_nil := by simpa using hlayers
    units_pos := by
      rw [List.forall_mem_map]
      intro l hl
      exact Int.pos_iff_toNat_pos.mp (hunits l hl) }
  exact ⟨m, Model.make_eq_ok.mpr ⟨rfl, rfl, rfl⟩⟩

theorem no_flaw_of_build {m : Model} (h : d.build = .ok m) : ¬ d.HasFlaw e := by
  obtain ⟨hname, hsize, hlayers⟩ := build_eq_ok.mp h
  have hnames := Name.check_eq_ok_iff.mp m.name_ok
  intro hflaw
  cases e with
  | missingName => simp [HasFlaw, hname] at hflaw
  | invalidName name => exact hflaw
  | reservedName name target =>
    obtain ⟨hname', hreserved⟩ := hflaw
    cases hname.symm.trans hname'
    simp [hnames.2] at hreserved
  | invalidInputSize size =>
    obtain ⟨rfl, hle⟩ := hflaw
    have hpos := m.inputSize_pos
    simp only [hsize, Option.getD_some] at hle
    omega
  | noLayers =>
    rw [HasFlaw, hlayers] at hflaw
    exact m.layers_ne_nil (List.map_eq_nil_iff.mp hflaw)
  | invalidUnits layer units =>
    obtain ⟨name, -, -, hpos, -⟩ := build_eq_ok_cases h
    simp [HasFlaw, badLayer?_eq_none.mpr hpos] at hflaw

theorem hasFlaw_of_build (hid : ∀ name, d.name = some name → Name.isIdentifier name = true)
    (h : d.build = .error e) : d.HasFlaw e ∧ ∀ e', d.HasFlaw e' → e.stage ≤ e'.stage := by
  unfold build at h
  split at h
  · next hname =>
    cases h
    exact ⟨hname, fun e' _ => Nat.zero_le e'.stage⟩
  · next name hname =>
    split at h
    · next e' hcheck =>
      cases h
      obtain ⟨target, rfl, hreserved⟩ := Name.check_eq_error (hid name hname) hcheck
      refine ⟨⟨hname, hreserved⟩, fun e' hflaw => ?_⟩
      cases e' <;> simp_all [HasFlaw, ModelError.stage]
    · next hcheck =>
      have hreserved := (Name.check_eq_ok_iff.mp hcheck).2
      dsimp only at h
      split at h
      · next hsize =>
        cases h
        refine ⟨⟨rfl, hsize⟩, fun e' hflaw => ?_⟩
        cases e' <;> simp_all [HasFlaw, ModelError.stage]
      · next hsize =>
        split at h
        · next hlayers =>
          cases h
          refine ⟨hlayers, fun e' hflaw => ?_⟩
          cases e' <;> simp_all [HasFlaw, ModelError.stage]
          omega
        · next hlayers =>
          split at h
          · next layer units hbad =>
            cases h
            refine ⟨hbad, fun e' hflaw => ?_⟩
            cases e' <;> simp_all [HasFlaw, ModelError.stage]
            omega
          · next hbad =>
            obtain ⟨m, hm⟩ := exists_make hcheck (Int.not_le.mp hsize) hlayers
              (badLayer?_eq_none.mp hbad)
            rw [hm] at h
            cases h

theorem build_eq_error_iff (hid : ∀ name, d.name = some name → Name.isIdentifier name = true) :
    d.build = .error e ↔ d.HasFlaw e ∧ ∀ e', d.HasFlaw e' → e.stage ≤ e'.stage := by
  constructor
  · exact hasFlaw_of_build hid
  · rintro ⟨hflaw, hfirst⟩
    cases hbuild : d.build with
    | ok m => exact absurd hflaw (no_flaw_of_build hbuild)
    | error e' =>
      obtain ⟨hflaw', hfirst'⟩ := hasFlaw_of_build hid hbuild
      have hstage := Nat.le_antisymm (hfirst' e hflaw) (hfirst e' hflaw')
      rw [hflaw'.unique hflaw hstage]

theorem exists_build_iff (hid : ∀ name, d.name = some name → Name.isIdentifier name = true) :
    (∃ m, d.build = .ok m) ↔ ∀ e, ¬ d.HasFlaw e := by
  constructor
  · rintro ⟨m, hm⟩ e
    exact no_flaw_of_build hm
  · intro h
    cases hbuild : d.build with
    | ok m => exact ⟨m, rfl⟩
    | error e => exact absurd (hasFlaw_of_build hid hbuild).1 (h e)

theorem hasFlaw_ofDeclarations {ds : List Declaration} (h : ({} : Declared).Allows ds) :
    (ofDeclarations ds).HasFlaw e ↔ Declaration.Flaw ds e := by
  obtain ⟨hmodel, hinput⟩ := h
  simp only [Option.toList_none, List.length_nil, Nat.zero_add] at hmodel hinput
  rw [ofDeclarations_eq]
  constructor
  · intro hflaw
    cases e with
    | missingName => exact .missingName (List.head?_eq_none_iff.mp hflaw)
    | invalidName name => cases hflaw
    | reservedName name target =>
      obtain ⟨hname, hreserved⟩ := hflaw
      obtain ⟨before, after, hsplit, hbefore, htarget⟩ := Name.reservedIn?_eq_some.mp hreserved
      rw [head?_eq_some_iff_of_length_le hmodel] at hname
      exact .reservedName hname hsplit hbefore htarget
    | invalidInputSize size =>
      obtain ⟨rfl, hle⟩ := hflaw
      cases hsize : (ds.filterMap Declaration.inputSize?).head? with
      | none => exact .missingInput (List.head?_eq_none_iff.mp hsize)
      | some size =>
        simp only [hsize, Option.getD_some] at hle
        exact .inputSize ((head?_eq_some_iff_of_length_le hinput size).mp hsize) hle
    | noLayers => exact .noLayers (List.map_eq_nil_iff.mp hflaw)
    | invalidUnits layer units =>
      obtain ⟨front, activation, back, hlayers, rfl, hfront, hle⟩ := badLayer?_eq_some.mp hflaw
      obtain ⟨front, rest, hsplit, rfl, hrest⟩ := List.map_eq_append_iff.mp hlayers
      obtain ⟨l, back, rfl, hl, -⟩ := List.map_eq_cons_iff.mp hrest
      cases hl
      rw [List.length_map]
      rw [List.forall_mem_map] at hfront
      exact .units hsplit hfront hle
  · intro hflaw
    cases hflaw with
    | missingName hnames => simp [HasFlaw, hnames]
    | reservedName hnames hsplit hbefore htarget =>
      exact ⟨by simp [hnames], Name.reservedIn?_eq_some.mpr ⟨_, _, hsplit, hbefore, htarget⟩⟩
    | missingInput hsizes => simp [HasFlaw, hsizes]
    | inputSize hsizes hle => simp [HasFlaw, hsizes, hle]
    | noLayers hlayers => simp [HasFlaw, hlayers]
    | units hsplit hfront hle =>
      refine badLayer?_eq_some.mpr ⟨_, _, _, by rw [hsplit, List.map_append, List.map_cons], ?_⟩
      exact ⟨by rw [List.length_map], List.forall_mem_map.mpr hfront, hle⟩

end Draft

theorem Token.Reads.isIdentifier {name : String} {lexeme rest : List Char}
    (h : Reads (.identifier name) lexeme rest) : Name.isIdentifier name = true := by
  cases h with
  | identifier hword _ hno => simp [Name.isIdentifier, hword, hno]

namespace Declaration
variable {name : String}

theorem Declares.isIdentifier {s : List Char} (h : Declares s (some (.model name))) :
    Name.isIdentifier name = true := by
  obtain ⟨-, placed, hplaced, hform⟩ := h
  have hmem : .identifier name ∈ (placed.map Placed.token).filter (!·.isTrivia) := by
    generalize (placed.map Placed.token).filter (!·.isTrivia) = ts at hform ⊢
    cases hform
    simp
  obtain ⟨lexeme, rest, hread⟩ := exists_reads_of_tokenize hplaced (List.mem_of_mem_filter hmem)
  exact hread.isIdentifier

theorem isIdentifier_of_mem {lines : List (List Char)} {ds : List (Option Declaration)}
    (h : List.Forall₂ Declares lines ds) (hmem : name ∈ ds.reduceOption.filterMap modelName?) :
    Name.isIdentifier name = true := by
  obtain ⟨d, hd, hname⟩ := List.mem_filterMap.mp hmem
  obtain ⟨s, hs⟩ := exists_declares_of_mem h hd
  cases d with
  | model _ =>
    cases hname
    exact hs.isIdentifier
  | input _ | layer _ _ | close => cases hname

end Declaration

namespace Model
variable {source : String}

theorem read_of_surveyed {ds : List Declaration}
    (h : (Survey.ofLines 1 {} (Text.lines source.toList)).declarations = .ok ds) :
    Model.read source = (Draft.ofDeclarations ds).build.mapError .model := by
  simp only [Model.read, Reading.ofString, Reading.ofSurvey, h]

theorem read_eq_malformedLine {line : Nat} {f : LineFault} :
    Model.read source = .error (.malformedLine line f) ↔
      (Survey.ofLines 1 {} (Text.lines source.toList)).declarations = .error (line, f) := by
  cases h : (Survey.ofLines 1 {} (Text.lines source.toList)).declarations with
  | error e => simp [Model.read, Reading.ofString, Reading.ofSurvey, h, Prod.ext_iff]
  | ok ds =>
    rw [read_of_surveyed h]
    cases (Draft.ofDeclarations ds).build <;> simp [Except.mapError]

end Model

open Declaration (Declares AtFault Faultless Flaw)

/-- Which error a document is rejected with is decided in a fixed order: the
first line at fault if there is one, or else the flaw of the first stage that
its declarations have; and without flaws it is accepted. -/
theorem read_reports_first_error (source : String) :
    (∀ line, (∃ f, Model.read source = .error (.malformedLine line f)) ↔
      ∃ front s back, Text.lines source.toList = front ++ s :: back ∧ line = front.length + 1 ∧
        Faultless front ∧ AtFault front s) ∧
    (Faultless (Text.lines source.toList) →
      ∃ ds, List.Forall₂ Declares (Text.lines source.toList) ds ∧
        (∀ e, Model.read source = .error (.model e) ↔
          Flaw ds.reduceOption e ∧ ∀ e', Flaw ds.reduceOption e' → e.stage ≤ e'.stage) ∧
        ((∃ m, Model.read source = .ok m) ↔ ∀ e, ¬ Flaw ds.reduceOption e)) := by
  constructor
  · intro line
    simp only [Model.read_eq_malformedLine]
    exact Survey.exists_error_iff
  · intro hfaultless
    obtain ⟨declared, hdeclared⟩ := Survey.exists_ok_iff.mpr hfaultless
    obtain ⟨ds, hds, hallows, rfl⟩ := Survey.declares_of_ofLines hdeclared
    have hid : ∀ name, (Draft.ofDeclarations ds.reduceOption).name = some name →
        Name.isIdentifier name = true := by
      intro name hname
      rw [Draft.ofDeclarations_eq] at hname
      exact Declaration.isIdentifier_of_mem hds (List.mem_of_mem_head? hname)
    refine ⟨ds, hds, fun e => ?_, ?_⟩
    · simp only [← Draft.hasFlaw_ofDeclarations hallows, ← Draft.build_eq_error_iff hid]
      rw [Model.read_of_surveyed hdeclared]
      cases (Draft.ofDeclarations ds.reduceOption).build <;> simp [Except.mapError]
    · simp only [← Draft.hasFlaw_ofDeclarations hallows, ← Draft.exists_build_iff hid]
      simp only [Model.read_of_surveyed hdeclared, mapError_eq_ok]

end Feedforward
