import Feedforward.Proofs.Document.Order
import Feedforward.Proofs.Lexical.Display

/-! Names as tokens. A name passes the check, but for the words that a target
keeps for itself, just if it is one identifier; and since a document can only
name its model by an identifier, nothing else is ever wrong with that name. -/
namespace Feedforward
namespace Name
variable {name : String}

theorem isIdentifier_iff_check : isIdentifier name = true ↔
    check name ≠ .error .missingName ∧ ∀ n, check name ≠ .error (.invalidName n) := by
  constructor
  · intro hid
    constructor
    · intro h
      obtain ⟨target, he, -⟩ := check_eq_error hid h
      cases he
    · intro n h
      obtain ⟨target, he, -⟩ := check_eq_error hid h
      cases he
  · rintro ⟨hmissing, hinvalid⟩
    by_contra hid
    by_cases hempty : name = ""
    · apply hmissing
      rw [check, if_pos hempty]
    · apply hinvalid name
      rw [check, if_neg hempty, if_pos (by simpa using hid)]

theorem reads_of_isIdentifier (h : isIdentifier name = true) :
    Token.Reads (.identifier name) name.toList [] := by
  rw [isIdentifier, Bool.and_eq_true, Option.isNone_iff_eq_none] at h
  have hread := Token.Reads.identifier h.1 (Text.stops_nil Token.isWordPart)
    (by rw [String.ofList_toList]; exact h.2)
  rwa [String.ofList_toList] at hread

theorem isIdentifier_iff_tokenize (p : Position) : isIdentifier name = true ↔
    (tokenize p name.toList).1.map (List.map Placed.token) = .ok [.identifier name] := by
  constructor
  · intro hid
    have hcover : Lexeme.Cover [⟨.identifier name, name.toList⟩] [] :=
      ⟨reads_of_isIdentifier hid, Token.scan_nil_fails⟩
    obtain ⟨ts, hts, htokens⟩ := tokenize_of_cover_map (p := p) hcover
    rw [List.flatMap_singleton] at hts
    rw [hts, Except.map, htokens]
    rfl
  · intro h
    cases hts : (tokenize p name.toList).1 with
    | error u =>
      rw [hts] at h
      cases h
    | ok ts =>
      rw [hts] at h
      have htokens : ts.map Placed.token = [.identifier name] := Except.ok.inj h
      obtain ⟨lexeme, rest, hread⟩ := exists_reads_of_tokenize hts
        (show .identifier name ∈ ts.map Placed.token by simp [htokens])
      exact hread.isIdentifier

end Name

namespace Declaration

theorem modelName?_eq_none {s : List Char} {d : Option Declaration} (h : Declares s d) :
    d.bind modelName? = none ↔ LineKind.ofLine? s ≠ some (.declares .model) := by
  cases d with
  | none =>
    have hnone := LineKind.ofLine?_eq_none.mpr h
    simp [hnone]
  | some d =>
    rw [h.ofLine?_eq]
    cases d <;> simp [modelName?, kind]

theorem modelNames_eq_nil {lines : List (List Char)}
    (h : ∀ s ∈ lines, Declares s (declared? s)) :
    (lines.filterMap declared?).filterMap modelName? = [] ↔
      ∀ s ∈ lines, LineKind.ofLine? s ≠ some (.declares .model) := by
  rw [List.filterMap_filterMap, List.filterMap_eq_nil_iff]
  exact forall₂_congr fun s hs => modelName?_eq_none (h s hs)

end Declaration

namespace Survey
open Declaration (Declares declared?)

theorem isIdentifier_of_draft {lines : List (List Char)} {ds : List Declaration}
    (h : (ofLines 1 {} lines).declarations = .ok ds) {name : String}
    (hname : (Draft.ofDeclarations ds).name = some name) : Name.isIdentifier name = true := by
  obtain ⟨hlines, -, rfl⟩ := ofLines_eq_ok_iff.mp h
  rw [Draft.ofDeclarations_eq] at hname
  obtain ⟨d, hd, hmodel⟩ := List.mem_filterMap.mp (List.mem_of_mem_head? hname)
  obtain ⟨s, hs, hdeclared⟩ := List.mem_filterMap.mp hd
  cases d with
  | model _ =>
    cases hmodel
    exact (Declaration.declared?_eq_some.mp hdeclared).isIdentifier
  | input _ | layer _ _ | close => cases hmodel

end Survey

theorem Draft.build_eq_missingName {d : Draft}
    (hid : ∀ name, d.name = some name → Name.isIdentifier name = true) :
    d.build = .error .missingName ↔ d.name = none := by
  rw [build_eq_error_iff hid]
  exact and_iff_left fun e _ => Nat.zero_le e.stage

namespace Model
variable {source : String}

theorem read_eq_model_error {e : ModelError} :
    Model.read source = .error (.model e) ↔
      ∃ ds, (Survey.ofLines 1 {} (Text.lines source.toList)).declarations = .ok ds ∧
        (Draft.ofDeclarations ds).build = .error e := by
  cases h : (Survey.ofLines 1 {} (Text.lines source.toList)).declarations with
  | error f => simp [Model.read, Reading.ofString, Reading.ofSurvey, h]
  | ok ds =>
    rw [read_of_surveyed h]
    cases hbuild : (Draft.ofDeclarations ds).build <;> simp [Except.mapError, hbuild]

theorem exists_surveyed_iff :
    (∃ ds, (Survey.ofLines 1 {} (Text.lines source.toList)).declarations = .ok ds) ↔
      ∀ line f, Model.read source ≠ .error (.malformedLine line f) := by
  simp only [ne_eq, read_eq_malformedLine]
  cases (Survey.ofLines 1 {} (Text.lines source.toList)).declarations with
  | error e => exact iff_of_false (by simp) fun h => h e.1 e.2 rfl
  | ok ds => simp

end Model

/-- A name is refused as missing or as no name just if it is not one identifier
token. In documents no name is refused like that, and a name is missing just if
no line is recognized as a model line and no line is at fault. -/
theorem Name.check_agrees_with_tokenize :
    (∀ (name : String) (p : Position),
      (Name.check name ≠ .error .missingName ∧ ∀ n, Name.check name ≠ .error (.invalidName n)) ↔
        (tokenize p name.toList).1.map (List.map Placed.token) = .ok [.identifier name]) ∧
    ∀ source : String,
      (∀ name, Model.read source ≠ .error (.model (.invalidName name))) ∧
      (Model.read source = .error (.model .missingName) ↔
        (∀ line f, Model.read source ≠ .error (.malformedLine line f)) ∧
          ∀ s ∈ Text.lines source.toList, LineKind.ofLine? s ≠ some (.declares .model)) := by
  refine ⟨fun name p => ?_, fun source => ⟨?_, ?_⟩⟩
  · rw [← isIdentifier_iff_check, isIdentifier_iff_tokenize p]
  · intro name h
    obtain ⟨ds, hds, hbuild⟩ := Model.read_eq_model_error.mp h
    exact (Draft.hasFlaw_of_build (fun n => Survey.isIdentifier_of_draft hds) hbuild).1
  · rw [← Model.exists_surveyed_iff, Model.read_eq_model_error, ← exists_and_right]
    apply exists_congr
    intro ds
    apply and_congr_right
    intro hds
    obtain ⟨hlines, -, rfl⟩ := Survey.ofLines_eq_ok_iff.mp hds
    rw [Draft.build_eq_missingName fun n => Survey.isIdentifier_of_draft hds,
      Draft.ofDeclarations_eq, List.head?_eq_none_iff, Declaration.modelNames_eq_nil hlines]

end Feedforward
