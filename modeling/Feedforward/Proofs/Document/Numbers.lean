import Feedforward.Proofs.Document.Order
import Feedforward.Proofs.Document.Padding
import Feedforward.Proofs.Document.Reformatting
import Feedforward.Proofs.Lexical.Lookahead
import Feedforward.Proofs.Lexical.Rules

/-! The numbers of a document. A number may be put in the place of another: the
line is read the same up to there, and then as the new number if that is an
integer literal, or not at all. The model is checked for it once more. -/
namespace Feedforward.Text
open Token (Reads)
variable {s rest : List Char} {v : Int}

/-- A decimal numeral and its value: a minus sign or none, and any digits. -/
inductive Numeral : List Char → Int → Prop where
  | natural {digits : List Char} : digits ≠ [] → (∀ c ∈ digits, c.isDigit = true) →
      Numeral digits (Nat.ofDigitChars 10 digits 0)
  | negative {digits : List Char} : digits ≠ [] → (∀ c ∈ digits, c.isDigit = true) →
      Numeral ('-' :: digits) (-(Nat.ofDigitChars 10 digits 0 : Int))

namespace Numeral

theorem reads (h : Numeral s v) (hv : Literal.InRange v) (hrest : Stops Char.isDigit rest) :
    Reads (.literal (.integer v)) s rest := by
  cases h with
  | natural hne hall => exact .natural hne ⟨hall, hrest⟩ hv
  | negative hne hall => exact .negative hne ⟨hall, hrest⟩ hv

theorem scan_fails (h : Numeral s v) (hv : ¬ Literal.InRange v) (hrest : Stops Char.isDigit rest) :
    Token.scan.Fails (s ++ rest) := by
  cases h with
  | natural hne hall => exact Token.scan_fails_of_not_inRange hne ⟨hall, hrest⟩ hv
  | negative _ hall => exact Token.scan_fails_of_negative_not_inRange ⟨hall, hrest⟩ hv

theorem exists_cons (h : Numeral s v) :
    ∃ c tail, s = c :: tail ∧ Token.isLiteralStart c = true := by
  cases h with
  | natural hne hall =>
    cases s with
    | nil => contradiction
    | cons c tail =>
      exact ⟨c, tail, rfl, Reads.isLiteralStart_of_isDigit (hall c List.mem_cons_self)⟩
  | negative => exact ⟨'-', _, rfl, by decide⟩

end Numeral

theorem feed_not_mem_of_mem_lines {s l : List Char} (h : l ∈ lines s) : '\n' ∉ l := by
  obtain ⟨pieces, hdivision, hlines⟩ := exists_division s
  rw [← hlines, List.mem_map] at h
  obtain ⟨piece, hpiece, rfl⟩ := h
  exact hdivision.feed_not_mem piece hpiece

end Feedforward.Text

namespace Feedforward.Token
open Text (Numeral)
variable {t : Token} {lexeme rest : List Char}

theorem Before.numeral {d : List Char} {v w : Int} (h : t.Before (lexeme ++ rest))
    (hread : Reads (.literal (.integer w)) lexeme rest) (ht : t.isTrivia = true)
    (hd : Numeral d v) (tail : List Char) : t.Before (d ++ tail) := by
  have hend (he : atLineEnd (lexeme ++ rest) = true) : False := by
    cases hread.newline_of_atLineEnd he
  cases t with
  | blanks =>
    obtain ⟨c, s, rfl, hc⟩ := hd.exists_cons
    exact (Text.stops_cons _ _ _).mpr (isLiteralStart_disjoint hc).1
  | newline => trivial
  | comment style =>
    cases style with
    | line | hash => exact (hend h).elim
    | block => trivial
  | keyword | identifier | delimiter | literal => cases ht

end Feedforward.Token

namespace Feedforward.Declaration

def withNumber (v : Int) : Declaration → Declaration
  | .input _ => .input v
  | .layer _ activation => .layer v activation
  | .model name => .model name
  | .close => .close

theorem Form.number {d : Declaration} {us vs : List Token} {w : Int}
    (h : Form d (us ++ .literal (.integer w) :: vs)) :
    us.getLast? = some (.delimiter .equal) ∧
      ∀ v, Form (d.withNumber v) (us ++ .literal (.integer v) :: vs) := by
  have hsplit {as bs : List Token} {t : Token}
      (heq : us ++ .literal (.integer w) :: vs = as ++ t :: bs)
      (hno : .literal (.integer w) ∉ as ++ bs) : us = as ∧ vs = bs := by
    rw [List.mem_append, not_or] at hno
    obtain ⟨rfl, -, rfl⟩ := (List.append_cons_inj_of_notMem hno.1 hno.2).mp heq.symm
    exact ⟨rfl, rfl⟩
  generalize hts : us ++ .literal (.integer w) :: vs = ts at h
  have hmem : .literal (.integer w) ∈ ts := by
    rw [← hts]
    simp
  cases h with
  | model name => simp at hmem
  | close => simp at hmem
  | input size =>
    have heq : us ++ .literal (.integer w) :: vs = [.keyword .input, .delimiter .colon,
        .identifier "size", .delimiter .equal] ++ .literal (.integer size) :: [] := hts
    obtain ⟨rfl, rfl⟩ := hsplit heq (by simp)
    exact ⟨rfl, .input⟩
  | layer units activation =>
    have heq : us ++ .literal (.integer w) :: vs = [.keyword .layer, .delimiter .colon,
        .identifier "units", .delimiter .equal] ++ .literal (.integer units) :: [.delimiter .comma,
        .identifier "activation", .delimiter .equal, .literal (.string activation)] := hts
    obtain ⟨rfl, rfl⟩ := hsplit heq (by simp)
    exact ⟨rfl, fun v => .layer v activation⟩
  | layerActivationFirst units activation =>
    have heq : us ++ .literal (.integer w) :: vs = [.keyword .layer, .delimiter .colon,
        .identifier "activation", .delimiter .equal, .literal (.string activation),
        .delimiter .comma, .identifier "units", .delimiter .equal] ++
        .literal (.integer units) :: [] := hts
    obtain ⟨rfl, rfl⟩ := hsplit heq (by simp)
    exact ⟨rfl, fun v => .layerActivationFirst v activation⟩

end Feedforward.Declaration

namespace Feedforward
open Lexeme (Cover significant)
open Text (Numeral)
open LineKind (Opens)

theorem LineKind.Opens.replace {k : LineKind} {ls ms ns : List Lexeme} {unread : List Char}
    (h : Opens k ((ls ++ ms).flatMap Lexeme.text)) (hcover : Cover (ls ++ ms) [])
    (hne : significant ls ≠ []) (hnew : Cover (ls ++ ns) unread) :
    Opens k ((ls ++ ns).flatMap Lexeme.text ++ unread) := by
  obtain ⟨ws, lexeme, ys, rfl, hw, -⟩ := (h.of_append hcover).resolve_left fun hwhite =>
    hne hwhite.1
  rw [List.append_assoc, List.cons_append] at hnew
  have hopens := LineKind.opens_of_reads hw hnew.back.1
  simpa using hopens

/-- A number stands between two parts of a line, as one of its lexemes. -/
def NumberAt (before number after : List Char) : Prop :=
  ∃ ls ms w, Lexeme.cut (before ++ (number ++ after)) =
    (ls ++ ⟨.literal (.integer w), number⟩ :: ms, []) ∧ ls.flatMap Lexeme.text = before

namespace Declaration
variable {before number after numeral : List Char} {d : Declaration} {v : Int}

theorem Declares.exists_lexemes (h : Declares (before ++ (number ++ after)) (some d))
    (hnumber : NumberAt before number after) :
    ∃ ls ms w, ls.flatMap Lexeme.text = before ∧ ms.flatMap Lexeme.text = after ∧
      Cover (ls ++ ⟨.literal (.integer w), number⟩ :: ms) [] ∧
      Form d (Lexeme.significant ls ++ .literal (.integer w) :: Lexeme.significant ms) ∧
      ∃ k, Opens k ((ls ++ ⟨.literal (.integer w), number⟩ :: ms).flatMap Lexeme.text) := by
  obtain ⟨ls, ms, w, hcut, rfl⟩ := hnumber
  obtain ⟨hs, hcover⟩ := Lexeme.cut_eq_iff.mp hcut
  rw [List.append_nil] at hs
  have hafter : ms.flatMap Lexeme.text = after := by
    simpa using hs
  obtain ⟨⟨k, hopens⟩, placed, hplaced, hform⟩ := h
  rw [← hs] at hopens hplaced
  rw [tokenize_of_cover_nil _ hcover] at hplaced
  cases hplaced
  rw [Placed.sequence_map_token] at hform
  refine ⟨ls, ms, w, rfl, hafter, hcover, ?_, k, hopens⟩
  simpa [Lexeme.significant, Token.isTrivia] using hform

theorem before_of_getLast? {ls ms : List Lexeme} {w : Int}
    (hcover : Cover (ls ++ ⟨.literal (.integer w), number⟩ :: ms) [])
    (hequal : (Lexeme.significant ls).getLast? = some (.delimiter .equal))
    (hv : Numeral numeral v) :
    ∀ l ∈ ls.getLast?, l.token.Before (numeral ++ ms.flatMap Lexeme.text) := by
  intro l hl
  obtain ⟨ks, rfl⟩ := List.getLast?_eq_some_iff.mp hl
  rw [List.append_assoc, List.singleton_append] at hcover
  obtain ⟨hread, hnumber, -⟩ := hcover.back
  rw [List.append_nil] at hread hnumber
  rw [List.flatMap_cons] at hread
  by_cases ht : l.token.isTrivia = true
  · exact hread.before.numeral hnumber ht hv _
  · rw [Lexeme.significant_append] at hequal
    have htoken : l.token = .delimiter .equal := by
      simpa [Lexeme.significant, ht] using hequal
    rw [htoken]
    trivial

/-- A line with another numeral in the place of its number declares that one, or
it stops there if the numeral is no integer literal. -/
theorem Declares.withNumeral (h : Declares (before ++ (number ++ after)) (some d))
    (hnumber : NumberAt before number after) (hv : Numeral numeral v) :
    (Literal.InRange v → Declares (before ++ (numeral ++ after)) (some (d.withNumber v))) ∧
    (¬ Literal.InRange v → ofLine? (before ++ (numeral ++ after)) =
      some (.error (.unreadable (String.ofList ((numeral ++ after).take 20))
        (Position.start.counted before).column))) := by
  obtain ⟨ls, ms, w, rfl, rfl, hcover, hform, k, hopens⟩ := h.exists_lexemes hnumber
  obtain ⟨hequal, hforms⟩ := hform.number
  have hbefore := before_of_getLast? hcover hequal hv
  have hne : Lexeme.significant ls ≠ [] := by
    intro hnil
    rw [hnil] at hequal
    cases hequal
  obtain ⟨hread, hms⟩ := hcover.back
  rw [List.append_nil] at hread
  have hstops : Text.Stops Char.isDigit (ms.flatMap Lexeme.text) := hread.before
  constructor
  · intro hrange
    have hnew : Cover (⟨.literal (.integer v), numeral⟩ :: ms) [] :=
      ⟨by simpa using hv.reads hrange hstops, hms⟩
    have hline := hcover.replace hnew (by simpa using hbefore)
    have hyields : Lexeme.Yields (ls.flatMap Lexeme.text ++ (numeral ++ ms.flatMap Lexeme.text))
        (Lexeme.significant ls ++ .literal (.integer v) :: Lexeme.significant ms) [] :=
      ⟨_, by simp, hline, by simp [Lexeme.significant, Token.isTrivia]⟩
    obtain ⟨placed, hplaced, htokens⟩ := hyields.tokenize_eq
    refine ⟨⟨k, by simpa using hopens.replace hcover hne hline⟩, placed, hplaced, ?_⟩
    rw [htokens]
    exact hforms v
  · intro hrange
    have hfails : Cover [] (numeral ++ ms.flatMap Lexeme.text) := hv.scan_fails hrange hstops
    have hline := hcover.replace hfails (by simpa using hbefore)
    have hopens := hopens.replace hcover hne hline
    have hcons : numeral ++ ms.flatMap Lexeme.text ≠ [] := by
      obtain ⟨c, tail, rfl, -⟩ := hv.exists_cons
      simp
    rw [List.append_nil] at hline hopens
    unfold ofLine? Declaration.significant
    rw [LineKind.ofLine?_eq_some.mpr hopens, tokenize_of_cover _ hline hcons]
    rfl

theorem length_layers {lines : List (List Char)} (h : ∀ s ∈ lines, Declares s (declared? s)) :
    ((lines.filterMap declared?).filterMap layer?).length = (layerLines lines).length := by
  rw [layers_eq_of_layerLines, List.filterMap_length_eq_length]
  intro s hs
  rw [layerLines, List.mem_filter, decide_eq_true_iff] at hs
  have hdeclares := h s hs.1
  cases hd : declared? s with
  | none =>
    rw [hd] at hdeclares
    exact absurd (LineKind.ofLine?_eq_some.mp hs.2) (hdeclares _)
  | some d =>
    rw [hd] at hdeclares
    have hkind := hdeclares.ofLine?_eq.symm.trans hs.2
    cases d with
    | layer _ _ => rfl
    | model _ | input _ | close => cases hkind

end Declaration

namespace Draft
variable {name : Option String} {size : Option Int} {m : Model} {v : Int}

theorem build_withSize {layers : List (Int × Activation)} (h : build ⟨name, size, layers⟩ = .ok m) :
    (v ≤ 0 → build ⟨name, some v, layers⟩ = .error (.invalidInputSize v)) ∧
    (0 < v → ∃ m', build ⟨name, some v, layers⟩ = .ok m' ∧ m'.name = m.name ∧
      (m'.inputSize : Int) = v ∧ m'.layers = m.layers) := by
  obtain ⟨rfl, -, hlayers⟩ := build_eq_ok.mp h
  constructor
  · intro hv
    simp only [build, m.name_ok, Option.getD_some, if_pos hv]
  · intro hv
    have hcast : (v.toNat : Int) = v := Int.toNat_of_nonneg (Int.le_of_lt hv)
    let m' : Model := { m with
      inputSize := v.toNat
      inputSize_pos := Int.pos_iff_toNat_pos.mp hv }
    refine ⟨m', build_eq_ok.mpr ⟨rfl, ?_, hlayers⟩, rfl, hcast, rfl⟩
    rw [hcast]

theorem build_withUnits {front back : List (Int × Activation)} {w : Int} {a : Activation}
    (h : build ⟨name, size, front ++ (w, a) :: back⟩ = .ok m) :
    (v ≤ 0 → build ⟨name, size, front ++ (v, a) :: back⟩ =
      .error (.invalidUnits (front.length + 1) v)) ∧
    (0 < v → ∃ m' before l after, build ⟨name, size, front ++ (v, a) :: back⟩ = .ok m' ∧
      m'.name = m.name ∧ m'.inputSize = m.inputSize ∧ m.layers = before ++ l :: after ∧
      before.length = front.length ∧ m'.layers = before ++ ⟨v.toNat, l.activation⟩ :: after) := by
  obtain ⟨rfl, rfl, hlayers⟩ := build_eq_ok.mp h
  obtain ⟨before, rest, hsplit, hfront, hrest⟩ := List.map_eq_append_iff.mp hlayers.symm
  obtain ⟨l, after, rfl, hl, hback⟩ := List.map_eq_cons_iff.mp hrest
  cases hl
  have hunits := m.units_pos
  rw [hsplit, List.forall_mem_append, List.forall_mem_cons] at hunits
  obtain ⟨hbefore, -, hafter⟩ := hunits
  constructor
  · intro hv
    have hpos : ∀ u ∈ front, 0 < u.1 := by
      rw [← hfront, List.forall_mem_map]
      exact fun k hk => Int.natCast_pos.mpr (hbefore k hk)
    have hbad : badLayer? ⟨m.name, (m.inputSize : Int), front ++ (v, l.activation) :: back⟩ =
        some (front.length + 1, v) :=
      badLayer?_eq_some.mpr ⟨front, _, back, rfl, rfl, hpos, hv⟩
    simp [build, m.name_ok, Nat.pos_iff_ne_zero.mp m.inputSize_pos, hbad]
  · intro hv
    have hcast : (v.toNat : Int) = v := Int.toNat_of_nonneg (Int.le_of_lt hv)
    let m' : Model := { m with
      layers := before ++ ⟨v.toNat, l.activation⟩ :: after
      layers_ne_nil := by simp
      units_pos := by
        rw [List.forall_mem_append, List.forall_mem_cons]
        exact ⟨hbefore, Int.pos_iff_toNat_pos.mp hv, hafter⟩ }
    refine ⟨m', before, l, after, build_eq_ok.mpr ⟨rfl, rfl, ?_⟩, rfl, rfl, hsplit, ?_, rfl⟩
    · simp [m', hfront, hback, hcast]
    · rw [← hfront, List.length_map]

end Draft

open Declaration (Declares declared? layerLines)

theorem Declared.Allows.withNumber {seen : Declared} {ds es : List Declaration} {d : Declaration}
    (h : seen.Allows (ds ++ d :: es)) (v : Int) : seen.Allows (ds ++ d.withNumber v :: es) := by
  unfold Allows at h ⊢
  simp only [List.filterMap_append, List.length_append] at h ⊢
  cases d <;> exact h

theorem Declared.Allows.front {seen : Declared} {ds es : List Declaration}
    (h : seen.Allows (ds ++ es)) : seen.Allows ds := by
  unfold Allows at h ⊢
  simp only [List.filterMap_append, List.length_append] at h
  omega

theorem Declared.Allows.no_input_before {seen : Declared} {ds es : List Declaration} {v : Int}
    (h : seen.Allows (ds ++ .input v :: es)) : ds.filterMap Declaration.inputSize? = [] := by
  obtain ⟨-, hinput⟩ := h
  have hone : ((.input v :: es).filterMap Declaration.inputSize?).length =
      (es.filterMap Declaration.inputSize?).length + 1 := rfl
  rw [List.filterMap_append, List.length_append, hone] at hinput
  exact List.eq_nil_of_length_eq_zero (by omega)

namespace Draft
variable {m : Model} {ds es : List Declaration} {v w : Int}

theorem ofDeclarations_input (h : ds.filterMap Declaration.inputSize? = []) (v : Int) :
    ofDeclarations (ds ++ .input v :: es) =
      ⟨((ds ++ es).filterMap Declaration.modelName?).head?, some v,
        ((ds ++ es).filterMap Declaration.layer?).map fun l => (l.1, Activation.ofName l.2)⟩ := by
  rw [ofDeclarations_eq]
  simp only [List.filterMap_append, h]
  rfl

theorem ofDeclarations_layer (ds es : List Declaration) (v : Int) (activation : String) :
    ofDeclarations (ds ++ .layer v activation :: es) =
      ⟨((ds ++ es).filterMap Declaration.modelName?).head?,
        ((ds ++ es).filterMap Declaration.inputSize?).head?,
        ((ds.filterMap Declaration.layer?).map fun l => (l.1, Activation.ofName l.2)) ++
          (v, Activation.ofName activation) ::
          (es.filterMap Declaration.layer?).map fun l => (l.1, Activation.ofName l.2)⟩ := by
  rw [ofDeclarations_eq]
  simp only [List.filterMap_append, List.map_append]
  rfl

theorem build_input (hallows : ({} : Declared).Allows (ds ++ .input w :: es))
    (h : (ofDeclarations (ds ++ .input w :: es)).build = .ok m) :
    (v ≤ 0 → (ofDeclarations (ds ++ .input v :: es)).build = .error (.invalidInputSize v)) ∧
    (0 < v → ∃ m', (ofDeclarations (ds ++ .input v :: es)).build = .ok m' ∧ m'.name = m.name ∧
      (m'.inputSize : Int) = v ∧ m'.layers = m.layers) := by
  have hno := hallows.no_input_before
  rw [ofDeclarations_input hno] at h ⊢
  exact build_withSize h

theorem build_layer {activation : String}
    (h : (ofDeclarations (ds ++ .layer w activation :: es)).build = .ok m) :
    (v ≤ 0 → (ofDeclarations (ds ++ .layer v activation :: es)).build =
      .error (.invalidUnits ((ds.filterMap Declaration.layer?).length + 1) v)) ∧
    (0 < v → ∃ m' ls l ls', (ofDeclarations (ds ++ .layer v activation :: es)).build = .ok m' ∧
      m'.name = m.name ∧ m'.inputSize = m.inputSize ∧ m.layers = ls ++ l :: ls' ∧
      ls.length = (ds.filterMap Declaration.layer?).length ∧
      m'.layers = ls ++ ⟨v.toNat, l.activation⟩ :: ls') := by
  rw [ofDeclarations_layer] at h ⊢
  simpa using build_withUnits h

end Draft

theorem Position.column_counted {s : List Char} (h : '\n' ∉ s) :
    (Position.start.counted s).column = s.length + 1 := by
  unfold counted
  rw [if_neg h]
  exact Nat.add_comm 1 s.length

namespace Model
variable {source source' : String} {m : Model}

theorem declares_of_read (h : Model.read source = .ok m) :
    (∀ s ∈ Text.lines source.toList, Declares s (declared? s)) ∧
      ({} : Declared).Allows ((Text.lines source.toList).filterMap declared?) ∧
      (Draft.ofDeclarations ((Text.lines source.toList).filterMap declared?)).build = .ok m := by
  cases hsurvey : (Survey.ofLines 1 {} (Text.lines source.toList)).declarations with
  | error e =>
    obtain ⟨line, f⟩ := e
    rw [read_eq_malformedLine.mpr hsurvey] at h
    cases h
  | ok ds =>
    rw [read_of_surveyed hsurvey, mapError_eq_ok] at h
    obtain ⟨hlines, hallows, rfl⟩ := Survey.ofLines_eq_ok_iff.mp hsurvey
    exact ⟨hlines, hallows, h⟩

theorem read_of_line {front back : List (List Char)} {line : List Char}
    (hlines : Text.lines source.toList = front ++ line :: back)
    (hfront : ∀ s ∈ front, Declares s (declared? s))
    (hback : ∀ s ∈ back, Declares s (declared? s)) :
    (∀ d, Declares line (some d) →
      ({} : Declared).Allows (front.filterMap declared? ++ d :: back.filterMap declared?) →
      Model.read source = (Draft.ofDeclarations
        (front.filterMap declared? ++ d :: back.filterMap declared?)).build.mapError .model) ∧
    (∀ f, Declaration.ofLine? line = some (.error f) →
      ({} : Declared).Allows (front.filterMap declared?) →
      Model.read source = .error (.malformedLine (front.length + 1) f)) := by
  constructor
  · intro d hd hallows
    have hdeclared : (Text.lines source.toList).filterMap declared? =
        front.filterMap declared? ++ d :: back.filterMap declared? := by
      rw [hlines, List.filterMap_append,
        List.filterMap_cons_some (Declaration.declared?_of_declares hd)]
    rw [← hdeclared] at hallows ⊢
    apply read_of_surveyed
    refine Survey.ofLines_eq_ok_iff.mpr ⟨?_, hallows, rfl⟩
    rw [hlines, List.forall_mem_append, List.forall_mem_cons,
      Declaration.declared?_of_declares hd]
    exact ⟨hfront, hd, hback⟩
  · intro f hf hallows
    have hreduce : (front.map declared?).reduceOption = front.filterMap declared? := by
      rw [List.reduceOption, List.filterMap_map]
      rfl
    rw [← hreduce] at hallows
    have hstop := Survey.ofLines_stopped (Declaration.forall₂_declares_iff.mpr ⟨hfront, rfl⟩)
      hallows hf back 1
    rw [read_eq_malformedLine, hlines, hstop, Nat.add_comm]

section
variable {front back : List (List Char)} {before number after numeral : List Char} {k : Keyword}
  {v : Int}

theorem exists_declaration_withNumber (h : Model.read source = .ok m)
    (hlines : Text.lines source.toList = front ++ (before ++ (number ++ after)) :: back)
    (hk : LineKind.ofLine? (before ++ (number ++ after)) = some (.declares k))
    (hnumber : NumberAt before number after) (hv : Numeral numeral v)
    (hlines' : Text.lines source'.toList = front ++ (before ++ (numeral ++ after)) :: back) :
    ∃ d ds es, d.kind = .declares k ∧ ({} : Declared).Allows (ds ++ d :: es) ∧
      (Draft.ofDeclarations (ds ++ d :: es)).build = .ok m ∧
      (ds.filterMap Declaration.layer?).length = (layerLines front).length ∧
      (-2 ^ 63 ≤ v → v ≤ 2 ^ 63 - 1 → Model.read source' =
        (Draft.ofDeclarations (ds ++ d.withNumber v :: es)).build.mapError .model) ∧
      (¬ (-2 ^ 63 ≤ v ∧ v ≤ 2 ^ 63 - 1) →
        Model.read source' = .error (.malformedLine (front.length + 1)
          (.unreadable (String.ofList ((numeral ++ after).take 20)) (before.length + 1)))) := by
  obtain ⟨hdeclares, hallows, hbuild⟩ := declares_of_read h
  have hmem : before ++ (number ++ after) ∈ Text.lines source.toList := by simp [hlines]
  have hfeed : '\n' ∉ before := fun hbefore =>
    Text.feed_not_mem_of_mem_lines hmem (List.mem_append_left _ hbefore)
  rw [hlines, List.forall_mem_append, List.forall_mem_cons] at hdeclares
  obtain ⟨hfront, hline, hback⟩ := hdeclares
  obtain ⟨d, hd⟩ : ∃ d, declared? (before ++ (number ++ after)) = some d := by
    cases hd : declared? (before ++ (number ++ after)) with
    | some d => exact ⟨d, rfl⟩
    | none =>
      rw [hd] at hline
      exact absurd (LineKind.ofLine?_eq_some.mp hk) (hline _)
  rw [hd] at hline
  rw [hlines, List.filterMap_append, List.filterMap_cons_some hd] at hallows hbuild
  obtain ⟨hnew, hstop⟩ := hline.withNumeral hnumber hv
  obtain ⟨hread, hfault⟩ := read_of_line hlines' hfront hback
  rw [Token.Rule.inRange_iff] at hnew hstop
  refine ⟨d, _, _, Option.some.inj (hline.ofLine?_eq.symm.trans hk), hallows, hbuild,
    Declaration.length_layers hfront, ?_, ?_⟩
  · intro hleast hgreatest
    exact hread _ (hnew ⟨hleast, hgreatest⟩) (hallows.withNumber v)
  · intro hrange
    rw [hfault _ (hstop hrange) hallows.front, Position.column_counted hfeed]

/-- A number of a document can be any other. What the document is read as then
depends on the value alone: without truncation it is that of the model, or it is
refused because it is not positive, or because it is no integer literal. -/
theorem read_withNumeral (h : Model.read source = .ok m)
    (hlines : Text.lines source.toList = front ++ (before ++ (number ++ after)) :: back)
    (hk : LineKind.ofLine? (before ++ (number ++ after)) = some (.declares k))
    (hnumber : NumberAt before number after) (hv : Numeral numeral v)
    (hlines' : Text.lines source'.toList = front ++ (before ++ (numeral ++ after)) :: back) :
    (¬ (-2 ^ 63 ≤ v ∧ v ≤ 2 ^ 63 - 1) →
      Model.read source' = .error (.malformedLine (front.length + 1)
        (.unreadable (String.ofList ((numeral ++ after).take 20)) (before.length + 1)))) ∧
    (k = .input →
      (-2 ^ 63 ≤ v → v ≤ 0 → Model.read source' = .error (.model (.invalidInputSize v))) ∧
      (1 ≤ v → v ≤ 2 ^ 63 - 1 → ∃ m', Model.read source' = .ok m' ∧ m'.name = m.name ∧
        (m'.inputSize : Int) = v ∧ m'.layers = m.layers)) ∧
    (k = .layer →
      (-2 ^ 63 ≤ v → v ≤ 0 → Model.read source' =
        .error (.model (.invalidUnits ((layerLines front).length + 1) v))) ∧
      (1 ≤ v → v ≤ 2 ^ 63 - 1 → ∃ m' ls l ls', Model.read source' = .ok m' ∧ m'.name = m.name ∧
        m'.inputSize = m.inputSize ∧ m.layers = ls ++ l :: ls' ∧
        ls.length = (layerLines front).length ∧
        m'.layers = ls ++ ⟨v.toNat, l.activation⟩ :: ls')) := by
  obtain ⟨d, ds, es, hkind, hallows, hbuild, hlength, hread, hfault⟩ :=
    exists_declaration_withNumber h hlines hk hnumber hv hlines'
  refine ⟨hfault, ?_, ?_⟩
  · rintro rfl
    cases d with
    | model _ | layer _ _ | close => cases hkind
    | input size =>
      obtain ⟨hbad, hgood⟩ := Draft.build_input (v := v) hallows hbuild
      constructor
      · intro hleast hv
        rw [hread hleast (by omega), Declaration.withNumber, hbad hv]
        rfl
      · intro hv hgreatest
        obtain ⟨m', hm', hm⟩ := hgood (by omega)
        rw [hread (by omega) hgreatest, Declaration.withNumber, hm']
        exact ⟨m', rfl, hm⟩
  · rintro rfl
    cases d with
    | model _ | input _ | close => cases hkind
    | layer units activation =>
      obtain ⟨hbad, hgood⟩ := Draft.build_layer (v := v) hbuild
      rw [hlength] at hbad hgood
      constructor
      · intro hleast hv
        rw [hread hleast (by omega), Declaration.withNumber, hbad hv]
        rfl
      · intro hv hgreatest
        obtain ⟨m', ls, l, ls', hm', hm⟩ := hgood (by omega)
        rw [hread (by omega) hgreatest, Declaration.withNumber, hm']
        exact ⟨m', ls, l, ls', rfl, hm⟩

end

/-- The units of a second layer: zeros in front, a zero with a sign, and one more
than the greatest integer. -/
theorem read_withNumeral_second_layer :
    let front := ["model A \x7b", "input: size=3", "layer: units=4, activation=\"relu\""]
    let lines (numeral : String) := front.map String.toList ++
      ("layer: units= ".toList ++ (numeral.toList ++ ", activation=\"none\"".toList)) ::
        ["\x7d".toList]
    let source (numeral : String) := Text.unlines (lines numeral)
    (∃ m, Model.read (source "5") = .ok m ∧ m.layers = [⟨4, .relu⟩, ⟨5, .none⟩]) ∧
    (∃ m, Model.read (source "007") = .ok m ∧ m.layers = [⟨4, .relu⟩, ⟨7, .none⟩]) ∧
    Model.read (source "-00") = .error (.model (.invalidUnits 2 0)) ∧
    Model.read (source "9223372036854775808") =
      .error (.malformedLine 4 (.unreadable "9223372036854775808," 15)) := by
  intro front lines source
  let m : Model := ⟨"A", 3, [⟨4, .relu⟩, ⟨5, .none⟩], by decide +kernel, by decide, by decide,
    by decide⟩
  have hread : Model.read (source "5") = .ok m := by decide +kernel
  have hlines : Text.lines (source "5").toList = lines "5" :=
    Text.lines_unlines (by decide +kernel)
  have hk : LineKind.ofLine? ("layer: units= ".toList ++
      ("5".toList ++ ", activation=\"none\"".toList)) = some (.declares .layer) := by
    decide +kernel
  have hnumber : NumberAt "layer: units= ".toList "5".toList ", activation=\"none\"".toList := by
    refine ⟨(Lexeme.cut "layer: units= ".toList).1,
      (Lexeme.cut ", activation=\"none\"".toList).1, 5, ?_, ?_⟩ <;> decide +kernel
  have hlayers : (layerLines (front.map String.toList)).length = 1 := by decide +kernel
  have hwith (numeral : String) {v : Int} (hv : Numeral numeral.toList v)
      (hunbroken : ∀ l ∈ lines numeral, Text.Unbroken l) :=
    read_withNumeral hread hlines hk hnumber hv (Text.lines_unlines hunbroken)
  have hseven : Numeral "007".toList 7 :=
    .natural (by decide) (List.all_eq_true.mp (by decide))
  have hzero : Numeral "-00".toList 0 :=
    .negative (by decide) (List.all_eq_true.mp (by decide))
  have hgreat : Numeral "9223372036854775808".toList (2 ^ 63) :=
    .natural (by decide) (List.all_eq_true.mp (by decide))
  refine ⟨⟨m, hread, rfl⟩, ?_, ?_, ?_⟩
  · obtain ⟨m', ls, l, ls', hm', -, -, hm, hls, hm'_layers⟩ :=
      ((hwith "007" hseven (by decide +kernel)).2.2 rfl).2 (by decide) (by decide)
    rw [hlayers, List.length_eq_one_iff] at hls
    obtain ⟨first, rfl⟩ := hls
    cases hm
    exact ⟨m', hm', hm'_layers⟩
  · have hbad := ((hwith "-00" hzero (by decide +kernel)).2.2 rfl).1 (by decide) (by decide)
    rwa [hlayers] at hbad
  · exact (hwith "9223372036854775808" hgreat (by decide +kernel)).1 (by decide)

end Model
end Feedforward
