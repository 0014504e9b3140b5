import Feedforward.Proofs.Document.Insertion
import Feedforward.Proofs.Document.Order
import Feedforward.Proofs.Document.Padding

/-! The first token of a line and what the line is recognized by. A recognized
line that can be read opens with the token of its kind, so it is never refused
for its first token. The other way round, a line that opens with such a token is
recognized just if no comment stands before it; otherwise it is skipped. -/
namespace Feedforward.Token
open Text (isSpace)
variable {t : Token} {lexeme rest : List Char}

/-- Whether a comment stands before the first token that carries meaning. -/
def commentFirst (ts : List Token) : Bool := (ts.takeWhile isTrivia).any isComment

@[simp] theorem commentFirst_cons (t : Token) (ts : List Token) :
    commentFirst (t :: ts) = (t.isTrivia && (t.isComment || commentFirst ts)) := by
  cases h : t.isTrivia <;> simp [commentFirst, h]

theorem Reads.white (h : Reads t lexeme rest) (ht : t.isTrivia = true)
    (hc : t.isComment = false) : ∀ c ∈ lexeme, isSpace c = true := by
  cases h with
  | blanks _ hrun => exact fun c hmem => Text.isSpace_of_isBlank (hrun.all c hmem)
  | lineFeed | returnAndLineFeed => exact List.all_eq_true.mp (by decide)
  | blockComment | lineComment | hashComment => cases hc
  | string | natural | negative | keyword | identifier | delimiter => cases ht

theorem Reads.comment_start (h : Reads t lexeme rest) (hc : t.isComment = true) :
    ∃ c tail, lexeme = c :: tail ∧ (c = '/' ∨ c = '#') := by
  cases h with
  | blockComment | lineComment => exact ⟨_, _, rfl, .inl rfl⟩
  | hashComment => exact ⟨_, _, rfl, .inr rfl⟩
  | blanks | lineFeed | returnAndLineFeed | string | natural | negative | keyword | identifier
  | delimiter => cases hc

end Feedforward.Token

namespace Feedforward.LineKind
open Lexeme (Cover significant)
variable {k : LineKind} {ls : List Lexeme} {ts : List Token}

theorem ofLine?_comment {c : Char} (h : c = '/' ∨ c = '#') (s : List Char) :
    ofLine? (c :: s) = none := by
  rcases h with rfl | rfl <;> rfl

theorem ofLine?_of_cover (h : Cover ls []) (hts : significant ls = k.token :: ts) :
    ofLine? (ls.flatMap Lexeme.text) =
      if Token.commentFirst (ls.map Lexeme.token) then none else some k := by
  induction ls with
  | nil => cases hts
  | cons l ls ih =>
    obtain ⟨hl, hls⟩ := h
    rw [List.append_nil] at hl
    rw [List.flatMap_cons, List.map_cons, Token.commentFirst_cons]
    cases htrivia : l.token.isTrivia with
    | false =>
      have hk : l.token = k.token := by
        simp only [significant, List.map_cons, htrivia, Bool.not_false, List.filter_cons_of_pos,
          List.cons.injEq] at hts
        exact hts.1
      rw [hk] at hl
      have hopens : Opens k ([] ++ (l.text ++ ls.flatMap Lexeme.text)) :=
        opens_of_reads (by simp) hl
      simpa using ofLine?_eq_some.mpr hopens
    | true =>
      have hrest : significant ls = k.token :: ts := by
        simpa [significant, htrivia] using hts
      cases hcomment : l.token.isComment with
      | true =>
        obtain ⟨c, tail, htext, hc⟩ := hl.comment_start hcomment
        rw [htext, List.cons_append, ofLine?_comment hc]
        rfl
      | false =>
        rw [ofLine?_white_append (hl.white htrivia hcomment), ih hls hrest]
        rfl

theorem significant_of_ofLine? (h : Cover ls []) (hk : ofLine? (ls.flatMap Lexeme.text) = some k) :
    ∃ ts, significant ls = k.token :: ts := by
  obtain ⟨white, lexeme, rest, hs, hw, hread⟩ := (ofLine?_eq_some.mp hk).exists_reads
  exact h.significant_cons hs hw hread k.isTrivia_token

theorem opening_eq_ok {rest : List Token} :
    k.opening ts = .ok ((), rest) ↔ ts = k.token :: rest := by
  cases k with
  | declares k => exact Line.keyword_eq_ok
  | closes => exact Line.delimiter_eq_ok

theorem opening_eq_error {f : LineFault} :
    k.opening ts = .error f ↔ ts.head? ≠ some k.token ∧ f = .unexpected k.wanted ts.head? := by
  constructor
  · intro h
    refine ⟨fun hhead => ?_, Declaration.faults_opening k ts f h⟩
    obtain ⟨rest, rfl⟩ := List.head?_eq_some_iff.mp hhead
    rw [opening_eq_ok.mpr rfl] at h
    cases h
  · rintro ⟨hhead, rfl⟩
    cases h : k.opening ts with
    | error f => rw [Declaration.faults_opening k ts f h]
    | ok r =>
      rw [opening_eq_ok.mp h] at hhead
      exact absurd rfl hhead

theorem ofTokens_of_opening {f : LineFault} (h : k.opening ts = .error f) :
    Declaration.ofTokens k ts = .error f := by
  match k with
  | .declares .model =>
    have hmodel : Line.keyword .model ts = .error f := h
    rw [Declaration.ofTokens, Declaration.readModel, hmodel]
    rfl
  | .declares .input =>
    have hinput : Line.keyword .input ts = .error f := h
    rw [Declaration.ofTokens, Declaration.readInput, Declaration.readAssignments, hinput]
    rfl
  | .declares .layer =>
    have hlayer : Line.keyword .layer ts = .error f := h
    rw [Declaration.ofTokens, Declaration.readLayer, Declaration.readAssignments, hlayer]
    rfl
  | .closes =>
    have hclose : Line.delimiter .closeBrace ts = .error f := h
    rw [Declaration.ofTokens, Declaration.readClose, hclose]
    rfl

end Feedforward.LineKind

namespace Feedforward

theorem Declaration.ofLine?_ne_opening {s : List Char} (k : LineKind) (found : Option Token) :
    ofLine? s ≠ some (.error (.unexpected k.wanted found)) := by
  intro h
  rcases ofLine?_eq_some_error h with ⟨_, _, hf⟩ | ⟨k', ts, hk, hts, hf⟩
  · cases hf
  · obtain ⟨placed, hplaced, rfl⟩ := significant_eq_ok.mp hts
    obtain ⟨ls, hcover, rfl, rfl⟩ := tokenize_eq_ok.mp hplaced
    obtain ⟨ts, hts⟩ := LineKind.significant_of_ofLine? hcover hk
    rw [Placed.sequence_map_token] at hf
    rw [Lexeme.significant] at hts
    rw [hts] at hf
    rcases faultAt_ofTokens k' _ _ hf with hopening | hinner
    · rw [LineKind.opening_eq_ok.mpr rfl] at hopening
      cases hopening
    · cases hinner with
      | unexpected hne => exact hne k rfl

theorem Declared.repeated_of_fault? {seen : Declared} {d : Declaration} {f : LineFault}
    (h : seen.fault? d = some f) : ∃ k first, f = .repeated k first := by
  cases d with
  | model name =>
    obtain ⟨first, -, rfl⟩ := Option.map_eq_some_iff.mp h
    exact ⟨_, first, rfl⟩
  | input size =>
    obtain ⟨first, -, rfl⟩ := Option.map_eq_some_iff.mp h
    exact ⟨_, first, rfl⟩
  | layer _ _ | close => cases h

namespace Survey
variable {line n : Nat} {seen : Declared} {f : LineFault} {lines : List (List Char)}

/-- A survey stops for what is wrong with a line by itself, or for what is declared twice. -/
theorem fault_of_stop (h : (ofLines line seen lines).declarations = .error (n, f)) :
    (∃ s ∈ lines, Declaration.ofLine? s = some (.error f)) ∨ ∃ k first, f = .repeated k first := by
  obtain ⟨front, s, back, rfl, -, ⟨ds, hds⟩, hstop⟩ := exists_stop h
  rw [ofLines_append] at hstop
  have hline := andThen_eq_error hds hstop
  rw [ofLines] at hline
  split at hline
  · cases hline
  · next hs =>
    cases hline
    exact .inl ⟨s, by simp, hs⟩
  · split at hline
    · next hf =>
      cases hline
      exact .inr (Declared.repeated_of_fault? hf)
    · cases hline

end Survey

/-- A recognized line that can be read opens with the token of its kind, so the
check of the first token, with which the reading of every line begins, never
fails; and no document is refused for what that check would report. -/
theorem recognized_opens_with_token :
    (∀ (s : List Char) (k : LineKind) (p : Position) (placed : List Placed),
      LineKind.ofLine? s = some k → (tokenize p s).1 = .ok placed →
        ∃ ts, (placed.map Placed.token).filter (!·.isTrivia) = k.token :: ts ∧
          k.opening ((placed.map Placed.token).filter (!·.isTrivia)) = .ok ((), ts)) ∧
    (∀ (k : LineKind) (ts : List Token) (f : LineFault), k.opening ts = .error f →
      Declaration.ofTokens k ts = .error f ∧ f = .unexpected k.wanted ts.head?) ∧
    ∀ (source : String) (line : Nat) (k : LineKind) (found : Option Token),
      Model.read source ≠ .error (.malformedLine line (.unexpected k.wanted found)) := by
  refine ⟨?_, ?_, ?_⟩
  · intro s k p placed hk hplaced
    obtain ⟨ls, hcover, rfl, rfl⟩ := tokenize_eq_ok.mp hplaced
    obtain ⟨ts, hts⟩ := LineKind.significant_of_ofLine? hcover hk
    rw [Placed.sequence_map_token]
    exact ⟨ts, hts, LineKind.opening_eq_ok.mpr hts⟩
  · intro k ts f h
    exact ⟨LineKind.ofTokens_of_opening h, (LineKind.opening_eq_error.mp h).2⟩
  · intro source line k found h
    rw [Model.read_eq_malformedLine] at h
    rcases Survey.fault_of_stop h with ⟨s, -, hs⟩ | ⟨k', first, hf⟩
    · exact Declaration.ofLine?_ne_opening k found hs
    · cases hf

namespace Reading
open Declaration (declared?)

/-- A document takes a line as what its tokens should declare: the line is not
skipped, the document is refused there if they have no form, and otherwise what
they declare is part of the document, unless it is refused from there on. -/
structure Takes (source : String) (front back : List (List Char)) (k : LineKind)
    (ts : List Token) : Prop where
  not_skipped : front.length + 1 ∉ (ofString source).skipped
  refused : ∀ f, Declaration.ofTokens k ts = .error f →
    Model.read source = .error (.malformedLine (front.length + 1) f)
  counted : ∀ d, Declaration.ofTokens k ts = .ok d → d.kind = k ∧
    ((∃ line f, front.length + 1 ≤ line ∧ Model.read source = .error (.malformedLine line f)) ∨
      Model.read source = (Draft.ofDeclarations
        (front.filterMap declared? ++ d :: back.filterMap declared?)).build.mapError .model)

/-- A document drops a line: it is skipped, and could as well be empty. -/
structure Drops (source : String) (front back : List (List Char)) : Prop where
  skipped : front.length + 1 ∈ (ofString source).skipped
  as_empty : ∀ other : String, Text.lines other.toList = front ++ [] :: back →
    ofString other = ofString source

variable {source : String} {front back : List (List Char)} {s : List Char} {k : LineKind}
  {ts : List Token}

theorem reaches_of_read {m : Model} (h : Model.read source = .ok m) (here : Nat) :
    (ofString source).reaches here = true := by
  unfold Model.read at h
  rw [reaches, h]

theorem exists_ok_of_reaches (hlines : Text.lines source.toList = front ++ back)
    (h : (ofString source).reaches (front.length + 1) = true) :
    ∃ ds, (Survey.ofLines 1 {} front).declarations = .ok ds := by
  unfold ofString at h
  rw [hlines] at h
  cases hfront : (Survey.ofLines 1 {} front).declarations with
  | ok ds => exact ⟨ds, rfl⟩
  | error e =>
    obtain ⟨n, f⟩ := e
    have hn := ((Survey.within_ofLines 1 {} front).stop n f hfront).2
    rw [Survey.ofLines_append, Survey.andThen_of_error hfront] at h
    simp only [reaches, ofSurvey, hfront, decide_eq_true_eq] at h
    omega

theorem mem_skipped_iff {ds : List Declaration}
    (hlines : Text.lines source.toList = front ++ s :: back)
    (hfront : (Survey.ofLines 1 {} front).declarations = .ok ds) :
    front.length + 1 ∈ (ofString source).skipped ↔ Declaration.ofLine? s = none := by
  have hbefore : front.length + 1 ∉ (Survey.ofLines 1 {} front).skipped := by
    intro hmem
    have hn := ((Survey.within_ofLines 1 {} front).skipped _ hmem).2
    omega
  change front.length + 1 ∈ (Survey.ofLines 1 {} (Text.lines source.toList)).skipped ↔ _
  rw [hlines, Survey.ofLines_append, Survey.andThen_of_ok hfront, List.mem_append,
    or_iff_right hbefore, Nat.add_comm 1, Survey.ofLines]
  cases Declaration.ofLine? s with
  | none => simp [Survey.afterSkipped]
  | some declared =>
    refine iff_of_false (fun hmem => ?_) (by simp)
    cases declared with
    | error f => cases hmem
    | ok d =>
      dsimp only at hmem
      split at hmem
      · cases hmem
      · have hn := ((Survey.within_ofLines _ _ back).skipped _ hmem).1
        omega

theorem takes_of_ofLine? (hlines : Text.lines source.toList = front ++ s :: back)
    (hreached : (ofString source).reaches (front.length + 1) = true)
    (hs : Declaration.ofLine? s = some (Declaration.ofTokens k ts)) :
    Takes source front back k ts := by
  obtain ⟨ds, hfront⟩ := exists_ok_of_reaches hlines hreached
  refine ⟨?_, fun f hf => ?_, fun d hd => ⟨(Declaration.ofTokens_eq_ok.mp hd).2, ?_⟩⟩
  · intro hmem
    rw [(mem_skipped_iff hlines hfront).mp hmem] at hs
    cases hs
  · rw [hf] at hs
    rw [Model.read_eq_malformedLine, hlines, Survey.ofLines_append, Survey.andThen_of_ok hfront,
      Survey.ofLines, hs, Nat.add_comm 1]
    rfl
  · rw [hd] at hs
    cases hsurvey : (Survey.ofLines 1 {} (Text.lines source.toList)).declarations with
    | error e =>
      obtain ⟨line, f⟩ := e
      refine .inl ⟨line, f, ?_, Model.read_eq_malformedLine.mpr hsurvey⟩
      rw [hlines, Survey.ofLines_append] at hsurvey
      have hstop := Survey.andThen_eq_error hfront hsurvey
      have hline := ((Survey.within_ofLines _ _ _).stop line f hstop).1
      omega
    | ok es =>
      right
      rw [Model.read_of_surveyed hsurvey]
      obtain ⟨-, -, rfl⟩ := Survey.ofLines_eq_ok_iff.mp hsurvey
      have hdeclared := Declaration.declared?_of_declares (Declaration.ofLine?_eq_some_ok.mp hs)
      rw [hlines, List.filterMap_append, List.filterMap_cons_some hdeclared]

theorem drops_of_ofLine? (hlines : Text.lines source.toList = front ++ s :: back)
    (hreached : (ofString source).reaches (front.length + 1) = true)
    (hs : Declaration.ofLine? s = none) : Drops source front back := by
  obtain ⟨ds, hfront⟩ := exists_ok_of_reaches hlines hreached
  constructor
  · exact (mem_skipped_iff hlines hfront).mpr hs
  · intro other hother
    have hempty : Declaration.ofLine? [] = Declaration.ofLine? s := hs.symm
    unfold ofString
    rw [hlines, hother, Survey.ofLines_replace hempty]

end Reading

/-- A line whose first token that carries meaning is a keyword or a closing
brace is taken as that declaration, but only if no comment stands before the
token: a line with a comment in front is dropped, whatever it declares. -/
theorem reading_by_first_token {source : String} {front back : List (List Char)} {s : List Char}
    {p : Position} {placed : List Placed} {k : LineKind} {ts : List Token}
    (hlines : Text.lines source.toList = front ++ s :: back)
    (hreached : (Reading.ofString source).reaches (front.length + 1) = true)
    (hplaced : (tokenize p s).1 = .ok placed)
    (hfirst : (placed.map Placed.token).filter (!·.isTrivia) = k.token :: ts) :
    (Token.commentFirst (placed.map Placed.token) = false →
      Reading.Takes source front back k (k.token :: ts)) ∧
    (Token.commentFirst (placed.map Placed.token) = true → Reading.Drops source front back) := by
  obtain ⟨ls, hcover, rfl, rfl⟩ := tokenize_eq_ok.mp hplaced
  rw [Placed.sequence_map_token] at hfirst ⊢
  have hkind := LineKind.ofLine?_of_cover hcover hfirst
  constructor
  · intro hcomment
    apply Reading.takes_of_ofLine? hlines hreached
    rw [hcomment] at hkind
    have hsignificant := Declaration.significant_eq_ok.mpr
      ⟨_, tokenize_eq_ok.mpr ⟨ls, hcover, rfl, rfl⟩, rfl⟩
    rw [Placed.sequence_map_token, hfirst] at hsignificant
    unfold Declaration.ofLine?
    rw [hkind, hsignificant]
    rfl
  · intro hcomment
    apply Reading.drops_of_ofLine? hlines hreached
    rw [hcomment] at hkind
    unfold Declaration.ofLine?
    rw [hkind]
    rfl

/-- A second layer is taken, and dropped without an error once a comment stands before it. -/
theorem reading_by_first_token_layer :
    let front := ["model A \x7b", "input: size=1", "layer: units=2, activation=\"relu\""]
    let plain := "layer: units=3, activation=\"none\""
    let commented := "/* wide */ " ++ plain
    let lines (s : String) := front.map String.toList ++ s.toList :: ["\x7d".toList]
    let source (s : String) := Text.unlines (lines s)
    4 ∉ (Reading.ofString (source plain)).skipped ∧
    (∃ m, Model.read (source plain) = .ok m ∧ m.layers = [⟨2, .relu⟩, ⟨3, .none⟩]) ∧
    4 ∈ (Reading.ofString (source commented)).skipped ∧
    Reading.ofString (source "") = Reading.ofString (source commented) ∧
    ∃ m, Model.read (source commented) = .ok m ∧ m.layers = [⟨2, .relu⟩] := by
  intro front plain commented lines source
  let ts : List Token := [.delimiter .colon, .identifier "units", .delimiter .equal,
    .literal (.integer 3), .delimiter .comma, .identifier "activation", .delimiter .equal,
    .literal (.string "none")]
  let placed (s : String) := (tokenize .start s.toList).1.toOption.getD []
  let model (layers : List Layer) (hne : layers ≠ []) (hpos : ∀ l ∈ layers, 0 < l.units) : Model :=
    ⟨"A", 1, layers, by decide +kernel, by decide, hne, hpos⟩
  let two := model [⟨2, .relu⟩, ⟨3, .none⟩] (by decide) (by decide)
  let one := model [⟨2, .relu⟩] (by decide) (by decide)
  have hplain : Model.read (source plain) = .ok two := by decide +kernel
  have hcommented : Model.read (source commented) = .ok one := by decide +kernel
  have hread (s : String) {m : Model} (hm : Model.read (source s) = .ok m)
      (hunbroken : ∀ l ∈ lines s, Text.Unbroken l)
      (hplaced : (tokenize .start s.toList).1 = .ok (placed s))
      (hfirst : ((placed s).map Placed.token).filter (!·.isTrivia) = .keyword .layer :: ts) :=
    reading_by_first_token (k := .declares .layer) (Text.lines_unlines hunbroken)
      (Reading.reaches_of_read hm 4) hplaced hfirst
  obtain ⟨htakes, -⟩ := hread plain hplain (by decide +kernel) (by decide +kernel)
    (by decide +kernel)
  obtain ⟨-, hdrops⟩ := hread commented hcommented (by decide +kernel) (by decide +kernel)
    (by decide +kernel)
  have hdropped := hdrops (by decide +kernel)
  refine ⟨(htakes (by decide +kernel)).not_skipped, ⟨two, hplain, rfl⟩, hdropped.skipped, ?_,
    ⟨one, hcommented, rfl⟩⟩
  exact hdropped.as_empty _ (Text.lines_unlines (by decide +kernel))

end Feedforward
