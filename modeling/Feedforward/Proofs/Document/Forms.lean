import Feedforward.Document.Declaration

/-! The forms of declarations. `Declaration.Form` lists the tokens that declare
something; reading the tokens of a line accepts these and no others. -/
namespace Feedforward
namespace Assignment
variable {seen : List String} {key : String} {value : Literal}

theorem read_cons (key : String) (value : Literal) (rest : List Token) :
    read (.identifier key :: .delimiter .equal :: .literal value :: rest) =
      .ok ((key, value), rest) :=
  read_eq_ok.mpr rfl

theorem readAll_last {rest : List Token} (hk : key ∉ seen)
    (hrest : rest.head? ≠ some (.delimiter .comma)) :
    readAll seen (.identifier key :: .delimiter .equal :: .literal value :: rest) =
      .ok ([(key, value)], rest) := by
  rw [readAll]
  split
  · next f hf =>
    rw [read_cons] at hf
    cases hf
  · next hf =>
    rw [read_cons] at hf
    cases hf
    rw [if_neg hk]
    split
    · exact absurd rfl hrest
    · rfl

theorem readAll_comma {more : List Token} (hk : key ∉ seen) :
    readAll seen
        (.identifier key :: .delimiter .equal :: .literal value :: .delimiter .comma :: more) =
      (readAll (key :: seen) more).map fun r => ((key, value) :: r.1, r.2) := by
  rw [readAll]
  split
  · next f hf =>
    rw [read_cons] at hf
    cases hf
  · next hf =>
    rw [read_cons] at hf
    cases hf
    rw [if_neg hk]
    dsimp only
    cases readAll (key :: seen) more <;> rfl

def tokens : List Assignment → List Token
  | [] => []
  | [(key, value)] => [.identifier key, .delimiter .equal, .literal value]
  | (key, value) :: pairs =>
    .identifier key :: .delimiter .equal :: .literal value :: .delimiter .comma :: tokens pairs

theorem readAll_tokens_cons {p q : Assignment} {pairs : List Assignment} {rest : List Token}
    (hk : p.1 ∉ seen) :
    readAll seen (tokens (p :: q :: pairs) ++ rest) =
      (readAll (p.1 :: seen) (tokens (q :: pairs) ++ rest)).map fun r => (p :: r.1, r.2) :=
  readAll_comma hk

/-- What the assignments of one line look like: at least one, and no key twice. -/
structure Listed (seen : List String) (pairs : List Assignment) : Prop where
  ne_nil : pairs ≠ []
  nodup : (pairs.map Prod.fst).Nodup
  fresh : ∀ key ∈ pairs.map Prod.fst, key ∉ seen

theorem readAll_sound {seen : List String} {ts rest : List Token} {pairs : List Assignment}
    (h : readAll seen ts = .ok (pairs, rest)) :
    Listed seen pairs ∧ ts = tokens pairs ++ rest ∧ rest.head? ≠ some (.delimiter .comma) := by
  fun_induction readAll seen ts generalizing pairs rest with
  | case1 => cases h
  | case2 => cases h
  | case3 => cases h
  | case4 seen ts key value hk more hr found left hmore _ ih =>
    cases h
    obtain ⟨hlist, rfl, hleft⟩ := ih hmore
    rw [read_eq_ok] at hr
    refine ⟨⟨by simp, ?_, ?_⟩, ?_, hleft⟩
    · have hkey : key ∉ found.map Prod.fst := fun hmem => hlist.fresh key hmem List.mem_cons_self
      exact List.nodup_cons.mpr ⟨hkey, hlist.nodup⟩
    · rw [List.map_cons, List.forall_mem_cons]
      exact ⟨hk, fun k hmem hseen => hlist.fresh k hmem (List.mem_cons_of_mem key hseen)⟩
    · -- A comma promises another assignment, so there is one.
      cases found with
      | nil => exact absurd rfl hlist.ne_nil
      | cons p found => rw [hr]; rfl
  | case5 seen ts key value rest hr hk hread hcomma =>
    cases h
    rw [read_eq_ok] at hr
    refine ⟨⟨by simp, by simp, by simpa using hk⟩, ?_, ?_⟩
    · rw [hr]
      rfl
    · intro hhead
      obtain ⟨more, rfl⟩ := List.head?_eq_some_iff.mp hhead
      exact hcomma more hread rfl .rfl

theorem Listed.tail {p : Assignment} {pairs : List Assignment} (h : Listed seen (p :: pairs))
    (hne : pairs ≠ []) : Listed (p.1 :: seen) pairs := by
  obtain ⟨hp, hnodup⟩ := List.nodup_cons.mp h.nodup
  refine ⟨hne, hnodup, ?_⟩
  intro k hmem hseen
  rcases List.mem_cons.mp hseen with rfl | hseen
  · exact hp hmem
  · exact h.fresh k (List.mem_cons_of_mem _ hmem) hseen

theorem readAll_tokens {seen : List String} {pairs : List Assignment} {rest : List Token}
    (h : Listed seen pairs) (hrest : rest.head? ≠ some (.delimiter .comma)) :
    readAll seen (tokens pairs ++ rest) = .ok (pairs, rest) := by
  induction pairs generalizing seen with
  | nil => exact absurd rfl h.ne_nil
  | cons p pairs ih =>
    have hk : p.1 ∉ seen := h.fresh p.1 List.mem_cons_self
    cases pairs with
    | nil => exact readAll_last hk hrest
    | cons q pairs =>
      rw [readAll_tokens_cons hk, ih (h.tail (by simp))]
      rfl

theorem readAll_eq_ok {seen : List String} {ts rest : List Token} {pairs : List Assignment} :
    readAll seen ts = .ok (pairs, rest) ↔
      Listed seen pairs ∧ ts = tokens pairs ++ rest ∧ rest.head? ≠ some (.delimiter .comma) := by
  constructor
  · exact readAll_sound
  · rintro ⟨hlist, rfl, hrest⟩
    exact readAll_tokens hlist hrest

theorem unknownKey?_eq_none {allowed : List String} {pairs : List Assignment} :
    unknownKey? allowed pairs = none ↔ ∀ key ∈ pairs.map Prod.fst, key ∈ allowed := by
  simp [unknownKey?]

theorem integerValue_eq_ok {pairs : List Assignment} {value : Int} :
    integerValue pairs key = .ok value ↔ pairs.lookup key = some (.integer value) := by
  unfold integerValue
  cases pairs.lookup key with
  | none => simp
  | some l => cases l <;> simp

theorem stringValue_eq_ok {pairs : List Assignment} {content : String} :
    stringValue pairs key = .ok content ↔ pairs.lookup key = some (.string content) := by
  unfold stringValue
  cases pairs.lookup key with
  | none => simp
  | some l => cases l <;> simp

theorem Listed.eq_singleton {pairs : List Assignment} (h : Listed [] pairs)
    (hallowed : ∀ k ∈ pairs.map Prod.fst, k ∈ [key]) (hkey : pairs.lookup key = some value) :
    pairs = [(key, value)] := by
  have hnodup := h.nodup
  match pairs with
  | [] => simp at hkey
  | [(k, v)] => grind
  | (k, v) :: (k', v') :: pairs =>
    have hk : k = key := by simpa using hallowed k (by simp)
    have hk' : k' = key := by simpa using hallowed k' (by simp)
    simp [hk, hk'] at hnodup

theorem Listed.eq_pair {pairs : List Assignment} (h : Listed [] pairs) {key' : String}
    {value' : Literal} (hne : key ≠ key')
    (hallowed : ∀ k ∈ pairs.map Prod.fst, k ∈ [key, key'])
    (hkey : pairs.lookup key = some value) (hkey' : pairs.lookup key' = some value') :
    pairs = [(key, value), (key', value')] ∨ pairs = [(key', value'), (key, value)] := by
  have hnodup := h.nodup
  match pairs with
  | [] => simp at hkey
  | [(k, v)] => grind
  | [(k, v), (k', v')] => grind
  | (k, v) :: (k', v') :: (k'', v'') :: pairs =>
    have hk : k = key ∨ k = key' := by simpa using hallowed k (by simp)
    have hk' : k' = key ∨ k' = key' := by simpa using hallowed k' (by simp)
    have hk'' : k'' = key ∨ k'' = key' := by simpa using hallowed k'' (by simp)
    simp only [List.map_cons, List.nodup_cons, List.mem_cons, not_or] at hnodup
    grind

end Assignment

namespace Declaration
open Line

theorem bind_eq_ok {α β : Type} {x : Except LineFault α} {f : α → Except LineFault β} {b : β} :
    x >>= f = .ok b ↔ ∃ a, x = .ok a ∧ f a = .ok b := by
  cases x <;> simp [bind, Except.bind]

/-- The significant tokens of a declaration. -/
inductive Form : Declaration → List Token → Prop where
  | model (name : String) :
      Form (.model name) [.keyword .model, .identifier name, .delimiter .openBrace]
  | input (size : Int) :
      Form (.input size) [.keyword .input, .delimiter .colon,
        .identifier "size", .delimiter .equal, .literal (.integer size)]
  | layer (units : Int) (activation : String) :
      Form (.layer units activation) [.keyword .layer, .delimiter .colon,
        .identifier "units", .delimiter .equal, .literal (.integer units), .delimiter .comma,
        .identifier "activation", .delimiter .equal, .literal (.string activation)]
  | layerActivationFirst (units : Int) (activation : String) :
      Form (.layer units activation) [.keyword .layer, .delimiter .colon,
        .identifier "activation", .delimiter .equal, .literal (.string activation),
        .delimiter .comma, .identifier "units", .delimiter .equal, .literal (.integer units)]
  | close : Form .close [.delimiter .closeBrace]

def kind : Declaration → LineKind
  | .model _ => .declares .model
  | .input _ => .declares .input
  | .layer _ _ => .declares .layer
  | .close => .closes

theorem readModel_eq_ok {ts : List Token} {d : Declaration} :
    readModel ts = .ok d ↔ Form d ts ∧ d.kind = .declares .model := by
  simp only [readModel, bind_eq_ok, Prod.exists, keyword_eq_ok, identifier_eq_ok,
    delimiter_eq_ok, endOfLine_eq_ok]
  constructor
  · rintro ⟨-, ts₁, rfl, name, ts₂, rfl, -, ts₃, rfl, -, rfl, h⟩
    cases h
    exact ⟨.model name, rfl⟩
  · rintro ⟨hform, hkind⟩
    cases hform with
    | model name => exact ⟨(), _, rfl, name, _, rfl, (), _, rfl, (), rfl, rfl⟩
    | input | layer | layerActivationFirst | close => cases hkind

theorem readClose_eq_ok {ts : List Token} {d : Declaration} :
    readClose ts = .ok d ↔ Form d ts ∧ d.kind = .closes := by
  simp only [readClose, bind_eq_ok, Prod.exists, delimiter_eq_ok, endOfLine_eq_ok]
  constructor
  · rintro ⟨-, ts₁, rfl, -, rfl, h⟩
    cases h
    exact ⟨.close, rfl⟩
  · rintro ⟨hform, hkind⟩
    cases hform with
    | close => exact ⟨(), _, rfl, (), rfl, rfl⟩
    | model | input | layer | layerActivationFirst => cases hkind

theorem readAssignments_eq_ok {k : Keyword} {allowed : List String} {ts : List Token}
    {pairs : List Assignment} :
    readAssignments k allowed ts = .ok pairs ↔
      ts = .keyword k :: .delimiter .colon :: Assignment.tokens pairs ∧
        Assignment.Listed [] pairs ∧ ∀ key ∈ pairs.map Prod.fst, key ∈ allowed := by
  simp only [readAssignments, bind_eq_ok, Prod.exists, keyword_eq_ok, delimiter_eq_ok,
    endOfLine_eq_ok]
  constructor
  · rintro ⟨-, ts₁, rfl, -, ts₂, rfl, found, ts₃, hread, -, rfl, h⟩
    split at h
    · cases h
    · next hunknown =>
      cases h
      obtain ⟨hlist, rfl, -⟩ := Assignment.readAll_eq_ok.mp hread
      rw [List.append_nil]
      exact ⟨rfl, hlist, Assignment.unknownKey?_eq_none.mp hunknown⟩
  · rintro ⟨rfl, hlist, hallowed⟩
    have hread : Assignment.readAll [] (Assignment.tokens pairs) = .ok (pairs, []) :=
      Assignment.readAll_eq_ok.mpr ⟨hlist, by simp, by simp⟩
    refine ⟨(), _, rfl, (), _, rfl, pairs, [], hread, (), rfl, ?_⟩
    rw [Assignment.unknownKey?_eq_none.mpr hallowed]

theorem readInput_eq_ok {ts : List Token} {d : Declaration} :
    readInput ts = .ok d ↔ Form d ts ∧ d.kind = .declares .input := by
  simp only [readInput, bind_eq_ok, readAssignments_eq_ok, Assignment.integerValue_eq_ok]
  constructor
  · rintro ⟨pairs, ⟨rfl, hlist, hallowed⟩, size, hsize, h⟩
    cases h
    rw [hlist.eq_singleton hallowed hsize]
    exact ⟨.input size, rfl⟩
  · rintro ⟨hform, hkind⟩
    cases hform with
    | input size =>
      exact ⟨[("size", .integer size)], ⟨rfl, ⟨by simp, by simp, by simp⟩, by simp⟩, size, rfl, rfl⟩
    | model | layer | layerActivationFirst | close => cases hkind

theorem readLayer_eq_ok {ts : List Token} {d : Declaration} :
    readLayer ts = .ok d ↔ Form d ts ∧ d.kind = .declares .layer := by
  simp only [readLayer, bind_eq_ok, readAssignments_eq_ok, Assignment.integerValue_eq_ok,
    Assignment.stringValue_eq_ok]
  constructor
  · rintro ⟨pairs, ⟨rfl, hlist, hallowed⟩, units, hunits, activation, hactivation, h⟩
    cases h
    rcases hlist.eq_pair (by decide) hallowed hunits hactivation with rfl | rfl
    · exact ⟨.layer units activation, rfl⟩
    · exact ⟨.layerActivationFirst units activation, rfl⟩
  · rintro ⟨hform, hkind⟩
    cases hform with
    | layer units activation =>
      exact ⟨[("units", .integer units), ("activation", .string activation)],
        ⟨rfl, ⟨by simp, by simp, by simp⟩, by simp⟩, units, rfl, activation, rfl, rfl⟩
    | layerActivationFirst units activation =>
      exact ⟨[("activation", .string activation), ("units", .integer units)],
        ⟨rfl, ⟨by simp, by simp, by simp⟩, by simp⟩, units, rfl, activation, rfl, rfl⟩
    | model | input | close => cases hkind

/-- The tokens of a line are read just if they have a form of the line's kind. -/
theorem ofTokens_eq_ok {k : LineKind} {ts : List Token} {d : Declaration} :
    ofTokens k ts = .ok d ↔ Form d ts ∧ d.kind = k := by
  match k with
  | .declares .model => exact readModel_eq_ok
  | .declares .input => exact readInput_eq_ok
  | .declares .layer => exact readLayer_eq_ok
  | .closes => exact readClose_eq_ok

end Declaration
end Feedforward
