import Feedforward.Proofs.Document.Forms

/-! What can be wrong with the tokens of a line, said once for each of the
readers that they go through. A line is at fault with its first token, or with
something after it that no first token could be mistaken for. -/
namespace Feedforward

namespace LineKind

def wanted : LineKind → Wanted
  | .declares k => .keyword k
  | .closes => .delimiter .closeBrace

def opening : LineKind → List Token → Except LineFault (Unit × List Token)
  | .declares k => Line.keyword k
  | .closes => Line.delimiter .closeBrace

end LineKind

/-- What can be wrong with a line after its first token. -/
inductive LineFault.Inner : LineFault → Prop where
  | unexpected {wanted : Wanted} {found : Option Token} : (∀ k : LineKind, wanted ≠ k.wanted) →
      Inner (.unexpected wanted found)
  | trailing {found : Token} : Inner (.trailing found)
  | duplicateKey {key : String} : Inner (.duplicateKey key)
  | unknownKey {key : String} : Inner (.unknownKey key)
  | missingKey {key : String} : Inner (.missingKey key)
  | notInteger {key : String} {found : Literal} : Inner (.notInteger key found)
  | notString {key : String} {found : Literal} : Inner (.notString key found)

namespace Line
open LineFault (Inner)
variable {α β : Type} {P : LineFault → Prop}

def Faults (P : LineFault → Prop) (x : Except LineFault α) : Prop := ∀ f, x = .error f → P f

theorem faults_ok (a : α) : Faults P (.ok a) := by
  intro f h
  cases h

theorem faults_error {f : LineFault} (h : P f) : Faults P (.error f : Except LineFault α) := by
  intro f' h'
  cases h'
  exact h

theorem Faults.bind {x : Except LineFault α} {g : α → Except LineFault β} (hx : Faults P x)
    (hg : ∀ a, Faults P (g a)) : Faults P (x >>= g) := by
  cases x with
  | error f => exact faults_error (hx f rfl)
  | ok a => exact hg a

theorem faults_expect {wanted : Wanted} {ts : List Token} (h : P (.unexpected wanted ts.head?))
    (accept : Token → Option α) : Faults P (expect wanted accept ts) := by
  cases ts with
  | nil => exact faults_error h
  | cons t ts =>
    rw [expect]
    split
    · exact faults_ok _
    · exact faults_error h

theorem inner_identifier (ts : List Token) : Faults Inner (identifier ts) :=
  faults_expect (.unexpected fun k => by cases k <;> nofun) _

theorem inner_literal (ts : List Token) : Faults Inner (literal ts) :=
  faults_expect (.unexpected fun k => by cases k <;> nofun) _

theorem inner_delimiter {d : Delimiter} (h : d ≠ .closeBrace) (ts : List Token) :
    Faults Inner (delimiter d ts) := by
  refine faults_expect (.unexpected fun k => ?_) _
  cases k with
  | declares k => nofun
  | closes => exact fun heq => h (Wanted.delimiter.inj heq)

theorem inner_endOfLine (ts : List Token) : Faults Inner (endOfLine ts) := by
  cases ts with
  | nil => exact faults_ok _
  | cons t ts => exact faults_error .trailing

end Line

namespace Assignment
open Line (Faults faults_ok faults_error)
open LineFault (Inner)

theorem inner_read (ts : List Token) : Faults Inner (read ts) := by
  rw [read]
  split
  · next f h => exact faults_error (Line.inner_identifier _ f h)
  · split
    · next f h => exact faults_error (Line.inner_delimiter (by decide) _ f h)
    · split
      · next f h => exact faults_error (Line.inner_literal _ f h)
      · exact faults_ok _

theorem inner_readAll (seen : List String) (ts : List Token) : Faults Inner (readAll seen ts) := by
  fun_induction readAll seen ts with
  | case1 seen ts f h => exact faults_error (inner_read ts f h)
  | case2 => exact faults_error .duplicateKey
  | case3 seen ts key value hk more hr f h hread ih => exact faults_error (ih f h)
  | case4 => exact faults_ok _
  | case5 => exact faults_ok _

theorem inner_integerValue (pairs : List Assignment) (key : String) :
    Faults Inner (integerValue pairs key) := by
  rw [integerValue]
  split
  · exact faults_error .missingKey
  · exact faults_ok _
  · exact faults_error .notInteger

theorem inner_stringValue (pairs : List Assignment) (key : String) :
    Faults Inner (stringValue pairs key) := by
  rw [stringValue]
  split
  · exact faults_error .missingKey
  · exact faults_ok _
  · exact faults_error .notString

end Assignment

namespace Declaration
open Line (Faults faults_ok faults_error faults_expect)
open LineFault (Inner)
variable {k : LineKind} {ts : List Token}

theorem faults_opening (k : LineKind) (ts : List Token) :
    Faults (· = .unexpected k.wanted ts.head?) (k.opening ts) := by
  cases k <;> exact faults_expect (by rfl) _

/-- A line of a kind is at fault with its first token or after it. -/
def FaultAt (k : LineKind) (ts : List Token) (f : LineFault) : Prop :=
  k.opening ts = .error f ∨ f.Inner

theorem faultAt_opening (k : LineKind) (ts : List Token) : Faults (FaultAt k ts) (k.opening ts) :=
  fun _ hf => .inl hf

theorem faultAt_of_inner {α : Type} {x : Except LineFault α} (h : Faults Inner x) :
    Faults (FaultAt k ts) x := fun f hf => .inr (h f hf)

theorem faultAt_readAssignments (k : Keyword) (allowed : List String) (ts : List Token) :
    Faults (FaultAt (.declares k) ts) (readAssignments k allowed ts) := by
  refine (faultAt_opening (.declares k) ts).bind fun _ => faultAt_of_inner ?_
  refine (Line.inner_delimiter (by decide) _).bind fun _ => (Assignment.inner_readAll _ _).bind
    fun _ => (Line.inner_endOfLine _).bind fun _ => ?_
  split
  · exact faults_error .unknownKey
  · exact faults_ok _

theorem faultAt_ofTokens (k : LineKind) (ts : List Token) :
    Faults (FaultAt k ts) (ofTokens k ts) := by
  match k with
  | .declares .model =>
    refine (faultAt_opening (.declares .model) ts).bind fun _ => faultAt_of_inner ?_
    exact (Line.inner_identifier _).bind fun _ => (Line.inner_delimiter (by decide) _).bind
      fun _ => (Line.inner_endOfLine _).bind fun _ => faults_ok _
  | .declares .input =>
    refine (faultAt_readAssignments .input _ ts).bind fun _ => faultAt_of_inner ?_
    exact (Assignment.inner_integerValue _ _).bind fun _ => faults_ok _
  | .declares .layer =>
    refine (faultAt_readAssignments .layer _ ts).bind fun _ => faultAt_of_inner ?_
    exact (Assignment.inner_integerValue _ _).bind fun _ =>
      (Assignment.inner_stringValue _ _).bind fun _ => faults_ok _
  | .closes =>
    refine (faultAt_opening .closes ts).bind fun _ => faultAt_of_inner ?_
    exact (Line.inner_endOfLine _).bind fun _ => faults_ok _

theorem ofLine?_eq_some_error {s : List Char} {f : LineFault} (h : ofLine? s = some (.error f)) :
    (∃ found column, f = .unreadable found column) ∨
      ∃ k ts, LineKind.ofLine? s = some k ∧ significant s = .ok ts ∧ ofTokens k ts = .error f := by
  obtain ⟨k, hk, hf⟩ := Option.map_eq_some_iff.mp h
  split at hf
  · next hs =>
    cases hf
    unfold significant at hs
    split at hs
    · cases hs
      exact .inl ⟨_, _, rfl⟩
    · cases hs
  · next ts hts => exact .inr ⟨k, ts, hk, hts, hf⟩

end Declaration
end Feedforward
