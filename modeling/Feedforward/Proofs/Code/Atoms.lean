import Feedforward.Proofs.Code.ReadBack

/-! Code cut into names and the characters between them. What counts as part of
a name is a class of characters, so this serves any target. A text is cut where
such a character does not follow, and a template is cut before it is filled. -/
namespace Feedforward

/-- A name, as long as it can be, or a character that is part of no name. -/
inductive Atom where
  | name (text : List Char)
  | mark (char : Char)
deriving DecidableEq

namespace Atom
open Text (Stops)
variable {p : Char → Bool} {s w : List Char}

def extendFirst (c : Char) : List Atom → List Atom
  | .name w :: as => .name (c :: w) :: as
  | as => .name [c] :: as

/-- Makes the name at the end longer; where none is, there is one then. -/
def extendLast (w : List Char) : List Atom → List Atom
  | [] => [.name w]
  | [.name v] => [.name (v ++ w)]
  | a :: as => a :: extendLast w as

def ofText (p : Char → Bool) : List Char → List Atom
  | [] => []
  | c :: s => if p c then extendFirst c (ofText p s) else .mark c :: ofText p s

theorem extendFirst_append (c : Char) {as : List Atom} (h : as ≠ []) (bs : List Atom) :
    extendFirst c (as ++ bs) = extendFirst c as ++ bs := by
  match as with
  | [] => exact absurd rfl h
  | .name w :: as => rfl
  | .mark d :: as => rfl

theorem extendFirst_extendLast (c : Char) (w : List Char) (as : List Atom) :
    extendFirst c (extendLast w as) = extendLast w (extendFirst c as) := by
  match as with
  | [] => rfl
  | [.name v] => rfl
  | .name v :: a :: as => rfl
  | .mark d :: as => rfl

theorem ofText_ne_nil (h : s ≠ []) : ofText p s ≠ [] := by
  cases s with
  | nil => exact absurd rfl h
  | cons c s =>
    rw [ofText]
    split
    · unfold extendFirst
      split <;> simp
    · simp

theorem ofText_append (h : Stops p s) (u : List Char) :
    ofText p (u ++ s) = ofText p u ++ ofText p s := by
  induction u with
  | nil => rfl
  | cons c u ih =>
    rw [List.cons_append, ofText, ofText, ih]
    split
    · cases u with
      | cons d u => exact extendFirst_append c (ofText_ne_nil (by simp)) _
      | nil =>
        cases s with
        | nil => rfl
        | cons d s =>
          rw [Text.stops_cons] at h
          simp [ofText, h, extendFirst]
    · rfl

theorem ofText_name (h : ∀ c ∈ w, p c = true) (hne : w ≠ []) : ofText p w = [.name w] := by
  induction w with
  | nil => exact absurd rfl hne
  | cons c w ih =>
    rw [List.forall_mem_cons] at h
    rw [ofText, if_pos h.1]
    cases w with
    | nil => rfl
    | cons d w =>
      rw [ih h.2 (by simp)]
      rfl

theorem ofText_append_name (h : ∀ c ∈ w, p c = true) (hne : w ≠ []) (u : List Char) :
    ofText p (u ++ w) = extendLast w (ofText p u) := by
  induction u with
  | nil => exact ofText_name h hne
  | cons c u ih =>
    rw [List.cons_append, ofText, ofText, ih]
    split
    · exact extendFirst_extendLast c w (ofText p u)
    · rfl

theorem ofText_around (h : ∀ c ∈ w, p c = true) (hne : w ≠ []) (hs : Stops p s) (u : List Char) :
    ofText p (u ++ (w ++ s)) = extendLast w (ofText p u) ++ ofText p s := by
  rw [← List.append_assoc, ofText_append hs, ofText_append_name h hne]

def ofTemplate (p : Char → Bool) : List String → List Nat → List Atom
  | [], _ => []
  | u :: _, [] => ofText p u.toList
  | u :: us, n :: ns => extendLast n.repr.toList (ofText p u.toList) ++ ofTemplate p us ns

def ends (p : Char → Bool) (u : String) : Bool := u.toList.head?.any (!p ·)

theorem stops_fill {us : List String} (h : us.all (ends p) = true) (ns : List Nat) :
    Stops p (Text.fill us ns) := by
  cases us with
  | nil => exact Text.stops_nil p
  | cons u us =>
    rw [List.all_cons, Bool.and_eq_true, ends] at h
    cases hu : u.toList with
    | nil => simp [hu] at h
    | cons c t =>
      rw [hu, List.head?_cons, Option.any_some, Bool.not_eq_true'] at h
      cases ns <;> simpa [Text.fill, hu] using h.1

theorem ofText_fill (hp : ∀ c, c.isDigit = true → p c = true) {us : List String}
    (h : us.tail.all (ends p) = true) (ns : List Nat) :
    ofText p (Text.fill us ns) = ofTemplate p us ns := by
  induction us generalizing ns with
  | nil => rfl
  | cons u us ih =>
    cases ns with
    | nil => rfl
    | cons n ns =>
      rw [List.tail_cons] at h
      have htail : us.tail.all (ends p) = true := by
        cases us with
        | nil => rfl
        | cons v us =>
          rw [List.all_cons, Bool.and_eq_true] at h
          exact h.2
      have hdigits : ∀ c ∈ n.repr.toList, p c = true :=
        fun c hc => hp c (Text.isDigit_repr n c hc)
      rw [Text.fill, ofText_around hdigits (Text.repr_toList_ne_nil n) (stops_fill h ns),
        ih htail, ofTemplate]

def names (as : List Atom) : List (List Char) :=
  as.filterMap fun
    | .name w => some w
    | .mark _ => none

/-- What stands before and after the first `=`. Where nothing is assigned, all
stands after it. -/
def sides (as : List Atom) : List Atom × List Atom :=
  match as.dropWhile (· ≠ .mark '=') with
  | [] => ([], as)
  | _ :: right => (as.takeWhile (· ≠ .mark '='), right)

theorem names_sides (as : List Atom) :
    names (sides as).1 ++ names (sides as).2 = names as := by
  unfold sides
  split
  · rfl
  · next a right hdrop =>
    have ha : a = .mark '=' := by
      have hhead := List.head?_dropWhile_not (fun a : Atom => decide (a ≠ .mark '=')) as
      rw [hdrop, List.head?_cons] at hhead
      simpa using hhead
    have hsplit := @List.takeWhile_append_dropWhile _ (fun a : Atom => decide (a ≠ .mark '=')) as
    rw [hdrop, ha] at hsplit
    calc names (as.takeWhile (· ≠ .mark '=')) ++ names right
        = names (as.takeWhile (· ≠ .mark '=') ++ .mark '=' :: right) := by simp [names]
      _ = names as := by rw [hsplit]

end Atom
end Feedforward
