import Feedforward.Model.Basic
import Feedforward.Proofs.Writing

/-! The names that models have: identifiers that are no keywords, so that they
are one word of one line. -/
namespace Feedforward
namespace Name
open Token (isWordStart isWordPart)

theorem check_eq_ok_iff {name : String} :
    check name = .ok () ↔ isIdentifier name = true ∧ reservedIn? name = none := by
  unfold check
  by_cases hempty : name = ""
  · subst hempty
    simp [isIdentifier, isWord]
  · by_cases hid : isIdentifier name = true
    · cases hr : reservedIn? name <;> simp [hempty, hid]
    · simp [hempty, hid]

theorem isWordPart_of_isWordStart {c : Char} (h : isWordStart c = true) : isWordPart c = true := by
  rw [isWordStart, Bool.or_eq_true] at h
  rcases h with h | h
  · simp [isWordPart, Char.isAlphanum, h]
  · simp [isWordPart, h]

theorem isWordPart_of_isWord {word : List Char} (h : isWord word = true) :
    ∀ c ∈ word, isWordPart c = true := by
  cases word with
  | nil => cases h
  | cons c t =>
    rw [isWord, Bool.and_eq_true, List.all_eq_true] at h
    intro d hd
    rcases List.mem_cons.mp hd with rfl | hd
    · exact isWordPart_of_isWordStart h.1
    · exact h.2 d hd

theorem ne_nil_of_isWord {word : List Char} (h : isWord word = true) : word ≠ [] := by
  rintro rfl
  cases h

theorem isWord_of_isIdentifier {name : String} (h : isIdentifier name = true) :
    isWord name.toList = true := by
  rw [isIdentifier, Bool.and_eq_true] at h
  exact h.1

end Name

namespace Model
open Token (isWordPart)

theorem isIdentifier_name (m : Model) : Name.isIdentifier m.name = true :=
  (Name.check_eq_ok_iff.mp m.name_ok).1

theorem isWord_name (m : Model) : Name.isWord m.name.toList = true :=
  Name.isWord_of_isIdentifier m.isIdentifier_name

theorem isWordPart_name (m : Model) : ∀ c ∈ m.name.toList, isWordPart c = true :=
  Name.isWordPart_of_isWord m.isWord_name

theorem unbroken_name (m : Model) : Text.Unbroken m.name.toList :=
  Text.unbroken_of_class m.isWordPart_name (by decide) (by decide)

theorem name_toList_ne_nil (m : Model) : m.name.toList ≠ [] :=
  Name.ne_nil_of_isWord m.isWord_name

theorem name_head?_ne (m : Model) {c : Char} (hc : isWordPart c = false) :
    m.name.toList.head? ≠ some c := by
  intro h
  have hpart := m.isWordPart_name c (List.mem_of_mem_head? h)
  rw [hc] at hpart
  cases hpart

end Model
end Feedforward
