import Mathlib.Algebra.Group.Nat.Defs
import Feedforward.Json.Found
import Feedforward.Proofs.Json.Strings

/-! Numbers as they are read. The digits of a number end where nothing that can
stand after a value goes on with them, and decimal digits of a number below
`2 ^ 64` are read back in full. -/
namespace Feedforward.Json
variable {s before rest ds : Bytes} {atEnd : Fault}

/-- What can stand after a value: white space, a comma, a bracket, or nothing. -/
def Follows (s : Bytes) : Prop :=
  ∀ b ∈ s.head?, b ∈ [byte ' ', byte '\t', byte '\n', byte '\r', byte ',', byte ']', byte '}']

theorem Blanks.follows (h : Blanks s) (hrest : Follows rest) : Follows (s ++ rest) := by
  cases s with
  | nil => exact hrest
  | cons b s =>
    intro c hc
    cases hc
    have hb := h b List.mem_cons_self
    simp only [List.mem_cons, List.not_mem_nil, or_false] at hb ⊢
    rcases hb with rfl | rfl | rfl | rfl <;> simp

theorem follows_comma (s : Bytes) : Follows (byte ',' :: s) := by
  simp [Follows]

theorem follows_closing (c : Container) (s : Bytes) : Follows (c.closing :: s) := by
  cases c <;> simp [Follows, Container.closing]

theorem Follows.stops (h : Follows s) : ∀ b ∈ s.head?,
    isDigit b = false ∧ ascii b ≠ '.' ∧ ¬ (ascii b = 'e' ∨ ascii b = 'E') := by
  intro b hb
  have hmem := h b hb
  simp only [List.mem_cons, List.not_mem_nil, or_false] at hmem
  rcases hmem with rfl | rfl | rfl | rfl | rfl | rfl | rfl <;> decide

theorem isDigit_iff {b : UInt8} : isDigit b = true ↔ byte '0' ≤ b ∧ b ≤ byte '9' := by
  rw [isDigit, Char.isDigit, Bool.and_eq_true, decide_eq_true_eq, decide_eq_true_eq, ge_iff_le,
    UInt32.le_iff_toNat_le, UInt32.le_iff_toNat_le, UInt8.le_iff_toNat_le, UInt8.le_iff_toNat_le]
  rfl

theorem ascii_ne_of_isDigit {b : UInt8} {c : Char} (hb : isDigit b = true)
    (hc : c.isDigit = false) : ascii b ≠ c := by
  rintro rfl
  rw [isDigit, hc] at hb
  cases hb

theorem not_isBlank_of_isDigit {b : UInt8} (h : isDigit b = true) : isBlank b = false := by
  simp [isBlank, ascii_ne_of_isDigit h]

theorem Digits.exists_cons (h : Digits ds) : ∃ b t, ds = b :: t ∧ isDigit b = true := by
  obtain ⟨b, t, rfl⟩ := List.exists_cons_of_ne_nil h.1
  exact ⟨b, t, rfl, isDigit_iff.mpr (h.2 b List.mem_cons_self)⟩

namespace NumberText

def NoDigit (s : Bytes) : Prop := ∀ b ∈ s.head?, isDigit b = false

theorem readDigits_eq (h : Digits ds) (hrest : NoDigit rest) :
    readDigits atEnd (ds ++ rest) = .ok (ds, rest) := by
  obtain ⟨hne, hall⟩ := h
  have hdigits : ∀ b ∈ ds, isDigit b = true := fun b hb => isDigit_iff.mpr (hall b hb)
  have htake : (ds ++ rest).takeWhile isDigit = ds ∧ (ds ++ rest).dropWhile isDigit = rest := by
    rw [List.takeWhile_append_of_pos hdigits, List.dropWhile_append_of_pos hdigits]
    cases rest with
    | nil => simp
    | cons b rest => simp [hrest b rfl]
  obtain ⟨b, ds, rfl⟩ := List.exists_cons_of_ne_nil hne
  rw [List.cons_append] at htake ⊢
  rw [readDigits, if_pos (hdigits b List.mem_cons_self), htake.1, htake.2]

theorem readWhole_eq (h : WholePart ds) (hrest : NoDigit rest) :
    readWhole atEnd (ds ++ rest) = .ok (ds, rest) := by
  rw [readWhole, readDigits_eq h.1 hrest]
  have hzero : ¬ (ds.length ≠ 1 ∧ ds.head?.map ascii = some '0') := by
    rintro ⟨hlength, hhead⟩
    obtain ⟨b, hb, hb'⟩ := Option.map_eq_some_iff.mp hhead
    rw [ascii_eq_iff (by decide)] at hb'
    exact hlength (h.2 (by rw [hb, hb']))
  exact if_neg hzero

theorem readFraction_absent (hrest : ∀ b ∈ rest.head?, ascii b ≠ '.') :
    readFraction atEnd rest = .ok (none, rest) := by
  cases rest with
  | nil => rfl
  | cons b rest => rw [readFraction, if_neg (hrest b rfl)]

theorem readFraction_eq (atEnd : Fault) (h : FractionPart s) (hdigit : NoDigit rest)
    (hrest : ∀ b ∈ rest.head?, ascii b ≠ '.') :
    ∃ x, readFraction atEnd (s ++ rest) = .ok (x, rest) := by
  rcases h with rfl | ⟨digits, rfl, hdigits⟩
  · exact ⟨none, readFraction_absent hrest⟩
  · refine ⟨some digits, ?_⟩
    rw [List.cons_append, readFraction, if_pos (by rfl), readDigits_eq hdigits hdigit]

theorem readPower_absent (hrest : ∀ b ∈ rest.head?, ¬ (ascii b = 'e' ∨ ascii b = 'E')) :
    readPower atEnd rest = .ok (none, rest) := by
  cases rest with
  | nil => rfl
  | cons b rest => rw [readPower, if_neg (hrest b rfl)]

theorem readSign_eq {sign : Bytes} (h : sign ∈ [[], [byte '+'], [byte '-']]) (hdigits : Digits ds)
    (rest : Bytes) : ∃ negative, readSign (sign ++ (ds ++ rest)) = (negative, ds ++ rest) := by
  simp only [List.mem_cons, List.not_mem_nil, or_false] at h
  rcases h with rfl | rfl | rfl
  · obtain ⟨b, ds, rfl, hb⟩ := hdigits.exists_cons
    refine ⟨false, ?_⟩
    rw [List.nil_append, List.cons_append, readSign, if_neg (ascii_ne_of_isDigit hb (by decide)),
      if_neg (ascii_ne_of_isDigit hb (by decide))]
  · exact ⟨false, rfl⟩
  · exact ⟨true, rfl⟩

theorem readPower_eq (atEnd : Fault) (h : PowerPart s) (hdigit : NoDigit rest)
    (hrest : ∀ b ∈ rest.head?, ¬ (ascii b = 'e' ∨ ascii b = 'E')) :
    ∃ x, readPower atEnd (s ++ rest) = .ok (x, rest) := by
  rcases h with rfl | ⟨mark, sign, digits, hmark, hsign, hdigits, rfl⟩
  · exact ⟨none, readPower_absent hrest⟩
  · have hmark' : ascii mark = 'e' ∨ ascii mark = 'E' := by
      simpa [ascii_eq_iff] using hmark
    obtain ⟨negative, hread⟩ := readSign_eq hsign hdigits rest
    refine ⟨some (negative, digits), ?_⟩
    rw [List.cons_append, readPower, if_pos hmark', List.append_assoc, hread]
    dsimp only
    rw [readDigits_eq hdigits hdigit]

theorem FractionPart.noDigit (h : FractionPart s) (hrest : NoDigit rest) : NoDigit (s ++ rest) := by
  rcases h with rfl | ⟨digits, rfl, -⟩
  · exact hrest
  · intro b hb
    cases hb
    decide

theorem PowerPart.stops (h : PowerPart s)
    (hrest : ∀ b ∈ rest.head?, isDigit b = false ∧ ascii b ≠ '.') :
    ∀ b ∈ (s ++ rest).head?, isDigit b = false ∧ ascii b ≠ '.' := by
  rcases h with rfl | ⟨mark, sign, digits, hmark, -, -, rfl⟩
  · exact hrest
  · intro b hb
    cases hb
    simp only [List.mem_cons, List.not_mem_nil, or_false] at hmark
    rcases hmark with rfl | rfl <;> decide

theorem read_eq (atEnd : Fault) {whole fraction power : Bytes} (hwhole : WholePart whole)
    (hfraction : FractionPart fraction) (hpower : PowerPart power) (hrest : Follows rest) :
    ∃ x, read atEnd (whole ++ (fraction ++ (power ++ rest))) = .ok (x, rest) := by
  have hstops := hrest.stops
  have hafter := PowerPart.stops hpower fun b hb => ⟨(hstops b hb).1, (hstops b hb).2.1⟩
  have hdigit := FractionPart.noDigit hfraction fun b hb => (hafter b hb).1
  obtain ⟨f, hf⟩ := readFraction_eq atEnd hfraction (fun b hb => (hafter b hb).1)
    fun b hb => (hafter b hb).2
  obtain ⟨e, he⟩ := readPower_eq atEnd hpower (fun b hb => (hstops b hb).1)
    fun b hb => (hstops b hb).2.2
  refine ⟨⟨whole, f, e⟩, ?_⟩
  simp only [read, readWhole_eq hwhole hdigit, hf, he]

theorem read_whole (hwhole : WholePart ds) (hrest : Follows rest) :
    read atEnd (ds ++ rest) = .ok (⟨ds, none, none⟩, rest) := by
  have hstops := hrest.stops
  simp only [read, readWhole_eq hwhole fun b hb => (hstops b hb).1,
    readFraction_absent fun b hb => (hstops b hb).2.1,
    readPower_absent fun b hb => (hstops b hb).2.2]

end NumberText

def decimalDigits (n : Nat) : Bytes := (Nat.toDigits 10 n).map byte

theorem toDigits_head_ne_zero {n : Nat} (h : 0 < n) : (Nat.toDigits 10 n).head? ≠ some '0' := by
  induction n using Nat.strongRecOn with
  | ind n ih =>
    by_cases hn : n < 10
    · rw [Nat.toDigits_of_lt_base hn, List.head?_cons]
      intro hzero
      have := Nat.digitChar_eq_zero.mp (Option.some.inj hzero)
      omega
    · have hmore := ih (n / 10) (by omega) (by omega)
      rw [Nat.toDigits_of_base_le (by decide) (by omega)]
      cases hds : Nat.toDigits 10 (n / 10) with
      | nil => exact absurd hds Nat.toDigits_ne_nil
      | cons c cs => rwa [hds] at hmore

theorem lt_of_isDigit {c : Char} (h : c.isDigit = true) : c.toNat < 256 := by
  rw [Char.isDigit, Bool.and_eq_true, decide_eq_true_eq, decide_eq_true_eq] at h
  exact Nat.lt_of_le_of_lt (UInt32.le_iff_toNat_le.mp h.2) (by decide)

theorem ascii_byte_of_mem_toDigits {n : Nat} {c : Char} (h : c ∈ Nat.toDigits 10 n) :
    ascii (byte c) = c :=
  ascii_byte (lt_of_isDigit (Nat.isDigit_of_mem_toDigits (by decide) (by decide) h))

theorem decimalDigits_wholePart {n : Nat} (h : 0 < n) : WholePart (decimalDigits n) := by
  refine ⟨⟨by simp [decimalDigits, Nat.toDigits_ne_nil], fun b hb => ?_⟩, fun hzero => ?_⟩
  · obtain ⟨c, hc, rfl⟩ := List.mem_map.mp hb
    rw [← isDigit_iff, isDigit, ascii_byte_of_mem_toDigits hc]
    exact Nat.isDigit_of_mem_toDigits (by decide) (by decide) hc
  · rw [decimalDigits, List.head?_map, Option.map_eq_some_iff] at hzero
    obtain ⟨c, hhead, hc⟩ := hzero
    have hascii : c = '0' := by
      rw [← ascii_byte_of_mem_toDigits (List.mem_of_mem_head? hhead), hc]
      rfl
    exact absurd (hascii ▸ hhead) (toDigits_head_ne_zero h)

theorem foldl_map_byte {cs : List Char} (h : ∀ c ∈ cs, ascii (byte c) = c) (acc : Nat) :
    (cs.map byte).foldl (fun n d => n * 10 + digitValue d) acc = Nat.ofDigitChars 10 cs acc := by
  induction cs generalizing acc with
  | nil => rfl
  | cons c cs ih =>
    rw [List.forall_mem_cons] at h
    rw [List.map_cons, List.foldl_cons, ih h.2, Nat.ofDigitChars_cons, digitValue, h.1,
      Nat.mul_comm]

theorem natOfDigits_decimalDigits (n : Nat) : natOfDigits (decimalDigits n) = n := by
  rw [natOfDigits, decimalDigits, foldl_map_byte fun c hc => ascii_byte_of_mem_toDigits hc,
    Nat.ofDigitChars_ten_toDigits]

theorem le_foldl (acc : Nat) (ds : Bytes) :
    acc ≤ ds.foldl (fun n d => n * 10 + digitValue d) acc := by
  induction ds generalizing acc with
  | nil => exact Nat.le_refl _
  | cons d ds ih =>
    have := ih (acc * 10 + digitValue d)
    rw [List.foldl_cons]
    omega

/-- Digits of a number in range are all taken. The significand only grows, so
that of each digit is in range with the last. -/
theorem absorb_eq {acc n : Nat} (h : ds.foldl (fun n d => n * 10 + digitValue d) acc = n)
    (hn : n ≤ maxSignificand) : absorb acc ds = (n, ds.length) := by
  induction ds generalizing acc with
  | nil =>
    rw [← h]
    rfl
  | cons d ds ih =>
    rw [List.foldl_cons] at h
    have hle := le_foldl (acc * 10 + digitValue d) ds
    rw [h] at hle
    rw [absorb]
    dsimp only
    rw [if_pos (Nat.le_trans hle hn), ih h]
    rfl

theorem readUnsigned_decimalDigits {n : Nat} (hpos : 0 < n) (hn : n < 2 ^ 64)
    (hrest : Follows rest) :
    readUnsigned false (decimalDigits n ++ rest) = .ok (.integer n, rest) := by
  have habsorb := absorb_eq (natOfDigits_decimalDigits n) (Nat.le_sub_one_of_lt hn)
  have hvalue : NumberText.value false ⟨decimalDigits n, none, none⟩ = .ok (.integer n) := by
    rw [NumberText.value, NumberText.integer?, habsorb]
    simp
  rw [readUnsigned, NumberText.read_whole (decimalDigits_wholePart hpos) hrest]
  dsimp only
  rw [hvalue]

theorem readPositive_decimalDigits (expected : String) {n : Nat} (hpos : 0 < n) (hn : n < 2 ^ 64)
    (hbefore : Blanks before) (hrest : Follows rest) :
    readPositive expected (before ++ (decimalDigits n ++ rest)) = .ok (n, rest) := by
  have hread := readUnsigned_decimalDigits hpos hn hrest
  obtain ⟨b, ds, hds, hb⟩ := (decimalDigits_wholePart hpos).1.exists_cons
  have hnumber : readNumber? (b :: (ds ++ rest)) = some (.ok (.integer n, rest)) := by
    rw [readNumber?, if_neg (ascii_ne_of_isDigit hb (by decide)), if_pos hb, ← List.cons_append,
      ← hds, hread]
  rw [readPositive, hds, List.cons_append, dropBlanks_to hbefore (not_isBlank_of_isDigit hb),
    hnumber]
  simp [hpos]

end Feedforward.Json
