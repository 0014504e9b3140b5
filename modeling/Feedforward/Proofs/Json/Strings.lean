import Feedforward.Json.Skip
import Feedforward.Proofs.Json.Grammar

/-! Blanks and strings as they are read. Reading a string gives the text that
its content spells, whatever way each character is escaped, and strings that are
read past need only be well formed. -/
namespace Feedforward.Json
variable {b : UInt8} {s rest : Bytes}

@[simp] theorem ascii_byte {c : Char} (h : c.toNat < 256) : ascii (byte c) = c := by
  apply Char.ext
  rw [← UInt32.toNat_inj]
  exact Nat.mod_eq_of_lt h

theorem byte_ascii (b : UInt8) : byte (ascii b) = b := UInt8.toUInt8_toUInt32 b

theorem ascii_eq_iff {c : Char} (h : c.toNat < 256) : ascii b = c ↔ b = byte c := by
  constructor
  · rintro rfl
    exact (byte_ascii b).symm
  · rintro rfl
    exact ascii_byte h

theorem isBlank_iff : isBlank b = true ↔ b ∈ [byte ' ', byte '\t', byte '\n', byte '\r'] := by
  simp [isBlank, ascii_eq_iff, or_assoc]

theorem inQuotes_append (s rest : Bytes) :
    inQuotes s ++ rest = byte '"' :: (s ++ byte '"' :: rest) := by
  rw [inQuotes, List.cons_append, List.append_assoc, List.singleton_append]

theorem blanks_nil : Blanks [] := List.forall_mem_nil _

theorem dropBlanks_append (h : Blanks s) (rest : Bytes) :
    dropBlanks (s ++ rest) = dropBlanks rest :=
  List.dropWhile_append_of_pos fun b hb => isBlank_iff.mpr (h b hb)

theorem dropBlanks_cons (h : isBlank b = false) (rest : Bytes) :
    dropBlanks (b :: rest) = b :: rest :=
  List.dropWhile_cons_of_neg (by simp [h])

theorem dropBlanks_of_blanks (h : Blanks s) : dropBlanks s = [] := by
  have hdrop := dropBlanks_append h []
  rwa [List.append_nil] at hdrop

theorem dropBlanks_to (h : Blanks s) (hb : isBlank b = false) (rest : Bytes) :
    dropBlanks (s ++ b :: rest) = b :: rest := by
  rw [dropBlanks_append h, dropBlanks_cons hb]

theorem readColon_to (h : Blanks s) (rest : Bytes) :
    readColon (s ++ byte ':' :: rest) = .ok rest := by
  rw [readColon, dropBlanks_to h (by decide)]
  rfl

theorem readWord_map (word : List Char) (h : word.all (·.toNat < 256) = true) (rest : Bytes) :
    readWord word (word.map byte ++ rest) = .ok rest := by
  induction word with
  | nil => rfl
  | cons c word ih =>
    rw [List.all_cons, Bool.and_eq_true, decide_eq_true_eq] at h
    rw [List.map_cons, List.cons_append, readWord, if_pos (ascii_byte h.1), ih h.2]

theorem HexDigit.hexValue?_eq {n : Nat} (h : HexDigit n b) : hexValue? b = some n := by
  have hlower : ∀ p ∈ "0123456789abcdef".toList.zipIdx, hexValue? (byte p.1) = some p.2 := by
    decide
  have hupper : ∀ p ∈ "0123456789ABCDEF".toList.zipIdx, hexValue? (byte p.1) = some p.2 := by
    decide
  cases h with
  | @lower c hc => exact hlower (c, n) (List.mem_zipIdx_iff_getElem?.mpr hc)
  | @upper c hc => exact hupper (c, n) (List.mem_zipIdx_iff_getElem?.mpr hc)

theorem HexDigits.readHex_eq {n : Nat} (h : HexDigits n s) (rest : Bytes) :
    readHex (s ++ rest) = .ok (n, rest) := by
  cases h with
  | mk ha hb hc hd =>
    simp only [List.cons_append, List.nil_append, readHex, ha.hexValue?_eq, hb.hexValue?_eq,
      hc.hexValue?_eq, hd.hexValue?_eq]

theorem escape_of_mem {letter c : Char} (h : (letter, c) ∈ escapes) :
    ascii (byte letter) ≠ 'u' ∧ simpleEscape? (byte letter) = some c := by
  have hall : ∀ p ∈ escapes, ascii (byte p.1) ≠ 'u' ∧ simpleEscape? (byte p.1) = some p.2 := by
    decide
  exact hall (letter, c) h

theorem readEscape_letter {letter c : Char} (h : (letter, c) ∈ escapes) (rest : Bytes) :
    readEscape (byte letter :: rest) = .ok (c, rest) := by
  obtain ⟨hu, hc⟩ := escape_of_mem h
  rw [readEscape, if_neg hu, hc]

theorem not_surrogate (c : Char) : isTrailing c.toNat = false ∧ isLeading c.toNat = false := by
  have hc : c.toNat < 0xD800 ∨ 0xDFFF < c.toNat := c.valid.imp id And.left
  simp only [isTrailing, isLeading, Bool.and_eq_false_iff, decide_eq_false_iff_not]
  omega

theorem readEscape_code {c : Char} {digits : Bytes} (h : HexDigits c.toNat digits) (rest : Bytes) :
    readEscape (byte 'u' :: (digits ++ rest)) = .ok (c, rest) := by
  obtain ⟨htrailing, hleading⟩ := not_surrogate c
  rw [readEscape, if_pos (by rfl), readCodePoint, h.readHex_eq]
  simp only [htrailing, hleading, Bool.false_eq_true, if_false, Char.ofNat_toNat]

theorem readInPair_byte {c : Char} (h : c.toNat < 256) (rest : Bytes) :
    readInPair c (byte c :: rest) = .ok rest := by
  rw [readInPair, if_pos (ascii_byte h)]

theorem readEscape_pair {c : Char} {leading trailing : Nat} {first second : Bytes}
    (hleading : 0xD800 ≤ leading) (hleading' : leading ≤ 0xDBFF) (htrailing : 0xDC00 ≤ trailing)
    (htrailing' : trailing ≤ 0xDFFF)
    (hc : c.toNat = 0x10000 + (leading - 0xD800) * 0x400 + (trailing - 0xDC00))
    (hfirst : HexDigits leading first) (hsecond : HexDigits trailing second) (rest : Bytes) :
    readEscape (byte 'u' :: (first ++ byte '\\' :: byte 'u' :: (second ++ rest))) =
      .ok (c, rest) := by
  have hlead : isTrailing leading = false ∧ isLeading leading = true := by
    simp only [isTrailing, isLeading, Bool.and_eq_false_iff, decide_eq_false_iff_not,
      Bool.and_eq_true, decide_eq_true_eq]
    omega
  have htrail : isTrailing trailing = true := by
    simp only [isTrailing, Bool.and_eq_true, decide_eq_true_eq]
    omega
  have hsum : (leading - 0xD800) * 0x400 + (trailing - 0xDC00) + 0x10000 = c.toNat := by omega
  rw [readEscape, if_pos (by rfl), readCodePoint, hfirst.readHex_eq]
  simp only [hlead.1, hlead.2, Bool.false_eq_true, if_false, if_true, readPair,
    readInPair_byte (c := '\\') (by decide), readInPair_byte (c := 'u') (by decide),
    hsecond.readHex_eq, htrail, hsum, Char.ofNat_toNat]

/-- A byte that stands for itself inside a string. -/
def Plain (b : UInt8) : Prop := 0x20 ≤ b ∧ b ≠ byte '"' ∧ b ≠ byte '\\'

theorem readContent_plain {content : Bytes} (hb : Plain b)
    (h : readContent s = .ok (content, rest)) :
    readContent (b :: s) = .ok (b :: content, rest) := by
  obtain ⟨hcontrol, hquote, hbackslash⟩ := hb
  rw [readContent, if_neg (by simpa [ascii_eq_iff] using hquote),
    if_neg (by simpa [ascii_eq_iff] using hbackslash), if_neg (UInt8.not_lt.mpr hcontrol), h]

theorem readContent_plains {bs content : Bytes} (hbs : ∀ b ∈ bs, Plain b)
    (h : readContent s = .ok (content, rest)) :
    readContent (bs ++ s) = .ok (bs ++ content, rest) := by
  induction bs with
  | nil => exact h
  | cons b bs ih =>
    obtain ⟨hb, hbs⟩ := List.forall_mem_cons.mp hbs
    exact readContent_plain hb (ih hbs)

theorem readContent_escape {c : Char} {t content : Bytes} (hescape : readEscape s = .ok (c, t))
    (h : readContent t = .ok (content, rest)) :
    readContent (byte '\\' :: s) = .ok (String.utf8EncodeChar c ++ content, rest) := by
  rw [readContent, if_neg (by decide), if_pos (by rfl)]
  split
  · next f hf =>
    rw [hescape] at hf
    cases hf
  · next hok =>
    rw [hescape] at hok
    cases hok
    rw [h]

theorem plain_ofNat {n : Nat} (h : 0x20 ≤ n ∧ n < 256 ∧ n ≠ 34 ∧ n ≠ 92) :
    Plain (UInt8.ofNat n) := by
  have hn : (UInt8.ofNat n).toNat = n := UInt8.toNat_ofNat_of_lt h.2.1
  refine ⟨?_, ?_, ?_⟩
  · rw [UInt8.le_iff_toNat_le, hn]
    exact h.1
  · rw [ne_eq, ← UInt8.toNat_inj, hn]
    exact h.2.2.1
  · rw [ne_eq, ← UInt8.toNat_inj, hn]
    exact h.2.2.2

/-- No byte of a character beyond ASCII is an ASCII character. -/
theorem plain_of_mem_encodeChar {c : Char} (hcontrol : 0x20 ≤ c.toNat) (hquote : c ≠ '"')
    (hbackslash : c ≠ '\\') : ∀ b ∈ String.utf8EncodeChar c, Plain b := by
  have hquote' : c.toNat ≠ 34 := fun h => hquote (Char.toNat_inj.mp h)
  have hbackslash' : c.toNat ≠ 92 := fun h => hbackslash (Char.toNat_inj.mp h)
  change c.val.toNat ≠ 34 at hquote'
  change c.val.toNat ≠ 92 at hbackslash'
  change 0x20 ≤ c.val.toNat at hcontrol
  unfold String.utf8EncodeChar
  dsimp only
  split
  · simp only [List.mem_singleton, forall_eq]
    exact plain_ofNat ⟨hcontrol, by omega, hquote', hbackslash'⟩
  · split
    · simp only [List.mem_cons, List.not_mem_nil, or_false, forall_eq_or_imp, forall_eq]
      exact ⟨plain_ofNat (by omega), plain_ofNat (by omega)⟩
    · split
      · simp only [List.mem_cons, List.not_mem_nil, or_false, forall_eq_or_imp, forall_eq]
        exact ⟨plain_ofNat (by omega), plain_ofNat (by omega), plain_ofNat (by omega)⟩
      · simp only [List.mem_cons, List.not_mem_nil, or_false, forall_eq_or_imp, forall_eq]
        exact ⟨plain_ofNat (by omega), plain_ofNat (by omega), plain_ofNat (by omega),
          plain_ofNat (by omega)⟩

theorem Spells.readContent_eq {cs : List Char} (h : Spells cs s) (rest : Bytes) :
    readContent (s ++ byte '"' :: rest) = .ok (cs.flatMap String.utf8EncodeChar, rest) := by
  induction h with
  | nil =>
    rw [List.nil_append, readContent, if_pos (by rfl)]
    rfl
  | plain hcontrol hquote hbackslash _ ih =>
    rw [List.append_assoc]
    exact readContent_plains (plain_of_mem_encodeChar hcontrol hquote hbackslash) ih
  | escape hletter _ ih => exact readContent_escape (readEscape_letter hletter _) ih
  | code hdigits _ ih =>
    rw [List.cons_append, List.cons_append, List.append_assoc]
    exact readContent_escape (readEscape_code hdigits _) ih
  | pair hleading hleading' htrailing htrailing' hc hfirst hsecond _ ih =>
    rw [List.cons_append, List.cons_append, List.append_assoc, List.cons_append, List.cons_append,
      List.append_assoc]
    exact readContent_escape
      (readEscape_pair hleading hleading' htrailing htrailing' hc hfirst hsecond _) ih

theorem encode_eq_flatMap (text : String) :
    Text.encode text = text.toList.flatMap String.utf8EncodeChar := by
  conv => lhs; rw [← String.ofList_toList (s := text)]
  rw [Text.encode, String.toUTF8_eq_toByteArray, String.toByteArray_ofList, List.utf8Encode,
    List.toList_data_toByteArray]

theorem Spells.readString_eq {text : String} (h : Spells text.toList s) (rest : Bytes) :
    readString (s ++ byte '"' :: rest) = .ok (text, rest) := by
  rw [readString, h.readContent_eq, ← encode_eq_flatMap]
  simp only [Text.decode?_encode]

theorem spells_map_byte {cs : List Char}
    (h : cs.all (fun c => 0x20 ≤ c.toNat ∧ c.toNat ≤ 0x7F ∧ c ≠ '"' ∧ c ≠ '\\') = true) :
    Spells cs (cs.map byte) := by
  induction cs with
  | nil => exact .nil
  | cons c cs ih =>
    rw [List.all_cons, Bool.and_eq_true, decide_eq_true_eq] at h
    obtain ⟨⟨hcontrol, hascii, hquote, hbackslash⟩, hcs⟩ := h
    have hspells := Spells.plain hcontrol hquote hbackslash (ih hcs)
    rwa [String.utf8EncodeChar_eq_singleton (Char.utf8Size_eq_one_iff.mpr hascii)] at hspells

theorem skipEscape_letter {letter c : Char} (h : (letter, c) ∈ escapes) (rest : Bytes) :
    skipEscape (byte letter :: rest) = .ok rest := by
  obtain ⟨hu, hc⟩ := escape_of_mem h
  rw [skipEscape, if_neg hu, hc, if_pos (by rfl)]

theorem skipEscape_code {n : Nat} {digits : Bytes} (h : HexDigits n digits) (rest : Bytes) :
    skipEscape (byte 'u' :: (digits ++ rest)) = .ok rest := by
  rw [skipEscape, if_pos (by rfl), h.readHex_eq]

theorem skipString_escape {t : Bytes} (h : skipEscape s = .ok t) :
    skipString (byte '\\' :: s) = skipString t := by
  rw [skipString, if_neg (by decide), if_pos (by rfl)]
  split
  · next f hf =>
    rw [h] at hf
    cases hf
  · next hok =>
    rw [h] at hok
    cases hok
    rfl

theorem Characters.skipString_eq (h : Characters s) (rest : Bytes) :
    skipString (s ++ byte '"' :: rest) = .ok rest := by
  induction h with
  | nil => rw [List.nil_append, skipString, if_pos (by rfl)]
  | plain hcontrol hquote hbackslash _ ih =>
    rw [List.cons_append, skipString, if_neg (by simpa [ascii_eq_iff] using hquote),
      if_neg (by simpa [ascii_eq_iff] using hbackslash), if_neg (UInt8.not_lt.mpr hcontrol), ih]
  | escape hletter _ ih =>
    rw [List.cons_append, List.cons_append]
    exact (skipString_escape (skipEscape_letter hletter _)).trans ih
  | code hdigits _ ih =>
    rw [List.cons_append, List.cons_append, List.append_assoc]
    exact (skipString_escape (skipEscape_code hdigits _)).trans ih

end Feedforward.Json
