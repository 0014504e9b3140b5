import Feedforward.Json.Lexical

/-! JSON texts, said without readers. `Spells` relates a text to the bytes that
stand for it between quotes, in any of the ways to escape its characters, and
`IsValue` says which bytes are one value of any kind. -/
namespace Feedforward.Json

def byte (c : Char) : UInt8 := c.toUInt8

def Blanks (s : Bytes) : Prop := ∀ b ∈ s, b ∈ [byte ' ', byte '\t', byte '\n', byte '\r']

instance (s : Bytes) : Decidable (Blanks s) :=
  List.decidableBAll (· ∈ [byte ' ', byte '\t', byte '\n', byte '\r']) s

def inQuotes (s : Bytes) : Bytes := byte '"' :: (s ++ [byte '"'])

def escapes : List (Char × Char) :=
  [('"', '"'), ('\\', '\\'), ('/', '/'), ('b', '\x08'), ('f', '\x0c'), ('n', '\n'), ('r', '\r'),
    ('t', '\t')]

inductive HexDigit : Nat → UInt8 → Prop where
  | lower {n : Nat} {c : Char} : "0123456789abcdef".toList[n]? = some c → HexDigit n (byte c)
  | upper {n : Nat} {c : Char} : "0123456789ABCDEF".toList[n]? = some c → HexDigit n (byte c)

inductive HexDigits : Nat → Bytes → Prop where
  | mk {a b c d : Nat} {w x y z : UInt8} : HexDigit a w → HexDigit b x → HexDigit c y →
      HexDigit d z → HexDigits (((a * 16 + b) * 16 + c) * 16 + d) [w, x, y, z]

/-- The content of a string that stands for a text. A character from `0x10000` on
is escaped as a surrogate pair; quotes, backslashes and control characters must
be escaped. -/
inductive Spells : List Char → Bytes → Prop where
  | nil : Spells [] []
  | plain {c : Char} {cs : List Char} {s : Bytes} : 0x20 ≤ c.toNat → c ≠ '"' → c ≠ '\\' →
      Spells cs s → Spells (c :: cs) (String.utf8EncodeChar c ++ s)
  | escape {letter c : Char} {cs : List Char} {s : Bytes} : (letter, c) ∈ escapes → Spells cs s →
      Spells (c :: cs) (byte '\\' :: byte letter :: s)
  | code {c : Char} {cs : List Char} {digits s : Bytes} : HexDigits c.toNat digits → Spells cs s →
      Spells (c :: cs) (byte '\\' :: byte 'u' :: (digits ++ s))
  | pair {c : Char} {cs : List Char} {leading trailing : Nat} {first second s : Bytes} :
      0xD800 ≤ leading → leading ≤ 0xDBFF → 0xDC00 ≤ trailing → trailing ≤ 0xDFFF →
      c.toNat = 0x10000 + (leading - 0xD800) * 0x400 + (trailing - 0xDC00) →
      HexDigits leading first → HexDigits trailing second → Spells cs s →
      Spells (c :: cs)
        (byte '\\' :: byte 'u' :: (first ++ byte '\\' :: byte 'u' :: (second ++ s)))

/-- The content of any string. What it stands for does not matter here, so
surrogates may stand alone. -/
inductive Characters : Bytes → Prop where
  | nil : Characters []
  | plain {b : UInt8} {s : Bytes} : 0x20 ≤ b → b ≠ byte '"' → b ≠ byte '\\' → Characters s →
      Characters (b :: s)
  | escape {letter c : Char} {s : Bytes} : (letter, c) ∈ escapes → Characters s →
      Characters (byte '\\' :: byte letter :: s)
  | code {n : Nat} {digits s : Bytes} : HexDigits n digits → Characters s →
      Characters (byte '\\' :: byte 'u' :: (digits ++ s))

def Digits (s : Bytes) : Prop := s ≠ [] ∧ ∀ b ∈ s, byte '0' ≤ b ∧ b ≤ byte '9'

instance (s : Bytes) : Decidable (Digits s) :=
  have := List.decidableBAll (fun b => byte '0' ≤ b ∧ b ≤ byte '9') s
  inferInstanceAs (Decidable (s ≠ [] ∧ _))

/-- Digits before the point; more than one do not start with a zero. -/
def WholePart (s : Bytes) : Prop := Digits s ∧ (s.head? = some (byte '0') → s.length = 1)

instance (s : Bytes) : Decidable (WholePart s) :=
  inferInstanceAs (Decidable (Digits s ∧ (s.head? = some (byte '0') → s.length = 1)))

def FractionPart (s : Bytes) : Prop := s = [] ∨ ∃ digits, s = byte '.' :: digits ∧ Digits digits

def PowerPart (s : Bytes) : Prop :=
  s = [] ∨ ∃ mark sign digits, mark ∈ [byte 'e', byte 'E'] ∧
    sign ∈ [[], [byte '+'], [byte '-']] ∧ Digits digits ∧ s = mark :: (sign ++ digits)

inductive IsNumber : Bytes → Prop where
  | mk {sign whole fraction power : Bytes} : sign ∈ [[], [byte '-']] → WholePart whole →
      FractionPart fraction → PowerPart power →
      IsNumber (sign ++ (whole ++ (fraction ++ power)))

def Container.opening : Container → UInt8
  | list => byte '['
  | object => byte '{'

def Container.closing : Container → UInt8
  | list => byte ']'
  | object => byte '}'

/-- What stands before a value in a list or object. -/
inductive Lead : Container → Bytes → Prop where
  | list {s : Bytes} : Blanks s → Lead .list s
  | object {before key colon after : Bytes} : Blanks before → Characters key → Blanks colon →
      Blanks after → Lead .object (before ++ (inQuotes key ++ (colon ++ byte ':' :: after)))

structure Item where
  lead : Bytes
  value : Bytes
  after : Bytes
  after_blanks : Blanks after

def Item.text (i : Item) : Bytes := i.lead ++ (i.value ++ i.after)

def commaSeparated (texts : List Bytes) : Bytes := List.intercalate [byte ','] texts

inductive IsValue : Bytes → Prop where
  | word {word : String} : word ∈ ["null", "true", "false"] → IsValue (word.toList.map byte)
  | number {s : Bytes} : IsNumber s → IsValue s
  | string {s : Bytes} : Characters s → IsValue (inQuotes s)
  | empty {c : Container} {s : Bytes} : Blanks s → IsValue (c.opening :: (s ++ [c.closing]))
  | filled {c : Container} {items : List Item} : items ≠ [] → (∀ i ∈ items, Lead c i.lead) →
      (∀ i ∈ items, IsValue i.value) →
      IsValue (c.opening :: (commaSeparated (items.map Item.text) ++ [c.closing]))

end Feedforward.Json
