/-! Text as it is looked at here: as bytes, trimmed of white space, in lines, and
by positions. A line ends at a line feed, which takes a carriage return before it
along; a carriage return anywhere else is an ordinary character. Text after the
last line feed is a line only if it is not empty. -/
namespace Feedforward.Text

def encode (s : String) : List UInt8 := s.toUTF8.data.toList

def decode? (bytes : List UInt8) : Option String := String.fromUTF8? ⟨bytes.toArray⟩

@[simp] theorem decode?_encode (s : String) : decode? (encode s) = some s := by
  simp [decode?, encode, String.fromUTF8?, s.isValidUTF8, String.fromUTF8]

/-- The 25 characters with the White_Space property. -/
def isSpace (c : Char) : Bool :=
  let n := c.toNat
  (0x09 ≤ n && n ≤ 0x0D) || n == 0x20 || n == 0x85 || n == 0xA0 || n == 0x1680 ||
    (0x2000 ≤ n && n ≤ 0x200A) || n == 0x2028 || n == 0x2029 || n == 0x202F ||
    n == 0x205F || n == 0x3000

def trimStart (s : List Char) : List Char := s.dropWhile isSpace

def trimEnd (s : List Char) : List Char := (s.reverse.dropWhile isSpace).reverse

def trim (s : List Char) : List Char := trimEnd (trimStart s)

def extendFirst (c : Char) : List (List Char) → List (List Char)
  | [] => [[c]]
  | line :: others => (c :: line) :: others

def lines : List Char → List (List Char)
  | [] => []
  | '\r' :: '\n' :: s => [] :: lines s
  | '\n' :: s => [] :: lines s
  | c :: s => extendFirst c (lines s)

@[simp] theorem lines_nil : lines [] = [] := rfl

@[simp] theorem lines_lf (s : List Char) : lines ('\n' :: s) = [] :: lines s := rfl

@[simp] theorem lines_crlf (s : List Char) : lines ('\r' :: '\n' :: s) = [] :: lines s := rfl

def byteLength (s : List Char) : Nat := s.foldr (fun c n => c.utf8Size + n) 0

@[simp] theorem byteLength_nil : byteLength [] = 0 := rfl

@[simp] theorem byteLength_cons (c : Char) (s : List Char) :
    byteLength (c :: s) = c.utf8Size + byteLength s := rfl

@[simp] theorem byteLength_append (s t : List Char) :
    byteLength (s ++ t) = byteLength s + byteLength t := by
  induction s with
  | nil => simp
  | cons c s ih => simp [ih, Nat.add_assoc]

/-- The text from a byte offset on; an offset inside a character passes it. -/
def dropBytes : Nat → List Char → List Char
  | 0, s => s
  | _ + 1, [] => []
  | n + 1, c :: s => dropBytes (n + 1 - c.utf8Size) s

def takeBytes (n : Nat) (s : List Char) : List Char :=
  s.take (s.length - (dropBytes n s).length)

end Feedforward.Text

namespace Feedforward

structure Position where
  offset : Nat
  line : Nat
  column : Nat
deriving DecidableEq, Repr

namespace Position

/-- The first character of a given line, with bytes counted from there. -/
def lineStart (line : Nat) : Position := ⟨0, line, 1⟩

def start : Position := lineStart 1

def advance (p : Position) (c : Char) : Position where
  offset := p.offset + c.utf8Size
  line := if c = '\n' then p.line + 1 else p.line
  column := if c = '\n' then 1 else p.column + 1

def after (p : Position) (s : List Char) : Position := s.foldl advance p

@[simp] theorem after_nil (p : Position) : p.after [] = p := rfl

@[simp] theorem after_cons (p : Position) (c : Char) (s : List Char) :
    p.after (c :: s) = (p.advance c).after s := rfl

@[simp] theorem after_append (p : Position) (s t : List Char) :
    p.after (s ++ t) = (p.after s).after t := by
  simp [after]

theorem after_offset (p : Position) (s : List Char) :
    (p.after s).offset = p.offset + Text.byteLength s := by
  induction s generalizing p with
  | nil => simp
  | cons c s ih => simp [ih, advance, Nat.add_assoc]

end Position
end Feedforward
