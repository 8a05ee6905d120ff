import Fluxion.Text.Span

/-!
# A text without its blanks, and the way back

Blank are the characters with the property `White_Space`. Every character that is kept remembers
where it stood, so a span of the stripped text can be shown in the text as it was given.
-/

set_option autoImplicit false

namespace Fluxion.Text

def blankRanges : List (Nat × Nat) :=
  [(0x0009, 0x000d), (0x0020, 0x0020), (0x0085, 0x0085), (0x00a0, 0x00a0), (0x1680, 0x1680),
    (0x2000, 0x200a), (0x2028, 0x2029), (0x202f, 0x202f), (0x205f, 0x205f), (0x3000, 0x3000)]

def isBlank (c : Char) : Bool :=
  blankRanges.any fun range => decide (range.1 ≤ c.toNat ∧ c.toNat ≤ range.2)

def trimStart (text : List Char) : List Char := text.dropWhile isBlank

def trimEnd (text : List Char) : List Char := (text.reverse.dropWhile isBlank).reverse

def trim (text : List Char) : List Char := trimEnd (trimStart text)

def strip (text : List Char) : List Char := text.filter fun c => !isBlank c

structure Placed where
  char : Char
  offset : Nat
  deriving DecidableEq, Repr

def placedFrom (offset : Nat) : List Char → List Placed
  | [] => []
  | c :: rest => ⟨c, offset⟩ :: placedFrom (offset + c.utf8Size) rest

def Placed.bytes (p : Placed) : List Nat := List.range' p.offset p.char.utf8Size

structure Stripped where
  kept : List Placed
  givenSize : Nat
  deriving DecidableEq, Repr

namespace Stripped

def ofText (given : List Char) : Stripped :=
  ⟨(placedFrom 0 given).filter fun p => !isBlank p.char, byteSize given⟩

def text (s : Stripped) : List Char := s.kept.map Placed.char

def offsets (s : Stripped) : List Nat := s.kept.flatMap Placed.bytes

/-- The place of a byte of the stripped text; the end of the given text for all that lie behind. -/
def place (s : Stripped) (byte : Nat) : Nat := s.offsets[byte]?.getD s.givenSize

/-- The part of the given text from which a span of the stripped text came. An empty span stays
empty, in front of the next byte that was kept. -/
def origin (s : Stripped) (range : Span) : Span :=
  if range.stop ≤ range.start then ⟨s.place range.start, s.place range.start⟩
  else ⟨s.place range.start, s.place (range.stop - 1) + 1⟩

theorem chars_placedFrom (offset : Nat) (text : List Char) :
    (placedFrom offset text).map Placed.char = text := by
  induction text generalizing offset with
  | nil => rfl
  | cons c rest ih => simp [placedFrom, ih]

theorem text_ofText (given : List Char) : (ofText given).text = strip given := by
  conv => rhs; rw [strip, ← chars_placedFrom 0 given, List.filter_map]
  rfl

end Stripped

end Fluxion.Text
