/-!
# Places in a text

Places are counted in bytes of the text's UTF-8 form.
-/

set_option autoImplicit false

namespace Fluxion.Text

def byteSize (text : List Char) : Nat := text.foldl (fun size c => size + c.utf8Size) 0

@[simp] theorem byteSize_nil : byteSize [] = 0 := rfl

theorem foldl_utf8Size (size : Nat) (text : List Char) :
    text.foldl (fun size c => size + c.utf8Size) size = size + byteSize text := by
  induction text generalizing size with
  | nil => rfl
  | cons c rest ih =>
    rw [byteSize, List.foldl_cons, List.foldl_cons, ih, ih (0 + c.utf8Size)]
    omega

@[simp] theorem byteSize_cons (c : Char) (text : List Char) :
    byteSize (c :: text) = c.utf8Size + byteSize text := by
  rw [byteSize, List.foldl_cons, foldl_utf8Size]; omega

@[simp] theorem byteSize_append (a b : List Char) :
    byteSize (a ++ b) = byteSize a + byteSize b := by
  induction a with
  | nil => simp
  | cons c rest ih => simp [ih, Nat.add_assoc]

theorem length_le_byteSize (text : List Char) : text.length ≤ byteSize text := by
  induction text with
  | nil => simp
  | cons c rest ih => have := c.utf8Size_pos; simp; omega

/-- The bytes from `start` up to and without `stop`. -/
structure Span where
  start : Nat
  stop : Nat
  deriving DecidableEq, Repr

namespace Span

def shift (offset : Nat) (s : Span) : Span := ⟨offset + s.start, offset + s.stop⟩

def before (s : Span) (byte : Nat) : Span := ⟨s.start, byte⟩

def behind (s : Span) (byte : Nat) : Span := ⟨byte + 1, s.stop⟩

def whole (text : List Char) : Span := ⟨0, byteSize text⟩

end Span

/-- The characters behind the first so many bytes. -/
def dropBytes (size : Nat) : List Char → List Char
  | [] => []
  | c :: rest => if size = 0 then c :: rest else dropBytes (size - c.utf8Size) rest

def takeBytes (size : Nat) : List Char → List Char
  | [] => []
  | c :: rest => if size = 0 then [] else c :: takeBytes (size - c.utf8Size) rest

def slice (text : List Char) (s : Span) : List Char :=
  takeBytes (s.stop - s.start) (dropBytes s.start text)

theorem dropBytes_zero (text : List Char) : dropBytes 0 text = text := by
  cases text <;> simp [dropBytes]

theorem takeBytes_zero (text : List Char) : takeBytes 0 text = [] := by
  cases text <;> simp [takeBytes]

theorem dropBytes_append (a b : List Char) : dropBytes (byteSize a) (a ++ b) = b := by
  induction a with
  | nil => exact dropBytes_zero b
  | cons c rest ih =>
    have := c.utf8Size_pos
    rw [List.cons_append, dropBytes, byteSize_cons, if_neg (by omega), Nat.add_sub_cancel_left, ih]

theorem takeBytes_append (a b : List Char) : takeBytes (byteSize a) (a ++ b) = a := by
  induction a with
  | nil => exact takeBytes_zero b
  | cons c rest ih =>
    have := c.utf8Size_pos
    rw [List.cons_append, takeBytes, byteSize_cons, if_neg (by omega), Nat.add_sub_cancel_left, ih]

theorem slice_append (a b c : List Char) :
    slice (a ++ (b ++ c)) ⟨byteSize a, byteSize a + byteSize b⟩ = b := by
  rw [slice, dropBytes_append, Nat.add_sub_cancel_left, takeBytes_append]

end Fluxion.Text
