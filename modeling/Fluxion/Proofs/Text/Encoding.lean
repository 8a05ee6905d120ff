import Fluxion.Scan.Bytes
import Fluxion.Text.Span

/-!
# The bytes of a text

A character is one byte below 128 or several bytes of 128 and above. So all places that a reader of
bytes can tell apart by single bytes are the beginnings of characters.
-/

set_option autoImplicit false

namespace Fluxion.Text

def encode (text : List Char) : List UInt8 := text.flatMap String.utf8EncodeChar

@[simp] theorem encode_append (a b : List Char) : encode (a ++ b) = encode a ++ encode b :=
  List.flatMap_append

theorem length_encode (text : List Char) : (encode text).length = byteSize text := by
  induction text with
  | nil => rfl
  | cons c rest ih =>
    rw [encode, List.flatMap_cons, List.length_append, String.length_utf8EncodeChar, byteSize_cons]
    exact congrArg (c.utf8Size + ·) ih

theorem byteSize_eq_zero {text : List Char} : byteSize text = 0 ↔ text = [] := by
  constructor
  · intro h
    have hle := length_le_byteSize text
    exact List.eq_nil_of_length_eq_zero (by omega)
  · rintro rfl
    rfl

def isBoundary : Nat → List Char → Bool
  | 0, _ => true
  | _ + 1, [] => false
  | n + 1, c :: rest => decide (c.utf8Size ≤ n + 1) && isBoundary (n + 1 - c.utf8Size) rest

theorem isBoundary_append (a b : List Char) : isBoundary (byteSize a) (a ++ b) = true := by
  induction a with
  | nil => cases b <;> rfl
  | cons c a ih =>
    have hpos := c.utf8Size_pos
    obtain ⟨n, hn⟩ : ∃ n, byteSize (c :: a) = n + 1 :=
      ⟨byteSize (c :: a) - 1, by rw [byteSize_cons]; omega⟩
    have hrest : n + 1 - c.utf8Size = byteSize a := by
      rw [← hn, byteSize_cons]
      omega
    have hle : c.utf8Size ≤ n + 1 := by
      rw [← hn, byteSize_cons]
      omega
    rw [hn, List.cons_append, isBoundary, hrest, ih, decide_eq_true hle]
    rfl

theorem toNat_letter (b : UInt8) : (Char.ofNat b.toNat).toNat = b.toNat := by
  have hb : b.toNat.isValidChar := .inl (Nat.lt_trans b.toNat_lt (by decide))
  rw [Char.ofNat, dif_pos hb]
  rfl

theorem byte_large {c : Char} (hc : ¬ c.toNat ≤ 127) {b : UInt8}
    (hb : b ∈ String.utf8EncodeChar c) : 128 ≤ b.toNat := by
  simp only [String.utf8EncodeChar, if_neg (show ¬ c.val.toNat ≤ 127 from hc)] at hb
  split at hb
  · simp only [List.mem_cons, List.not_mem_nil, or_false] at hb
    rcases hb with rfl | rfl <;> simp only [UInt8.toNat_ofNat'] <;> omega
  · split at hb
    · simp only [List.mem_cons, List.not_mem_nil, or_false] at hb
      rcases hb with rfl | rfl | rfl <;> simp only [UInt8.toNat_ofNat'] <;> omega
    · simp only [List.mem_cons, List.not_mem_nil, or_false] at hb
      rcases hb with rfl | rfl | rfl | rfl <;> simp only [UInt8.toNat_ofNat'] <;> omega

theorem encode_small {c : Char} (hc : c.toNat ≤ 127) :
    Scan.textOfBytes (String.utf8EncodeChar c) = [c] := by
  have hmod : c.val.toNat % 2 ^ 8 = c.toNat := Nat.mod_eq_of_lt (by simp only [Char.toNat] at hc; omega)
  simp only [String.utf8EncodeChar, Scan.textOfBytes, if_pos (show c.val.toNat ≤ 127 from hc),
    List.map_cons, List.map_nil, UInt8.toNat_ofNat']
  rw [hmod, Char.ofNat_toNat]

end Fluxion.Text
