import Fluxion.Literal.Basic

/-!
# How a literal is written

A literal has the parts that its notation gives: a sign, a word or digits around a point, an
exponent. What is read has these parts. What has them is read as a whole where it stands alone, and
where more follows, the reader gets no less of the text.
-/

set_option autoImplicit false

namespace Fluxion.Literal

inductive IsSign : Bool → List Char → Prop
  | absent : IsSign false []
  | plus : IsSign false ['+']
  | minus : IsSign true ['-']

def AllDigits (a : List Char) : Prop := ∀ c ∈ a, c.isDigit = true

/-- Digits with at most one point among or around them: those in front of it, those behind it, and
the text. -/
inductive IsSignificand : List Char → List Char → List Char → Prop
  | whole {ds : List Char} (h : AllDigits ds) (hne : ds ≠ []) : IsSignificand ds [] ds
  | pointed {ds fs : List Char} (hd : AllDigits ds) (hf : AllDigits fs)
      (hne : ds ≠ [] ∨ fs ≠ []) : IsSignificand ds fs (ds ++ '.' :: fs)

/-- An exponent and its text; without a text it is zero. -/
inductive IsExponent : Int → List Char → Prop
  | absent : IsExponent 0 []
  | written {negative : Bool} {e : Char} {s ds : List Char} (he : e = 'e' ∨ e = 'E')
      (hs : IsSign negative s) (hd : AllDigits ds) (hne : ds ≠ []) :
      IsExponent
        (if negative then -(Nat.ofDigitChars 10 ds 0 : Int) else Nat.ofDigitChars 10 ds 0)
        (e :: (s ++ ds))

inductive IsNumeral : Numeral → List Char → Prop
  | mk {whole fraction a b : List Char} {n : Int} (ha : IsSignificand whole fraction a)
      (hb : IsExponent n b) : IsNumeral ⟨whole, fraction, n⟩ (a ++ b)

inductive IsUnsigned (negative : Bool) : Literal → List Char → Prop
  | decimal {n : Numeral} {b : List Char} (h : IsNumeral n b) :
      IsUnsigned negative (.decimal negative n) b
  | nan : IsUnsigned negative .nan ['N', 'a', 'N']
  | infinity :
      IsUnsigned negative (.infinity negative) ['I', 'n', 'f', 'i', 'n', 'i', 't', 'y']

inductive Written : Literal → List Char → Prop
  | mk {negative : Bool} {l : Literal} {s b : List Char} (hs : IsSign negative s)
      (hb : IsUnsigned negative l b) : Written l (s ++ b)

theorem sign_written (text : List Char) :
    ∃ s, IsSign (Numeral.sign text).1 s ∧ text = s ++ (Numeral.sign text).2 := by
  unfold Numeral.sign
  split
  · exact ⟨['-'], .minus, rfl⟩
  · exact ⟨['+'], .plus, rfl⟩
  · exact ⟨[], .absent, rfl⟩

theorem allDigits_takeWhile (text : List Char) : AllDigits (text.takeWhile Char.isDigit) :=
  List.all_eq_true.1 List.all_takeWhile

theorem significand_written {text rest whole fraction : List Char}
    (h : Numeral.significand? text = some ((whole, fraction), rest)) :
    ∃ a, IsSignificand whole fraction a ∧ text = a ++ rest := by
  have htext := List.takeWhile_append_dropWhile (p := Char.isDigit) (l := text)
  have hd := allDigits_takeWhile text
  unfold Numeral.significand? at h
  dsimp only at h
  split at h
  · next r hr =>
    split at h
    · simp at h
    · next hne =>
      simp only [Option.some.injEq, Prod.mk.injEq] at h
      obtain ⟨⟨rfl, rfl⟩, rfl⟩ := h
      refine ⟨_, .pointed hd (allDigits_takeWhile r) (Classical.not_and_iff_not_or_not.1 hne), ?_⟩
      rw [List.append_assoc, List.cons_append, List.takeWhile_append_dropWhile, ← hr, htext]
  · split at h
    · simp at h
    · next hne =>
      simp only [Option.some.injEq, Prod.mk.injEq] at h
      obtain ⟨⟨rfl, rfl⟩, rfl⟩ := h
      exact ⟨_, .whole hd hne, htext.symm⟩

theorem exponent_written (text : List Char) :
    ∃ b, IsExponent (Numeral.exponentPart text).1 b ∧
      text = b ++ (Numeral.exponentPart text).2 := by
  unfold Numeral.exponentPart
  split
  · exact ⟨[], .absent, rfl⟩
  · next c rest =>
    obtain ⟨s, hs, hrest⟩ := sign_written rest
    dsimp only
    split
    · next he =>
      refine ⟨_, .written he.1 hs (allDigits_takeWhile _) he.2, ?_⟩
      rw [List.cons_append, List.append_assoc, List.takeWhile_append_dropWhile, ← hrest]
    · exact ⟨[], .absent, rfl⟩

theorem numeral_written {text rest : List Char} {n : Numeral}
    (h : Numeral.read text = some (n, rest)) : ∃ b, IsNumeral n b ∧ text = b ++ rest := by
  unfold Numeral.read at h
  split at h
  · simp at h
  · next hp =>
    simp only [Option.some.injEq, Prod.mk.injEq] at h
    obtain ⟨rfl, rfl⟩ := h
    obtain ⟨a, ha, hbody⟩ := significand_written hp
    obtain ⟨b, hb, hmore⟩ := exponent_written _
    refine ⟨a ++ b, .mk ha hb, ?_⟩
    rw [List.append_assoc, ← hmore, ← hbody]

theorem read_written {text rest : List Char} {l : Literal} (h : read text = some (l, rest)) :
    ∃ p, Written l p ∧ text = p ++ rest := by
  obtain ⟨s, hs, htext⟩ := sign_written text
  unfold read at h
  dsimp only at h
  split at h
  · next r hr =>
    simp only [Option.some.injEq, Prod.mk.injEq] at h
    obtain ⟨rfl, rfl⟩ := h
    refine ⟨_, .mk hs .nan, ?_⟩
    rw [htext, hr, List.append_assoc]
    rfl
  · next r hr =>
    simp only [Option.some.injEq, Prod.mk.injEq] at h
    obtain ⟨rfl, rfl⟩ := h
    refine ⟨_, .mk hs .infinity, ?_⟩
    rw [htext, hr, List.append_assoc]
    rfl
  · split at h
    · simp at h
    · next hr =>
      simp only [Option.some.injEq, Prod.mk.injEq] at h
      obtain ⟨rfl, rfl⟩ := h
      obtain ⟨b, hb, hbody⟩ := numeral_written hr
      refine ⟨_, .mk hs (.decimal hb), ?_⟩
      rw [List.append_assoc, ← hbody, ← htext]

theorem AllDigits.span {a : List Char} (h : AllDigits a) (rest : List Char)
    (hr : rest.head?.any Char.isDigit = false) :
    (a ++ rest).takeWhile Char.isDigit = a ∧ (a ++ rest).dropWhile Char.isDigit = rest := by
  have stop : rest.takeWhile Char.isDigit = [] ∧ rest.dropWhile Char.isDigit = rest := by
    cases rest with
    | nil => exact ⟨rfl, rfl⟩
    | cons c rest =>
      have hc : ¬ c.isDigit = true := by simpa using hr
      exact ⟨List.takeWhile_cons_of_neg hc, List.dropWhile_cons_of_neg hc⟩
  rw [List.takeWhile_append_of_pos h, List.dropWhile_append_of_pos h, stop.1, stop.2,
    List.append_nil]
  exact ⟨rfl, rfl⟩

theorem AllDigits.head {a : List Char} (h : AllDigits a) (hne : a ≠ []) :
    ∃ c rest, a = c :: rest ∧ c.isDigit = true := by
  obtain ⟨c, rest, rfl⟩ := List.exists_cons_of_ne_nil hne
  exact ⟨c, rest, rfl, h c List.mem_cons_self⟩

def isStart (c : Char) : Bool := c.isDigit || c == '.'

theorem ne_of_isStart {c m : Char} (h : isStart c = true) (hm : isStart m = false) : c ≠ m := by
  rintro rfl
  rw [h] at hm
  exact Bool.noConfusion hm

theorem IsSign.append {negative : Bool} {s : List Char} (hs : IsSign negative s) {c : Char}
    (hplus : c ≠ '+') (hminus : c ≠ '-') (rest : List Char) :
    Numeral.sign (s ++ c :: rest) = (negative, c :: rest) := by
  cases hs with
  | plus => rfl
  | minus => rfl
  | absent =>
    rw [List.nil_append]
    unfold Numeral.sign
    split
    · next h => exact absurd (List.cons.inj h).1 hminus
    · next h => exact absurd (List.cons.inj h).1 hplus
    · rfl

theorem IsSign.append_start {negative : Bool} {s : List Char} (hs : IsSign negative s) {c : Char}
    (hc : isStart c = true) (rest : List Char) :
    Numeral.sign (s ++ c :: rest) = (negative, c :: rest) :=
  hs.append (ne_of_isStart hc rfl) (ne_of_isStart hc rfl) rest

theorem isStart_digit {c : Char} (h : c.isDigit = true) : isStart c = true := by
  rw [isStart, h, Bool.true_or]

theorem IsSignificand.head {whole fraction a : List Char} (h : IsSignificand whole fraction a) :
    ∃ c rest, a = c :: rest ∧ isStart c = true := by
  cases h with
  | whole h hne =>
    obtain ⟨c, rest, ha, hc⟩ := h.head hne
    exact ⟨c, rest, ha, isStart_digit hc⟩
  | pointed hd =>
    cases whole with
    | nil => exact ⟨'.', _, rfl, rfl⟩
    | cons c ds => exact ⟨c, _, rfl, isStart_digit (hd c List.mem_cons_self)⟩

theorem IsExponent.head {n : Int} {b : List Char} (h : IsExponent n b) :
    b.head?.any isStart = false := by
  cases h with
  | absent => rfl
  | written he =>
    rcases he with rfl | rfl
    · rfl
    · rfl

theorem significand_point {ds : List Char} (h : AllDigits ds) (rest : List Char) :
    Numeral.significand? (ds ++ '.' :: rest) =
      if ds = [] ∧ rest.takeWhile Char.isDigit = [] then none
      else some ((ds, rest.takeWhile Char.isDigit), rest.dropWhile Char.isDigit) := by
  have hpoint := h.span ('.' :: rest) rfl
  rw [Numeral.significand?, hpoint.1, hpoint.2]
  rfl

theorem significand_exact {whole fraction a rest : List Char}
    (h : IsSignificand whole fraction a) (hr : rest.head?.any isStart = false) :
    Numeral.significand? (a ++ rest) = some ((whole, fraction), rest) := by
  have hdigit : rest.head?.any Char.isDigit = false := by
    cases rest with
    | nil => rfl
    | cons c rest => exact (Bool.or_eq_false_iff.1 hr).1
  cases h with
  | whole h hne =>
    rw [Numeral.significand?, (h.span rest hdigit).1, (h.span rest hdigit).2]
    dsimp only
    split
    · cases hr
    · exact if_neg hne
  | pointed hd hf hne =>
    rw [List.append_assoc, List.cons_append, significand_point hd, (hf.span rest hdigit).1,
      (hf.span rest hdigit).2]
    exact if_neg (Classical.not_and_iff_not_or_not.2 hne)

theorem significand_append {whole fraction a : List Char} (h : IsSignificand whole fraction a)
    (rest : List Char) :
    ∃ parts left, Numeral.significand? (a ++ rest) = some (parts, left) ∧ left <:+ rest := by
  cases h with
  | whole h hne =>
    have hmore : whole ++ rest.takeWhile Char.isDigit ≠ [] :=
      List.append_ne_nil_of_left_ne_nil hne _
    have hdrop : rest.dropWhile Char.isDigit <:+ rest := List.dropWhile_suffix _
    rw [Numeral.significand?, List.takeWhile_append_of_pos h, List.dropWhile_append_of_pos h]
    dsimp only
    split
    · next r hrest =>
      have hr : r.dropWhile Char.isDigit <:+ r := List.dropWhile_suffix _
      rw [hrest] at hdrop
      rw [if_neg fun hnil => hmore hnil.1]
      exact ⟨_, _, rfl, hr.trans ((List.suffix_cons '.' r).trans hdrop)⟩
    · rw [if_neg hmore]
      exact ⟨_, _, rfl, hdrop⟩
  | pointed hd hf hne =>
    rw [List.append_assoc, List.cons_append, significand_point hd, List.takeWhile_append_of_pos hf,
      List.dropWhile_append_of_pos hf, if_neg]
    · exact ⟨_, _, rfl, List.dropWhile_suffix _⟩
    · rintro ⟨hwhole, hfraction⟩
      exact hne.elim (· hwhole) (· (List.append_eq_nil_iff.1 hfraction).1)

theorem exponent_append {negative : Bool} {e : Char} {s ds : List Char}
    (he : e = 'e' ∨ e = 'E') (hs : IsSign negative s) (hd : AllDigits ds) (hne : ds ≠ [])
    (rest : List Char) :
    Numeral.exponentPart (e :: (s ++ ds) ++ rest) =
      (if negative then -(Nat.ofDigitChars 10 (ds ++ rest.takeWhile Char.isDigit) 0 : Int)
        else Nat.ofDigitChars 10 (ds ++ rest.takeWhile Char.isDigit) 0,
        rest.dropWhile Char.isDigit) := by
  obtain ⟨c, more, rfl, hc⟩ := hd.head hne
  have hsign := hs.append_start (isStart_digit hc) (more ++ rest)
  rw [List.cons_append, List.append_assoc, Numeral.exponentPart, List.cons_append, hsign]
  dsimp only
  rw [← List.cons_append, List.takeWhile_append_of_pos hd, List.dropWhile_append_of_pos hd]
  exact if_pos ⟨he, List.append_ne_nil_of_left_ne_nil hne _⟩

theorem exponent_exact {n : Int} {b : List Char} (h : IsExponent n b) :
    Numeral.exponentPart b = (n, []) := by
  cases h with
  | absent => rfl
  | written he hs hd hne =>
    have happend := exponent_append he hs hd hne []
    rwa [List.append_nil, List.takeWhile_nil, List.append_nil, List.dropWhile_nil] at happend

theorem numeral_exact {n : Numeral} {b : List Char} (h : IsNumeral n b) :
    Numeral.read b = some (n, []) := by
  obtain ⟨ha, hb⟩ := h
  rw [Numeral.read, significand_exact ha hb.head]
  dsimp only
  rw [exponent_exact hb]

theorem numeral_append {n : Numeral} {b : List Char} (h : IsNumeral n b) (rest : List Char) :
    ∃ n' left, Numeral.read (b ++ rest) = some (n', left) ∧ left <:+ rest := by
  obtain ⟨ha, hb⟩ := h
  cases hb with
  | absent =>
    obtain ⟨parts, left, hread, hleft⟩ := significand_append ha rest
    obtain ⟨b, -, hexponent⟩ := exponent_written left
    rw [List.append_nil, Numeral.read, hread]
    exact ⟨_, _, rfl, List.IsSuffix.trans ⟨b, hexponent.symm⟩ hleft⟩
  | @written negative e s ds he hs hd hne =>
    -- the letter of the exponent ends the digits
    have hhead : (e :: (s ++ ds) ++ rest).head?.any isStart = false :=
      (IsExponent.written he hs hd hne).head
    rw [List.append_assoc, Numeral.read, significand_exact ha hhead]
    dsimp only
    rw [exponent_append he hs hd hne]
    exact ⟨_, _, rfl, List.dropWhile_suffix _⟩

theorem IsNumeral.head {n : Numeral} {b : List Char} (h : IsNumeral n b) :
    ∃ c rest, b = c :: rest ∧ isStart c = true := by
  obtain ⟨ha, -⟩ := h
  obtain ⟨c, rest, rfl, hc⟩ := ha.head
  exact ⟨c, _, rfl, hc⟩

theorem read_start {negative : Bool} {s : List Char} (hs : IsSign negative s) {c : Char}
    (hc : isStart c = true) (rest : List Char) :
    read (s ++ c :: rest) =
      (Numeral.read (c :: rest)).map fun p => (.decimal negative p.1, p.2) := by
  unfold read
  rw [hs.append_start hc]
  dsimp only
  split
  · next h => exact absurd (List.cons.inj h).1 (ne_of_isStart hc rfl)
  · next h => exact absurd (List.cons.inj h).1 (ne_of_isStart hc rfl)
  · cases Numeral.read (c :: rest) with
    | none => rfl
    | some p => rfl

theorem read_nan {negative : Bool} {s : List Char} (hs : IsSign negative s) (rest : List Char) :
    read (s ++ ['N', 'a', 'N'] ++ rest) = some (.nan, rest) := by
  cases hs with
  | absent => rfl
  | plus => rfl
  | minus => rfl

theorem read_infinity {negative : Bool} {s : List Char} (hs : IsSign negative s)
    (rest : List Char) :
    read (s ++ ['I', 'n', 'f', 'i', 'n', 'i', 't', 'y'] ++ rest) =
      some (.infinity negative, rest) := by
  cases hs with
  | absent => rfl
  | plus => rfl
  | minus => rfl

theorem read_exact {l : Literal} {p : List Char} (h : Written l p) : read p = some (l, []) := by
  obtain ⟨hs, hb⟩ := h
  cases hb with
  | decimal hn =>
    obtain ⟨c, rest, rfl, hc⟩ := hn.head
    rw [read_start hs hc, numeral_exact hn]
    rfl
  | nan =>
    have hread := read_nan hs []
    rwa [List.append_nil] at hread
  | infinity =>
    have hread := read_infinity hs []
    rwa [List.append_nil] at hread

/-- Where more follows the text of a literal, the literal that is read has this text or more. -/
theorem read_append {l : Literal} {p : List Char} (h : Written l p) (rest : List Char) :
    ∃ l' left, read (p ++ rest) = some (l', left) ∧ left <:+ rest := by
  obtain ⟨hs, hb⟩ := h
  cases hb with
  | decimal hn =>
    obtain ⟨n', left, hread, hleft⟩ := numeral_append hn rest
    obtain ⟨c, more, rfl, hc⟩ := hn.head
    rw [List.append_assoc, List.cons_append, read_start hs hc, ← List.cons_append, hread]
    exact ⟨_, _, rfl, hleft⟩
  | nan => exact ⟨_, _, read_nan hs rest, List.suffix_refl rest⟩
  | infinity => exact ⟨_, _, read_infinity hs rest, List.suffix_refl rest⟩

theorem written_iff {l : Literal} {text : List Char} :
    Written l text ↔ read text = some (l, []) := by
  constructor
  · exact read_exact
  · intro h
    obtain ⟨p, hp, htext⟩ := read_written h
    rw [List.append_nil] at htext
    exact htext ▸ hp

theorem ofText?_iff {text : List Char} {v : Float} :
    ofText? text = some v ↔ ∃ l, Written l text ∧ v = l.value := by
  constructor
  · intro h
    unfold ofText? at h
    split at h
    · next l hread => exact ⟨l, written_iff.2 hread, (Option.some.inj h).symm⟩
    · cases h
  · rintro ⟨l, hl, rfl⟩
    rw [ofText?, read_exact hl]

end Fluxion.Literal
