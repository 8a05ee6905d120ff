import Fluxion.Proofs.Literal.Written
import Mathlib.Computability.RegularExpressions

/-!
# The notation of literals as regular expressions

The three kinds of literals are three regular languages, and what these match is what has the parts
of such a literal.
-/

set_option autoImplicit false

namespace Fluxion.Literal

def oneOf (cs : List Char) : RegularExpression Char := (cs.map .char).sum

def word (cs : List Char) : RegularExpression Char := (cs.map .char).prod

def optional (r : RegularExpression Char) : RegularExpression Char := 1 + r

def digitPattern : RegularExpression Char :=
  oneOf ['0', '1', '2', '3', '4', '5', '6', '7', '8', '9']

def digitsPattern : RegularExpression Char := digitPattern * digitPattern.star

def signPattern : RegularExpression Char := optional (oneOf ['+', '-'])

/-- This is `[0-9]+([.][0-9]*)?|[.][0-9]+`. -/
def significandPattern : RegularExpression Char :=
  digitsPattern * optional (.char '.' * digitPattern.star) + .char '.' * digitsPattern

/-- This is `([eE][+-]?[0-9]+)?`. -/
def exponentPattern : RegularExpression Char :=
  optional (oneOf ['e', 'E'] * (signPattern * digitsPattern))

def decimalPattern : RegularExpression Char :=
  signPattern * (significandPattern * exponentPattern)

/-- This is `[+-]?NaN`. -/
def nanPattern : RegularExpression Char := signPattern * word ['N', 'a', 'N']

/-- This is `[+-]?Infinity`. -/
def infinityPattern : RegularExpression Char :=
  signPattern * word ['I', 'n', 'f', 'i', 'n', 'i', 't', 'y']

def literalPattern : RegularExpression Char := decimalPattern + nanPattern + infinityPattern

def pattern : Literal → RegularExpression Char
  | .decimal .. => decimalPattern
  | .nan => nanPattern
  | .infinity _ => infinityPattern

section
variable {r s : RegularExpression Char} {x : List Char}

theorem mem_either : x ∈ (r + s).matches' ↔ x ∈ r.matches' ∨ x ∈ s.matches' := by
  rw [RegularExpression.matches'_add, Language.mem_add]

theorem mem_both :
    x ∈ (r * s).matches' ↔ ∃ a ∈ r.matches', ∃ b ∈ s.matches', a ++ b = x := by
  rw [RegularExpression.matches'_mul, Language.mem_mul]

theorem mem_optional : x ∈ (optional r).matches' ↔ x = [] ∨ x ∈ r.matches' := by
  rw [optional, mem_either, RegularExpression.matches'_epsilon, Language.mem_one]

theorem mem_char {c : Char} : x ∈ (RegularExpression.char c).matches' ↔ x = [c] := Iff.rfl

theorem mem_oneOf {cs : List Char} : x ∈ (oneOf cs).matches' ↔ ∃ c ∈ cs, x = [c] := by
  induction cs with
  | nil => simp [oneOf, Language.notMem_zero]
  | cons c cs ih =>
    have hsum : oneOf (c :: cs) = .char c + oneOf cs := rfl
    rw [hsum, mem_either, mem_char, ih, List.exists_mem_cons_iff]

theorem mem_word {cs : List Char} : x ∈ (word cs).matches' ↔ x = cs := by
  induction cs generalizing x with
  | nil => exact Iff.rfl
  | cons c cs ih =>
    have hprod : word (c :: cs) = .char c * word cs := rfl
    rw [hprod, mem_both]
    constructor
    · rintro ⟨a, ha, b, hb, rfl⟩
      rw [mem_char.1 ha, ih.1 hb]
      rfl
    · rintro rfl
      exact ⟨[c], mem_char.2 rfl, cs, ih.2 rfl, rfl⟩

theorem isDigit_iff {c : Char} :
    c.isDigit = true ↔ c ∈ ['0', '1', '2', '3', '4', '5', '6', '7', '8', '9'] := by
  constructor
  · intro h
    have hall : ∀ n < 10, Char.ofNat (48 + n) ∈
        ['0', '1', '2', '3', '4', '5', '6', '7', '8', '9'] := by decide
    have hrange := Char.isDigit_iff_toNat.1 h
    simp only [Char.reduceToNat] at hrange
    have hc := hall (c.toNat - 48) (by omega)
    rwa [Nat.add_sub_cancel' hrange.1, Char.ofNat_toNat] at hc
  · exact List.all_eq_true.1 rfl c

theorem mem_digit : x ∈ digitPattern.matches' ↔ ∃ c, x = [c] ∧ c.isDigit = true := by
  rw [digitPattern, mem_oneOf]
  constructor
  · rintro ⟨c, hc, rfl⟩
    exact ⟨c, rfl, isDigit_iff.2 hc⟩
  · rintro ⟨c, rfl, hc⟩
    exact ⟨c, isDigit_iff.1 hc, rfl⟩

theorem mem_star_digit : x ∈ digitPattern.star.matches' ↔ AllDigits x := by
  rw [RegularExpression.matches'_star]
  constructor
  · intro h
    obtain ⟨parts, rfl, hparts⟩ := Language.mem_kstar.1 h
    intro c hc
    obtain ⟨part, hpart, hc⟩ := List.mem_flatten.1 hc
    obtain ⟨d, rfl, hd⟩ := mem_digit.1 (hparts part hpart)
    rwa [List.mem_singleton.1 hc]
  · intro h
    refine Language.mem_kstar.2 ⟨x.map fun c => [c], ?_, ?_⟩
    · rw [← List.flatMap_def, List.flatMap_singleton']
    · intro part hpart
      obtain ⟨c, hc, rfl⟩ := List.mem_map.1 hpart
      exact mem_digit.2 ⟨c, rfl, h c hc⟩

theorem mem_digits : x ∈ digitsPattern.matches' ↔ AllDigits x ∧ x ≠ [] := by
  rw [digitsPattern, mem_both]
  constructor
  · rintro ⟨a, ha, b, hb, rfl⟩
    obtain ⟨c, rfl, hc⟩ := mem_digit.1 ha
    refine ⟨?_, List.cons_ne_nil c b⟩
    intro d hd
    rcases List.mem_cons.1 hd with rfl | hd
    · exact hc
    · exact mem_star_digit.1 hb d hd
  · rintro ⟨h, hne⟩
    obtain ⟨c, rest, rfl, hc⟩ := h.head hne
    refine ⟨[c], mem_digit.2 ⟨c, rfl, hc⟩, rest, mem_star_digit.2 ?_, rfl⟩
    exact fun d hd => h d (List.mem_cons_of_mem c hd)

theorem mem_sign : x ∈ signPattern.matches' ↔ ∃ negative, IsSign negative x := by
  rw [signPattern, mem_optional, mem_oneOf]
  constructor
  · rintro (rfl | ⟨c, hc, rfl⟩)
    · exact ⟨_, .absent⟩
    · rcases List.mem_pair.1 hc with rfl | rfl
      · exact ⟨_, .plus⟩
      · exact ⟨_, .minus⟩
  · rintro ⟨negative, hs⟩
    cases hs with
    | absent => exact .inl rfl
    | plus => exact .inr ⟨'+', List.mem_pair.2 (.inl rfl), rfl⟩
    | minus => exact .inr ⟨'-', List.mem_pair.2 (.inr rfl), rfl⟩

theorem mem_significand :
    x ∈ significandPattern.matches' ↔ ∃ whole fraction, IsSignificand whole fraction x := by
  rw [significandPattern, mem_either, mem_both, mem_both]
  constructor
  · rintro (⟨ds, hds, b, hb, rfl⟩ | ⟨a, ha, fs, hfs, rfl⟩)
    · obtain ⟨hd, hne⟩ := mem_digits.1 hds
      rcases mem_optional.1 hb with rfl | hb
      · rw [List.append_nil]
        exact ⟨_, _, .whole hd hne⟩
      · obtain ⟨point, hpoint, fs, hfs, rfl⟩ := mem_both.1 hb
        obtain rfl := mem_char.1 hpoint
        exact ⟨_, _, .pointed hd (mem_star_digit.1 hfs) (.inl hne)⟩
    · obtain rfl := mem_char.1 ha
      obtain ⟨hf, hne⟩ := mem_digits.1 hfs
      exact ⟨_, _, .pointed (List.forall_mem_nil _) hf (.inr hne)⟩
  · rintro ⟨whole, fraction, ha⟩
    cases ha with
    | whole h hne => exact .inl ⟨_, mem_digits.2 ⟨h, hne⟩, [], mem_optional.2 (.inl rfl), by simp⟩
    | pointed hd hf hne =>
      by_cases hwhole : whole = []
      · subst hwhole
        have hfs := mem_digits.2 ⟨hf, hne.resolve_left (· rfl)⟩
        exact .inr ⟨_, mem_char.2 rfl, _, hfs, rfl⟩
      · have hbehind := mem_both.2 ⟨['.'], mem_char.2 rfl, _, mem_star_digit.2 hf, rfl⟩
        exact .inl ⟨_, mem_digits.2 ⟨hd, hwhole⟩, _, mem_optional.2 (.inr hbehind), rfl⟩

theorem mem_exponent : x ∈ exponentPattern.matches' ↔ ∃ n, IsExponent n x := by
  rw [exponentPattern, mem_optional, mem_both]
  constructor
  · rintro (rfl | ⟨a, ha, b, hb, rfl⟩)
    · exact ⟨_, .absent⟩
    · obtain ⟨e, he, rfl⟩ := mem_oneOf.1 ha
      obtain ⟨s, hs, ds, hds, rfl⟩ := mem_both.1 hb
      obtain ⟨negative, hs⟩ := mem_sign.1 hs
      obtain ⟨hd, hne⟩ := mem_digits.1 hds
      have hwritten := IsExponent.written (List.mem_pair.1 he) hs hd hne
      exact ⟨_, hwritten⟩
  · rintro ⟨n, hb⟩
    cases hb with
    | absent => exact .inl rfl
    | @written negative e s ds he hs hd hne =>
      have hmark := mem_oneOf.2 ⟨e, List.mem_pair.2 he, rfl⟩
      have hbehind := mem_both.2 ⟨s, mem_sign.2 ⟨_, hs⟩, ds, mem_digits.2 ⟨hd, hne⟩, rfl⟩
      exact .inr ⟨[e], hmark, s ++ ds, hbehind, rfl⟩

theorem mem_decimal :
    x ∈ decimalPattern.matches' ↔ ∃ negative n, Written (.decimal negative n) x := by
  rw [decimalPattern, mem_both]
  constructor
  · rintro ⟨s, hs, body, hbody, rfl⟩
    obtain ⟨negative, hs⟩ := mem_sign.1 hs
    obtain ⟨a, ha, b, hb, rfl⟩ := mem_both.1 hbody
    obtain ⟨whole, fraction, ha⟩ := mem_significand.1 ha
    obtain ⟨n, hb⟩ := mem_exponent.1 hb
    exact ⟨_, _, .mk hs (.decimal (.mk ha hb))⟩
  · rintro ⟨negative, n, hs, hb⟩
    obtain ⟨ha, hb⟩ := hb
    have hbody := mem_both.2 ⟨_, mem_significand.2 ⟨_, _, ha⟩, _, mem_exponent.2 ⟨_, hb⟩, rfl⟩
    exact ⟨_, mem_sign.2 ⟨_, hs⟩, _, hbody, rfl⟩

theorem mem_nan : x ∈ nanPattern.matches' ↔ Written .nan x := by
  rw [nanPattern, mem_both]
  constructor
  · rintro ⟨s, hs, b, hb, rfl⟩
    obtain ⟨negative, hs⟩ := mem_sign.1 hs
    obtain rfl := mem_word.1 hb
    exact .mk hs .nan
  · rintro ⟨hs, hb⟩
    cases hb
    exact ⟨_, mem_sign.2 ⟨_, hs⟩, _, mem_word.2 rfl, rfl⟩

theorem mem_infinity :
    x ∈ infinityPattern.matches' ↔ ∃ negative, Written (.infinity negative) x := by
  rw [infinityPattern, mem_both]
  constructor
  · rintro ⟨s, hs, b, hb, rfl⟩
    obtain ⟨negative, hs⟩ := mem_sign.1 hs
    obtain rfl := mem_word.1 hb
    exact ⟨_, .mk hs .infinity⟩
  · rintro ⟨negative, hs, hb⟩
    cases hb
    exact ⟨_, mem_sign.2 ⟨_, hs⟩, _, mem_word.2 rfl, rfl⟩

theorem Written.mem_pattern {l : Literal} (h : Written l x) : x ∈ l.pattern.matches' := by
  cases l with
  | decimal negative n => exact mem_decimal.2 ⟨_, _, h⟩
  | nan => exact mem_nan.2 h
  | infinity negative => exact mem_infinity.2 ⟨_, h⟩

theorem mem_literal : x ∈ literalPattern.matches' ↔ ∃ l, Written l x := by
  rw [literalPattern, mem_either, mem_either, mem_decimal, mem_nan, mem_infinity]
  constructor
  · rintro ((⟨negative, n, h⟩ | h) | ⟨negative, h⟩)
    · exact ⟨_, h⟩
    · exact ⟨_, h⟩
    · exact ⟨_, h⟩
  · rintro ⟨l, h⟩
    cases l with
    | decimal negative n => exact .inl (.inl ⟨_, _, h⟩)
    | nan => exact .inl (.inr h)
    | infinity negative => exact .inr ⟨_, h⟩

end

end Fluxion.Literal
