import Mathlib.Algebra.Algebra.Rat
import Mathlib.Algebra.DualNumber
import Mathlib.Data.Rat.Floor
import Mathlib.Tactic.Ring
import Fluxion.Proofs.Binary64.Rational
import Fluxion.Proofs.Expr.Rules

/-!
# Formulas over dual numbers

A formula has a value wherever numbers can be added, multiplied and inverted and a logarithm and a
power are given. Over the dual numbers `a + b ε` the coefficient of `ε` carries the derivative: the
value at `x + ε` has the value of the derivative at `x` for its coefficient, in exact arithmetic.
-/

set_option autoImplicit false

namespace Fluxion

open DualNumber TrivSqZeroExt

/-- What arithmetic does not give: a logarithm, and powers with exponents that are no literals. -/
structure Functions (K : Type) where
  log : K → K
  pow : K → K → K

def Functions.dual (F : Functions ℚ) : Functions ℚ[ε] where
  log u := inl (F.log u.fst) + inr (u.snd / u.fst)
  pow u v := inl (F.pow u.fst v.fst) +
    inr (F.log u.fst * F.pow u.fst v.fst * v.snd + v.fst * F.pow u.fst v.fst * (u.snd / u.fst))

section
variable (F : Functions ℚ)

@[simp] theorem fst_dual_log (u : ℚ[ε]) : (F.dual.log u).fst = F.log u.fst := by
  simp [Functions.dual]

@[simp] theorem snd_dual_log (u : ℚ[ε]) : (F.dual.log u).snd = u.snd / u.fst := by
  simp [Functions.dual]

@[simp] theorem fst_dual_pow (u v : ℚ[ε]) : (F.dual.pow u v).fst = F.pow u.fst v.fst := by
  simp [Functions.dual]

@[simp] theorem snd_dual_pow_inl (c : ℚ) (v : ℚ[ε]) :
    (F.dual.pow (inl c) v).snd = F.log c * F.pow c v.fst * v.snd := by
  simp [Functions.dual]

end

def wholePower {K : Type} [Monoid K] [Inv K] (u : K) : ℤ → K
  | .ofNat n => u ^ n
  | .negSucc n => (u ^ (n + 1))⁻¹

theorem wholePower_eq_zpow (u : ℚ) (k : ℤ) : wholePower u k = u ^ k := by
  cases k with
  | ofNat n => exact (zpow_natCast u n).symm
  | negSucc n => exact (zpow_negSucc u n).symm

theorem fst_wholePower (u : ℚ[ε]) (k : ℤ) : (wholePower u k).fst = u.fst ^ k := by
  cases k with
  | ofNat n => simp [wholePower]
  | negSucc n => simp [wholePower]

theorem snd_mul_inv (u w : ℚ[ε]) :
    (u * w⁻¹).snd = u.snd * w.fst⁻¹ - u.fst * (w.snd * (w.fst ^ (2 : ℤ))⁻¹) := by
  rw [DualNumber.snd_mul, fst_inv, snd_inv, MulOpposite.smul_eq_mul_unop, MulOpposite.unop_op,
    smul_eq_mul, zpow_two, mul_inv]
  ring

theorem snd_wholePower (u : ℚ[ε]) (k : ℤ) (h : u.fst = 0 → 0 < k) :
    (wholePower u k).snd = k * u.fst ^ (k - 1) * u.snd := by
  cases k with
  | ofNat n =>
    cases n with
    | zero => simp [wholePower]
    | succ n =>
      have hk : ((n + 1 : ℕ) : ℤ) - 1 = n := by omega
      rw [wholePower, Int.ofNat_eq_natCast, hk, zpow_natCast, snd_pow, Nat.pred_succ]
      simp [mul_assoc]
  | negSucc n =>
    have hu : u.fst ≠ 0 := fun hz => absurd (h hz) (by simp)
    have hk : Int.negSucc n - 1 = -((n + 1 + 1 : ℕ) : ℤ) := by omega
    rw [hk, zpow_neg, zpow_natCast, wholePower, snd_inv, snd_pow, fst_pow, Nat.pred_succ,
      MulOpposite.smul_eq_mul_unop, MulOpposite.unop_op, smul_eq_mul, smul_eq_mul, nsmul_eq_mul]
    push_cast
    field_simp
    ring

namespace Expr

/-- The value of a formula at a point. A literal exponent counts as the whole number that it is. -/
def valueIn {K : Type} [Ring K] [Algebra ℚ K] [Inv K] (F : Functions K) (x : K) : Expr → K
  | .literal v => algebraMap ℚ K (Binary64.rational v)
  | .var => x
  | .unary .paren e => e.valueIn F x
  | .unary .log e => F.log (e.valueIn F x)
  | .binary l .add r => l.valueIn F x + r.valueIn F x
  | .binary l .sub r => l.valueIn F x - r.valueIn F x
  | .binary l .mul r => l.valueIn F x * r.valueIn F x
  | .binary l .div r => l.valueIn F x * (r.valueIn F x)⁻¹
  | .binary l (.pow _) r =>
    match r.asLiteral with
    | some c => wholePower (l.valueIn F x) ⌊Binary64.rational c⌋
    | none => F.pow (l.valueIn F x) (r.valueIn F x)

/-- Nothing is asked of a formula's value that arithmetic does not give: its literals are finite,
its literal exponents whole, and zero has no reciprocal. -/
def Defined (F : Functions ℚ) (x : ℚ) : Expr → Prop
  | .literal v => ∃ q, Binary64.rational? v = some q
  | .var => True
  | .unary _ e => e.Defined F x
  | .binary l .div r => l.Defined F x ∧ r.Defined F x ∧ r.valueIn F x ≠ 0
  | .binary l (.pow _) r => l.Defined F x ∧ r.Defined F x ∧
    ∀ c, r.asLiteral = some c →
      ∃ k : ℤ, Binary64.rational? c = some (k : ℚ) ∧ (l.valueIn F x = 0 → 0 ≤ k)
  | .binary l _ r => l.Defined F x ∧ r.Defined F x

/-- What differentiation needs of a formula and a point. One can be taken from each literal
exponent without rounding. -/
structure Smooth (F : Functions ℚ) (x : ℚ) (e : Expr) : Prop where
  literal : ∀ v, Within (.literal v) e → ∃ q, Binary64.rational? v = some q
  exponent : ∀ l form c, Within (.binary l (.pow form) (.literal c)) e →
    ∃ k : ℤ, Binary64.rational? c = some (k : ℚ) ∧
      Binary64.rational? (c - 1.0) = some ((k - 1 : ℤ) : ℚ)
  divisor : ∀ l r, Within (.binary l .div r) e → r.valueIn F x ≠ 0
  logarithm : ∀ g, Within (.unary .log g) e → g.valueIn F x ≠ 0
  base : ∀ l form c, Within (.binary l (.pow form) (.literal c)) e →
    l.valueIn F x = 0 → 0 < Binary64.rational c

theorem Within.trans {a b e : Expr} (h : Within a b) (h' : Within b e) : Within a e := by
  induction h' with
  | self => exact h
  | operand _ ih => exact ih.operand
  | left _ ih => exact ih.left
  | right _ ih => exact ih.right

theorem Smooth.part {F : Functions ℚ} {x : ℚ} {a e : Expr} (h : Smooth F x e)
    (ha : Within a e) : Smooth F x a where
  literal v hw := h.literal v (hw.trans ha)
  exponent l form c hw := h.exponent l form c (hw.trans ha)
  divisor l r hw := h.divisor l r (hw.trans ha)
  logarithm g hw := h.logarithm g (hw.trans ha)
  base l form c hw := h.base l form c (hw.trans ha)

theorem Smooth.defined {F : Functions ℚ} {x : ℚ} {e : Expr} (h : Smooth F x e) :
    e.Defined F x := by
  induction e with
  | literal v => exact h.literal v .self
  | var => trivial
  | unary op e ih => exact ih (h.part (.operand .self))
  | binary l op r ihl ihr =>
    have hl := ihl (h.part (.left .self))
    have hr := ihr (h.part (.right .self))
    cases op with
    | div => exact ⟨hl, hr, h.divisor l r .self⟩
    | pow form =>
      refine ⟨hl, hr, fun c hc => ?_⟩
      obtain rfl := eq_literal hc
      obtain ⟨k, hk, _⟩ := h.exponent l form c .self
      have hpos := h.base l form c .self
      rw [Binary64.rational_eq hk] at hpos
      exact ⟨k, hk, fun hz => Int.le_of_lt (Int.cast_pos.1 (hpos hz))⟩
    | add => exact ⟨hl, hr⟩
    | sub => exact ⟨hl, hr⟩
    | mul => exact ⟨hl, hr⟩

section
variable (F : Functions ℚ) (x : ℚ)

theorem fst_valueIn (e : Expr) : (e.valueIn F.dual (inl x + ε)).fst = e.valueIn F x := by
  induction e with
  | literal v => rfl
  | var => simp [valueIn]
  | unary op e ih =>
    cases op with
    | paren => exact ih
    | log => simp [valueIn, ih]
  | binary l op r ihl ihr =>
    cases op with
    | pow form =>
      simp only [valueIn]
      split
      · rw [fst_wholePower, wholePower_eq_zpow, ihl]
      · rw [fst_dual_pow, ihl, ihr]
    | _ => simp [valueIn, ihl, ihr]

end

section
variable {F : Functions ℚ} {x : ℚ} {g h : Expr}

theorem valueIn_power_literal {K : Type} [Ring K] [Algebra ℚ K] [Inv K] (F : Functions K) (x : K)
    (g : Expr) {c : Float} {k : ℤ} (hc : Binary64.rational? c = some (k : ℚ)) :
    (power g (.literal c)).valueIn F x = wholePower (g.valueIn F x) k := by
  have hk : ⌊Binary64.rational c⌋ = k := by rw [Binary64.rational_eq hc, Int.floor_intCast]
  simp [power, valueIn, asLiteral, hk]

theorem valueIn_power_base {K : Type} [Ring K] [Algebra ℚ K] [Inv K] (F : Functions K) (x : K)
    (c : Float) (hn : h.asLiteral = none) :
    (power (.literal c) h).valueIn F x =
      F.pow (algebraMap ℚ K (Binary64.rational c)) (h.valueIn F x) := by
  simp [power, valueIn, hn]

theorem defined_power_literal {c : Float} {k : ℤ} (hg : g.Defined F x)
    (hc : Binary64.rational? c = some (k : ℚ)) (hz : g.valueIn F x = 0 → 0 ≤ k) :
    (power g (.literal c)).Defined F x := by
  refine ⟨hg, ⟨k, hc⟩, fun c' hc' => ?_⟩
  obtain rfl := Option.some.inj hc'
  exact ⟨k, hc, hz⟩

theorem Differentiates.defined {e d : Expr} (h : Differentiates e d) (hs : Smooth F x e) :
    d.Defined F x := by
  induction h with
  | literal v => exact ⟨0, Binary64.rational?_zero⟩
  | var => exact ⟨1, Binary64.rational?_one⟩
  | paren _ ih => exact ih (hs.part (.operand .self))
  | log _ ih =>
    have hg := hs.part (.operand .self)
    exact ⟨ih hg, hg.defined, hs.logarithm _ .self⟩
  | sum _ _ ihg ihh => exact ⟨ihg (hs.part (.left .self)), ihh (hs.part (.right .self))⟩
  | difference _ _ ihg ihh => exact ⟨ihg (hs.part (.left .self)), ihh (hs.part (.right .self))⟩
  | product _ _ ihg ihh =>
    have hg := hs.part (.left .self)
    have hh := hs.part (.right .self)
    exact ⟨⟨hg.defined, ihh hh⟩, ihg hg, hh.defined⟩
  | @quotient g _ h _ _ _ ihg ihh =>
    have hg := hs.part (.left .self)
    have hh := hs.part (.right .self)
    have hne := hs.divisor _ _ .self
    have hsquare : (Expr.power h (.literal 2.0)).valueIn F x ≠ 0 := by
      rw [valueIn_power_literal F x h (k := 2) Binary64.rational?_two, wholePower_eq_zpow]
      exact zpow_ne_zero 2 hne
    have hdef := defined_power_literal (k := 2) hh.defined Binary64.rational?_two
      fun _ => by decide
    exact ⟨⟨ihg hg, hh.defined, hne⟩, hg.defined, ihh hh, hdef, hsquare⟩
  | @power g _ c _ ih =>
    have hg := hs.part (.left .self)
    obtain ⟨k, hk, hk'⟩ := hs.exponent _ _ _ .self
    have hpos := hs.base _ _ _ .self
    rw [Binary64.rational_eq hk, Int.cast_pos] at hpos
    exact ⟨⟨⟨k, hk⟩, defined_power_literal hg.defined hk' fun hz => by have := hpos hz; omega⟩,
      ih hg⟩
  | exponential c hn _ ih =>
    have hh := hs.part (.right .self)
    have hc := hs.literal c (.left .self)
    exact ⟨⟨hc, hc, hh.defined, fun _ h => by simp [hn] at h⟩, ih hh⟩

theorem Differentiates.snd_valueIn {e d : Expr} (h : Differentiates e d) (hs : Smooth F x e) :
    (e.valueIn F.dual (inl x + ε)).snd = d.valueIn F x := by
  induction h with
  | literal v =>
    have h0 := Binary64.rational_eq Binary64.rational?_zero
    simp [valueIn, algebraMap_eq_inl, h0]
  | var =>
    have h1 := Binary64.rational_eq Binary64.rational?_one
    simp [valueIn, h1]
  | paren _ ih => exact ih (hs.part (.operand .self))
  | log _ ih =>
    have hg := ih (hs.part (.operand .self))
    simp [valueIn, Expr.log, Expr.quotient, fst_valueIn, hg, div_eq_mul_inv]
  | sum _ _ ihg ihh =>
    have hg := ihg (hs.part (.left .self))
    have hh := ihh (hs.part (.right .self))
    simp [valueIn, Expr.sum, hg, hh]
  | difference _ _ ihg ihh =>
    have hg := ihg (hs.part (.left .self))
    have hh := ihh (hs.part (.right .self))
    simp [valueIn, Expr.difference, hg, hh]
  | product _ _ ihg ihh =>
    have hg := ihg (hs.part (.left .self))
    have hh := ihh (hs.part (.right .self))
    simp [valueIn, Expr.product, Expr.sum, fst_valueIn, hg, hh]
  | @quotient g g' h h' _ _ ihg ihh =>
    have hg := ihg (hs.part (.left .self))
    have hh := ihh (hs.part (.right .self))
    have hsquare := valueIn_power_literal F x h (k := 2) Binary64.rational?_two
    rw [wholePower_eq_zpow] at hsquare
    have hrule := snd_mul_inv (g.valueIn F.dual (inl x + ε)) (h.valueIn F.dual (inl x + ε))
    rw [fst_valueIn, fst_valueIn, hg, hh, ← hsquare] at hrule
    exact hrule
  | @power g g' c _ ih =>
    have hg := ih (hs.part (.left .self))
    obtain ⟨k, hk, hk'⟩ := hs.exponent _ _ _ .self
    have hpos := hs.base _ _ _ .self
    rw [Binary64.rational_eq hk, Int.cast_pos] at hpos
    rw [valueIn_power_literal _ _ g hk, snd_wholePower _ _ (by rwa [fst_valueIn]), fst_valueIn, hg]
    have hpower := valueIn_power_literal F x g hk'
    rw [wholePower_eq_zpow] at hpower
    simp [valueIn, Expr.product, hpower, Binary64.rational_eq hk]
  | @exponential h h' c hn _ ih =>
    have hh := ih (hs.part (.right .self))
    rw [valueIn_power_base _ _ c hn, algebraMap_eq_inl, snd_dual_pow_inl, fst_valueIn, hh]
    simp [valueIn, Expr.product, Expr.log, valueIn_power_base F x c hn]

end

end Expr

/-- The derivative of a formula is its derivative in exact arithmetic. Where no divisor and no
argument of a logarithm is zero, and no zero is raised to an exponent that is not positive, the
value of the formula at `x + ε` is its value at `x` and, for the coefficient of `ε`, the value of
the derivative, which is defined there. This holds whatever the logarithm and the powers with other
exponents than literals are, as long as these have the derivatives that analysis gives them. -/
theorem derivative_is_dual_part (F : Functions ℚ) (x : ℚ) {e d : Expr} (h : e.Built)
    (hd : e.derivative.outcome = .ok d) (hs : Expr.Smooth F x e) :
    d.Defined F x ∧ (e.valueIn F.dual (inl x + ε)).snd = d.valueIn F x ∧
      (e.valueIn F.dual (inl x + ε)).fst = e.valueIn F x :=
  have hrule := h.differentiates hd
  ⟨hrule.defined hs, hrule.snd_valueIn hs, e.fst_valueIn F x⟩

theorem derivative_is_dual_part_of_quotient :
    let F : Functions ℚ := ⟨fun u => u - 1, fun u v => u * v⟩
    let e := Expr.quotient (.power .var (.literal 3.0)) (.log .var)
    Expr.Smooth F 2 e ∧ ∃ d, e.derivative.outcome = .ok d ∧ d.Defined F 2 ∧
      (e.valueIn F.dual (inl 2 + ε)).snd = d.valueIn F 2 := by
  intro F e
  have hthree : Binary64.rational? 3.0 = some ((3 : ℤ) : ℚ) := by
    have hv : Binary64.Value.ofFloat 3.0 = .finite false 0x4008000000000000 := by decide +kernel
    have hu : Binary64.units 0x4008000000000000 = 3 * 2 ^ 1074 := by decide +kernel
    simpa using Binary64.rational?_whole hv hu
  have htwo : Binary64.rational? (3.0 - 1.0) = some ((3 - 1 : ℤ) : ℚ) := by
    have hv : Binary64.Value.ofFloat (3.0 - 1.0) = .finite false 0x4000000000000000 := by
      decide +kernel
    have hu : Binary64.units 0x4000000000000000 = 2 * 2 ^ 1074 := by decide +kernel
    simpa using Binary64.rational?_whole hv hu
  have hs : Expr.Smooth F 2 (.quotient (.power .var (.literal 3.0)) (.log .var)) := by
    constructor
    · rintro v (_ | _ | (_ | _ | hw | hw) | (_ | hw))
      · cases hw
      · cases hw
        exact ⟨_, hthree⟩
      · cases hw
    · rintro l form c (_ | _ | (_ | _ | hw | hw) | (_ | hw))
      · exact ⟨3, hthree, htwo⟩
      all_goals cases hw
    · rintro l r (_ | _ | (_ | _ | hw | hw) | (_ | hw))
      · norm_num [F, Expr.valueIn, Expr.log]
      all_goals cases hw
    · rintro g (_ | _ | (_ | _ | hw | hw) | (_ | hw))
      · cases hw
      · cases hw
      · norm_num [Expr.valueIn]
      · cases hw
    · rintro l form c (_ | _ | (_ | _ | hw | hw) | (_ | hw))
      · norm_num [Binary64.rational_eq hthree]
      all_goals cases hw
  have h : e.Built := .combine .div (.combine .pow .var (.literal _)) (.wrap .log .var)
  obtain ⟨hdef, hvalue, _⟩ := derivative_is_dual_part F 2 h rfl hs
  exact ⟨hs, _, rfl, hdef, hvalue⟩

end Fluxion
