import Fluxion.Proofs.Expr.Rules

/-!
# The power that a failure names

Differentiation comes to the parts of a formula in a fixed order: a node in front of its operands,
and the right factor of a product in front of the left one. It ends at the first power without a
rule, which its error and its only log record name. Without such a power it logs nothing.
-/

set_option autoImplicit false

namespace Fluxion

namespace Expr

/-- The parts of a formula in the order in which differentiation comes to them. Below a power it
goes on with the one operand that is no literal. -/
def visited : Expr → List Expr
  | .literal v => [.literal v]
  | .var => [.var]
  | .unary op e => .unary op e :: e.visited
  | .binary l .mul r => .binary l .mul r :: (r.visited ++ l.visited)
  | .binary l (.pow form) r =>
    .binary l (.pow form) r ::
      match l.asLiteral, r.asLiteral with
      | none, some _ => l.visited
      | some _, none => r.visited
      | none, none | some _, some _ => []
  | .binary l op r => .binary l op r :: (l.visited ++ r.visited)

structure IsRuleless (l r e : Expr) : Prop where
  power : ∃ form, e = .binary l (.pow form) r
  base : l.asLiteral = none
  exponent : r.asLiteral = none

def reported? : Expr → Option RulelessPower
  | .binary l (.pow _) r =>
    match l.asLiteral, r.asLiteral with
    | none, none => some ⟨l.text, r.text⟩
    | _, _ => none
  | _ => none

theorem isRuleless_of_reported? {e : Expr} {f : RulelessPower} (h : e.reported? = some f) :
    ∃ l r, IsRuleless l r e ∧ f = ⟨l.text, r.text⟩ := by
  unfold reported? at h
  split at h
  · next l form r =>
    split at h
    · next hl hr => exact ⟨l, r, ⟨⟨form, rfl⟩, hl, hr⟩, (Option.some.inj h).symm⟩
    · cases h
  · cases h

theorem IsRuleless.reported? {l r e : Expr} (h : IsRuleless l r e) :
    e.reported? = some ⟨l.text, r.text⟩ := by
  obtain ⟨⟨form, rfl⟩, hl, hr⟩ := h
  rw [Expr.reported?, hl, hr]

def firstReported? (e : Expr) : Option RulelessPower := e.visited.findSome? reported?

end Expr

/-- A derivative that is taken leaves no note. One that is not leaves the power that it fails with,
once. -/
inductive Reports {α : Type} :
    Option RulelessPower → Logged RulelessPower RulelessPower α → Prop
  | taken (a : α) : Reports none ⟨[], .ok a⟩
  | refused (f : RulelessPower) : Reports (some f) ⟨[f], .error f⟩

namespace Reports
variable {α β γ : Type} {p q : Option RulelessPower} {x : Logged RulelessPower RulelessPower α}

theorem bind {f : α → Logged RulelessPower RulelessPower β} (hx : Reports p x)
    (hf : ∀ a, Reports q (f a)) : Reports (p.or q) (x >>= f) := by
  cases hx with
  | taken a =>
    rw [Logged.bind_ok rfl]
    exact hf a
  | refused e =>
    rw [Logged.bind_error rfl]
    exact .refused e

theorem then_pure {g : α → β} (hx : Reports p x) :
    Reports p (do let a ← x; pure (g a)) := by
  have h := hx.bind fun a => .taken (g a)
  rwa [Option.or_none] at h

theorem both {y : Logged RulelessPower RulelessPower β} {g : α → β → γ} (hx : Reports p x)
    (hy : Reports q y) : Reports (p.or q) (do let a ← x; let b ← y; pure (g a b)) :=
  hx.bind fun _ => hy.then_pure

theorem of_ok {a : α} (h : Reports p x) (hx : x.outcome = .ok a) : p = none ∧ x.notes = [] := by
  cases h with
  | taken => exact ⟨rfl, rfl⟩
  | refused => cases hx

theorem of_error {f : RulelessPower} (h : Reports p x) (hx : x.outcome = .error f) :
    p = some f ∧ x.notes = [f] := by
  cases h with
  | taken => cases hx
  | refused => cases hx; exact ⟨rfl, rfl⟩

end Reports

namespace Expr

section
variable (l r : Expr)

theorem firstReported?_unary (op : Wrapper) (e : Expr) :
    (unary op e).firstReported? = e.firstReported? := rfl

theorem firstReported?_product :
    (product l r).firstReported? = r.firstReported?.or l.firstReported? := List.findSome?_append

theorem firstReported?_sum :
    (sum l r).firstReported? = l.firstReported?.or r.firstReported? := List.findSome?_append

theorem firstReported?_difference :
    (difference l r).firstReported? = l.firstReported?.or r.firstReported? := List.findSome?_append

theorem firstReported?_quotient :
    (quotient l r).firstReported? = l.firstReported?.or r.firstReported? := List.findSome?_append

theorem firstReported?_power (c : Float) :
    (power l (.literal c)).firstReported? = l.firstReported? := by
  cases l <;> rfl

theorem firstReported?_exponential (c : Float) (hn : r.asLiteral = none) :
    (power (.literal c) r).firstReported? = r.firstReported? := by
  cases r with
  | literal => cases hn
  | _ => rfl

end

theorem firstReported?_ruleless {l r : Expr} (hl : l.asLiteral = none) (hr : r.asLiteral = none) :
    (power l r).firstReported? = some ⟨l.text, r.text⟩ := by
  have h : IsRuleless l r (power l r) := ⟨⟨_, rfl⟩, hl, hr⟩
  rw [firstReported?, power, visited, List.findSome?_cons]
  rw [power] at h
  rw [h.reported?]

theorem Built.reports {e : Expr} (h : e.Built) : Reports e.firstReported? e.derivative := by
  induction h with
  | literal v => exact .taken _
  | var => exact .taken _
  | wrap op _ ih =>
    rw [firstReported?_unary]
    cases op with
    | paren => exact ih.then_pure
    | log => exact ih.then_pure
  | @combine op l r _ _ ihl ihr =>
    cases op with
    | add => exact firstReported?_sum l r ▸ ihl.both ihr
    | sub => exact firstReported?_difference l r ▸ ihl.both ihr
    | mul => exact firstReported?_product l r ▸ ihr.both ihl
    | div => exact firstReported?_quotient l r ▸ ihl.both ihr
    | pow =>
      rw [Expr.combine]
      rcases power_cases l r with ⟨c, rfl⟩ | ⟨c, rfl, hn⟩ | ⟨hl, hr⟩
      · rw [derivative_power, firstReported?_power]
        exact ihl.then_pure
      · rw [derivative_exponential c hn, firstReported?_exponential r c hn]
        exact ihr.then_pure
      · rw [firstReported?_ruleless hl hr, power, powerKind, hl, hr]
        exact .refused _

theorem within_of_mem_visited {a e : Expr} (h : a ∈ e.visited) : Within a e := by
  induction e with
  | literal v =>
    rw [List.mem_singleton.1 h]
    exact .self
  | var =>
    rw [List.mem_singleton.1 h]
    exact .self
  | unary op e ih =>
    rcases List.mem_cons.1 h with rfl | h
    · exact .self
    · exact .operand (ih h)
  | binary l op r ihl ihr =>
    have inside (h : a ∈ l.visited ∨ a ∈ r.visited) : Within a (.binary l op r) :=
      h.elim (fun h => .left (ihl h)) fun h => .right (ihr h)
    have hcons : a = .binary l op r ∨ a ∈ l.visited ∨ a ∈ r.visited := by
      cases op with
      | pow form =>
        rw [visited] at h
        refine (List.mem_cons.1 h).imp_right fun h => ?_
        split at h
        · exact .inl h
        · exact .inr h
        · cases h
        · cases h
      | mul => exact (List.mem_cons.1 h).imp_right fun h => (List.mem_append.1 h).symm
      | _ => exact (List.mem_cons.1 h).imp_right List.mem_append.1
    rcases hcons with rfl | h
    · exact .self
    · exact inside h

theorem Built.ruleless {e : Expr} {f : RulelessPower} (h : e.Built)
    (hf : e.derivative.outcome = .error f) :
    ∃ l r, Ruleless l r e ∧ f = ⟨l.text, r.text⟩ := by
  obtain ⟨a, ha, hfa⟩ := List.exists_of_findSome?_eq_some (h.reports.of_error hf).1
  obtain ⟨l, r, ⟨⟨form, rfl⟩, hl, hr⟩, htext⟩ := isRuleless_of_reported? hfa
  exact ⟨l, r, ⟨⟨form, within_of_mem_visited ha⟩, hl, hr⟩, htext⟩

end Expr

/-- A failed differentiation names the base and the exponent of the first power without a rule that
it comes to, and this is all that it logs. One that succeeds logs nothing. -/
theorem derivative_first_ruleless {e : Expr} (h : e.Built) :
    (∀ f, e.derivative.outcome = .error f → ∃ before a after l r,
      e.visited = before ++ a :: after ∧ Expr.IsRuleless l r a ∧
      (∀ b ∈ before, ¬ ∃ l' r', Expr.IsRuleless l' r' b) ∧ f = ⟨l.text, r.text⟩ ∧
      e.derivative.notes.map RulelessPower.record =
        [⟨.debug, "cannot differentiate " ++ String.ofList l.text ++ "^" ++
          String.ofList r.text⟩]) ∧
    ∀ d, e.derivative.outcome = .ok d → e.derivative.notes = [] := by
  refine ⟨?_, fun d hd => (h.reports.of_ok hd).2⟩
  intro f hf
  obtain ⟨hfirst, hnotes⟩ := h.reports.of_error hf
  obtain ⟨before, a, after, hvisited, ha, hbefore⟩ := List.findSome?_eq_some_iff.1 hfirst
  obtain ⟨l, r, hruleless, rfl⟩ := Expr.isRuleless_of_reported? ha
  refine ⟨before, a, after, l, r, hvisited, hruleless, ?_, rfl, ?_⟩
  · rintro b hb ⟨l', r', hb'⟩
    cases hb'.reported?.symm.trans (hbefore b hb)
  · rw [hnotes]
    rfl

theorem derivative_first_ruleless_of_product :
    (Expr.product (.power .var .var) (.log (.power (.log .var) .var))).Built ∧
      ∃ f, (Expr.product (.power .var .var) (.log (.power (.log .var) .var))).derivative.outcome =
        .error f ∧ f = ⟨"log(x)".toList, "x".toList⟩ ∧
      ∃ before a after l r, (Expr.product (.power .var .var)
          (.log (.power (.log .var) .var))).visited = before ++ a :: after ∧
        Expr.IsRuleless l r a ∧ (∀ b ∈ before, ¬ ∃ l' r', Expr.IsRuleless l' r' b) ∧
        f = ⟨l.text, r.text⟩ := by
  have h : (Expr.product (.power .var .var) (.log (.power (.log .var) .var))).Built :=
    .combine .mul (.combine .pow .var .var)
      (.wrap .log (.combine .pow (.wrap .log .var) .var))
  refine ⟨h, _, rfl, rfl, ?_⟩
  obtain ⟨before, a, after, l, r, hvisited, ha, hbefore, hf, -⟩ :=
    (derivative_first_ruleless h).1 _ rfl
  exact ⟨before, a, after, l, r, hvisited, ha, hbefore, hf⟩

end Fluxion
