import Fluxion.Logged

/-!
# Outcomes of computations in a row
-/

set_option autoImplicit false

namespace Fluxion

namespace Logged

variable {ν ε δ α β : Type} {x : Logged ν ε α} {f : α → Logged ν ε β}

theorem outcome_bind_ok {a : α} (h : x.outcome = .ok a) :
    (x >>= f).outcome = (f a).outcome := by
  rw [bind_ok h]

theorem outcome_bind_error {e : ε} (h : x.outcome = .error e) :
    (x >>= f).outcome = .error e := by
  rw [bind_error h]

theorem ok_of_bind_ok {b : β} (h : (x >>= f).outcome = .ok b) :
    ∃ a, x.outcome = .ok a ∧ (f a).outcome = .ok b := by
  cases hx : x.outcome with
  | error e => simp [outcome_bind_error hx] at h
  | ok a => exact ⟨a, rfl, (outcome_bind_ok hx).symm.trans h⟩

theorem error_of_bind_error {e : ε} (h : (x >>= f).outcome = .error e) :
    x.outcome = .error e ∨ ∃ a, x.outcome = .ok a ∧ (f a).outcome = .error e := by
  cases hx : x.outcome with
  | error e' =>
    have he := Except.error.inj ((outcome_bind_error (f := f) hx).symm.trans h)
    exact .inl (by rw [he])
  | ok a => exact .inr ⟨a, rfl, (outcome_bind_ok hx).symm.trans h⟩

theorem bind_error_iff {e : ε} :
    (x >>= f).outcome = .error e ↔
      x.outcome = .error e ∨ ∃ a, x.outcome = .ok a ∧ (f a).outcome = .error e := by
  constructor
  · exact error_of_bind_error
  · rintro (h | ⟨a, ha, h⟩)
    · exact outcome_bind_error h
    · exact (outcome_bind_ok ha).trans h

theorem mapError_error_iff {g : ε → δ} {d : δ} :
    (x.mapError g).outcome = .error d ↔ ∃ e, x.outcome = .error e ∧ d = g e := by
  rw [mapError]
  constructor
  · intro h
    cases hx : x.outcome with
    | error e =>
      rw [hx] at h
      cases h
      exact ⟨e, rfl, rfl⟩
    | ok a =>
      rw [hx] at h
      cases h
  · rintro ⟨e, he, rfl⟩
    rw [he]
    rfl

theorem ok_of_mapError {g : ε → δ} {a : α} (h : (x.mapError g).outcome = .ok a) :
    x.outcome = .ok a := by
  rw [mapError] at h
  cases hx : x.outcome with
  | error e =>
    rw [hx] at h
    cases h
  | ok b =>
    rw [hx] at h
    cases h
    rfl

theorem pure_bind (a : α) : ((pure a : Logged ν ε α) >>= f) = f a := bind_ok rfl f

theorem bind_assoc {γ : Type} (g : β → Logged ν ε γ) :
    (x >>= f) >>= g = x >>= fun a => f a >>= g := by
  cases hx : x.outcome with
  | error e => rw [bind_error hx, bind_error hx, bind_error rfl]
  | ok a =>
    rw [bind_ok hx, bind_ok hx]
    cases hf : (f a).outcome with
    | error e => rw [bind_error rfl, bind_error hf]
    | ok b => rw [bind_ok rfl, bind_ok hf, List.append_assoc]

def Succeeds (x : Logged ν ε α) : Prop := ∃ a, x.outcome = .ok a

theorem succeeds_then_pure {f : α → β} :
    (do let a ← x; pure (f a) : Logged ν ε β).Succeeds ↔ x.Succeeds := by
  constructor
  · rintro ⟨b, hb⟩
    obtain ⟨a, ha, -⟩ := ok_of_bind_ok hb
    exact ⟨a, ha⟩
  · rintro ⟨a, ha⟩
    exact ⟨f a, outcome_bind_ok ha⟩

section
variable {γ : Type} {y : Logged ν ε β} {g : α → β → γ}

theorem succeeds_both :
    (do let a ← x; let b ← y; pure (g a b) : Logged ν ε γ).Succeeds ↔ x.Succeeds ∧ y.Succeeds := by
  constructor
  · rintro ⟨c, hc⟩
    obtain ⟨a, ha, hb⟩ := ok_of_bind_ok hc
    obtain ⟨b, hb, -⟩ := ok_of_bind_ok hb
    exact ⟨⟨a, ha⟩, b, hb⟩
  · rintro ⟨⟨a, ha⟩, b, hb⟩
    exact ⟨g a b, (outcome_bind_ok ha).trans (outcome_bind_ok hb)⟩

theorem ok_of_both {c : γ} (h : (do let a ← x; let b ← y; pure (g a b)).outcome = .ok c) :
    ∃ a b, x.outcome = .ok a ∧ y.outcome = .ok b ∧ g a b = c := by
  obtain ⟨a, ha, h⟩ := ok_of_bind_ok h
  obtain ⟨b, hb, h⟩ := ok_of_bind_ok h
  exact ⟨a, b, ha, hb, Except.ok.inj h⟩

end

end Logged

end Fluxion
