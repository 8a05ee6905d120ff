/-!
# Reports and computations that keep notes

A diagnostic is what a report says about an error: a headline, a label for the place it points at,
and perhaps advice. Formulas inside labels and advice are coloured.

A logged computation ends with a value or an error, and in both cases with the notes taken on the
way, in order. What comes after an error takes no more notes.
-/

set_option autoImplicit false

namespace Fluxion

inductive Level where
  | trace
  | debug
  deriving DecidableEq, Repr

structure Record where
  level : Level
  message : String
  deriving DecidableEq, Repr

structure Diagnostic where
  message : String
  label : String
  help : Option String
  deriving DecidableEq, Repr

def highlight (text : String) : String :=
  "\x1b[38;2;52;235;152m" ++ text ++ "\x1b[0m"

structure Logged (ν ε α : Type) where
  notes : List ν
  outcome : Except ε α

namespace Logged

variable {ν μ ε δ α β : Type}

def ofExcept (outcome : Except ε α) : Logged ν ε α := ⟨[], outcome⟩

protected def pure (a : α) : Logged ν ε α := ⟨[], .ok a⟩

def fail (e : ε) : Logged ν ε α := ⟨[], .error e⟩

def note (n : ν) : Logged ν ε Unit := ⟨[n], .ok ()⟩

@[inline] protected def bind (x : Logged ν ε α) (f : α → Logged ν ε β) : Logged ν ε β :=
  match x.outcome with
  | .ok a => ⟨x.notes ++ (f a).notes, (f a).outcome⟩
  | .error e => ⟨x.notes, .error e⟩

instance : Monad (Logged ν ε) where
  pure := Logged.pure
  bind := Logged.bind

def mapNotes (f : ν → μ) (x : Logged ν ε α) : Logged μ ε α := ⟨x.notes.map f, x.outcome⟩

def mapError (f : ε → δ) (x : Logged ν ε α) : Logged ν δ α := ⟨x.notes, x.outcome.mapError f⟩

@[simp] theorem pure_eq (a : α) : (pure a : Logged ν ε α) = ⟨[], .ok a⟩ := rfl

theorem bind_ok {x : Logged ν ε α} {a : α} (h : x.outcome = .ok a) (f : α → Logged ν ε β) :
    (x >>= f) = ⟨x.notes ++ (f a).notes, (f a).outcome⟩ := by
  change Logged.bind x f = _
  simp only [Logged.bind, h]

theorem bind_error {x : Logged ν ε α} {e : ε} (h : x.outcome = .error e)
    (f : α → Logged ν ε β) : (x >>= f) = ⟨x.notes, .error e⟩ := by
  change Logged.bind x f = _
  simp only [Logged.bind, h]

end Logged

end Fluxion
