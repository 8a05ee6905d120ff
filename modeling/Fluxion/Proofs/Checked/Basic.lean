import Fluxion.Parse.Refusal

/-!
# Computations that can trap

A machine counts up to a largest number and looks things up by index. Where it cannot go on it
traps: nothing is left of the computation then, not even its notes.
-/

set_option autoImplicit false

namespace Fluxion.Checked

inductive Trap where
  /-- A number below zero or beyond the largest one. -/
  | arithmetic
  /-- Nothing has this index. -/
  | index (index : Nat)
  /-- Bytes that are no part of a text, or only parts of its characters. -/
  | slice (range : Text.Span)
  /-- A piece without bytes, or with bytes that are not there. -/
  | piece (range : Text.Span)
  /-- A piece that is no smaller than the one it is a part of. -/
  | endless (range : Text.Span)
  deriving DecidableEq, Repr

section
variable {most a b : Nat}

def add (most a b : Nat) : Except Trap Nat :=
  if a + b ≤ most then .ok (a + b) else .error .arithmetic

def sub (a b : Nat) : Except Trap Nat := if b ≤ a then .ok (a - b) else .error .arithmetic

def lookUp {α : Type} (items : List α) (index : Nat) : Except Trap α :=
  match items[index]? with
  | some x => .ok x
  | none => .error (.index index)

theorem add_ok (h : a + b ≤ most) : add most a b = .ok (a + b) := if_pos h

theorem sub_ok (h : b ≤ a) : sub a b = .ok (a - b) := if_pos h

theorem lookUp_ok {α : Type} {items : List α} {index : Nat} {x : α}
    (h : items[index]? = some x) : lookUp items index = .ok x := by
  rw [lookUp, h]

theorem lookUp_append {α : Type} (a : List α) (x : α) (b : List α) :
    lookUp (a ++ x :: b) a.length = .ok x :=
  lookUp_ok (by simp)

theorem ok_bind {α β : Type} {x : Except Trap α} {a : α} (h : x = .ok a) (f : α → Except Trap β) :
    (x >>= f) = f a := by
  rw [h]
  rfl

end

structure Reading (α : Type) where
  run : Except Trap (Logged Record Parse.Fault α)

namespace Reading
variable {α β : Type}

protected def bind (x : Reading α) (f : α → Reading β) : Reading β where
  run :=
    match x.run with
    | .error t => .error t
    | .ok y =>
      match y.outcome with
      | .error e => .ok ⟨y.notes, .error e⟩
      | .ok a =>
        match (f a).run with
        | .error t => .error t
        | .ok z => .ok ⟨y.notes ++ z.notes, z.outcome⟩

instance : Monad Reading where
  pure a := ⟨.ok (pure a)⟩
  bind := Reading.bind

instance : MonadLift (Except Trap) Reading where
  monadLift x := ⟨x.map pure⟩

def note (r : Record) : Reading Unit := ⟨.ok (Logged.note r)⟩

def refuse (f : Parse.Fault) : Reading α := ⟨.ok (Logged.fail f)⟩

def trap (t : Trap) : Reading α := ⟨.error t⟩

theorem lift_bind {x : Except Trap α} {a : α} (h : x = .ok a) (f : α → Reading β) :
    ((liftM x : Reading α) >>= f).run = (f a).run := by
  subst h
  change (Reading.bind ⟨.ok ⟨[], .ok a⟩⟩ f).run = (f a).run
  cases h : (f a).run with
  | error t => simp only [Reading.bind, h]
  | ok z =>
    simp only [Reading.bind, h]
    rfl

theorem bind_ok {x : Reading α} {y : Logged Record Parse.Fault α} (hx : x.run = .ok y)
    {f : α → Reading β} {g : α → Logged Record Parse.Fault β}
    (hf : ∀ a, y.outcome = .ok a → (f a).run = .ok (g a)) : (x >>= f).run = .ok (y >>= g) := by
  change (Reading.bind x f).run = _
  cases h : y.outcome with
  | error e => simp only [Reading.bind, hx, h, Logged.bind_error h]
  | ok a => simp only [Reading.bind, hx, h, hf a h, Logged.bind_ok h]

end Reading

end Fluxion.Checked
