import Fluxion.Scan.Bytes

/-!
# Balanced text

A balanced text is read from one side as groups and characters outside of them. A scan that still
waits for a partner passes over it, and `partner` finds the end of a group by it. Groups are
mirrored when a text is read from the other side.
-/

set_option autoImplicit false

namespace Fluxion

def Side.other : Side → Side
  | .left => .right
  | .right => .left

namespace Scan

def isParen (c : Char) : Bool := c == '(' || c == ')'

/-- Every parenthesis has its partner, in the order of a walk from the given side. -/
inductive Balanced (side : Side) : List Char → Prop
  | nil : Balanced side []
  | char {c : Char} {rest : List Char} (hc : isParen c = false) (h : Balanced side rest) :
      Balanced side (c :: rest)
  | group {inner rest : List Char} (hi : Balanced side inner) (hr : Balanced side rest) :
      Balanced side (firstParen side :: (inner ++ lastParen side :: rest))

@[simp] theorem firstParen_other (side : Side) : firstParen side.other = lastParen side := by
  cases side <;> rfl

@[simp] theorem lastParen_other (side : Side) : lastParen side.other = firstParen side := by
  cases side <;> rfl

theorem Balanced.append {side : Side} {a b : List Char} (ha : Balanced side a)
    (hb : Balanced side b) : Balanced side (a ++ b) := by
  induction ha with
  | nil => exact hb
  | char hc _ ih => exact .char hc ih
  | group hi _ _ ih =>
    rw [List.cons_append, List.append_assoc, List.cons_append]
    exact .group hi ih

theorem Balanced.enclose {side : Side} {inner : List Char} (h : Balanced side inner) :
    Balanced side (firstParen side :: (inner ++ [lastParen side])) :=
  .group h .nil

theorem Balanced.reverse {side : Side} {a : List Char} (h : Balanced side a) :
    Balanced side.other a.reverse := by
  induction h with
  | nil => exact .nil
  | char hc _ ih =>
    rw [List.reverse_cons]
    exact ih.append (.char hc .nil)
  | @group inner rest _ _ ihi ihr =>
    have hg := ihr.append ihi.enclose
    simpa [List.append_assoc] using hg

theorem balanced_of_forall {side : Side} {a : List Char} (h : ∀ c ∈ a, isParen c = false) :
    Balanced side a := by
  induction a with
  | nil => exact .nil
  | cons c a ih => exact .char (h c (by simp)) (ih fun d hd => h d (by simp [hd]))

/-- Text up to where the first of so many open groups is closed, all groups inside of it closed. -/
inductive Closes (side : Side) : Nat → List Char → Prop
  | last {a : List Char} (h : Balanced side a) : Closes side 0 a
  | inner {n : Nat} {a rest : List Char} (ha : Balanced side a) (hr : Closes side n rest) :
      Closes side (n + 1) (a ++ lastParen side :: rest)

namespace Closes
variable {side : Side} {n : Nat} {a rest : List Char}

theorem balanced (h : Closes side 0 a) : Balanced side a := by
  cases h with
  | last h => exact h

theorem prepend (ha : Balanced side a) (h : Closes side n rest) : Closes side n (a ++ rest) := by
  cases h with
  | last h => exact .last (ha.append h)
  | inner hb hr =>
    rw [← List.append_assoc]
    exact .inner (ha.append hb) hr

theorem group (h : Closes side (n + 1) rest) : Closes side n (firstParen side :: rest) := by
  cases h with
  | inner ha hr =>
    have hg := hr.prepend ha.enclose
    simpa using hg

end Closes

def advance : Side → Nat → Nat → Nat
  | .left, index, steps => index + steps
  | .right, index, steps => index - steps

@[simp] theorem advance_zero (side : Side) (index : Nat) : advance side index 0 = index := by
  cases side <;> rfl

theorem advance_one (side : Side) (index : Nat) : advance side index 1 = nextIndex side index := by
  cases side <;> rfl

theorem advance_nextIndex (side : Side) (index steps : Nat) :
    advance side (nextIndex side index) steps = advance side index (steps + 1) := by
  cases side <;> simp only [advance, nextIndex] <;> omega

theorem nextIndex_advance (side : Side) (index steps : Nat) :
    nextIndex side (advance side index steps) = advance side index (steps + 1) := by
  cases side <;> simp only [advance, nextIndex] <;> omega

theorem advance_advance (side : Side) (index a b : Nat) :
    advance side (advance side index a) b = advance side index (a + b) := by
  cases side <;> simp only [advance] <;> omega

section
variable {side : Side} {symbols : List Char} {waiting : List Place} {index : Nat}
  {met : Option Char} {c : Char} {rest : List Char}

theorem walk_firstParen :
    walk side symbols waiting index met (firstParen side :: rest) =
      walk side symbols (⟨index, firstParen side⟩ :: waiting) (nextIndex side index)
        (some (firstParen side)) rest := by
  simp [walk]

theorem walk_lastParen {p : Place} :
    walk side symbols (p :: waiting) index met (lastParen side :: rest) =
      walk side symbols waiting (nextIndex side index) (some (lastParen side)) rest := by
  cases side <;> simp [walk, firstParen, lastParen]

theorem walk_unopened :
    walk side symbols [] index met (lastParen side :: rest) =
      .error (Place.unpaired ⟨index, lastParen side⟩) := by
  cases side <;> simp [walk, firstParen, lastParen]

theorem parens_of_not_isParen (side : Side) {c : Char} (hc : isParen c = false) :
    (c == firstParen side) = false ∧ (c == lastParen side) = false := by
  simp only [isParen, Bool.or_eq_false_iff] at hc
  cases side
  · exact hc
  · exact ⟨hc.2, hc.1⟩

theorem walk_other (hc : isParen c = false) :
    walk side symbols waiting index met (c :: rest) =
      if waiting.isEmpty && isOperator symbols (previousChar side met rest) c then
        .ok (some ⟨index, c⟩)
      else walk side symbols waiting (nextIndex side index) (some c) rest := by
  obtain ⟨hf, hl⟩ := parens_of_not_isParen side hc
  simp [walk, hf, hl]

theorem walk_inside {p : Place} (hc : isParen c = false) :
    walk side symbols (p :: waiting) index met (c :: rest) =
      walk side symbols (p :: waiting) (nextIndex side index) (some c) rest := by
  rw [walk_other hc]
  rfl

theorem walk_skip (hc : isParen c = false)
    (ho : isOperator symbols (previousChar side met rest) c = false) :
    walk side symbols waiting index met (c :: rest) =
      walk side symbols waiting (nextIndex side index) (some c) rest := by
  rw [walk_other hc, ho, Bool.and_false]
  rfl

theorem walk_stop (hc : isParen c = false)
    (ho : isOperator symbols (previousChar side met rest) c = true) :
    walk side symbols [] index met (c :: rest) = .ok (some ⟨index, c⟩) := by
  rw [walk_other hc, ho]
  rfl

end

theorem walk_balanced {side : Side} {a : List Char} (h : Balanced side a) (symbols : List Char)
    (p : Place) (waiting : List Place) (index : Nat) (met : Option Char) (rest : List Char) :
    walk side symbols (p :: waiting) index met (a ++ rest) =
      walk side symbols (p :: waiting) (advance side index a.length) (a.getLast?.or met) rest := by
  induction h generalizing p waiting index met rest with
  | nil => simp
  | @char c a hc _ ih =>
    rw [List.cons_append, walk_inside hc, ih, advance_nextIndex]
    simp [List.getLast?_cons]
  | @group inner a _ _ ihi iha =>
    rw [List.cons_append, List.append_assoc, List.cons_append, walk_firstParen, ihi,
      walk_lastParen, iha]
    simp only [advance_nextIndex, advance_advance]
    congr 1
    · congr 1
      simp only [List.length_cons, List.length_append]
      omega
    · simp [List.getLast?_cons, List.getLast?_append]

theorem walk_group {side : Side} {inner : List Char} (h : Balanced side inner)
    (symbols : List Char) (waiting : List Place) (index : Nat) (met : Option Char)
    (rest : List Char) :
    walk side symbols waiting index met (firstParen side :: (inner ++ lastParen side :: rest)) =
      walk side symbols waiting (advance side index (inner.length + 2)) (some (lastParen side))
        rest := by
  rw [walk_firstParen, walk_balanced h, walk_lastParen, advance_nextIndex, nextIndex_advance]

section
variable {index depth : Nat} {rest : List Char}

theorem partnerFrom_open :
    partnerFrom index depth ('(' :: rest) = partnerFrom (index + 1) (depth + 1) rest := by
  simp [partnerFrom]

theorem partnerFrom_close :
    partnerFrom index (depth + 2) (')' :: rest) = partnerFrom (index + 1) (depth + 1) rest := by
  simp [partnerFrom]

theorem partnerFrom_last : partnerFrom index 1 (')' :: rest) = some index := by
  simp [partnerFrom]

theorem partnerFrom_skip {c : Char} (hc : isParen c = false) :
    partnerFrom index depth (c :: rest) = partnerFrom (index + 1) depth rest := by
  simp only [isParen, Bool.or_eq_false_iff, beq_eq_false_iff_ne] at hc
  simp [partnerFrom, hc.1, hc.2]

end

theorem partnerFrom_balanced {a : List Char} (h : Balanced .left a) (index depth : Nat)
    (rest : List Char) :
    partnerFrom index (depth + 1) (a ++ rest) =
      partnerFrom (index + a.length) (depth + 1) rest := by
  induction h generalizing index depth rest with
  | nil => rfl
  | @char c a hc _ ih =>
    rw [List.cons_append, partnerFrom_skip hc, ih, List.length_cons]
    congr 1
    omega
  | @group inner a _ _ ihi iha =>
    simp only [firstParen, lastParen, List.cons_append, List.append_assoc]
    rw [partnerFrom_open, ihi, partnerFrom_close, iha]
    congr 1
    simp only [List.length_cons, List.length_append]
    omega

theorem group?_enclosed {inner : List Char} (h : Balanced .left inner) :
    group? ('(' :: (inner ++ [')'])) = some inner := by
  have hp : partner ('(' :: (inner ++ [')'])) = some (inner ++ [')']).length := by
    rw [partner, partnerFrom_open, partnerFrom_balanced h, partnerFrom_last]
    simp only [List.length_append, List.length_singleton, Option.some.injEq]
    omega
  simp [group?, hp]

theorem partnerFrom_closes {text : List Char} {index depth i : Nat}
    (h : partnerFrom index (depth + 1) text = some i) :
    ∃ a rest, text = a ++ ')' :: rest ∧ Closes .left depth a ∧ i = index + a.length := by
  induction text generalizing index depth with
  | nil => simp [partnerFrom] at h
  | cons c text ih =>
    by_cases hc : isParen c = false
    · rw [partnerFrom_skip hc] at h
      obtain ⟨a, rest, rfl, ha, hi⟩ := ih h
      exact ⟨c :: a, rest, rfl, ha.prepend (.char hc .nil), by rw [List.length_cons]; omega⟩
    · simp only [isParen, Bool.not_eq_false, Bool.or_eq_true, beq_iff_eq] at hc
      rcases hc with rfl | rfl
      · rw [partnerFrom_open] at h
        obtain ⟨a, rest, rfl, ha, hi⟩ := ih h
        exact ⟨'(' :: a, rest, rfl, ha.group, by rw [List.length_cons]; omega⟩
      · cases depth with
        | zero =>
          rw [partnerFrom_last, Option.some.injEq] at h
          exact ⟨[], text, rfl, .last .nil, h.symm⟩
        | succ depth =>
          rw [partnerFrom_close] at h
          obtain ⟨a, rest, rfl, ha, hi⟩ := ih h
          exact ⟨')' :: a, rest, rfl, .inner .nil ha, by rw [List.length_cons]; omega⟩

theorem group?_eq_some {text interior : List Char} (h : group? text = some interior) :
    text = '(' :: (interior ++ [')']) ∧ Balanced .left interior := by
  unfold group? at h
  split at h
  · next rest =>
    split at h
    · next hp =>
      rw [partner, partnerFrom_open] at hp
      obtain ⟨a, more, rfl, ha, hi⟩ := partnerFrom_closes hp
      obtain rfl : more = [] := by
        simp only [List.length_append, List.length_cons] at hi
        exact List.eq_nil_of_length_eq_zero (by omega)
      rw [List.dropLast_concat, Option.some.injEq] at h
      subst h
      exact ⟨rfl, ha.balanced⟩
    · simp at h
  · simp at h

end Scan

end Fluxion
