import Fluxion.Proofs.Scan.Balance

/-!
# Where a text is split

A scan passes over clear text: balanced, with no operator outside of its groups. So the first
operator behind clear text is found, and none is found in a text that is clear as a whole. Whether a
plus or minus is an operator is decided by the character to its left, whichever way the scan goes.
-/

set_option autoImplicit false

namespace Fluxion.Scan

/-- The character to the left of the one at hand, when `beyond` is met right after `rest`. -/
def precedes (side : Side) (met : Option Char) (rest : List Char) (beyond : Option Char) :
    Option Char :=
  match side with
  | .left => met
  | .right => rest.head?.or beyond

/-- Balanced text, in the order of a walk, without an operator outside of its groups. It is met
after the character `met` and in front of the character `beyond`. -/
inductive Clear (side : Side) (symbols : List Char) (beyond : Option Char) :
    Option Char → List Char → Prop
  | nil {met : Option Char} : Clear side symbols beyond met []
  | char {met : Option Char} {c : Char} {rest : List Char} (hc : isParen c = false)
      (ho : isOperator symbols (precedes side met rest beyond) c = false)
      (h : Clear side symbols beyond (some c) rest) : Clear side symbols beyond met (c :: rest)
  | group {met : Option Char} {inner rest : List Char} (hi : Balanced side inner)
      (hr : Clear side symbols beyond (some (lastParen side)) rest) :
      Clear side symbols beyond met (firstParen side :: (inner ++ lastParen side :: rest))

theorem previousChar_append (side : Side) (met : Option Char) (rest more : List Char) :
    previousChar side met (rest ++ more) = precedes side met rest more.head? := by
  cases side
  · rfl
  · exact List.head?_append

theorem precedes_append (side : Side) (met beyond : Option Char) (a b : List Char) :
    precedes side met (a ++ b) beyond = precedes side met a (b.head?.or beyond) := by
  cases side
  · rfl
  · simp [precedes, List.head?_append, Option.or_assoc]

theorem Clear.balanced {side : Side} {symbols : List Char} {beyond met : Option Char}
    {a : List Char} (h : Clear side symbols beyond met a) : Balanced side a := by
  induction h with
  | nil => exact .nil
  | char hc _ _ ih => exact .char hc ih
  | group hi _ ih => exact .group hi ih

theorem Clear.append {side : Side} {symbols : List Char} {beyond met : Option Char}
    {a b : List Char} (ha : Clear side symbols (b.head?.or beyond) met a)
    (hb : Clear side symbols beyond (a.getLast?.or met) b) :
    Clear side symbols beyond met (a ++ b) := by
  generalize hx : b.head?.or beyond = front at ha
  induction ha with
  | nil => simpa using hb
  | @char met c a hc ho _ ih =>
    rw [List.cons_append]
    refine .char hc ?_ (ih ?_)
    · rw [precedes_append, hx]
      exact ho
    · simpa [List.getLast?_cons] using hb
  | @group met inner a hi _ ih =>
    rw [List.cons_append, List.append_assoc, List.cons_append]
    refine .group hi (ih ?_)
    simpa [List.getLast?_cons, List.getLast?_append] using hb

theorem Clear.reverse {symbols : List Char} {beyond before met : Option Char} {a : List Char}
    (h : Clear .left symbols beyond before a) : Clear .right symbols before met a.reverse := by
  induction h generalizing met with
  | nil => exact .nil
  | @char before c a hc ho _ ih =>
    rw [List.reverse_cons]
    refine Clear.append ?_ (.char hc ?_ .nil)
    · simpa using ih
    · simpa [precedes] using ho
  | @group before inner a hi _ ih =>
    have hg : Clear .right symbols before (a.reverse.getLast?.or met)
        (firstParen .right :: (inner.reverse ++ lastParen .right :: [])) :=
      .group hi.reverse .nil
    have ha : Clear .right symbols (some ')') met a.reverse := ih
    simpa [firstParen, lastParen, List.append_assoc] using Clear.append ha hg

theorem clear_of_forall {side : Side} {symbols a : List Char} {beyond met : Option Char}
    (h : ∀ c ∈ a, isParen c = false ∧ c ∉ symbols) : Clear side symbols beyond met a := by
  induction a generalizing met with
  | nil => exact .nil
  | cons c a ih =>
    obtain ⟨hc, hs⟩ := h c (by simp)
    refine .char hc ?_ (ih fun d hd => h d (by simp [hd]))
    simp [isOperator, hs]

theorem clear_of_all {side : Side} {symbols a : List Char} {beyond met : Option Char}
    (h : a.all (fun c => !isParen c && !symbols.contains c) = true) :
    Clear side symbols beyond met a :=
  clear_of_forall fun c hc => by simpa using List.all_eq_true.1 h c hc

theorem walk_clear {side : Side} {symbols a : List Char} {beyond met : Option Char}
    (h : Clear side symbols beyond met a) (index : Nat) (rest : List Char)
    (hb : rest.head? = beyond) :
    walk side symbols [] index met (a ++ rest) =
      walk side symbols [] (advance side index a.length) (a.getLast?.or met) rest := by
  induction h generalizing index with
  | nil => simp
  | @char met c a hc ho _ ih =>
    rw [List.cons_append, walk_skip hc, ih, advance_nextIndex]
    · simp [List.getLast?_cons]
    · rw [previousChar_append, hb]
      exact ho
  | @group met inner a hi _ ih =>
    have hlength : (firstParen side :: (inner ++ lastParen side :: a)).length =
        inner.length + 2 + a.length := by
      simp only [List.length_cons, List.length_append]
      omega
    rw [List.cons_append, List.append_assoc, List.cons_append, walk_group hi, ih, advance_advance,
      hlength]
    simp [List.getLast?_cons, List.getLast?_append]

theorem Clear.of_left {symbols a : List Char} {beyond beyond' met : Option Char}
    (h : Clear .left symbols beyond met a) : Clear .left symbols beyond' met a := by
  induction h with
  | nil => exact .nil
  | char hc ho _ ih => exact .char hc ho ih
  | group hi _ ih => exact .group hi ih

theorem find_clear {side : Side} {symbols text : List Char}
    (h : Clear .left symbols none none text) : find side symbols text = .ok none := by
  have hw : Clear side symbols none none (walkOrder side text) := by
    cases side
    · exact h
    · exact h.reverse
  have hf := walk_clear hw (firstIndex side text) [] rfl
  rw [List.append_nil] at hf
  rw [find, hf]
  rfl

theorem find_left {symbols l : List Char} {c : Char}
    (h : Clear .left symbols none none l) (hc : isParen c = false)
    (ho : isOperator symbols l.getLast? c = true) (r : List Char) :
    find .left symbols (l ++ c :: r) = .ok (some ⟨l.length, c⟩) := by
  rw [find, walkOrder, walk_clear h.of_left _ _ rfl, walk_stop hc]
  · simp [advance, firstIndex]
  · simpa [previousChar] using ho

theorem find_right {symbols r : List Char} {c : Char}
    (h : Clear .left symbols none (some c) r) (hc : isParen c = false) (l : List Char)
    (ho : isOperator symbols l.getLast? c = true) :
    find .right symbols (l ++ c :: r) = .ok (some ⟨l.length, c⟩) := by
  have hw : walkOrder .right (l ++ c :: r) = r.reverse ++ c :: l.reverse := by
    simp [walkOrder]
  rw [find, hw, walk_clear h.reverse _ _ rfl, walk_stop hc]
  · simp only [advance, firstIndex, List.length_append, List.length_cons, List.length_reverse]
    congr 3
    omega
  · simpa [previousChar] using ho

def EndsOperand (a : List Char) : Prop := a.getLast?.any endsOperand = true

theorem EndsOperand.append {b : List Char} (h : EndsOperand b) (a : List Char) :
    EndsOperand (a ++ b) := by
  unfold EndsOperand at *
  cases hb : b.getLast? with
  | none => simp [hb] at h
  | some c => simpa [List.getLast?_append, hb] using h

theorem EndsOperand.isOperator {a symbols : List Char} {c : Char} (h : EndsOperand a)
    (hc : c ∈ symbols) : isOperator symbols a.getLast? c = true := by
  unfold EndsOperand at h
  simp [Scan.isOperator, hc, h]

theorem endsOperand_of_forall {a : List Char} (hne : a ≠ [])
    (h : ∀ c ∈ a, endsOperand c = true) : EndsOperand a := by
  rw [EndsOperand, List.getLast?_eq_some_getLast hne]
  exact h _ (List.getLast_mem hne)

end Fluxion.Scan
