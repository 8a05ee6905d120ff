import Fluxion.Proofs.Checked.Basic
import Fluxion.Proofs.Scan.Bytes

/-!
# Scans by index

The loops that look for an operator and for a partner, over bytes that are looked up one by one.
Within the bytes they do not trap, and they come to the same as the walks over a list.
-/

set_option autoImplicit false

namespace Fluxion.Checked
open Scan

def visited (most : Nat) (side : Side) (range : Text.Span) (step : Nat) : Except Trap Nat :=
  match side with
  | .left => add most range.start step
  | .right => do
    let last ← sub range.stop 1
    sub last step

def followsOperand (letters : List Char) (start index : Nat) : Except Trap Bool :=
  if start < index then do
    let before ← sub index 1
    let previous ← lookUp letters before
    pure (endsOperand previous)
  else pure false

/-- Whether a scan that waits for these partners ends at a byte that is no parenthesis. -/
def endsAt (letters symbols : List Char) (start index : Nat) (c : Char) (waiting : List Nat) :
    Except Trap Bool :=
  if waiting.isEmpty && symbols.contains c then
    if c == '+' || c == '-' then followsOperand letters start index else pure true
  else pure false

def findFrom (most : Nat) (letters symbols : List Char) (side : Side) (range : Text.Span) :
    Nat → Nat → List Nat → Except Trap (Except Unpaired (Option Nat))
  | 0, _, waiting =>
    match waiting.getLast? with
    | none => pure (.ok none)
    | some index => do
      let c ← lookUp letters index
      pure (.error ⟨index, c == '('⟩)
  | remaining + 1, step, waiting => do
    let index ← visited most side range step
    let c ← lookUp letters index
    if c == firstParen side then
      findFrom most letters symbols side range remaining (step + 1) (index :: waiting)
    else if c == lastParen side then
      match waiting with
      | [] => pure (.error ⟨index, c == '('⟩)
      | _ :: waiting => findFrom most letters symbols side range remaining (step + 1) waiting
    else do
      let ends ← endsAt letters symbols range.start index c waiting
      if ends then pure (.ok (some index))
      else findFrom most letters symbols side range remaining (step + 1) waiting

def find (most : Nat) (letters symbols : List Char) (side : Side) (range : Text.Span) :
    Except Trap (Except Unpaired (Option Nat)) :=
  findFrom most letters symbols side range (range.stop - range.start) 0 []

def partnerFrom (most index depth : Nat) : List Char → Except Trap (Option Nat)
  | [] => pure none
  | c :: rest => do
    let next ← add most index 1
    if c = '(' then
      let deeper ← add most depth 1
      partnerFrom most next deeper rest
    else if c = ')' then
      match depth with
      | 0 => pure none
      | 1 => pure (some index)
      | depth + 2 => partnerFrom most next (depth + 1) rest
    else partnerFrom most next depth rest

def partner (most : Nat) (letters : List Char) (range : Text.Span) : Except Trap (Option Nat) :=
  partnerFrom most range.start 0 ((letters.take range.stop).drop range.start)

def placed (start : Nat) : Except Unpaired (Option Place) → Except Unpaired (Option Nat)
  | .ok p => .ok (p.map fun p => start + p.index)
  | .error u => .error ⟨start + u.index, u.opening⟩

section
variable {most : Nat} {side : Side} {front part behind symbols done rest : List Char} {c : Char}

theorem exists_split (hw : walkOrder side part = done ++ c :: rest) :
    ∃ l r, part = l ++ c :: r ∧ l.length = startAt side List.length done (c :: rest) ∧
      previousChar side done.getLast? rest = l.getLast? := by
  cases side with
  | left => exact ⟨done, rest, hw, rfl, rfl⟩
  | right =>
    refine ⟨rest.reverse, done.reverse, ?_, ?_, ?_⟩
    · rw [← List.reverse_reverse part]
      simpa [walkOrder] using congrArg List.reverse hw
    · simp [startAt]
    · simp [previousChar]

theorem visited_eq (hsize : front.length + part.length ≤ most)
    (hw : walkOrder side part = done ++ c :: rest) :
    visited most side ⟨front.length, front.length + part.length⟩ done.length =
      .ok (front.length + startAt side List.length done (c :: rest)) := by
  have hlen : part.length = done.length + (rest.length + 1) := by
    have h := congrArg List.length hw
    cases side <;> simpa [walkOrder] using h
  cases side with
  | left =>
    have hle : front.length + done.length ≤ most := by omega
    exact add_ok hle
  | right =>
    have hlast : sub (front.length + part.length) 1 = .ok (front.length + part.length - 1) :=
      sub_ok (by omega)
    rw [visited, ok_bind hlast, sub_ok (by omega), startAt, List.length_cons]
    congr 1
    omega

theorem lookUp_part (front : List Char) {part : List Char} (behind : List Char) {index : Nat}
    (h : part[index]? = some c) :
    lookUp (front ++ (part ++ behind)) (front.length + index) = .ok c := by
  obtain ⟨hlt, -⟩ := List.getElem?_eq_some_iff.1 h
  refine lookUp_ok ?_
  rw [List.getElem?_append_right (Nat.le_add_right _ _), Nat.add_sub_cancel_left,
    List.getElem?_append_left hlt, h]

theorem followsOperand_eq (front l more : List Char) :
    followsOperand (front ++ (l ++ more)) front.length (front.length + l.length) =
      .ok (l.getLast?.any endsOperand) := by
  by_cases hl : l = []
  · subst hl
    exact if_neg (Nat.lt_irrefl _)
  · obtain ⟨d, hd⟩ : ∃ d, l.getLast? = some d := ⟨_, List.getLast?_eq_some_getLast hl⟩
    have hpos := List.length_pos_iff.2 hl
    have hlook : lookUp (front ++ (l ++ more)) (front.length + (l.length - 1)) = .ok d :=
      lookUp_part front more (by rw [← List.getLast?_eq_getElem?, hd])
    have hbefore : front.length + l.length - 1 = front.length + (l.length - 1) := by omega
    rw [followsOperand, if_pos (by omega), ok_bind (sub_ok (by omega)), hbefore, ok_bind hlook, hd]
    rfl

theorem endsAt_eq (front l more symbols : List Char) (c : Char) (waiting : List Nat) :
    endsAt (front ++ (l ++ more)) symbols front.length (front.length + l.length) c waiting =
      .ok (waiting.isEmpty && isOperator symbols l.getLast? c) := by
  rw [endsAt, followsOperand_eq, isOperator]
  cases waiting.isEmpty <;> cases symbols.contains c <;> cases c == '+' || c == '-' <;> rfl

/-- A scan by index does not trap within the bytes, and comes to what the walk comes to. -/
theorem findFrom_eq (behind symbols : List Char) (hsize : front.length + part.length ≤ most)
    (hw : walkOrder side part = done ++ rest) (waiting : List Place)
    (hwait : ∀ p ∈ waiting, part[p.index]? = some p.char) :
    findFrom most (front ++ (part ++ behind)) symbols side
        ⟨front.length, front.length + part.length⟩ rest.length done.length
        (waiting.map fun p => front.length + p.index) =
      .ok (placed front.length
        (walk side symbols waiting (startAt side List.length done rest) done.getLast? rest)) := by
  -- along what is left of the walk; the steps that are done say which index comes next
  induction rest generalizing done waiting with
  | nil =>
    rw [List.length_nil, findFrom, walk, List.getLast?_map]
    cases hp : waiting.getLast? with
    | none => rfl
    | some p =>
      have hlook := lookUp_part front behind (hwait p (List.mem_of_getLast? hp))
      exact ok_bind hlook _
  | cons c rest ih =>
    have hw' : walkOrder side part = (done ++ [c]) ++ rest := by rw [hw, List.append_assoc]; rfl
    obtain ⟨l, r, hpart, hlen, hprevious⟩ := exists_split hw
    have hat : part[l.length]? = some c := by simp [hpart]
    have hgo := fun waiting hwait => ih hw' waiting hwait
    rw [List.length_append, List.length_singleton, List.getLast?_concat,
      ← nextIndex_startAt, ← hlen] at hgo
    rw [List.length_cons, findFrom, ok_bind (visited_eq hsize hw), ← hlen,
      ok_bind (lookUp_part front behind hat)]
    by_cases hp : isParen c = true
    · rcases paren_cases side hp with rfl | rfl
      · rw [if_pos (beq_self_eq_true _), walk_firstParen]
        refine hgo (⟨l.length, firstParen side⟩ :: waiting) ?_
        intro p hm
        rcases List.mem_cons.1 hm with rfl | hm
        · exact hat
        · exact hwait p hm
      · have hne : (lastParen side == firstParen side) = false := by cases side <;> rfl
        rw [if_neg (by rw [hne]; exact Bool.false_ne_true), if_pos (beq_self_eq_true _)]
        cases waiting with
        | nil =>
          rw [walk_unopened]
          rfl
        | cons p waiting =>
          rw [walk_lastParen]
          exact hgo waiting fun q hq => hwait q (List.mem_cons_of_mem _ hq)
    · have hp : isParen c = false := by simpa using hp
      obtain ⟨hf, hl⟩ := parens_of_not_isParen side hp
      rw [if_neg (by rw [hf]; exact Bool.false_ne_true),
        if_neg (by rw [hl]; exact Bool.false_ne_true)]
      -- the byte in front is looked up in all bytes, not only in those of the range
      have hends := endsAt_eq front l (c :: (r ++ behind)) symbols c
        (waiting.map fun p => front.length + p.index)
      rw [← List.cons_append, ← List.append_assoc l, ← hpart, List.isEmpty_map, ← hprevious]
        at hends
      rw [ok_bind hends, walk_other hp]
      cases waiting.isEmpty && isOperator symbols (previousChar side done.getLast? rest) c with
      | true => rfl
      | false => exact hgo waiting hwait

theorem find_eq (hsize : front.length + part.length ≤ most) :
    find most (front ++ (part ++ behind)) symbols side
        ⟨front.length, front.length + part.length⟩ =
      .ok (placed front.length (Scan.find side symbols part)) := by
  have hw : walkOrder side part = [] ++ walkOrder side part := rfl
  have h := findFrom_eq behind symbols hsize hw [] nofun
  have hlen : (walkOrder side part).length = front.length + part.length - front.length := by
    rw [Nat.add_sub_cancel_left]
    cases side with
    | left => rfl
    | right => exact List.length_reverse
  have hstart : startAt side List.length [] (walkOrder side part) = firstIndex side part := by
    cases side with
    | left => rfl
    | right => rw [startAt, firstIndex, walkOrder, List.length_reverse]
  rw [hlen, hstart] at h
  exact h

theorem partnerFrom_eq {start index depth : Nat} {text : List Char}
    (hi : start + index + text.length ≤ most) (hd : depth + text.length ≤ most) :
    partnerFrom most (start + index) depth text =
      .ok ((Scan.partnerFrom index depth text).map (start + ·)) := by
  induction text generalizing index depth with
  | nil => rfl
  | cons c text ih =>
    rw [List.length_cons] at hi hd
    have hnext : start + (index + 1) + text.length ≤ most := by omega
    have hgo {depth : Nat} (hd : depth + text.length ≤ most) :
        partnerFrom most (start + index + 1) depth text =
          .ok ((Scan.partnerFrom (index + 1) depth text).map (start + ·)) := ih hnext hd
    rw [partnerFrom, ok_bind (add_ok (by omega))]
    by_cases hopen : c = '('
    · subst hopen
      rw [if_pos rfl, ok_bind (add_ok (by omega)), partnerFrom_open]
      exact hgo (by omega)
    · rw [if_neg hopen]
      by_cases hclose : c = ')'
      · subst hclose
        rw [if_pos rfl]
        match depth with
        | 0 => rfl
        | 1 =>
          rw [partnerFrom_last]
          rfl
        | depth + 2 =>
          rw [partnerFrom_close]
          exact hgo (by omega)
      · have hp : isParen c = false := by simp [isParen, hopen, hclose]
        rw [if_neg hclose, partnerFrom_skip hp]
        exact hgo (by omega)

theorem partner_eq (hsize : front.length + part.length ≤ most) :
    partner most (front ++ (part ++ behind)) ⟨front.length, front.length + part.length⟩ =
      .ok ((Scan.partner part).map (front.length + ·)) := by
  have hpart : ((front ++ (part ++ behind)).take (front.length + part.length)).drop front.length =
      part := by
    rw [← List.append_assoc, ← List.length_append, List.take_left, List.drop_left]
  have hstart : front.length + 0 + part.length ≤ most := hsize
  rw [partner, hpart]
  exact partnerFrom_eq hstart (by omega)

end

end Fluxion.Checked
