import Fluxion.Proofs.Scan.Split

/-!
# Partners, and what a scan comes to

Two parentheses are partners if the text between them is balanced. A scan passes over balanced text
and ends there, or at an operator behind it, or at a parenthesis behind it that has no partner. So
a text is balanced if each of its parentheses has a partner.
-/

set_option autoImplicit false

namespace Fluxion.Scan

theorem paren_cases (side : Side) {c : Char} (hc : isParen c = true) :
    c = firstParen side ∨ c = lastParen side := by
  simp only [isParen, Bool.or_eq_true, beq_iff_eq] at hc
  cases side
  · exact hc
  · exact hc.symm

theorem walk_waiting (side : Side) (symbols : List Char) (p : Place) (text : List Char)
    (waiting : List Place) (index : Nat) (met : Option Char) :
    walk side symbols (waiting ++ [p]) index met text = .error p.unpaired ∨
      ∃ a rest, text = a ++ lastParen side :: rest ∧ Closes side waiting.length a := by
  induction text generalizing waiting index met with
  | nil => simp [walk]
  | cons c text ih =>
    by_cases hc : isParen c = true
    · rcases paren_cases side hc with rfl | rfl
      · rw [walk_firstParen]
        rcases ih (⟨index, firstParen side⟩ :: waiting) (nextIndex side index)
          (some (firstParen side)) with h | ⟨a, rest, rfl, ha⟩
        · exact .inl h
        · exact .inr ⟨firstParen side :: a, rest, rfl, ha.group⟩
      · cases waiting with
        | nil => exact .inr ⟨[], text, rfl, .last .nil⟩
        | cons w waiting =>
          rw [List.cons_append, walk_lastParen]
          rcases ih waiting (nextIndex side index) (some (lastParen side)) with
            h | ⟨a, rest, rfl, ha⟩
          · exact .inl h
          · exact .inr ⟨lastParen side :: a, rest, rfl, .inner .nil ha⟩
    · have hc : isParen c = false := by simpa using hc
      have hskip : walk side symbols (waiting ++ [p]) index met (c :: text) =
          walk side symbols (waiting ++ [p]) (nextIndex side index) (some c) text := by
        cases waiting with
        | nil => exact walk_inside hc
        | cons w waiting => exact walk_inside hc
      rw [hskip]
      rcases ih waiting (nextIndex side index) (some c) with h | ⟨a, rest, rfl, ha⟩
      · exact .inl h
      · exact .inr ⟨c :: a, rest, rfl, ha.prepend (.char hc .nil)⟩

theorem walk_unclosed {side : Side} {rest : List Char}
    (hn : ∀ a more, rest = a ++ lastParen side :: more → ¬ Balanced side a)
    (symbols : List Char) (index : Nat) (met : Option Char) :
    walk side symbols [] index met (firstParen side :: rest) =
      .error (Place.unpaired ⟨index, firstParen side⟩) := by
  rw [walk_firstParen]
  rcases walk_waiting side symbols ⟨index, firstParen side⟩ rest [] (nextIndex side index)
    (some (firstParen side)) with h | ⟨a, more, hr, ha⟩
  · exact h
  · exact absurd ha.balanced (hn a more hr)

/-- How a scan ends that waits for no partner, on a text in the order of the walk. -/
inductive Ends (side : Side) (symbols : List Char) (index : Nat) (met : Option Char) :
    List Char → Except Unpaired (Option Place) → Prop
  | nothing {seen : List Char} (hs : Balanced side seen) :
      Ends side symbols index met seen (.ok none)
  | operator {seen rest : List Char} {c : Char} (hs : Balanced side seen)
      (hc : isParen c = false)
      (ho : isOperator symbols (previousChar side (seen.getLast?.or met) rest) c = true) :
      Ends side symbols index met (seen ++ c :: rest)
        (.ok (some ⟨advance side index seen.length, c⟩))
  | unopened {seen rest : List Char} (hs : Balanced side seen) :
      Ends side symbols index met (seen ++ lastParen side :: rest)
        (.error (Place.unpaired ⟨advance side index seen.length, lastParen side⟩))
  | unclosed {seen rest : List Char} (hs : Balanced side seen)
      (hn : ∀ a more, rest = a ++ lastParen side :: more → ¬ Balanced side a) :
      Ends side symbols index met (seen ++ firstParen side :: rest)
        (.error (Place.unpaired ⟨advance side index seen.length, firstParen side⟩))

theorem Ends.prepend {side : Side} {symbols a text : List Char} {index : Nat}
    {result : Except Unpaired (Option Place)} (met : Option Char) (ha : Balanced side a)
    (h : Ends side symbols (advance side index a.length) (a.getLast?.or met) text result) :
    Ends side symbols index met (a ++ text) result := by
  have hlength (seen : List Char) : advance side (advance side index a.length) seen.length =
      advance side index (a ++ seen).length := by
    rw [advance_advance, List.length_append]
  cases h with
  | nothing hs => exact .nothing (ha.append hs)
  | operator hs hc ho =>
    rw [hlength, ← List.append_assoc]
    refine .operator (ha.append hs) hc ?_
    rwa [List.getLast?_append, Option.or_assoc]
  | unopened hs =>
    rw [hlength, ← List.append_assoc]
    exact .unopened (ha.append hs)
  | unclosed hs hn =>
    rw [hlength, ← List.append_assoc]
    exact .unclosed (ha.append hs) hn

theorem walk_ends (side : Side) (symbols text : List Char) (index : Nat) (met : Option Char) :
    Ends side symbols index met text (walk side symbols [] index met text) := by
  cases text with
  | nil => exact .nothing .nil
  | cons c rest =>
    by_cases hc : isParen c = true
    · rcases paren_cases side hc with rfl | rfl
      · by_cases hp : ∃ a more, rest = a ++ lastParen side :: more ∧ Balanced side a
        · obtain ⟨a, more, rfl, ha⟩ := hp
          rw [walk_group ha]
          have hmore := walk_ends side symbols more (advance side index (a.length + 2))
            (some (lastParen side))
          have hend := Ends.prepend met ha.enclose (by simpa [List.getLast?_cons] using hmore)
          simpa using hend
        · have hn : ∀ a more, rest = a ++ lastParen side :: more → ¬ Balanced side a :=
            fun a more hr ha => hp ⟨a, more, hr, ha⟩
          rw [walk_unclosed hn]
          have hend : Ends side symbols index met _ _ := .unclosed .nil hn
          simpa using hend
      · rw [walk_unopened]
        have hend : Ends side symbols index met ([] ++ lastParen side :: rest) _ := .unopened .nil
        simpa using hend
    · have hc : isParen c = false := by simpa using hc
      cases ho : isOperator symbols (previousChar side met rest) c with
      | true =>
        rw [walk_stop hc ho]
        have hend : Ends side symbols index met ([] ++ c :: rest) _ := .operator .nil hc ho
        simpa using hend
      | false =>
        rw [walk_skip hc ho]
        have hrest := walk_ends side symbols rest (nextIndex side index) (some c)
        have hend := Ends.prepend met (.char hc .nil)
          (by rw [List.length_singleton, advance_one]; exact hrest)
        exact hend
termination_by text.length

theorem Balanced.clear {side : Side} {a : List Char} (h : Balanced side a)
    (beyond met : Option Char) : Clear side [] beyond met a := by
  induction h generalizing met with
  | nil => exact .nil
  | char hc _ ih => exact .char hc rfl (ih _)
  | group hi _ _ ih => exact .group hi (ih _)

theorem Balanced.not_unopened {side : Side} {a rest : List Char} (ha : Balanced side a) :
    ¬ Balanced side (a ++ lastParen side :: rest) := by
  intro h
  have hall := walk_clear (h.clear none none) 0 [] rfl
  rw [List.append_nil, walk_clear (ha.clear _ none) 0 _ rfl, walk_unopened] at hall
  cases hall

def Partnered (l : List Char) (c : Char) (r : List Char) : Prop :=
  (c = '(' ∧ ∃ inner rest, r = inner ++ ')' :: rest ∧ Balanced .left inner) ∨
    (c = ')' ∧ ∃ front inner, l = front ++ '(' :: inner ∧ Balanced .left inner)

/-- A parenthesis, between what is in front of it and what is behind it, without a partner. -/
def Lonely (l : List Char) (c : Char) (r : List Char) : Prop :=
  isParen c = true ∧ ¬ Partnered l c r

theorem Partnered.extend {l r : List Char} {c : Char} (h : Partnered l c r) (a b : List Char) :
    Partnered (a ++ l) c (r ++ b) := by
  rcases h with ⟨rfl, inner, rest, rfl, hi⟩ | ⟨rfl, front, inner, rfl, hi⟩
  · exact .inl ⟨rfl, inner, rest ++ b, by simp, hi⟩
  · exact .inr ⟨rfl, a ++ front, inner, by simp, hi⟩

theorem Balanced.partnered {text l r : List Char} {c : Char} (h : Balanced .left text)
    (ht : text = l ++ c :: r) (hc : isParen c = true) : Partnered l c r := by
  induction h generalizing l r with
  | nil => simp at ht
  | @char d rest hd _ ih =>
    cases l with
    | nil =>
      obtain ⟨rfl, rfl⟩ := List.cons.inj ht
      simp [hd] at hc
    | cons d' l =>
      obtain ⟨rfl, hr⟩ := List.cons.inj ht
      simpa using (ih hr).extend [d] []
  | @group inner rest hi _ ihi ihr =>
    have closing : Partnered ('(' :: inner) ')' rest := .inr ⟨rfl, [], inner, rfl, hi⟩
    change '(' :: (inner ++ ')' :: rest) = l ++ c :: r at ht
    cases l with
    | nil =>
      obtain ⟨rfl, rfl⟩ := List.cons.inj ht
      exact .inl ⟨rfl, inner, rest, rfl, hi⟩
    | cons d l =>
      obtain ⟨rfl, htail⟩ := List.cons.inj ht
      rcases List.append_eq_append_iff.1 htail with ⟨a, rfl, ha⟩ | ⟨a, rfl, ha⟩
      · cases a with
        | nil =>
          obtain ⟨rfl, rfl⟩ := List.cons.inj ha
          simpa using closing
        | cons d a =>
          obtain ⟨rfl, hrest⟩ := List.cons.inj ha
          simpa using (ihr hrest).extend ('(' :: (inner ++ [')'])) []
      · cases a with
        | nil =>
          obtain ⟨rfl, rfl⟩ := List.cons.inj ha
          simpa using closing
        | cons d a =>
          obtain ⟨rfl, rfl⟩ := List.cons.inj ha
          simpa using (ihi rfl).extend ['('] (')' :: rest)

theorem lonely_opening {r : List Char} (h : Balanced .left r) (l : List Char) :
    Lonely l '(' r := by
  refine ⟨rfl, ?_⟩
  rintro (⟨_, inner, rest, rfl, hi⟩ | ⟨hc, _⟩)
  · exact hi.not_unopened h
  · exact absurd hc (by decide)

theorem lonely_closing {l : List Char} (h : Balanced .left l) (r : List Char) :
    Lonely l ')' r := by
  refine ⟨rfl, ?_⟩
  rintro (⟨hc, _⟩ | ⟨_, front, inner, rfl, hi⟩)
  · exact absurd hc (by decide)
  · have hr := h.reverse
    rw [List.reverse_append, List.reverse_cons, List.append_assoc] at hr
    exact hi.reverse.not_unopened hr

theorem Lonely.behind {l r r' : List Char} {c : Char} (h : Lonely l c r)
    (hr : Balanced .left r') : Lonely l c r' := by
  refine ⟨h.1, fun hp => ?_⟩
  rcases hp with ⟨rfl, hp⟩ | ⟨rfl, hp⟩
  · exact (lonely_opening hr l).2 (.inl ⟨rfl, hp⟩)
  · exact h.2 (.inr ⟨rfl, hp⟩)

theorem Lonely.front {l l' r : List Char} {c : Char} (h : Lonely l c r)
    (hl : Balanced .left l') : Lonely l' c r := by
  refine ⟨h.1, fun hp => ?_⟩
  rcases hp with ⟨rfl, hp⟩ | ⟨rfl, hp⟩
  · exact h.2 (.inl ⟨rfl, hp⟩)
  · exact (lonely_closing hl r).2 (.inr ⟨rfl, hp⟩)

def passed (side : Side) (l r : List Char) : List Char :=
  match side with
  | .left => l
  | .right => r

inductive Found (side : Side) (symbols : List Char) :
    List Char → Except Unpaired (Option Place) → Prop
  | nothing {text : List Char} (h : Balanced .left text) : Found side symbols text (.ok none)
  | operator {l r : List Char} {c : Char} (h : Balanced .left (passed side l r))
      (hc : isParen c = false) (ho : isOperator symbols l.getLast? c = true) :
      Found side symbols (l ++ c :: r) (.ok (some ⟨l.length, c⟩))
  | lonely {l r : List Char} {c : Char} (h : Balanced .left (passed side l r))
      (hl : Lonely l c r) : Found side symbols (l ++ c :: r) (.error ⟨l.length, c == '('⟩)

theorem found_left (symbols text : List Char) :
    Found .left symbols text (find .left symbols text) := by
  have h := walk_ends .left symbols text 0 none
  rw [find, walkOrder, firstIndex]
  generalize walk .left symbols [] 0 none text = result at h
  cases h with
  | nothing hs => exact .nothing hs
  | @operator seen rest c hs hc ho =>
    have hf : Found .left symbols (seen ++ c :: rest) _ :=
      .operator hs hc (by simpa [previousChar] using ho)
    simpa [advance] using hf
  | @unopened seen rest hs =>
    have hf : Found .left symbols (seen ++ ')' :: rest) _ :=
      .lonely hs (lonely_closing hs rest)
    simpa [advance, Place.unpaired, lastParen] using hf
  | @unclosed seen rest hs hn =>
    have hl : Lonely seen '(' rest := by
      refine ⟨rfl, ?_⟩
      rintro (⟨_, inner, more, hr, hi⟩ | ⟨hc, _⟩)
      · exact hn inner more hr hi
      · exact absurd hc (by decide)
    have hf : Found .left symbols (seen ++ '(' :: rest) _ := .lonely hs hl
    simpa [advance, Place.unpaired, firstParen] using hf

theorem found_right (symbols text : List Char) :
    Found .right symbols text (find .right symbols text) := by
  have h := walk_ends .right symbols text.reverse (text.length - 1) none
  rw [find, walkOrder, firstIndex]
  generalize walk .right symbols [] (text.length - 1) none text.reverse = result at h
  generalize hr : text.reverse = order at h
  obtain rfl : text = order.reverse := by rw [← hr, List.reverse_reverse]
  have index (seen rest : List Char) (c : Char) :
      advance .right ((seen ++ c :: rest).reverse.length - 1) seen.length =
        rest.reverse.length := by
    simp only [advance, List.length_reverse, List.length_append, List.length_cons]
    omega
  have order (seen rest : List Char) (c : Char) :
      (seen ++ c :: rest).reverse = rest.reverse ++ c :: seen.reverse := by simp
  cases h with
  | nothing hs => exact .nothing hs.reverse
  | @operator seen rest c hs hc ho =>
    rw [index, order]
    refine .operator hs.reverse hc ?_
    rwa [List.getLast?_reverse]
  | @unopened seen rest hs =>
    rw [index, order]
    exact .lonely hs.reverse (lonely_opening hs.reverse _)
  | @unclosed seen rest hs hn =>
    rw [index, order]
    refine .lonely hs.reverse ⟨rfl, ?_⟩
    rintro (⟨hc, _⟩ | ⟨_, front, inner, hr, hi⟩)
    · exact absurd hc (by decide)
    · refine hn inner.reverse front.reverse ?_ hi.reverse
      rw [← List.reverse_reverse rest, hr]
      simp [lastParen]

/-- A scan finds the first operator behind balanced text, or the first parenthesis there that has no
partner, or all of the text is balanced. -/
theorem found (side : Side) (symbols text : List Char) :
    Found side symbols text (find side symbols text) := by
  cases side with
  | left => exact found_left symbols text
  | right => exact found_right symbols text

/-- A text that is not balanced has a parenthesis without a partner, and no further one on the side
that a scan comes from. -/
theorem exists_lonely (side : Side) {text : List Char} (h : ¬ Balanced .left text) :
    ∃ l c r, text = l ++ c :: r ∧ Balanced .left (passed side l r) ∧ Lonely l c r := by
  have hf := found side [] text
  generalize find side [] text = result at hf
  cases hf with
  | nothing hb => exact absurd hb h
  | operator _ _ ho => simp [isOperator] at ho
  | @lonely l r c hb hl => exact ⟨l, c, r, rfl, hb, hl⟩

theorem balanced_iff {text : List Char} :
    Balanced .left text ↔ ∀ l c r, text = l ++ c :: r → ¬ Lonely l c r := by
  constructor
  · intro h l c r ht hl
    exact hl.2 (h.partnered ht hl.1)
  · intro h
    refine Classical.byContradiction fun hb => ?_
    obtain ⟨l, c, r, ht, _, hl⟩ := exists_lonely .left hb
    exact h l c r ht hl

theorem Balanced.front {a b : List Char} (h : Balanced .left (a ++ b)) (hb : Balanced .left b) :
    Balanced .left a := by
  refine Classical.byContradiction fun ha => ?_
  obtain ⟨l, c, r, rfl, hr, hl⟩ := exists_lonely .right ha
  have hr : Balanced .left (r ++ b) := Balanced.append hr hb
  exact (hl.behind hr).2 (h.partnered (by simp) hl.1)

theorem Balanced.back {a b : List Char} (h : Balanced .left (a ++ b)) (ha : Balanced .left a) :
    Balanced .left b := by
  refine Classical.byContradiction fun hb => ?_
  obtain ⟨l, c, r, rfl, hl', hl⟩ := exists_lonely .left hb
  have hf : Balanced .left (a ++ l) := ha.append hl'
  exact (hl.front hf).2 (h.partnered (by simp) hl.1)

end Fluxion.Scan
