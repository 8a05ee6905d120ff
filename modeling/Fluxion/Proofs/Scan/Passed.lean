import Fluxion.Proofs.Scan.Partner

/-!
# What a scan passes over

Balanced text is clear up to its first operator. So a scan that finds nothing has passed over clear
text, and one that finds an operator has passed over clear text on its way to it. Text in front of
an operator keeps its clearness when it stands alone, and so does text behind one.
-/

set_option autoImplicit false

namespace Fluxion.Scan

theorem Balanced.clear_or {side : Side} {a : List Char} (h : Balanced side a)
    (symbols : List Char) (beyond met : Option Char) :
    Clear side symbols beyond met a ∨
      ∃ seen c rest, a = seen ++ c :: rest ∧ Clear side symbols (some c) met seen ∧
        isParen c = false ∧
        isOperator symbols (precedes side (seen.getLast?.or met) rest beyond) c = true := by
  induction h generalizing met with
  | nil => exact .inl .nil
  | @char c a hc _ ih =>
    cases ho : isOperator symbols (precedes side met a beyond) c with
    | true => exact .inr ⟨[], c, a, rfl, .nil, hc, ho⟩
    | false =>
      rcases ih (some c) with ha | ⟨seen, d, rest, rfl, hs, hd, hop⟩
      · exact .inl (.char hc ho ha)
      · rw [precedes_append] at ho
        refine .inr ⟨c :: seen, d, rest, rfl, .char hc ho hs, hd, ?_⟩
        simpa [List.getLast?_cons] using hop
  | @group inner a hi _ _ ih =>
    rcases ih (some (lastParen side)) with ha | ⟨seen, d, rest, rfl, hs, hd, hop⟩
    · exact .inl (.group hi ha)
    · refine .inr ⟨firstParen side :: (inner ++ lastParen side :: seen), d, rest, by simp,
        .group hi hs, hd, ?_⟩
      simpa [List.getLast?_cons, List.getLast?_append] using hop

theorem Clear.reverse_right {symbols : List Char} {beyond beyond' met : Option Char}
    {a : List Char} (h : Clear .right symbols beyond met a) :
    Clear .left symbols beyond' beyond a.reverse := by
  induction h generalizing beyond' with
  | nil => exact .nil
  | @char met c a hc ho _ ih =>
    rw [List.reverse_cons]
    refine Clear.append ih (.char hc ?_ .nil)
    simpa [precedes] using ho
  | @group met inner a hi _ ih =>
    have hg : Clear .left symbols beyond' (a.reverse.getLast?.or beyond)
        (firstParen .left :: (inner.reverse ++ lastParen .left :: [])) :=
      .group hi.reverse .nil
    simpa [firstParen, lastParen, List.append_assoc] using Clear.append ih hg

/-- A scan that waits for no partner ends at an operator behind clear text, or all of the text is
clear. -/
inductive Passes (side : Side) (symbols : List Char) (index : Nat) (met : Option Char) :
    List Char → Option Place → Prop
  | nothing {text : List Char} (h : Clear side symbols none met text) :
      Passes side symbols index met text none
  | operator {seen rest : List Char} {c : Char} (hs : Clear side symbols (some c) met seen)
      (hc : isParen c = false)
      (ho : isOperator symbols (previousChar side (seen.getLast?.or met) rest) c = true) :
      Passes side symbols index met (seen ++ c :: rest)
        (some ⟨advance side index seen.length, c⟩)

theorem walk_operator {side : Side} {symbols seen rest : List Char} {met : Option Char} {c : Char}
    (hs : Clear side symbols (some c) met seen) (hc : isParen c = false)
    (ho : isOperator symbols (previousChar side (seen.getLast?.or met) rest) c = true)
    (index : Nat) :
    walk side symbols [] index met (seen ++ c :: rest) =
      .ok (some ⟨advance side index seen.length, c⟩) := by
  rw [walk_clear hs index _ rfl, walk_stop hc ho]

theorem walk_passes {side : Side} {symbols text : List Char} {index : Nat} {met : Option Char}
    {p : Option Place} (h : walk side symbols [] index met text = .ok p) :
    Passes side symbols index met text p := by
  have hends := walk_ends side symbols text index met
  rw [h] at hends
  -- an operator within the text that was passed would have ended the scan
  have earlier {seen rest : List Char} {c : Char} (ht : text = seen ++ c :: rest)
      (hs : Clear side symbols (some c) met seen) (hc : isParen c = false)
      (ho : isOperator symbols (previousChar side (seen.getLast?.or met) rest) c = true) :
      Passes side symbols index met text p := by
    subst ht
    rw [walk_operator hs hc ho] at h
    exact Except.ok.inj h ▸ .operator hs hc ho
  cases hends with
  | nothing hb =>
    rcases hb.clear_or symbols none met with ha | ⟨seen, c, rest, ht, hs, hc, ho⟩
    · exact .nothing ha
    · refine earlier ht hs hc ?_
      have hrest := previousChar_append side (seen.getLast?.or met) rest []
      rw [List.append_nil] at hrest
      rw [hrest]
      exact ho
  | @operator all rest c hb hc ho =>
    rcases hb.clear_or symbols (some c) met with ha | ⟨seen, d, rest', rfl, hs, hd, hop⟩
    · exact .operator ha hc ho
    · have hop' : isOperator symbols
          (previousChar side (seen.getLast?.or met) (rest' ++ c :: rest)) d = true := by
        rw [previousChar_append]
        exact hop
      exact earlier (by simp) hs hd hop'

theorem clear_of_find {side : Side} {symbols text : List Char}
    (h : find side symbols text = .ok none) : Clear .left symbols none none text := by
  rw [find] at h
  have hp := walk_passes h
  generalize ht : walkOrder side text = order at hp
  cases hp with
  | nothing hc =>
    subst ht
    cases side with
    | left => exact hc
    | right =>
      have hr : Clear .left symbols none none text.reverse.reverse := hc.reverse_right
      rwa [List.reverse_reverse] at hr

structure At (side : Side) (symbols l : List Char) (c : Char) (r : List Char) : Prop where
  noParen : isParen c = false
  operator : isOperator symbols l.getLast? c = true
  clear : match side with
    | .left => Clear .left symbols none none l
    | .right => Clear .left symbols none (some c) r

theorem at_of_find {side : Side} {symbols text : List Char} {p : Place}
    (h : find side symbols text = .ok (some p)) :
    ∃ l c r, text = l ++ c :: r ∧ p = ⟨l.length, c⟩ ∧ At side symbols l c r := by
  rw [find] at h
  have hp := walk_passes h
  generalize ht : walkOrder side text = order at hp
  cases hp with
  | @operator seen rest c hs hc ho =>
    cases side with
    | left =>
      refine ⟨seen, c, rest, ht, by simp [advance, firstIndex], hc, ?_, hs.of_left⟩
      simpa [previousChar] using ho
    | right =>
      have htext : text = rest.reverse ++ c :: seen.reverse := by
        have horder := congrArg List.reverse ht
        simpa [walkOrder] using horder
      refine ⟨rest.reverse, c, seen.reverse, htext, ?_, hc, ?_, hs.reverse_right⟩
      · have hlength : text.length = rest.length + (seen.length + 1) := by simp [htext]
        simp only [advance, firstIndex, List.length_reverse, hlength]
        congr 1
        omega
      · rwa [List.getLast?_reverse]

/-- An operator behind balanced text ends a scan, unless an operator in that text does. -/
theorem walk_reaches {side : Side} {symbols seen rest : List Char} {met : Option Char} {c : Char}
    (hs : Balanced side seen) (hc : isParen c = false)
    (ho : isOperator symbols (previousChar side (seen.getLast?.or met) rest) c = true)
    (index : Nat) :
    ∃ k d, k ≤ seen.length ∧ walk side symbols [] index met (seen ++ c :: rest) =
      .ok (some ⟨advance side index k, d⟩) := by
  rcases hs.clear_or symbols (some c) met with hclear | ⟨a, d, b, rfl, ha, hd, hop⟩
  · exact ⟨_, c, Nat.le_refl _, walk_operator hclear hc ho index⟩
  · have hop' : isOperator symbols (previousChar side (a.getLast?.or met) (b ++ c :: rest)) d =
        true := by
      rw [previousChar_append]
      exact hop
    refine ⟨a.length, d, by simp, ?_⟩
    rw [List.append_assoc, List.cons_append]
    exact walk_operator ha hd hop' index

def NoLater (side : Side) (i j : Nat) : Prop :=
  match side with
  | .left => i ≤ j
  | .right => j ≤ i

theorem find_reaches {side : Side} {symbols l r : List Char} {c : Char}
    (h : Balanced .left (passed side l r)) (hc : isParen c = false)
    (ho : isOperator symbols l.getLast? c = true) :
    ∃ p, find side symbols (l ++ c :: r) = .ok (some p) ∧ NoLater side p.index l.length := by
  cases side with
  | left =>
    have hop : isOperator symbols (previousChar .left (l.getLast?.or none) r) c = true := by
      rwa [Option.or_none]
    have hl : Balanced .left l := h
    obtain ⟨k, d, hk, hw⟩ := walk_reaches hl hc hop 0
    refine ⟨_, hw, ?_⟩
    simpa [NoLater, advance] using hk
  | right =>
    have hop : isOperator symbols (previousChar .right (r.reverse.getLast?.or none) l.reverse) c =
        true := by
      rwa [previousChar, List.head?_reverse]
    have hbalanced : Balanced .left r := h
    have hr : Balanced .right r.reverse := hbalanced.reverse
    obtain ⟨k, d, hk, hw⟩ := walk_reaches hr hc hop ((l ++ c :: r).length - 1)
    have horder : walkOrder .right (l ++ c :: r) = r.reverse ++ c :: l.reverse := by
      simp [walkOrder]
    refine ⟨⟨_, d⟩, by rw [find, horder]; exact hw, ?_⟩
    simp only [NoLater, advance, List.length_append, List.length_cons]
    rw [List.length_reverse] at hk
    omega

theorem Clear.of_met {symbols a : List Char} {beyond met met' : Option Char}
    (h : Clear .left symbols beyond met a)
    (hm : met.any Scan.endsOperand = met'.any Scan.endsOperand) :
    Clear .left symbols beyond met' a := by
  cases h with
  | nil => exact .nil
  | char hc ho h =>
    refine .char hc ?_ h
    simpa [isOperator, precedes, hm] using ho
  | group hi hr => exact .group hi hr

theorem Clear.parts {symbols a b : List Char} {met : Option Char}
    (h : Clear .left symbols none met (a ++ b)) (ha : Balanced .left a) :
    Clear .left symbols none met a ∧ Clear .left symbols none (a.getLast?.or met) b := by
  have hwalk := walk_clear h 0 [] rfl
  rw [List.append_nil] at hwalk
  rcases ha.clear_or symbols b.head? met with hc | ⟨seen, c, rest, rfl, hs, hc, ho⟩
  · rw [walk_clear hc 0 b rfl] at hwalk
    have hp := walk_passes hwalk
    cases hp with
    | nothing hb => exact ⟨hc.of_left, hb⟩
  · rw [List.append_assoc, List.cons_append, walk_operator hs hc (by rwa [previousChar_append])]
      at hwalk
    cases hwalk

end Fluxion.Scan
