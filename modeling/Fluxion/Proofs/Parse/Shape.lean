import Fluxion.Proofs.Parse.Grammar
import Fluxion.Proofs.Parse.Splits

/-!
# Shapes and productions

A shape that is found at a tier fits the text it was found in, and where none is found the text has
the reason in it. The text of a derivation has the shape of the production at its root.
-/

set_option autoImplicit false

namespace Fluxion.Parse

def Tier.rank : Tier → Nat
  | .sum => 0
  | .product => 1
  | .power => 2
  | .base | .primary => 3

/-- How a text is put together when it has a shape at a tier. -/
inductive Forms (tier : Tier) : List Char → Shape → Prop
  | var : Forms tier ['x'] (.leaf .var)
  | literal {text : List Char} {v : Float} (h : Literal.ofText? text = some v) :
      Forms tier text (.leaf (.literal v))
  | group {interior : List Char} (hne : interior ≠ []) (hb : Scan.Balanced .left interior) :
      Forms tier ('(' :: (interior ++ [')'])) (.wrapped .paren interior)
  | call {argument : List Char} (hne : argument ≠ []) (ht : tier.rank ≤ 2)
      (hb : Scan.Balanced .left argument) :
      Forms tier ('l' :: 'o' :: 'g' :: '(' :: (argument ++ [')'])) (.wrapped .log argument)
  | split {l r : List Char} {op : Operator} (hl : l ≠ []) (hr : r ≠ [])
      (ht : tier.rank ≤ op.precedence.rank)
      (hb : Scan.Balanced .left (Scan.passed op.associativity.other l r)) :
      Forms tier (l ++ op.symbol :: r) (.split l op r)

section
variable {tier : Tier} {text : List Char} {s : Shape}

theorem wrappedShape_ok {op : Wrapper} {interior : List Char}
    (h : wrappedShape text op interior = .ok s) : interior ≠ [] ∧ s = .wrapped op interior := by
  unfold wrappedShape at h
  split at h
  · simp at h
  · next hne =>
    simp only [Except.ok.injEq] at h
    exact ⟨by simpa using hne, h.symm⟩

theorem primaryShape_forms (h : primaryShape text = .ok s) : Forms tier text s := by
  unfold primaryShape at h
  split at h
  · next hg =>
    obtain ⟨hne, rfl⟩ := wrappedShape_ok h
    obtain ⟨rfl, hb⟩ := Scan.group?_eq_some hg
    exact .group hne hb
  · split at h
    · next hx =>
      simp only [Except.ok.injEq] at h
      rw [← h, hx]
      exact .var
    · split at h
      · next hv =>
        simp only [Except.ok.injEq] at h
        rw [← h]
        exact .literal hv
      · simp at h

theorem call?_eq_some {argument : List Char} (h : call? text = some argument) :
    text = 'l' :: 'o' :: 'g' :: '(' :: (argument ++ [')']) ∧ Scan.Balanced .left argument := by
  unfold call? at h
  split at h
  · obtain ⟨rfl, hb⟩ := Scan.group?_eq_some h
    exact ⟨rfl, hb⟩
  · simp at h

theorem callShape_forms (ht : tier.rank ≤ 2) (h : callShape text = .ok s) :
    Forms tier text s := by
  unfold callShape at h
  split at h
  · next hc =>
    obtain ⟨hne, rfl⟩ := wrappedShape_ok h
    obtain ⟨rfl, hb⟩ := call?_eq_some hc
    exact .call hne ht hb
  · exact primaryShape_forms h

theorem baseShape_eq (h : baseShape text = .ok s) :
    primaryShape text = .ok s := by
  unfold baseShape at h
  split at h
  · simp at h
  · exact h

theorem splitShape_forms {side : Side} {ops : List Operator}
    {tighter : List Char → Except Fault Shape}
    (ho : ∀ op ∈ ops, tier.rank ≤ op.precedence.rank ∧ op.associativity.other = side)
    (ht : tighter text = .ok s → Forms tier text s)
    (h : splitShape side ops tighter text = .ok s) : Forms tier text s := by
  have hs := splits side ops tighter text
  rw [h] at hs
  cases hs with
  | pass _ htight => exact ht htight
  | split hop hl hr hb =>
    obtain ⟨hrank, rfl⟩ := ho _ hop
    exact .split hl hr hrank hb

theorem shape_forms (h : shape tier text = .ok s) : Forms tier text s := by
  cases tier with
  | sum =>
    refine splitShape_forms (by decide) (splitShape_forms (by decide)
      (splitShape_forms (by decide) (callShape_forms (by decide)))) h
  | product =>
    exact splitShape_forms (by decide) (splitShape_forms (by decide)
      (callShape_forms (by decide))) h
  | power => exact splitShape_forms (by decide) (callShape_forms (by decide)) h
  | base => exact primaryShape_forms (baseShape_eq h)
  | primary => exact primaryShape_forms h

end

theorem Forms.wrapped {tier : Tier} {text interior : List Char} {op : Wrapper}
    (h : Forms tier text (.wrapped op interior)) :
    text = op.opening ++ (interior ++ [')']) ∧ Scan.Balanced .left interior := by
  cases h with
  | group _ hb => exact ⟨rfl, hb⟩
  | call _ _ hb => exact ⟨rfl, hb⟩

theorem Forms.eq_append {tier : Tier} {text l r : List Char} {op : Operator}
    (h : Forms tier text (.split l op r)) : text = l ++ op.symbol :: r := by
  cases h with
  | split => rfl

theorem Forms.balanced {tier : Tier} {text : List Char} {s : Shape} (h : Forms tier text s)
    (ht : Scan.Balanced .left text) : ∀ piece ∈ s.pieces, Scan.Balanced .left piece := by
  cases h with
  | var => simp [Shape.pieces]
  | literal => simp [Shape.pieces]
  | group _ hb => simpa [Shape.pieces] using hb
  | call _ _ hb => simpa [Shape.pieces] using hb
  | @split l r op _ _ _ hb =>
    have hop : Scan.Balanced .left [op.symbol] := .char (isParen_symbol op) .nil
    have both : Scan.Balanced .left l ∧ Scan.Balanced .left r := by
      cases ho : op.associativity with
      | left =>
        rw [ho] at hb
        exact ⟨ht.front (hop.append hb), hb⟩
      | right =>
        rw [ho] at hb
        exact ⟨hb, Scan.Balanced.back (a := [op.symbol]) (ht.back hb) hop⟩
    simpa [Shape.pieces] using both

/-- Why a text has no shape at a tier. -/
inductive Unshaped : List Char → Fault → Prop
  | missingLeft {r : List Char} {op : Operator} (h : op.precedence ≠ .term) :
      Unshaped (op.symbol :: r) (.atByte (.missingOperand op .left) (op.symbol :: r) 0)
  | missingRight {l : List Char} {op : Operator} (hl : l ≠ []) :
      Unshaped (l ++ [op.symbol])
        (.atByte (.missingOperand op .right) (l ++ [op.symbol]) (Text.byteSize l))
  | lonely {l r : List Char} {c : Char} (h : Scan.Lonely l c r) :
      Unshaped (l ++ c :: r) (.atByte (.unpaired (c == '(')) (l ++ c :: r) (Text.byteSize l))
  | emptyGroup (op : Wrapper) :
      Unshaped (op.opening ++ [')']) (.whole .emptyGroup (op.opening ++ [')']))
  | bareLogBase (argument : List Char) :
      Unshaped (Wrapper.log.opening ++ (argument ++ [')']))
        (.whole .bareLogBase (Wrapper.log.opening ++ (argument ++ [')'])))
  | unrecognized {text : List Char} : Unshaped text (.whole .unrecognized text)

section
variable {text : List Char} {f : Fault}

theorem wrappedShape_unshaped {op : Wrapper} {interior : List Char}
    (ht : text = op.opening ++ (interior ++ [')']))
    (h : wrappedShape text op interior = .error f) : Unshaped text f := by
  unfold wrappedShape at h
  split at h
  · next hi =>
    obtain rfl : interior = [] := by simpa using hi
    rw [← Except.error.inj h, ht]
    exact .emptyGroup op
  · simp at h

theorem primaryShape_unshaped (h : primaryShape text = .error f) : Unshaped text f := by
  unfold primaryShape at h
  split at h
  · next hg => exact wrappedShape_unshaped (Scan.group?_eq_some hg).1 h
  · split at h
    · simp at h
    · split at h
      · simp at h
      · exact Except.error.inj h ▸ .unrecognized

theorem callShape_unshaped (h : callShape text = .error f) : Unshaped text f := by
  unfold callShape at h
  split at h
  · next hc => exact wrappedShape_unshaped (call?_eq_some hc).1 h
  · exact primaryShape_unshaped h

theorem baseShape_unshaped (h : baseShape text = .error f) : Unshaped text f := by
  unfold baseShape at h
  split at h
  · next hc =>
    rw [← Except.error.inj h, (call?_eq_some hc).1]
    exact .bareLogBase _
  · exact primaryShape_unshaped h

theorem any_endsOperand {symbols : List Char} {previous : Option Char} {op : Operator}
    (hp : op.precedence = .term) (h : Scan.isOperator symbols previous op.symbol = true) :
    previous.any Scan.endsOperand = true := by
  cases op with
  | add => exact (by simpa [Scan.isOperator, Operator.symbol] using h : _ ∧ _).2
  | sub => exact (by simpa [Scan.isOperator, Operator.symbol] using h : _ ∧ _).2
  | mul => cases hp
  | div => cases hp
  | pow => cases hp

theorem splitShape_unshaped {side : Side} {ops : List Operator}
    {tighter : List Char → Except Fault Shape}
    (ht : tighter text = .error f → Unshaped text f)
    (h : splitShape side ops tighter text = .error f) : Unshaped text f := by
  have hs := splits side ops tighter text
  rw [h] at hs
  cases hs with
  | pass _ htight => exact ht htight
  | missingLeft _ ho => exact .missingLeft fun hp => Bool.false_ne_true (any_endsOperand hp ho)
  | missingRight _ hl => exact .missingRight hl
  | lonely _ hl => exact .lonely hl

theorem shape_unshaped {tier : Tier} (h : shape tier text = .error f) : Unshaped text f := by
  cases tier with
  | sum =>
    exact splitShape_unshaped (splitShape_unshaped (splitShape_unshaped callShape_unshaped)) h
  | product => exact splitShape_unshaped (splitShape_unshaped callShape_unshaped) h
  | power => exact splitShape_unshaped callShape_unshaped h
  | base => exact baseShape_unshaped h
  | primary => exact primaryShape_unshaped h

end

def Phrase.tier : Phrase → Tier
  | .sum => .sum
  | .product => .product
  | .power => .power
  | .primary => .primary

/-- The shape of the production at the root, below those that only pass to a tighter tier. -/
def Derivation.head {n : Phrase} : Derivation n → Shape
  | .sum l op _ r => .split l.text op r.text
  | .ofProduct d => d.head
  | .product l op _ r => .split l.text op r.text
  | .ofPower d => d.head
  | .call a => .wrapped .log a.text
  | .power b e => .split b.text .pow e.text
  | .ofPrimary d => d.head
  | .group a => .wrapped .paren a.text
  | .literal _ value _ => .leaf (.literal value)
  | .var => .leaf .var

section
variable {side : Side} {ops : List Operator} {tighter : List Char → Except Fault Shape}

theorem splitShape_at {l r : List Char} {op : Operator} (hl : l ≠ []) (hr : r ≠ [])
    (h : Scan.find side (ops.map Operator.symbol) (l ++ op.symbol :: r) =
      .ok (some ⟨l.length, op.symbol⟩)) :
    splitShape side ops tighter (l ++ op.symbol :: r) = .ok (.split l op r) := by
  simp [splitShape, h, ofSymbol_symbol, hl, hr]

theorem splitShape_clear {text : List Char}
    (h : Scan.Clear .left (ops.map Operator.symbol) none none text) :
    splitShape side ops tighter text = tighter text := by
  simp [splitShape, Scan.find_clear h]

end

namespace Derivation

theorem group?_group (a : Derivation .sum) : Scan.group? (group a).text = some a.text :=
  Scan.group?_enclosed a.balanced

theorem group?_literal {lexeme : List Char} {v : Float}
    (h : Literal.ofText? lexeme = some v) : Scan.group? lexeme = none := by
  cases hg : Scan.group? lexeme with
  | none => rfl
  | some interior =>
    have hm : '(' ∈ lexeme := by simp [(Scan.group?_eq_some hg).1]
    exact absurd (Literal.isParen_of_isLetter (Literal.letters_of_ofText? h '(' hm)) (by decide)

theorem call?_primary (d : Derivation .primary) : call? d.text = none := by
  cases hc : call? d.text with
  | none => rfl
  | some argument =>
    have ht := (call?_eq_some hc).1
    cases d with
    | group a => simp [text] at ht
    | literal lexeme v h =>
      have hm : 'l' ∈ lexeme := by
        change lexeme = _ at ht
        simp [ht]
      exact absurd (Literal.letters_of_ofText? h 'l' hm) (by decide)
    | var => simp [text] at ht

theorem primaryShape_text (d : Derivation .primary) : primaryShape d.text = .ok d.head := by
  cases d with
  | group a =>
    simp [primaryShape, group?_group, wrappedShape, head, a.text_ne_nil]
  | literal lexeme v h =>
    have hx : lexeme ≠ ['x'] := by
      rintro rfl
      exact absurd (Literal.letters_of_ofText? h 'x' (List.mem_singleton.2 rfl)) (by decide)
    simp [primaryShape, text, group?_literal h, hx, h, head]
  | var => rfl

theorem callShape_call (a : Derivation .sum) : callShape (call a).text = .ok (call a).head := by
  have hc : call? (call a).text = some a.text := group?_group a
  simp [callShape, hc, wrappedShape, head, a.text_ne_nil]

theorem callShape_primary (d : Derivation .primary) : callShape d.text = .ok d.head := by
  rw [callShape, call?_primary]
  exact primaryShape_text d

theorem baseShape_text (d : Derivation .primary) : baseShape d.text = .ok d.head := by
  rw [baseShape, call?_primary]
  exact primaryShape_text d

section
variable {side : Side} {tighter : List Char → Except Fault Shape}

theorem splitShape_pass {n : Phrase} (d : Derivation n) {p : Precedence}
    (hp : p.rank < n.rank) : splitShape side (operators p) tighter d.text = tighter d.text :=
  splitShape_clear (d.clear hp rfl)

theorem splitShape_right {m n : Phrase} (l : Derivation m) (op : Operator) (r : Derivation n)
    (hn : op.precedence.rank < n.rank) :
    splitShape .right (operators op.precedence) tighter (l.text ++ op.symbol :: r.text) =
      .ok (.split l.text op r.text) :=
  splitShape_at l.text_ne_nil r.text_ne_nil
    (Scan.find_right (r.clear hn (endsOperand_symbol op)) (isParen_symbol op)
      l.text (l.endsOperand.isOperator (mem_symbols op)))

theorem splitShape_left {m n : Phrase} (l : Derivation m) (op : Operator) (r : Derivation n)
    (hm : op.precedence.rank < m.rank) :
    splitShape .left (operators op.precedence) tighter (l.text ++ op.symbol :: r.text) =
      .ok (.split l.text op r.text) :=
  splitShape_at l.text_ne_nil r.text_ne_nil
    (Scan.find_left (l.clear hm rfl) (isParen_symbol op)
      (l.endsOperand.isOperator (mem_symbols op)) r.text)

end

theorem powerShape_text (d : Derivation .power) : powerShape d.text = .ok d.head := by
  cases d with
  | call a =>
    have hs : splitShape .left (operators .exp) callShape (call a).text = _ :=
      splitShape_clear a.clear_call
    exact hs.trans (callShape_call a)
  | power b e => exact splitShape_left b .pow e (by decide)
  | ofPrimary d =>
    exact (splitShape_pass d (p := .exp) (by decide)).trans (callShape_primary d)

theorem productShape_text (d : Derivation .product) : productShape d.text = .ok d.head := by
  cases d with
  | product l op h r =>
    have hs : splitShape .right _ powerShape _ = _ := splitShape_right l op r (by rw [h]; decide)
    rw [h] at hs
    exact hs
  | ofPower d =>
    exact (splitShape_pass d (p := .factor) (by decide)).trans (powerShape_text d)

theorem sumShape_text (d : Derivation .sum) : sumShape d.text = .ok d.head := by
  cases d with
  | sum l op h r =>
    have hs : splitShape .right _ productShape _ = _ :=
      splitShape_right l op r (by rw [h]; decide)
    rw [h] at hs
    exact hs
  | ofProduct d =>
    exact (splitShape_pass d (p := .term) (by decide)).trans (productShape_text d)

theorem shape_text {n : Phrase} (d : Derivation n) : shape n.tier d.text = .ok d.head := by
  cases n with
  | sum => exact d.sumShape_text
  | product => exact d.productShape_text
  | power => exact d.powerShape_text
  | primary => exact d.primaryShape_text

end Derivation

end Fluxion.Parse
