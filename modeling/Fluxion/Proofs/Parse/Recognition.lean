import Fluxion.Proofs.Parse.Limit

/-!
# Reading recognises the grammar

Readings and derivations of a text are the same, tier by tier, and the shape of a text leaves no
choice of a production. So the grammar is unambiguous, and a parse with enough room succeeds on
exactly the derivable texts, with the formula of the derivation.
-/

set_option autoImplicit false

namespace Fluxion

namespace Parse

/-- The text derives from the phrase, and this is the formula of a derivation. -/
def Derives (n : Phrase) (text : List Char) (e : Expr) : Prop :=
  ∃ d : Derivation n, d.text = text ∧ d.tree = e

def rootPhrase : Operator → Phrase
  | .add | .sub => .sum
  | .mul | .div => .product
  | .pow => .power

def operandPhrase (op : Operator) (side : Side) : Phrase :=
  match op, side with
  | .add, .left | .sub, .left => .sum
  | .add, .right | .sub, .right => .product
  | .mul, .left | .div, .left => .product
  | .mul, .right | .div, .right => .power
  | .pow, .left => .primary
  | .pow, .right => .power

theorem rank_rootPhrase (op : Operator) : (rootPhrase op).rank = op.precedence.rank := by
  cases op <;> rfl

theorem rank_operandPhrase (op : Operator) (side : Side) :
    (operandPhrase op side).rank = (operandTier op side).rank := by
  cases op <;> cases side <;> rfl

theorem Derives.loosen {m n : Phrase} {text : List Char} {e : Expr} (h : Derives n text e)
    (hr : m.rank ≤ n.rank) : Derives m text e := by
  have toPower (h : Derives .primary text e) : Derives .power text e :=
    h.imp' Derivation.ofPrimary fun _ hd => hd
  have toProduct (h : Derives .power text e) : Derives .product text e :=
    h.imp' Derivation.ofPower fun _ hd => hd
  have toSum (h : Derives .product text e) : Derives .sum text e :=
    h.imp' Derivation.ofProduct fun _ hd => hd
  cases m with
  | sum =>
    cases n with
    | sum => exact h
    | product => exact toSum h
    | power => exact toSum (toProduct h)
    | primary => exact toSum (toProduct (toPower h))
  | product =>
    cases n with
    | sum => exact absurd hr (by decide)
    | product => exact h
    | power => exact toProduct h
    | primary => exact toProduct (toPower h)
  | power =>
    cases n with
    | sum => exact absurd hr (by decide)
    | product => exact absurd hr (by decide)
    | power => exact h
    | primary => exact toPower h
  | primary =>
    cases n with
    | primary => exact h
    | _ => exact absurd hr (by decide)

theorem Derives.split {op : Operator} {lhs rhs : List Char} {l r : Expr}
    (hl : Derives (operandPhrase op .left) lhs l) (hr : Derives (operandPhrase op .right) rhs r) :
    Derives (rootPhrase op) (lhs ++ op.symbol :: rhs) (Expr.combine op l r) := by
  obtain ⟨dl, rfl, rfl⟩ := hl
  obtain ⟨dr, rfl, rfl⟩ := hr
  cases op with
  | add => exact ⟨.sum dl .add rfl dr, rfl, rfl⟩
  | sub => exact ⟨.sum dl .sub rfl dr, rfl, rfl⟩
  | mul => exact ⟨.product dl .mul rfl dr, rfl, rfl⟩
  | div => exact ⟨.product dl .div rfl dr, rfl, rfl⟩
  | pow => exact ⟨.power dl dr, rfl, rfl⟩

theorem Derives.group {interior : List Char} {e : Expr} (h : Derives .sum interior e) :
    Derives .primary ('(' :: (interior ++ [')'])) (Expr.paren e) := by
  obtain ⟨d, rfl, rfl⟩ := h
  exact ⟨.group d, rfl, rfl⟩

theorem Derives.call {argument : List Char} {e : Expr} (h : Derives .sum argument e) :
    Derives .power ('l' :: 'o' :: 'g' :: '(' :: (argument ++ [')'])) (Expr.log e) := by
  obtain ⟨d, rfl, rfl⟩ := h
  exact ⟨.call d, rfl, rfl⟩

theorem derives_of_reads {tier : Tier} {text : List Char} {e : Expr} (h : Reads tier text e)
    {n : Phrase} (hn : n.rank ≤ tier.rank) : Derives n text e := by
  have primary {tier : Tier} {text : List Char} {e : Expr} {n : Phrase}
      (hn : n.rank ≤ tier.rank) (h : Derives .primary text e) : Derives n text e := by
    refine h.loosen (Nat.le_trans hn ?_)
    cases tier <;> decide
  induction h generalizing n with
  | leaf hs =>
    cases shape_forms hs with
    | var => exact primary hn ⟨.var, rfl, rfl⟩
    | literal hv => exact primary hn ⟨.literal _ _ hv, rfl, rfl⟩
  | wrapped hs _ ih =>
    have hi := ih (n := .sum) (Nat.le_refl _)
    cases shape_forms hs with
    | group => exact primary hn hi.group
    | call _ ht => exact hi.call.loosen (Nat.le_trans hn ht)
  | @split _ _ _ _ op _ _ hs _ _ ihl ihr =>
    have hl := ihl (Nat.le_of_eq (rank_operandPhrase op .left))
    have hr := ihr (Nat.le_of_eq (rank_operandPhrase op .right))
    cases shape_forms hs with
    | split _ _ ht =>
      exact (hl.split hr).loosen (Nat.le_trans hn (rank_rootPhrase op ▸ ht))

theorem Reads.of_shape {tier tier' : Tier} {text : List Char} {e : Expr} (h : Reads tier text e)
    (hs : shape tier' text = shape tier text) : Reads tier' text e := by
  cases h with
  | leaf h => exact .leaf (hs.trans h)
  | wrapped h hi => exact .wrapped (hs.trans h) hi
  | split h hl hr => exact .split (hs.trans h) hl hr

theorem operandTier_term {op : Operator} (h : op.precedence = .term) :
    operandTier op .left = .sum ∧ operandTier op .right = .product := by
  revert h
  cases op <;> decide

theorem operandTier_factor {op : Operator} (h : op.precedence = .factor) :
    operandTier op .left = .product ∧ operandTier op .right = .power := by
  revert h
  cases op <;> decide

theorem Derivation.reads {n : Phrase} (d : Derivation n) : Reads n.tier d.text d.tree := by
  induction d with
  | sum l op h r ihl ihr =>
    obtain ⟨hl, hr⟩ := operandTier_term h
    exact .split (shape_text (.sum l op h r)) (hl ▸ ihl) (hr ▸ ihr)
  | ofProduct d ih => exact ih.of_shape ((shape_text (.ofProduct d)).trans d.shape_text.symm)
  | product l op h r ihl ihr =>
    obtain ⟨hl, hr⟩ := operandTier_factor h
    exact .split (shape_text (.product l op h r)) (hl ▸ ihl) (hr ▸ ihr)
  | ofPower d ih => exact ih.of_shape ((shape_text (.ofPower d)).trans d.shape_text.symm)
  | call a ih => exact .wrapped (shape_text (.call a)) ih
  | power b e ihb ihe =>
    have hb : Reads .base b.text b.tree := ihb.of_shape (b.baseShape_text.trans b.shape_text.symm)
    exact .split (shape_text (.power b e)) hb ihe
  | ofPrimary d ih => exact ih.of_shape ((shape_text (.ofPrimary d)).trans d.shape_text.symm)
  | group a ih => exact .wrapped (shape_text (.group a)) ih
  | literal lexeme v h => exact .leaf (shape_text (.literal lexeme v h))
  | var => exact .leaf (shape_text .var)

theorem reads_iff_derives {text : List Char} {e : Expr} :
    Reads .sum text e ↔ Derives .sum text e := by
  constructor
  · exact fun h => derives_of_reads h (Nat.le_refl _)
  · rintro ⟨d, rfl, rfl⟩
    exact d.reads

namespace Derivation

theorem head_congr {n : Phrase} {d d' : Derivation n} (h : d.text = d'.text) :
    d.head = d'.head := by
  have hs := d.shape_text
  rw [h, d'.shape_text] at hs
  exact (Except.ok.inj hs).symm

theorem rank_of_head_split {n : Phrase} (d : Derivation n) {l r : List Char} {op : Operator}
    (h : d.head = .split l op r) : n.tier.rank ≤ op.precedence.rank := by
  have hf := shape_forms d.shape_text
  generalize d.text = text at hf
  rw [h] at hf
  cases hf with
  | split _ _ ht => exact ht

theorem head_primary_ne_log (d : Derivation .primary) (argument : List Char) :
    d.head ≠ .wrapped .log argument := by
  cases d <;> simp [head]

/-- The shape of a text decides the production at the root and the texts of its parts. -/
theorem text_injective {n : Phrase} (d d' : Derivation n) (h : d.text = d'.text) : d = d' := by
  have hh := head_congr h
  induction d with
  | sum l op hp r ihl ihr =>
    cases d' with
    | sum l' op' hp' r' =>
      obtain ⟨hl, rfl, hr⟩ := Shape.split.inj hh
      rw [ihl l' hl (head_congr hl), ihr r' hr (head_congr hr)]
    | ofProduct d' =>
      have hle := d'.rank_of_head_split hh.symm
      rw [hp] at hle
      exact absurd hle (by decide)
  | ofProduct d ih =>
    cases d' with
    | sum l' op' hp' r' =>
      have hle := d.rank_of_head_split hh
      rw [hp'] at hle
      exact absurd hle (by decide)
    | ofProduct d' => rw [ih d' h hh]
  | product l op hp r ihl ihr =>
    cases d' with
    | product l' op' hp' r' =>
      obtain ⟨hl, rfl, hr⟩ := Shape.split.inj hh
      rw [ihl l' hl (head_congr hl), ihr r' hr (head_congr hr)]
    | ofPower d' =>
      have hle := d'.rank_of_head_split hh.symm
      rw [hp] at hle
      exact absurd hle (by decide)
  | ofPower d ih =>
    cases d' with
    | product l' op' hp' r' =>
      have hle := d.rank_of_head_split hh
      rw [hp'] at hle
      exact absurd hle (by decide)
    | ofPower d' => rw [ih d' h hh]
  | call a ih =>
    cases d' with
    | call a' =>
      obtain ⟨_, ha⟩ := Shape.wrapped.inj hh
      rw [ih a' ha (head_congr ha)]
    | power b' e' => exact Shape.noConfusion hh
    | ofPrimary d' => exact absurd hh.symm (d'.head_primary_ne_log a.text)
  | power b e ihb ihe =>
    cases d' with
    | call a' => exact Shape.noConfusion hh
    | power b' e' =>
      obtain ⟨hb, _, he⟩ := Shape.split.inj hh
      rw [ihb b' hb (head_congr hb), ihe e' he (head_congr he)]
    | ofPrimary d' => exact absurd (d'.rank_of_head_split hh.symm) (by decide)
  | ofPrimary d ih =>
    cases d' with
    | call a' => exact absurd hh (d.head_primary_ne_log a'.text)
    | power b' e' => exact absurd (d.rank_of_head_split hh) (by decide)
    | ofPrimary d' => rw [ih d' h hh]
  | group a ih =>
    cases d' with
    | group a' =>
      obtain ⟨_, ha⟩ := Shape.wrapped.inj hh
      rw [ih a' ha (head_congr ha)]
    | literal => exact Shape.noConfusion hh
    | var => exact Shape.noConfusion hh
  | literal lexeme v hv =>
    cases d' with
    | group a' => exact Shape.noConfusion hh
    | literal lexeme' v' hv' =>
      obtain rfl : lexeme = lexeme' := h
      obtain rfl := Expr.literal.inj (Shape.leaf.inj hh)
      rfl
    | var => exact Expr.noConfusion (Shape.leaf.inj hh)
  | var =>
    cases d' with
    | group a' => exact Shape.noConfusion hh
    | literal => exact Expr.noConfusion (Shape.leaf.inj hh)
    | var => rfl

end Derivation

theorem readAll_ok_iff {limit : Nat} {text : List Char} {e : Expr} :
    (readAll limit text).outcome = .ok e ↔ Derives .sum text e ∧ e.depth ≤ limit + 1 := by
  constructor
  · intro h
    have hr := reads_of_readAll h
    rw [readAll_of_ne_nil (ne_nil_of_readAll h)] at h
    refine ⟨reads_iff_derives.1 hr, Nat.le_of_not_lt fun hlt => ?_⟩
    obtain ⟨f, hf, _⟩ := (read_of_reads hr limit limit (.whole text)).2 hlt
    rw [h] at hf
    cases hf
  · rintro ⟨⟨d, rfl, rfl⟩, hle⟩
    rw [readAll_of_ne_nil d.text_ne_nil]
    exact (read_of_reads d.reads limit limit _).1 hle

end Parse

theorem parse_ok_iff_derives {limit : Nat} {given : List Char} {e : Expr} :
    (parse limit given).outcome = .ok e ↔
      Parse.Derives .sum (Text.strip given) e ∧ e.depth ≤ limit + 1 :=
  parse_ok_iff.trans Parse.readAll_ok_iff

/-- The grammar is unambiguous, and parsing recognises it: a limit with room for the nesting lets
through exactly the derivable texts, each with the formula of its derivation, and no limit lets
anything else through. -/
theorem parse_recognizes (given : List Char) :
    (∀ d d' : Parse.Derivation .sum, d.text = Text.strip given → d'.text = Text.strip given →
      d = d') ∧
    (∀ limit, (∀ d : Parse.Derivation .sum, d.text = Text.strip given → d.nesting ≤ limit) →
      ∀ e, (parse limit given).outcome = .ok e ↔
        ∃ d : Parse.Derivation .sum, d.text = Text.strip given ∧ d.tree = e) ∧
    ((¬ ∃ d : Parse.Derivation .sum, d.text = Text.strip given) →
      ∀ limit, ∃ f, (parse limit given).outcome = .error f) := by
  refine ⟨?_, ?_, ?_⟩
  · exact fun d d' h h' => d.text_injective d' (h.trans h'.symm)
  · intro limit hroom e
    rw [parse_ok_iff_derives]
    constructor
    · exact fun h => h.1
    · rintro ⟨d, hd, rfl⟩
      have := hroom d hd
      exact ⟨⟨d, hd, rfl⟩, by rw [d.depth_tree]; omega⟩
  · intro hno limit
    cases h : (parse limit given).outcome with
    | error f => exact ⟨f, rfl⟩
    | ok e =>
      obtain ⟨⟨d, hd, _⟩, _⟩ := parse_ok_iff_derives.1 h
      exact absurd ⟨d, hd⟩ hno

end Fluxion
