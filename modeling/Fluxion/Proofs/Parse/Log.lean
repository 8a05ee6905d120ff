import Fluxion.Proofs.Parse.Pieces

/-!
# What a parse logs

Wherever a piece is split at an operator, the two operands are logged before they are read. So the
log of a formula lists its operators in preorder, each with the texts that the operands derive from.
A fault is logged where it arises and nothing after it, so it is the last record and the only one of
its level.
-/

set_option autoImplicit false

namespace Fluxion

def Expr.binaries : Expr → List Expr
  | .literal _ | .var => []
  | .unary _ e => e.binaries
  | .binary l op r => .binary l op r :: (l.binaries ++ r.binaries)

namespace Parse

def splitRecord (whole lhs : List Char) (op : Operator) (rhs : List Char) : Record :=
  let quote (text : List Char) : String := "`" ++ String.ofList text ++ "`"
  ⟨.trace, "split " ++ quote whole ++ " into " ++ quote lhs ++ " " ++
    String.singleton op.symbol ++ " " ++ quote rhs⟩

def IsSplit (record : Record) : Prop :=
  ∃ lhs op rhs, record = splitRecord (lhs ++ op.symbol :: rhs) lhs op rhs

structure Parting where
  {left right : Phrase}
  lhs : Derivation left
  op : Operator
  rhs : Derivation right

namespace Parting

def text (p : Parting) : List Char := p.lhs.text ++ p.op.symbol :: p.rhs.text

def tree (p : Parting) : Expr := Expr.combine p.op p.lhs.tree p.rhs.tree

def record (p : Parting) : Record := splitRecord p.text p.lhs.text p.op p.rhs.text

end Parting

def Derivation.partings {n : Phrase} : Derivation n → List Parting
  | .sum l op _ r => ⟨l, op, r⟩ :: (l.partings ++ r.partings)
  | .ofProduct d => d.partings
  | .product l op _ r => ⟨l, op, r⟩ :: (l.partings ++ r.partings)
  | .ofPower d => d.partings
  | .call a => a.partings
  | .power b e => ⟨b, .pow, e⟩ :: (b.partings ++ e.partings)
  | .ofPrimary d => d.partings
  | .group a => a.partings
  | .literal _ _ _ => []
  | .var => []

theorem binaries_combine (op : Operator) (l r : Expr) :
    (Expr.combine op l r).binaries = Expr.combine op l r :: (l.binaries ++ r.binaries) := by
  cases op <;> rfl

theorem Derivation.trees_partings {n : Phrase} (d : Derivation n) :
    d.partings.map Parting.tree = d.tree.binaries := by
  induction d with
  | sum l op _ r ihl ihr =>
    rw [partings, List.map_cons, List.map_append, ihl, ihr, tree, binaries_combine]
    rfl
  | ofProduct d ih => exact ih
  | product l op _ r ihl ihr =>
    rw [partings, List.map_cons, List.map_append, ihl, ihr, tree, binaries_combine]
    rfl
  | ofPower d ih => exact ih
  | call a ih => exact ih
  | power b e ihb ihe =>
    rw [partings, List.map_cons, List.map_append, ihb, ihe]
    rfl
  | ofPrimary d ih => exact ih
  | group a ih => exact ih
  | literal => rfl
  | var => rfl

section
variable {whole : List Char} {span : Text.Span}

def records {α : Type} (whole : List Char) (x : Logged Note Fault α) : List Record :=
  x.notes.map (Note.record whole)

theorem records_bind_ok {α β : Type} {x : Logged Note Fault α} {a : α} (h : x.outcome = .ok a)
    (f : α → Logged Note Fault β) :
    records whole (x >>= f) = records whole x ++ records whole (f a) := by
  rw [Logged.bind_ok h]
  exact List.map_append

theorem records_split {l r : List Char} {op : Operator}
    (h : Covers whole span (l ++ op.symbol :: r)) :
    Note.record whole (.split span op (span.start + Text.byteSize l)) =
      splitRecord (l ++ op.symbol :: r) l op r := by
  simp only [Note.record, splitRecord, h.slice, h.before.slice, h.behind.slice]

/-- What a computation logs: splits that lose nothing, and its fault if it has one. -/
def Mirrored {α : Type} (whole : List Char) (x : Logged Note Fault α) : Prop :=
  ∃ splits : List Record, (∀ record ∈ splits, IsSplit record) ∧
    records whole x = splits ++
      match x.outcome with
      | .ok _ => []
      | .error f => [⟨.debug, f.message⟩]

namespace Mirrored
variable {α β : Type}

theorem pure (a : α) : Mirrored whole (pure a) := ⟨[], nofun, rfl⟩

theorem refuse (start : Nat) (f : Fault) :
    Mirrored whole (refuse start f : Logged Note Fault α) :=
  ⟨[], nofun, rfl⟩

theorem split {l r : List Char} {op : Operator} (h : Covers whole span (l ++ op.symbol :: r)) :
    Mirrored whole (Logged.note (.split span op (span.start + Text.byteSize l))) := by
  refine ⟨[splitRecord (l ++ op.symbol :: r) l op r], ?_, ?_⟩
  · intro record hr
    exact ⟨l, op, r, List.mem_singleton.1 hr⟩
  · exact congrArg (fun record => [record]) (records_split h)

theorem bind {x : Logged Note Fault α} {f : α → Logged Note Fault β} (hx : Mirrored whole x)
    (hf : ∀ a, Mirrored whole (f a)) : Mirrored whole (x >>= f) := by
  obtain ⟨splits, hs, hlog⟩ := hx
  cases ho : x.outcome with
  | error e =>
    rw [ho] at hlog
    rw [Logged.bind_error ho]
    exact ⟨splits, hs, hlog⟩
  | ok a =>
    obtain ⟨more, hm, hmore⟩ := hf a
    rw [ho, List.append_nil] at hlog
    refine ⟨splits ++ more, ?_, ?_⟩
    · intro record hr
      exact (List.mem_append.1 hr).elim (hs record) (hm record)
    · rw [records_bind_ok ho, hlog, hmore, Logged.outcome_bind_ok ho, List.append_assoc]

end Mirrored

theorem mirrored_read {limit room : Nat} {tier : Tier} {text : List Char}
    (h : Covers whole span text) : Mirrored whole (read limit room tier span text) := by
  induction room generalizing tier span text with
  | zero =>
    cases hs : shape tier text with
    | error f =>
      rw [read_error hs]
      exact .refuse _ _
    | ok s =>
      cases s with
      | leaf e =>
        rw [read_leaf hs]
        exact .pure e
      | wrapped op interior =>
        rw [read_wrapped_zero hs]
        exact .refuse _ _
      | split lhs op rhs =>
        have ht := (shape_forms hs).eq_append
        rw [read_split_zero hs]
        exact .bind (.split (ht ▸ h)) fun _ => .refuse _ _
  | succ room ih =>
    cases hs : shape tier text with
    | error f =>
      rw [read_error hs]
      exact .refuse _ _
    | ok s =>
      cases s with
      | leaf e =>
        rw [read_leaf hs]
        exact .pure e
      | wrapped op interior =>
        have ht := (shape_forms hs).wrapped.1
        rw [read_wrapped hs]
        exact .bind (ih (ht ▸ h).interior) fun _ => .pure _
      | split lhs op rhs =>
        have ht := (shape_forms hs).eq_append
        rw [read_split hs]
        exact .bind (.split (ht ▸ h)) fun _ => .bind (ih (ht ▸ h).before) fun _ =>
          .bind (ih (ht ▸ h).behind) fun _ => .pure _

section
variable {limit room : Nat} {tier : Tier} {text : List Char}

theorem read_congr {tier' : Tier} (h : shape tier' text = shape tier text) :
    read limit room tier' span text = read limit room tier span text := by
  cases hs : shape tier text with
  | error f => rw [read_error hs, read_error (h.trans hs)]
  | ok s =>
    cases s with
    | leaf e => rw [read_leaf hs, read_leaf (h.trans hs)]
    | wrapped op interior =>
      cases room with
      | zero => rw [read_wrapped_zero hs, read_wrapped_zero (h.trans hs)]
      | succ room => rw [read_wrapped hs, read_wrapped (h.trans hs)]
    | split lhs op rhs =>
      cases room with
      | zero => rw [read_split_zero hs, read_split_zero (h.trans hs)]
      | succ room => rw [read_split hs, read_split (h.trans hs)]

end

/-- Read at this tier with enough room, a derivation gives its formula and logs its operators. -/
def Logs {n : Phrase} (whole : List Char) (limit : Nat) (tier : Tier) (d : Derivation n) : Prop :=
  ∀ room span, d.nesting ≤ room → Covers whole span d.text →
    (read limit room tier span d.text).outcome = .ok d.tree ∧
      records whole (read limit room tier span d.text) = d.partings.map Parting.record

section
variable {limit : Nat}

theorem Logs.of_shape {n : Phrase} {d : Derivation n} {tier tier' : Tier}
    (h : Logs whole limit tier d) (hs : shape tier' d.text = shape tier d.text) :
    Logs whole limit tier' d := by
  intro room span hroom hc
  rw [read_congr hs]
  exact h room span hroom hc

theorem logs_leaf {n : Phrase} {d : Derivation n} {tier : Tier}
    (hs : shape tier d.text = .ok (.leaf d.tree)) (hd : d.partings = []) :
    Logs whole limit tier d := by
  intro room span _ _
  rw [read_leaf hs, hd]
  exact ⟨rfl, rfl⟩

theorem logs_wrapped {n : Phrase} {d : Derivation n} {a : Derivation .sum} {op : Wrapper}
    {tier : Tier} (ha : Logs whole limit .sum a)
    (ht : d.text = op.opening ++ (a.text ++ [')'])) (he : d.tree = .unary op a.tree)
    (hn : d.nesting = 1 + a.nesting) (hp : d.partings = a.partings)
    (hs : shape tier d.text = .ok (.wrapped op a.text)) : Logs whole limit tier d := by
  intro room span hroom hc
  cases room with
  | zero => omega
  | succ room =>
    obtain ⟨ho, hlog⟩ := ha room (interiorSpan op span) (by omega) (ht ▸ hc).interior
    rw [read_wrapped hs, records_bind_ok ho, Logged.outcome_bind_ok ho, hlog, he, hp]
    exact ⟨rfl, List.append_nil _⟩

theorem logs_parting {k m n : Phrase} {d : Derivation k} {l : Derivation m} {op : Operator}
    {r : Derivation n} {tier : Tier} (hl : Logs whole limit (operandTier op .left) l)
    (hr : Logs whole limit (operandTier op .right) r)
    (ht : d.text = l.text ++ op.symbol :: r.text) (he : d.tree = Expr.combine op l.tree r.tree)
    (hn : d.nesting = 1 + max l.nesting r.nesting)
    (hp : d.partings = ⟨l, op, r⟩ :: (l.partings ++ r.partings))
    (hs : shape tier d.text = .ok (.split l.text op r.text)) : Logs whole limit tier d := by
  intro room span hroom hc
  have hsplit : Covers whole span (l.text ++ op.symbol :: r.text) := ht ▸ hc
  cases room with
  | zero => omega
  | succ room =>
    obtain ⟨hlo, hllog⟩ := hl room _ (by omega) hsplit.before
    obtain ⟨hro, hrlog⟩ := hr room _ (by omega) hsplit.behind
    rw [read_split hs]
    constructor
    · rw [Logged.outcome_bind_ok (a := ()) rfl, Logged.outcome_bind_ok hlo,
        Logged.outcome_bind_ok hro, he]
      rfl
    · have hnote : records whole (Logged.note (.split span op (span.start + Text.byteSize l.text))) =
          [Parting.record ⟨l, op, r⟩] := congrArg (fun record => [record]) (records_split hsplit)
      have hnode (e : Expr) : records whole (Pure.pure e) = [] := rfl
      rw [records_bind_ok (a := ()) rfl, hnote, records_bind_ok hlo, records_bind_ok hro, hllog,
        hrlog, hnode, List.append_nil, hp, List.map_cons, List.map_append]
      rfl

theorem Derivation.logs {n : Phrase} (d : Derivation n) : Logs whole limit n.tier d := by
  induction d with
  | sum l op h r ihl ihr =>
    obtain ⟨hl, hr⟩ := operandTier_term h
    exact logs_parting (hl ▸ ihl) (hr ▸ ihr) rfl rfl rfl rfl (shape_text (.sum l op h r))
  | ofProduct d ih => exact ih.of_shape ((shape_text (.ofProduct d)).trans d.shape_text.symm)
  | product l op h r ihl ihr =>
    obtain ⟨hl, hr⟩ := operandTier_factor h
    exact logs_parting (hl ▸ ihl) (hr ▸ ihr) rfl rfl rfl rfl (shape_text (.product l op h r))
  | ofPower d ih => exact ih.of_shape ((shape_text (.ofPower d)).trans d.shape_text.symm)
  | call a ih => exact logs_wrapped ih rfl rfl rfl rfl (shape_text (.call a))
  | power b e ihb ihe =>
    have hb : Logs whole limit (operandTier .pow .left) b :=
      ihb.of_shape (b.baseShape_text.trans b.shape_text.symm)
    have he : Logs whole limit (operandTier .pow .right) e := ihe
    exact logs_parting hb he rfl rfl rfl rfl (shape_text (.power b e))
  | ofPrimary d ih => exact ih.of_shape ((shape_text (.ofPrimary d)).trans d.shape_text.symm)
  | group a ih => exact logs_wrapped ih rfl rfl rfl rfl (shape_text (.group a))
  | literal lexeme v h => exact logs_leaf (shape_text (.literal lexeme v h)) rfl
  | var => exact logs_leaf (shape_text .var) rfl

end

end

theorem mirrored_readAll (limit : Nat) (text : List Char) :
    Mirrored text (readAll limit text) := by
  by_cases hne : text = []
  · rw [hne]
    exact .refuse _ _
  · rw [readAll_of_ne_nil hne]
    exact mirrored_read (covers_whole text)

theorem records_readAll {limit : Nat} (d : Derivation .sum)
    (h : (readAll limit d.text).outcome = .ok d.tree) :
    records d.text (readAll limit d.text) = d.partings.map Parting.record := by
  have hd : d.nesting ≤ limit := by
    have hdepth := (readAll_ok_iff.1 h).2
    rw [d.depth_tree] at hdepth
    omega
  rw [readAll_of_ne_nil d.text_ne_nil]
  exact (d.logs limit _ hd (covers_whole d.text)).2

def log (limit : Nat) (given : List Char) : List Record :=
  (parse limit given).notes.map (Note.record (Text.strip given))

theorem log_eq (limit : Nat) (given : List Char) :
    log limit given = records (Text.strip given) (readAll limit (Text.strip given)) := by
  rw [log, parse, Logged.mapError, Text.Stripped.text_ofText]
  rfl

end Parse

/-- The log of a parse mirrors its result. For a formula it is the splits at the operators of the
formula in preorder, each with the texts that the operands derive from. For a fault it is splits that
lose nothing, and then the message of the fault. -/
theorem parse_log (limit : Nat) (given : List Char) :
    (∀ e, (parse limit given).outcome = .ok e →
      ∃ d : Parse.Derivation .sum, d.text = Text.strip given ∧ d.tree = e ∧
        d.partings.map Parse.Parting.tree = e.binaries ∧
        Parse.log limit given = d.partings.map Parse.Parting.record) ∧
    (∀ f, (parse limit given).outcome = .error f →
      ∃ splits : List Record, (∀ record ∈ splits, Parse.IsSplit record) ∧
        Parse.log limit given = splits ++ [⟨.debug, f.message⟩]) := by
  constructor
  · intro e he
    have hread := parse_ok_iff.1 he
    obtain ⟨⟨d, hd, rfl⟩, _⟩ := parse_ok_iff_derives.1 he
    rw [← hd] at hread
    refine ⟨d, hd, rfl, d.trees_partings, ?_⟩
    rw [Parse.log_eq, ← hd]
    exact Parse.records_readAll d hread
  · intro f hf
    obtain ⟨g, hg, rfl⟩ := parse_error_iff.1 hf
    obtain ⟨splits, hs, hlog⟩ := Parse.mirrored_readAll limit (Text.strip given)
    rw [hg] at hlog
    exact ⟨splits, hs, (Parse.log_eq limit given).trans hlog⟩

end Fluxion
