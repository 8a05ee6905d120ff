import Mathlib.Algebra.Group.Nat.Defs
import Fluxion.Proofs.Checked.Steps
import Fluxion.Proofs.Parse.Limit

/-!
# Reading by index does not trap

Every range that a tier is handed covers a piece of the stripped text, with at least one character,
and a piece of a range is smaller than the range. So the reading by index comes to an end without a
trap. What it reads, notes and refuses is what reading the text itself comes to.
-/

set_option autoImplicit false

namespace Fluxion.Checked
open Parse (Cause Covers Fault Note Tier)

namespace Machine
variable {m : Machine}

def ReadsPieces (m : Machine) (part : Tier → Text.Span → Nat → Reading Expr) (text : List Char)
    (depth : Nat) : Prop :=
  ∀ {t : Tier} {piece : List Char} {range : Text.Span} {room : Nat}, piece ≠ [] →
    Text.byteSize piece < Text.byteSize text → Covers m.source.text range piece →
    depth + 1 + room = m.limit →
    m.Agrees (part t range (depth + 1)) (Parse.read m.limit room t range piece)

section
variable {range : Text.Span} {text : List Char} {tier : Tier} {depth room : Nat}

theorem agrees_leaf (hm : m.Fits) (h : Covers m.source.text range text)
    (hs : Parse.shape tier text =
      if text = ['x'] then .ok (.leaf .var)
      else
        match Literal.ofText? text with
        | some v => .ok (.leaf (.literal v))
        | none => .error (.whole .unrecognized text)) :
    m.Agrees (m.leaf range) (Parse.read m.limit room tier range text) := by
  refine .lift (cut_eq h) ?_
  by_cases hx : text = ['x']
  · rw [if_pos hx] at hs ⊢
    rw [Parse.read_leaf hs]
    exact .pure _
  · rw [if_neg hx] at hs ⊢
    cases hv : Literal.ofText? text with
    | some v =>
      rw [hv] at hs
      rw [Parse.read_leaf hs]
      exact .pure _
    | none =>
      rw [hv] at hs
      rw [Parse.read_error hs]
      exact agrees_fail_whole hm h _

section
variable {part : Tier → Text.Span → Nat → Reading Expr}

theorem agrees_wrapped (hm : m.Fits) {op : Wrapper} {interior : List Char}
    (h : Covers m.source.text range text) (ht : text = op.opening ++ (interior ++ [')']))
    (hs : Parse.shape tier text = Parse.wrappedShape text op interior)
    (hd : depth + room = m.limit) (hpart : m.ReadsPieces part text depth) :
    m.Agrees (m.wrapped part op range (Parse.interiorSpan op range) depth)
      (Parse.read m.limit room tier range text) := by
  have hi : Covers m.source.text (Parse.interiorSpan op range) interior := (ht ▸ h).interior
  rw [wrapped]
  by_cases hne : interior = []
  · subst hne
    rw [if_pos ((empty_iff hi).2 rfl), Parse.read_error hs]
    exact agrees_fail_whole hm h _
  · have hs : Parse.shape tier text = .ok (.wrapped op interior) := by
      rw [hs, Parse.wrappedShape, if_neg (by simpa using hne)]
    have hsize := ((Parse.shape_forms hs).piece_size (List.mem_singleton.2 rfl)).2
    rw [if_neg (mt (empty_iff hi).1 hne)]
    cases room with
    | zero =>
      rw [Parse.read_wrapped_zero hs]
      exact (agrees_too_deep hm hi (Nat.le_of_eq hd.symm)).stop _
    | succ room =>
      rw [Parse.read_wrapped hs]
      refine .step (agrees_descend hm (by omega)) ?_
      exact (hpart hne (by omega) hi (by omega)).bind fun _ _ => .pure _

theorem agrees_joined (hm : m.Fits) {l r : List Char} {op : Operator}
    (h : Covers m.source.text range (l ++ op.symbol :: r))
    (hs : Parse.shape tier (l ++ op.symbol :: r) =
      if l.isEmpty then
        .error (.atByte (.missingOperand op .left) (l ++ op.symbol :: r) (Text.byteSize l))
      else if r.isEmpty then
        .error (.atByte (.missingOperand op .right) (l ++ op.symbol :: r) (Text.byteSize l))
      else .ok (.split l op r))
    (hd : depth + room = m.limit) (hpart : m.ReadsPieces part (l ++ op.symbol :: r) depth) :
    m.Agrees
      (m.joined part (Parse.operandTier op .left) (Parse.operandTier op .right) range depth
        (range.start + Text.byteSize l))
      (Parse.read m.limit room tier range (l ++ op.symbol :: r)) := by
  by_cases hl : l = []
  · rw [if_pos (List.isEmpty_iff.2 hl)] at hs
    rw [Parse.read_error hs]
    exact (agrees_missing_left hm h hl).stop _
  rw [if_neg (mt List.isEmpty_iff.1 hl)] at hs
  by_cases hr : r = []
  · rw [if_pos (List.isEmpty_iff.2 hr)] at hs
    rw [Parse.read_error hs]
    exact (agrees_missing_right hm h hl hr).stop _
  rw [if_neg (mt List.isEmpty_iff.1 hr)] at hs
  have hlsize := ((Parse.shape_forms hs).piece_size List.mem_cons_self).2
  have hrsize := ((Parse.shape_forms hs).piece_size
    (List.mem_cons_of_mem _ (List.mem_singleton.2 rfl))).2
  cases room with
  | zero =>
    rw [Parse.read_split_zero hs]
    exact .noted (agrees_operands hm h hl hr)
      ((agrees_too_deep hm h (Nat.le_of_eq hd.symm)).stop _)
  | succ room =>
    rw [Parse.read_split hs]
    refine .noted (agrees_operands hm h hl hr) (.step (agrees_descend hm (by omega)) ?_)
    refine (hpart hl (by omega) h.before (by omega)).bind fun _ _ => ?_
    refine (hpart hr (by omega) h.behind (by omega)).bind fun _ _ => ?_
    refine .lift (lookUp_symbol h) ?_
    rw [Parse.ofSymbol_symbol]
    exact .pure _

theorem agrees_ladder (hm : m.Fits) (h : Covers m.source.text range text) {side : Side}
    {ops : List Operator} {left right : Tier}
    (ho : ∀ op ∈ ops, Parse.operandTier op .left = left ∧ Parse.operandTier op .right = right)
    {tighter : List Char → Except Fault Parse.Shape}
    (hs : Parse.shape tier text = Parse.splitShape side ops tighter text)
    (hd : depth + room = m.limit) (hpart : m.ReadsPieces part text depth) {next : Reading Expr}
    (hnext : Parse.shape tier text = tighter text →
      m.Agrees next (Parse.read m.limit room tier range text)) :
    m.Agrees
      (do
        match ← m.split ops side range with
        | some index => m.joined part left right range depth index
        | none => next)
      (Parse.read m.limit room tier range text) := by
  have hsplit := agrees_split hm h ops side
  have hfound := Scan.found side (ops.map Operator.symbol) text
  rw [Parse.splitShape] at hs
  generalize Scan.find side (ops.map Operator.symbol) text = result at hsplit hfound hs
  cases hfound with
  | nothing _ => exact .step hsplit (hnext hs)
  | @operator l r c _ _ hc =>
    obtain ⟨op, hop, rfl⟩ : ∃ op ∈ ops, op.symbol = c := by
      simp only [Scan.isOperator, Bool.and_eq_true, List.contains_iff_mem, List.mem_map] at hc
      exact hc.1
    obtain ⟨rfl, rfl⟩ := ho op hop
    dsimp only [Option.map_some] at hs hsplit
    rw [List.take_left, Parse.drop_behind, Parse.ofSymbol_symbol] at hs
    rw [Scan.byteIndex_left] at hsplit
    exact .step hsplit (agrees_joined hm h hs hd hpart)
  | @lonely l r c _ _ =>
    rw [Parse.read_error hs]
    exact hsplit.stop _

end

def part (m : Machine) (range : Text.Span) (t : Tier) (piece : Text.Span) (deeper : Nat) :
    Reading Expr :=
  if size piece < size range then m.read t piece deeper else Reading.trap (.endless piece)

theorem accepts (h : Covers m.source.text range text) (hne : text ≠ []) :
    ¬ (range.stop ≤ range.start ∨ m.letters.length < range.stop) := by
  rintro (hempty | hbeyond)
  · exact hne ((empty_iff h).1 hempty)
  · exact Nat.not_lt.2 (stop_le h) hbeyond

theorem agrees_primary (hm : m.Fits) (h : Covers m.source.text range text) (hne : text ≠ [])
    (hs : Parse.shape tier text = Parse.primaryShape text) (hd : depth + room = m.limit)
    (hpart : m.ReadsPieces (m.part range) text depth) :
    m.Agrees (m.read .primary range depth) (Parse.read m.limit room tier range text) := by
  rw [read, if_neg (accepts h hne)]
  refine .lift (group?_eq hm h) ?_
  rw [Parse.primaryShape] at hs
  cases hg : Scan.group? text with
  | none =>
    rw [hg] at hs
    exact agrees_leaf hm h hs
  | some interior =>
    rw [hg] at hs
    exact agrees_wrapped hm h (Scan.group?_eq_some hg).1 hs hd hpart

theorem agrees_base (hm : m.Fits) (h : Covers m.source.text range text) (hne : text ≠ [])
    (hd : depth + room = m.limit) (hpart : m.ReadsPieces (m.part range) text depth) :
    m.Agrees (m.read .base range depth) (Parse.read m.limit room .base range text) := by
  rw [read, if_neg (accepts h hne)]
  refine .lift (call?_eq hm h) ?_
  have hs : Parse.shape .base text = Parse.baseShape text := rfl
  rw [Parse.baseShape] at hs
  cases hc : Parse.call? text with
  | none =>
    rw [hc] at hs
    exact agrees_primary hm h hne hs hd hpart
  | some argument =>
    rw [hc] at hs
    rw [Parse.read_error hs]
    exact agrees_fail_whole hm h _

theorem agrees_power (hm : m.Fits) (h : Covers m.source.text range text) (hne : text ≠ [])
    (hs : Parse.shape tier text = Parse.powerShape text) (hd : depth + room = m.limit)
    (hpart : m.ReadsPieces (m.part range) text depth) :
    m.Agrees (m.read .power range depth) (Parse.read m.limit room tier range text) := by
  rw [read, if_neg (accepts h hne)]
  refine agrees_ladder hm h (by decide) hs hd hpart fun hs => .lift (call?_eq hm h) ?_
  rw [Parse.callShape] at hs
  cases hc : Parse.call? text with
  | none =>
    rw [hc] at hs
    exact agrees_primary hm h hne hs hd hpart
  | some argument =>
    rw [hc] at hs
    exact agrees_wrapped hm h (Parse.call?_eq_some hc).1 hs hd hpart

theorem agrees_product (hm : m.Fits) (h : Covers m.source.text range text) (hne : text ≠ [])
    (hs : Parse.shape tier text = Parse.productShape text) (hd : depth + room = m.limit)
    (hpart : m.ReadsPieces (m.part range) text depth) :
    m.Agrees (m.read .product range depth) (Parse.read m.limit room tier range text) := by
  rw [read, if_neg (accepts h hne)]
  exact agrees_ladder hm h (by decide) hs hd hpart fun hs => agrees_power hm h hne hs hd hpart

theorem agrees_sum (hm : m.Fits) (h : Covers m.source.text range text) (hne : text ≠ [])
    (hd : depth + room = m.limit) (hpart : m.ReadsPieces (m.part range) text depth) :
    m.Agrees (m.read .sum range depth) (Parse.read m.limit room .sum range text) := by
  rw [read, if_neg (accepts h hne)]
  exact agrees_ladder hm h (by decide) rfl hd hpart fun hs => agrees_product hm h hne hs hd hpart

/-- A tier that is handed a piece reads it without a trap, if smaller pieces are read so. -/
theorem agrees_tier (hm : m.Fits) (h : Covers m.source.text range text) (hne : text ≠ [])
    (hd : depth + room = m.limit) (hpart : m.ReadsPieces (m.part range) text depth) :
    m.Agrees (m.read tier range depth) (Parse.read m.limit room tier range text) := by
  cases tier with
  | sum => exact agrees_sum hm h hne hd hpart
  | product => exact agrees_product hm h hne rfl hd hpart
  | power => exact agrees_power hm h hne rfl hd hpart
  | base => exact agrees_base hm h hne hd hpart
  | primary => exact agrees_primary hm h hne rfl hd hpart

end

theorem agrees_read (hm : m.Fits) {range : Text.Span} {text : List Char} {tier : Tier}
    {depth room : Nat} (h : Covers m.source.text range text) (hne : text ≠ [])
    (hd : depth + room = m.limit) :
    m.Agrees (m.read tier range depth) (Parse.read m.limit room tier range text) := by
  refine agrees_tier hm h hne hd ?_
  intro t piece range' room' hne' hsize h' hd'
  -- a range is as long as the piece that it covers, so the check that it shrinks is passed
  have hlt : size range' < size range := by
    rw [size, size, stop_eq h', stop_eq h]
    omega
  rw [part, if_pos hlt]
  exact agrees_read hm h' hne' hd'
termination_by Text.byteSize text

theorem fits_ofText {most limit : Nat} {given : List Char} (hsize : Text.byteSize given ≤ most)
    (hlimit : limit ≤ most) : Fits ⟨most, .ofText given, limit⟩ where
  letters := by
    rw [letters, Scan.length_spell, Text.Stripped.text_ofText]
    exact Nat.le_trans (Text.byteSize_strip_le given) hsize
  offsets := by
    rw [letters, Scan.length_spell, Text.Stripped.text_ofText]
    exact Text.Stripped.length_offsetsFrom 0 given
  places := by
    intro place hp
    have hlt : place < 0 + Text.byteSize given := Text.Stripped.offsetsFrom_lt place hp
    dsimp only
    omega
  limit := hlimit

end Machine

theorem agrees_parse {most limit : Nat} {given : List Char} (hsize : Text.byteSize given ≤ most)
    (hlimit : limit ≤ most) :
    Machine.Agrees ⟨most, .ofText given, limit⟩ (parse most limit given)
      (Parse.readAll limit (Text.strip given)) := by
  have hm := Machine.fits_ofText hsize hlimit
  have hletters : (Machine.letters ⟨most, .ofText given, limit⟩).length =
      Text.byteSize (Text.Stripped.ofText given).text := Scan.length_spell _
  rw [← Text.Stripped.text_ofText given, parse, Parse.readAll]
  -- a text without characters is refused before a tier is handed a range
  by_cases hnil : (Text.Stripped.ofText given).text = []
  · rw [hnil] at hletters ⊢
    rw [if_pos (List.isEmpty_iff_length_eq_zero.2 hletters), if_pos List.isEmpty_nil]
    have hempty : Covers (Text.Stripped.ofText given).text ⟨0, 0⟩ [] := ⟨[], _, rfl, rfl⟩
    exact Machine.agrees_fail_whole hm hempty .empty
  · have hpos := Text.length_le_byteSize (Text.Stripped.ofText given).text
    have hne := List.length_pos_iff.2 hnil
    rw [if_neg (mt List.isEmpty_iff_length_eq_zero.1 (by omega)),
      if_neg (mt List.isEmpty_iff.1 hnil), hletters]
    exact Machine.agrees_read hm (Parse.covers_whole _) hnil (Nat.zero_add limit)

/-- A machine that counts to the size of a text, as it does if it holds the text, and to the limit
reads the text without a trap. It ends with the formula or the fault of the text, and has written the
same notes. -/
theorem parse_untrapped {most limit : Nat} {given : List Char}
    (hsize : Text.byteSize given ≤ most) (hlimit : limit ≤ most) :
    (parse most limit given).run =
      .ok ((Fluxion.parse limit given).mapNotes (Note.record (Text.strip given))) := by
  rw [agrees_parse hsize hlimit, Machine.written, Text.Stripped.text_ofText]
  rw [Fluxion.parse, Text.Stripped.text_ofText]
  rfl

theorem parse_untrapped_wide :
    Text.byteSize "x * é".toList ≤ 2 ^ 64 - 1 ∧
      (parse (2 ^ 64 - 1) (2 ^ 64 - 1) "x * é".toList).run =
        .ok ⟨[Parse.splitRecord "x*é".toList ['x'] .mul ['é'],
          ⟨.debug, Parse.Refusal.message ⟨.unrecognized, ['é']⟩⟩],
          .error ⟨⟨.unrecognized, ['é']⟩, ⟨4, 6⟩⟩⟩ := by
  have hparse : Fluxion.parse (2 ^ 64 - 1) "x * é".toList =
      ⟨[.split ⟨0, 4⟩ .mul 1, .refused ⟨.unrecognized, ['é']⟩],
        .error ⟨⟨.unrecognized, ['é']⟩, ⟨4, 6⟩⟩⟩ := by with_unfolding_all rfl
  refine ⟨by decide, ?_⟩
  rw [parse_untrapped (by decide) (Nat.le_refl _), hparse]
  rfl

end Fluxion.Checked
