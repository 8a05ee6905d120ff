import Fluxion.Proofs.Parse.Pieces
import Fluxion.Proofs.Text.Origin

/-!
# Where faults point

A fault quotes a piece of the stripped text as its fragment and points at a part of it, which
depends on the cause. Pieces keep their places through all of a reading, and the way back to the
given text takes the place of a part to the characters that it came from.
-/

set_option autoImplicit false

namespace Fluxion

namespace Parse

/-- The part of its fragment that a fault points at, between what is in front of it and what is
behind it. -/
inductive Points : Cause → List Char → List Char → List Char → Prop
  | empty : Points .empty [] [] []
  | missingLeft {op : Operator} (h : op.precedence ≠ .term) (behind : List Char) :
      Points (.missingOperand op .left) [] [op.symbol] behind
  | missingRight (op : Operator) (front : List Char) :
      Points (.missingOperand op .right) front [op.symbol] []
  | opening (front behind : List Char) : Points (.unpaired true) front ['('] behind
  | closing (front behind : List Char) : Points (.unpaired false) front [')'] behind
  | emptyGroup (op : Wrapper) : Points .emptyGroup [] (op.opening ++ [')']) []
  | unrecognized (text : List Char) : Points .unrecognized [] text []
  | bareLogBase (argument : List Char) :
      Points .bareLogBase [] (Wrapper.log.opening ++ (argument ++ [')'])) []
  | tooDeep (limit : Nat) (text : List Char) : Points (.tooDeep limit) [] text []

/-- The fragment of a fault is a part of the text, and the fault points where its cause wants. -/
def Located (text : List Char) (f : Fault) : Prop :=
  ∃ a front pointed behind b, Points f.cause front pointed behind ∧
    f.fragment = front ++ (pointed ++ behind) ∧ text = a ++ (f.fragment ++ b) ∧
    f.span = ⟨Text.byteSize (a ++ front), Text.byteSize (a ++ front) + Text.byteSize pointed⟩

theorem located_whole {cause : Cause} {text : List Char} (h : Points cause [] text []) :
    Located text (.whole cause text) :=
  ⟨[], [], text, [], [], h, by simp [Fault.whole], by simp [Fault.whole],
    by simp [Fault.whole, Text.Span.whole]⟩

theorem located_atByte {cause : Cause} (front : List Char) {c : Char} {behind : List Char}
    (hc : c.utf8Size = 1) (h : Points cause front [c] behind) :
    Located (front ++ c :: behind)
      (.atByte cause (front ++ c :: behind) (Text.byteSize front)) :=
  ⟨[], front, [c], behind, [], h, rfl, by simp [Fault.atByte], by simp [Fault.atByte, hc]⟩

theorem located_unpaired {l r : List Char} {c : Char} (hc : Scan.isParen c = true) :
    Located (l ++ c :: r) (.atByte (.unpaired (c == '(')) (l ++ c :: r) (Text.byteSize l)) := by
  simp only [Scan.isParen, Bool.or_eq_true, beq_iff_eq] at hc
  rcases hc with rfl | rfl
  · exact located_atByte l rfl (.opening l r)
  · exact located_atByte l rfl (.closing l r)

theorem Unshaped.located {text : List Char} {f : Fault} (h : Unshaped text f) :
    Located text f := by
  cases h with
  | @missingLeft r op hop => exact located_atByte [] (utf8Size_symbol op) (.missingLeft hop r)
  | @missingRight l op => exact located_atByte l (utf8Size_symbol op) (.missingRight op l)
  | lonely hl => exact located_unpaired hl.1
  | emptyGroup op => exact located_whole (.emptyGroup op)
  | bareLogBase argument => exact located_whole (.bareLogBase argument)
  | unrecognized => exact located_whole (.unrecognized text)

theorem Located.shift {piece : List Char} {f : Fault} (h : Located piece f) (a b : List Char) :
    Located (a ++ (piece ++ b)) (f.shift (Text.byteSize a)) := by
  obtain ⟨a', front, pointed, behind, b', hp, hf, rfl, hs⟩ := h
  refine ⟨a ++ a', front, pointed, behind, b' ++ b, hp, hf, ?_, ?_⟩
  · simp [Fault.shift]
  · simp [Fault.shift, Text.Span.shift, hs]
    omega

theorem start_interiorSpan {op : Wrapper} {span : Text.Span} {a : List Char}
    (hs : span.start = Text.byteSize a) :
    (interiorSpan op span).start = Text.byteSize (a ++ op.opening) := by
  rw [interiorSpan, hs, Text.byteSize_append]

/-- Wherever a reading fails, the fault is located in the text around the piece at hand. -/
theorem Fails.located {limit room : Nat} {tier : Tier} {span : Text.Span} {text : List Char}
    {f : Fault} (h : Fails limit room tier span text f) {a : List Char}
    (hs : span.start = Text.byteSize a) (b : List Char) : Located (a ++ (text ++ b)) f := by
  induction h generalizing a b with
  | shape hshape =>
    rw [hs]
    exact (shape_unshaped hshape).located.shift a b
  | @wrappedTooDeep _ span _ interior op hshape =>
    obtain ⟨rfl, _⟩ := (shape_forms hshape).wrapped
    rw [start_interiorSpan hs]
    have hl := (located_whole (.tooDeep limit interior)).shift (a ++ op.opening) (')' :: b)
    simpa using hl
  | splitTooDeep =>
    rw [hs]
    exact (located_whole (.tooDeep limit _)).shift a b
  | @interior _ _ span _ interior op _ hshape _ ih =>
    obtain ⟨rfl, _⟩ := (shape_forms hshape).wrapped
    have hl := ih (start_interiorSpan hs) (')' :: b)
    simpa using hl
  | @left _ _ span _ lhs rhs op _ hshape _ ih =>
    obtain rfl := (shape_forms hshape).eq_append
    have hl := ih hs (op.symbol :: (rhs ++ b))
    simpa using hl
  | @right _ _ span _ lhs rhs op _ _ hshape _ _ ih =>
    obtain rfl := (shape_forms hshape).eq_append
    have hstart : (span.behind (span.start + Text.byteSize lhs)).start =
        Text.byteSize (a ++ (lhs ++ [op.symbol])) := by
      simp only [Text.Span.behind, hs, Text.byteSize_append, Text.byteSize_cons,
        Text.byteSize_nil, utf8Size_symbol]
      omega
    have hl := ih hstart b
    simpa using hl

theorem readAll_located {limit : Nat} {text : List Char} {f : Fault}
    (h : (readAll limit text).outcome = .error f) : Located text f := by
  rcases fails_of_readAll h with ⟨rfl, rfl⟩ | hf
  · exact located_whole .empty
  · have hl := hf.located (a := []) rfl []
    simpa using hl

theorem eq_nil_of_empty {limit : Nat} {text : List Char} {f : Fault}
    (h : (readAll limit text).outcome = .error f) (hc : f.cause = .empty) : text = [] := by
  rcases fails_of_readAll h with ⟨hnil, _⟩ | hf
  · exact hnil
  · rcases hf.handed .whole with hd | ⟨_, _, g, _, hg, hr⟩
    · rw [hc] at hd
      cases hd
    · rw [hr] at hc
      cases shape_unshaped hg <;> cases hc

end Parse

/-- A fault of a parse is about a piece of the stripped text. It points at the part of it that the
cause wants, where that part stands in the given text, without blanks at the ends. Only a blank text
is refused as empty, at its end, and blanks change nothing but places. -/
theorem parse_fault_located (given : List Char) :
    (∀ limit f, (parse limit given).outcome = .error f →
      ∃ a front pointed behind b, Parse.Points f.cause front pointed behind ∧
        f.fragment = front ++ (pointed ++ behind) ∧
        Text.strip given = a ++ (f.fragment ++ b) ∧
        ∃ l m r, given = l ++ (m ++ r) ∧
          f.span = ⟨Text.byteSize l, Text.byteSize l + Text.byteSize m⟩ ∧ Text.trim m = m ∧
          Text.strip l = a ++ front ∧ Text.strip m = pointed ∧ Text.strip r = behind ++ b) ∧
    (∀ limit f, (parse limit given).outcome = .error f → f.cause = .empty →
      ∀ c ∈ given, Text.isBlank c = true) ∧
    ((∀ c ∈ given, Text.isBlank c = true) → ∀ limit,
      (parse limit given).outcome =
        .error ⟨⟨.empty, []⟩, ⟨Text.byteSize given, Text.byteSize given⟩⟩) ∧
    ∀ other, Text.strip other = Text.strip given → ∀ limit,
      (parse limit other).outcome.mapError Parse.Fault.toRefusal =
        (parse limit given).outcome.mapError Parse.Fault.toRefusal := by
  refine ⟨?_, ?_, ?_, ?_⟩
  · intro limit f h
    obtain ⟨g, hg, rfl⟩ := parse_error_iff.1 h
    obtain ⟨a, front, pointed, behind, b, hp, hf, ht, hs⟩ := Parse.readAll_located hg
    have hstrip : Text.strip given = (a ++ front) ++ (pointed ++ (behind ++ b)) := by
      rw [ht, hf]
      simp
    obtain ⟨l, m, r, hgiven, hl, hm, hr, htrim, horigin⟩ := Text.Stripped.origin_append hstrip
    refine ⟨a, front, pointed, behind, b, hp, hf, ht, l, m, r, hgiven, ?_, htrim, hl, hm, hr⟩
    exact (congrArg _ hs).trans horigin
  · intro limit f h hc
    obtain ⟨g, hg, rfl⟩ := parse_error_iff.1 h
    have hnil : Text.strip given = [] := Parse.eq_nil_of_empty hg hc
    simpa using List.filter_eq_nil_iff.1 hnil
  · intro hblank limit
    have hnil : Text.strip given = [] := List.filter_eq_nil_iff.2 (by simpa using hblank)
    have hplace : (Text.Stripped.ofText given).place 0 = Text.byteSize given :=
      Text.Stripped.place_end given (by rw [hnil]; exact Nat.le_refl 0)
    refine parse_error_iff.2 ⟨.whole .empty [], by rw [hnil]; rfl, ?_⟩
    have horigin : (Text.Stripped.ofText given).origin (Text.Span.whole []) =
        ⟨Text.byteSize given, Text.byteSize given⟩ := by
      rw [← hplace]
      rfl
    simp only [Parse.Fault.whole, horigin]
  · intro other hstrip limit
    rw [outcome_parse, outcome_parse, hstrip]
    cases (Parse.readAll limit (Text.strip given)).outcome with
    | error f => rfl
    | ok e => rfl

example : (parse 2 " x * é é".toList).outcome =
    .error ⟨⟨.unrecognized, ['é', 'é']⟩, ⟨5, 10⟩⟩ := by cbv

end Fluxion
