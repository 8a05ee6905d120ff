import Fluxion.Proofs.Parse.Reading
import Fluxion.Proofs.Parse.Shape

/-!
# What the depth limit does

A limit lets exactly those formulas through that are not deeper than it allows, and changes no other
answer. Each level of room takes two bytes of text at least, so a short text never meets the limit.
-/

set_option autoImplicit false

namespace Fluxion

namespace Parse

section
variable {limit room : Nat} {tier : Tier} {span : Text.Span} {text : List Char}

theorem depth_leaf {e : Expr} (h : shape tier text = .ok (.leaf e)) : e.depth = 1 := by
  cases shape_forms h with
  | var => rfl
  | literal => rfl

theorem depth_pos (e : Expr) : 0 < e.depth := by
  cases e <;> simp only [Expr.depth] <;> omega

theorem read_of_reads {e : Expr} (h : Reads tier text e) (limit room : Nat) (span : Text.Span) :
    (e.depth ≤ room + 1 → (read limit room tier span text).outcome = .ok e) ∧
      (room + 1 < e.depth →
        ∃ f, (read limit room tier span text).outcome = .error f ∧ f.cause = .tooDeep limit) := by
  induction h generalizing room span with
  | leaf hs =>
    rw [read_leaf hs, depth_leaf hs]
    exact ⟨fun _ => rfl, fun hlt => by omega⟩
  | @wrapped _ _ _ op e hs _ ih =>
    have he := depth_pos e
    rw [Expr.depth]
    cases room with
    | zero =>
      rw [read_wrapped_zero hs]
      exact ⟨fun hle => by omega, fun _ => ⟨_, rfl, rfl⟩⟩
    | succ room =>
      rw [read_wrapped hs]
      obtain ⟨hok, herr⟩ := ih room (interiorSpan op span)
      constructor
      · intro hle
        rw [Logged.outcome_bind_ok (hok (by omega))]
        rfl
      · intro hlt
        obtain ⟨f, hf, hc⟩ := herr (by omega)
        exact ⟨f, Logged.outcome_bind_error hf, hc⟩
  | @split _ _ lhs _ op l r hs _ _ ihl ihr =>
    have hl := depth_pos l
    rw [depth_combine]
    cases room with
    | zero =>
      rw [read_split_zero hs]
      exact ⟨fun hle => by omega, fun _ => ⟨_, rfl, rfl⟩⟩
    | succ room =>
      rw [read_split hs, Logged.outcome_bind_ok (a := ()) rfl]
      obtain ⟨hlok, hlerr⟩ := ihl room (span.before (span.start + Text.byteSize lhs))
      obtain ⟨hrok, hrerr⟩ := ihr room (span.behind (span.start + Text.byteSize lhs))
      constructor
      · intro hle
        rw [Logged.outcome_bind_ok (hlok (by omega)), Logged.outcome_bind_ok (hrok (by omega))]
        rfl
      · intro hlt
        by_cases hd : l.depth ≤ room + 1
        · obtain ⟨f, hf, hc⟩ := hrerr (by omega)
          exact ⟨f, by rw [Logged.outcome_bind_ok (hlok hd), Logged.outcome_bind_error hf], hc⟩
        · obtain ⟨f, hf, hc⟩ := hlerr (by omega)
          exact ⟨f, Logged.outcome_bind_error hf, hc⟩

def HitsLimit (x : Logged Note Fault Expr) : Prop :=
  ∃ f k, x.outcome = .error f ∧ f.cause = .tooDeep k

/-- More room changes nothing but an end by the limit. -/
theorem read_more {limit' room' : Nat} (hr : room ≤ room')
    (h : ¬ HitsLimit (read limit room tier span text)) :
    read limit' room' tier span text = read limit room tier span text := by
  induction room generalizing room' tier span text with
  | zero =>
    cases hs : shape tier text with
    | error f => rw [read_error hs, read_error hs]
    | ok s =>
      cases s with
      | leaf e => rw [read_leaf hs, read_leaf hs]
      | wrapped op interior =>
        rw [read_wrapped_zero hs] at h
        exact absurd ⟨_, _, rfl, rfl⟩ h
      | split lhs op rhs =>
        rw [read_split_zero hs] at h
        exact absurd ⟨_, _, rfl, rfl⟩ h
  | succ room ih =>
    obtain ⟨room', rfl⟩ : ∃ k, room' = k + 1 := ⟨room' - 1, by omega⟩
    have hle : room ≤ room' := by omega
    cases hs : shape tier text with
    | error f => rw [read_error hs, read_error hs]
    | ok s =>
      cases s with
      | leaf e => rw [read_leaf hs, read_leaf hs]
      | wrapped op interior =>
        rw [read_wrapped hs] at h ⊢
        rw [read_wrapped hs, ih hle]
        rintro ⟨f, k, hf, hc⟩
        exact h ⟨f, k, Logged.outcome_bind_error hf, hc⟩
      | split lhs op rhs =>
        rw [read_split hs] at h ⊢
        rw [read_split hs]
        have note_bind {β : Type} (n : Note) (g : Unit → Logged Note Fault β) :
            (Logged.note n >>= g).outcome = (g ()).outcome := Logged.outcome_bind_ok rfl
        rw [HitsLimit, note_bind] at h
        have hl : ¬ HitsLimit (read limit room (operandTier op .left)
            (span.before (span.start + Text.byteSize lhs)) lhs) := by
          rintro ⟨f, k, hf, hc⟩
          exact h ⟨f, k, Logged.outcome_bind_error hf, hc⟩
        simp only [ih hle hl]
        cases hx : (read limit room (operandTier op .left)
            (span.before (span.start + Text.byteSize lhs)) lhs).outcome with
        | error f => simp only [Logged.bind_error hx]
        | ok l =>
          have hr : ¬ HitsLimit (read limit room (operandTier op .right)
              (span.behind (span.start + Text.byteSize lhs)) rhs) := by
            rintro ⟨f, k, hf, hc⟩
            exact h ⟨f, k, (Logged.outcome_bind_ok hx).trans (Logged.outcome_bind_error hf), hc⟩
          simp only [ih hle hr]

theorem cause_shape {f : Fault} (h : shape tier text = .error f) (k : Nat) :
    f.cause ≠ .tooDeep k := by
  cases shape_unshaped h <;> exact Cause.noConfusion

theorem Forms.piece_size {s : Shape} (h : Forms tier text s) {piece : List Char}
    (hp : piece ∈ s.pieces) : 0 < Text.byteSize piece ∧
      Text.byteSize piece + 2 ≤ Text.byteSize text := by
  have pos {a : List Char} (ha : a ≠ []) : 0 < Text.byteSize a :=
    Nat.lt_of_lt_of_le (List.length_pos_iff.2 ha) (Text.length_le_byteSize a)
  have one (c : Char) : 0 < c.utf8Size := c.utf8Size_pos
  cases h with
  | var => simp [Shape.pieces] at hp
  | literal => simp [Shape.pieces] at hp
  | @group interior hne =>
    rw [Shape.pieces, List.mem_singleton] at hp
    subst hp
    have := one '('
    have := one ')'
    refine ⟨pos hne, ?_⟩
    simp only [Text.byteSize_cons, Text.byteSize_append, Text.byteSize_nil]
    omega
  | @call argument hne =>
    rw [Shape.pieces, List.mem_singleton] at hp
    subst hp
    have := one '('
    have := one ')'
    refine ⟨pos hne, ?_⟩
    simp only [Text.byteSize_cons, Text.byteSize_append, Text.byteSize_nil]
    omega
  | @split l r op hl hr =>
    have hlp := pos hl
    have hrp := pos hr
    have := one op.symbol
    simp only [Shape.pieces, List.mem_cons, List.not_mem_nil, or_false] at hp
    simp only [Text.byteSize_cons, Text.byteSize_append]
    rcases hp with rfl | rfl
    · exact ⟨hlp, by omega⟩
    · exact ⟨hrp, by omega⟩

/-- Each level of room is two bytes of the text, around one piece with one byte at least. -/
theorem Fails.size {f : Fault} {k : Nat} (h : Fails limit room tier span text f)
    (hc : f.cause = .tooDeep k) : k = limit ∧ 2 * room + 3 ≤ Text.byteSize text := by
  induction h with
  | shape hs => exact absurd hc (cause_shape hs k)
  | wrappedTooDeep hs =>
    obtain ⟨hp, hle⟩ := (shape_forms hs).piece_size (List.mem_singleton.2 rfl)
    exact ⟨(Cause.tooDeep.inj hc).symm, by omega⟩
  | splitTooDeep hs =>
    obtain ⟨hp, hle⟩ := (shape_forms hs).piece_size (List.mem_cons_self)
    exact ⟨(Cause.tooDeep.inj hc).symm, by omega⟩
  | interior hs _ ih =>
    obtain ⟨hk, hle⟩ := ih hc
    obtain ⟨_, hp⟩ := (shape_forms hs).piece_size (List.mem_singleton.2 rfl)
    exact ⟨hk, by omega⟩
  | left hs _ ih =>
    obtain ⟨hk, hle⟩ := ih hc
    obtain ⟨_, hp⟩ := (shape_forms hs).piece_size (List.mem_cons_self)
    exact ⟨hk, by omega⟩
  | right hs _ _ ih =>
    obtain ⟨hk, hle⟩ := ih hc
    obtain ⟨_, hp⟩ := (shape_forms hs).piece_size
      (List.mem_cons_of_mem _ (List.mem_singleton.2 rfl))
    exact ⟨hk, by omega⟩

end

theorem ne_nil_of_readAll {limit : Nat} {text : List Char} {e : Expr}
    (h : (readAll limit text).outcome = .ok e) : text ≠ [] := by
  rintro rfl
  cases h

theorem reads_of_readAll {limit : Nat} {text : List Char} {e : Expr}
    (h : (readAll limit text).outcome = .ok e) : Reads .sum text e := by
  rw [readAll_of_ne_nil (ne_nil_of_readAll h)] at h
  exact reads_of_read h

theorem readAll_more {n m : Nat} (hnm : n ≤ m) {text : List Char}
    (h : ¬ HitsLimit (readAll n text)) : readAll m text = readAll n text := by
  by_cases hne : text = []
  · rw [hne]
    rfl
  · rw [readAll_of_ne_nil hne] at h ⊢
    rw [readAll_of_ne_nil hne, read_more hnm h]

theorem readAll_size {n k : Nat} {text : List Char} {f : Fault}
    (h : (readAll n text).outcome = .error f) (hc : f.cause = .tooDeep k) :
    k = n ∧ 2 * n + 3 ≤ Text.byteSize text := by
  rcases fails_of_readAll h with ⟨_, rfl⟩ | hf
  · cases hc
  · exact hf.size hc

end Parse

/-- The depth limit is exact, and it changes nothing but its own refusal: a formula is read if it is
no deeper than the limit allows, any other answer is the same for all larger limits, and a refusal
by the limit needs a text that is long enough for it. -/
theorem parse_depth_limit (given : List Char) :
    (∀ k e, (parse k given).outcome = .ok e → ∀ n,
      (e.depth ≤ n + 1 → (parse n given).outcome = .ok e) ∧
      (n + 1 < e.depth → ∃ f, (parse n given).outcome = .error f ∧ f.cause = .tooDeep n)) ∧
    (∀ n m, n ≤ m →
      (¬ ∃ f k, (parse n given).outcome = .error f ∧ f.cause = .tooDeep k) →
      (parse m given).outcome = (parse n given).outcome) ∧
    (∀ n f k, (parse n given).outcome = .error f → f.cause = .tooDeep k →
      k = n ∧ 2 * n + 3 ≤ Text.byteSize (Text.strip given)) := by
  refine ⟨?_, ?_, ?_⟩
  · intro k e h n
    rw [parse_ok_iff] at h
    have hne := Parse.ne_nil_of_readAll h
    obtain ⟨hok, herr⟩ := Parse.read_of_reads (Parse.reads_of_readAll h) n n (.whole _)
    rw [← Parse.readAll_of_ne_nil hne] at hok herr
    constructor
    · exact fun hle => parse_ok_iff.2 (hok hle)
    · intro hlt
      obtain ⟨f, hf, hc⟩ := herr hlt
      exact ⟨_, parse_error_iff.2 ⟨f, hf, rfl⟩, hc⟩
  · intro n m hnm h
    have hh : ¬ Parse.HitsLimit (Parse.readAll n (Text.strip given)) := by
      rintro ⟨f, k, hf, hc⟩
      exact h ⟨_, k, parse_error_iff.2 ⟨f, hf, rfl⟩, hc⟩
    rw [outcome_parse, outcome_parse, Parse.readAll_more hnm hh]
  · intro n f k h hc
    obtain ⟨g, hg, rfl⟩ := parse_error_iff.1 h
    exact Parse.readAll_size hg hc

end Fluxion
