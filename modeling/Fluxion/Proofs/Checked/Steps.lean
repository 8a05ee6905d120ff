import Fluxion.Proofs.Checked.Parse
import Fluxion.Proofs.Parse.Location

/-!
# Steps by index

A range that covers a piece of the stripped text begins and ends where characters do. On such a
range no step of the machine traps: bytes and places are there when they are looked up, texts are
cut between characters, and no number exceeds the sizes of the texts. Each step comes to what it
does on the piece itself.
-/

set_option autoImplicit false

namespace Fluxion.Checked
open Parse (Cause Covers Fault Note Tier)

namespace Machine
variable {m : Machine}

/-- The text fits in the machine: it counts to the ends of both texts and to the limit. -/
structure Fits (m : Machine) : Prop where
  letters : m.letters.length ≤ m.most
  offsets : m.source.offsets.length = m.letters.length
  places : ∀ place ∈ m.source.offsets, place + 1 ≤ m.most
  limit : m.limit ≤ m.most

def written {α : Type} (m : Machine) (y : Logged Note Fault α) : Logged Record Fault α :=
  (y.mapNotes (Note.record m.source.text)).mapError fun f =>
    { f with span := m.source.origin f.span }

section
variable {α β : Type} {y : Logged Note Fault α}

theorem written_ok {a : α} (h : y.outcome = .ok a) : (m.written y).outcome = .ok a := by
  rw [written, Logged.mapError, Logged.mapNotes, h]
  rfl

theorem written_error {f : Fault} (h : y.outcome = .error f) :
    (m.written y).outcome = .error { f with span := m.source.origin f.span } := by
  rw [written, Logged.mapError, Logged.mapNotes, h]
  rfl

theorem ok_of_written {a : α} (h : (m.written y).outcome = .ok a) : y.outcome = .ok a := by
  cases hy : y.outcome with
  | error f => cases (written_error hy).symm.trans h
  | ok b => exact (written_ok hy).symm.trans h

theorem written_bind (y : Logged Note Fault α) (g : α → Logged Note Fault β) :
    m.written (y >>= g) = m.written y >>= fun a => m.written (g a) := by
  cases h : y.outcome with
  | error f =>
    rw [Logged.bind_error h, Logged.bind_error (written_error h)]
    rfl
  | ok a =>
    rw [Logged.bind_ok h, Logged.bind_ok (written_ok h)]
    simp [written, Logged.mapError, Logged.mapNotes]

end

/-- A reading by index does not trap, and comes to what the reading of the text comes to. -/
def Agrees {α : Type} (m : Machine) (x : Reading α) (y : Logged Note Fault α) : Prop :=
  x.run = .ok (m.written y)

namespace Agrees
variable {α β : Type} {x : Reading α} {y : Logged Note Fault α}

theorem pure (a : α) : m.Agrees (pure a) (pure a) := rfl

theorem bind (hx : m.Agrees x y) {f : α → Reading β} {g : α → Logged Note Fault β}
    (hf : ∀ a, y.outcome = .ok a → m.Agrees (f a) (g a)) : m.Agrees (x >>= f) (y >>= g) := by
  rw [Agrees, written_bind]
  exact Reading.bind_ok hx fun a ha => hf a (ok_of_written ha)

theorem lifted {c : Except Trap α} {a : α} (hc : c = .ok a) :
    m.Agrees (liftM c) (Pure.pure a) := by
  subst hc
  rfl

theorem lift {c : Except Trap β} {b : β} (hc : c = .ok b) {f : β → Reading α}
    (hf : m.Agrees (f b) y) : m.Agrees (liftM c >>= f) y :=
  (Reading.lift_bind hc f).trans hf

theorem step {a : α} (hx : m.Agrees x (Pure.pure a)) {f : α → Reading β}
    {z : Logged Note Fault β} (hf : m.Agrees (f a) z) : m.Agrees (x >>= f) z := by
  have h := hx.bind (g := fun _ => z) fun b hb => Except.ok.inj hb ▸ hf
  rwa [Logged.pure_bind] at h

theorem noted {n : Note} {a : α}
    (hx : m.Agrees x (do Logged.note n; Pure.pure a)) {f : α → Reading β}
    {z : Logged Note Fault β} (hf : m.Agrees (f a) z) :
    m.Agrees (x >>= f) (do Logged.note n; z) := by
  have h := hx.bind (g := fun _ => z) fun b hb => Except.ok.inj hb ▸ hf
  rwa [Logged.bind_assoc] at h

theorem stop {start : Nat} {e : Fault} (hx : m.Agrees x (Parse.refuse start e))
    (f : α → Reading β) : m.Agrees (x >>= f) (Parse.refuse start e) := by
  have h := hx.bind (f := f) (g := fun _ => Parse.refuse start e) fun _ hb => by cases hb
  rwa [Logged.bind_error rfl] at h

end Agrees

section
variable {range : Text.Span} {text : List Char}

theorem letters_covered (h : Covers m.source.text range text) :
    ∃ front behind, m.letters = front ++ (Scan.spell text ++ behind) ∧
      range = ⟨front.length, front.length + (Scan.spell text).length⟩ := by
  obtain ⟨a, b, htext, rfl⟩ := h
  refine ⟨Scan.spell a, Scan.spell b, ?_, by simp only [Scan.length_spell]⟩
  rw [letters, htext, Scan.spell_append, Scan.spell_append]

theorem stop_le (h : Covers m.source.text range text) : range.stop ≤ m.letters.length := by
  obtain ⟨front, behind, hl, rfl⟩ := letters_covered h
  simp only [hl, List.length_append]
  omega

theorem stop_eq (h : Covers m.source.text range text) :
    range.stop = range.start + Text.byteSize text := by
  obtain ⟨a, b, -, rfl⟩ := h
  rfl

theorem empty_iff (h : Covers m.source.text range text) :
    range.stop ≤ range.start ↔ text = [] := by
  rw [stop_eq h, ← Text.byteSize_eq_zero]
  omega

theorem cut_eq (h : Covers m.source.text range text) : m.cut range = .ok text := by
  have hslice := h.slice
  obtain ⟨a, b, htext, hrange⟩ := h
  have hstart : Text.isBoundary range.start m.source.text = true := by
    rw [htext, hrange]
    exact Text.isBoundary_append a (text ++ b)
  have hstop : Text.isBoundary range.stop m.source.text = true := by
    rw [htext, hrange, ← List.append_assoc, ← Text.byteSize_append]
    exact Text.isBoundary_append (a ++ text) b
  have hle : range.start ≤ range.stop := by
    rw [hrange]
    exact Nat.le_add_right _ _
  rw [cut, if_pos ⟨hle, hstart, hstop⟩, hslice]

theorem lookUp_offset (hm : m.Fits) {byte : Nat} (h : byte < m.letters.length) :
    lookUp m.source.offsets byte = .ok (m.source.place byte) ∧ m.source.place byte + 1 ≤ m.most := by
  obtain ⟨x, hx⟩ : ∃ x, m.source.offsets[byte]? = some x :=
    ⟨_, List.getElem?_eq_getElem (hm.offsets ▸ h)⟩
  have hplace : m.source.place byte = x := by
    rw [Text.Stripped.place, hx]
    rfl
  rw [hplace]
  exact ⟨lookUp_ok hx, hm.places x (List.mem_of_getElem? hx)⟩

theorem origin_eq (hm : m.Fits) (h : range.stop ≤ m.letters.length) :
    m.origin range = .ok (m.source.origin range) := by
  rw [origin, Text.Stripped.origin]
  by_cases hle : range.stop ≤ range.start
  · rw [if_pos hle, if_pos hle]
  · have hstart : range.start < m.letters.length := by omega
    have hbefore : range.stop - 1 < m.letters.length := by omega
    obtain ⟨hfirst, -⟩ := lookUp_offset hm hstart
    obtain ⟨hlast, hmost⟩ := lookUp_offset hm hbefore
    rw [if_neg hle, if_neg hle, ok_bind hfirst, ok_bind (sub_ok (by omega)), ok_bind hlast,
      ok_bind (add_ok hmost)]
    rfl

theorem agrees_fail {α : Type} (hm : m.Fits) (h : Covers m.source.text range text)
    {span : Text.Span} (hs : span.stop ≤ m.letters.length) {cause : Cause} {start : Nat} {f : Fault}
    (hf : f.shift start = ⟨⟨cause, text⟩, span⟩) :
    m.Agrees (m.fail range span cause : Reading α) (Parse.refuse start f) := by
  have hrefusal : f.toRefusal = ⟨cause, text⟩ := congrArg Fault.toRefusal hf
  have hwritten : m.written (Parse.refuse start f : Logged Note Fault α) =
      (do
        Logged.note ⟨.debug, Parse.Refusal.message ⟨cause, text⟩⟩
        Logged.fail ⟨⟨cause, text⟩, m.source.origin span⟩) := by
    rw [Parse.refuse, hf, hrefusal]
    rfl
  rw [Agrees, fail, hwritten, Reading.lift_bind (cut_eq h)]
  exact Reading.bind_ok rfl fun _ _ => Reading.lift_bind (origin_eq hm hs) _

theorem agrees_fail_whole {α : Type} (hm : m.Fits) (h : Covers m.source.text range text)
    (cause : Cause) :
    m.Agrees (m.fail range range cause : Reading α)
      (Parse.refuse range.start (.whole cause text)) := by
  refine agrees_fail hm h (stop_le h) ?_
  obtain ⟨a, b, -, rfl⟩ := h
  rfl

theorem byte_le {l r : List Char} {c : Char} (h : Covers m.source.text range (l ++ c :: r))
    (hc : c.utf8Size = 1) : range.start + Text.byteSize l + 1 ≤ m.letters.length := by
  have hsize := stop_eq h
  have hstop := stop_le h
  rw [Text.byteSize_append, Text.byteSize_cons, hc] at hsize
  omega

theorem next_byte (hm : m.Fits) {l r : List Char} {c : Char}
    (h : Covers m.source.text range (l ++ c :: r)) (hc : c.utf8Size = 1) :
    add m.most (range.start + Text.byteSize l) 1 = .ok (range.start + Text.byteSize l + 1) :=
  add_ok (Nat.le_trans (byte_le h hc) hm.letters)

theorem agrees_fail_at {α : Type} (hm : m.Fits) {l r : List Char} {c : Char}
    (h : Covers m.source.text range (l ++ c :: r)) (hc : c.utf8Size = 1) (cause : Cause) :
    m.Agrees
      (m.fail range ⟨range.start + Text.byteSize l, range.start + Text.byteSize l + 1⟩ cause :
        Reading α)
      (Parse.refuse range.start (.atByte cause (l ++ c :: r) (Text.byteSize l))) :=
  agrees_fail hm h (byte_le h hc) rfl

theorem agrees_too_deep (hm : m.Fits) (h : Covers m.source.text range text) {depth : Nat}
    (hd : m.limit ≤ depth) : m.Agrees (m.descend range depth)
      (Parse.refuse range.start (.whole (.tooDeep m.limit) text)) := by
  rw [descend, if_pos hd]
  exact agrees_fail_whole hm h _

theorem agrees_descend (hm : m.Fits) {depth : Nat} (hd : depth < m.limit) :
    m.Agrees (m.descend range depth) (pure (depth + 1)) := by
  rw [descend, if_neg (Nat.not_le.2 hd)]
  exact .lifted (add_ok (Nat.le_trans hd hm.limit))

theorem find_eq (hm : m.Fits) (h : Covers m.source.text range text) (ops : List Operator)
    (side : Side) :
    find m.most m.letters (ops.map Operator.symbol) side range =
      .ok (placed range.start (Scan.moved (Scan.byteIndex text)
        (Scan.find side (ops.map Operator.symbol) text))) := by
  have hsmall : ∀ s ∈ ops.map Operator.symbol, s.toNat < 128 := by
    intro s hs
    obtain ⟨op, -, rfl⟩ := List.mem_map.1 hs
    cases op <;> decide
  have hmost := hm.letters
  obtain ⟨front, behind, hl, rfl⟩ := letters_covered h
  rw [hl, List.length_append, List.length_append] at hmost
  rw [hl, Checked.find_eq (by omega), Scan.find_spell side hsmall]

theorem lookUp_covered {l r : List Char} {c : Char}
    (h : Covers m.source.text range (l ++ c :: r)) :
    ∃ d, lookUp m.letters (range.start + Text.byteSize l) = .ok d ∧
      (d = c ∨ Scan.Wide c ∧ Scan.Wide d) := by
  obtain ⟨a, b, htext, rfl⟩ := h
  have hletters : m.letters =
      Scan.spell (a ++ l) ++ (Scan.spell [c] ++ Scan.spell (r ++ b)) := by
    rw [letters, htext, ← Scan.spell_append, ← Scan.spell_append]
    simp
  rw [hletters, ← Text.byteSize_append, ← Scan.length_spell]
  rcases Scan.spell_cases c with hc | ⟨hwide, hne, hall⟩
  · rw [hc]
    exact ⟨c, lookUp_append _ _ _, .inl rfl⟩
  · obtain ⟨d, more, hd⟩ := List.exists_cons_of_ne_nil hne
    rw [hd] at hall ⊢
    exact ⟨d, lookUp_append _ _ _, .inr ⟨hwide, hall d List.mem_cons_self⟩⟩

theorem lookUp_symbol {l r : List Char} {op : Operator}
    (h : Covers m.source.text range (l ++ op.symbol :: r)) :
    lookUp m.letters (range.start + Text.byteSize l) = .ok op.symbol := by
  obtain ⟨d, hd, rfl | ⟨hwide, -⟩⟩ := lookUp_covered h
  · exact hd
  · exact absurd rfl (hwide.ne (d := op.symbol) (by cases op <;> decide))

theorem lookUp_first {c : Char} {rest : List Char} (h : Covers m.source.text range (c :: rest)) :
    ∃ d, lookUp m.letters range.start = .ok d ∧ (d = '(' ↔ c = '(') := by
  obtain ⟨d, hd, hcd⟩ := lookUp_covered (l := []) h
  refine ⟨d, hd, ?_⟩
  rcases hcd with rfl | ⟨hc, hd⟩
  · exact Iff.rfl
  · exact ⟨fun hp => absurd hp (hd.ne (by decide)), fun hp => absurd hp (hc.ne (by decide))⟩

theorem partner_covered (hm : m.Fits) (h : Covers m.source.text range text) :
    partner m.most m.letters range =
      .ok ((Scan.partner text).map fun k => range.start + Scan.byteIndex text k) := by
  have hmost := hm.letters
  obtain ⟨front, behind, hl, rfl⟩ := letters_covered h
  rw [hl, List.length_append, List.length_append] at hmost
  rw [hl, partner_eq (by omega), Scan.partner_spell, Option.map_map]
  rfl

theorem partner_last {rest : List Char} {k : Nat} (hk : Scan.partner ('(' :: rest) = some k) :
    Scan.byteIndex ('(' :: rest) k + 1 ≤ Text.byteSize ('(' :: rest) ∧
      (Scan.byteIndex ('(' :: rest) k + 1 = Text.byteSize ('(' :: rest) ↔ k = rest.length) := by
  rw [Scan.partner, Scan.partnerFrom_open] at hk
  obtain ⟨a, more, rfl, -, rfl⟩ := Scan.partnerFrom_closes hk
  have hlen : 0 + 1 + a.length = ('(' :: a).length := by
    rw [List.length_cons]
    omega
  have hindex : Scan.byteIndex ('(' :: (a ++ ')' :: more)) (0 + 1 + a.length) =
      Text.byteSize ('(' :: a) := by
    rw [hlen, ← List.cons_append, Scan.byteIndex_left]
  have hclose : (')' : Char).utf8Size = 1 := rfl
  have hmore : Text.byteSize more = 0 ↔ more.length = 0 :=
    Text.byteSize_eq_zero.trans List.length_eq_zero_iff.symm
  rw [hindex]
  simp only [Text.byteSize_cons, Text.byteSize_append, List.length_append, List.length_cons,
    hclose]
  omega

theorem group?_partner {rest : List Char} {k : Nat} (hk : Scan.partner ('(' :: rest) = some k)
    (hsize : range.stop = range.start + Text.byteSize ('(' :: rest)) :
    (if range.start + Scan.byteIndex ('(' :: rest) k + 1 = range.stop then
        some (⟨range.start + 1, range.start + Scan.byteIndex ('(' :: rest) k⟩ : Text.Span)
      else none) =
      (Scan.group? ('(' :: rest)).map fun _ => Parse.interiorSpan .paren range := by
  obtain ⟨-, hlast⟩ := partner_last hk
  by_cases hend : k = rest.length
  · have hgroup : Scan.group? ('(' :: rest) = some rest.dropLast := by
      rw [Scan.group?, hk, hend]
      exact if_pos rfl
    have hbyte := hlast.2 hend
    have hstop : range.start + Scan.byteIndex ('(' :: rest) k = range.stop - 1 := by omega
    rw [if_pos (by omega), hgroup, hstop]
    rfl
  · have hgroup : Scan.group? ('(' :: rest) = none := by
      rw [Scan.group?, hk]
      exact if_neg fun h => hend (Option.some.inj h)
    rw [if_neg (fun h => hend (hlast.1 (by omega))), hgroup]
    rfl

theorem group?_eq (hm : m.Fits) (h : Covers m.source.text range text) :
    m.group? range =
      .ok ((Scan.group? text).map fun _ => Parse.interiorSpan .paren range) := by
  cases text with
  | nil =>
    rw [group?, if_pos ((empty_iff h).2 rfl)]
    rfl
  | cons c rest =>
    obtain ⟨d, hd, hopen⟩ := lookUp_first h
    rw [group?, if_neg (mt (empty_iff h).1 (List.cons_ne_nil c rest)), ok_bind hd]
    by_cases hc : c = '('
    · subst hc
      rw [if_pos (hopen.2 rfl), ok_bind (partner_covered hm h)]
      cases hk : Scan.partner ('(' :: rest) with
      | none =>
        have hnone : Scan.group? ('(' :: rest) = none := by rw [Scan.group?, hk]; rfl
        rw [hnone]
        rfl
      | some k =>
        have hmost := Nat.le_trans (stop_le h) hm.letters
        have hsize := stop_eq h
        obtain ⟨hle, -⟩ := partner_last hk
        have hfirst : add m.most range.start 1 = .ok (range.start + 1) := add_ok (by omega)
        have hbehind : add m.most (range.start + Scan.byteIndex ('(' :: rest) k) 1 =
            .ok (range.start + Scan.byteIndex ('(' :: rest) k + 1) := add_ok (by omega)
        rw [Option.map_some]
        dsimp only
        rw [ok_bind hfirst, ok_bind hbehind]
        exact congrArg Except.ok (group?_partner hk hsize)
    · have hnone : Scan.group? (c :: rest) = none := by
        rw [Scan.group?]
        rintro _ hp
        exact hc (List.cons.inj hp).1
      rw [if_neg (fun hp => hc (hopen.1 hp)), hnone]
      rfl

theorem call?_eq (hm : m.Fits) (h : Covers m.source.text range text) :
    m.call? range =
      .ok ((Parse.call? text).map fun _ => Parse.interiorSpan .log range) := by
  rw [call?, ok_bind (cut_eq h)]
  by_cases hp : ['l', 'o', 'g', '('].isPrefixOf text = true
  · obtain ⟨rest, rfl⟩ := List.isPrefixOf_iff_prefix.1 hp
    have hgroup : Covers m.source.text ⟨range.start + 3, range.stop⟩ ('(' :: rest) := by
      obtain ⟨a, b, htext, rfl⟩ := h
      refine ⟨a ++ ['l', 'o', 'g'], b, by simpa using htext, ?_⟩
      have hname : Text.byteSize ['l', 'o', 'g'] = 3 := rfl
      have hcall : Text.byteSize ['l', 'o', 'g', '('] = 4 := rfl
      have hopen : ('(' : Char).utf8Size = 1 := rfl
      simp only [Text.byteSize_append, hname, hcall, Text.byteSize_cons, hopen,
        Text.Span.mk.injEq, true_and]
      omega
    have hmost : range.start + 3 ≤ m.most := by
      have hstop := stop_eq hgroup
      have hle := Nat.le_trans (stop_le hgroup) hm.letters
      dsimp only at hstop hle
      omega
    rw [if_pos hp, ok_bind (add_ok hmost), group?_eq hm hgroup]
    rfl
  · have hnone : Parse.call? text = none := by
      cases hc : Parse.call? text with
      | none => rfl
      | some argument =>
        refine absurd (List.isPrefixOf_iff_prefix.2 ?_) hp
        exact ⟨argument ++ [')'], (Parse.call?_eq_some hc).1.symm⟩
    rw [if_neg hp, hnone]
    rfl

theorem agrees_split (hm : m.Fits) (h : Covers m.source.text range text) (ops : List Operator)
    (side : Side) :
    m.Agrees (m.split ops side range)
      (match Scan.find side (ops.map Operator.symbol) text with
        | .ok place? =>
          pure (place?.map fun place => range.start + Scan.byteIndex text place.index)
        | .error u =>
          Parse.refuse range.start
            (.atByte (.unpaired u.opening) text (Scan.byteIndex text u.index))) := by
  have hfound := Scan.found side (ops.map Operator.symbol) text
  refine .lift (find_eq hm h ops side) ?_
  generalize Scan.find side (ops.map Operator.symbol) text = result at hfound
  cases hfound with
  | nothing _ => exact .pure _
  | operator _ _ _ => exact .pure _
  | @lonely l r c _ hl =>
    have hc := Scan.utf8Size_paren hl.1
    dsimp only [Scan.moved, placed]
    rw [Scan.byteIndex_left]
    exact .lift (next_byte hm h hc) (agrees_fail_at hm h hc _)

section
variable {l r : List Char} {op : Operator}

theorem agrees_missing_left (hm : m.Fits) (h : Covers m.source.text range (l ++ op.symbol :: r))
    (hl : l = []) :
    m.Agrees (m.operands range (range.start + Text.byteSize l))
      (Parse.refuse range.start
        (.atByte (.missingOperand op .left) (l ++ op.symbol :: r) (Text.byteSize l))) := by
  refine .lift (next_byte hm h (Parse.utf8Size_symbol op)) (.lift (lookUp_symbol h) ?_)
  have hleft : range.start + Text.byteSize l ≤ range.start := (empty_iff h.before).2 hl
  rw [Parse.ofSymbol_symbol, if_pos hleft]
  exact agrees_fail_at hm h (Parse.utf8Size_symbol op) _

theorem agrees_missing_right (hm : m.Fits) (h : Covers m.source.text range (l ++ op.symbol :: r))
    (hl : l ≠ []) (hr : r = []) :
    m.Agrees (m.operands range (range.start + Text.byteSize l))
      (Parse.refuse range.start
        (.atByte (.missingOperand op .right) (l ++ op.symbol :: r) (Text.byteSize l))) := by
  refine .lift (next_byte hm h (Parse.utf8Size_symbol op)) (.lift (lookUp_symbol h) ?_)
  have hleft : ¬ range.start + Text.byteSize l ≤ range.start := mt (empty_iff h.before).1 hl
  have hright : range.stop ≤ range.start + Text.byteSize l + 1 := (empty_iff h.behind).2 hr
  rw [Parse.ofSymbol_symbol, if_neg hleft, if_pos hright]
  exact agrees_fail_at hm h (Parse.utf8Size_symbol op) _

theorem agrees_operands (hm : m.Fits) (h : Covers m.source.text range (l ++ op.symbol :: r))
    (hl : l ≠ []) (hr : r ≠ []) :
    m.Agrees (m.operands range (range.start + Text.byteSize l)) (do
      Logged.note (.split range op (range.start + Text.byteSize l))
      pure (range.before (range.start + Text.byteSize l),
        range.behind (range.start + Text.byteSize l))) := by
  refine .lift (next_byte hm h (Parse.utf8Size_symbol op)) (.lift (lookUp_symbol h) ?_)
  have hleft : ¬ range.start + Text.byteSize l ≤ range.start := mt (empty_iff h.before).1 hl
  have hright : ¬ range.stop ≤ range.start + Text.byteSize l + 1 := mt (empty_iff h.behind).1 hr
  rw [Parse.ofSymbol_symbol, if_neg hleft, if_neg hright]
  refine .lift (cut_eq h) (.lift (cut_eq h.before) (.lift (cut_eq h.behind) ?_))
  rw [← Parse.records_split h]
  rfl

end

end

end Machine

end Fluxion.Checked
