import Fluxion.Proofs.Scan.Partner
import Fluxion.Proofs.Text.Encoding

/-!
# Scans of the bytes of a text

All that a scan looks for is single bytes, and it passes over the bytes of any other character as
over the character itself. So a scan of the bytes of a text ends like a scan of the text, with the
place counted in bytes.
-/

set_option autoImplicit false

namespace Fluxion.Scan

def spell (text : List Char) : List Char := textOfBytes (Text.encode text)

theorem spell_append (a b : List Char) : spell (a ++ b) = spell a ++ spell b := by
  rw [spell, Text.encode_append]
  exact List.map_append

theorem length_spell (text : List Char) : (spell text).length = Text.byteSize text := by
  rw [spell, length_textOfBytes, Text.length_encode]

theorem utf8Size_paren {c : Char} (h : isParen c = true) : c.utf8Size = 1 := by
  rcases paren_cases .left h with rfl | rfl <;> rfl

def Wide (c : Char) : Prop := 128 ≤ c.toNat

theorem spell_cases (c : Char) :
    spell [c] = [c] ∨ Wide c ∧ spell [c] ≠ [] ∧ ∀ d ∈ spell [c], Wide d := by
  have hspell : spell [c] = textOfBytes (String.utf8EncodeChar c) := by
    rw [spell, Text.encode, List.flatMap_singleton]
  by_cases hc : c.toNat ≤ 127
  · exact .inl (hspell.trans (Text.encode_small hc))
  · refine .inr ⟨Nat.lt_of_not_le hc, ?_, ?_⟩
    · apply List.ne_nil_of_length_pos
      rw [length_spell, Text.byteSize_cons]
      exact Nat.lt_of_lt_of_le c.utf8Size_pos (Nat.le_add_right _ _)
    · intro d hd
      rw [hspell, textOfBytes] at hd
      obtain ⟨b, hb, rfl⟩ := List.mem_map.1 hd
      rw [Wide, Text.toNat_letter]
      exact Text.byte_large hc hb

namespace Wide
variable {c : Char}

theorem ne (h : Wide c) {d : Char} (hd : d.toNat < 128) : c ≠ d := by
  rintro rfl
  exact Nat.not_le.2 hd h

theorem isParen (h : Wide c) : isParen c = false := by
  simp [Scan.isParen, h.ne (d := '(') (by decide), h.ne (d := ')') (by decide)]

theorem endsOperand (h : Wide c) : endsOperand c = true := by
  have hc : c ∉ ['+', '-', '*', '/', '^', '(', 'e', 'E'] := by
    intro hm
    have hsmall : ∀ d ∈ ['+', '-', '*', '/', '^', '(', 'e', 'E'], d.toNat < 128 := by simp
    exact h.ne (hsmall c hm) rfl
  rw [Scan.endsOperand, decide_eq_true hc]

end Wide

def startAt (side : Side) (size : List Char → Nat) (done rest : List Char) : Nat :=
  match side with
  | .left => size done
  | .right => size rest - 1

def byteIndex (text : List Char) (index : Nat) : Nat := Text.byteSize (text.take index)

theorem byteIndex_left (l r : List Char) : byteIndex (l ++ r) l.length = Text.byteSize l := by
  rw [byteIndex, List.take_left]

def Place.move (f : Nat → Nat) (p : Place) : Place := ⟨f p.index, p.char⟩

def moved (f : Nat → Nat) : Except Unpaired (Option Place) → Except Unpaired (Option Place)
  | .ok p => .ok (p.map (Place.move f))
  | .error u => .error ⟨f u.index, u.opening⟩

def spellOrder (side : Side) (text : List Char) : List Char :=
  walkOrder side (spell (walkOrder side text))

theorem spellOrder_cons (side : Side) (c : Char) (rest : List Char) :
    spellOrder side (c :: rest) = walkOrder side (spell [c]) ++ spellOrder side rest := by
  cases side with
  | left => exact spell_append [c] rest
  | right =>
    change (spell (c :: rest).reverse).reverse = _
    rw [List.reverse_cons, spell_append, List.reverse_append]
    rfl

theorem byteSize_reverse (text : List Char) : Text.byteSize text.reverse = Text.byteSize text := by
  induction text with
  | nil => rfl
  | cons c rest ih =>
    rw [List.reverse_cons, Text.byteSize_append, Text.byteSize_cons, Text.byteSize_cons,
      Text.byteSize_nil, ih]
    omega

section
variable {side : Side} {symbols : List Char} {text done rest : List Char} {c : Char}

theorem nextIndex_startAt (side : Side) (done : List Char) (c : Char) (rest : List Char) :
    nextIndex side (startAt side List.length done (c :: rest)) =
      startAt side List.length (done ++ [c]) rest := by
  cases side <;> simp [nextIndex, startAt]

theorem advance_startAt (side : Side) (done : List Char) (c : Char) (rest : List Char) :
    advance side (startAt side Text.byteSize done (c :: rest)) c.utf8Size =
      startAt side Text.byteSize (done ++ [c]) rest := by
  cases side with
  | left => simp [advance, startAt]
  | right =>
    simp only [advance, startAt, Text.byteSize_cons]
    omega

theorem byteIndex_startAt (hw : walkOrder side text = done ++ c :: rest) (hc : c.utf8Size = 1) :
    byteIndex text (startAt side List.length done (c :: rest)) =
      startAt side Text.byteSize done (c :: rest) := by
  cases side with
  | left =>
    obtain rfl : text = done ++ c :: rest := hw
    exact byteIndex_left done (c :: rest)
  | right =>
    have ht : text = rest.reverse ++ ([c] ++ done.reverse) := by
      rw [← List.reverse_reverse text]
      simpa [walkOrder] using congrArg List.reverse hw
    have hlen : startAt .right List.length done (c :: rest) = rest.reverse.length := by
      simp [startAt]
    rw [hlen, ht, byteIndex_left, byteSize_reverse, startAt, Text.byteSize_cons, hc]
    omega

theorem isOperator_congr {previous previous' : Option Char}
    (h : previous'.any endsOperand = previous.any endsOperand) :
    isOperator symbols previous' c = isOperator symbols previous c := by
  rw [isOperator, isOperator, h]

theorem walk_wide {junk : List Char} (hs : ∀ s ∈ symbols, s.toNat < 128)
    (hj : ∀ d ∈ junk, Wide d) (waiting : List Place) (index : Nat) (met : Option Char)
    (rest : List Char) :
    walk side symbols waiting index met (junk ++ rest) =
      walk side symbols waiting (advance side index junk.length) (junk.getLast?.or met) rest := by
  induction junk generalizing index met with
  | nil => simp
  | cons d junk ih =>
    have hd := hj d List.mem_cons_self
    have hn : d ∉ symbols := fun hm => hd.ne (hs d hm) rfl
    rw [List.cons_append, walk_skip hd.isParen (by simp [isOperator, hn]),
      ih fun e he => hj e (List.mem_cons_of_mem _ he), advance_nextIndex]
    simp [List.getLast?_cons]

theorem head_spellOrder (side : Side) (rest : List Char) :
    (spellOrder side rest).head?.any endsOperand = rest.head?.any endsOperand := by
  cases rest with
  | nil => cases side <;> rfl
  | cons c rest =>
    rw [spellOrder_cons]
    rcases spell_cases c with hc | ⟨hc, hne, hall⟩
    · rw [hc]
      cases side <;> rfl
    · have hmem : ∀ d ∈ walkOrder side (spell [c]), Wide d := by
        intro d hd
        refine hall d ?_
        cases side with
        | left => exact hd
        | right => exact List.mem_reverse.1 hd
      obtain ⟨d, more, hd⟩ : ∃ d more, walkOrder side (spell [c]) = d :: more := by
        refine List.exists_cons_of_ne_nil ?_
        cases side with
        | left => exact hne
        | right => exact fun h => hne (List.reverse_eq_nil_iff.1 h)
      have hwide := hmem d (hd ▸ List.mem_cons_self)
      rw [hd]
      exact hwide.endsOperand.trans hc.endsOperand.symm

theorem utf8Size_of_spell (h : spell [c] = [c]) : c.utf8Size = 1 := by
  have hlen := length_spell [c]
  rw [h] at hlen
  simpa using hlen.symm

/-- A walk passes over a character of several bytes, and the last one can end an operand. -/
theorem walk_spell_wide (hs : ∀ s ∈ symbols, s.toNat < 128)
    (hall : ∀ d ∈ spell [c], Wide d) (waiting : List Place) (done rest : List Char)
    (met : Option Char) (more : List Char) :
    ∃ last : Option Char, last.any endsOperand = true ∧
      walk side symbols waiting (startAt side Text.byteSize done (c :: rest)) met
          (walkOrder side (spell [c]) ++ more) =
        walk side symbols waiting (startAt side Text.byteSize (done ++ [c]) rest) last more := by
  have hjunk : ∀ d ∈ walkOrder side (spell [c]), Wide d := by
    cases side with
    | left => exact hall
    | right => exact fun d hd => hall d (List.mem_reverse.1 hd)
  have hlen : (walkOrder side (spell [c])).length = c.utf8Size := by
    have hsize : (spell [c]).length = c.utf8Size := by simp [length_spell]
    cases side with
    | left => exact hsize
    | right => exact List.length_reverse.trans hsize
  have hlast : walkOrder side (spell [c]) ≠ [] := by
    apply List.ne_nil_of_length_pos
    rw [hlen]
    exact c.utf8Size_pos
  refine ⟨_, ?_, (walk_wide hs hjunk waiting _ met more).trans (by rw [hlen, advance_startAt])⟩
  rw [List.getLast?_eq_some_getLast hlast]
  exact (hjunk _ (List.getLast_mem hlast)).endsOperand

theorem walk_spell_byte (hw : walkOrder side text = done ++ c :: rest) (hc : spell [c] = [c])
    (waiting : List Place) {met met' : Option Char}
    (hmet : met'.any endsOperand = met.any endsOperand)
    (hrest : ∀ waiting : List Place,
      walk side symbols (waiting.map (Place.move (byteIndex text)))
          (startAt side Text.byteSize (done ++ [c]) rest) (some c) (spellOrder side rest) =
        moved (byteIndex text)
          (walk side symbols waiting (startAt side List.length (done ++ [c]) rest) (some c) rest)) :
    walk side symbols (waiting.map (Place.move (byteIndex text)))
        (startAt side Text.byteSize done (c :: rest)) met' (spellOrder side (c :: rest)) =
      moved (byteIndex text)
        (walk side symbols waiting (startAt side List.length done (c :: rest)) met (c :: rest)) := by
  have hsize := utf8Size_of_spell hc
  have hbyte : spellOrder side (c :: rest) = c :: spellOrder side rest := by
    rw [spellOrder_cons, hc]
    cases side <;> rfl
  have hindex := byteIndex_startAt hw hsize
  have hnext : nextIndex side (startAt side Text.byteSize done (c :: rest)) =
      startAt side Text.byteSize (done ++ [c]) rest := by
    rw [← advance_startAt, hsize, advance_one]
  rw [hbyte, ← hindex]
  rw [← hindex] at hnext
  by_cases hp : isParen c = true
  · rcases paren_cases side hp with rfl | rfl
    · rw [walk_firstParen, walk_firstParen, hnext, nextIndex_startAt]
      exact hrest (⟨_, firstParen side⟩ :: waiting)
    · cases waiting with
      | nil =>
        rw [List.map_nil, walk_unopened, walk_unopened]
        rfl
      | cons p waiting =>
        rw [List.map_cons, walk_lastParen, walk_lastParen, hnext, nextIndex_startAt]
        exact hrest waiting
  · have hp : isParen c = false := by simpa using hp
    have hprevious : (previousChar side met' (spellOrder side rest)).any endsOperand =
        (previousChar side met rest).any endsOperand := by
      cases side with
      | left => exact hmet
      | right => exact head_spellOrder .right rest
    rw [walk_other hp, walk_other hp, isOperator_congr hprevious, List.isEmpty_map, hnext,
      nextIndex_startAt, hrest waiting]
    cases waiting.isEmpty && isOperator symbols (previousChar side met rest) c <;> rfl

/-- A walk over the bytes keeps step with a walk over the text. -/
theorem walk_spell (hs : ∀ s ∈ symbols, s.toNat < 128) (hw : walkOrder side text = done ++ rest)
    (waiting : List Place) {met met' : Option Char}
    (hmet : met'.any endsOperand = met.any endsOperand) :
    walk side symbols (waiting.map (Place.move (byteIndex text)))
        (startAt side Text.byteSize done rest) met' (spellOrder side rest) =
      moved (byteIndex text)
        (walk side symbols waiting (startAt side List.length done rest) met rest) := by
  induction rest generalizing done waiting met met' with
  | nil =>
    have hnil : spellOrder side [] = [] := by cases side <;> rfl
    rw [hnil, walk, walk, List.getLast?_map]
    cases waiting.getLast? <;> rfl
  | cons c rest ih =>
    have hw' : walkOrder side text = (done ++ [c]) ++ rest := by rw [hw, List.append_assoc]; rfl
    rcases spell_cases c with hc | ⟨hwide, -, hall⟩
    · exact walk_spell_byte hw hc waiting hmet fun waiting => ih hw' waiting rfl
    · -- several bytes, which both walks pass over
      have hskip : walk side symbols waiting (startAt side List.length done (c :: rest)) met
          (c :: rest) =
          walk side symbols waiting (startAt side List.length (done ++ [c]) rest) (some c) rest := by
        have hn : c ∉ symbols := fun hm => hwide.ne (hs c hm) rfl
        rw [walk_skip hwide.isParen (by simp [isOperator, hn]), nextIndex_startAt]
      obtain ⟨last, hlast, hbytes⟩ := walk_spell_wide hs hall
        (waiting.map (Place.move (byteIndex text))) done rest met' (spellOrder side rest)
      rw [spellOrder_cons, hbytes, hskip]
      exact ih hw' waiting (hlast.trans hwide.endsOperand.symm)

end

theorem find_spell (side : Side) {symbols : List Char} (hs : ∀ s ∈ symbols, s.toNat < 128)
    (text : List Char) :
    find side symbols (spell text) = moved (byteIndex text) (find side symbols text) := by
  have hw : walkOrder side text = [] ++ walkOrder side text := rfl
  have hnone : (none : Option Char).any endsOperand = (none : Option Char).any endsOperand := rfl
  have h := walk_spell hs hw [] hnone
  have horder : spellOrder side (walkOrder side text) = walkOrder side (spell text) := by
    cases side with
    | left => rfl
    | right => exact congrArg (fun t => (spell t).reverse) (List.reverse_reverse text)
  have hbytes : startAt side Text.byteSize [] (walkOrder side text) =
      firstIndex side (spell text) := by
    cases side with
    | left => rfl
    | right => rw [startAt, firstIndex, length_spell, walkOrder, byteSize_reverse]
  have hchars : startAt side List.length [] (walkOrder side text) = firstIndex side text := by
    cases side with
    | left => rfl
    | right => rw [startAt, firstIndex, walkOrder, List.length_reverse]
  rw [horder, hbytes, hchars] at h
  exact h

theorem partnerFrom_wide {junk : List Char} (hj : ∀ d ∈ junk, Wide d) (index depth : Nat)
    (rest : List Char) :
    partnerFrom index depth (junk ++ rest) = partnerFrom (index + junk.length) depth rest := by
  induction junk generalizing index with
  | nil => rfl
  | cons d junk ih =>
    rw [List.cons_append, partnerFrom_skip (hj d List.mem_cons_self).isParen,
      ih fun e he => hj e (List.mem_cons_of_mem _ he), List.length_cons]
    congr 1
    omega

theorem partnerFrom_spell {text done rest : List Char} (ht : text = done ++ rest) (depth : Nat) :
    partnerFrom (Text.byteSize done) depth (spell rest) =
      (partnerFrom done.length depth rest).map (byteIndex text) := by
  induction rest generalizing done depth with
  | nil => rfl
  | cons c rest ih =>
    have ht' : text = (done ++ [c]) ++ rest := by rw [ht, List.append_assoc]; rfl
    have hlen : (done ++ [c]).length = done.length + 1 := by simp
    have hsize : Text.byteSize (done ++ [c]) = Text.byteSize done + c.utf8Size := by simp
    have hgo := fun depth => ih ht' depth
    rw [hlen, hsize] at hgo
    have hspell : spell (c :: rest) = spell [c] ++ spell rest := spell_append [c] rest
    rw [hspell]
    rcases spell_cases c with hc | ⟨hwide, -, hall⟩
    · rw [hc, List.singleton_append]
      have hone := utf8Size_of_spell hc
      rw [hone] at hgo
      by_cases hp : isParen c = true
      · rcases paren_cases .left hp with rfl | rfl
        · rw [firstParen, partnerFrom_open, partnerFrom_open]
          exact hgo _
        · rw [lastParen]
          rcases depth with _ | _ | depth
          · rfl
          · rw [partnerFrom_last, partnerFrom_last, ht]
            exact congrArg some (byteIndex_left done (')' :: rest)).symm
          · rw [partnerFrom_close, partnerFrom_close]
            exact hgo _
      · have hp : isParen c = false := by simpa using hp
        rw [partnerFrom_skip hp, partnerFrom_skip hp]
        exact hgo _
    · have hbytes : (spell [c]).length = c.utf8Size := by simp [length_spell]
      rw [partnerFrom_wide hall, hbytes, partnerFrom_skip hwide.isParen]
      exact hgo _

theorem partner_spell (text : List Char) :
    partner (spell text) = (partner text).map (byteIndex text) := by
  have ht : text = [] ++ text := rfl
  exact partnerFrom_spell ht 0

end Fluxion.Scan
