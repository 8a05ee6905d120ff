import Fluxion.CommandLine.Basic

/-!
# The lines of a script

Lines end in a newline, with or without a carriage return in front of it. What a script carries out
depends on its lines only up to blanks: blank lines can come and go, and blanks around a line too.
-/

set_option autoImplicit false

namespace Fluxion

namespace Text

variable {text before behind : List Char}

def Blank (text : List Char) : Prop := ∀ c ∈ text, isBlank c = true

theorem blank_nil : Blank [] := fun _ h => absurd h List.not_mem_nil

theorem blank_return : Blank ['\r'] := by
  intro c hc
  rw [List.mem_singleton.1 hc]
  rfl

theorem trimStart_blank (h : Blank before) (text : List Char) :
    trimStart (before ++ text) = trimStart text :=
  List.dropWhile_append_of_pos h

theorem trimEnd_blank (h : Blank behind) (text : List Char) :
    trimEnd (text ++ behind) = trimEnd text := by
  have hr : Blank behind.reverse := fun c hc => h c (List.mem_reverse.1 hc)
  rw [trimEnd, List.reverse_append, List.dropWhile_append_of_pos hr]
  rfl

theorem trimStart_of_blank (h : Blank text) : trimStart text = [] := by
  have hs := trimStart_blank h []
  rwa [List.append_nil] at hs

theorem trim_of_blank (h : Blank text) : trim text = [] := by
  rw [trim, trimStart_of_blank h]
  rfl

theorem trim_around (hbefore : Blank before) (hbehind : Blank behind) (text : List Char) :
    trim (before ++ text ++ behind) = trim text := by
  rw [trim, List.append_assoc, trimStart_blank hbefore]
  induction text with
  | nil => rw [List.nil_append, trimStart_of_blank hbehind]; rfl
  | cons c text ih =>
    rw [List.cons_append, trim, trimStart, trimStart]
    cases hc : isBlank c with
    | true =>
      rw [List.dropWhile_cons_of_pos hc, List.dropWhile_cons_of_pos hc]
      exact ih
    | false =>
      have hc' : ¬ isBlank c = true := by simp [hc]
      rw [List.dropWhile_cons_of_neg hc', List.dropWhile_cons_of_neg hc', ← List.cons_append]
      exact trimEnd_blank hbehind _

theorem append_trim (text : List Char) :
    ∃ behind, Blank behind ∧ text = text.takeWhile isBlank ++ (trim text ++ behind) := by
  obtain ⟨behind, hbehind⟩ : ∃ behind,
      behind = ((trimStart text).reverse.takeWhile isBlank).reverse := ⟨_, rfl⟩
  have hback : trimStart text = trim text ++ behind := by
    rw [trim, trimEnd, hbehind, ← List.reverse_append, List.takeWhile_append_dropWhile,
      List.reverse_reverse]
  refine ⟨behind, ?_, ?_⟩
  · intro c hc
    rw [hbehind, List.mem_reverse] at hc
    exact List.all_eq_true.1 List.all_takeWhile c hc
  · rw [← hback]
    exact List.takeWhile_append_dropWhile.symm

theorem head_trim {text : List Char} (h : trim text ≠ []) :
    ∃ c rest, trim text = c :: rest ∧ isBlank c = false := by
  obtain ⟨c, rest, hc⟩ := List.exists_cons_of_ne_nil h
  refine ⟨c, rest, hc, ?_⟩
  obtain ⟨behind, -, htext⟩ := append_trim text
  -- the first character that is kept is where the blanks in front end
  have hstart : text.dropWhile isBlank = c :: (rest ++ behind) := by
    have hsplit := htext.symm.trans (List.takeWhile_append_dropWhile (p := isBlank)).symm
    rw [hc] at hsplit
    exact (List.append_cancel_left hsplit).symm
  have hne : text.dropWhile isBlank ≠ [] := hstart ▸ List.cons_ne_nil _ _
  have hnot := List.head_dropWhile_not isBlank hne
  simpa [hstart] using hnot

end Text

namespace Session

/-- The lines of a text. The last one may lack its newline. -/
def textLines : List Char → List (List Char)
  | [] => []
  | '\n' :: rest => [] :: textLines rest
  | '\r' :: '\n' :: rest => [] :: textLines rest
  | c :: rest =>
    match textLines rest with
    | [] => [[c]]
    | line :: lines => (c :: line) :: lines

/-- Two scripts that differ in blank lines, and in blanks that the second one adds around lines. -/
inductive Respaced : List (List Char) → List (List Char) → Prop
  | nil : Respaced [] []
  | line {line before behind : List Char} {lines others : List (List Char)}
      (hbefore : Text.Blank before) (hbehind : Text.Blank behind) (h : Respaced lines others) :
      Respaced (line :: lines) ((before ++ line ++ behind) :: others)
  | inserted {line : List Char} {lines others : List (List Char)} (hline : Text.Blank line)
      (h : Respaced lines others) : Respaced lines (line :: others)
  | deleted {line : List Char} {lines others : List (List Char)} (hline : Text.Blank line)
      (h : Respaced lines others) : Respaced (line :: lines) others

def tidy (lines : List (List Char)) : List (List Char) :=
  (lines.map Text.trim).filter fun line => !line.isEmpty

theorem tidy_cons (line : List Char) (lines : List (List Char)) :
    tidy (line :: lines) = if Text.trim line = [] then tidy lines
      else Text.trim line :: tidy lines := by
  by_cases h : Text.trim line = [] <;> simp [tidy, h]

theorem Respaced.tidy_eq {lines others : List (List Char)} (h : Respaced lines others) :
    tidy others = tidy lines := by
  induction h with
  | nil => rfl
  | line hbefore hbehind _ ih => rw [tidy_cons, tidy_cons, Text.trim_around hbefore hbehind, ih]
  | inserted hline _ ih => rw [tidy_cons, if_pos (Text.trim_of_blank hline), ih]
  | deleted hline _ ih => rw [tidy_cons, if_pos (Text.trim_of_blank hline), ih]

/-- The lines of a text and the pieces between its newlines. Behind the last newline is one more
piece, and behind the first line there may be a carriage return. -/
inductive Pieces : List (List Char) → List (List Char) → Prop
  | nothing : Pieces [] [[]]
  | line {line behind : List Char} {lines pieces : List (List Char)}
      (hbehind : Text.Blank behind) (h : Respaced lines pieces) :
      Pieces (line :: lines) ((line ++ behind) :: pieces)

theorem Pieces.respaced {lines pieces : List (List Char)} (h : Pieces lines pieces) :
    Respaced lines pieces := by
  cases h with
  | nothing => exact .inserted Text.blank_nil .nil
  | line hbehind h => exact .line Text.blank_nil hbehind h

theorem splitLines_cons {c : Char} (hc : c ≠ '\n') {rest piece : List Char}
    {pieces : List (List Char)} (h : splitLines rest = piece :: pieces) :
    splitLines (c :: rest) = (c :: piece) :: pieces := by
  have hcons : splitLines (c :: rest) =
      if c = '\n' then [] :: splitLines rest
      else
        match splitLines rest with
        | [] => [[c]]
        | piece :: pieces => (c :: piece) :: pieces := rfl
  rw [hcons, if_neg hc, h]

theorem pieces_splitLines (text : List Char) : Pieces (textLines text) (splitLines text) := by
  fun_induction textLines text with
  | case1 => exact .nothing
  | case2 rest ih => exact .line Text.blank_nil ih.respaced
  | case3 rest ih => exact .line Text.blank_return ih.respaced
  -- the character lengthens the first piece as it does the first line, which may begin here
  | case4 c rest hc _ hlines ih =>
    rw [hlines] at ih
    generalize hpieces : splitLines rest = pieces at ih
    cases ih with
    | nothing =>
      rw [splitLines_cons hc hpieces]
      exact .line Text.blank_nil .nil
  | case5 c rest hc _ line lines hlines ih =>
    rw [hlines] at ih
    generalize hpieces : splitLines rest = pieces at ih
    cases ih with
    | line hbehind h =>
      rw [splitLines_cons hc hpieces]
      exact .line hbehind h

theorem scriptLines_eq (text : List Char) : scriptLines text = tidy (textLines text) :=
  (pieces_splitLines text).respaced.tidy_eq

example : scriptLines " x\r\n\n:tree".toList = ["x".toList, ":tree".toList] := by decide

theorem newline_not_mem_textLines (text : List Char) : ∀ line ∈ textLines text, '\n' ∉ line := by
  fun_induction textLines text with
  | case1 => simp
  | case2 rest ih => simpa using ih
  | case3 rest ih => simpa using ih
  | case4 c rest hc _ hlines ih => simpa using Ne.symm hc
  | case5 c rest hc _ line lines hlines ih =>
    rw [hlines] at ih
    simpa [Ne.symm hc] using ih

theorem textLines_cons {c : Char} {rest line : List Char} {lines : List (List Char)}
    (hc : c ≠ '\n') (hrest : c = '\r' → rest.head? ≠ some '\n')
    (h : textLines rest = line :: lines) : textLines (c :: rest) = (c :: line) :: lines := by
  rw [textLines, h]
  · exact hc
  · rintro rest' hc rfl
    exact hrest hc rfl

theorem textLines_append {line : List Char} (h : '\n' ∉ line) (rest : List Char) :
    textLines (line ++ '\r' :: '\n' :: rest) = line :: textLines rest := by
  induction line with
  | nil => rfl
  | cons c line ih =>
    have hc : c ≠ '\n' := fun hc => h (hc ▸ List.mem_cons_self)
    have hline : '\n' ∉ line := fun hline => h (List.mem_cons_of_mem _ hline)
    refine textLines_cons hc ?_ (ih hline)
    intro _ hnewline
    cases line with
    | nil => cases hnewline
    | cons d line => exact hline (Option.some.inj hnewline ▸ List.mem_cons_self)

theorem exists_textLines {lines : List (List Char)} (h : ∀ line ∈ lines, '\n' ∉ line) :
    ∃ text : String, textLines text.toList = lines := by
  induction lines with
  | nil => exact ⟨"", rfl⟩
  | cons line lines ih =>
    obtain ⟨hline, hlines⟩ := List.forall_mem_cons.1 h
    obtain ⟨text, htext⟩ := ih hlines
    refine ⟨String.ofList (line ++ '\r' :: '\n' :: text.toList), ?_⟩
    rw [String.toList_ofList, textLines_append hline, htext]

end Session

end Fluxion
