import Fluxion.Proofs.Session.Lines
import Fluxion.Proofs.Session.Moves

/-!
# The words of a line

A line that starts with a colon is a name up to the first blank, and perhaps an argument between
blanks; both keep their places in the line. Every other line is one formula.
-/

set_option autoImplicit false

namespace Fluxion.Session

def commandNames : List (List Char) :=
  [":eval".toList, ":diff".toList, ":tree".toList, ":help".toList]

def namePhrase (line : List Char) : Phrase :=
  ⟨commandName line, Text.Span.whole (commandName line)⟩

def argumentPhrase (line : List Char) : Option Phrase :=
  argument? (Text.byteSize (commandName line)) (line.dropWhile fun c => !Text.isBlank c)

/-- The place of the argument; right behind the name, if there is none. -/
def argumentSpan (line : List Char) : Text.Span :=
  (argumentPhrase line).elim ⟨(namePhrase line).span.stop, (namePhrase line).span.stop⟩ Phrase.span

/-- The span covers these words of a line, behind those in front of them. -/
structure Covers (line : List Char) (span : Text.Span) (front words : List Char) : Prop where
  within : ∃ behind, line = front ++ (words ++ behind)
  place : span = ⟨Text.byteSize front, Text.byteSize front + Text.byteSize words⟩

section
variable {line : List Char}

theorem name_append (line : List Char) :
    commandName line ++ line.dropWhile (fun c => !Text.isBlank c) = line :=
  List.takeWhile_append_dropWhile

theorem argumentPhrase_absent (h : commandArgument line = []) : argumentPhrase line = none :=
  if_pos (List.isEmpty_iff.2 h)

theorem argumentPhrase_present (h : commandArgument line ≠ []) :
    argumentPhrase line = some ⟨commandArgument line, argumentSpan line⟩ := by
  have hsome : argumentPhrase line = some _ := if_neg fun hempty => h (List.isEmpty_iff.1 hempty)
  rw [argumentSpan, hsome]
  rfl

theorem exists_gap (line : List Char) :
    ∃ gap behind, Text.Blank gap ∧ Text.Blank behind ∧
      line = commandName line ++ gap ++ (commandArgument line ++ behind) := by
  obtain ⟨behind, hbehind, hrest⟩ := Text.append_trim (line.dropWhile fun c => !Text.isBlank c)
  have hline := (name_append line).symm
  rw [hrest, ← List.append_assoc] at hline
  exact ⟨_, behind, List.all_eq_true.1 List.all_takeWhile, hbehind, hline⟩

theorem covers_name (line : List Char) :
    Covers line (namePhrase line).span [] (commandName line) :=
  ⟨⟨_, (name_append line).symm⟩, by simp [namePhrase, Text.Span.whole]⟩

theorem covers_absent (h : commandArgument line = []) :
    Covers line (argumentSpan line) (commandName line) [] := by
  refine ⟨⟨_, (name_append line).symm⟩, ?_⟩
  rw [argumentSpan, argumentPhrase_absent h]
  simp [namePhrase, Text.Span.whole]

theorem covers_argument {gap behind : List Char} (h : commandArgument line ≠ [])
    (hgap : Text.Blank gap)
    (hline : line = commandName line ++ gap ++ (commandArgument line ++ behind)) :
    Covers line (argumentSpan line) (commandName line ++ gap) (commandArgument line) := by
  refine ⟨⟨behind, hline⟩, ?_⟩
  have hrest : line.dropWhile (fun c => !Text.isBlank c) =
      gap ++ (commandArgument line ++ behind) := by
    rw [List.append_assoc] at hline
    exact List.append_cancel_left ((name_append line).trans hline)
  obtain ⟨c, rest, hargument, hc⟩ := Text.head_trim h
  have hspaces : (line.dropWhile fun c => !Text.isBlank c).takeWhile Text.isBlank = gap := by
    have hhead : commandArgument line = c :: rest := hargument
    rw [hrest, hhead, List.takeWhile_append_of_pos hgap, List.cons_append,
      List.takeWhile_cons_of_neg (by simp [hc]), List.append_nil]
  have hsome : argumentPhrase line = some _ := if_neg fun hempty => h (List.isEmpty_iff.1 hempty)
  rw [argumentSpan, hsome, hspaces, Text.byteSize_append]
  rfl

theorem commandNamed?_eq_none_iff {name text : List Char} :
    commandNamed? name text = none ↔ name ∉ commandNames := by
  simp only [commandNames, List.mem_cons, List.not_mem_nil, or_false, not_or]
  rw [commandNamed?]
  split
  · next h => exact iff_of_false nofun fun hn => hn.1 h
  split
  · next h => exact iff_of_false nofun fun hn => hn.2.1 h
  split
  · next h => exact iff_of_false nofun fun hn => hn.2.2.1 h
  split
  · next h => exact iff_of_false nofun fun hn => hn.2.2.2 h
  · next heval hdiff htree hhelp => exact iff_of_true rfl ⟨heval, hdiff, htree, hhelp⟩

theorem Line.ofText_formula (h : line.head? ≠ some ':') :
    Line.ofText line = .ok ⟨.formula line, ⟨line, Text.Span.whole line⟩, none⟩ :=
  if_neg h

theorem Line.ofText_command (h : line.head? = some ':') :
    Line.ofText line =
      match commandNamed? (commandName line) (commandArgument line) with
      | some command => .ok ⟨command, namePhrase line, argumentPhrase line⟩
      | none => .error ⟨.unknownCommand (commandName line), (namePhrase line).span⟩ := by
  rw [Line.ofText, if_pos h]
  dsimp only
  rw [argument?_text]
  rfl

theorem Line.ofText_named {command : Command}
    (h : commandNamed? (commandName line) (commandArgument line) = some command) :
    Line.ofText line = .ok ⟨command, namePhrase line, argumentPhrase line⟩ := by
  have hhead : line.head? = some ':' := by
    rcases commandNamed?_some h with ⟨hname, -⟩ | ⟨hname, -⟩ | ⟨hname, -⟩ | ⟨hname, -⟩ <;>
      exact head_of_commandName hname
  rw [Line.ofText_command hhead, h]

end

end Fluxion.Session
