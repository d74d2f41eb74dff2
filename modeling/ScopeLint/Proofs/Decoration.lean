import ScopeLint.Failure
import ScopeLint.Text.Escape

/-!
# Colors are decoration

Styles add escape sequences to a text and do nothing else: without its
sequences a text with colors is the same as the text without colors.  Names may
hold escape characters and unfinished sequences, so what matters is what stands
after them.  Everywhere it is the end of the text, a line break or the escape
character of a style, and no sequence goes on over one of these.
-/

namespace ScopeLint

namespace Text

/-- A character with which no sequence goes on. -/
def isInert (c : Char) : Bool :=
  !isParameter c && !isIntermediate c && !isFinal c

/-- Whether no sequence goes on into a text. -/
def startsInert (text : List Char) : Bool := text.head?.all isInert

theorem isInert_iff {c : Char} :
    isInert c = true ↔
      isParameter c = false ∧ isIntermediate c = false ∧ isFinal c = false := by
  simp [isInert, and_assoc]

theorem isFinal_of_isShortFinal {c : Char} (short : isShortFinal c = true) :
    isFinal c = true := by
  simp only [isShortFinal, isFinal, Bool.or_eq_true, Bool.and_eq_true,
    decide_eq_true_eq] at *
  rcases short with ⟨low, high⟩ | ⟨low, high⟩
  · exact ⟨low, Char.le_trans high (by decide)⟩
  · exact ⟨Char.le_trans (by decide) low, Char.le_trans high (by decide)⟩

section Append

variable {text rest : List Char}

theorem takeWhile_append_of_startsInert {p : Char → Bool}
    (stops : ∀ c, isInert c → p c = false) (inert : startsInert rest) :
    (text ++ rest).takeWhile p = text.takeWhile p := by
  induction text with
  | nil =>
      cases rest with
      | nil => rfl
      | cons c rest => simp [stops c inert]
  | cons c text induction =>
      simp only [List.cons_append, List.takeWhile_cons, induction]

theorem dropWhile_append_of_startsInert {p : Char → Bool}
    (stops : ∀ c, isInert c → p c = false) (inert : startsInert rest) :
    (text ++ rest).dropWhile p = text.dropWhile p ++ rest := by
  induction text with
  | nil =>
      cases rest with
      | nil => rfl
      | cons c rest => simp [stops c inert]
  | cons c text induction =>
      simp only [List.cons_append, List.dropWhile_cons, induction]
      split <;> rfl

theorem controlLength?_append (inert : startsInert rest) :
    controlLength? (text ++ rest) = controlLength? text := by
  have noParameter :=
    fun c (inertChar : isInert c) => (isInert_iff.mp inertChar).1
  have noIntermediate :=
    fun c (inertChar : isInert c) => (isInert_iff.mp inertChar).2.1
  simp only [controlLength?, takeWhile_append_of_startsInert noParameter inert,
    dropWhile_append_of_startsInert noParameter inert,
    takeWhile_append_of_startsInert noIntermediate inert,
    dropWhile_append_of_startsInert noIntermediate inert]
  cases (text.dropWhile isParameter).dropWhile isIntermediate with
  | cons c later => rfl
  | nil =>
      cases rest with
      | nil => rfl
      | cons c rest =>
          have noFinal : isFinal c = false := (isInert_iff.mp inert).2.2
          simp [noFinal]

/-- Whether a sequence starts a text, and which, does not depend on what stands
after the text. -/
theorem sequenceLength?_append (inert : startsInert rest) (c : Char) :
    sequenceLength? (c :: text ++ rest) = sequenceLength? (c :: text) := by
  cases text with
  | cons next text =>
      simp only [List.cons_append, sequenceLength?, controlLength?_append inert]
  | nil =>
      cases rest with
      | nil => rfl
      | cons next rest =>
          have noFinal : isFinal next = false := (isInert_iff.mp inert).2.2
          have noBracket : next ≠ '[' := by
            rintro rfl
            cases noFinal
          have noShort : isShortFinal next = false := by
            rw [Bool.eq_false_iff]
            intro short
            rw [isFinal_of_isShortFinal short] at noFinal
            cases noFinal
          simp [sequenceLength?, noBracket, noShort]

theorem controlLength?_le {length : Nat}
    (found : controlLength? text = some length) :
    length ≤ text.length := by
  have parameters : (text.takeWhile isParameter).length +
      (text.dropWhile isParameter).length =
      text.length := by
    rw [← List.length_append, List.takeWhile_append_dropWhile]
  have intermediates :
      ((text.dropWhile isParameter).takeWhile isIntermediate).length +
      ((text.dropWhile isParameter).dropWhile isIntermediate).length =
      (text.dropWhile isParameter).length := by
    rw [← List.length_append, List.takeWhile_append_dropWhile]
  simp only [controlLength?] at found
  split at found
  · rename_i c later laterEq
    rw [laterEq, List.length_cons] at intermediates
    split at found
    · cases found
      omega
    · cases found
  · cases found

theorem sequenceLength?_le {length : Nat}
    (found : sequenceLength? text = some length) :
    length ≤ text.length := by
  unfold sequenceLength? at found
  split at found
  · rename_i c next text
    split at found
    · cases found
    · split at found
      · obtain ⟨inner, innerFound, rfl⟩ := Option.map_eq_some_iff.mp found
        have bound := controlLength?_le innerFound
        simp only [List.length_cons]
        omega
      · split at found
        · cases found
          simp
        · cases found
  · cases found

theorem stripAfter_append (inert : startsInert rest) {skip : Nat}
    (inside : skip ≤ text.length) :
    stripAfter skip (text ++ rest) =
      stripAfter skip text ++ stripAfter 0 rest := by
  induction text generalizing skip with
  | nil =>
      rw [Nat.le_zero.mp inside]
      cases rest <;> rfl
  | cons c text induction =>
      cases skip with
      | succ skip => exact induction (Nat.le_of_succ_le_succ inside)
      | zero =>
          have same : sequenceLength? (c :: (text ++ rest)) =
              sequenceLength? (c :: text) :=
            sequenceLength?_append inert c
          simp only [List.cons_append, stripAfter, same]
          cases found : sequenceLength? (c :: text) with
          | none => simp only [induction (Nat.zero_le _), List.cons_append]
          | some length =>
              -- A sequence that starts in the text ends in it too.
              have bound := sequenceLength?_le found
              rw [List.length_cons] at bound
              exact induction (by omega)

theorem stripAfter_append_of_unescaped (unescaped : escape ∉ text) :
    stripAfter 0 (text ++ rest) = text ++ stripAfter 0 rest := by
  induction text with
  | nil => rfl
  | cons c text induction =>
      rw [List.mem_cons, not_or] at unescaped
      have noSequence : sequenceLength? (c :: (text ++ rest)) = none := by
        unfold sequenceLength?
        split
        · rename_i _ _ _ equal
          obtain ⟨rfl, _⟩ := List.cons.inj equal
          rw [if_pos (Ne.symm unescaped.1)]
        · rfl
      simp only [List.cons_append, stripAfter, noSequence,
        induction unescaped.2]

end Append

/-- A text may be stripped part by part where the second part begins with the
escape of a style or with a line break, or is empty. -/
theorem stripped_append {text rest : String} (inert : startsInert rest.toList) :
    stripped (text ++ rest) = stripped text ++ stripped rest := by
  rw [stripped, String.toList_append, stripAfter_append inert (Nat.zero_le _),
    String.ofList_append, stripped, stripped]

theorem stripped_append_of_unescaped {text rest : String}
    (unescaped : escape ∉ text.toList) :
    stripped (text ++ rest) = text ++ stripped rest := by
  rw [stripped, String.toList_append, stripAfter_append_of_unescaped unescaped,
    String.ofList_append, String.ofList_toList, stripped]

theorem stripped_sequence_append (style : Style) (rest : String) :
    stripped (style.sequence ++ rest) = stripped rest := by
  have skipped : stripAfter 0 (style.sequence.toList ++ rest.toList) =
      stripAfter 0 rest.toList := by
    cases style <;> rfl
  rw [stripped, String.toList_append, skipped, stripped]

theorem stripped_sequences_append (styles : List Style) (rest : String) :
    stripped (String.join (styles.map Style.sequence) ++ rest) =
      stripped rest := by
  induction styles with
  | nil => simp
  | cons style styles induction =>
      rw [List.map_cons, String.join_cons, String.append_assoc,
        stripped_sequence_append, induction]

/-- Painting a text without escapes does not change how it is stripped, whatever
stands after it. -/
theorem stripped_paint_append_of_unescaped (colors : Bool) (styles : List Style)
    {text : String} (unescaped : escape ∉ text.toList) (rest : String) :
    stripped (paint colors styles text ++ rest) = text ++ stripped rest := by
  rw [paint]
  split
  · rw [String.append_assoc, String.append_assoc, stripped_sequences_append,
      stripped_append_of_unescaped unescaped, stripped_sequence_append]
  · exact stripped_append_of_unescaped unescaped

/-- Whatever a text holds, painting it does not change how it is stripped: no
sequence goes on into the one that ends the styles. -/
theorem stripped_paint (colors : Bool) (styles : List Style) (text : String) :
    stripped (paint colors styles text) = stripped text := by
  have inert : startsInert Style.reset.sequence.toList := rfl
  have gone : stripped Style.reset.sequence = "" := rfl
  rw [paint]
  split
  · rw [String.append_assoc, stripped_sequences_append, stripped_append inert,
      gone, String.append_empty]
  · rfl

/-- Lines may be stripped one by one. -/
theorem stripped_lines (lines : List String) :
    stripped ("\n".intercalate lines) =
      "\n".intercalate (lines.map stripped) := by
  induction lines with
  | nil => rfl
  | cons line lines induction =>
      cases lines with
      | nil => simp
      | cons next lines =>
          have inert : startsInert
              ("\n" ++ "\n".intercalate (next :: lines)).toList := by
            rw [String.toList_append]
            rfl
          have unescaped : escape ∉ "\n".toList := by decide
          rw [String.intercalate_cons_cons, String.append_assoc,
            stripped_append inert, stripped_append_of_unescaped unescaped,
            induction]
          simp only [List.map_cons, String.intercalate_cons_cons,
            String.append_assoc]

end Text

theorem Code.unescaped_text (code : Code) : Text.escape ∉ code.text.toList := by
  cases code <;> decide

theorem stripped_header (colors warning : Bool) (code : Code)
    (message : String) :
    Text.stripped (Text.header colors warning (some code.text) message) =
      code.text ++ ": " ++ Text.stripped message := by
  have named : code.text.isEmpty = false := by cases code <;> rfl
  have unescaped : Text.escape ∉ ": ".toList := by decide
  have painted : ∀ styles,
      Text.stripped (Text.paint colors styles code.text ++ ": " ++ message) =
      code.text ++ ": " ++ Text.stripped message := by
    intro styles
    rw [String.append_assoc,
      Text.stripped_paint_append_of_unescaped colors styles code.unescaped_text,
      Text.stripped_append_of_unescaped unescaped, String.append_assoc]
  rw [Text.header, named]
  cases warning with
  | true => exact painted _
  | false => exact painted _

/-- A finding without its escape sequences, whether or not it has colors. -/
theorem Diagnostic.stripped_format (colors : Bool) (d : Diagnostic) :
    Text.stripped (d.format colors) =
      d.code.text ++ ": " ++ Text.stripped d.message ++ "\n  --> " ++
        Text.stripped d.location := by
  have below : Text.stripped ("\n  " ++
      (Text.paintDim colors "-->" ++
        (" " ++ Text.paintLocation colors d.location))) =
      "\n  " ++ ("-->" ++ (" " ++ Text.stripped d.location)) := by
    rw [Text.stripped_append_of_unescaped (by decide), Text.paintDim,
      Text.stripped_paint_append_of_unescaped colors _ (by decide),
      Text.stripped_append_of_unescaped (by decide), Text.paintLocation,
      Text.stripped_paint]
  rw [format]
  simp only [String.append_assoc]
  rw [Text.stripped_append, stripped_header, below]
  · simp only [String.append_assoc]
    rfl
  · rw [String.toList_append]
    rfl

namespace LintError

theorem stripped_headline (colors : Bool) (e : LintError) :
    Text.stripped (e.headline colors) = Text.stripped (e.headline false) := by
  simp only [headline]
  split
  · rfl
  · split
    · rfl
    · rw [stripped_header, stripped_header]

theorem stripped_compact (colors : Bool) (e : LintError) :
    Text.stripped (e.compact colors) = Text.stripped (e.compact false) := by
  cases e with
  | findings diagnostics template =>
      have formats :
          (diagnostics.map (Diagnostic.format colors)).map Text.stripped =
          (diagnostics.map (Diagnostic.format false)).map Text.stripped := by
        rw [List.map_map, List.map_map]
        apply List.map_congr_left
        intro d _
        exact (d.stripped_format colors).trans (d.stripped_format false).symm
      simp only [compact]
      rw [Text.stripped_lines, Text.stripped_lines, List.map_cons,
        List.map_cons, formats, stripped_headline colors]
  | general message code => exact stripped_headline colors _
  | badReply visitor hook got => exact stripped_headline colors _

end LintError

/-- Colors are decoration: findings, errors and painted texts differ from what
they are without colors in escape sequences only. -/
theorem stripped_eq_of_colors :
    (∀ d : Diagnostic,
      Text.stripped (d.format true) = Text.stripped (d.format false)) ∧
    (∀ e : LintError,
      Text.stripped (e.compact true) = Text.stripped (e.compact false)) ∧
    ∀ (names : List String) (text : String),
      Text.stripped (Text.paintNamed true names text) = Text.stripped text := by
  refine ⟨?_, LintError.stripped_compact true, ?_⟩
  · intro d
    rw [d.stripped_format, d.stripped_format]
  · intro names text
    exact Text.stripped_paint true _ text

end ScopeLint
