import ScopeLint.Proofs.Decoration

/-!
# The sequences of a text

The grammar of escape sequences is unambiguous: of two sequences that start at
one place of a text neither can be longer, and no sequence starts inside
another, since an escape character only ever stands first.  So it makes sense to
speak of the characters that the sequences of a text cover, and stripping the
text removes these and no others.
-/

namespace ScopeLint.Text

/-- The grammar of escape sequences. -/
inductive IsSequence : List Char → Prop where
  | short {letter : Char}
      (isLetter : '@' ≤ letter ∧ letter ≤ 'Z' ∨
        '\x5c' ≤ letter ∧ letter ≤ '_') :
      IsSequence [escape, letter]
  | control {parameters intermediates : List Char} {final : Char}
      (areParameters : ∀ c ∈ parameters, '0' ≤ c ∧ c ≤ '?')
      (areIntermediates : ∀ c ∈ intermediates, ' ' ≤ c ∧ c ≤ '/')
      (isFinal : '@' ≤ final ∧ final ≤ '~') :
      IsSequence (escape :: '[' :: (parameters ++ intermediates ++ [final]))

/-- A sequence stands at a place of a text. -/
structure SequenceAt (text : List Char) (place : Nat) (sequence : List Char) :
    Prop where
  isSequence : IsSequence sequence
  stands : sequence <+: text.drop place

/-- The character at a place belongs to a sequence of the text. -/
def Covered (text : List Char) (place : Nat) : Prop :=
  ∃ start sequence, SequenceAt text start sequence ∧ start ≤ place ∧
    place < start + sequence.length

/-! ## Characters -/

theorem isShortFinal_iff {c : Char} :
    isShortFinal c = true ↔ '@' ≤ c ∧ c ≤ 'Z' ∨ '\x5c' ≤ c ∧ c ≤ '_' := by
  simp [isShortFinal]

theorem isParameter_iff {c : Char} :
    isParameter c = true ↔ '0' ≤ c ∧ c ≤ '?' := by
  simp [isParameter]

theorem isIntermediate_iff {c : Char} :
    isIntermediate c = true ↔ ' ' ≤ c ∧ c ≤ '/' := by
  simp [isIntermediate]

theorem isFinal_iff {c : Char} : isFinal c = true ↔ '@' ≤ c ∧ c ≤ '~' := by
  simp [isFinal]

theorem not_le_of_gap {c low high : Char} (below : c ≤ high)
    (gap : high < low) : ¬low ≤ c := by
  intro above
  exact Char.not_le.mpr gap (Char.le_trans above below)

theorem isParameter_of_isIntermediate {c : Char}
    (isIntermediate : isIntermediate c = true) :
    isParameter c = false := by
  rw [Bool.eq_false_iff, Ne, isParameter_iff]
  rintro ⟨low, _⟩
  exact not_le_of_gap (isIntermediate_iff.mp isIntermediate).2 (by decide) low

theorem isParameter_of_isFinal {c : Char} (isFinal : isFinal c = true) :
    isParameter c = false := by
  rw [Bool.eq_false_iff, Ne, isParameter_iff]
  rintro ⟨_, high⟩
  exact not_le_of_gap high (by decide) (isFinal_iff.mp isFinal).1

theorem isIntermediate_of_isFinal {c : Char} (isFinal : isFinal c = true) :
    isIntermediate c = false := by
  rw [Bool.eq_false_iff, Ne, isIntermediate_iff]
  rintro ⟨_, high⟩
  exact not_le_of_gap high (by decide) (isFinal_iff.mp isFinal).1

theorem IsSequence.of_classes {parameters intermediates : List Char}
    {final : Char} (areParameters : ∀ c ∈ parameters, isParameter c = true)
    (areIntermediates : ∀ c ∈ intermediates, isIntermediate c = true)
    (isLast : isFinal final = true) :
    IsSequence (escape :: '[' :: (parameters ++ intermediates ++ [final])) := by
  apply IsSequence.control
  · exact fun c member => isParameter_iff.mp (areParameters c member)
  · exact fun c member => isIntermediate_iff.mp (areIntermediates c member)
  · exact isFinal_iff.mp isLast

/-! ## Reading a sequence -/

section Reading

variable {sequence other rest text : List Char}

theorem takeWhile_of_run {p : Char → Bool} {run rest : List Char}
    (inRun : ∀ c ∈ run, p c = true) (ends : ∀ c ∈ rest.head?, p c = false) :
    (run ++ rest).takeWhile p = run ∧ (run ++ rest).dropWhile p = rest := by
  rw [List.takeWhile_append_of_pos inRun, List.dropWhile_append_of_pos inRun]
  cases rest with
  | nil => simp
  | cons c rest => simp [ends c rfl]

theorem controlLength?_of_parts {parameters intermediates : List Char}
    {final : Char} (areParameters : ∀ c ∈ parameters, isParameter c = true)
    (areIntermediates : ∀ c ∈ intermediates, isIntermediate c = true)
    (isLast : isFinal final = true) (rest : List Char) :
    controlLength? (parameters ++ (intermediates ++ final :: rest)) =
      some (parameters.length + intermediates.length + 1) := by
  have endsParameters : ∀ c ∈ (intermediates ++ final :: rest).head?,
      isParameter c = false := by
    intro c first
    cases intermediates with
    | nil =>
        cases first
        exact isParameter_of_isFinal isLast
    | cons intermediate others =>
        cases first
        exact isParameter_of_isIntermediate
          (areIntermediates _ List.mem_cons_self)
  have endsIntermediates : ∀ c ∈ (final :: rest).head?,
      isIntermediate c = false := by
    rintro c ⟨⟩
    exact isIntermediate_of_isFinal isLast
  obtain ⟨taken, dropped⟩ := takeWhile_of_run areParameters endsParameters
  obtain ⟨takenNext, droppedNext⟩ :=
    takeWhile_of_run areIntermediates endsIntermediates
  simp [controlLength?, taken, dropped, takenNext, droppedNext, isLast]

theorem parts_of_controlLength? {length : Nat}
    (found : controlLength? text = some length) :
    ∃ parameters intermediates final rest,
      text = parameters ++ (intermediates ++ final :: rest) ∧
      (∀ c ∈ parameters, isParameter c = true) ∧
      (∀ c ∈ intermediates, isIntermediate c = true) ∧
      isFinal final = true := by
  have split := List.takeWhile_append_dropWhile (p := isParameter) (l := text)
  have splitLater := List.takeWhile_append_dropWhile (p := isIntermediate)
    (l := text.dropWhile isParameter)
  simp only [controlLength?] at found
  split at found
  · rename_i final rest later
    split at found
    · rename_i isLast
      refine ⟨text.takeWhile isParameter,
        (text.dropWhile isParameter).takeWhile isIntermediate, final, rest, ?_,
        ?_, ?_, isLast⟩
      · rw [← later, splitLater, split]
      · exact List.all_eq_true.mp List.all_takeWhile
      · exact List.all_eq_true.mp List.all_takeWhile
    · cases found
  · cases found

/-- A sequence is read in full, whatever stands after it. -/
theorem IsSequence.sequenceLength? (isSequence : IsSequence sequence)
    (rest : List Char) :
    sequenceLength? (sequence ++ rest) = some sequence.length := by
  cases isSequence with
  | short isLetter =>
      have short := isShortFinal_iff.mpr isLetter
      have noBracket : ∀ c, isShortFinal c = true → c ≠ '[' := by
        rintro c short rfl
        cases short
      simp [Text.sequenceLength?, noBracket _ short, short]
  | control areParameters areIntermediates isLast =>
      have read := controlLength?_of_parts
        (fun c member => isParameter_iff.mpr (areParameters c member))
        (fun c member => isIntermediate_iff.mpr (areIntermediates c member))
        (isFinal_iff.mpr isLast) rest
      simp [Text.sequenceLength?, read, Nat.add_assoc]

theorem exists_sequence_of_sequenceLength? {length : Nat}
    (found : sequenceLength? text = some length) :
    ∃ sequence rest, IsSequence sequence ∧ text = sequence ++ rest := by
  unfold sequenceLength? at found
  split at found
  · rename_i first next later
    split at found
    · cases found
    · rename_i isEscape
      rw [Decidable.not_not.mp isEscape]
      split at found
      · rename_i isBracket
        obtain ⟨inner, innerFound, _⟩ := Option.map_eq_some_iff.mp found
        obtain ⟨parameters, intermediates, final, rest, rfl, areParameters,
          areIntermediates, isLast⟩ := parts_of_controlLength? innerFound
        refine ⟨_, rest, .of_classes areParameters areIntermediates isLast, ?_⟩
        simp [isBracket]
      · split at found
        · rename_i short
          exact ⟨[escape, next], later, .short (isShortFinal_iff.mp short), rfl⟩
        · cases found
  · cases found

/-- A text starts with at most one sequence, and `sequenceLength?` tells its
length. -/
theorem IsSequence.unique (isSequence : IsSequence sequence)
    (isOther : IsSequence other) (starts : sequence <+: text)
    (otherStarts : other <+: text) : sequence = other := by
  obtain ⟨rest, rfl⟩ := starts
  obtain ⟨otherRest, same⟩ := otherStarts
  have length := isSequence.sequenceLength? rest
  rw [← same, isOther.sequenceLength?] at length
  exact (List.append_inj same (Option.some.inj length)).1.symm

/-- An escape character stands nowhere in a sequence but at its start. -/
theorem IsSequence.shape (isSequence : IsSequence sequence) :
    ∃ c later, sequence = escape :: c :: later ∧ escape ∉ c :: later := by
  have outside : ∀ {low high : Char}, escape < low →
      ¬(low ≤ escape ∧ escape ≤ high) := by
    intro low high above within
    exact Char.not_le.mpr above within.1
  cases isSequence with
  | short isLetter =>
      refine ⟨_, [], rfl, ?_⟩
      intro member
      rw [← List.mem_singleton.mp member] at isLetter
      exact isLetter.elim (outside (by decide)) (outside (by decide))
  | control areParameters areIntermediates isLast =>
      refine ⟨_, _, rfl, ?_⟩
      intro member
      simp only [List.mem_cons, List.mem_append, List.not_mem_nil,
        or_false] at member
      rcases member with bracket | (parameter | intermediate) | last
      · exact absurd bracket (by decide)
      · exact outside (by decide) (areParameters _ parameter)
      · exact outside (by decide) (areIntermediates _ intermediate)
      · exact outside (by decide) (last ▸ isLast)

end Reading

/-! ## Sequences at places of a text -/

section Places

variable {text sequence other : List Char} {place start otherStart : Nat}

theorem SequenceAt.drop_iff {count : Nat} :
    SequenceAt (text.drop count) place sequence ↔
      SequenceAt text (count + place) sequence := by
  constructor
  · rintro ⟨isSequence, stands⟩
    exact ⟨isSequence, List.drop_drop ▸ stands⟩
  · rintro ⟨isSequence, stands⟩
    exact ⟨isSequence, List.drop_drop ▸ stands⟩

theorem SequenceAt.unique (first : SequenceAt text start sequence)
    (second : SequenceAt text start other) : sequence = other :=
  first.isSequence.unique second.isSequence first.stands second.stands

theorem SequenceAt.getElem?_start (found : SequenceAt text start sequence) :
    text[start]? = some escape := by
  obtain ⟨c, later, rfl, _⟩ := found.isSequence.shape
  obtain ⟨rest, text⟩ := found.stands
  rw [← List.head?_drop, ← text]
  rfl

theorem SequenceAt.getElem?_inside (found : SequenceAt text start sequence)
    {inside : Nat} (after : start < inside)
    (before : inside < start + sequence.length) :
    text[inside]? ≠ some escape := by
  obtain ⟨c, later, rfl, unescaped⟩ := found.isSequence.shape
  obtain ⟨rest, text⟩ := found.stands
  obtain ⟨offset, rfl⟩ := Nat.exists_eq_add_of_lt after
  have bound : offset < (c :: later).length := by
    simp only [List.length_cons] at before ⊢
    omega
  rw [Nat.add_assoc, ← List.getElem?_drop, ← text]
  simp only [List.cons_append, List.getElem?_cons_succ]
  rw [← List.cons_append, List.getElem?_append_left bound,
    List.getElem?_eq_getElem bound]
  intro same
  exact unescaped (Option.some.inj same ▸ List.getElem_mem bound)

/-- A sequence ends before the next one starts. -/
theorem SequenceAt.apart (first : SequenceAt text start sequence)
    (second : SequenceAt text otherStart other) (before : start < otherStart) :
    start + sequence.length ≤ otherStart := by
  apply Nat.le_of_not_lt
  intro overlaps
  exact first.getElem?_inside before overlaps second.getElem?_start

theorem sequenceLength?_drop_eq_some {length : Nat} :
    sequenceLength? (text.drop start) = some length ↔
      ∃ sequence, SequenceAt text start sequence ∧
        sequence.length = length := by
  constructor
  · intro found
    obtain ⟨sequence, rest, isSequence, split⟩ :=
      exists_sequence_of_sequenceLength? found
    rw [split, isSequence.sequenceLength?] at found
    exact ⟨sequence, ⟨isSequence, split ▸ List.prefix_append ..⟩,
      Option.some.inj found⟩
  · rintro ⟨sequence, ⟨isSequence, rest, split⟩, rfl⟩
    rw [← split]
    exact isSequence.sequenceLength? rest

theorem covered_iff :
    Covered text place ↔
      ∃ start ∈ List.range (place + 1),
        (sequenceLength? (text.drop start)).any
          (fun length => place < start + length) = true := by
  constructor
  · rintro ⟨start, sequence, found, low, high⟩
    refine ⟨start, List.mem_range.mpr (Nat.lt_succ_of_le low), ?_⟩
    rw [sequenceLength?_drop_eq_some.mpr ⟨sequence, found, rfl⟩]
    exact decide_eq_true high
  · rintro ⟨start, member, read⟩
    obtain ⟨length, found, high⟩ := (Option.any_eq_true ..).mp read
    obtain ⟨sequence, atStart, rfl⟩ := sequenceLength?_drop_eq_some.mp found
    exact ⟨start, sequence, atStart,
      Nat.le_of_lt_succ (List.mem_range.mp member), of_decide_eq_true high⟩

instance : Decidable (Covered text place) := decidable_of_iff _ covered_iff.symm

end Places

/-- The characters of a text that belong to none of its sequences. -/
def uncovered (text : List Char) : List Char :=
  (List.range text.length).filterMap fun place =>
    if Covered text place then none else text[place]?

section Uncovered

variable {text : List Char} {count : Nat}

/-- No sequence goes on over a place of a text. -/
def Boundary (text : List Char) (place : Nat) : Prop :=
  ∀ start sequence, SequenceAt text start sequence → start < place →
    start + sequence.length ≤ place

theorem Boundary.covered_iff (boundary : Boundary text count) (place : Nat) :
    Covered text (count + place) ↔ Covered (text.drop count) place := by
  constructor
  · rintro ⟨start, sequence, found, low, high⟩
    have late : count ≤ start := by
      apply Nat.le_of_not_lt
      intro early
      have ends := boundary start sequence found early
      omega
    obtain ⟨offset, rfl⟩ := Nat.exists_eq_add_of_le late
    exact ⟨offset, sequence, SequenceAt.drop_iff.mpr found, by omega, by omega⟩
  · rintro ⟨start, sequence, found, low, high⟩
    exact ⟨count + start, sequence, SequenceAt.drop_iff.mp found,
      by omega, by omega⟩

theorem Boundary.uncovered_eq (boundary : Boundary text count)
    (inside : count ≤ text.length) :
    uncovered text =
      (List.range count).filterMap (fun place =>
          if Covered text place then none else text[place]?) ++
        uncovered (text.drop count) := by
  have length : text.length = count + (text.drop count).length := by
    rw [List.length_drop]
    omega
  have shifted : (fun place =>
        if Covered text place then none else text[place]?) ∘ (count + ·) =
      fun place =>
        if Covered (text.drop count) place then none
        else (text.drop count)[place]? := by
    funext place
    simp only [Function.comp_apply, boundary.covered_iff, List.getElem?_drop]
  rw [uncovered, length, List.range_add, List.filterMap_append,
    List.filterMap_map, shifted, uncovered]

theorem uncovered_cons_of_no_sequence {c : Char} {rest : List Char}
    (nothing : ∀ sequence, ¬SequenceAt (c :: rest) 0 sequence) :
    uncovered (c :: rest) = c :: uncovered rest := by
  have boundary : Boundary (c :: rest) 1 := by
    intro start sequence found early
    obtain rfl : start = 0 := by omega
    exact absurd found (nothing sequence)
  have kept : ¬Covered (c :: rest) 0 := by
    rintro ⟨start, sequence, found, low, _⟩
    obtain rfl : start = 0 := by omega
    exact nothing sequence found
  rw [boundary.uncovered_eq (by simp)]
  simp [kept]

theorem uncovered_append_of_sequence {sequence : List Char}
    (isSequence : IsSequence sequence) (rest : List Char) :
    uncovered (sequence ++ rest) = uncovered rest := by
  have found : SequenceAt (sequence ++ rest) 0 sequence :=
    ⟨isSequence, List.prefix_append ..⟩
  have boundary : Boundary (sequence ++ rest) sequence.length := by
    intro start other otherFound early
    rcases Nat.eq_zero_or_pos start with rfl | late
    · exact Nat.le_of_eq (by rw [found.unique otherFound, Nat.zero_add])
    · have apart := found.apart otherFound late
      omega
  have removed : (List.range sequence.length).filterMap (fun place =>
      if Covered (sequence ++ rest) place then none
      else (sequence ++ rest)[place]?) = [] := by
    rw [List.filterMap_eq_nil_iff]
    intro place member
    apply if_pos
    exact ⟨0, sequence, found, Nat.zero_le _, by simpa using member⟩
  rw [boundary.uncovered_eq (by simp), removed, List.drop_left, List.nil_append]

end Uncovered

/-! ## Stripping -/

theorem stripAfter_eq_drop (skip : Nat) (text : List Char) :
    stripAfter skip text = stripAfter 0 (text.drop skip) := by
  induction text generalizing skip with
  | nil => simp [stripAfter]
  | cons c rest induction =>
      cases skip with
      | zero => rfl
      | succ skip => exact induction skip

theorem stripAfter_cons_of_no_sequence {c : Char} {rest : List Char}
    (nothing : ∀ sequence, ¬SequenceAt (c :: rest) 0 sequence) :
    stripAfter 0 (c :: rest) = c :: stripAfter 0 rest := by
  have unread : sequenceLength? (c :: rest) = none := by
    rw [Option.eq_none_iff_forall_not_mem]
    intro length found
    obtain ⟨sequence, atStart, _⟩ :=
      (@sequenceLength?_drop_eq_some (c :: rest) 0 length).mp found
    exact nothing sequence atStart
  rw [stripAfter, unread]

theorem stripAfter_append_of_sequence {sequence : List Char}
    (isSequence : IsSequence sequence) (rest : List Char) :
    stripAfter 0 (sequence ++ rest) = stripAfter 0 rest := by
  have read := isSequence.sequenceLength? rest
  obtain ⟨c, later, rfl, _⟩ := isSequence.shape
  rw [List.cons_append] at read ⊢
  rw [stripAfter, read]
  dsimp only
  rw [stripAfter_eq_drop, List.length_cons, Nat.add_sub_cancel, List.drop_left]

/-- What holds of the rest of a text, when the sequence that starts it is taken
away or else its first character, and then holds of the text too, holds of every
text. -/
theorem induction_on_start {motive : List Char → Prop} (empty : motive [])
    (removed : ∀ sequence rest, IsSequence sequence → motive rest →
      motive (sequence ++ rest))
    (kept : ∀ c rest, (∀ sequence, ¬SequenceAt (c :: rest) 0 sequence) →
      motive rest →
      motive (c :: rest))
    (text : List Char) : motive text := by
  suffices bounded : ∀ bound text, text.length ≤ bound → motive text from
    bounded text.length text (Nat.le_refl _)
  intro bound
  induction bound with
  | zero =>
      intro text short
      rw [List.eq_nil_of_length_eq_zero (Nat.le_zero.mp short)]
      exact empty
  | succ bound induction =>
      intro text short
      cases text with
      | nil => exact empty
      | cons c rest =>
          by_cases starts : ∃ sequence, SequenceAt (c :: rest) 0 sequence
          · obtain ⟨sequence, isSequence, later, split⟩ := starts
            rw [List.drop_zero] at split
            rw [← split] at short ⊢
            obtain ⟨_, _, rfl, _⟩ := isSequence.shape
            apply removed _ later isSequence
            apply induction
            simp only [List.length_append, List.length_cons] at short
            omega
          · apply kept c rest (not_exists.mp starts)
            exact induction rest (Nat.le_of_succ_le_succ short)

/-- Stripping a text keeps the characters that belong to no sequence. -/
theorem stripAfter_eq_uncovered (text : List Char) :
    stripAfter 0 text = uncovered text := by
  induction text using induction_on_start with
  | empty => rfl
  | removed sequence rest isSequence induction =>
      rw [stripAfter_append_of_sequence isSequence,
        uncovered_append_of_sequence isSequence, induction]
  | kept c rest nothing induction =>
      rw [stripAfter_cons_of_no_sequence nothing,
        uncovered_cons_of_no_sequence nothing, induction]

/-- Stripping removes exactly the sequences of a text.  At every place at most
one of them starts, they do not overlap, and what belongs to none of them is
kept in order.  A text may be cut before an escape or a line break and stripped
in parts. -/
theorem stripped_removes_sequences :
    (∀ (text : String) (start : Nat) (sequence other : List Char),
      SequenceAt text.toList start sequence →
      SequenceAt text.toList start other →
        sequence = other) ∧
    (∀ (text : String) (start otherStart : Nat) (sequence other : List Char),
      SequenceAt text.toList start sequence →
      SequenceAt text.toList otherStart other →
        start < otherStart → start + sequence.length ≤ otherStart) ∧
    (∀ text : String, (stripped text).toList = uncovered text.toList) ∧
    ∀ text rest : String, rest.toList.head? = some escape ∨
      rest.toList.head? = some '\n' →
      stripped (text ++ rest) = stripped text ++ stripped rest := by
  refine ⟨?_, ?_, ?_, ?_⟩
  · intro text start sequence other first second
    exact first.unique second
  · intro text start otherStart sequence other first second before
    exact first.apart second before
  · intro text
    rw [stripped, String.toList_ofList]
    exact stripAfter_eq_uncovered text.toList
  · intro text rest begins
    apply stripped_append
    rcases begins with begins | begins
    · rw [startsInert, begins]
      rfl
    · rw [startsInert, begins]
      rfl

/-- An escape before a sequence, and a sequence that is cut off before
another. -/
theorem stripped_removes_sequences_cutOff :
    let text := "\x1b\x1b[1;31mred\x1b[4"
    let rest := "\x1bM\nrose\x1b["
    SequenceAt text.toList 1 "\x1b[1;31m".toList ∧
    (∀ other, SequenceAt text.toList 1 other → "\x1b[1;31m".toList = other) ∧
    uncovered text.toList = "\x1bred\x1b[4".toList ∧
    (stripped text).toList = uncovered text.toList ∧
    stripped (text ++ rest) = stripped text ++ stripped rest := by
  intro text rest
  obtain ⟨unique, _, removes, parts⟩ := stripped_removes_sequences
  have found : SequenceAt text.toList 1 "\x1b[1;31m".toList := by
    refine ⟨?_, by decide⟩
    exact @IsSequence.of_classes "1;31".toList [] 'm' (List.all_eq_true.mp rfl)
      (List.all_eq_true.mp rfl) rfl
  exact ⟨found, fun other => unique text 1 _ other found, by decide +kernel,
    removes text, parts text rest (.inl (by decide))⟩

end ScopeLint.Text
