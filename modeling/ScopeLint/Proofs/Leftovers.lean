import ScopeLint.Proofs.EscapeGrammar

/-!
# What stripping leaves

Where a sequence is removed, the characters before and after it come together.
If those before it are the beginning of a sequence and those after it complete
that, the stripped text holds a sequence that the text itself did not hold.
This is the only way in which stripping leaves a sequence, and the only case in
which stripping once more changes the text again.
-/

namespace ScopeLint.Text

def ContainsSequence (text : List Char) : Prop :=
  ∃ place sequence, SequenceAt text place sequence

def StartsWithSequence (text : List Char) : Prop :=
  ∃ sequence, SequenceAt text 0 sequence

/-- The beginning of a sequence, and not the whole of one. -/
def Unfinished (beginning : List Char) : Prop :=
  beginning ≠ [] ∧ ∃ missing, missing ≠ [] ∧ IsSequence (beginning ++ missing)

/-- A text ends with an unfinished sequence and a part after it.  A sequence
interrupts the unfinished one, which is completed when the part is stripped. -/
structure LooseEnd (text beginning after : List Char) : Prop where
  stands : beginning ++ after <:+ text
  unfinished : Unfinished beginning
  interrupted : StartsWithSequence after
  completed : StartsWithSequence (beginning ++ stripAfter 0 after)

theorem LooseEnd.append {text beginning after : List Char}
    (loose : LooseEnd text beginning after) (before : List Char) :
    LooseEnd (before ++ text) beginning after :=
  { loose with stands := loose.stands.trans (List.suffix_append before text) }

theorem containsSequence_append {text : List Char}
    (contains : ContainsSequence text) (before : List Char) :
    ContainsSequence (before ++ text) := by
  obtain ⟨place, sequence, found⟩ := contains
  refine ⟨before.length + place, sequence, ?_⟩
  rw [← SequenceAt.drop_iff, List.drop_left]
  exact found

theorem containsSequence_cons {c : Char} {rest : List Char} :
    ContainsSequence (c :: rest) ↔
      StartsWithSequence (c :: rest) ∨ ContainsSequence rest := by
  constructor
  · rintro ⟨place, sequence, found⟩
    cases place with
    | zero => exact .inl ⟨sequence, found⟩
    | succ place => exact .inr ⟨place, sequence, found.isSequence, found.stands⟩
  · rintro (⟨sequence, found⟩ | contains)
    · exact ⟨0, sequence, found⟩
    · exact containsSequence_append contains [c]

/-! ## Texts without sequences -/

theorem length_stripAfter_le (text : List Char) :
    (stripAfter 0 text).length ≤ text.length := by
  have bound : (uncovered text).length ≤ (List.range text.length).length :=
    List.length_filterMap_le ..
  rw [stripAfter_eq_uncovered]
  rwa [List.length_range] at bound

/-- Stripping changes a text exactly if there is something to remove. -/
theorem stripAfter_eq_self_iff {text : List Char} :
    stripAfter 0 text = text ↔ ¬ContainsSequence text := by
  induction text using induction_on_start with
  | empty =>
      refine iff_of_true rfl ?_
      rintro ⟨place, sequence, found⟩
      simpa using found.getElem?_start
  | removed sequence rest isSequence =>
      refine iff_of_false ?_ ?_
      · intro same
        have shorter := length_stripAfter_le rest
        obtain ⟨c, later, rfl, _⟩ := isSequence.shape
        rw [← stripAfter_append_of_sequence isSequence, same] at shorter
        simp only [List.length_append, List.length_cons] at shorter
        omega
      · exact not_not_intro ⟨0, sequence, isSequence, List.prefix_append ..⟩
  | kept c rest nothing induction =>
      have starts : ¬StartsWithSequence (c :: rest) := not_exists.mpr nothing
      rw [stripAfter_cons_of_no_sequence nothing, List.cons_inj_right,
        induction, containsSequence_cons, not_or]
      exact (and_iff_right starts).symm

/-! ## Unfinished sequences -/

namespace Unfinished

variable {beginning : List Char}

theorem starts (unfinished : Unfinished beginning) :
    ∃ later, beginning = escape :: later := by
  obtain ⟨nonempty, missing, _, isSequence⟩ := unfinished
  obtain ⟨c, later, whole, _⟩ := isSequence.shape
  cases beginning with
  | nil => exact absurd rfl nonempty
  | cons first others =>
      rw [List.cons_append] at whole
      exact ⟨others, by rw [(List.cons.inj whole).1]⟩

/-- No sequence starts with an unfinished one, and none starts inside it. -/
theorem not_containsSequence (unfinished : Unfinished beginning) :
    ¬ContainsSequence beginning := by
  obtain ⟨_, missing, more, isSequence⟩ := unfinished
  have whole : SequenceAt (beginning ++ missing) 0 (beginning ++ missing) :=
    ⟨isSequence, List.prefix_refl _⟩
  rintro ⟨place, sequence, found⟩
  rcases Nat.eq_zero_or_pos place with rfl | late
  · have same : beginning ++ missing = sequence :=
      isSequence.unique found.isSequence (List.prefix_refl _)
        (found.stands.trans (List.prefix_append beginning missing))
    have longer := found.stands.length_le
    rw [← same, List.length_append] at longer
    have positive := List.length_pos_iff.mpr more
    simp only [List.drop_zero] at longer
    omega
  · have here := found.getElem?_start
    have bound := (List.getElem?_eq_some_iff.mp here).1
    have inside : place < 0 + (beginning ++ missing).length := by
      rw [List.length_append]
      omega
    apply whole.getElem?_inside late inside
    rw [List.getElem?_append_left bound]
    exact here

end Unfinished

theorem startsInert_of_startsWithSequence {text : List Char}
    (starts : StartsWithSequence text) :
    startsInert text = true := by
  obtain ⟨sequence, found⟩ := starts
  have first := found.getElem?_start
  rw [startsInert, List.head?_eq_getElem?, first]
  rfl

theorem LooseEnd.containsSequence {text beginning after : List Char}
    (loose : LooseEnd text beginning after) :
    ContainsSequence (stripAfter 0 text) := by
  obtain ⟨⟨before, rfl⟩, unfinished, interrupted, sequence, completed⟩ := loose
  have inert : startsInert (beginning ++ after) = true := by
    obtain ⟨later, rfl⟩ := unfinished.starts
    rfl
  have kept : stripAfter 0 beginning = beginning :=
    stripAfter_eq_self_iff.mpr unfinished.not_containsSequence
  rw [stripAfter_append inert (Nat.zero_le _),
    stripAfter_append (startsInert_of_startsWithSequence interrupted)
      (Nat.zero_le _), kept]
  exact containsSequence_append ⟨0, sequence, completed⟩ _

/-! ## Where a sequence is left -/

/-- A text up to the first of its sequences. -/
theorem exists_first_sequence (text : List Char) :
    ∃ free after,
      text = free ++ after ∧ stripAfter 0 text = free ++ stripAfter 0 after ∧
      (after = [] ∨ StartsWithSequence after) := by
  induction text using induction_on_start with
  | empty => exact ⟨[], [], rfl, rfl, .inl rfl⟩
  | removed sequence rest isSequence =>
      exact ⟨[], sequence ++ rest, rfl, rfl,
        .inr ⟨sequence, isSequence, List.prefix_append ..⟩⟩
  | kept c rest nothing induction =>
      obtain ⟨free, after, rfl, stripped, ends⟩ := induction
      refine ⟨c :: free, after, rfl, ?_, ends⟩
      rw [stripAfter_cons_of_no_sequence nothing, stripped, List.cons_append]

theorem looseEnd_of_completed {c : Char} {rest : List Char}
    (nothing : ∀ sequence, ¬SequenceAt (c :: rest) 0 sequence)
    (starts : StartsWithSequence (c :: stripAfter 0 rest)) :
    ∃ beginning after, LooseEnd (c :: rest) beginning after := by
  obtain ⟨free, after, rfl, stripped, ends⟩ := exists_first_sequence rest
  obtain ⟨sequence, completed⟩ := starts
  rw [stripped, ← List.cons_append] at completed
  -- What starts with the first character is not finished before the sequence
  -- after it.
  have longer : ¬sequence <+: c :: free := by
    intro early
    exact nothing sequence
      ⟨completed.isSequence, early.trans (List.prefix_append (c :: free) after)⟩
  have interrupted : StartsWithSequence after := by
    rcases ends with rfl | interrupted
    · rw [stripAfter, List.append_nil] at completed
      exact absurd completed.stands longer
    · exact interrupted
  have continues : c :: free <+: sequence :=
    (List.prefix_or_prefix_of_prefix completed.stands
      (List.prefix_append ..)).resolve_left longer
  obtain ⟨missing, rfl⟩ := continues
  refine ⟨c :: free, after, List.suffix_refl _,
    ⟨List.cons_ne_nil _ _, missing, ?_, completed.isSequence⟩, interrupted, _,
    completed⟩
  rintro rfl
  exact longer ⟨[], by simp⟩

theorem containsSequence_stripAfter_iff {text : List Char} :
    ContainsSequence (stripAfter 0 text) ↔
      ∃ beginning after, LooseEnd text beginning after := by
  constructor
  · intro contains
    induction text using induction_on_start with
    | empty =>
        obtain ⟨place, sequence, found⟩ := contains
        simpa [stripAfter] using found.getElem?_start
    | removed sequence rest isSequence induction =>
        rw [stripAfter_append_of_sequence isSequence] at contains
        obtain ⟨beginning, after, loose⟩ := induction contains
        exact ⟨beginning, after, loose.append sequence⟩
    | kept c rest nothing induction =>
        rw [stripAfter_cons_of_no_sequence nothing,
          containsSequence_cons] at contains
        rcases contains with starts | later
        · exact looseEnd_of_completed nothing starts
        · obtain ⟨beginning, after, loose⟩ := induction later
          exact ⟨beginning, after, loose.append [c]⟩
  · rintro ⟨beginning, after, loose⟩
    exact loose.containsSequence

/-- A stripped text holds no sequence, and stripping it again does not change
it, unless some unfinished sequence of the text is interrupted by a sequence and
completed by what stripping leaves after it. -/
theorem stripped_clean_iff (text : String) :
    (¬ContainsSequence (stripped text).toList ↔
      ¬∃ beginning after, LooseEnd text.toList beginning after) ∧
    (stripped (stripped text) = stripped text ↔
      ¬∃ beginning after, LooseEnd text.toList beginning after) := by
  have clean : ¬ContainsSequence (stripped text).toList ↔
      ¬∃ beginning after, LooseEnd text.toList beginning after := by
    rw [stripped, String.toList_ofList, containsSequence_stripAfter_iff]
  refine ⟨clean, ?_⟩
  rw [← clean, ← stripAfter_eq_self_iff, ← String.toList_inj, stripped,
    String.toList_ofList]

/-- Of two escapes before a control sequence the second goes with it.  The first
stays and makes another sequence with the characters after it. -/
theorem stripped_leaves_sequence :
    stripped "\x1b\x1b[0m[0m" = "\x1b[0m" ∧
    ContainsSequence (stripped "\x1b\x1b[0m[0m").toList ∧
    stripped (stripped "\x1b\x1b[0m[0m") ≠ stripped "\x1b\x1b[0m[0m" := by
  have left : stripped "\x1b\x1b[0m[0m" = "\x1b[0m" := by decide +kernel
  rw [left]
  refine ⟨rfl, ⟨0, "\x1b[0m".toList, ?_, by decide⟩, by decide +kernel⟩
  exact @IsSequence.of_classes ['0'] [] 'm' (List.all_eq_true.mp rfl)
    (List.all_eq_true.mp rfl) rfl

end ScopeLint.Text
