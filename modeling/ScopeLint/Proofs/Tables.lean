import Mathlib.Data.List.Induction
import ScopeLint.Keyed

/-!
# Tables made of entries

A table that is made by inserting entries one after another has the keys in the
order in which they first occur, and holds for each of them the value of the
last entry with that key.
-/

namespace ScopeLint

namespace Keyed

variable {α : Type} (table : Keyed α)

theorem get?_mk {keys : List String} {distinct : keys.Nodup}
    {value : Fin keys.length → α} {key : String} {place : Fin keys.length}
    (atPlace : keys[place] = key) :
    (Keyed.mk keys distinct value).get? key = some (value place) := by
  rw [← atPlace]
  exact get?_key ⟨keys, distinct, value⟩ place

theorem get?_eq_none {key : String} (missing : key ∉ table.keys) :
    table.get? key = none := by
  rw [get?, List.finIdxOf?_eq_none_iff.mpr missing]
  rfl

theorem keys_insert (key : String) (a : α) :
    (table.insert key a).keys =
      if key ∈ table.keys then table.keys else table.keys ++ [key] := by
  unfold insert
  split
  · rename_i place found
    obtain ⟨atPlace, _⟩ := List.finIdxOf?_eq_some_iff.mp found
    rw [if_pos (atPlace ▸ List.getElem_mem _)]
  · rename_i missing
    rw [if_neg (List.finIdxOf?_eq_none_iff.mp missing)]

theorem get?_insert_self (key : String) (a : α) :
    (table.insert key a).get? key = some a := by
  unfold insert
  split
  · rename_i place found
    obtain ⟨atPlace, _⟩ := List.finIdxOf?_eq_some_iff.mp found
    rw [get?_mk atPlace]
    simp
  · let last : Fin (table.keys ++ [key]).length := ⟨table.keys.length, by simp⟩
    have atLast : (table.keys ++ [key])[last] = key := by simp [last]
    rw [get?_mk atLast]
    simp [last]

theorem get?_insert_of_ne {key other : String} (different : other ≠ key)
    (a : α) :
    (table.insert key a).get? other = table.get? other := by
  cases sought : table.keys.finIdxOf? other with
  | none =>
      have absent := List.finIdxOf?_eq_none_iff.mp sought
      rw [table.get?_eq_none absent]
      apply get?_eq_none
      rw [keys_insert]
      split
      · exact absent
      · simp [absent, different]
  | some place =>
      obtain ⟨atPlace, _⟩ := List.finIdxOf?_eq_some_iff.mp sought
      have here : table.get? other = some (table.value place) := get?_mk atPlace
      rw [here]
      unfold insert
      split
      · rename_i replaced found
        obtain ⟨atReplaced, _⟩ := List.finIdxOf?_eq_some_iff.mp found
        have apart : place ≠ replaced := by
          rintro rfl
          exact different (atPlace.symm.trans atReplaced)
        rw [get?_mk atPlace, if_neg apart]
      · let same : Fin (table.keys ++ [key]).length := place.castLE (by simp)
        have atSame : (table.keys ++ [key])[same] = other := by
          simpa [same] using atPlace
        rw [get?_mk atSame]
        simp [same]

theorem ofList_concat (entries : List (String × α)) (entry : String × α) :
    ofList (entries ++ [entry]) = (ofList entries).insert entry.1 entry.2 := by
  rw [ofList, List.foldl_append]
  rfl

/-- The keys of a table stand in the order in which they first occurred. -/
theorem keys_ofList (entries : List (String × α)) :
    (ofList entries).keys = (entries.map Prod.fst).eraseDups := by
  induction entries using List.reverseRecOn with
  | nil => rfl
  | append_singleton entries entry induction =>
      have known : entry.1 ∈ (ofList entries).keys ↔
          entry.1 ∈ entries.map Prod.fst := by
        rw [induction, List.mem_eraseDups]
      rw [ofList_concat, keys_insert, List.map_append, List.eraseDups_append,
        ← induction]
      by_cases seen : entry.1 ∈ entries.map Prod.fst
      · rw [if_pos (known.mpr seen)]
        simp [List.removeAll, seen]
      · rw [if_neg (mt known.mp seen)]
        simp [List.removeAll, seen, List.eraseDups_cons]

/-- Of entries with one key the last gives the value. -/
theorem get?_ofList {before after : List (String × α)} {key : String} {a : α}
    (last : key ∉ after.map Prod.fst) :
    (ofList (before ++ (key, a) :: after)).get? key = some a := by
  induction after using List.reverseRecOn with
  | nil =>
      rw [ofList_concat]
      exact get?_insert_self _ key a
  | append_singleton after entry induction =>
      rw [List.map_append, List.mem_append, not_or] at last
      have different : key ≠ entry.1 := by simpa using last.2
      have regroup : before ++ (key, a) :: (after ++ [entry]) =
          before ++ (key, a) :: after ++ [entry] := by simp
      rw [regroup, ofList_concat, get?_insert_of_ne _ different]
      exact induction last.1

theorem exists_last_entry {entries : List (String × α)} {key : String}
    (known : key ∈ entries.map Prod.fst) :
    ∃ before a after, entries = before ++ (key, a) :: after ∧
      key ∉ after.map Prod.fst := by
  induction entries with
  | nil => cases known
  | cons entry rest induction =>
      by_cases later : key ∈ rest.map Prod.fst
      · obtain ⟨before, a, after, rfl, last⟩ := induction later
        exact ⟨entry :: before, a, after, rfl, last⟩
      · have here : key = entry.1 := by simpa [later] using known
        exact ⟨[], entry.2, rest, by rw [here]; rfl, later⟩

/-- What all entries have in common, all values have in common. -/
theorem get?_ofList_of_forall {entries : List (String × α)} {value : α}
    (same : ∀ entry ∈ entries, entry.2 = value) {key : String}
    (known : key ∈ (ofList entries).keys) :
    (ofList entries).get? key = some value := by
  rw [keys_ofList, List.mem_eraseDups] at known
  obtain ⟨before, a, after, rfl, last⟩ := exists_last_entry known
  rw [get?_ofList last]
  exact congrArg some (same (key, a) (by simp))

end Keyed

end ScopeLint
