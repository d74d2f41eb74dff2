/-!
# Tables with ordered keys

A table holds one value for each of its keys.  Keys are distinct and keep the
order in which they were first inserted; inserting a key again replaces its
value in place.
-/

namespace ScopeLint

structure Keyed (α : Type) where
  keys : List String
  distinct : keys.Nodup
  value : Fin keys.length → α

namespace Keyed

variable {α β : Type}

def empty : Keyed α := ⟨[], List.nodup_nil, fun i => i.elim0⟩

instance : EmptyCollection (Keyed α) := ⟨empty⟩

/-- The values, in the order of their keys. -/
def values (table : Keyed α) : List α := List.ofFn table.value

/-- Keys with their values, in order. -/
def entries (table : Keyed α) : List (String × α) := table.keys.zip table.values

def map (f : α → β) (table : Keyed α) : Keyed β :=
  ⟨table.keys, table.distinct, fun i => f (table.value i)⟩

def get? (table : Keyed α) (key : String) : Option α :=
  (table.keys.finIdxOf? key).map table.value

/-- Give a key its value: at its place if it has one, else at the end. -/
def insert (table : Keyed α) (key : String) (a : α) : Keyed α :=
  match found : table.keys.finIdxOf? key with
  | some place =>
    ⟨table.keys, table.distinct,
      fun i => if i = place then a else table.value i⟩
  | none =>
    ⟨table.keys ++ [key],
      List.nodup_append.mpr ⟨table.distinct, by simp, by
        intro old member new same
        have notOld := List.finIdxOf?_eq_none_iff.mp found
        simp only [List.mem_singleton] at same
        exact fun equal => notOld (same ▸ equal ▸ member)⟩,
      fun i =>
        if inside : i < table.keys.length then table.value ⟨i, inside⟩ else a⟩

/-- Insert entries one after another: of entries with one key, the first
gives the place and the last the value. -/
def ofList (entries : List (String × α)) : Keyed α :=
  entries.foldl (fun table entry => table.insert entry.1 entry.2) ∅

theorem get?_key (table : Keyed α) (i : Fin table.keys.length) :
    table.get? table.keys[i] = some (table.value i) := by
  have found : table.keys.finIdxOf? table.keys[i] = some i := by
    rw [List.finIdxOf?_eq_some_iff]
    refine ⟨rfl, fun j earlier same => ?_⟩
    have equal : j = i := Fin.ext ((List.getElem_inj table.distinct).mp same)
    exact absurd earlier (equal ▸ Nat.lt_irrefl _)
  rw [get?, found]
  rfl

@[simp] theorem values_map (f : α → β) (table : Keyed α) :
    (table.map f).values = table.values.map f := by
  simp [values, map, List.map_ofFn, Function.comp_def]

@[simp] theorem keys_map (f : α → β) (table : Keyed α) :
    (table.map f).keys = table.keys := rfl

@[simp] theorem length_values (table : Keyed α) :
    table.values.length = table.keys.length := by
  simp [values]

theorem mem_values {table : Keyed α} {a : α} :
    a ∈ table.values ↔ ∃ i, table.value i = a := by
  simp [values, List.mem_ofFn]

end Keyed

end ScopeLint
