/-!
# Tables in order of insertion

A table maps keys to values and remembers the order in which keys were first
put. A later value for a known key takes the place of the earlier one and moves
nothing. The laws say what a put does to look-ups and to the list of keys.
-/

namespace TypeInference

universe u v

/-- Keys with their values, each key where it was first put. -/
structure OrderedTable (κ : Type u) (α : Type v) where
  entries : List (κ × α) := []

namespace OrderedTable

variable {κ : Type u} {α : Type v}

/-- The table without keys. -/
def empty : OrderedTable κ α := ⟨[]⟩

instance : Inhabited (OrderedTable κ α) := ⟨empty⟩

/-- The keys in the order of their first put. -/
def keys (table : OrderedTable κ α) : List κ :=
  table.entries.map (·.1)

/-- How many keys there are. -/
def size (table : OrderedTable κ α) : Nat :=
  table.entries.length

/-- Whether there is no key. -/
def isEmpty (table : OrderedTable κ α) : Bool :=
  table.entries.isEmpty

variable [DecidableEq κ]

/-- The value of a key in a list of entries, the first if there are several. -/
def findIn (key : κ) : List (κ × α) → Option α
  | [] => none
  | entry :: rest => if entry.1 = key then some entry.2 else findIn key rest

/-- A list of entries with one more value: in place for a known key, else last. -/
def putIn (key : κ) (value : α) : List (κ × α) → List (κ × α)
  | [] => [(key, value)]
  | entry :: rest =>
    if entry.1 = key then (entry.1, value) :: rest else entry :: putIn key value rest

/-- The value of a key. -/
def find? (table : OrderedTable κ α) (key : κ) : Option α :=
  findIn key table.entries

/-- Whether a key is known. -/
def contains (table : OrderedTable κ α) (key : κ) : Bool :=
  (table.find? key).isSome

/-- Gives a key a value. -/
def put (table : OrderedTable κ α) (key : κ) (value : α) : OrderedTable κ α :=
  ⟨putIn key value table.entries⟩

/-- Gives a key a value unless it has one. -/
def putNew (table : OrderedTable κ α) (key : κ) (value : α) : OrderedTable κ α :=
  if table.contains key then table else table.put key value

/-- A put key has its new value and every other key keeps its own. -/
theorem find?_put (table : OrderedTable κ α) (key asked : κ) (value : α) :
    (table.put key value).find? asked = if key = asked then some value else table.find? asked := by
  have inEntries (entries : List (κ × α)) :
      findIn asked (putIn key value entries) =
        if key = asked then some value else findIn asked entries := by
    induction entries with
    | nil => simp [putIn, findIn]
    | cons entry rest inductionHypothesis =>
      by_cases here : entry.1 = key
      · by_cases same : key = asked <;> simp [putIn, findIn, here, same]
      · by_cases same : entry.1 = asked
        · have apart : key ≠ asked := fun equal => here (same.trans equal.symm)
          have other : asked ≠ key := fun equal => apart equal.symm
          simp [putIn, findIn, same, apart, other]
        · simp [putIn, findIn, here, same, inductionHypothesis]
  exact inEntries table.entries

/-- A key is known exactly if it is listed. -/
theorem contains_iff_mem_keys (table : OrderedTable κ α) (key : κ) :
    table.contains key = true ↔ key ∈ table.keys := by
  have inEntries (entries : List (κ × α)) :
      (findIn key entries).isSome = true ↔ key ∈ entries.map (·.1) := by
    induction entries with
    | nil => simp [findIn]
    | cons entry rest inductionHypothesis =>
      by_cases here : entry.1 = key
      · simp [findIn, here]
      · have apart : ¬key = entry.1 := fun equal => here equal.symm
        simp [findIn, here, apart, inductionHypothesis]
  exact inEntries table.entries

/-- A put keeps the order of the keys; an unknown key comes last. -/
theorem keys_put (table : OrderedTable κ α) (key : κ) (value : α) :
    (table.put key value).keys =
      if key ∈ table.keys then table.keys else table.keys ++ [key] := by
  have inEntries (entries : List (κ × α)) :
      (putIn key value entries).map (·.1) =
        if key ∈ entries.map (·.1) then entries.map (·.1) else entries.map (·.1) ++ [key] := by
    induction entries with
    | nil => simp [putIn]
    | cons entry rest inductionHypothesis =>
      by_cases here : entry.1 = key
      · simp [putIn, here]
      · have apart : ¬key = entry.1 := fun equal => here equal.symm
        simp only [putIn, if_neg here, List.map_cons, inductionHypothesis, List.mem_cons, apart,
          false_or]
        split <;> simp
  exact inEntries table.entries

/-- Distinct keys stay distinct. -/
theorem nodup_keys_put (table : OrderedTable κ α) (key : κ) (value : α)
    (distinct : table.keys.Nodup) : (table.put key value).keys.Nodup := by
  rw [keys_put]
  split
  · exact distinct
  · next absent =>
    refine List.nodup_append.mpr ⟨distinct, by simp, ?_⟩
    intro present presentListed last lastListed equal
    have last_eq : last = key := by simpa using lastListed
    exact absent (last_eq ▸ equal ▸ presentListed)

end OrderedTable

end TypeInference
