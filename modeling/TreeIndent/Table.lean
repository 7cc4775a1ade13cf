/-!
# Tables

A finite map kept as a list in ascending order of its keys. Two tables with the same values under the
same keys are the same list, so a table can be compared by `=`, and listing one gives its keys in order.

Operations: `empty`, `get?`, `insert`, `erase`, `keys`, `size`, `ofList`. Main statements: one equation for
`get?` after each operation, and `ext_get?`: a table is known by what `get?` sees.
-/

namespace TreeIndent

universe u v

/-- A finite map: its entries in strictly ascending order of their keys. -/
structure Table (κ : Type u) (α : Type v) [Ord κ] where
  entries : List (κ × α)
  ascending : entries.Pairwise fun a b => compare a.1 b.1 = .lt

namespace Table

variable {κ : Type u} {α : Type v} [Ord κ]

/-! ## Lists of entries -/

/-- The first value under a key. -/
def lookup (key : κ) : List (κ × α) → Option α
  | [] => none
  | entry :: rest => if compare key entry.1 = .eq then some entry.2 else lookup key rest

/-- Puts an entry at its place, over an entry with the same key. -/
def place (key : κ) (value : α) : List (κ × α) → List (κ × α)
  | [] => [(key, value)]
  | entry :: rest =>
    match compare key entry.1 with
    | .lt => (key, value) :: entry :: rest
    | .eq => (key, value) :: rest
    | .gt => entry :: place key value rest

theorem key_of_mem_place {key : κ} {value : α} {entries : List (κ × α)} {entry : κ × α}
    (h : entry ∈ place key value entries) : entry.1 = key ∨ entry ∈ entries := by
  induction entries with
  | nil => simp_all [place]
  | cons head rest ih =>
    rw [place] at h
    split at h <;> simp only [List.mem_cons] at h ⊢ <;> grind

theorem place_ascending [Std.TransOrd κ] (key : κ) (value : α) {entries : List (κ × α)}
    (h : entries.Pairwise fun a b => compare a.1 b.1 = .lt) :
    (place key value entries).Pairwise fun a b => compare a.1 b.1 = .lt := by
  induction entries with
  | nil => simp [place]
  | cons head rest ih =>
    have ⟨hhead, hrest⟩ := List.pairwise_cons.1 h
    rw [place]
    split
    next hlt =>
      refine List.pairwise_cons.2 ⟨fun entry hmem => ?_, h⟩
      rcases List.mem_cons.1 hmem with rfl | hmem
      · exact hlt
      · exact Std.TransCmp.lt_trans hlt (hhead entry hmem)
    next heq =>
      exact List.pairwise_cons.2
        ⟨fun entry hmem => Std.TransCmp.lt_of_eq_of_lt heq (hhead entry hmem), hrest⟩
    next hgt =>
      refine List.pairwise_cons.2 ⟨fun entry hmem => ?_, ih hrest⟩
      rcases key_of_mem_place hmem with hkey | hmem
      · rw [hkey]
        exact Std.OrientedCmp.lt_of_gt hgt
      · exact hhead entry hmem

/-! ## Operations -/

/-- The table without entries. -/
def empty : Table κ α := ⟨[], .nil⟩

instance : EmptyCollection (Table κ α) := ⟨empty⟩

/-- The value under a key. -/
def get? (table : Table κ α) (key : κ) : Option α :=
  lookup key table.entries

/-- Whether a key has a value. -/
def contains (table : Table κ α) (key : κ) : Bool :=
  (table.get? key).isSome

/-- The table with a value under a key, over the value that was there. -/
def insert [Std.TransOrd κ] (table : Table κ α) (key : κ) (value : α) : Table κ α :=
  ⟨place key value table.entries, place_ascending key value table.ascending⟩

/-- The table without a key. -/
def erase (table : Table κ α) (key : κ) : Table κ α :=
  ⟨table.entries.filter fun entry => compare key entry.1 ≠ .eq, table.ascending.filter _⟩

/-- The keys in ascending order. -/
def keys (table : Table κ α) : List κ :=
  table.entries.map Prod.fst

/-- The number of keys. -/
def size (table : Table κ α) : Nat :=
  table.entries.length

/-- Whether the table has no entries. -/
def isEmpty (table : Table κ α) : Bool :=
  table.entries.isEmpty

/-- The table of a list of entries, a later entry standing over an earlier one with its key. -/
def ofList [Std.TransOrd κ] (entries : List (κ × α)) : Table κ α :=
  entries.foldl (fun table entry => table.insert entry.1 entry.2) empty

/-! ## What `get?` sees -/

@[simp]
theorem get?_empty (key : κ) : (empty : Table κ α).get? key = none := rfl

theorem get?_insert [Std.TransOrd κ] [Std.LawfulEqOrd κ] [DecidableEq κ]
    (table : Table κ α) (key other : κ) (value : α) :
    (table.insert key value).get? other = if other = key then some value else table.get? other := by
  obtain ⟨entries, h⟩ := table
  simp only [get?, insert]
  clear h
  induction entries with
  | nil => simp [place, lookup]
  | cons head rest ih =>
    simp only [place]
    split
    next hlt => simp [lookup]
    next heq =>
      have : key = head.1 := by simpa using heq
      by_cases hother : other = key <;> simp_all [lookup]
    next hgt =>
      have hne : key ≠ head.1 := by rintro rfl; simp at hgt
      by_cases hhead : other = head.1
      · have : other ≠ key := fun h => hne (h ▸ hhead)
        simp [lookup, hhead, Ne.symm hne]
      · simp [lookup, hhead, ih]

theorem get?_erase [Std.LawfulEqOrd κ] [DecidableEq κ] (table : Table κ α) (key other : κ) :
    (table.erase key).get? other = if other = key then none else table.get? other := by
  obtain ⟨entries, h⟩ := table
  simp only [get?, erase]
  clear h
  induction entries with
  | nil => simp [lookup]
  | cons head rest ih =>
    by_cases hkey : key = head.1
    · by_cases hother : other = key <;> simp_all [lookup]
    · by_cases hother : other = head.1
      · simp [lookup, hkey, hother, Ne.symm hkey]
      · simpa [lookup, hkey, hother] using ih

theorem lookup_eq_some_iff [Std.TransOrd κ] [Std.LawfulEqOrd κ] {entries : List (κ × α)}
    (h : entries.Pairwise fun a b => compare a.1 b.1 = .lt) {key : κ} {value : α} :
    lookup key entries = some value ↔ (key, value) ∈ entries := by
  induction entries with
  | nil => simp [lookup]
  | cons head rest ih =>
    obtain ⟨headKey, headValue⟩ := head
    have ⟨hhead, hrest⟩ := List.pairwise_cons.1 h
    by_cases hkey : key = headKey
    · subst hkey
      have : (key, value) ∉ rest := fun hmem => by simpa using hhead _ hmem
      simp [lookup, this, eq_comm]
    · simp [lookup, hkey, ih hrest]

theorem get?_eq_some_iff [Std.TransOrd κ] [Std.LawfulEqOrd κ] {table : Table κ α} {key : κ} {value : α} :
    table.get? key = some value ↔ (key, value) ∈ table.entries :=
  lookup_eq_some_iff table.ascending

theorem mem_keys [Std.TransOrd κ] [Std.LawfulEqOrd κ] {table : Table κ α} {key : κ} :
    key ∈ table.keys ↔ (table.get? key).isSome = true := by
  simp only [keys, List.mem_map, Option.isSome_iff_exists, get?_eq_some_iff]
  constructor
  · rintro ⟨⟨k, v⟩, h, rfl⟩
    exact ⟨v, h⟩
  · rintro ⟨v, h⟩
    exact ⟨(key, v), h, rfl⟩

/-- The keys are listed in strictly ascending order. -/
theorem keys_ascending (table : Table κ α) : table.keys.Pairwise fun a b => compare a b = .lt :=
  List.pairwise_map.2 table.ascending

/-- No key is listed twice. -/
theorem nodup_keys [Std.LawfulEqOrd κ] (table : Table κ α) : table.keys.Nodup :=
  table.keys_ascending.imp fun {a b} hlt heq => by simp [heq] at hlt

private theorem nodup_entries [Std.LawfulEqOrd κ] (table : Table κ α) : table.entries.Nodup :=
  table.ascending.imp fun {a b} hlt heq => by simp [heq] at hlt

/-- Tables that hold the same values under the same keys are equal. -/
theorem ext_get? [Std.TransOrd κ] [Std.LawfulEqOrd κ] {s t : Table κ α}
    (h : ∀ key, s.get? key = t.get? key) : s = t := by
  have hmem : ∀ entry, entry ∈ s.entries ↔ entry ∈ t.entries := fun entry => by
    obtain ⟨key, value⟩ := entry
    rw [← get?_eq_some_iff, h, get?_eq_some_iff]
  have hperm := (List.perm_ext_iff_of_nodup (nodup_entries s) (nodup_entries t)).2 hmem
  have heq : s.entries = t.entries := hperm.eq_of_pairwise (fun a b _ _ hab hba => by
    have := Std.OrientedCmp.gt_of_lt hab
    simp [this] at hba) s.ascending t.ascending
  cases s; cases t; simp_all

/-- Putting a value where it is already changes nothing. -/
theorem insert_of_get? [Std.TransOrd κ] [Std.LawfulEqOrd κ] [DecidableEq κ] {table : Table κ α} {key : κ}
    {value : α} (h : table.get? key = some value) : table.insert key value = table := by
  apply ext_get?
  intro other
  rw [get?_insert]
  split
  · next hkey => rw [hkey, h]
  · rfl

end Table

end TreeIndent
