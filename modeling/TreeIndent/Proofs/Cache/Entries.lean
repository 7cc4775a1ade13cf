import TreeIndent.Cache
import Mathlib.Tactic.Common

/-!
# What a cache holds

Fetching a value under a key adds at most the value that was built for that key, and forgetting a buffer adds
nothing. So a statement about every entry of a cache survives all operations as soon as it holds of each value
that is built: this is `Holds`, with one lemma for each operation.
-/

namespace TreeIndent.Cache

universe u

variable {α : Type u}

/-- Every entry of the cache has a property. -/
def Holds (cache : Cache α) (property : Key → α → Prop) : Prop :=
  ∀ entry ∈ cache.entries, property entry.1 entry.2

lemma holds_new (capacity : Nat) (property : Key → α → Prop) :
    (Cache.new capacity : Cache α).Holds property := by
  intro entry hentry
  simp [Cache.new] at hentry

lemma Holds.imp {cache : Cache α} {property other : Key → α → Prop} (h : cache.Holds property)
    (himp : ∀ key value, property key value → other key value) : cache.Holds other := by
  intro entry hentry
  exact himp _ _ (h entry hentry)

/-- A value that is found is the value of an entry. -/
lemma mem_of_peek? {cache : Cache α} {key : Key} {value : α} (h : cache.peek? key = some value) :
    (key, value) ∈ cache.entries := by
  unfold peek? at h
  obtain ⟨entry, hfind, hvalue⟩ := Option.map_eq_some_iff.1 h
  have hkey : entry.1 = key := by simpa using List.find?_some hfind
  have hentry : entry = (key, value) := Prod.ext hkey hvalue
  rw [← hentry]
  exact List.mem_of_find?_eq_some hfind

/-- A fetch gives the value that is there, and builds one where there is none. -/
lemma fetch_fst (cache : Cache α) (key : Key) (build : Unit → α) :
    (cache.fetch key build).1 = (cache.peek? key).getD (build ()) := by
  unfold fetch
  split
  · next value hpeek => rw [hpeek]; rfl
  · next hpeek => rw [hpeek]; rfl

/-- An empty cache builds what it is asked for. -/
@[simp]
lemma fetch_new_fst (capacity : Nat) (key : Key) (build : Unit → α) :
    ((Cache.new capacity).fetch key build).1 = build () := by
  rw [fetch_fst]
  rfl

/-- After a fetch every entry was there before, or it is the one that was built. -/
lemma mem_fetch {cache : Cache α} {key : Key} {build : Unit → α} {entry : Key × α}
    (h : entry ∈ (cache.fetch key build).2.entries) :
    entry ∈ cache.entries ∨ entry = (key, build ()) := by
  unfold fetch at h
  split at h
  · next value hpeek =>
    -- A hit moves its entry to the front.
    left
    rcases List.mem_cons.1 h with rfl | hmem
    · exact mem_of_peek? hpeek
    · exact (List.mem_filter.1 hmem).1
  · -- A miss puts the built value in front, and the last entries may go.
    rcases List.mem_cons.1 (List.mem_of_mem_take h) with rfl | hmem
    · exact Or.inr rfl
    · exact Or.inl hmem

lemma Holds.fetch {cache : Cache α} {property : Key → α → Prop} (h : cache.Holds property)
    {key : Key} {build : Unit → α} (hbuild : property key (build ())) :
    (cache.fetch key build).2.Holds property := by
  intro entry hentry
  rcases mem_fetch hentry with hmem | rfl
  · exact h entry hmem
  · exact hbuild

lemma Holds.forget {cache : Cache α} {property : Key → α → Prop} (h : cache.Holds property)
    (buffer : Nat) : (cache.forget buffer).Holds property := by
  intro entry hentry
  exact h entry (List.mem_filter.1 hentry).1

/-- A cache whose entries all have the value that would be built gives that value. -/
lemma Holds.fetch_fst {cache : Cache α} {property : Key → α → Prop} (h : cache.Holds property)
    {key : Key} {build : Unit → α} (hbuild : ∀ value, property key value → value = build ()) :
    (cache.fetch key build).1 = build () := by
  rw [Cache.fetch_fst]
  cases hpeek : cache.peek? key with
  | none => rfl
  | some value => exact hbuild value (h _ (mem_of_peek? hpeek))

end TreeIndent.Cache
