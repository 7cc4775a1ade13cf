/-!
# The cache

A bounded store of values that are expensive to build. It keeps its entries in the order of their last use;
when it is full, the entry unused for longest goes.

The key of an entry names the buffer, the generation of the forest, the root and the language.
-/

namespace TreeIndent

universe u

namespace Cache

/-- What a cached value belongs to. -/
structure Key where
  buffer : Nat
  generation : Nat
  root : Nat
  language : String
deriving DecidableEq, Repr

end Cache

/-- A store of at most `capacity` values, the most recently used first, that counts its hits and misses. -/
structure Cache (α : Type u) where
  capacity : Nat
  entries : List (Cache.Key × α) := []
  hits : Nat := 0
  misses : Nat := 0

namespace Cache

variable {α : Type u}

/-- An empty cache. It holds at least one value, also for a capacity of zero. -/
def new (capacity : Nat) : Cache α :=
  { capacity := max 1 capacity }

/-- The value under a key. -/
def peek? (cache : Cache α) (key : Key) : Option α :=
  (cache.entries.find? fun entry => entry.1 == key).map Prod.snd

/-- The value under a key, built if it is missing, and the cache after that. -/
def fetch (cache : Cache α) (key : Key) (build : Unit → α) : α × Cache α :=
  match cache.peek? key with
  | some value =>
    (value, { cache with
      entries := (key, value) :: cache.entries.filter fun entry => entry.1 != key
      hits := cache.hits + 1 })
  | none =>
    let value := build ()
    (value, { cache with
      entries := ((key, value) :: cache.entries).take cache.capacity
      misses := cache.misses + 1 })

/-- The cache without the values of a buffer. -/
def forget (cache : Cache α) (buffer : Nat) : Cache α :=
  { cache with entries := cache.entries.filter fun entry => entry.1.buffer != buffer }

/-- The number of values held. -/
def size (cache : Cache α) : Nat :=
  cache.entries.length

end Cache

end TreeIndent
