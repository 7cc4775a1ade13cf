import TreeIndent.Proofs.Cache.Entries
import Mathlib.Data.Finset.Card

/-!
# Which keys a cache still holds

A trace is any sequence of fetches and of buffers that are forgotten. After each trace the keys of a cache
stand in the order of their last use, so how far a key has fallen back is seen from the keys ahead of it
(`ahead`). A fetch puts its key ahead of all others; nothing else does. Hence all keys ahead of one were asked
for since its own last fetch, and if no buffer was forgotten in the meantime, those are all the keys that
stand there. The two directions are `ahead_subset` and `subset_ahead`; what a cache of a given capacity still
holds follows from them by counting.
-/

namespace TreeIndent.Cache

universe u

variable {α : Type u}

/-! ## Traces -/

/-- What can be asked of a cache. -/
inductive Request (α : Type u) where
  | fetch (key : Key) (build : Unit → α)
  | forget (buffer : Nat)

/-- The cache after a request. -/
def serve (cache : Cache α) : Request α → Cache α
  | .fetch key build => (cache.fetch key build).2
  | .forget buffer => cache.forget buffer

/-- The cache after a trace. -/
def serveAll (cache : Cache α) (trace : List (Request α)) : Cache α :=
  trace.foldl serve cache

/-- The key that a request asks for, if it is a fetch. -/
def Request.key? : Request α → Option Key
  | .fetch key _ => some key
  | .forget _ => none

/-- The keys that a trace asks for, one for each fetch. -/
def requested (trace : List (Request α)) : List Key :=
  trace.filterMap Request.key?

@[simp]
lemma serveAll_concat (cache : Cache α) (trace : List (Request α)) (request : Request α) :
    cache.serveAll (trace ++ [request]) = (cache.serveAll trace).serve request := by
  simp [serveAll]

lemma serveAll_append (cache : Cache α) (trace rest : List (Request α)) :
    cache.serveAll (trace ++ rest) = (cache.serveAll trace).serveAll rest := by
  simp [serveAll]

@[simp]
lemma requested_nil : requested ([] : List (Request α)) = [] := rfl

@[simp]
lemma requested_append (trace rest : List (Request α)) :
    requested (trace ++ rest) = requested trace ++ requested rest :=
  List.filterMap_append

@[simp]
lemma requested_fetch (key : Key) (build : Unit → α) (rest : List (Request α)) :
    requested (.fetch key build :: rest) = key :: requested rest := rfl

/-! ## Keys -/

/-- The keys of a cache, the most recently used first. -/
def keys (cache : Cache α) : List Key :=
  cache.entries.map Prod.fst

lemma length_keys (cache : Cache α) : cache.keys.length = cache.size :=
  List.length_map ..

lemma peek?_isSome {cache : Cache α} {key : Key} : (cache.peek? key).isSome = true ↔ key ∈ cache.keys := by
  unfold peek? keys
  rw [Option.isSome_map, List.find?_isSome, List.mem_map]
  simp

lemma peek?_eq_none {cache : Cache α} {key : Key} : cache.peek? key = none ↔ key ∉ cache.keys := by
  rw [← peek?_isSome, Option.not_isSome_iff_eq_none]

/-- A fetch of a key that is there: the value is found, and the key moves to the front. -/
lemma fetch_of_mem {cache : Cache α} {key : Key} (h : key ∈ cache.keys) :
    ∃ value, cache.peek? key = some value ∧ ∀ build, cache.fetch key build =
      (value, { cache with
        entries := (key, value) :: cache.entries.filter fun entry => entry.1 != key
        hits := cache.hits + 1 }) := by
  obtain ⟨value, hvalue⟩ := Option.isSome_iff_exists.1 (peek?_isSome.2 h)
  refine ⟨value, hvalue, fun build => ?_⟩
  unfold fetch
  rw [hvalue]

/-- A fetch of a key that is not there: a value is built and put to the front, and the last may go. -/
lemma fetch_of_not_mem {cache : Cache α} {key : Key} (h : key ∉ cache.keys) (build : Unit → α) :
    cache.fetch key build =
      (build (), { cache with
        entries := ((key, build ()) :: cache.entries).take cache.capacity
        misses := cache.misses + 1 }) := by
  unfold fetch
  rw [peek?_eq_none.2 h]

lemma keys_fetch_of_mem {cache : Cache α} {key : Key} (h : key ∈ cache.keys) (build : Unit → α) :
    (cache.fetch key build).2.keys = key :: cache.keys.filter (· != key) := by
  obtain ⟨value, -, hfetch⟩ := fetch_of_mem h
  rw [hfetch, keys, keys, List.filter_map]
  rfl

lemma keys_fetch_of_not_mem {cache : Cache α} {key : Key} (h : key ∉ cache.keys) (build : Unit → α) :
    (cache.fetch key build).2.keys = (key :: cache.keys).take cache.capacity := by
  rw [fetch_of_not_mem h, keys, keys, List.map_take]
  rfl

lemma keys_forget (cache : Cache α) (buffer : Nat) :
    (cache.forget buffer).keys = cache.keys.filter (·.buffer != buffer) := by
  rw [keys, keys, List.filter_map]
  rfl

@[simp]
lemma capacity_serve (cache : Cache α) (request : Request α) :
    (cache.serve request).capacity = cache.capacity := by
  cases request with
  | fetch key build =>
    by_cases h : key ∈ cache.keys
    · obtain ⟨value, -, hfetch⟩ := fetch_of_mem h
      rw [serve, hfetch]
    · rw [serve, fetch_of_not_mem h]
  | forget buffer => rfl

/-- A key that was not asked for does not come into the cache. -/
lemma mem_keys_of_serve {cache : Cache α} {request : Request α} {key : Key} (hkey : request.key? ≠ some key)
    (h : key ∈ (cache.serve request).keys) : key ∈ cache.keys := by
  cases request with
  | fetch other build =>
    have hne : key ≠ other := fun heq => hkey (congrArg some heq.symm)
    by_cases hother : other ∈ cache.keys
    · rw [serve, keys_fetch_of_mem hother] at h
      exact (List.mem_filter.1 (List.mem_of_ne_of_mem hne h)).1
    · rw [serve, keys_fetch_of_not_mem hother] at h
      exact List.mem_of_ne_of_mem hne (List.mem_of_mem_take h)
  | forget buffer =>
    rw [serve, keys_forget] at h
    exact (List.mem_filter.1 h).1

/-- A key that is gone stays away until it is asked for. -/
lemma not_mem_keys_serveAll {cache : Cache α} {key : Key} (h : key ∉ cache.keys) {trace : List (Request α)}
    (htrace : key ∉ requested trace) : key ∉ (cache.serveAll trace).keys := by
  induction trace using List.reverseRecOn with
  | nil => exact h
  | append_singleton trace request ih =>
    rw [requested_append, List.mem_append, not_or] at htrace
    have hrequest : request.key? ≠ some key := by
      intro hkey
      exact htrace.2 (List.mem_filterMap.2 ⟨request, List.mem_singleton_self _, hkey⟩)
    rw [serveAll_concat]
    exact fun hmem => ih htrace.1 (mem_keys_of_serve hrequest hmem)

/-! ## Size -/

/-- A cache in which no key stands twice and that holds no more than it may. -/
structure Orderly (cache : Cache α) : Prop where
  nodup : cache.keys.Nodup
  length_le : cache.keys.length ≤ cache.capacity

lemma orderly_new (capacity : Nat) : (Cache.new capacity : Cache α).Orderly :=
  ⟨List.nodup_nil, Nat.zero_le _⟩

lemma Orderly.serve {cache : Cache α} (h : cache.Orderly) (request : Request α) :
    (cache.serve request).Orderly := by
  suffices hkeys : (cache.serve request).keys.Nodup ∧ (cache.serve request).keys.length ≤ cache.capacity from
    ⟨hkeys.1, (capacity_serve cache request).symm ▸ hkeys.2⟩
  cases request with
  | fetch key build =>
    by_cases hkey : key ∈ cache.keys
    · -- The key goes from its place to the front.
      have hgone : key ∉ cache.keys.filter (· != key) := by simp
      have hshorter : (cache.keys.filter (· != key)).length < cache.keys.length :=
        List.length_filter_lt_length_iff_exists.2 ⟨key, hkey, by simp⟩
      rw [Cache.serve, keys_fetch_of_mem hkey]
      exact ⟨List.nodup_cons.2 ⟨hgone, h.nodup.filter _⟩, Nat.le_trans hshorter h.length_le⟩
    · rw [Cache.serve, keys_fetch_of_not_mem hkey]
      exact ⟨(List.nodup_cons.2 ⟨hkey, h.nodup⟩).sublist (List.take_sublist ..), List.length_take_le ..⟩
  | forget buffer =>
    rw [Cache.serve, keys_forget]
    exact ⟨h.nodup.filter _, Nat.le_trans (List.length_filter_le ..) h.length_le⟩

/-- Every trace keeps a cache orderly, with the capacity that it had. -/
lemma Orderly.serveAll {cache : Cache α} (h : cache.Orderly) (trace : List (Request α)) :
    (cache.serveAll trace).Orderly ∧ (cache.serveAll trace).capacity = cache.capacity := by
  induction trace using List.reverseRecOn with
  | nil => exact ⟨h, rfl⟩
  | append_singleton trace request ih =>
    rw [serveAll_concat]
    exact ⟨ih.1.serve request, (capacity_serve ..).trans ih.2⟩

/-! ## Hits and misses -/

/-- A fetch of the key is a hit: it is counted as one, and nothing that would be built is looked at. -/
structure HitsOn (cache : Cache α) (key : Key) : Prop where
  counted : ∀ build, (cache.fetch key build).2.hits = cache.hits + 1 ∧
    (cache.fetch key build).2.misses = cache.misses
  unbuilt : ∀ build other, cache.fetch key build = cache.fetch key other

/-- A fetch of the key is a miss: it is counted as one, and its value is the one that is built. -/
structure MissesOn (cache : Cache α) (key : Key) : Prop where
  counted : ∀ build, (cache.fetch key build).2.hits = cache.hits ∧
    (cache.fetch key build).2.misses = cache.misses + 1
  built : ∀ build, (cache.fetch key build).1 = build ()

lemma hitsOn_of_mem {cache : Cache α} {key : Key} (h : key ∈ cache.keys) : cache.HitsOn key := by
  obtain ⟨value, -, hfetch⟩ := fetch_of_mem h
  refine ⟨fun build => ?_, fun build other => ?_⟩
  · rw [hfetch]
    exact ⟨rfl, rfl⟩
  · rw [hfetch, hfetch]

lemma missesOn_of_not_mem {cache : Cache α} {key : Key} (h : key ∉ cache.keys) : cache.MissesOn key := by
  refine ⟨fun build => ?_, fun build => ?_⟩
  · rw [fetch_of_not_mem h]
    exact ⟨rfl, rfl⟩
  · rw [fetch_of_not_mem h]

/-- Every fetch of a trace is counted, as a hit or as a miss. -/
lemma hits_add_misses_serveAll (cache : Cache α) (trace : List (Request α)) :
    (cache.serveAll trace).hits + (cache.serveAll trace).misses
      = cache.hits + cache.misses + (requested trace).length := by
  induction trace using List.reverseRecOn with
  | nil => rfl
  | append_singleton trace request ih =>
    rw [serveAll_concat, requested_append, List.length_append]
    cases request with
    | fetch key build =>
      by_cases h : key ∈ (cache.serveAll trace).keys
      · obtain ⟨hhits, hmisses⟩ := (hitsOn_of_mem h).counted build
        simp only [serve, hhits, hmisses, requested_fetch, requested_nil, List.length_singleton]
        omega
      · obtain ⟨hhits, hmisses⟩ := (missesOn_of_not_mem h).counted build
        simp only [serve, hhits, hmisses, requested_fetch, requested_nil, List.length_singleton]
        omega
    | forget buffer => exact ih

/-! ## The value of the last miss -/

/-- What a request builds for a key: a fetch that misses the key builds a value, and nothing else does. -/
def built? (cache : Cache α) (key : Key) : Request α → Option α
  | .fetch other build => if other = key ∧ cache.peek? key = none then some (build ()) else none
  | .forget _ => none

/-- What the most recent miss on a key has built in a trace. -/
def lastBuilt? (cache : Cache α) (key : Key) : List (Request α) → Option α
  | [] => none
  | request :: rest => ((cache.serve request).lastBuilt? key rest).or (cache.built? key request)

lemma lastBuilt?_concat (cache : Cache α) (key : Key) (trace : List (Request α)) (request : Request α) :
    cache.lastBuilt? key (trace ++ [request])
      = ((cache.serveAll trace).built? key request).or (cache.lastBuilt? key trace) := by
  induction trace generalizing cache with
  | nil => simp [lastBuilt?, serveAll]
  | cons first rest ih =>
    rw [List.cons_append, lastBuilt?, ih, lastBuilt?, Option.or_assoc]
    rfl

lemma mem_keys_of_mem {cache : Cache α} {entry : Key × α} (h : entry ∈ cache.entries) :
    entry.1 ∈ cache.keys :=
  List.mem_map_of_mem h

/-- Nothing is built for a key that is there. -/
lemma built?_of_mem {cache : Cache α} {key : Key} (h : key ∈ cache.keys) (request : Request α) :
    cache.built? key request = none := by
  cases request with
  | fetch other build =>
    have hfound : cache.peek? key ≠ none := fun hnone => peek?_eq_none.1 hnone h
    simp [built?, hfound]
  | forget buffer => rfl

/-- An entry after a request was there before, or it is what the request has built. -/
lemma mem_serve {cache : Cache α} {request : Request α} {entry : Key × α}
    (h : entry ∈ (cache.serve request).entries) :
    entry ∈ cache.entries ∨ cache.built? entry.1 request = some entry.2 := by
  cases request with
  | fetch key build =>
    by_cases hkey : key ∈ cache.keys
    · -- A hit moves an entry and makes none.
      obtain ⟨value, hvalue, hfetch⟩ := fetch_of_mem hkey
      rw [serve, hfetch] at h
      rcases List.mem_cons.1 h with rfl | hmem
      · exact Or.inl (mem_of_peek? hvalue)
      · exact Or.inl (List.mem_filter.1 hmem).1
    · rcases mem_fetch h with hold | rfl
      · exact Or.inl hold
      · exact Or.inr (if_pos ⟨rfl, peek?_eq_none.2 hkey⟩)
  | forget buffer => exact Or.inl (List.mem_filter.1 h).1

/-- In a cache that was empty at first, every value is the one that the most recent miss on its key built. -/
lemma lastBuilt?_of_mem {cache : Cache α} (hempty : cache.entries = []) {trace : List (Request α)}
    {entry : Key × α} (h : entry ∈ (cache.serveAll trace).entries) :
    cache.lastBuilt? entry.1 trace = some entry.2 := by
  induction trace using List.reverseRecOn with
  | nil =>
    rw [serveAll, List.foldl_nil, hempty] at h
    cases h
  | append_singleton trace request ih =>
    rw [serveAll_concat] at h
    rw [lastBuilt?_concat]
    rcases mem_serve h with hold | hbuilt
    · rw [built?_of_mem (mem_keys_of_mem hold), Option.none_or]
      exact ih hold
    · rw [hbuilt, Option.some_or]

/-- A fetch gives what the most recent miss on its key built, and that miss may be the fetch itself. -/
lemma lastBuilt?_fetch {cache : Cache α} (hempty : cache.entries = []) (trace : List (Request α)) (key : Key)
    (build : Unit → α) :
    cache.lastBuilt? key (trace ++ [.fetch key build])
      = some ((cache.serveAll trace).fetch key build).1 := by
  rw [lastBuilt?_concat]
  by_cases h : key ∈ (cache.serveAll trace).keys
  · obtain ⟨value, hvalue, hfetch⟩ := fetch_of_mem h
    rw [built?_of_mem h, Option.none_or, hfetch]
    exact lastBuilt?_of_mem hempty (mem_of_peek? hvalue)
  · rw [fetch_of_not_mem h, built?, if_pos ⟨rfl, peek?_eq_none.2 h⟩, Option.some_or]

/-! ## The keys ahead of a key -/

/-- The keys that were used more recently than a key. -/
def ahead (cache : Cache α) (key : Key) : List Key :=
  cache.keys.takeWhile (· != key)

private lemma takeWhile_append_cons {front : List Key} {key : Key} (h : key ∉ front) (behind : List Key) :
    (front ++ key :: behind).takeWhile (· != key) = front := by
  rw [List.takeWhile_append_of_pos]
  · simp
  · intro other hother
    simp only [bne_iff_ne, ne_eq]
    rintro rfl
    exact h hother

/-- Up to a key that a list holds, every longer list looks the same. -/
private lemma takeWhile_of_isPrefix {keys longer : List Key} {key : Key} (h : keys <+: longer)
    (hkey : key ∈ keys) : keys.takeWhile (· != key) = longer.takeWhile (· != key) := by
  obtain ⟨rest, rfl⟩ := h
  obtain ⟨front, behind, rfl, hfront⟩ := List.eq_append_cons_of_mem hkey
  rw [List.append_assoc, List.cons_append, takeWhile_append_cons hfront, takeWhile_append_cons hfront]

/-- Where a key stays, what is left ahead of it are the keys that were ahead of it and stay. -/
private lemma takeWhile_filter_of_pos (stays : Key → Bool) {key : Key} (h : stays key = true)
    (keys : List Key) :
    (keys.filter stays).takeWhile (· != key) = (keys.takeWhile (· != key)).filter stays := by
  have htest : (fun other => !stays other || other != key) = (· != key) := by
    funext other
    by_cases heq : other = key
    · simp [heq, h]
    · simp [heq]
  rw [List.takeWhile_filter, htest]

lemma keys_eq_ahead_append {cache : Cache α} {key : Key} (h : key ∈ cache.keys) :
    ∃ behind, cache.keys = cache.ahead key ++ key :: behind := by
  obtain ⟨front, behind, hkeys, hfront⟩ := List.eq_append_cons_of_mem h
  refine ⟨behind, ?_⟩
  rw [ahead, hkeys, takeWhile_append_cons hfront]

lemma ahead_subset_keys (cache : Cache α) (key : Key) : cache.ahead key ⊆ cache.keys :=
  (List.takeWhile_sublist _).subset

/-- Right after its own fetch no key is ahead of a key. -/
lemma ahead_fetch_self (cache : Cache α) (key : Key) (build : Unit → α) :
    (cache.fetch key build).2.ahead key = [] := by
  by_cases h : key ∈ cache.keys
  · rw [ahead, keys_fetch_of_mem h]
    simp
  · rw [ahead, keys_fetch_of_not_mem h]
    cases cache.capacity <;> simp

/-- A fetch of another key puts that key ahead, in front of those that were ahead before. -/
lemma ahead_fetch {cache : Cache α} {key other : Key} (hne : key ≠ other) (build : Unit → α)
    (h : key ∈ (cache.fetch other build).2.keys) :
    (cache.fetch other build).2.ahead key = other :: (cache.ahead key).filter (· != other) := by
  have hpass : (other != key) = true := by simpa using hne.symm
  by_cases hother : other ∈ cache.keys
  · have hstays : (key != other) = true := by simpa using hne
    rw [ahead, keys_fetch_of_mem hother, List.takeWhile_cons, if_pos hpass,
      takeWhile_filter_of_pos (· != other) hstays]
    rfl
  · -- What a miss drops is behind the key, since the key is still there.
    rw [keys_fetch_of_not_mem hother] at h
    have hall : ∀ k ∈ cache.ahead key, (k != other) = true := by
      intro k hk
      simp only [bne_iff_ne, ne_eq]
      rintro rfl
      exact hother (cache.ahead_subset_keys key hk)
    rw [ahead, keys_fetch_of_not_mem hother, takeWhile_of_isPrefix (List.take_prefix ..) h, List.takeWhile_cons,
      if_pos hpass, List.filter_eq_self.2 hall]
    rfl

lemma ahead_forget (cache : Cache α) {key : Key} {buffer : Nat} (hne : key.buffer ≠ buffer) :
    (cache.forget buffer).ahead key = (cache.ahead key).filter (·.buffer != buffer) := by
  rw [ahead, keys_forget, takeWhile_filter_of_pos _ (by simpa using hne)]
  rfl

/-- A key stays through a fetch of another one, if there is room for both and for the keys ahead. -/
lemma mem_keys_fetch {cache : Cache α} {key other : Key} (h : key ∈ cache.keys) (hne : key ≠ other)
    (build : Unit → α)
    (hroom : other ∈ cache.keys ∨ (other :: cache.ahead key).length < cache.capacity) :
    key ∈ (cache.fetch other build).2.keys := by
  by_cases hother : other ∈ cache.keys
  · rw [keys_fetch_of_mem hother]
    exact List.mem_cons_of_mem _ (List.mem_filter.2 ⟨h, by simpa using hne⟩)
  · have hlength := hroom.resolve_left hother
    obtain ⟨behind, hkeys⟩ := keys_eq_ahead_append h
    rw [keys_fetch_of_not_mem hother, hkeys, ← List.cons_append, List.take_append]
    refine List.mem_append_right _ ?_
    obtain ⟨room, hcapacity⟩ : ∃ room, cache.capacity - (other :: cache.ahead key).length = room + 1 :=
      ⟨cache.capacity - (other :: cache.ahead key).length - 1, by omega⟩
    rw [hcapacity, List.take_succ_cons]
    exact List.mem_cons_self ..

/-- The key of a fetch is there after it, if there is room for one. -/
lemma mem_keys_fetch_self {cache : Cache α} (hroom : 1 ≤ cache.capacity) (key : Key) (build : Unit → α) :
    key ∈ (cache.fetch key build).2.keys := by
  by_cases h : key ∈ cache.keys
  · rw [keys_fetch_of_mem h]
    exact List.mem_cons_self ..
  · obtain ⟨room, hcapacity⟩ : ∃ room, cache.capacity = room + 1 := ⟨cache.capacity - 1, by omega⟩
    rw [keys_fetch_of_not_mem h, hcapacity, List.take_succ_cons]
    exact List.mem_cons_self ..

/-! ## Since the last fetch of a key -/

private lemma card_toFinset_le {keys others : List Key} (h : keys ⊆ others) :
    keys.toFinset.card ≤ others.toFinset.card := by
  refine Finset.card_le_card fun key hkey => ?_
  rw [List.mem_toFinset] at hkey ⊢
  exact h hkey

section Since

variable {cache : Cache α} {key : Key} {since : List (Request α)}

/-- While fewer other keys are asked for than the cache has places, and the key's buffer is not forgotten, the
key stays; ahead of it are only keys that were asked for. -/
lemma ahead_subset (horderly : cache.Orderly) (hkey : key ∈ cache.keys) (hfront : cache.ahead key = [])
    (hsince : key ∉ requested since) (hkept : Request.forget key.buffer ∉ since)
    (hfew : (requested since).toFinset.card < cache.capacity) :
    key ∈ (cache.serveAll since).keys ∧ (cache.serveAll since).ahead key ⊆ requested since := by
  induction since using List.reverseRecOn with
  | nil => exact ⟨hkey, fun other hother => by rwa [serveAll, List.foldl_nil, hfront] at hother⟩
  | append_singleton since request ih =>
    rw [requested_append] at hsince hfew ⊢
    rw [List.mem_append, not_or] at hsince hkept
    have hfewer : (requested since).toFinset.card ≤ (requested since ++ requested [request]).toFinset.card :=
      card_toFinset_le (List.subset_append_left ..)
    obtain ⟨hstays, hsubset⟩ := ih hsince.1 hkept.1 (Nat.lt_of_le_of_lt hfewer hfew)
    obtain ⟨hnow, hcapacity⟩ := horderly.serveAll since
    rw [serveAll_concat]
    cases request with
    | fetch other build =>
      have hne : key ≠ other := fun heq => hsince.2 (by simp [heq])
      have hroom : other ∈ (cache.serveAll since).keys ∨
          (other :: (cache.serveAll since).ahead key).length < (cache.serveAll since).capacity := by
        by_cases hother : other ∈ (cache.serveAll since).keys
        · exact Or.inl hother
        · -- The keys ahead and the new one are distinct keys that were asked for, so there are few of them.
          right
          have hnodup : (other :: (cache.serveAll since).ahead key).Nodup := by
            refine List.nodup_cons.2 ⟨fun hmem => hother (ahead_subset_keys _ _ hmem), ?_⟩
            exact hnow.nodup.sublist (List.takeWhile_sublist _)
          have hasked : other :: (cache.serveAll since).ahead key
              ⊆ requested since ++ requested [.fetch other build] := by
            intro k hk
            rcases List.mem_cons.1 hk with rfl | hk
            · exact List.mem_append_right _ (List.mem_singleton_self _)
            · exact List.mem_append_left _ (hsubset hk)
          rw [hcapacity, ← List.toFinset_card_of_nodup hnodup]
          exact Nat.lt_of_le_of_lt (card_toFinset_le hasked) hfew
      have hmem := mem_keys_fetch hstays hne build hroom
      refine ⟨hmem, ?_⟩
      rw [serve, ahead_fetch hne build hmem]
      intro k hk
      rcases List.mem_cons.1 hk with rfl | hk
      · exact List.mem_append_right _ (List.mem_singleton_self _)
      · exact List.mem_append_left _ (hsubset (List.mem_filter.1 hk).1)
    | forget buffer =>
      have hne : key.buffer ≠ buffer := fun heq => hkept.2 (by simp [heq])
      rw [serve, keys_forget, ahead_forget _ hne]
      refine ⟨List.mem_filter.2 ⟨hstays, by simpa using hne⟩, fun k hk => ?_⟩
      exact List.mem_append_left _ (hsubset (List.mem_filter.1 hk).1)

/-- While no buffer is forgotten, every key that was asked for is ahead of the key, as long as the key
stays. -/
lemma subset_ahead (hsince : key ∉ requested since) (hkept : ∀ buffer, Request.forget buffer ∉ since)
    (hkey : key ∈ (cache.serveAll since).keys) : requested since ⊆ (cache.serveAll since).ahead key := by
  induction since using List.reverseRecOn with
  | nil => exact List.nil_subset _
  | append_singleton since request ih =>
    rw [requested_append] at hsince ⊢
    rw [List.mem_append, not_or] at hsince
    have hkeptBefore : ∀ buffer, Request.forget buffer ∉ since :=
      fun buffer hmem => hkept buffer (List.mem_append_left _ hmem)
    rw [serveAll_concat] at hkey ⊢
    cases request with
    | fetch other build =>
      have hne : key ≠ other := fun heq => hsince.2 (by simp [heq])
      have hother : (Request.fetch other build).key? ≠ some key := fun heq => hne (Option.some.inj heq).symm
      have hbefore : key ∈ (cache.serveAll since).keys := mem_keys_of_serve hother hkey
      have hsubset := ih hsince.1 hkeptBefore hbefore
      rw [serve, ahead_fetch hne build hkey]
      intro k hk
      by_cases heq : k = other
      · exact heq ▸ List.mem_cons_self ..
      · have hold : k ∈ requested since := by simpa [heq] using hk
        exact List.mem_cons_of_mem _ (List.mem_filter.2 ⟨hsubset hold, by simpa using heq⟩)
    | forget buffer => exact absurd (List.mem_append_right _ (List.mem_singleton_self _)) (hkept buffer)

/-- A key whose buffer was forgotten is gone. -/
lemma not_mem_keys_of_forgotten (hsince : key ∉ requested since)
    (hforgotten : Request.forget key.buffer ∈ since) : key ∉ (cache.serveAll since).keys := by
  obtain ⟨before, after, rfl⟩ := List.append_of_mem hforgotten
  rw [requested_append, List.mem_append, not_or] at hsince
  have hgone : key ∉ ((cache.serveAll before).forget key.buffer).keys := by
    rw [keys_forget]
    simp
  rw [serveAll_append]
  exact not_mem_keys_serveAll hgone hsince.2

/-- A key is gone when as many others were asked for as there are places, and no place was given free. -/
lemma not_mem_keys_of_crowded (horderly : cache.Orderly) (hsince : key ∉ requested since)
    (hkept : ∀ buffer, Request.forget buffer ∉ since)
    (hmany : cache.capacity ≤ (requested since).toFinset.card) : key ∉ (cache.serveAll since).keys := by
  intro hkey
  obtain ⟨hnow, hcapacity⟩ := horderly.serveAll since
  obtain ⟨behind, hkeys⟩ := keys_eq_ahead_append hkey
  -- The keys that were asked for and the key itself would all be there.
  have hahead : (requested since).toFinset.card ≤ ((cache.serveAll since).ahead key).length :=
    Nat.le_trans (card_toFinset_le (subset_ahead hsince hkept hkey)) (List.toFinset_card_le _)
  have hlength := congrArg List.length hkeys
  rw [List.length_append, List.length_cons] at hlength
  have hbound := hnow.length_le
  omega

end Since

/-- What a cache does over a trace of fetches and forgotten buffers. It never holds more than its bound, every
fetch is counted once, and a fetch gives what the most recent miss on its key built; only on a miss something
is built.

A fetch is a hit if, since the fetch of its key before, its buffer was not forgotten and fewer other keys were
asked for than the bound. It is a miss if its key was never asked for, if its buffer was forgotten since the
fetch before, and if no buffer was forgotten since then but as many other keys were asked for as the bound. -/
theorem serveAll_keeps_recent (capacity : Nat) (past : List (Request α)) :
    let bound := max 1 capacity
    let cache := (Cache.new capacity).serveAll past
    cache.size ≤ bound ∧
      cache.hits + cache.misses = (requested past).length ∧
      ∀ key,
        (cache.HitsOn key ∨ cache.MissesOn key) ∧
        (∀ build, (Cache.new capacity).lastBuilt? key (past ++ [.fetch key build])
          = some (cache.fetch key build).1) ∧
        (key ∉ requested past → cache.MissesOn key) ∧
        ∀ before build since, past = before ++ .fetch key build :: since → key ∉ requested since →
          (.forget key.buffer ∉ since → (requested since).toFinset.card < bound → cache.HitsOn key) ∧
          (.forget key.buffer ∈ since → cache.MissesOn key) ∧
          ((∀ buffer, .forget buffer ∉ since) → bound ≤ (requested since).toFinset.card →
            cache.MissesOn key) := by
  intro bound cache
  have hnew : (Cache.new capacity : Cache α).Orderly := orderly_new capacity
  obtain ⟨horderly, hcapacity⟩ := hnew.serveAll past
  refine ⟨?_, ?_, fun key => ⟨?_, ?_, ?_, ?_⟩⟩
  · rw [← length_keys]
    exact Nat.le_trans horderly.length_le (Nat.le_of_eq hcapacity)
  · rw [hits_add_misses_serveAll]
    exact Nat.zero_add _
  · by_cases hkey : key ∈ cache.keys
    · exact Or.inl (hitsOn_of_mem hkey)
    · exact Or.inr (missesOn_of_not_mem hkey)
  · exact lastBuilt?_fetch rfl past key
  · intro hnever
    exact missesOn_of_not_mem (not_mem_keys_serveAll List.not_mem_nil hnever)
  · intro before build since hpast hsince
    -- The cache right after the fetch before, from which the rest of the trace goes on.
    obtain ⟨hbefore, hbeforeCapacity⟩ := hnew.serveAll before
    let fetched := ((Cache.new capacity).serveAll before).serve (.fetch key build)
    have hfetched : fetched.Orderly := hbefore.serve _
    have hfetchedCapacity : fetched.capacity = bound := (capacity_serve ..).trans hbeforeCapacity
    have hrest : cache = fetched.serveAll since := by
      show (Cache.new capacity).serveAll past = _
      rw [hpast, serveAll_append]
      rfl
    rw [hrest]
    refine ⟨?_, ?_, ?_⟩
    · intro hkept hfew
      have hroom : 1 ≤ ((Cache.new capacity : Cache α).serveAll before).capacity :=
        hbeforeCapacity ▸ Nat.le_max_left 1 capacity
      exact hitsOn_of_mem (ahead_subset hfetched (mem_keys_fetch_self hroom key build)
        (ahead_fetch_self _ key build) hsince hkept (hfetchedCapacity ▸ hfew)).1
    · intro hforgotten
      exact missesOn_of_not_mem (not_mem_keys_of_forgotten hsince hforgotten)
    · intro hkept hmany
      exact missesOn_of_not_mem (not_mem_keys_of_crowded hfetched hsince hkept (hfetchedCapacity ▸ hmany))

/-! ### Two places for three keys -/

/-- A key of a buffer. -/
def bufferKey (buffer : Nat) : Key :=
  ⟨buffer, 1, 0, "c"⟩

/-- A trace in which one buffer is forgotten. Each fetch would build another number. -/
def forgetfulTrace : List (Request Nat) :=
  [.fetch (bufferKey 1) fun _ => 10, .fetch (bufferKey 2) fun _ => 20, .forget 2,
   .fetch (bufferKey 1) fun _ => 30, .fetch (bufferKey 3) fun _ => 40]

/-- With two places, the trace leaves the first key with its first value and the second one without any. One
more key is too many for the first. -/
theorem forgetfulTrace_keeps_recent :
    let cache := (Cache.new 2).serveAll forgetfulTrace
    let crowded := (Cache.new 2).serveAll (forgetfulTrace ++ [.fetch (bufferKey 4) fun _ => 50])
    cache.size ≤ 2 ∧ cache.hits + cache.misses = 4 ∧ cache.HitsOn (bufferKey 1) ∧
      (cache.fetch (bufferKey 1) fun _ => 60).1 = 10 ∧ cache.MissesOn (bufferKey 2) ∧
      cache.MissesOn (bufferKey 4) ∧ crowded.MissesOn (bufferKey 1) := by
  intro cache crowded
  obtain ⟨hsize, hcounted, hkeys⟩ := serveAll_keeps_recent 2 forgetfulTrace
  obtain ⟨-, hlast, -, hfirst⟩ := hkeys (bufferKey 1)
  obtain ⟨-, -, -, hsecond⟩ := hkeys (bufferKey 2)
  obtain ⟨-, -, hfourth, -⟩ := hkeys (bufferKey 4)
  obtain ⟨-, -, -, hcrowded⟩ :=
    (serveAll_keeps_recent 2 (forgetfulTrace ++ [.fetch (bufferKey 4) fun _ => 50])).2.2 (bufferKey 1)
  have hvalue : some (cache.fetch (bufferKey 1) fun _ => 60).1 = some 10 := (hlast _).symm.trans (by decide)
  refine ⟨hsize, hcounted, ?_, Option.some.inj hvalue, ?_, hfourth (by decide), ?_⟩
  · exact (hfirst (forgetfulTrace.take 3) _ _ rfl (by decide)).1 (by simp) (by decide)
  · exact (hsecond (forgetfulTrace.take 1) _ _ rfl (by decide)).2.1 (by simp [bufferKey])
  · exact (hcrowded (forgetfulTrace.take 3) _ _ rfl (by decide)).2.2 (by simp) (by decide)

end TreeIndent.Cache
