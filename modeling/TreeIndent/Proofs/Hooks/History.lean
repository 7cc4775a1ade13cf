import TreeIndent.Hooks
import Mathlib.Data.Finset.Card

/-!
# What detaching gives back

A history is any sequence of calls on the hooks, for any buffers. What a call gets is read off the history
itself: only the calls on the same buffer count, of these only the ones since it was last detached
(`sinceDetach`), and of these only the first that attached it (`firstSaved?`).

* `get?_serve`: what one call does to the saved expression of a buffer.
* `get?_serveAll`: the saved expression after a whole history.
* `replies_filter`: the calls on one buffer get what they would get without all other calls.
-/

namespace TreeIndent.Hooks

/-! ## Histories -/

/-- A call on the hooks. -/
inductive Call where
  | attach (buffer : Nat) (previous : Option String)
  | detach (buffer : Nat)
  | isAttached (buffer : Nat)
deriving DecidableEq

/-- What a call gets. -/
inductive Reply where
  | done
  /-- The expression that the buffer had before, if it was attached. -/
  | detached (previous : Option (Option String))
  | attached (answer : Bool)
deriving DecidableEq

/-- The buffer that a call is about. -/
def Call.buffer : Call → Nat
  | .attach buffer _ => buffer
  | .detach buffer => buffer
  | .isAttached buffer => buffer

/-- What a call gets, and the hooks after it. -/
def serve (hooks : Hooks) : Call → Reply × Hooks
  | .attach buffer previous => (.done, hooks.attach buffer previous)
  | .detach buffer => (.detached (hooks.detach buffer).1, (hooks.detach buffer).2)
  | .isAttached buffer => (.attached (hooks.isAttached buffer), hooks)

/-- The hooks after a history. -/
def serveAll (hooks : Hooks) (calls : List Call) : Hooks :=
  calls.foldl (fun hooks call => (hooks.serve call).2) hooks

/-- The calls of a history, each with what it got. -/
def replies (hooks : Hooks) : List Call → List (Call × Reply)
  | [] => []
  | call :: rest => (call, (hooks.serve call).1) :: (hooks.serve call).2.replies rest

lemma serveAll_concat (hooks : Hooks) (calls : List Call) (call : Call) :
    hooks.serveAll (calls ++ [call]) = ((hooks.serveAll calls).serve call).2 := by
  simp [serveAll]

/-! ## Since a buffer was last detached -/

/-- The calls of a history after the last one that detached a buffer; all of them if none did. -/
def sinceDetach (buffer : Nat) (calls : List Call) : List Call :=
  (calls.reverse.takeWhile (· ≠ .detach buffer)).reverse

/-- Whether a buffer was attached since it was last detached. -/
def AttachedSince (calls : List Call) (buffer : Nat) : Prop :=
  ∃ previous, .attach buffer previous ∈ sinceDetach buffer calls

/-- The expression that a call saves for a buffer, if it attaches that buffer. -/
def Call.saves? (buffer : Nat) : Call → Option (Option String)
  | .attach other previous => if other = buffer then some previous else none
  | _ => none

/-- The expression saved by the first call that attached a buffer since it was last detached. -/
def firstSaved? (calls : List Call) (buffer : Nat) : Option (Option String) :=
  (sinceDetach buffer calls).findSome? (Call.saves? buffer)

lemma sinceDetach_concat (buffer : Nat) (calls : List Call) (call : Call) :
    sinceDetach buffer (calls ++ [call]) =
      if call = .detach buffer then [] else sinceDetach buffer calls ++ [call] := by
  unfold sinceDetach
  rw [List.reverse_concat, List.takeWhile_cons]
  by_cases hcall : call = .detach buffer
  · simp [hcall]
  · simp [hcall]

lemma Call.saves?_eq_some_iff {call : Call} {buffer : Nat} {previous : Option String} :
    call.saves? buffer = some previous ↔ call = .attach buffer previous := by
  cases call with
  | attach other saved =>
    unfold saves?
    by_cases hother : other = buffer
    · simp [hother]
    · simp [hother]
  | detach other => simp [saves?]
  | isAttached other => simp [saves?]

lemma forall_saves?_eq_none_iff {calls : List Call} {buffer : Nat} :
    (∀ call ∈ calls, call.saves? buffer = none) ↔ ∀ previous, .attach buffer previous ∉ calls := by
  constructor
  · intro hnone previous hmem
    have hsaved := hnone _ hmem
    rw [Call.saves?_eq_some_iff.2 rfl] at hsaved
    cases hsaved
  · intro hnot call hmem
    cases hsaved : call.saves? buffer with
    | none => rfl
    | some previous =>
      have hcall := Call.saves?_eq_some_iff.1 hsaved
      exact absurd (hcall ▸ hmem) (hnot previous)

/-- Nothing is saved just if the buffer was not attached since. -/
lemma firstSaved?_eq_none_iff {calls : List Call} {buffer : Nat} :
    firstSaved? calls buffer = none ↔ ¬ AttachedSince calls buffer := by
  unfold firstSaved? AttachedSince
  rw [List.findSome?_eq_none_iff, forall_saves?_eq_none_iff, not_exists]

/-- What is saved is from a call that attached the buffer, with no such call before it. -/
lemma firstSaved?_eq_some_iff {calls : List Call} {buffer : Nat} {previous : Option String} :
    firstSaved? calls buffer = some previous ↔
      ∃ before after, sinceDetach buffer calls = before ++ .attach buffer previous :: after ∧
        ∀ other, .attach buffer other ∉ before := by
  unfold firstSaved?
  rw [List.findSome?_eq_some_iff]
  constructor
  · rintro ⟨before, call, after, hsplit, hcall, hnone⟩
    rw [Call.saves?_eq_some_iff.1 hcall] at hsplit
    exact ⟨before, after, hsplit, forall_saves?_eq_none_iff.1 hnone⟩
  · rintro ⟨before, after, hsplit, hnot⟩
    exact ⟨before, _, after, hsplit, Call.saves?_eq_some_iff.2 rfl, forall_saves?_eq_none_iff.2 hnot⟩

/-! ## What a history leaves -/

/-- One call: detaching a buffer takes away what is saved for it, and attaching it saves an expression where
none is saved. No other call does anything to it. -/
lemma get?_serve (hooks : Hooks) (call : Call) (buffer : Nat) :
    (hooks.serve call).2.attached.get? buffer =
      if call = .detach buffer then none else (hooks.attached.get? buffer).or (call.saves? buffer) := by
  cases call with
  | attach other previous =>
    rw [if_neg (by simp)]
    show (hooks.attach other previous).attached.get? buffer = _
    unfold attach Call.saves?
    by_cases hother : other = buffer
    · subst hother
      cases hget : hooks.attached.get? other with
      | none => simp [Table.contains, hget, Table.get?_insert]
      | some saved => simp [Table.contains, hget]
    · have hne : buffer ≠ other := fun heq => hother heq.symm
      by_cases hcontains : hooks.attached.contains other
      · simp [hcontains, hother]
      · simp [hcontains, hother, hne, Table.get?_insert]
  | detach other =>
    show (hooks.attached.erase other).get? buffer = _
    rw [Table.get?_erase]
    by_cases hother : other = buffer
    · simp [hother]
    · have hne : buffer ≠ other := fun heq => hother heq.symm
      simp [hother, hne, Call.saves?]
  | isAttached other =>
    rw [if_neg (by simp)]
    simp [serve, Call.saves?]

/-- A whole history: what is saved for a buffer is what the first call saved that attached it since it was last
detached. -/
lemma get?_serveAll (calls : List Call) (buffer : Nat) :
    (empty.serveAll calls).attached.get? buffer = firstSaved? calls buffer := by
  induction calls using List.reverseRecOn with
  | nil => rfl
  | append_singleton calls call ih =>
    rw [serveAll_concat, get?_serve, ih]
    unfold firstSaved?
    rw [sinceDetach_concat]
    by_cases hcall : call = .detach buffer
    · rw [if_pos hcall, if_pos hcall]
      rfl
    · rw [if_neg hcall, if_neg hcall, List.findSome?_append, List.findSome?_singleton]

/-- The size of the hooks counts the attached buffers. -/
lemma size_eq_card (hooks : Hooks) :
    ∃ buffers : Finset Nat, hooks.size = buffers.card ∧
      ∀ buffer, buffer ∈ buffers ↔ hooks.isAttached buffer = true := by
  refine ⟨hooks.attached.keys.toFinset, ?_, ?_⟩
  · rw [List.toFinset_card_of_nodup hooks.attached.nodup_keys]
    exact (List.length_map ..).symm
  · intro buffer
    rw [List.mem_toFinset, Table.mem_keys]
    rfl

/-! ## One buffer among others -/

/-- Hooks that have the same saved for a buffer give a call on the buffer the same, and go on so. -/
lemma serve_fst_congr {hooks other : Hooks} {call : Call}
    (h : hooks.attached.get? call.buffer = other.attached.get? call.buffer) :
    (hooks.serve call).1 = (other.serve call).1 := by
  cases call with
  | attach buffer previous => rfl
  | detach buffer => exact congrArg Reply.detached h
  | isAttached buffer => exact congrArg (fun saved => Reply.attached saved.isSome) h

/-- A call on one buffer leaves what is saved for another. -/
lemma get?_serve_of_ne {hooks : Hooks} {call : Call} {buffer : Nat} (h : call.buffer ≠ buffer) :
    (hooks.serve call).2.attached.get? buffer = hooks.attached.get? buffer := by
  have hsaves : call.saves? buffer = none := by
    cases hsaved : call.saves? buffer with
    | none => rfl
    | some previous =>
      rw [Call.saves?_eq_some_iff.1 hsaved] at h
      exact absurd rfl h
  have hcall : call ≠ .detach buffer := by
    intro heq
    rw [heq] at h
    exact h rfl
  rw [get?_serve, if_neg hcall, hsaves, Option.or_none]

/-- The calls on one buffer get what they would get without the calls on all other buffers. -/
lemma replies_filter {hooks other : Hooks} {buffer : Nat}
    (h : hooks.attached.get? buffer = other.attached.get? buffer) (calls : List Call) :
    (hooks.replies calls).filter (·.1.buffer == buffer) =
      other.replies (calls.filter (·.buffer == buffer)) := by
  induction calls generalizing hooks other with
  | nil => rfl
  | cons call rest ih =>
    rw [replies]
    by_cases hbuffer : call.buffer = buffer
    · -- Both hooks serve the call, and still have the same saved for its buffer.
      have hafter : (hooks.serve call).2.attached.get? buffer = (other.serve call).2.attached.get? buffer := by
        rw [get?_serve, get?_serve, h]
      rw [List.filter_cons_of_pos (by simpa using hbuffer), List.filter_cons_of_pos (by simpa using hbuffer),
        replies, serve_fst_congr (hbuffer ▸ h), ih hafter]
    · have hafter : (hooks.serve call).2.attached.get? buffer = other.attached.get? buffer := by
        rw [get?_serve_of_ne hbuffer, h]
      rw [List.filter_cons_of_neg (by simpa using hbuffer), List.filter_cons_of_neg (by simpa using hbuffer),
        ih hafter]

/-- After any history, detaching a buffer gives nothing just if it was not attached since it was last detached,
and otherwise the expression saved by the first call that attached it since. It counts as attached just if
there is such a call, the size is the number of the buffers for which there is one, and in the whole history
the calls on one buffer got what they would have got without all other calls. -/
theorem detach_gives_first_saved (calls : List Call) (buffer : Nat) :
    let hooks := empty.serveAll calls
    ((hooks.detach buffer).1 = none ↔ ¬ AttachedSince calls buffer) ∧
    (∀ previous, (hooks.detach buffer).1 = some previous ↔
      ∃ before after, sinceDetach buffer calls = before ++ .attach buffer previous :: after ∧
        ∀ other, .attach buffer other ∉ before) ∧
    (hooks.isAttached buffer = true ↔ AttachedSince calls buffer) ∧
    (∃ buffers : Finset Nat, hooks.size = buffers.card ∧
      ∀ other, other ∈ buffers ↔ AttachedSince calls other) ∧
    (empty.replies calls).filter (·.1.buffer == buffer) =
      empty.replies (calls.filter (·.buffer == buffer)) := by
  intro hooks
  have hdetach : (hooks.detach buffer).1 = firstSaved? calls buffer := get?_serveAll calls buffer
  have hattached : ∀ other, hooks.isAttached other = true ↔ AttachedSince calls other := by
    intro other
    show (hooks.attached.get? other).isSome = true ↔ _
    rw [get?_serveAll, ← not_iff_not, Option.not_isSome_iff_eq_none]
    exact firstSaved?_eq_none_iff
  refine ⟨?_, ?_, hattached buffer, ?_, replies_filter rfl calls⟩
  · rw [hdetach]
    exact firstSaved?_eq_none_iff
  · intro previous
    rw [hdetach]
    exact firstSaved?_eq_some_iff
  · obtain ⟨buffers, hsize, hmem⟩ := size_eq_card hooks
    exact ⟨buffers, hsize, fun other => (hmem other).trans (hattached other)⟩

/-- Attached with no expression, attached again and asked for, then detached twice. -/
example :
    (empty.replies [.attach 1 none, .attach 2 (some "cindent"), .attach 1 (some "own"), .isAttached 1,
      .detach 1, .detach 1]).map Prod.snd
      = [.done, .done, .done, .attached true, .detached (some none), .detached none] := by
  decide

end TreeIndent.Hooks
