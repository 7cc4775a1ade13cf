import TreeIndent.Proofs.Config.Search
import TreeIndent.Proofs.Walk.Locality
import TreeIndent.Proofs.Walk.Sum
import Mathlib.Algebra.Order.Ring.Int

/-!
# Nested blocks

Where the only marks are plain begins, the indent of a line in a host tree counts rows. Every row but the line's
own on which a block around the line opens is worth one level, however many blocks open on it (`openRows`), and
the column is the level times the number of these rows, or zero where that is negative
(`indentOf_of_onlyBegins`).

One more begin opens more rows or none, so the line never moves to the left (`indentOf_le_withBegin`), as long as
the larger of the two sums is a word. A width in the upper half of the 64-bit words is read as a negative level.
It keeps every line at column zero, and so one more begin does not move a line there either.
-/

namespace TreeIndent

/-! ## Markings of plain begins -/

namespace Marking

/-- The only marks are begins without attributes. -/
def OnlyBegins (marking : Marking) : Prop :=
  ∀ entry ∈ marking.table.entries, entry.1.1 = .begin ∧ entry.2 = {}

instance (marking : Marking) : Decidable marking.OnlyBegins :=
  inferInstanceAs (Decidable (∀ entry ∈ marking.table.entries, _))

lemma OnlyBegins.of_get? {marking : Marking} (h : marking.OnlyBegins) {role : Role} {id : Nat}
    {attrs : Attributes} (hget : marking.get? role id = some attrs) : role = .begin ∧ attrs = {} :=
  h ((role, id), attrs) (Table.get?_eq_some_iff.1 hget)

lemma OnlyBegins.bucket_of_ne {marking : Marking} (h : marking.OnlyBegins) {role : Role}
    (hrole : role ≠ .begin) : marking.bucket role = [] := by
  apply bucket_eq_nil
  intro entry hentry
  rw [(h entry hentry).1]
  exact hrole.symm

/-- Marking one more node as a plain begin. A node that is one already stays as it is. -/
lemma OnlyBegins.get?_mark {marking : Marking} (h : marking.OnlyBegins) (id other : Nat) (role : Role) :
    (marking.mark .begin id {}).get? role other
      = if (role, other) = (.begin, id) then some {} else marking.get? role other := by
  have hmerged : ((marking.get? .begin id).getD {}).merge {} = {} := by
    cases hget : marking.get? .begin id with
    | none => rfl
    | some attrs => rw [(h.of_get? hget).2]; rfl
  rw [Marking.get?_mark, hmerged]

lemma OnlyBegins.mark {marking : Marking} (h : marking.OnlyBegins) (id : Nat) :
    (marking.mark .begin id {}).OnlyBegins := by
  rintro ⟨⟨role, other⟩, attrs⟩ hentry
  have hget : (marking.mark .begin id {}).get? role other = some attrs := Table.get?_eq_some_iff.2 hentry
  rw [h.get?_mark] at hget
  split at hget
  · next heq => exact ⟨(Prod.mk.inj heq).1, (Option.some.inj hget).symm⟩
  · exact h.of_get? hget

end Marking

namespace Walk

/-! ## The rows on which blocks open -/

/-- The row of the node at a position, if the node fills it. -/
def openRowAt (walk : Walk) (row : Nat) (chain : List Node) (i : Nat) : Finset Nat :=
  (chain[i]?).elim ∅ fun node => if walk.Fills row (parentError chain i) node then {node.start.row} else ∅

/-- The rows that the nodes below a position fill. -/
def openRowsBelow (walk : Walk) (row : Nat) (chain : List Node) (i : Nat) : Finset Nat :=
  (Finset.range i).biUnion (walk.openRowAt row chain)

/-- The rows on which blocks around a line open. -/
def openRows (walk : Walk) (line : Nat) : Finset Nat :=
  walk.openRowsBelow (line - 1) (walk.anchor line).chain (walk.anchor line).chain.length

lemma openRowAt_eq {chain : List Node} {i : Nat} {node : Node} (hnode : chain[i]? = some node) (walk : Walk)
    (row : Nat) :
    walk.openRowAt row chain i
      = if walk.Fills row (parentError chain i) node then {node.start.row} else ∅ := by
  unfold openRowAt
  rw [hnode]
  rfl

lemma openRowsBelow_succ (walk : Walk) (row : Nat) (chain : List Node) (i : Nat) :
    walk.openRowsBelow row chain (i + 1) = walk.openRowAt row chain i ∪ walk.openRowsBelow row chain i := by
  unfold openRowsBelow
  rw [Finset.range_add_one, Finset.biUnion_insert]

/-- The rows of the set are those that the chain has used up. -/
lemma mem_openRowsBelow {walk : Walk} {row : Nat} {chain : List Node} {i r : Nat} :
    r ∈ walk.openRowsBelow row chain i ↔ Taken (walk.Fills row) chain i r := by
  unfold openRowsBelow Taken
  simp only [Finset.mem_biUnion, Finset.mem_range]
  refine exists_congr fun j => and_congr_right fun _ => ?_
  cases hnode : chain[j]? with
  | none => simp [openRowAt, hnode]
  | some node =>
    rw [openRowAt_eq hnode]
    by_cases hfills : walk.Fills row (parentError chain j) node
    · simp [hfills, eq_comm]
    · simp [hfills]

/-! ## The level of a line -/

/-- The node takes no level away, and it adds one level if anything. -/
def Plain (walk : Walk) (row : Nat) (node : Node) : Prop :=
  ¬ walk.Outdents row node ∧ ∀ attrs ∈ walk.marking.get? .begin node.id, attrs = {}

section Plain

variable {walk : Walk} {row : Nat} {node : Node} (h : walk.Plain row node)

include h

/-- A plain node fills its row just if it is a begin that counts for the line. -/
lemma Plain.fills_iff {inError : Bool} :
    walk.Fills row inError node ↔
      walk.marking.get? .begin node.id = some {} ∧ IndentsBy row inError node {} := by
  unfold Fills
  rw [or_iff_right h.1]
  constructor
  · rintro ⟨attrs, hattrs, hindents, -⟩
    obtain rfl := h.2 attrs hattrs
    exact ⟨hattrs, hindents⟩
  · rintro ⟨hget, hindents⟩
    exact ⟨{}, hget, hindents, rfl⟩

-- The level is a variable here, so that no check unfolds it down to the 64-bit words.
private lemma plain_sum_eq (inError : Bool) (level : Int) :
    (if walk.Outdents row node then -level else 0) +
      (match walk.marking.get? .begin node.id with
        | some attrs => if IndentsBy row inError node attrs then attrs.increment.getD level else 0
        | none => 0)
      = if walk.Fills row inError node then level else 0 := by
  rw [if_neg h.1, Int.zero_add]
  cases hget : walk.marking.get? .begin node.id with
  | none =>
    have hfills : ¬ walk.Fills row inError node := by
      rw [h.fills_iff, hget]
      simp
    rw [if_neg hfills]
  | some attrs =>
    obtain rfl := h.2 attrs hget
    have hfills : walk.Fills row inError node ↔ IndentsBy row inError node {} := by
      rw [h.fills_iff, hget]
      simp
    simp only [hfills, Option.getD_none]

/-- A plain node that fills its row adds one level, and any other adds nothing. -/
lemma Plain.share_eq (inError : Bool) :
    walk.share row inError node = if walk.Fills row inError node then walk.level else 0 :=
  plain_sum_eq h inError walk.level

end Plain

/-- From a position on where all nodes are plain, the shares add up to one level for each row that is filled
anew. -/
lemma sumBelow_of_plain {walk : Walk} {row : Nat} {chain : List Node} {k i : Nat}
    (hplain : ∀ j, k ≤ j → ∀ node ∈ chain[j]?, walk.Plain row node) (hki : k ≤ i) (hi : i ≤ chain.length) :
    walk.sumBelow row chain i = walk.sumBelow row chain k +
      walk.level * ((walk.openRowsBelow row chain i).card - (walk.openRowsBelow row chain k).card) := by
  induction i, hki using Nat.le_induction with
  | base => rw [Int.sub_self, Int.mul_zero, Int.add_zero]
  | succ i hki ih =>
    obtain ⟨node, hnode⟩ : ∃ node, chain[i]? = some node := ⟨_, List.getElem?_eq_getElem hi⟩
    rw [sumBelow_succ hnode, ih (Nat.le_of_lt hi), (hplain i hki node hnode).share_eq, openRowsBelow_succ,
      openRowAt_eq hnode]
    generalize walk.level = level
    by_cases hfills : walk.Fills row (parentError chain i) node
    · rw [if_pos hfills, if_pos hfills, ← Finset.insert_eq]
      by_cases htaken : Taken (walk.Fills row) chain i node.start.row
      · -- The row was filled from below: it is worth one level only once.
        rw [if_pos htaken, Finset.insert_eq_of_mem (mem_openRowsBelow.2 htaken), Int.add_zero]
      · have hnew : node.start.row ∉ walk.openRowsBelow row chain i := fun hmem =>
          htaken (mem_openRowsBelow.1 hmem)
        rw [if_neg htaken, Finset.card_insert_of_notMem hnew]
        push_cast
        ring
    · rw [if_neg hfills, if_neg hfills, Finset.empty_union, ite_self, Int.add_zero]

/-- Along a chain of plain nodes the shares add up to one level for each row that is filled. -/
lemma sumBelow_length_of_plain {walk : Walk} {row : Nat} {chain : List Node}
    (hplain : ∀ node ∈ chain, walk.Plain row node) :
    walk.sumBelow row chain chain.length
      = walk.level * (walk.openRowsBelow row chain chain.length).card := by
  have hsum := sumBelow_of_plain (fun j _ node hnode => hplain node (List.mem_of_getElem? hnode))
    (Nat.zero_le chain.length) le_rfl
  rw [hsum, sumBelow_zero, Int.zero_add]
  simp [openRowsBelow]

section OnlyBegins

variable {walk : Walk} (hbegins : walk.marking.OnlyBegins)

include hbegins

lemma unaligned_of_onlyBegins : ∀ role ∈ aligningRoles, walk.marking.bucket role = [] := by
  intro role hrole
  refine hbegins.bucket_of_ne ?_
  rintro rfl
  exact absurd hrole (by decide)

lemma marks_of_onlyBegins {role : Role} (hrole : role ≠ .begin) (node : Node) :
    walk.marks role node = false :=
  marks_of_bucket (hbegins.bucket_of_ne hrole) node

lemma plain_of_onlyBegins (row : Nat) (node : Node) : walk.Plain row node := by
  have hbranch : walk.marks .branch node = false := marks_of_onlyBegins hbegins (by decide) node
  have hdedent : walk.marks .dedent node = false := marks_of_onlyBegins hbegins (by decide) node
  refine ⟨?_, fun attrs hattrs => (hbegins.of_get? hattrs).2⟩
  unfold Outdents
  simp [hbranch, hdedent]

/-- The indent of a line among plain begins in a host tree: one level for each row on which a block opens. -/
lemma indentOf_of_onlyBegins (hhost : walk.injected = false) (line : Nat) :
    walk.indentOf line = .column (wrap (walk.level * (walk.openRows line).card)).toNat := by
  have hbase : walk.base = 0 := by
    unfold base
    rw [hhost]
    rfl
  have hzero : walk.marks .zero (walk.anchor line).node = false := marks_of_onlyBegins hbegins (by decide) _
  rw [indentOf_of_unaligned (unaligned_of_onlyBegins hbegins) hzero, hbase, Int.zero_add,
    sumBelow_length_of_plain fun node _ => plain_of_onlyBegins hbegins _ node]
  rfl

end OnlyBegins

/-! ## One more begin -/

/-- The walk with one more node marked as a plain begin. -/
def withBegin (walk : Walk) (id : Nat) : Walk :=
  { walk with marking := walk.marking.mark .begin id {} }

lemma onlyBegins_withBegin {walk : Walk} (hbegins : walk.marking.OnlyBegins) (id : Nat) :
    (walk.withBegin id).marking.OnlyBegins :=
  hbegins.mark id

/-- A begin has no influence on the anchor of a line. -/
lemma anchor_withBegin (walk : Walk) (id line : Nat) : (walk.withBegin id).anchor line = walk.anchor line := by
  refine anchor_congr ?_
  intro entry hentry
  have hne : (entry.1, entry.2) ≠ (Role.begin, id) := by
    rw [finish_of_mem_anchorReads hentry]
    simp
  rw [Marking.get?_mark, if_neg hne]

/-- One more begin leaves open the rows that were open. -/
lemma openRows_subset_withBegin {walk : Walk} (hbegins : walk.marking.OnlyBegins) (id line : Nat) :
    walk.openRows line ⊆ (walk.withBegin id).openRows line := by
  have hfills : ∀ (row : Nat) (inError : Bool) (node : Node), walk.Fills row inError node →
      (walk.withBegin id).Fills row inError node := by
    intro row inError node hnode
    obtain ⟨hget, hindents⟩ := (plain_of_onlyBegins hbegins row node).fills_iff.1 hnode
    have hstill : (walk.withBegin id).marking.get? .begin node.id = some {} := by
      unfold withBegin
      rw [hbegins.get?_mark, hget, ite_self]
    exact (plain_of_onlyBegins (onlyBegins_withBegin hbegins id) row node).fills_iff.2 ⟨hstill, hindents⟩
  intro r hr
  unfold openRows at hr ⊢
  rw [anchor_withBegin]
  rw [mem_openRowsBelow] at hr ⊢
  obtain ⟨j, hj, node, hnode, hrow, hnodeFills⟩ := hr
  exact ⟨j, hj, node, hnode, hrow, hfills _ _ _ hnodeFills⟩

/-! ## Widths -/

/-- A width that is not zero is a positive level just in the lower half of the words. -/
lemma signed_pos_iff {width : UInt64} (hwidth : width ≠ 0) :
    0 < signed width.toNat ↔ 2 * width.toNat < UInt64.size := by
  have hpos : width.toNat ≠ 0 := fun h => hwidth (UInt64.toNat_inj.1 h)
  have hbound : width.toNat < UInt64.size := width.toNat_lt
  by_cases hhalf : 2 * width.toNat < UInt64.size
  · rw [signed_eq_self hhalf]
    omega
  · have hneg : signed width.toNat = (width.toNat : Int) - UInt64.size := by
      unfold signed wrap
      rw [Int.bmod_def, Int.emod_eq_of_lt (by omega) (by omega), if_neg (by omega)]
    rw [hneg]
    omega

/-- More rows never make a smaller column, and they make a larger one just if the level is positive. -/
lemma toNat_mul_le_toNat_mul (level : Int) {rows more : Nat} (h : rows ≤ more) :
    (level * rows).toNat ≤ (level * more).toNat ∧
      ((level * rows).toNat < (level * more).toNat ↔ 0 < level ∧ rows < more) := by
  rcases le_or_gt level 0 with hle | hpos
  · -- At a level of zero and below, every column is cut off at zero.
    have hzero : ∀ n : Nat, (level * n).toNat = 0 := by
      intro n
      exact Int.toNat_of_nonpos (mul_nonpos_of_nonpos_of_nonneg hle (Int.natCast_nonneg n))
    rw [hzero rows, hzero more]
    refine ⟨le_rfl, ?_⟩
    omega
  · have hmono : level * rows ≤ level * more :=
      mul_le_mul_of_nonneg_left (Int.ofNat_le.2 h) hpos.le
    have hstrict : level * rows < level * more ↔ rows < more := by
      rw [mul_lt_mul_iff_right₀ hpos]
      exact Int.ofNat_lt
    have hnonneg : 0 ≤ level * rows := mul_nonneg hpos.le (Int.natCast_nonneg rows)
    refine ⟨Int.toNat_le_toNat hmono, ?_⟩
    rw [← hstrict]
    omega

/-- Fewer rows leave the sum in the range of the words. -/
lemma IsWord.mul_of_le {level : Int} {rows more : Nat} (h : rows ≤ more) (hword : IsWord (level * more)) :
    IsWord (level * rows) := by
  unfold IsWord at hword ⊢
  rcases le_or_gt level 0 with hle | hpos
  · have hmono : level * more ≤ level * rows := mul_le_mul_of_nonpos_left (Int.ofNat_le.2 h) hle
    have hnonpos : level * rows ≤ 0 := mul_nonpos_of_nonpos_of_nonneg hle (Int.natCast_nonneg rows)
    omega
  · have hmono : level * rows ≤ level * more := mul_le_mul_of_nonneg_left (Int.ofNat_le.2 h) hpos.le
    have hnonneg : 0 ≤ level * rows := mul_nonneg hpos.le (Int.natCast_nonneg rows)
    omega

/-- Under an accepted configuration one more begin never moves a line to the left, short of a sum that is no
word. It moves the line to the right just if a row opens that was not open before and the width stands for a
positive level. -/
theorem indentOf_le_withBegin {config : Config} (haccepted : config.fault? = none) (language : String)
    (walk : Walk) (hwidth : walk.shiftWidth = config.shiftWidthFor language) (hhost : walk.injected = false)
    (hbegins : walk.marking.OnlyBegins) (id line : Nat)
    (hword : IsWord (walk.level * ((walk.withBegin id).openRows line).card)) :
    ∃ before after, walk.indentOf line = .column before ∧ (walk.withBegin id).indentOf line = .column after ∧
      before ≤ after ∧
      (before < after ↔ 2 * (config.shiftWidthFor language).toNat < UInt64.size ∧
        walk.openRows line ⊂ (walk.withBegin id).openRows line) := by
  have hsubset := openRows_subset_withBegin hbegins id line
  have hcard := Finset.card_le_card hsubset
  obtain ⟨hle, hlt⟩ := toNat_mul_le_toNat_mul walk.level hcard
  have hbefore : walk.indentOf line = .column (walk.level * (walk.openRows line).card).toNat := by
    rw [indentOf_of_onlyBegins hbegins hhost, wrap_of_isWord (hword.mul_of_le hcard)]
  have hafter : (walk.withBegin id).indentOf line
      = .column (walk.level * ((walk.withBegin id).openRows line).card).toNat := by
    rw [indentOf_of_onlyBegins (onlyBegins_withBegin hbegins id) hhost]
    exact congrArg (fun sum => Indent.column sum.toNat) (wrap_of_isWord hword)
  refine ⟨_, _, hbefore, hafter, hle, ?_⟩
  have hlevel : 0 < walk.level ↔ 2 * (config.shiftWidthFor language).toNat < UInt64.size := by
    unfold level
    rw [hwidth]
    exact signed_pos_iff ((Config.fault?_eq_none_iff.1 haccepted).shiftWidthFor_ne_zero language)
  have hrows : (walk.openRows line).card < ((walk.withBegin id).openRows line).card ↔
      walk.openRows line ⊂ (walk.withBegin id).openRows line :=
    ⟨fun hcard => hsubset.ssubset_of_ne fun heq => hcard.ne (congrArg Finset.card heq), Finset.card_lt_card⟩
  rw [← hlevel, ← hrows]
  exact hlt

/-! ### A block in a block

Both blocks are around the third line and open on different rows. The inner one is marked first. -/

/-- A configuration with a width of its own for one language. -/
def narrowConfig : Config :=
  { languages := Table.empty.insert "c" { shiftWidth := some 2 } }

/-- The two blocks. -/
def twoBlocks : Walk where
  root := ⟨⟨0, "block", ⟨0, 0⟩, ⟨4, 3⟩, false,
    [⟨1, "if", ⟨1, 0⟩, ⟨3, 3⟩, false, [⟨2, "call", ⟨2, 0⟩, ⟨2, 1⟩, false, []⟩]⟩]⟩, []⟩
  marking := .ofList [(.begin, 1, {})]
  patterns := .classes
  document := .new 1 "do\nif do\nc\nend\nend".toList
  shiftWidth := 2
  tabSize := 4

/-- With the outer block marked too the third line moves from the second column to the fourth. -/
theorem twoBlocks_le_withBegin :
    narrowConfig.fault? = none ∧ twoBlocks.shiftWidth = narrowConfig.shiftWidthFor "c" ∧
      twoBlocks.marking.OnlyBegins ∧ twoBlocks.indentOf 3 = .column 2 ∧
      (twoBlocks.withBegin 0).indentOf 3 = .column 4 ∧
      ∃ before after, twoBlocks.indentOf 3 = .column before ∧
        (twoBlocks.withBegin 0).indentOf 3 = .column after ∧ before ≤ after := by
  have haccepted : narrowConfig.fault? = none := by decide +kernel
  have hwidth : twoBlocks.shiftWidth = narrowConfig.shiftWidthFor "c" := by decide +kernel
  have hbegins : twoBlocks.marking.OnlyBegins := by decide
  have hword : IsWord (twoBlocks.level * ((twoBlocks.withBegin 0).openRows 3).card) := by decide
  obtain ⟨before, after, hbefore, hafter, hle, -⟩ :=
    indentOf_le_withBegin haccepted "c" twoBlocks hwidth rfl hbegins 0 3 hword
  exact ⟨haccepted, hwidth, hbegins, by decide, by decide, before, after, hbefore, hafter, hle⟩

end Walk

end TreeIndent
