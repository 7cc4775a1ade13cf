import TreeIndent.Forest.Selection
import Mathlib.Data.List.Infix

/-!
# Which layer decides a line

The layer for a line is found by going once through the forest. Here it is said without the loop (`Decides`):
among the layers that are not for comments and cover the start of the line, one of the least span, and of
those the first. `choice?_eq_some_iff` and `choice?_eq_none_iff` say that the loop finds just this layer.

A layer that comes last is compared only with the layer chosen before it (`choiceAmong_concat`), so it takes
over a line, or nothing changes for that line.
-/

namespace TreeIndent

/-! ## Candidates -/

/-- A layer that may decide a line: it is not for comments, and its root covers the start of the line. -/
structure Layer.MayDecide (layer : Layer) (line : Nat) : Prop where
  code : layer.commentOnly = false
  start_le : layer.tree.root.start ≤ ⟨line - 1, 0⟩
  le_stop : ⟨line - 1, 0⟩ ≤ layer.tree.root.stop

lemma Node.coversRow_iff {node : Node} {row : Nat} :
    node.coversRow row = true ↔ node.start ≤ ⟨row, 0⟩ ∧ ⟨row, 0⟩ ≤ node.stop := by
  simp only [coversRow, Point.le_def, Bool.and_eq_true, Bool.or_eq_true, decide_eq_true_eq, beq_iff_eq]
  omega

lemma Layer.isCandidate_iff {layer : Layer} {line : Nat} :
    layer.isCandidate line = true ↔ layer.MayDecide line := by
  rw [isCandidate, Bool.and_eq_true, Node.coversRow_iff, Bool.not_eq_true']
  exact ⟨fun ⟨hcode, hstart, hstop⟩ => ⟨hcode, hstart, hstop⟩,
    fun ⟨hcode, hstart, hstop⟩ => ⟨hcode, hstart, hstop⟩⟩

instance (layer : Layer) (line : Nat) : Decidable (layer.MayDecide line) :=
  decidable_of_iff _ Layer.isCandidate_iff

/-- A layer takes over a line from what is chosen so far: it may decide the line, and it is smaller than the
layer that is chosen, if there is one. -/
def Layer.TakesOver (layer : Layer) (line : Nat) (choice : Option (Layer × Nat)) : Prop :=
  layer.MayDecide line ∧ ∀ chosen ∈ choice, layer.tree.byteSpan < chosen.1.tree.byteSpan

instance (layer : Layer) (line : Nat) (choice : Option (Layer × Nat)) :
    Decidable (layer.TakesOver line choice) :=
  inferInstanceAs (Decidable (_ ∧ _))

namespace Forest

/-- The layer at a position decides a line: it may, no layer that may has a smaller root, and no such layer
before it has one of the same size. -/
structure Decides (layers : List Layer) (line : Nat) (layer : Layer) (position : Nat) : Prop where
  get : layers[position]? = some layer
  may : layer.MayDecide line
  least : ∀ {other : Layer} {index : Nat}, layers[index]? = some other → other.MayDecide line →
    layer.tree.byteSpan ≤ other.tree.byteSpan
  first : ∀ {other : Layer} {index : Nat}, layers[index]? = some other → other.MayDecide line →
    index < position → layer.tree.byteSpan < other.tree.byteSpan

/-- At most one layer decides a line. -/
lemma Decides.unique {layers : List Layer} {line : Nat} {layer other : Layer} {position index : Nat}
    (h : Decides layers line layer position) (h' : Decides layers line other index) :
    (layer, position) = (other, index) := by
  -- Of two positions the later one is strictly better than the earlier one, which is the best.
  rcases Nat.lt_trichotomy position index with hlt | rfl | hlt
  · have hbetter := h'.first h.get h.may hlt
    have hbest := h.least h'.get h'.may
    omega
  · rw [Option.some.inj (h.get.symm.trans h'.get)]
  · have hbetter := h.first h'.get h'.may hlt
    have hbest := h'.least h.get h.may
    omega

/-! ## One more layer -/

/-- A layer of a longer list is one of the shorter list or the last one. -/
lemma getElem?_concat_cases {layers : List Layer} {layer other : Layer} {index : Nat}
    (h : (layers ++ [layer])[index]? = some other) :
    layers[index]? = some other ∨ index = layers.length ∧ other = layer := by
  rcases Nat.lt_trichotomy index layers.length with hlt | rfl | hgt
  · exact Or.inl (List.getElem?_append_left hlt ▸ h)
  · exact Or.inr ⟨rfl, by simpa using h.symm⟩
  · have hlong : (layers ++ [layer]).length ≤ index := by
      rw [List.length_append, List.length_singleton]
      exact hgt
    rw [List.getElem?_eq_none hlong] at h
    cases h

/-- A last layer that is smaller than all that may decide the line decides it. -/
lemma decides_last {layers : List Layer} {line : Nat} {layer : Layer} (hmay : layer.MayDecide line)
    (hless : ∀ {other : Layer} {index : Nat}, layers[index]? = some other → other.MayDecide line →
      layer.tree.byteSpan < other.tree.byteSpan) :
    Decides (layers ++ [layer]) line layer layers.length where
  get := by simp
  may := hmay
  least hother hmay' := by
    rcases getElem?_concat_cases hother with hold | ⟨-, rfl⟩
    · exact Nat.le_of_lt (hless hold hmay')
    · exact Nat.le_refl _
  first hother hmay' hindex := by
    rcases getElem?_concat_cases hother with hold | ⟨rfl, -⟩
    · exact hless hold hmay'
    · exact absurd hindex (Nat.lt_irrefl _)

/-- The layer that decides a line keeps it, if the last layer is not smaller. -/
lemma Decides.concat {layers : List Layer} {line : Nat} {chosen layer : Layer} {position : Nat}
    (h : Decides layers line chosen position)
    (hlayer : layer.MayDecide line → chosen.tree.byteSpan ≤ layer.tree.byteSpan) :
    Decides (layers ++ [layer]) line chosen position where
  get := by rw [List.getElem?_append_left (List.getElem?_eq_some_iff.1 h.get).1, h.get]
  may := h.may
  least hother hmay := by
    rcases getElem?_concat_cases hother with hold | ⟨-, rfl⟩
    · exact h.least hold hmay
    · exact hlayer hmay
  first hother hmay hindex := by
    rcases getElem?_concat_cases hother with hold | ⟨rfl, -⟩
    · exact h.first hold hmay hindex
    · exact absurd (List.getElem?_eq_some_iff.1 h.get).1 (by omega)

/-! ## The loop -/

/-- The layer of a list that decides a line, and its position. -/
def choiceAmong (layers : List Layer) (line : Nat) : Option (Layer × Nat) :=
  (layers.zipIdx.filter fun entry => entry.1.isCandidate line).foldl better none

lemma choice?_eq_choiceAmong (forest : Forest) (line : Nat) :
    forest.choice? line = choiceAmong forest.layers line :=
  rfl

/-- The step lemma: what one more layer does to the choice. -/
lemma choiceAmong_concat (layers : List Layer) (layer : Layer) (line : Nat) :
    choiceAmong (layers ++ [layer]) line =
      if layer.TakesOver line (choiceAmong layers line) then some (layer, layers.length)
      else choiceAmong layers line := by
  have hfold : choiceAmong (layers ++ [layer]) line =
      if layer.MayDecide line then better (choiceAmong layers line) (layer, layers.length)
      else choiceAmong layers line := by
    by_cases hmay : layer.MayDecide line
    · simp [choiceAmong, List.zipIdx_append, Layer.isCandidate_iff, hmay]
    · simp [choiceAmong, List.zipIdx_append, Layer.isCandidate_iff, hmay]
  rw [hfold]
  by_cases hmay : layer.MayDecide line
  · cases choiceAmong layers line with
    | none => simp [Layer.TakesOver, better, hmay]
    | some chosen => simp [Layer.TakesOver, better, hmay]
  · simp [Layer.TakesOver, hmay]

/-- The run lemma for an empty choice. -/
lemma choiceAmong_eq_none_iff {layers : List Layer} {line : Nat} :
    choiceAmong layers line = none ↔ ∀ layer ∈ layers, ¬ layer.MayDecide line := by
  induction layers using List.reverseRecOn with
  | nil => exact iff_of_true rfl fun layer hlayer => absurd hlayer List.not_mem_nil
  | append_singleton layers last ih =>
    rw [choiceAmong_concat, List.forall_mem_append, List.forall_mem_singleton, ← ih]
    split
    · next htakes => exact iff_of_false (by simp) fun hnone => hnone.2 htakes.1
    · next hkeeps =>
      refine ⟨fun hnone => ⟨hnone, fun hmay => hkeeps ⟨hmay, ?_⟩⟩, And.left⟩
      -- Where nothing was chosen before, nothing stands against the last layer.
      simp [hnone]

/-- The run lemma for the layer chosen. -/
lemma decides_of_choiceAmong {layers : List Layer} {line : Nat} {layer : Layer} {position : Nat}
    (h : choiceAmong layers line = some (layer, position)) : Decides layers line layer position := by
  induction layers using List.reverseRecOn generalizing layer position with
  | nil => cases h
  | append_singleton layers last ih =>
    rw [choiceAmong_concat] at h
    split at h
    · next htakes =>
      cases h
      refine decides_last htakes.1 ?_
      intro other index hother hmay
      -- The layer chosen before is at most as large as the other one, and the last layer is smaller than it.
      obtain ⟨⟨chosen, place⟩, hchosen⟩ : ∃ chosen, choiceAmong layers line = some chosen :=
        Option.ne_none_iff_exists'.1 fun hnone =>
          choiceAmong_eq_none_iff.1 hnone other (List.mem_of_getElem? hother) hmay
      exact Nat.lt_of_lt_of_le (htakes.2 _ hchosen) ((ih hchosen).least hother hmay)
    · next hkeeps =>
      refine (ih h).concat fun hmay => ?_
      by_contra hless
      refine hkeeps ⟨hmay, ?_⟩
      intro chosen hchosen
      cases Option.some.inj (h.symm.trans hchosen)
      exact Nat.lt_of_not_le hless

/-! ## The layer for a line -/

/-- No layer is found for a line just if none may decide it. -/
lemma choice?_eq_none_iff {forest : Forest} {line : Nat} :
    forest.choice? line = none ↔ ∀ layer ∈ forest.layers, ¬ layer.MayDecide line :=
  choiceAmong_eq_none_iff

/-- The layer found for a line is the one that decides it. -/
lemma choice?_eq_some_iff {forest : Forest} {line : Nat} {layer : Layer} {position : Nat} :
    forest.choice? line = some (layer, position) ↔ Decides forest.layers line layer position := by
  refine ⟨decides_of_choiceAmong, fun h => ?_⟩
  cases hchoice : forest.choice? line with
  | none => exact absurd h.may (choice?_eq_none_iff.1 hchoice layer (List.mem_of_getElem? h.get))
  | some chosen => exact congrArg some ((decides_of_choiceAmong hchoice).unique h)

/-- What an injection does to the choice for a line: the new layer takes the line over, or the choice stays. -/
lemma choice?_of_layers_concat {forest grown : Forest} {layer : Layer}
    (h : grown.layers = forest.layers ++ [layer]) (line : Nat) :
    (grown.choice? line = some (layer, forest.layers.length) ↔ layer.TakesOver line (forest.choice? line)) ∧
      (¬ layer.TakesOver line (forest.choice? line) → grown.choice? line = forest.choice? line) := by
  have hchoice : grown.choice? line =
      if layer.TakesOver line (forest.choice? line) then some (layer, forest.layers.length)
      else forest.choice? line := by
    rw [choice?_eq_choiceAmong, h, choiceAmong_concat, choice?_eq_choiceAmong]
  constructor
  · refine ⟨fun hnew => ?_, fun htakes => by rw [hchoice, if_pos htakes]⟩
    by_contra hkeeps
    -- The old choice stands at a position of the old layers, and the new layer behind them.
    rw [hchoice, if_neg hkeeps] at hnew
    have hbound := (List.getElem?_eq_some_iff.1 (choice?_eq_some_iff.1 hnew).get).1
    exact absurd hbound (Nat.lt_irrefl _)
  · intro hkeeps
    rw [hchoice, if_neg hkeeps]

end Forest

end TreeIndent
