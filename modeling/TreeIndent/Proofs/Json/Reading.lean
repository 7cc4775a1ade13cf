import TreeIndent.Json.Basic
import TreeIndent.Proofs.Json.Literals

/-!
# Reading JSON texts

A well-formed value (`WellFormed`) has its tokens in one order (`Json.tokens`), and a text of it has these tokens
with any blanks around them (`LaidOut`). Every such text is read as the value (`read?_of_laidOut`).

* The lexer: no scalar follows on a scalar in the tokens of a value, so they are told apart even without blanks
  (`tokens?_of_laidOut`). Nothing inside a string ends it (`StaysInString`).
* The reader: the tokens of a value complete it from any place where a value is expected, with any number of
  arrays and objects open around it (`Takes`).
-/

namespace TreeIndent.Json

/-! ## Tokens as text -/

/-- A token as it is written. -/
def Token.text : Token → Text
  | .openBrace => ['\x7b']
  | .closeBrace => ['\x7d']
  | .openBracket => ['[']
  | .closeBracket => [']']
  | .colon => [':']
  | .comma => [',']
  | .string literal => '"' :: (literal ++ ['"'])
  | .scalar literal => literal

/-- A token of one character. -/
def Token.isPunctuation : Token → Bool
  | .string _ | .scalar _ => false
  | _ => true

/-- A number or a word. -/
def Token.isScalar : Token → Bool
  | .scalar _ => true
  | _ => false

/-- A text that has some tokens in order, with any blanks before, between and after them. -/
inductive LaidOut : List Token → Text → Prop where
  | nil {blanks : Text} (hblanks : ∀ c ∈ blanks, isBlank c = true) : LaidOut [] blanks
  | cons {blanks text : Text} {token : Token} {tokens : List Token} (hblanks : ∀ c ∈ blanks, isBlank c = true)
      (h : LaidOut tokens text) : LaidOut (token :: tokens) (blanks ++ token.text ++ text)

/-! ## Values as tokens -/

mutual

/-- The tokens of a value. -/
def tokens : Json → List Token
  | .null => [.scalar "null".toList]
  | .bool true => [.scalar "true".toList]
  | .bool false => [.scalar "false".toList]
  | .number literal => [.scalar literal]
  | .string literal => [.string literal]
  | .array [] => [.openBracket, .closeBracket]
  | .array (element :: elements) => .openBracket :: (element.tokens ++ tokensOfElements elements)
  | .object [] => [.openBrace, .closeBrace]
  | .object ((name, value) :: members) =>
    .openBrace :: .string name :: .colon :: (value.tokens ++ tokensOfMembers members)

/-- The tokens from the end of an element of an array to the end of the array. -/
def tokensOfElements : List Json → List Token
  | [] => [.closeBracket]
  | element :: elements => .comma :: (element.tokens ++ tokensOfElements elements)

/-- The tokens from the end of a member of an object to the end of the object. -/
def tokensOfMembers : List (Text × Json) → List Token
  | [] => [.closeBrace]
  | (name, value) :: members =>
    .comma :: .string name :: .colon :: (value.tokens ++ tokensOfMembers members)

end

/-- A value whose numbers and strings are literals of JSON. The names of an object may be any strings, and any
of them may be repeated. -/
inductive WellFormed : Json → Prop where
  | null : WellFormed .null
  | bool (value : Bool) : WellFormed (.bool value)
  | number {literal : Text} (h : NumberLiteral literal) : WellFormed (.number literal)
  | string {literal : Text} (h : StringLiteral literal) : WellFormed (.string literal)
  | array {elements : List Json} (h : ∀ element ∈ elements, WellFormed element) : WellFormed (.array elements)
  | object {members : List (Text × Json)} (hnames : ∀ member ∈ members, StringLiteral member.1)
      (hvalues : ∀ member ∈ members, WellFormed member.2) : WellFormed (.object members)

/-! ## The lexer -/

namespace Lexer

/-- Blanks between tokens are passed over. -/
lemma foldl_next_blanks {blanks : Text} (h : ∀ c ∈ blanks, isBlank c = true) (seen : List Token) :
    blanks.foldl next ⟨.between, seen⟩ = ⟨.between, seen⟩ := by
  induction blanks with
  | nil => rfl
  | cons c blanks ih =>
    have hc : isBlank c = true := h c (List.mem_cons_self ..)
    have hnext : next ⟨.between, seen⟩ c = ⟨.between, seen⟩ := by simp [next, start, hc]
    rw [List.foldl_cons, hnext]
    exact ih fun d hd => h d (List.mem_cons_of_mem c hd)

/-- A text that the lexer takes into a string which it has begun. -/
def StaysInString (piece : Text) : Prop :=
  ∀ (before : Text) (seen : List Token),
    piece.foldl next ⟨.inString before, seen⟩ = ⟨.inString (piece.reverse ++ before), seen⟩

lemma StaysInString.append {s t : Text} (hs : StaysInString s) (ht : StaysInString t) :
    StaysInString (s ++ t) := by
  intro before seen
  rw [List.foldl_append, hs, ht, List.reverse_append, List.append_assoc]

lemma staysInString_nil : StaysInString [] := fun _ _ => rfl

lemma staysInString_plain {c : Char} (hquote : c ≠ '"') (hslash : c ≠ '\\') : StaysInString [c] := by
  intro before seen
  simp [next, hquote, hslash]

/-- The character after a backslash does not end a string. -/
lemma staysInString_escape (c : Char) : StaysInString ['\\', c] := fun _ _ => rfl

lemma staysInString_unit {digits : Text} {value : Nat} (h : HexUnit digits value) :
    StaysInString ('\\' :: 'u' :: digits) := by
  have hdigit : ∀ {c : Char} {value : Nat}, HexDigit c value → StaysInString [c] :=
    fun hc => staysInString_plain hc.plain.1 hc.plain.2
  cases h with
  | digits ha hb hc hd =>
    exact (staysInString_escape 'u').append
      ((hdigit ha).append ((hdigit hb).append ((hdigit hc).append (hdigit hd))))

lemma staysInString_charSpelling {piece : Text} {c : Char} (h : CharSpelling piece c) : StaysInString piece := by
  cases h with
  | plain hquote hslash _ => exact staysInString_plain hquote hslash
  | short _ => exact staysInString_escape _
  | unit h => exact staysInString_unit h
  | pair _ hhigh hlow => exact (staysInString_unit hhigh).append (staysInString_unit hlow)

lemma staysInString_stringLiteral {literal : Text} (h : StringLiteral literal) : StaysInString literal := by
  induction h with
  | nil => exact staysInString_nil
  | character hc _ ih => exact (staysInString_charSpelling hc).append ih
  | unit hdigits _ ih => exact (staysInString_unit hdigits).append ih

lemma foldl_next_string {literal : Text} (h : StringLiteral literal) (seen : List Token) :
    (Token.string literal).text.foldl next ⟨.between, seen⟩ = ⟨.between, .string literal :: seen⟩ := by
  have hopen : next ⟨.between, seen⟩ '"' = ⟨.inString [], seen⟩ := rfl
  have hclose : next ⟨.inString literal.reverse, seen⟩ '"' = ⟨.between, .string literal.reverse.reverse :: seen⟩ :=
    rfl
  rw [Token.text, List.foldl_cons, hopen, List.foldl_append, staysInString_stringLiteral h, List.append_nil,
    List.foldl_cons, hclose, List.reverse_reverse, List.foldl_nil]

lemma foldl_next_inScalar {literal : Text} (h : ∀ c ∈ literal, isScalarChar c = true) (before : Text)
    (seen : List Token) :
    literal.foldl next ⟨.inScalar before, seen⟩ = ⟨.inScalar (literal.reverse ++ before), seen⟩ := by
  induction literal generalizing before with
  | nil => rfl
  | cons c literal ih =>
    have hc : isScalarChar c = true := h c (List.mem_cons_self ..)
    have hnext : next ⟨.inScalar before, seen⟩ c = ⟨.inScalar (c :: before), seen⟩ := by simp [next, hc]
    rw [List.foldl_cons, hnext, ih fun d hd => h d (List.mem_cons_of_mem c hd), List.reverse_cons,
      List.append_assoc]
    rfl

lemma start_of_isScalarChar {c : Char} (h : isScalarChar c = true) (seen : List Token) :
    start seen c = ⟨.inScalar [c], seen⟩ := by
  simp only [isScalarChar, Bool.and_eq_true, Bool.not_eq_true', bne_iff_ne, ne_eq, Option.isNone_iff_eq_none] at h
  obtain ⟨⟨hblank, hquote⟩, hpunctuation⟩ := h
  unfold start
  rw [if_neg (by simp [hblank]), if_neg hquote, hpunctuation]

/-- The characters of a scalar are seen, but its end is not. -/
lemma foldl_next_scalar {literal : Text} (hne : literal ≠ []) (h : ∀ c ∈ literal, isScalarChar c = true)
    (seen : List Token) : literal.foldl next ⟨.between, seen⟩ = ⟨.inScalar literal.reverse, seen⟩ := by
  cases literal with
  | nil => exact absurd rfl hne
  | cons c literal =>
    have hnext : next ⟨.between, seen⟩ c = ⟨.inScalar [c], seen⟩ :=
      start_of_isScalarChar (h c (List.mem_cons_self ..)) seen
    rw [List.foldl_cons, hnext, foldl_next_inScalar fun d hd => h d (List.mem_cons_of_mem c hd),
      List.reverse_cons]

/-- A scalar ends where the text does or goes on with a character that is not part of one. -/
lemma finish?_foldl_inScalar {text : Text} (h : ∀ c, text.head? = some c → isScalarChar c = false) (before : Text)
    (seen : List Token) :
    (text.foldl next ⟨.inScalar before, seen⟩).finish? =
      (text.foldl next ⟨.between, .scalar before.reverse :: seen⟩).finish? := by
  cases text with
  | nil => rfl
  | cons c text =>
    have hc : isScalarChar c = false := h c rfl
    have hnext : next ⟨.inScalar before, seen⟩ c = next ⟨.between, .scalar before.reverse :: seen⟩ c := by
      simp [next, hc]
    rw [List.foldl_cons, List.foldl_cons, hnext]

lemma foldl_next_punctuation {token : Token} (h : token.isPunctuation = true) (seen : List Token) :
    token.text.foldl next ⟨.between, seen⟩ = ⟨.between, token :: seen⟩ := by
  cases token with
  | string literal => cases h
  | scalar literal => cases h
  | openBrace | closeBrace | openBracket | closeBracket | colon | comma => rfl

end Lexer

/-- Whether a scalar that stands right before some tokens ends there. -/
def EndsScalar (tokens : List Token) : Prop :=
  ∀ token, tokens.head? = some token → token.isScalar = false

/-- Tokens that are told apart even where no blanks stand between them: no scalar follows on a scalar. -/
inductive Separable : List Token → Prop where
  | nil : Separable []
  | punctuation {token : Token} {tokens : List Token} (htoken : token.isPunctuation = true)
      (h : Separable tokens) : Separable (token :: tokens)
  | string {literal : Text} {tokens : List Token} (hliteral : StringLiteral literal) (h : Separable tokens) :
      Separable (.string literal :: tokens)
  | scalar {literal : Text} {tokens : List Token} (hne : literal ≠ [])
      (hchars : ∀ c ∈ literal, isScalarChar c = true) (hends : EndsScalar tokens) (h : Separable tokens) :
      Separable (.scalar literal :: tokens)

lemma isScalarChar_of_isBlank {c : Char} (h : isBlank c = true) : isScalarChar c = false := by
  simp [isScalarChar, h]

/-- No scalar goes on into a token that is not one, or into blanks. -/
lemma LaidOut.not_isScalarChar_head {tokens : List Token} {text : Text} (h : LaidOut tokens text)
    (hends : EndsScalar tokens) : ∀ c, text.head? = some c → isScalarChar c = false := by
  intro c hc
  cases h with
  | nil hblanks => exact isScalarChar_of_isBlank (hblanks c (List.mem_of_mem_head? hc))
  | @cons blanks text token tokens hblanks h =>
    cases blanks with
    | cons blank blanks =>
      cases hc
      exact isScalarChar_of_isBlank (hblanks c (List.mem_cons_self ..))
    | nil =>
      have htoken : token.isScalar = false := hends token rfl
      cases token with
      | scalar literal => cases htoken
      | string literal | openBrace | closeBrace | openBracket | closeBracket | colon | comma =>
        cases hc
        rfl

/-- A text with separable tokens in order is cut into these tokens. -/
lemma finish?_foldl_of_laidOut {tokens : List Token} {text : Text} (h : LaidOut tokens text)
    (hseparable : Separable tokens) (seen : List Token) :
    (text.foldl Lexer.next ⟨.between, seen⟩).finish? = some (seen.reverse ++ tokens) := by
  induction h generalizing seen with
  | nil hblanks =>
    rw [Lexer.foldl_next_blanks hblanks, List.append_nil]
    rfl
  | @cons blanks text token tokens hblanks htext ih =>
    rw [List.foldl_append, List.foldl_append, Lexer.foldl_next_blanks hblanks]
    cases hseparable with
    | punctuation htoken h =>
      rw [Lexer.foldl_next_punctuation htoken, ih h, List.reverse_cons, List.append_assoc]
      rfl
    | string hliteral h =>
      rw [Lexer.foldl_next_string hliteral, ih h, List.reverse_cons, List.append_assoc]
      rfl
    | scalar hne hchars hends h =>
      -- The lexer sees the end of a scalar only by what comes next.
      have hnext := htext.not_isScalarChar_head hends
      rw [Token.text, Lexer.foldl_next_scalar hne hchars, Lexer.finish?_foldl_inScalar hnext, ih h,
        List.reverse_reverse, List.reverse_cons, List.append_assoc]
      rfl

lemma tokens?_of_laidOut {tokens : List Token} {text : Text} (h : LaidOut tokens text)
    (hseparable : Separable tokens) : tokens? text = some tokens :=
  finish?_foldl_of_laidOut h hseparable []

/-! ## The tokens of a value -/

lemma isScalarChar_of_isDigit {c : Char} (h : c.isDigit = true) : isScalarChar c = true := by
  have hne : ∀ d : Char, d.isDigit = false → c ≠ d := by
    rintro d hd rfl
    rw [h] at hd
    cases hd
  have hpunctuation : punctuation? c = none := by
    unfold punctuation?
    split
    case h_7 => rfl
    all_goals cases h
  simp [isScalarChar, isBlank, hpunctuation, hne]

lemma WholeLiteral.isScalarChar {t : Text} (h : WholeLiteral t) : ∀ c ∈ t, Json.isScalarChar c = true := by
  cases h with
  | zero => exact List.all_eq_true.1 rfl
  | digits hc _ ht =>
    intro d hd
    rcases List.mem_cons.1 hd with rfl | hd
    · exact isScalarChar_of_isDigit hc
    · exact isScalarChar_of_isDigit (ht d hd)

lemma FractionLiteral.isScalarChar {t : Text} (h : FractionLiteral t) : ∀ c ∈ t, Json.isScalarChar c = true := by
  cases h with
  | none => exact fun c hc => absurd hc List.not_mem_nil
  | digits h =>
    intro c hc
    rcases List.mem_cons.1 hc with rfl | hc
    · rfl
    · exact isScalarChar_of_isDigit (h.2 c hc)

lemma ExponentLiteral.isScalarChar {t : Text} (h : ExponentLiteral t) : ∀ c ∈ t, Json.isScalarChar c = true := by
  cases h with
  | none => exact fun c hc => absurd hc List.not_mem_nil
  | @digits mark sign t hmark hsign h =>
    have hmarks : ['e', 'E'].all Json.isScalarChar = true := by decide
    have hsigns : ∀ sign ∈ [[], ['+'], ['-']], sign.all Json.isScalarChar = true := by decide
    intro c hc
    rcases List.mem_cons.1 hc with rfl | hc
    · exact List.all_eq_true.1 hmarks c hmark
    · rcases List.mem_append.1 hc with hc | hc
      · exact List.all_eq_true.1 (hsigns sign hsign) c hc
      · exact isScalarChar_of_isDigit (h.2 c hc)

lemma NumberLiteral.isScalarChar {literal : Text} (h : NumberLiteral literal) :
    ∀ c ∈ literal, Json.isScalarChar c = true := by
  cases h with
  | @parts sign whole fraction exponent hsign hwhole hfraction hexponent =>
    have hsigns : ∀ sign ∈ [[], ['-']], sign.all Json.isScalarChar = true := by decide
    intro c hc
    simp only [List.mem_append] at hc
    rcases hc with hc | hc | hc | hc
    · exact List.all_eq_true.1 (hsigns sign hsign) c hc
    · exact hwhole.isScalarChar c hc
    · exact hfraction.isScalarChar c hc
    · exact hexponent.isScalarChar c hc

lemma NumberLiteral.ne_nil {literal : Text} (h : NumberLiteral literal) : literal ≠ [] := by
  rintro rfl
  exact absurd h.isNumber (by decide)

lemma endsScalar_tokensOfElements (elements : List Json) (rest : List Token) :
    EndsScalar (tokensOfElements elements ++ rest) := by
  intro token htoken
  cases elements with
  | nil =>
    rw [tokensOfElements] at htoken
    cases htoken
    rfl
  | cons element elements =>
    rw [tokensOfElements] at htoken
    cases htoken
    rfl

lemma endsScalar_tokensOfMembers (members : List (Text × Json)) (rest : List Token) :
    EndsScalar (tokensOfMembers members ++ rest) := by
  intro token htoken
  cases members with
  | nil =>
    rw [tokensOfMembers] at htoken
    cases htoken
    rfl
  | cons member members =>
    rw [tokensOfMembers] at htoken
    cases htoken
    rfl

lemma separable_tokensOfElements {elements : List Json} {rest : List Token} (hrest : Separable rest)
    (h : ∀ element ∈ elements, ∀ {rest}, Separable rest → EndsScalar rest → Separable (element.tokens ++ rest)) :
    Separable (tokensOfElements elements ++ rest) := by
  induction elements with
  | nil =>
    rw [tokensOfElements]
    exact .punctuation rfl hrest
  | cons element elements ih =>
    rw [List.forall_mem_cons] at h
    rw [tokensOfElements, List.cons_append, List.append_assoc]
    exact .punctuation rfl (h.1 (ih h.2) (endsScalar_tokensOfElements elements rest))

lemma separable_tokensOfMembers {members : List (Text × Json)} {rest : List Token} (hrest : Separable rest)
    (hnames : ∀ member ∈ members, StringLiteral member.1)
    (h : ∀ member ∈ members, ∀ {rest}, Separable rest → EndsScalar rest → Separable (member.2.tokens ++ rest)) :
    Separable (tokensOfMembers members ++ rest) := by
  induction members with
  | nil =>
    rw [tokensOfMembers]
    exact .punctuation rfl hrest
  | cons member members ih =>
    rw [List.forall_mem_cons] at h hnames
    rw [tokensOfMembers]
    simp only [List.cons_append, List.append_assoc]
    exact .punctuation rfl (.string hnames.1 (.punctuation rfl
      (h.1 (ih hnames.2 h.2) (endsScalar_tokensOfMembers members rest))))

/-- The tokens of a value are separable from what follows it, unless that is a scalar. -/
lemma WellFormed.separable_append {json : Json} (h : WellFormed json) {rest : List Token} (hrest : Separable rest)
    (hends : EndsScalar rest) : Separable (json.tokens ++ rest) := by
  induction h generalizing rest with
  | null =>
    rw [tokens]
    exact .scalar (by decide) (List.all_eq_true.1 rfl) hends hrest
  | bool value =>
    cases value with
    | false =>
      rw [tokens]
      exact .scalar (by decide) (List.all_eq_true.1 rfl) hends hrest
    | true =>
      rw [tokens]
      exact .scalar (by decide) (List.all_eq_true.1 rfl) hends hrest
  | number h =>
    rw [tokens]
    exact .scalar h.ne_nil h.isScalarChar hends hrest
  | string h =>
    rw [tokens]
    exact .string h hrest
  | @array elements _ ih =>
    cases elements with
    | nil =>
      rw [tokens]
      exact .punctuation rfl (.punctuation rfl hrest)
    | cons element elements =>
      rw [List.forall_mem_cons] at ih
      rw [tokens, List.cons_append, List.append_assoc]
      exact .punctuation rfl (ih.1 (separable_tokensOfElements hrest ih.2)
        (endsScalar_tokensOfElements elements rest))
  | @object members hnames _ ih =>
    cases members with
    | nil =>
      rw [tokens]
      exact .punctuation rfl (.punctuation rfl hrest)
    | cons member members =>
      rw [List.forall_mem_cons] at hnames ih
      rw [tokens]
      simp only [List.cons_append, List.append_assoc]
      exact .punctuation rfl (.string hnames.1 (.punctuation rfl
        (ih.1 (separable_tokensOfMembers hrest hnames.2 ih.2) (endsScalar_tokensOfMembers members rest))))

lemma WellFormed.separable {json : Json} (h : WellFormed json) : Separable json.tokens := by
  have happend := h.separable_append .nil fun token htoken => by cases htoken
  rwa [List.append_nil] at happend

/-! ## The reader -/

lemma ofScalar?_number {literal : Text} (h : NumberLiteral literal) :
    ofScalar? literal = some (.number literal) := by
  have hnumber := h.isNumber
  have hne : ∀ word : Text, isNumber word = false → literal ≠ word := by
    rintro word hword rfl
    rw [hnumber] at hword
    cases hword
  unfold ofScalar?
  rw [if_neg (hne _ (by decide)), if_neg (hne _ (by decide)), if_neg (hne _ (by decide)), if_pos hnumber]

namespace Reader

/-- The first token of a value does not end an array. -/
lemma foldlM_atFirstElement (json : Json) (frames : List Frame) (rest : List Token) :
    (json.tokens ++ rest).foldlM next? (.atFirstElement frames) =
      (json.tokens ++ rest).foldlM next? (.atValue (.array [] :: frames)) := by
  cases json with
  | null => rw [tokens]; rfl
  | bool value => cases value <;> (rw [tokens]; rfl)
  | number literal => rw [tokens]; rfl
  | string literal => rw [tokens]; rfl
  | array elements => cases elements <;> (rw [tokens]; rfl)
  | object members => cases members <;> (rw [tokens]; rfl)

/-- What the tokens of a value do to a reader that expects one. -/
def Takes (json : Json) : Prop :=
  ∀ (frames : List Frame) (rest : List Token),
    (json.tokens ++ rest).foldlM next? (.atValue frames) = rest.foldlM next? (complete json frames)

lemma foldlM_tokensOfElements {elements : List Json} (h : ∀ element ∈ elements, Takes element)
    (before : List Json) (frames : List Frame) (rest : List Token) :
    (tokensOfElements elements ++ rest).foldlM next? (.afterElement before frames) =
      rest.foldlM next? (complete (.array (before.reverse ++ elements)) frames) := by
  induction elements generalizing before with
  | nil =>
    rw [tokensOfElements, List.append_nil]
    rfl
  | cons element elements ih =>
    rw [List.forall_mem_cons] at h
    rw [tokensOfElements, List.cons_append, List.append_assoc]
    -- After the comma the array waits for one more element.
    show (element.tokens ++ (tokensOfElements elements ++ rest)).foldlM next?
      (.atValue (.array before :: frames)) = _
    rw [h.1]
    show (tokensOfElements elements ++ rest).foldlM next? (.afterElement (element :: before) frames) = _
    rw [ih h.2, List.reverse_cons, List.append_assoc]
    rfl

lemma foldlM_member {name : Text} {value : Json} (hname : StringLiteral name) (h : Takes value)
    (before : List (Text × Json)) (frames : List Frame) (rest : List Token) :
    (.string name :: .colon :: (value.tokens ++ rest)).foldlM next? (.atName before frames) =
      rest.foldlM next? (.afterMember ((name, value) :: before) frames) := by
  have hstart : next? (.atName before frames) (.string name) = some (.atColon before name frames) := by
    show startMember? before frames (.string name) = _
    rw [startMember?, if_pos hname.isWellEscaped]
  rw [List.foldlM_cons, hstart]
  show (value.tokens ++ rest).foldlM next? (.atValue (.object before name :: frames)) = _
  rw [h]
  rfl

lemma foldlM_tokensOfMembers {members : List (Text × Json)} (hnames : ∀ member ∈ members, StringLiteral member.1)
    (h : ∀ member ∈ members, Takes member.2) (before : List (Text × Json)) (frames : List Frame)
    (rest : List Token) :
    (tokensOfMembers members ++ rest).foldlM next? (.afterMember before frames) =
      rest.foldlM next? (complete (.object (before.reverse ++ members)) frames) := by
  induction members generalizing before with
  | nil =>
    rw [tokensOfMembers, List.append_nil]
    rfl
  | cons member members ih =>
    obtain ⟨name, value⟩ := member
    rw [List.forall_mem_cons] at hnames h
    rw [tokensOfMembers]
    simp only [List.cons_append, List.append_assoc]
    show (.string name :: .colon :: (value.tokens ++ (tokensOfMembers members ++ rest))).foldlM next?
      (.atName before frames) = _
    rw [foldlM_member hnames.1 h.1, ih hnames.2 h.2, List.reverse_cons, List.append_assoc]
    rfl

/-- The tokens of a well-formed value complete it. -/
lemma takes_of_wellFormed {json : Json} (h : WellFormed json) : Takes json := by
  induction h with
  | null =>
    intro frames rest
    rw [tokens]
    rfl
  | bool value =>
    intro frames rest
    cases value with
    | false =>
      rw [tokens]
      rfl
    | true =>
      rw [tokens]
      rfl
  | @number literal h =>
    intro frames rest
    have hstart : next? (.atValue frames) (.scalar literal) = some (complete (.number literal) frames) := by
      show (ofScalar? literal).map _ = _
      rw [ofScalar?_number h, Option.map_some]
    rw [tokens, List.singleton_append, List.foldlM_cons, hstart]
    rfl
  | @string literal h =>
    intro frames rest
    have hstart : next? (.atValue frames) (.string literal) = some (complete (.string literal) frames) := by
      show startValue? frames (.string literal) = _
      rw [startValue?, if_pos h.isWellEscaped]
    rw [tokens, List.singleton_append, List.foldlM_cons, hstart]
    rfl
  | @array elements _ ih =>
    intro frames rest
    cases elements with
    | nil =>
      rw [tokens]
      rfl
    | cons element elements =>
      rw [List.forall_mem_cons] at ih
      rw [tokens, List.cons_append, List.append_assoc]
      show (element.tokens ++ (tokensOfElements elements ++ rest)).foldlM next? (.atFirstElement frames) = _
      rw [foldlM_atFirstElement, ih.1]
      exact foldlM_tokensOfElements ih.2 [element] frames rest
  | @object members hnames _ ih =>
    intro frames rest
    cases members with
    | nil =>
      rw [tokens]
      rfl
    | cons member members =>
      obtain ⟨name, value⟩ := member
      rw [List.forall_mem_cons] at hnames ih
      rw [tokens]
      simp only [List.cons_append, List.append_assoc]
      -- The first name is taken like a later one with nothing before it.
      show (.string name :: .colon :: (value.tokens ++ (tokensOfMembers members ++ rest))).foldlM next?
        (.atName [] frames) = _
      rw [foldlM_member hnames.1 ih.1]
      exact foldlM_tokensOfMembers hnames.2 ih.2 [(name, value)] frames rest

end Reader

/-- A text that has the tokens of a well-formed value in order is read as this value, whatever blanks stand
between them. -/
lemma read?_of_laidOut {json : Json} (h : WellFormed json) {text : Text} (htext : LaidOut json.tokens text) :
    read? text = some json := by
  have hreader := Reader.takes_of_wellFormed h [] []
  rw [List.append_nil] at hreader
  unfold read?
  rw [tokens?_of_laidOut htext h.separable]
  show (json.tokens.foldlM Reader.next? (.atValue [])).bind Reader.value? = _
  rw [hreader]
  rfl

/-! ## Writing -/

/-- A value as it is written with given blanks before each kind of token. -/
def spread (blanks : Token → Text) (json : Json) : Text :=
  json.tokens.flatMap fun token => blanks token ++ token.text

/-- A value as it is written without blanks. -/
def compact (json : Json) : Text :=
  json.spread fun _ => []

lemma laidOut_spread {blanks : Token → Text} (hblanks : ∀ token, ∀ c ∈ blanks token, isBlank c = true)
    (json : Json) : LaidOut json.tokens (json.spread blanks) := by
  unfold spread
  induction json.tokens with
  | nil => exact .nil fun c hc => absurd hc List.not_mem_nil
  | cons token tokens ih =>
    rw [List.flatMap_cons]
    exact .cons (hblanks token) ih

lemma laidOut_compact (json : Json) : LaidOut json.tokens json.compact :=
  laidOut_spread (fun _ _ hc => absurd hc List.not_mem_nil) json

end TreeIndent.Json
