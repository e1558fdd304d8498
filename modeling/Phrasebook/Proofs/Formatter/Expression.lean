import Phrasebook.Proofs.Formatter.Plain

/-!
# Reading expressions

The expressions that stand for trees, as data, and a reader of their texts. Every text that a tree
is written as is read back, by induction on the tree: what an expression starts with tells its kind,
and commas and the closing parenthesis tell where each argument ends.
-/

namespace Phrasebook

/-- Expressions over the argument list `args`, a mapping `extensions` from names to functions and a
function `concat`. The first argument of every call is `args[0]`; it is left out here. -/
inductive Expression where
  | literal (s : String)
  /-- `args[index]` -/
  | argument (index : Nat)
  /-- `args[len(args) - distance]` -/
  | fromEnd (distance : Nat)
  | call (name : String) (args : List Expression)
  | concat (items : List Expression)

namespace Expression

variable {s rest : List Char} {n : Nat} {node : Pattern.Node} {nodes : List Pattern.Node}
  {text : String} {texts : List String}

def strip : List Char → List Char → Option (List Char)
  | [], s => some s
  | _ :: _, [] => none
  | a :: w, c :: s => if a = c then strip w s else none

def readNumber (s : List Char) : Option (Nat × List Char) :=
  let ds := s.takeWhile Char.isDigit
  if ds = Text.digits (Text.ofDigits ds) then some (Text.ofDigits ds, s.dropWhile Char.isDigit)
  else none

/-- An expression up to the first one inside it. -/
inductive Head where
  | whole (e : Expression)
  | call (name : String)
  | concat

def literalHead (s : List Char) : Option (Head × List Char) := do
  let (t, s) ← Text.readLiteral s
  return (.whole (.literal (String.ofList t)), s)

def indexHead (opening : String) (make : Nat → Expression) (s : List Char) :
    Option (Head × List Char) := do
  let s ← strip opening.toList s
  let (n, s) ← readNumber s
  let s ← strip [']'] s
  return (.whole (make n), s)

def argumentHead : List Char → Option (Head × List Char) := indexHead "args[" argument

def fromEndHead : List Char → Option (Head × List Char) := indexHead "args[len(args) - " fromEnd

def callHead (s : List Char) : Option (Head × List Char) := do
  let s ← strip "extensions[".toList s
  let (name, s) ← Text.readLiteral s
  let s ← strip "](args[0]".toList s
  return (.call (String.ofList name), s)

def concatHead (s : List Char) : Option (Head × List Char) := do
  let s ← strip "concat(".toList s
  return (.concat, s)

def readHead (s : List Char) : Option (Head × List Char) :=
  literalHead s <|> argumentHead s <|> fromEndHead s <|> callHead s <|> concatHead s

open Pattern (Rest)

mutual

def readFrom (s : List Char) : Option (Expression × Rest s) :=
  match readHead s with
  | none => none
  | some (head, s') =>
    if h : s'.length < s.length then
      match head with
      | .whole e => some (e, ⟨s', h⟩)
      | .call name =>
        match readMore s' with
        | none => none
        | some (args, r) => some (.call name args, ⟨r.1, Nat.lt_trans r.2 h⟩)
      | .concat =>
        match readFrom s' with
        | none => none
        | some (e, r) =>
          match readMore r.1 with
          | none => none
          | some (es, r') =>
            some (.concat (e :: es), ⟨r'.1, Nat.lt_trans (Nat.lt_trans r'.2 r.2) h⟩)
    else none
termination_by s.length
decreasing_by
  · exact h
  · exact h
  · exact Nat.lt_trans r.2 h

def readMore (s : List Char) : Option (List Expression × Rest s) :=
  match s with
  | ')' :: s' => some ([], ⟨s', Nat.lt_succ_self _⟩)
  | ',' :: ' ' :: s' =>
    match readFrom s' with
    | none => none
    | some (e, r) =>
      match readMore r.1 with
      | none => none
      | some (es, r') =>
        some (e :: es, ⟨r'.1, Nat.lt_trans (Nat.lt_trans r'.2 r.2)
          (Nat.lt_trans (Nat.lt_succ_self _) (Nat.lt_succ_self _))⟩)
  | _ => none
termination_by s.length
decreasing_by
  · exact Nat.lt_trans (Nat.lt_succ_self _) (Nat.lt_succ_self _)
  · exact Nat.lt_trans r.2 (Nat.lt_trans (Nat.lt_succ_self _) (Nat.lt_succ_self _))

end

def read (text : String) : Option Expression :=
  match readFrom text.toList with
  | some (e, ⟨[], _⟩) => some e
  | _ => none

section Trees

mutual

def ofNode : Pattern.Node → Expression
  | .literal s => literal s
  | .reference i => if 0 ≤ i then argument i.toNat else fromEnd (-i).toNat
  | .call name args => call name (ofNodes args)
  | .sequence items =>
    match ofNodes items with
    | [] => literal ""
    | [single] => single
    | es => concat es

def ofNodes : List Pattern.Node → List Expression
  | [] => []
  | node :: nodes => ofNode node :: ofNodes nodes

end

end Trees

section Heads

theorem strip_append (w r : List Char) : strip w (w ++ r) = some r := by
  induction w with
  | nil => rfl
  | cons a w ih => rw [List.cons_append, strip, if_pos rfl, ih]

theorem readNumber_digits (n : Nat) (r : List Char) :
    readNumber (Text.digits n ++ ']' :: r) = some (n, ']' :: r) := by
  have hvalue : Text.ofDigits (Text.digits n) = n :=
    Nat.ofDigitChars_toDigits (by decide) (by decide)
  have hdigits : ∀ c ∈ Text.digits n, c.isDigit = true := fun c hc =>
    Nat.isDigit_of_mem_toDigits (by decide) (by decide) hc
  have hstop : ∀ c ∈ (']' :: r).head?, c.isDigit = false := by
    rintro c ⟨⟩
    rfl
  obtain ⟨htake, hdrop⟩ := Pattern.takeWhile_append_head hdigits hstop
  rw [readNumber, htake, hdrop, hvalue]
  exact if_pos rfl

theorem readNumber_none {c : Char} (hc : c.isDigit = false) (s : List Char) :
    readNumber (c :: s) = none := by
  rw [readNumber, List.takeWhile_cons, hc]
  exact if_neg fun h => Nat.toDigits_ne_nil h.symm

theorem indexHead_digits (opening : String) (make : Nat → Expression) (n : Nat) (r : List Char) :
    indexHead opening make (opening.toList ++ (Text.digits n ++ ']' :: r)) =
      some (.whole (make n), r) := by
  rw [indexHead, strip_append]
  simp [readNumber_digits, strip]

theorem literalHead_none {c : Char} (hc : c ≠ '"' ∧ c ≠ '\'') (s : List Char) :
    literalHead (c :: s) = none := by
  rw [literalHead, Text.readLiteral, if_neg (not_or.2 hc)]
  rfl

theorem readHead_literal (t : String) (r : List Char) :
    readHead ((Text.literal t).toList ++ r) = some (.whole (.literal t), r) := by
  rw [readHead, literalHead, Text.readLiteral_literal]
  simp

theorem readHead_argument (n : Nat) (r : List Char) :
    readHead ("args[".toList ++ (Text.digits n ++ ']' :: r)) = some (.whole (.argument n), r) := by
  have hliteral : literalHead ("args[".toList ++ (Text.digits n ++ ']' :: r)) = none :=
    literalHead_none (by decide) _
  rw [readHead, hliteral, argumentHead, indexHead_digits]
  rfl

theorem readHead_fromEnd (n : Nat) (r : List Char) :
    readHead ("args[len(args) - ".toList ++ (Text.digits n ++ ']' :: r)) =
      some (.whole (.fromEnd n), r) := by
  have hliteral : literalHead ("args[len(args) - ".toList ++ (Text.digits n ++ ']' :: r)) = none :=
    literalHead_none (by decide) _
  have hargument :
      argumentHead ("args[len(args) - ".toList ++ (Text.digits n ++ ']' :: r)) = none := by
    have hstrip : strip "args[".toList ("args[len(args) - ".toList ++ (Text.digits n ++ ']' :: r)) =
      some ('l' :: ("en(args) - ".toList ++ (Text.digits n ++ ']' :: r))) := rfl
    rw [argumentHead, indexHead, hstrip, Option.bind_eq_bind, Option.bind_some,
      readNumber_none (by decide)]
    rfl
  rw [readHead, hliteral, hargument, fromEndHead, indexHead_digits]
  rfl

theorem readHead_call (name : String) (r : List Char) :
    readHead ("extensions[".toList ++ ((Text.quoted name).toList ++ ("](args[0]".toList ++ r))) =
      some (.call name, r) := by
  have hliteral (s : List Char) : literalHead ("extensions[".toList ++ s) = none :=
    literalHead_none (by decide) _
  have hargument (s : List Char) : argumentHead ("extensions[".toList ++ s) = none := rfl
  have hfromEnd (s : List Char) : fromEndHead ("extensions[".toList ++ s) = none := rfl
  rw [readHead, hliteral, hargument, hfromEnd, callHead, strip_append]
  simp only [Option.bind_eq_bind, Option.bind_some, Text.readLiteral_quoted, strip_append]
  simp

theorem readHead_concat (r : List Char) :
    readHead ("concat(".toList ++ r) = some (.concat, r) := by
  have hliteral : literalHead ("concat(".toList ++ r) = none := literalHead_none (by decide) _
  have hargument : argumentHead ("concat(".toList ++ r) = none := rfl
  have hfromEnd : fromEndHead ("concat(".toList ++ r) = none := rfl
  have hcall : callHead ("concat(".toList ++ r) = none := rfl
  rw [readHead, hliteral, hargument, hfromEnd, hcall, concatHead, strip_append]
  rfl

end Heads

section Steps

variable {r r' : List Char} {e : Expression} {es args : List Expression} {name : String}

def Takes {α : Type} (x : Option (α × Rest s)) (a : α) (rest : List Char) : Prop :=
  ∃ h : rest.length < s.length, x = some (a, ⟨rest, h⟩)

theorem readFrom_whole (h : readHead s = some (.whole e, rest)) (hlen : rest.length < s.length) :
    Takes (readFrom s) e rest := by
  refine ⟨hlen, ?_⟩
  rw [readFrom, h]
  exact dif_pos hlen

theorem readFrom_call (h : readHead s = some (.call name, r)) (hlen : r.length < s.length)
    (hargs : Takes (readMore r) args rest) : Takes (readFrom s) (.call name args) rest := by
  obtain ⟨hlen', hargs⟩ := hargs
  refine ⟨Nat.lt_trans hlen' hlen, ?_⟩
  rw [readFrom, h]
  simp only [hlen, ↓reduceDIte, hargs]

theorem readFrom_concat (h : readHead s = some (.concat, r)) (hlen : r.length < s.length)
    (he : Takes (readFrom r) e r') (hes : Takes (readMore r') es rest) :
    Takes (readFrom s) (.concat (e :: es)) rest := by
  obtain ⟨hlen', he⟩ := he
  obtain ⟨hlen'', hes⟩ := hes
  refine ⟨Nat.lt_trans hlen'' (Nat.lt_trans hlen' hlen), ?_⟩
  rw [readFrom, h]
  simp only [hlen, ↓reduceDIte, he, hes]

theorem readMore_close (rest : List Char) : Takes (readMore (')' :: rest)) [] rest :=
  ⟨Nat.lt_succ_self _, by rw [readMore]⟩

theorem readMore_next (he : Takes (readFrom s) e r) (hes : Takes (readMore r) es rest) :
    Takes (readMore (',' :: ' ' :: s)) (e :: es) rest := by
  obtain ⟨hlen, he⟩ := he
  obtain ⟨hlen', hes⟩ := hes
  refine ⟨Nat.lt_trans (Nat.lt_trans hlen' hlen) (Nat.lt_succ_of_lt (Nat.lt_succ_self _)), ?_⟩
  rw [readMore]
  simp only [he, hes]

end Steps

section Texts

def listed (texts : List String) : List Char := texts.flatMap fun t => ',' :: ' ' :: t.toList

theorem listed_cons (t : String) (texts : List String) (r : List Char) :
    listed (t :: texts) ++ r = ',' :: ' ' :: (t.toList ++ (listed texts ++ r)) := by
  simp [listed]

theorem toList_commaSeparated (t : String) (texts : List String) :
    (Value.commaSeparated (t :: texts)).toList = t.toList ++ listed texts := by
  induction texts generalizing t with
  | nil => simp [Value.commaSeparated, listed]
  | cons t' texts ih =>
    have hrest := ih t'
    rw [Value.commaSeparated] at hrest ⊢
    rw [String.intercalate_cons_cons, String.toList_append, String.toList_append, hrest]
    simp [listed]

theorem toList_intText {i : Int} {t : String} (h : Value.intText i = some t) (hi : 0 ≤ i) :
    t.toList = Text.digits i.toNat := by
  obtain ⟨n, rfl⟩ := Int.eq_ofNat_of_zero_le hi
  rw [Value.intText] at h
  obtain ⟨-, h⟩ := Option.ite_none_left_eq_some.1 h
  cases h
  simp [Text.digits]

theorem readFrom_index {i : Int} (h : Pattern.Node.indexExpression i = some text)
    (rest : List Char) : Takes (readFrom (text.toList ++ rest)) (ofNode (.reference i)) rest := by
  rw [Pattern.Node.indexExpression] at h
  rw [ofNode]
  by_cases hi : 0 ≤ i
  · rw [if_pos hi] at h ⊢
    obtain ⟨t, ht, rfl⟩ := Option.map_eq_some_iff.1 h
    refine readFrom_whole ?_ (by simp; omega)
    have := readHead_argument i.toNat rest
    simpa [toList_intText ht hi] using this
  · rw [if_neg hi] at h ⊢
    obtain ⟨t, ht, rfl⟩ := Option.map_eq_some_iff.1 h
    refine readFrom_whole ?_ (by simp; omega)
    have := readHead_fromEnd (-i).toNat rest
    simpa [toList_intText ht (by omega)] using this

end Texts

section Reading

theorem expression_single (node : Pattern.Node) :
    (Pattern.Node.sequence [node]).expression = node.expression := by
  simp only [Pattern.Node.expression, Pattern.Node.expressions]
  cases node.expression <;> rfl

theorem expression_many {first second : Pattern.Node} {more : List Pattern.Node}
    (h : (Pattern.Node.sequence (first :: second :: more)).expression = some text) :
    ∃ t ts, first.expression = some t ∧ Pattern.Node.expressions (second :: more) = some ts ∧
      text = "concat(" ++ Value.commaSeparated (t :: ts) ++ ")" := by
  rw [Pattern.Node.expression, Pattern.Node.expressions] at h
  simp only [Option.bind_eq_bind, Option.bind_eq_some_iff] at h
  obtain ⟨all, ⟨t, ht, ts, hts, ⟨⟩⟩, h⟩ := h
  refine ⟨t, ts, ht, hts, ?_⟩
  rw [Pattern.Node.expressions] at hts
  simp only [Option.bind_eq_bind, Option.bind_eq_some_iff] at hts
  obtain ⟨t', -, ts', -, ⟨⟩⟩ := hts
  cases h
  rfl

mutual

theorem readFrom_expression : ∀ (node : Pattern.Node) (text : String),
    node.expression = some text → ∀ rest, Takes (readFrom (text.toList ++ rest)) (ofNode node) rest
  | .literal s, text, h, rest => by
    rw [Pattern.Node.expression] at h
    cases h
    rw [ofNode]
    exact readFrom_whole (readHead_literal s rest) (by simp [Text.literal]; omega)
  | .reference i, text, h, rest => by
    rw [Pattern.Node.expression] at h
    exact readFrom_index h rest
  | .call name args, text, h, rest => by
    rw [Pattern.Node.expression] at h
    simp only [Option.bind_eq_bind, Option.bind_eq_some_iff] at h
    obtain ⟨texts, htexts, ⟨⟩⟩ := h
    rw [ofNode]
    refine readFrom_call ?_ ?_ (readMore_expressions args texts htexts rest)
    · have := readHead_call name (listed texts ++ ')' :: rest)
      simpa [toList_commaSeparated] using this
    · simp [toList_commaSeparated]
      omega
  | .sequence [], text, h, rest => by
    cases h
    refine readFrom_whole (readHead_literal "" rest) ?_
    rw [List.length_append]
    exact Nat.lt_add_of_pos_left (by decide)
  | .sequence [single], text, h, rest => by
    rw [expression_single] at h
    exact readFrom_expression single text h rest
  | .sequence (first :: second :: more), text, h, rest => by
    obtain ⟨t, ts, ht, hts, rfl⟩ := expression_many h
    have hhead := readHead_concat (t.toList ++ (listed ts ++ ')' :: rest))
    have hfirst := readFrom_expression first t ht (listed ts ++ ')' :: rest)
    have hmore := readMore_expressions (second :: more) ts hts rest
    refine readFrom_concat ?_ ?_ hfirst hmore
    · simpa [toList_commaSeparated] using hhead
    · simp [toList_commaSeparated]
      omega

theorem readMore_expressions : ∀ (nodes : List Pattern.Node) (texts : List String),
    Pattern.Node.expressions nodes = some texts →
      ∀ rest, Takes (readMore (listed texts ++ ')' :: rest)) (ofNodes nodes) rest
  | [], texts, h, rest => by
    cases h
    exact readMore_close rest
  | node :: nodes, texts, h, rest => by
    rw [Pattern.Node.expressions] at h
    simp only [Option.bind_eq_bind, Option.bind_eq_some_iff] at h
    obtain ⟨t, ht, ts, hts, ⟨⟩⟩ := h
    rw [ofNodes, listed_cons]
    exact readMore_next (readFrom_expression node t ht _) (readMore_expressions nodes ts hts rest)

end

/-- The text of a tree reads back as its expression. -/
theorem read_expression (h : node.expression = some text) : read text = some (ofNode node) := by
  have hreads := readFrom_expression node text h []
  rw [List.append_nil] at hreads
  obtain ⟨_, hreads⟩ := hreads
  rw [read, hreads]

end Reading

end Expression

end Phrasebook
