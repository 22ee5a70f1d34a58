import Shc.Proofs.C.Meaning
import Shc.Text.Line

/-!
# Functions of C

A function definition as C reads it: what it returns, its parameters, and a body of
declarations, of expressions that are evaluated, and of the braces around blocks.
Statements keep no more of their shape than that, which is all that the scope of a
name depends on.
-/

namespace Shc.C

/-- A name with its type: the word for the base type and the number of stars. -/
structure Declarator where
  base : String
  depth : Nat
  name : String
deriving DecidableEq, Repr

/-- What a body consists of, in the order of the text. -/
inductive Item where
  | declare (d : Declarator)
  | eval (tree : Tree)
  | enter
  | leave
deriving DecidableEq, Repr

structure Definition where
  head : Declarator
  params : List Declarator
  body : List Item
deriving DecidableEq, Repr

/-! ### Reading -/

def expect (text : String) : List Token → Option (List Token)
  | [] => none
  | t :: ts => if t = .punct text then some ts else none

def declarator : Reader Declarator
  | .word base :: ts =>
    let depth := (ts.takeWhile (· = .punct "*")).length
    match ts.drop depth with
    | .word name :: rest => some (⟨base, depth, name⟩, rest)
    | _ => none
  | _ => none

/-- One parameter or more, and the parenthesis behind them. -/
def parameters : Nat → Reader (List Declarator)
  | 0, _ => none
  | n + 1, ts =>
    (declarator ts).bind fun r =>
      match expect "," r.2 with
      | some rest => (parameters n rest).map fun s => (r.1 :: s.1, s.2)
      | none => (expect ")" r.2).map ([r.1], ·)

/-- Parameters, or the word `void` if there are none. -/
def parameterList (ts : List Token) : Option (List Declarator × List Token) :=
  if ts.take 2 = [.word "void", .punct ")"] then some ([], ts.drop 2)
  else parameters ts.length ts

def expression (ts : List Token) : Option (Tree × List Token) :=
  chain (unary ts.length) precedence ts

/-- The words that name base types. -/
def typeNames : List String :=
  ["void", "char", "int", "uint8_t", "uint64_t"]

def declaration (ts : List Token) : Option (Declarator × List Token) :=
  (declarator ts).bind fun r =>
    if r.1.base ∈ typeNames then (expect ";" r.2).map (r.1, ·) else none

/-- An expression, or an assignment of one, and the semicolon. -/
def simple (ts : List Token) : Option (List Item × List Token) :=
  (expression ts).bind fun r =>
    match expect "=" r.2 with
    | some rest => (expression rest).bind fun s => (expect ";" s.2).map ([.eval r.1, .eval s.1], ·)
    | none => (expect ";" r.2).map ([.eval r.1], ·)

/-- The front of a body: a statement without parts that are statements, or as much of
    one as comes before its next block. -/
def phrase : Reader (List Item)
  | [] => none
  | t :: ts =>
    if t = .punct "\x7d" then some ([.leave], ts)
    else if t = .word "else" then (expect "\x7b" ts).map ([.enter], ·)
    else if t = .word "if" ∨ t = .word "while" then
      (expression ts).bind fun r => (expect "\x7b" r.2).map ([.eval r.1, .enter], ·)
    else if t = .word "break" ∨ t = .word "continue" then (expect ";" ts).map ([], ·)
    else if t = .word "return" then
      match expression ts with
      | some r => (expect ";" r.2).map ([.eval r.1], ·)
      | none => (expect ";" ts).map ([], ·)
    else
      match declaration (t :: ts) with
      | some r => some ([.declare r.1], r.2)
      | none => simple (t :: ts)

def items (ts : List Token) : Option (List Item) :=
  if ts = [] then some []
  else
    match phrase ts with
    | none => none
    | some (front, rest) =>
      if rest.length < ts.length then (items rest).map (front ++ ·) else none
termination_by ts.length

/-- The definition of a function, which takes the whole text. -/
def definition (text : String) : Option Definition := do
  let (head, ts) ← declarator (← lex text.toList)
  let (params, ts) ← parameterList (← expect "(" ts)
  let body ← items (← expect "\x7b" ts)
  return ⟨head, params, .enter :: body⟩

/-! ### Declarators -/

def Declarator.tokens (d : Declarator) : List Token :=
  .word d.base :: (stars d.depth ++ [.word d.name])

@[simp] theorem expect_cons (text : String) (ts : List Token) :
    expect text (.punct text :: ts) = some ts := by
  simp [expect]

theorem declarator_tokens (d : Declarator) (rest : List Token) :
    declarator (d.tokens ++ rest) = some (d, rest) := by
  have hstars : (stars d.depth ++ .word d.name :: rest).takeWhile (· = .punct "*") =
      stars d.depth := by
    rw [List.takeWhile_append_of_pos (by simp [stars, List.mem_replicate])]
    simp
  have hdrop : (stars d.depth ++ .word d.name :: rest).drop d.depth = .word d.name :: rest :=
    List.drop_left' List.length_replicate
  rw [Declarator.tokens, List.cons_append, List.append_assoc, List.singleton_append, declarator,
    hstars, stars, List.length_replicate, ← stars, hdrop]

theorem parameters_tokens (d : Declarator) (ds : List Declarator) {n : Nat} (hn : ds.length < n)
    (rest : List Token) :
    parameters n (separated ((d :: ds).map Declarator.tokens) ++ .punct ")" :: rest) =
      some (d :: ds, rest) := by
  induction ds generalizing d n with
  | nil =>
    obtain ⟨n, rfl⟩ := Nat.exists_eq_succ_of_ne_zero (Nat.ne_zero_of_lt hn)
    rw [List.map_singleton, separated, parameters, declarator_tokens, Option.bind_some]
    simp [expect]
  | cons d' ds ih =>
    obtain ⟨n, rfl⟩ := Nat.exists_eq_succ_of_ne_zero (Nat.ne_zero_of_lt hn)
    have hmore := ih d' (n := n) (by simp only [List.length_cons] at hn; omega)
    rw [List.map_cons, List.map_cons, separated_cons, List.append_assoc, List.cons_append,
      parameters, declarator_tokens, Option.bind_some, expect_cons]
    rw [List.map_cons] at hmore
    simp only [hmore, Option.map_some]

/-- The tokens of a list of parameters. -/
def parameterTokens : List Declarator → List Token
  | [] => [.word "void"]
  | ds => separated (ds.map Declarator.tokens)

/-- The first parameter stands at the front, and it is more than a word. -/
theorem take_parameterTokens (d : Declarator) (ds : List Declarator) (rest : List Token) :
    (parameterTokens (d :: ds) ++ .punct ")" :: rest).take 2 ≠ [.word "void", .punct ")"] := by
  have hfront : ∃ more, parameterTokens (d :: ds) ++ .punct ")" :: rest = d.tokens ++ more := by
    cases ds with
    | nil => exact ⟨_, rfl⟩
    | cons d' ds =>
      rw [parameterTokens, List.map_cons, List.map_cons, separated_cons, List.append_assoc]
      · exact ⟨_, rfl⟩
      · simp
  obtain ⟨more, hmore⟩ := hfront
  rw [hmore, Declarator.tokens]
  cases d.depth with
  | zero => simp [stars]
  | succ n => simp [stars, List.replicate_succ]

theorem parameterList_tokens (ds : List Declarator) (rest : List Token) :
    parameterList (parameterTokens ds ++ .punct ")" :: rest) = some (ds, rest) := by
  cases ds with
  | nil => rfl
  | cons d ds =>
    have hlength : ds.length < (parameterTokens (d :: ds) ++ .punct ")" :: rest).length := by
      have hle := length_separated ((d :: ds).map Declarator.tokens)
      simp only [parameterTokens, List.length_map, List.length_cons, List.length_append] at hle ⊢
      omega
    rw [parameterList, if_neg (take_parameterTokens d ds rest)]
    exact parameters_tokens d ds hlength rest

/-! ### Phrases -/

/-- An expression in front of a punctuator that does not go on with it. -/
theorem expression_of_reads {tree : Tree} {ts : List Token} (h : Reads tree ts) (text : String)
    (hparen : text ≠ "(") (hop : ∀ ops ∈ precedence, operator? ops (.punct text) = none)
    (rest : List Token) :
    expression (ts ++ .punct text :: rest) = some (tree, .punct text :: rest) := by
  have hlength : ts.length ≤ (ts ++ .punct text :: rest).length := by simp
  exact chain_of_operand (h _ _ hlength (by simpa using hparen)) hop

theorem phrase_leave (rest : List Token) : phrase (.punct "\x7d" :: rest) = some ([.leave], rest) :=
  rfl

theorem phrase_else (rest : List Token) :
    phrase (.word "else" :: .punct "\x7b" :: rest) = some ([.enter], rest) :=
  rfl

theorem phrase_break (rest : List Token) :
    phrase (.word "break" :: .punct ";" :: rest) = some ([], rest) :=
  rfl

theorem phrase_continue (rest : List Token) :
    phrase (.word "continue" :: .punct ";" :: rest) = some ([], rest) :=
  rfl

section

variable {tree : Tree} {ts : List Token}

theorem phrase_condition {word : Keyword} (hword : word = .ifKw ∨ word = .whileKw)
    (h : Reads tree ts) (rest : List Token) :
    phrase (.word word.text :: (ts ++ .punct "\x7b" :: rest)) =
      some ([.eval tree, .enter], rest) := by
  have hcondition := expression_of_reads h "\x7b" (by decide) (by decide) rest
  rcases hword with rfl | rfl
  · simp [phrase, Keyword.text, hcondition]
  · simp [phrase, Keyword.text, hcondition]

theorem phrase_return (h : Reads tree ts) (rest : List Token) :
    phrase (.word "return" :: (ts ++ .punct ";" :: rest)) = some ([.eval tree], rest) := by
  simp [phrase, expression_of_reads h ";" (by decide) (by decide)]

end

theorem phrase_return_none (rest : List Token) :
    phrase (.word "return" :: .punct ";" :: rest) = some ([], rest) := by
  have hnone : expression (.punct ";" :: rest) = none := chain_eq_none rfl _
  simp [phrase, hnone]

/-- The words that start or divide statements. -/
def controlWords : List Keyword :=
  [.ifKw, .elseKw, .whileKw, .returnKw, .breakKw, .continueKw]

/-- A token that can start a declaration or an expression. -/
def Plain (t : Token) : Prop :=
  t ≠ .punct "\x7d" ∧ ∀ word ∈ controlWords, t ≠ .word word.text

theorem phrase_of_plain {t : Token} (h : Plain t) (ts : List Token) :
    phrase (t :: ts) =
      match declaration (t :: ts) with
      | some r => some ([.declare r.1], r.2)
      | none => simple (t :: ts) := by
  have helse : t ≠ .word "else" := h.2 .elseKw (by decide)
  have hreturn : t ≠ .word "return" := h.2 .returnKw (by decide)
  have hif : ¬ (t = .word "if" ∨ t = .word "while") :=
    not_or.2 ⟨h.2 .ifKw (by decide), h.2 .whileKw (by decide)⟩
  have hbreak : ¬ (t = .word "break" ∨ t = .word "continue") :=
    not_or.2 ⟨h.2 .breakKw (by decide), h.2 .continueKw (by decide)⟩
  rw [phrase, if_neg h.1, if_neg helse, if_neg hif, if_neg hbreak, if_neg hreturn]

theorem plain_of_isName {name : String} (h : Lexeme.IsName name) : Plain (.word name) := by
  refine ⟨by simp, fun word _ hword => ?_⟩
  have hkind := h.kind_eq
  rw [Token.word.inj hword, Lexeme.wordKind_keyword] at hkind
  exact nomatch hkind

theorem phrase_declare {d : Declarator} (hbase : d.base ∈ typeNames)
    (hplain : Plain (.word d.base)) (rest : List Token) :
    phrase (d.tokens ++ .punct ";" :: rest) = some ([.declare d], rest) := by
  have hdeclaration : declaration (d.tokens ++ .punct ";" :: rest) = some (d, rest) := by
    rw [declaration, declarator_tokens, Option.bind_some, if_pos hbase, expect_cons]
    rfl
  rw [Declarator.tokens, List.cons_append] at hdeclaration ⊢
  rw [phrase_of_plain hplain, hdeclaration]

theorem declaration_punct (text : String) (ts : List Token) :
    declaration (.punct text :: ts) = none :=
  rfl

/-- A word in front of something that is neither a star nor a word declares nothing. -/
theorem declaration_word {text : String} (h : text ≠ "*") (name : String) (ts : List Token) :
    declaration (.word name :: .punct text :: ts) = none := by
  simp [declaration, declarator, h]

theorem simple_assign {target value : Tree} {ts us : List Token} (htarget : Reads target ts)
    (hvalue : Reads value us) (rest : List Token) :
    simple (ts ++ .punct "=" :: (us ++ .punct ";" :: rest)) =
      some ([.eval target, .eval value], rest) := by
  rw [simple, expression_of_reads htarget "=" (by decide) (by decide), Option.bind_some]
  simp [expression_of_reads hvalue ";" (by decide) (by decide)]

theorem simple_eval {tree : Tree} {ts : List Token} (h : Reads tree ts) (rest : List Token) :
    simple (ts ++ .punct ";" :: rest) = some ([.eval tree], rest) := by
  rw [simple, expression_of_reads h ";" (by decide) (by decide), Option.bind_some]
  simp [expect]

theorem phrase_assign {name : String} (hname : Lexeme.IsName name) (n : Nat) {value : Tree}
    {us : List Token} (hvalue : Reads value us) (rest : List Token) :
    phrase (stars n ++ [.word name] ++ .punct "=" :: (us ++ .punct ";" :: rest)) =
      some ([.eval (.derefs n (.word name)), .eval value], rest) := by
  have hsimple := simple_assign (reads_derefs name n) hvalue rest
  cases n with
  | zero =>
    have hplain := phrase_of_plain (plain_of_isName hname)
      (.punct "=" :: (us ++ .punct ";" :: rest))
    rw [declaration_word (by decide)] at hplain
    exact hplain.trans hsimple
  | succ n =>
    have hstar : Plain (.punct "*") := ⟨by decide, by decide⟩
    have hplain := phrase_of_plain hstar
      (stars n ++ [.word name] ++ .punct "=" :: (us ++ .punct ";" :: rest))
    rw [declaration_punct] at hplain
    exact hplain.trans hsimple

theorem phrase_call {name : String} (hname : Lexeme.IsName name) {trees : List Tree}
    {tss : List (List Token)} (h : List.Forall₂ ReadsWhole trees tss) (rest : List Token) :
    phrase (.word name :: .punct "(" :: (separated tss ++ [.punct ")"]) ++ .punct ";" :: rest) =
      some ([.eval (.call (.word name) trees)], rest) := by
  have hreads : Reads (.call (.word name) trees) _ := reads_call h
  have hsimple := simple_eval hreads rest
  have hplain := phrase_of_plain (plain_of_isName hname)
    (.punct "(" :: (separated tss ++ [.punct ")"]) ++ .punct ";" :: rest)
  rw [List.cons_append, declaration_word (by decide)] at hplain
  exact hplain.trans hsimple

/-! ### Texts of items -/

theorem items_nil : items [] = some [] := by
  rw [items, if_pos rfl]

theorem items_append {ts rest : List Token} {front more : List Item} (hne : ts ≠ [])
    (hphrase : phrase (ts ++ rest) = some (front, rest)) (hrest : items rest = some more) :
    items (ts ++ rest) = some (front ++ more) := by
  have hlength : rest.length < (ts ++ rest).length := by
    rw [List.length_append]
    exact Nat.lt_add_of_pos_left (List.length_pos_iff.2 hne)
  rw [items, if_neg (by simp [hne]), hphrase]
  dsimp only
  rw [if_pos hlength, hrest, Option.map_some]

/-- The text is read as these items, whatever items follow. -/
def Holds (text : String) (front : List Item) : Prop :=
  ∃ ts, Spells Anything text ts ∧
    ∀ rest more, items rest = some more → items (ts ++ rest) = some (front ++ more)

theorem holds_nil : Holds "" [] :=
  ⟨[], Adds.nil, fun _ _ h => h⟩

theorem Holds.append {text text' : String} {front front' : List Item} (h : Holds text front)
    (h' : Holds text' front') : Holds (text ++ text') (front ++ front') := by
  obtain ⟨ts, hspells, hitems⟩ := h
  obtain ⟨us, hspells', hitems'⟩ := h'
  refine ⟨ts ++ us, hspells.append_any hspells', fun rest more hrest => ?_⟩
  rw [List.append_assoc, List.append_assoc]
  exact hitems _ _ (hitems' rest more hrest)

theorem spells_indent (n : Nat) : Spells Anything (Text.row ' ' n) [] := by
  induction n with
  | zero => exact Adds.nil
  | succ n ih =>
    rw [Text.row_succ]
    exact spells_space.append_any ih

theorem spells_lineFeed : Spells Anything "\n" [] :=
  spells_of_step none rfl fun _ _ => rfl

theorem spells_render {text : String} {ts : List Token} (h : Spells Anything text ts)
    (level : Nat) : Spells Anything (Line.render ⟨level, text⟩) ts := by
  have hline := ((spells_indent (4 * level)).append_any h).append_any spells_lineFeed
  rwa [List.nil_append, List.append_nil] at hline

/-- A line that is one phrase. -/
theorem holds_line {text : String} {ts : List Token} {front : List Item}
    (hspells : Spells Anything text ts) (hne : ts ≠ [])
    (hphrase : ∀ rest, phrase (ts ++ rest) = some (front, rest)) (level : Nat) :
    Holds (Line.render ⟨level, text⟩) front :=
  ⟨ts, spells_render hspells level, fun rest _ hrest => items_append hne (hphrase rest) hrest⟩

/-- A definition from the texts of its signature and of its body. -/
theorem definition_of_spells {head body : String} {d : Declarator} {ds : List Declarator}
    {front : List Item}
    (hhead : Spells Anything head
      (d.tokens ++ .punct "(" :: (parameterTokens ds ++ [.punct ")", .punct "\x7b"])))
    (hbody : Holds body front) : definition (head ++ body) = some ⟨d, ds, .enter :: front⟩ := by
  obtain ⟨ts, hspells, hitems⟩ := hbody
  have hlex : lex (head ++ body).toList = some _ :=
    (hhead.append_any hspells).whole trivial (by rw [lex])
  have hfront := hitems [] [] items_nil
  rw [List.append_nil, List.append_nil] at hfront
  have hdeclarator := declarator_tokens d
    (.punct "(" :: (parameterTokens ds ++ .punct ")" :: .punct "\x7b" :: ts))
  have hparams := parameterList_tokens ds (.punct "\x7b" :: ts)
  simp only [List.append_assoc, List.cons_append, List.nil_append] at hlex
  rw [definition, hlex]
  simp [hdeclarator, hparams, hfront]

end Shc.C
