import Mathlib.Logic.Function.Iterate
import Shc.Proofs.Concatenation
import Shc.Proofs.Counter
import Shc.Proofs.Progress
import Shc.Token.Lexer

/-!
# Parsing ends

Every construct of the grammar consumes a token before it succeeds, and every loop consumes
one in each round behind which it goes on.  So a source is parsed by fewer steps of its lexer
than it has tokens, whether it is a program or not.  Loops end because tokens are used up, and
the recursion ends because constructs are counted; the count says nothing about how many
constructs follow one another.
-/

namespace Shc

/-! ### Steps of the lexer -/

/-- The tokens that a lexer has in front of it. -/
def Stream.ofLexer (l : Lexer) : Stream :=
  .of l.current (if l.current.isTerminal then [] else l.cursor.tokens)

theorem Stream.toList_ofLexer_ofCursor (c : Cursor) :
    (ofLexer (Lexer.ofCursor c)).toList = c.tokens :=
  toList_ofCursor c

/-- A step of the lexer takes away the token in front, if that is not terminal. -/
theorem Stream.eq_ofLexer_of_cons {l : Lexer} {t : Token} {s : Stream} (ht : t.isTerminal = false)
    (h : ofLexer l = s.cons t) : s = ofLexer l.advance.2 := by
  obtain rfl : l.current = t := congrArg Stream.current h
  apply eq_of_toList_eq
  have hlater : (if l.current.isTerminal then [] else l.cursor.tokens) = s.toList :=
    congrArg Stream.later h
  rw [if_neg (by simp [ht])] at hlater
  rw [Lexer.advance, if_neg (by simp [ht]), toList_ofLexer_ofCursor, hlater]

/-- The lexer has been moved on once for each token that was consumed. -/
theorem Stream.eq_ofLexer_of_prepend {ts : List Token} (hts : Token.Proper ts) {l : Lexer}
    {s : Stream} (h : ofLexer l = s.prepend ts) :
    s = ofLexer ((fun l => l.advance.2)^[ts.length] l) := by
  induction ts generalizing l with
  | nil => exact h.symm
  | cons t ts ih =>
    obtain ⟨ht, hts⟩ := Token.proper_cons.1 hts
    exact ih hts (eq_ofLexer_of_cons ht h).symm

/-! ### Whole sources -/

namespace Parser

/-- A source from its first token on, which must be no lexical error. -/
def whole : Parser Program := do
  checked
  program

/-- What a parser answers, without the tokens that it leaves. -/
def answer {α : Type} : EStateM.Result ParseError Stream α → Except ParseError α
  | .ok a _ => .ok a
  | .error e _ => .error e

/-- Reading the items of a source is parsing the whole of it. -/
theorem whole_ofSource (source : Source) :
    Program.parse source = answer (whole (Stream.ofSource source)) ∧
      (Reading.ofSource source).rest = left (whole (Stream.ofSource source)) := by
  rw [Program.parse, Reading.ofSource, whole]
  cases hchecked : checked (Stream.ofSource source) with
  | error e s =>
    rw [bind_of_error hchecked]
    exact ⟨rfl, rfl⟩
  | ok u s =>
    rw [bind_of_ok hchecked, program]
    cases (Reading.ofStream s).result <;> exact ⟨rfl, rfl⟩

theorem rounds_itemRound : Rounds Counted.itemRound := by
  refine rounds_peek fun found t => ?_
  by_cases ht : t.kind = .eos
  · exact .inl (if_pos ht)
  · right
    rw [if_neg ht]
    exact progresses_item.map fun item => some (found ++ [item])

theorem progresses_whole : Progresses none 0 whole := by
  have hchecked : Progresses none 0 checked := by
    refine .peek fun t => ?_
    cases t.kind with
    | error e => exact progresses_fail _ _
    | _ => exact progresses_pure ()
  have hprogram : Progresses none 0 program := by
    rw [Counted.program_eq_iterate]
    exact Progresses.map (rounds_itemRound.progresses []) Program.ofItems
  exact hchecked.bind fun _ => hprogram

/-! ### Constructs and loops -/

/-- The constructs of the grammar.  An operand belongs to a layer of binary operators, and
    `tighter` are the layers below that one. -/
inductive Construct : {α : Type} → Parser α → Prop where
  | function : Construct function
  | global : Construct global
  | statement (room : Nat) (scope : Scope) : Construct (statement room scope)
  | type : Construct type
  | expr (scope : Scope) (room : Nat) : Construct (expr scope room)
  | operand (scope : Scope) (room : Nat) (tighter : List Layer) :
      Construct (operand scope room tighter)

/-- The loops of the grammar, each by its round. -/
inductive Loop : {β : Type} → (β → Parser (Option β)) → Prop where
  | items : Loop Counted.itemRound
  | statements (room : Nat) : Loop (statementRound (statement room))
  | params : Loop paramRound
  | args (scope : Scope) (room : Nat) : Loop (commaRound (expr scope room))
  | operators (layer : Layer) (scope : Scope) (room : Nat) (tighter : List Layer) :
      Loop (operatorRound layer (operand scope room tighter))
  | markers : Loop markerRound

theorem Construct.progresses {α : Type} {p : Parser α} (h : Construct p) : Progresses none 1 p := by
  cases h with
  | function => exact progresses_function
  | global => exact progresses_global
  | statement room scope => exact progresses_statement room scope
  | type => exact progresses_type
  | expr scope room => exact progresses_expr scope room
  | operand scope room tighter => exact progresses_operand scope room tighter

theorem Loop.rounds {β : Type} {step : β → Parser (Option β)} (h : Loop step) : Rounds step := by
  cases h with
  | items => exact rounds_itemRound
  | statements room => exact rounds_statementRound fun scope _ => progresses_statement room scope
  | params => exact rounds_paramRound
  | args scope room => exact rounds_commaRound (progresses_expr scope room)
  | operators layer scope room tighter =>
    exact rounds_operatorRound layer (progresses_operand scope room tighter)
  | markers => exact rounds_markerRound

end Parser

/-! ### Length -/

theorem Grammar.Program.length_le_tokens (tree : Grammar.Program) :
    tree.length ≤ tree.tokens.length := by
  induction tree with
  | nil => exact Nat.le_refl 0
  | cons item tree ih =>
    have hpos := List.length_pos_iff.2 item.tokens_ne_nil
    have htokens : Grammar.Program.tokens (item :: tree) =
        item.tokens ++ Grammar.Program.tokens tree := rfl
    rw [htokens, List.length_append, List.length_cons]
    omega

namespace Program

/-- How many functions and declarations the program has. -/
def length (p : Program) : Nat :=
  p.globals.length + p.functions.length

/-- The program several times over. -/
def copies (n : Nat) (p : Program) : Program :=
  ⟨(List.replicate n p.globals).flatten, (List.replicate n p.functions).flatten⟩

theorem length_copies (n : Nat) (p : Program) : (p.copies n).length = n * p.length := by
  simp [length, copies, Nat.mul_add]

theorem length_erase (p : Program) : (erase p).length = p.length := by
  simp [length, erase, relocate]

theorem length_ofItems (items : List Item) : (ofItems items).length = items.length := by
  induction items with
  | nil => rfl
  | cons item items ih =>
    rw [length] at ih ⊢
    cases item <;> simp only [ofItems, cons, List.length_cons] <;> omega

theorem ofItems_replicate (n : Nat) (items : List Item) :
    ofItems (List.replicate n items).flatten = (ofItems items).copies n := by
  induction n with
  | zero => rfl
  | succ n ih =>
    rw [List.replicate_succ, List.flatten_cons, ofItems_append, ih]
    rfl

theorem length_lt_tokens {source : Source} {p : Program} (h : parse source = .ok p) :
    p.length < source.tokens.length := by
  obtain ⟨tree, span, htokens, -, rfl⟩ := exists_derivation h
  have hle := tree.length_le_tokens
  rw [tree.image_eq_ofItems, length_ofItems, List.length_map, htokens, List.length_append,
    List.length_singleton]
  omega

/-- However deep a program is nested, it can stand in a source any number of times. -/
theorem exists_parse_copies {source : Source} {p : Program} (h : parse source = .ok p) (n : Nat) :
    ∃ source' p', parse source' = .ok p' ∧ erase p' = erase (p.copies n) := by
  obtain ⟨tree, span, htokens, hvalid, rfl⟩ := exists_derivation h
  have hlexical := Token.allLexical_of_source htokens
  let trees : Grammar.Program := (List.replicate n tree).flatten
  have hmem : ∀ item ∈ trees, item ∈ tree := by
    intro item hitem
    obtain ⟨copy, hcopy, hitem⟩ := List.mem_flatten.1 hitem
    rwa [List.eq_of_mem_replicate hcopy] at hitem
  have hvalid' : trees.Valid := fun item hitem => hvalid item (hmem item hitem)
  have hlexical' : Token.AllLexical trees.tokens := by
    intro t ht
    obtain ⟨item, hitem, ht⟩ := List.mem_flatMap.1 ht
    exact hlexical t (List.mem_flatMap.2 ⟨item, hmem item hitem, ht⟩)
  have himage : trees.image = tree.image.copies n := by
    rw [trees.image_eq_ofItems, tree.image_eq_ofItems, List.map_flatten, List.map_replicate,
      ofItems_replicate]
  obtain ⟨p', hparse, herase⟩ := parse_of_kinds (Grammar.Program.spellsLines hlexical').kinds_eq
    (Grammar.Program.valid_normal hvalid')
  exact ⟨_, p', hparse, by rw [herase, Grammar.Program.image_normal, himage]⟩

/-! ### Sources -/

/-- The tokens of a source are those that its parsing consumes and those that it leaves. -/
theorem tokens_eq_append_left {source : Source} {ts : List Token}
    {r : EStateM.Result ParseError Stream Program}
    (h : Parser.Evaluates Parser.whole (Stream.ofSource source) ts r) :
    source.tokens = ts ++ (Parser.left r).toList := by
  rw [← Stream.toList_ofSource, ← Stream.toList_prepend, ← h.eq_prepend]

/-- A source that is accepted is consumed up to its last token. -/
theorem length_consumed {source : Source} {p : Program} (hparse : parse source = .ok p)
    {ts : List Token} {r : EStateM.Result ParseError Stream Program}
    (h : Parser.Evaluates Parser.whole (Stream.ofSource source) ts r) :
    ts.length + 1 = source.tokens.length := by
  have hrest : (Reading.ofSource source).rest = Parser.left r := by
    rw [(Parser.whole_ofSource source).2, h.eval]
  have herror : (Reading.ofSource source).error = none := by
    rw [parse, Reading.result] at hparse
    cases herror : (Reading.ofSource source).error with
    | none => rfl
    | some e =>
      rw [herror] at hparse
      cases hparse
  have hterminal : (Parser.left r).current.isTerminal = true := by
    rw [← hrest, Token.isTerminal, Reading.current_rest_of_ok herror]
    rfl
  have htokens := tokens_eq_append_left h
  rw [Stream.toList] at htokens
  rw [htokens, Source.later_eq_nil htokens hterminal, List.length_append, List.length_singleton]

/-- Every construct of the grammar consumes a token before it succeeds, no parser gives back
    what it has consumed, and every loop consumes a token in each round behind which it goes
    on.  So a source is parsed, whatever it is, and its lexer is moved on less often than it
    has tokens: once for each token that is consumed, which are all but the last one if the
    source is accepted.  Meanwhile the counter of a session keeps to its limits, so the
    recursion ends as well; it limits how deep constructs are nested and not how many of
    them there are, since any program can be repeated any number of times. -/
theorem parse_terminates :
    (∀ {α : Type} {p : Parser α}, Parser.Construct p → Parser.Progresses none 1 p) ∧
    (∀ {α : Type} {p : Parser α} {s : Stream} {ts : List Token}
      {r : EStateM.Result ParseError Stream α}, Parser.Evaluates p s ts r →
        p s = r ∧ s = (Parser.left r).prepend ts ∧
          ∀ ts' r', Parser.Evaluates p s ts' r' → ts' = ts ∧ r' = r) ∧
    (∀ {β : Type} {step : β → Parser (Option β)}, Parser.Loop step → Parser.Rounds step) ∧
    (∀ source : Source, ∃ ts r,
      Parser.Evaluates Parser.whole (Stream.ofSource source) ts r ∧
      parse source = Parser.answer r ∧
      ts.length < source.tokens.length ∧
      (∀ p, parse source = .ok p → ts.length + 1 = source.tokens.length) ∧
      Parser.left r = Stream.ofLexer ((fun l => l.advance.2)^[ts.length] (Lexer.ofSource source)) ∧
      ∃ trail, Counted.InLimits trail ∧
        Counted.program (Session.fresh (Stream.ofSource source)) =
          Counted.outcome 0 trail (Parser.program (Stream.ofSource source))) ∧
    ∀ {source : Source} {p : Program}, parse source = .ok p → ∀ n, ∃ source' p',
      parse source' = .ok p' ∧ erase p' = erase (p.copies n) ∧
        n * p.length < source'.tokens.length := by
  refine ⟨fun h => h.progresses, fun h => ⟨h.eval, h.eq_prepend, fun _ _ h' => h'.unique h⟩,
    fun h => h.rounds, ?_, ?_⟩
  · intro source
    obtain ⟨ts, hrun, -⟩ := Parser.progresses_whole _ (Stream.closed_ofSource source) (by simp)
    obtain ⟨trail, htrail, hsession⟩ :=
      Counted.follows_program (Session.fresh (Stream.ofSource source)) (Int.le_refl 0) rfl
    refine ⟨ts, _, hrun, (Parser.whole_ofSource source).1, ?_, fun p hp => length_consumed hp hrun,
      Stream.eq_ofLexer_of_prepend hrun.proper hrun.eq_prepend, trail, htrail, ?_⟩
    · have hlength := congrArg List.length (tokens_eq_append_left hrun)
      rw [List.length_append, ← Stream.size_eq_length] at hlength
      omega
    · rw [hsession]
      exact congrArg (fun trail => Counted.outcome 0 trail _) (List.append_nil trail)
  · intro source p hp n
    obtain ⟨source', p', hparse, herase⟩ := exists_parse_copies hp n
    refine ⟨source', p', hparse, herase, ?_⟩
    have hlength := length_lt_tokens hparse
    rwa [← length_erase, herase, length_erase, length_copies] at hlength

end Program

end Shc
