import Shc.Proofs.Lexing.Token
import Shc.Proofs.RoundTrip.Normal
import Shc.Proofs.ScopeSound

/-!
# Printed programs spell normal derivations

The text of the image of a derivation is read as the tokens of the normal
derivation.  Expressions are spelled within a line, statements line by line.  All
that is asked of the derivation is that its numbers and names are such as the lexer
gives, and that the environment keeps names.
-/

namespace Shc

open Token (Kind)

open Token (allLexical_cons allLexical_append)

/-- Every name stands for a variable of that name. -/
def KeepsNames (env : String → Variable) : Prop :=
  ∀ name, (env name).name = name

/-! ### Texts in rows -/

theorem Text.joined_cons (sep text : String) (texts : List String) :
    Text.joined sep (text :: texts) = text ++ Text.concat (texts.map (sep ++ ·)) := by
  induction texts generalizing text with
  | nil => simp [Text.joined, Text.concat]
  | cons next texts ih =>
    rw [Text.joined, ih next, List.map_cons, Text.concat, String.append_assoc, String.append_assoc]
    simp

/-- A text that adds tokens of these kinds, if any, behind a word or a number. -/
structure Trails (text : String) (kinds : List Kind) : Prop where
  spells : Spells Stops text kinds
  stops : ∀ rest, Stops rest → Stops (text.toList ++ rest)

theorem trails_nil : Trails "" [] :=
  ⟨Adds.nil, fun _ hrest => hrest⟩

theorem Adds.append_trails {text text' : String} {kinds kinds' : List Kind}
    (h : Spells Stops text kinds) (h' : Trails text' kinds') :
    Spells Stops (text ++ text') (kinds ++ kinds') :=
  h.append h'.spells h'.stops

/-- One more item of a list, with a comma in front. -/
theorem Trails.cons {text text' : String} {kinds kinds' : List Kind}
    (h : Spells Stops text kinds) (h' : Trails text' kinds') :
    Trails (", " ++ text ++ text') (.symbol .comma :: (kinds ++ kinds')) := by
  have hcomma : Spells Anything ", " [.symbol .comma] := spells_comma.append_any spells_space
  refine ⟨(hcomma.append_any h).append_trails h', ?_⟩
  intro rest _
  rw [String.append_assoc]
  have hapart : StandsApart ", " := by decide
  exact (hapart.append _).headIn rest

theorem spells_wordSpace (word : Keyword) : Spells Anything (word.text ++ " ") [.keyword word] :=
  (spells_keyword word).append_starts spells_space (by decide)

theorem spells_spaceBrace : Spells Anything " \x7b" [.symbol .lbrace] :=
  spells_space.append_any spells_lbrace

theorem spells_colonSpaced : Spells Anything " : " [.symbol .colon] :=
  spells_space.append_any (spells_colon.append_any spells_space)

theorem spells_eqSpaced : Spells Anything " = " [.symbol .eq] :=
  spells_space.append_any (spells_eq.append spells_space fun _ _ => rfl)

/-! ### Expressions -/

theorem Expr.text_plainExpr (value : Value) (loc : Location) :
    (Grammar.plainExpr value loc).text = value.text := by
  simp [Grammar.plainExpr, Expr.text, Slot.texts, Slot.text, Text.joined]

theorem spells_parens {text : String} {kinds : List Kind} (h : Spells Stops text kinds) :
    Spells Anything ("(" ++ text ++ ")") (.symbol .lparen :: (kinds ++ [.symbol .rparen])) := by
  have hopen := spells_lparen.append_any h
  exact hopen.append_starts spells_rparen (by decide)

theorem spells_reference {env : String → Variable} (henv : KeepsNames env) {name : String}
    (hname : Lexeme.IsName name) (usage : Nat) (loc : Location) :
    Spells Stops (Reference.text ⟨env name, usage, loc⟩)
      (List.replicate usage (.symbol .caret) ++ [.ident name]) := by
  have h := (spells_carets usage).append_any (spells_name hname)
  exact h.of_eq (by rw [Reference.text, Reference.name, henv name]) rfl

theorem spells_call {callee : String} {args : List String} {kinds : List Kind}
    (hcallee : Lexeme.IsName callee) (hargs : Spells Stops (Text.joined ", " args) kinds) :
    Spells Anything (callText callee args)
      (.ident callee :: .symbol .lparen :: (kinds ++ [.symbol .rparen])) := by
  have hparens := spells_parens hargs
  rw [String.append_assoc] at hparens
  refine ((spells_name hcallee).append_starts hparens ?_).of_eq ?_ rfl
  · have hparen : StandsApart "(" := by decide
    exact hparen.append _
  · simp [callText, String.append_assoc]

theorem spells_binary {left right : Value} {kinds kinds' : List Kind} (op : Operator)
    (loc : Location) (hleft : Spells Stops left.text kinds)
    (hright : Spells Stops right.text kinds') :
    Spells Stops (Value.binary op left right loc).text
      (kinds ++ (.symbol op.symbol :: kinds')) := by
  have hop := (spells_operator op).append spells_space (fun rest _ => rfl)
  have hspaced := spells_space.append_any (hop.append_any hright)
  have hapart : StandsApart " " := by decide
  have hall := hleft.append_starts hspaced (hapart.append _)
  refine hall.of_eq ?_ rfl
  simp [Value.text, String.append_assoc]

theorem map_kind_carets (spans : List Span) :
    (spans.map (Grammar.symbolAt .caret)).map Token.kind =
      List.replicate spans.length (.symbol .caret) := by
  rw [List.map_map, List.eq_replicate_iff]
  simp

namespace Grammar

mutual

theorem Factor.spells {env : String → Variable} (henv : KeepsNames env) :
    (t : Factor) → Token.AllLexical t.tokens →
    Spells Stops (t.image env).text (t.normal.tokens.map Token.kind)
  | .int value _, h => spells_decimal (h _ List.mem_cons_self)
  | .char value _, _ => by
    refine spells_decimal ?_
    have hvalid : value.toNat < 0xd800 ∨ 0xdfff < value.toNat ∧ value.toNat < 0x110000 :=
      value.valid
    have hmax : Lexeme.maxInt = 2147483647 := rfl
    omega
  | .bool value _, _ => by
    cases value with
    | true => exact spells_decimal (by decide)
    | false => exact spells_decimal (by decide)
  | .string value _, _ => (spells_string value).weaken
  | .paren opening inner closing, h => by
    have hinner := inner.spells henv (allLexical_append.1 (allLexical_cons.1 h).2).1
    refine (spells_parens hinner).weaken.of_eq ?_ ?_
    · rw [Factor.image, Shc.Factor.text, Expr.text_plainExpr]
    · simp [Factor.normal, Factor.tokens]
  | .var name _, h => spells_reference henv (h _ List.mem_cons_self) 0 _
  | .call callee span opening args closing, h => by
    obtain ⟨hcallee, h⟩ := allLexical_cons.1 h
    have hargs := args.spells henv (allLexical_append.1 (allLexical_cons.1 h).2).1
    refine (spells_call hcallee hargs).weaken.of_eq rfl ?_
    simp [Factor.normal, Factor.tokens]

theorem Unary.spells {env : String → Variable} (henv : KeepsNames env) :
    (t : Unary) → Token.AllLexical t.tokens →
    Spells Stops (t.image env).text (t.normal.tokens.map Token.kind)
  | .signed sign _ operand, h =>
    (spells_sign sign).append_any (operand.spells henv (allLexical_cons.1 h).2)
  | .marked first more name _, h => by
    have hname := (allLexical_append.1 (allLexical_cons.1 h).2).2 _ List.mem_cons_self
    refine (spells_reference henv hname (more.length + 1) _).of_eq rfl ?_
    rw [Unary.normal, Unary.tokens, List.map_cons, List.map_append, map_kind_carets]
    rfl
  | .factor factor, h => factor.spells henv h

theorem Chain.spells {env : String → Variable} (henv : KeepsNames env) {layers : List Layer} :
    (t : Chain layers) → Token.AllLexical t.tokens →
    Spells Stops (t.image env).text (t.normal.tokens.map Token.kind)
  | .unary operand, h => operand.spells henv h
  | .layer first rest, h => by
    obtain ⟨hfirst, hrest⟩ := allLexical_append.1 h
    have hleaf : Spells Stops (Value.leaf (first.image env) first.start).text _ :=
      first.spells henv hfirst
    refine (rest.spells henv hrest first.start hleaf).of_eq rfl ?_
    rw [Chain.normal, Chain.tokens, List.map_append]

theorem Links.spells {env : String → Variable} (henv : KeepsNames env) {layer : Layer}
    {below : List Layer} : (t : Links layer below) → Token.AllLexical t.tokens →
    (start : Location) → {left : Value} → {kinds : List Kind} → Spells Stops left.text kinds →
    Spells Stops (t.image env start left).text (kinds ++ t.normal.tokens.map Token.kind)
  | .nil, _, _, _, _, hleft => hleft.of_eq rfl (List.append_nil _).symm
  | .cons op _ _ operand rest, h, start, _, _, hleft => by
    obtain ⟨hoperand, hrest⟩ := allLexical_append.1 (allLexical_cons.1 h).2
    have hbinary := spells_binary op start hleft (operand.spells henv hoperand)
    refine (rest.spells henv hrest start hbinary).of_eq rfl ?_
    simp [Links.normal, Links.tokens]

theorem Args.spells {env : String → Variable} (henv : KeepsNames env) :
    (t : Args) → Token.AllLexical t.tokens →
    Spells Stops (Text.joined ", " (Shc.Expr.texts (t.image env)))
      (t.normal.tokens.map Token.kind)
  | .none, _ => Adds.nil
  | .some first rest, h => by
    obtain ⟨hfirst, hrest⟩ := allLexical_append.1 h
    refine ((first.spells henv hfirst).append_trails (rest.trails henv hrest)).of_eq ?_ ?_
    · rw [Args.image, Shc.Expr.texts, Text.joined_cons, Expr.text_plainExpr]
    · rw [Args.normal, Args.tokens, List.map_append]

theorem MoreArgs.trails {env : String → Variable} (henv : KeepsNames env) :
    (t : MoreArgs) → Token.AllLexical t.tokens →
    Trails (Text.concat ((Shc.Expr.texts (t.image env)).map (", " ++ ·)))
      (t.normal.tokens.map Token.kind)
  | .nil, _ => trails_nil
  | .cons _ arg rest, h => by
    obtain ⟨harg, hrest⟩ := allLexical_append.1 (allLexical_cons.1 h).2
    have hmore := Trails.cons (arg.spells henv harg) (rest.trails henv hrest)
    rw [MoreArgs.image, Shc.Expr.texts, List.map_cons, Text.concat, Expr.text_plainExpr,
      MoreArgs.normal, MoreArgs.tokens, List.map_cons, List.map_append]
    exact hmore

end

end Grammar

/-! ### Statements -/

namespace Grammar

theorem TypeName.spells (t : TypeName) :
    Spells Stops t.image.text (t.tokens.map Token.kind) := by
  have h := (spells_carets t.markers.length).append_any (spells_keyword t.base.keyword)
  refine h.of_eq ?_ ?_
  · cases hbase : t.base <;> simp [image, Ty.text, hbase, Base.keyword, Base.text, Keyword.text]
  · rw [tokens, List.map_append, map_kind_carets]
    rfl

end Grammar

theorem spells_variable {name : String} {type : Ty} {kinds : List Kind} (loc : Location)
    (hname : Lexeme.IsName name) (htype : Spells Stops type.text kinds) :
    Spells Stops (Variable.text ⟨name, type, loc⟩) (.ident name :: .symbol .colon :: kinds) := by
  have hcolon := (spells_name hname).append_starts spells_colonSpaced (by decide)
  exact hcolon.append_any htype

/-- The lines of the statements are read as tokens of these kinds. -/
def Prints (level : Nat) (statements : List Statement) (kinds : List Kind) : Prop :=
  ReadsLines ((Statement.allLines level statements).map Line.chars) kinds

theorem readsLine {text : String} {kinds : List Kind} (level : Nat) (h : Spells Stops text kinds) :
    ReadsLines [Line.chars ⟨level, text⟩] kinds := by
  have hline : Reads (Line.chars ⟨level, text⟩) kinds := Line.reads_chars (h.whole headIn_nil .nil)
  have hlines := ReadsLines.cons hline .nil
  rwa [List.append_nil] at hlines

theorem Statement.allLines_append (level : Nat) (ss ss' : List Statement) :
    Statement.allLines level (ss ++ ss') =
      Statement.allLines level ss ++ Statement.allLines level ss' := by
  induction ss with
  | nil => rfl
  | cons s ss ih => rw [List.cons_append, allLines, allLines, ih, List.append_assoc]

namespace Prints

variable {level : Nat} {ss ss' : List Statement} {kinds kinds' : List Kind}

theorem nil : Prints level [] [] :=
  ReadsLines.nil

theorem append (h : Prints level ss kinds) (h' : Prints level ss' kinds') :
    Prints level (ss ++ ss') (kinds ++ kinds') := by
  rw [Prints, Statement.allLines_append, List.map_append]
  exact ReadsLines.append h h'

theorem of_eq (h : Prints level ss kinds) (hkinds : kinds = kinds') : Prints level ss kinds' :=
  hkinds ▸ h

theorem ne_nil (h : Prints level ss kinds) (hkinds : kinds ≠ []) : ss ≠ [] := by
  rintro rfl
  cases h
  exact hkinds rfl

theorem of_lines {s : Statement} (h : ReadsLines ((s.lines level).map Line.chars) kinds) :
    Prints level [s] kinds := by
  rw [Prints, Statement.allLines, Statement.allLines, List.append_nil]
  exact h

/-- A statement of one line, which a semicolon ends. -/
theorem of_line {s : Statement} {text : String} (hline : s.lines level = [⟨level, text ++ ";"⟩])
    (h : Spells Stops text kinds) : Prints level [s] (kinds ++ [.symbol .semicolon]) := by
  refine of_lines ?_
  rw [hline]
  exact readsLine level (h.append_starts spells_semicolon (by decide)).weaken

/-- A line that opens a brace, and the statements behind it. -/
theorem opened {head : String} {kinds' : List Kind} (hhead : Spells Stops head kinds')
    (h : Prints (level + 1) ss kinds) :
    ReadsLines
      ((Line.mk level (head ++ " \x7b") :: Statement.allLines (level + 1) ss).map Line.chars)
      (kinds' ++ .symbol .lbrace :: kinds) := by
  have hopen := readsLine level (hhead.append_starts spells_spaceBrace (by decide)).weaken
  refine (congrArg (ReadsLines _) ?_).mp (hopen.append h)
  rw [List.append_assoc, List.singleton_append]

theorem closed (level : Nat) :
    ReadsLines ([Line.mk level "\x7d"].map Line.chars) [.symbol .rbrace] :=
  readsLine level spells_rbrace.weaken

section

variable {condition : Factor} {yes no : List Statement} {yesKinds noKinds : List Kind}
  (loc : Location)

theorem head (word : Keyword) (hcondition : Spells Stops condition.conditionText kinds) :
    Spells Stops (word.text ++ " " ++ condition.conditionText) (.keyword word :: kinds) :=
  (spells_wordSpace word).append_any hcondition

theorem loop (hcondition : Spells Stops condition.conditionText kinds)
    (hbody : Prints (level + 1) ss kinds') :
    Prints level [.loop condition ss loc]
      (.keyword .whileKw :: (kinds ++ .symbol .lbrace :: (kinds' ++ [.symbol .rbrace]))) := by
  refine of_lines ?_
  have hhead : Spells Stops ("while " ++ condition.conditionText) (.keyword .whileKw :: kinds) :=
    head .whileKw hcondition
  have hall := (opened hhead hbody).append (closed level)
  rw [Statement.lines, List.map_append]
  simpa using hall

theorem branch (hcondition : Spells Stops condition.conditionText kinds)
    (hyes : Prints (level + 1) yes yesKinds) :
    Prints level [.branch condition yes [] loc]
      (.keyword .ifKw :: (kinds ++ .symbol .lbrace :: (yesKinds ++ [.symbol .rbrace]))) := by
  refine of_lines ?_
  have hhead : Spells Stops ("if " ++ condition.conditionText) (.keyword .ifKw :: kinds) :=
    head .ifKw hcondition
  have hall := (opened hhead hyes).append (closed level)
  rw [Statement.lines, List.map_append, List.append_nil]
  simpa using hall

theorem branchElse (hcondition : Spells Stops condition.conditionText kinds)
    (hyes : Prints (level + 1) yes yesKinds) (hno : Prints (level + 1) no noKinds)
    (hne : no ≠ []) :
    Prints level [.branch condition yes no loc]
      (.keyword .ifKw :: (kinds ++ .symbol .lbrace :: (yesKinds ++ .symbol .rbrace ::
        .keyword .elseKw :: .symbol .lbrace :: (noKinds ++ [.symbol .rbrace])))) := by
  refine of_lines ?_
  obtain ⟨first, rest, rfl⟩ := List.exists_cons_of_ne_nil hne
  have helse : Spells Stops "\x7d else" [.symbol .rbrace, .keyword .elseKw] :=
    spells_rbrace.append_any (spells_space.append_any (spells_keyword .elseKw))
  have hhead : Spells Stops ("if " ++ condition.conditionText) (.keyword .ifKw :: kinds) :=
    head .ifKw hcondition
  have hall := ((opened hhead hyes).append (opened helse hno)).append (closed level)
  rw [Statement.lines, List.map_append, List.map_append]
  simpa using hall

end

end Prints

namespace Grammar

theorem Condition.spells {env : String → Variable} (henv : KeepsNames env) (c : Condition)
    (h : Token.AllLexical c.tokens) :
    Spells Stops (c.image env).conditionText (c.normal.tokens.map Token.kind) := by
  have hinner := c.inner.spells henv (allLexical_append.1 (allLexical_cons.1 h).2).1
  refine (spells_parens hinner).weaken.of_eq ?_ ?_
  · rw [image, Chain.expr, Factor.conditionText, Factor.text, Expr.text_plainExpr]
  · simp [normal, tokens]

theorem Declaration.spells (d : Declaration) (h : Token.AllLexical d.tokens) :
    Spells Stops d.image.text (.ident d.name :: .symbol .colon :: d.type.tokens.map Token.kind) :=
  spells_variable _ (allLexical_cons.1 h).1 d.type.spells

theorem Statement.tokens_ne_nil (t : Statement) : t.tokens ≠ [] := by
  cases t with
  | declare d => simp [tokens, Declaration.tokens]
  | block | branch | branchElse | loop | brk | cont | ret | call | assign | empty =>
    simp [tokens]

mutual

theorem Statement.prints {env : String → Variable} (henv : KeepsNames env) :
    (t : Statement) → Token.AllLexical t.tokens → {level : Nat} → {later : Statements} →
    {ss : List Shc.Statement} → Prints level ss (later.tokens.map Token.kind) →
    Prints level (t.image env ++ ss) ((t.normalOnto later).tokens.map Token.kind)
  | .block _ inner _, h, _, _, _, hlater =>
    inner.prints henv (allLexical_append.1 (allLexical_cons.1 h).2).1 hlater
  | .branch word condition yes, h, level, _, _, hlater => by
    obtain ⟨hcondition, hyes⟩ := allLexical_append.1 (allLexical_cons.1 h).2
    have hthen : Prints (level + 1) (yes.image env ++ [])
        ((yes.normalOnto .nil).tokens.map Token.kind) := yes.prints henv hyes Prints.nil
    rw [List.append_nil] at hthen
    have hbranch := Prints.branch word.start (condition.spells henv hcondition) hthen
    refine (hbranch.append hlater).of_eq ?_
    simp [Statement.normalOnto, Statements.tokens, Statement.tokens, Statements.braced,
      Body.tokens]
  | .branchElse word condition yes elseWord no, h, level, _, _, hlater => by
    obtain ⟨hcondition, h⟩ := allLexical_append.1 (allLexical_cons.1 h).2
    obtain ⟨hyes, h⟩ := allLexical_append.1 h
    have hthen : Prints (level + 1) (yes.image env ++ [])
        ((yes.normalOnto .nil).tokens.map Token.kind) := yes.prints henv hyes Prints.nil
    have helse : Prints (level + 1) (no.image env ++ [])
        ((no.normalOnto .nil).tokens.map Token.kind) :=
      no.prints henv (allLexical_cons.1 h).2 Prints.nil
    have himage := no.image_normalOnto env .nil
    rw [Statements.image, List.append_nil] at himage
    rw [List.append_nil] at hthen helse
    rw [Statement.image]
    -- the text has an `else` just where the normal statements are some
    cases hnormal : no.normalOnto .nil with
    | nil =>
      rw [hnormal, Statements.image] at himage
      rw [← himage]
      have hbranch := Prints.branch word.start (condition.spells henv hcondition) hthen
      refine (hbranch.append hlater).of_eq ?_
      simp [Statement.normalOnto, hnormal, Statement.branchTo, Statements.tokens,
        Statement.tokens, Statements.braced, Body.tokens]
    | cons first rest =>
      have hne : no.image env ≠ [] := by
        intro hempty
        rw [hempty, hnormal] at helse
        exact helse.ne_nil (by simp [Statements.tokens, first.tokens_ne_nil]) rfl
      have hbranch := Prints.branchElse word.start (condition.spells henv hcondition) hthen
        helse hne
      refine (hbranch.append hlater).of_eq ?_
      simp [Statement.normalOnto, hnormal, Statement.branchTo, Statements.tokens,
        Statement.tokens, Statements.braced, Body.tokens]
  | .loop word condition body, h, level, _, _, hlater => by
    obtain ⟨hcondition, hbody⟩ := allLexical_append.1 (allLexical_cons.1 h).2
    have hinner : Prints (level + 1) (body.image env ++ [])
        ((body.normalOnto .nil).tokens.map Token.kind) := body.prints henv hbody Prints.nil
    rw [List.append_nil] at hinner
    have hloop := Prints.loop word.start (condition.spells henv hcondition) hinner
    refine (hloop.append hlater).of_eq ?_
    simp [Statement.normalOnto, Statements.tokens, Statement.tokens, Statements.braced,
      Body.tokens]
  | .brk .., _, _, _, _, hlater => (Prints.of_line rfl (spells_keyword .breakKw)).append hlater
  | .cont .., _, _, _, _, hlater => (Prints.of_line rfl (spells_keyword .continueKw)).append hlater
  | .ret _ none _, _, _, _, _, hlater =>
    (Prints.of_line rfl (spells_keyword .returnKw)).append hlater
  | .ret _ (some value) _, h, _, _, _, hlater => by
    have hvalue := value.spells henv (allLexical_append.1 (allLexical_cons.1 h).2).1
    have hreturn := (spells_wordSpace .returnKw).append_any hvalue
    refine ((Prints.of_line ?_ hreturn).append hlater).of_eq ?_
    · simp [Statement.lines, Chain.expr, Expr.text_plainExpr, Keyword.text]
    · simp [Statement.normalOnto, Statements.tokens, Statement.tokens]
  | .declare declaration, h, _, _, _, hlater => by
    refine ((Prints.of_line rfl (declaration.spells h)).append hlater).of_eq ?_
    simp [Statement.normalOnto, Statements.tokens, Statement.tokens, Declaration.normal,
      Declaration.tokens, Declaration.tailTokens, Declaration.initTokens]
  | .call callee span opening args closing semicolon, h, _, _, _, hlater => by
    obtain ⟨hcallee, h⟩ := allLexical_cons.1 h
    have hargs := args.spells henv (allLexical_append.1 (allLexical_cons.1 h).2).1
    refine ((Prints.of_line rfl (spells_call hcallee hargs).weaken).append hlater).of_eq ?_
    simp [Statement.normalOnto, Statements.tokens, Statement.tokens]
  | .assign markers name span _ value _, h, _, _, _, hlater => by
    obtain ⟨hname, h⟩ := allLexical_cons.1 (allLexical_append.1 h).2
    have hvalue := value.spells henv (allLexical_append.1 (allLexical_cons.1 h).2).1
    have htarget :=
      (spells_reference henv hname markers.length ((markers.head?.getD span).start)).append_starts
        spells_eqSpaced (by decide)
    refine ((Prints.of_line rfl (htarget.append_any hvalue)).append hlater).of_eq ?_
    simp [Statement.normalOnto, Statements.tokens, Statement.tokens, ← map_kind_carets]
  | .empty _, _, _, _, _, hlater => hlater

theorem Body.prints {env : String → Variable} (henv : KeepsNames env) :
    (t : Body) → Token.AllLexical t.tokens → {level : Nat} → {later : Statements} →
    {ss : List Shc.Statement} → Prints level ss (later.tokens.map Token.kind) →
    Prints level (t.image env ++ ss) ((t.normalOnto later).tokens.map Token.kind)
  | .block _ inner _, h, _, _, _, hlater =>
    inner.prints henv (allLexical_append.1 (allLexical_cons.1 h).2).1 hlater
  | .single statement, h, _, _, _, hlater => statement.prints henv h hlater

theorem Statements.prints {env : String → Variable} (henv : KeepsNames env) :
    (t : Statements) → Token.AllLexical t.tokens → {level : Nat} → {later : Statements} →
    {ss : List Shc.Statement} → Prints level ss (later.tokens.map Token.kind) →
    Prints level (t.image env ++ ss) ((t.normalOnto later).tokens.map Token.kind)
  | .nil, _, _, _, _, hlater => hlater
  | .cons first rest, h, _, _, _, hlater => by
    obtain ⟨hfirst, hrest⟩ := allLexical_append.1 h
    rw [Statements.image, List.append_assoc]
    exact first.prints henv hfirst (rest.prints henv hrest hlater)

end

end Grammar

end Shc
