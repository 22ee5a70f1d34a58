import Shc.Proofs.Mention
import Shc.Syntax.Program

/-!
# The grammar of the source language

Derivations of the grammar as trees, one type for each nonterminal and one
constructor for each alternative:

    program     ::= (function | declaration)*
    function    ::= "fun" name "(" params? ")" ":" type "{" statement* "}"
    params      ::= param ("," param)*
    param       ::= name ":" type
    declaration ::= name ":" type ("=" expression)? ";"
    type        ::= "^"* ("int" | "char" | "void")

    statement   ::= "{" statement* "}"
                  | "if" "(" expression ")" body ("else" body)?
                  | "while" "(" expression ")" body
                  | "break" ";" | "continue" ";" | "return" expression? ";"
                  | declaration | name "(" args? ")" ";"
                  | "^"* name "=" expression ";" | ";"
    body        ::= "{" statement* "}" | statement

    expression  ::= the layers from "||" down to "*", each a row of operands
                    of the next tighter layer with operators between them
    unary       ::= ("+" | "-") unary | "^"+ name | factor
    factor      ::= int | char | bool | string | "(" expression ")"
                  | name | name "(" args? ")"
    args        ::= expression ("," expression)*

A derivation has all its tokens at its leaves, with the places where they stand.
What else a source has to satisfy is said of derivations: which variables are used
before they are declared, how many constructs are open at once, and which `if` an
`else` belongs to.  The `image` of a derivation is the program that it stands for.
-/

namespace Shc

/-! ### Spelling operators, signs and base types -/

def Operator.symbol : Operator → Symbol
  | or => .orOr
  | and => .andAnd
  | eq => .eqEq
  | ne => .notEq
  | lt => .lt
  | le => .le
  | gt => .gt
  | ge => .ge
  | add => .plus
  | sub => .minus
  | mul => .star
  | div => .slash
  | mod => .percent

def Sign.symbol : Sign → Symbol
  | plus => .plus
  | minus => .minus

def Base.keyword : Base → Keyword
  | void => .voidKw
  | char => .charKw
  | int => .intKw

namespace Grammar

abbrev symbolAt (s : Symbol) (span : Span) : Token :=
  ⟨.symbol s, span⟩

abbrev wordAt (word : Keyword) (span : Span) : Token :=
  ⟨.keyword word, span⟩

abbrev nameAt (name : String) (span : Span) : Token :=
  ⟨.ident name, span⟩

/-! ### Expressions -/

/-- The layers of an expression, from the loosest to the tightest. -/
def allLayers : List Layer :=
  [.disjunction, .conjunction, .equality, .relation, .sum, .product]

/-- The operators of a layer. -/
def operators : Layer → List Operator
  | .disjunction => [.or]
  | .conjunction => [.and]
  | .equality => [.eq, .ne]
  | .relation => [.lt, .le, .gt, .ge]
  | .sum => [.add, .sub]
  | .product => [.mul, .div, .mod]

mutual

inductive Factor where
  | int (value : Nat) (span : Span)
  | char (value : Char) (span : Span)
  | bool (value : Bool) (span : Span)
  | string (value : String) (span : Span)
  | paren (opening : Span) (inner : Chain allLayers) (closing : Span)
  | var (name : String) (span : Span)
  | call (callee : String) (span opening : Span) (args : Args) (closing : Span)

inductive Unary where
  | signed (sign : Sign) (span : Span) (operand : Unary)
  | marked (first : Span) (more : List Span) (name : String) (span : Span)
  | factor (factor : Factor)

/-- The layers in the list, the loosest first; without a layer this is `unary`. -/
inductive Chain : List Layer → Type where
  | unary (operand : Unary) : Chain []
  | layer {layer : Layer} {below : List Layer} (first : Chain below) (rest : Links layer below) :
      Chain (layer :: below)

/-- The operators of one layer and the operands behind them. -/
inductive Links : Layer → List Layer → Type where
  | nil {layer : Layer} {below : List Layer} : Links layer below
  | cons {layer : Layer} {below : List Layer} (op : Operator) (belongs : op ∈ operators layer)
      (span : Span) (operand : Chain below) (rest : Links layer below) : Links layer below

/-- `args?` -/
inductive Args where
  | none
  | some (first : Chain allLayers) (rest : MoreArgs)

/-- The arguments behind the first one. -/
inductive MoreArgs where
  | nil
  | cons (comma : Span) (arg : Chain allLayers) (rest : MoreArgs)

end

abbrev Expr := Chain allLayers

/-! Tokens -/

mutual

def Factor.tokens : Factor → List Token
  | .int value span => [⟨.int value, span⟩]
  | .char value span => [⟨.char value, span⟩]
  | .bool value span => [⟨.bool value, span⟩]
  | .string value span => [⟨.string value, span⟩]
  | .paren opening inner closing =>
    symbolAt .lparen opening :: (inner.tokens ++ [symbolAt .rparen closing])
  | .var name span => [nameAt name span]
  | .call callee span opening args closing =>
    nameAt callee span :: symbolAt .lparen opening :: (args.tokens ++ [symbolAt .rparen closing])

def Unary.tokens : Unary → List Token
  | .signed sign span operand => symbolAt sign.symbol span :: operand.tokens
  | .marked first more name span =>
    symbolAt .caret first :: (more.map (symbolAt .caret) ++ [nameAt name span])
  | .factor factor => factor.tokens

def Chain.tokens {layers : List Layer} : Chain layers → List Token
  | .unary operand => operand.tokens
  | .layer first rest => first.tokens ++ rest.tokens

def Links.tokens {layer : Layer} {below : List Layer} : Links layer below → List Token
  | .nil => []
  | .cons op _ span operand rest => symbolAt op.symbol span :: (operand.tokens ++ rest.tokens)

def Args.tokens : Args → List Token
  | .none => []
  | .some first rest => first.tokens ++ rest.tokens

def MoreArgs.tokens : MoreArgs → List Token
  | .nil => []
  | .cons comma arg rest => symbolAt .comma comma :: (arg.tokens ++ rest.tokens)

end

/-! The names of the variables that occur -/

mutual

def Factor.uses : Factor → List String
  | .paren _ inner _ => inner.uses
  | .var name _ => [name]
  | .call _ _ _ args _ => args.uses
  | _ => []

def Unary.uses : Unary → List String
  | .signed _ _ operand => operand.uses
  | .marked _ _ name _ => [name]
  | .factor factor => factor.uses

def Chain.uses {layers : List Layer} : Chain layers → List String
  | .unary operand => operand.uses
  | .layer first rest => first.uses ++ rest.uses

def Links.uses {layer : Layer} {below : List Layer} : Links layer below → List String
  | .nil => []
  | .cons _ _ _ operand rest => operand.uses ++ rest.uses

def Args.uses : Args → List String
  | .none => []
  | .some first rest => first.uses ++ rest.uses

def MoreArgs.uses : MoreArgs → List String
  | .nil => []
  | .cons _ arg rest => arg.uses ++ rest.uses

end

/-! How many constructs are open at once -/

mutual

def Factor.depth : Factor → Nat
  | .paren _ inner _ => inner.depth + 1
  | .call _ _ _ args _ => args.depth + 1
  | _ => 0

def Unary.depth : Unary → Nat
  | .signed _ _ operand => operand.depth + 1
  | .marked .. => 0
  | .factor factor => factor.depth

def Chain.depth {layers : List Layer} : Chain layers → Nat
  | .unary operand => operand.depth
  | .layer first rest => max first.depth rest.depth

def Links.depth {layer : Layer} {below : List Layer} : Links layer below → Nat
  | .nil => 0
  | .cons _ _ _ operand rest => max operand.depth rest.depth

def Args.depth : Args → Nat
  | .none => 0
  | .some first rest => max first.depth rest.depth

def MoreArgs.depth : MoreArgs → Nat
  | .nil => 0
  | .cons _ arg rest => max arg.depth rest.depth

end

/-! Where a derivation starts -/

def Factor.start : Factor → Location
  | .int _ span | .char _ span | .bool _ span | .string _ span | .paren span _ _ | .var _ span
  | .call _ span _ _ _ => span.start

def Unary.start : Unary → Location
  | .signed _ span _ | .marked span _ _ _ => span.start
  | .factor f => f.start

def Chain.start {layers : List Layer} : Chain layers → Location
  | .unary operand => operand.start
  | .layer first _ => first.start

/-! What a derivation stands for -/

/-- The expression that is one value, which starts at `loc`. -/
def plainExpr (value : Value) (loc : Location) : Shc.Expr :=
  ⟨[⟨none, value, loc⟩], loc⟩

/-- The callee of a call: a function of which only the name and the place are known. -/
def namedOnly (name : String) (loc : Location) : Shc.Function :=
  ⟨name, ⟨.void, 0⟩, [], [], [], loc⟩

section

variable (env : String → Variable)

mutual

/-- The factor that a derivation stands for, where `env` gives the variables. -/
def Factor.image : Factor → Shc.Factor
  | .int value span => .const value span.start
  | .char value span => .const value.toNat span.start
  | .bool value span => .const (if value then 1 else 0) span.start
  | .string value span => .string value span.start
  | .paren opening inner _ => .paren (plainExpr inner.image inner.start) opening.start
  | .var name span => .var ⟨env name, 0, span.start⟩
  | .call callee span _ args _ => .call (namedOnly callee span.start) args.image span.start

def Unary.image : Unary → Shc.Unary
  | .signed sign span operand => .signed sign operand.image span.start
  | .marked first more name _ => .factor (.var ⟨env name, more.length + 1, first.start⟩)
  | .factor factor => .factor factor.image

/-- The value that a derivation stands for; a layer groups to the left. -/
def Chain.image {layers : List Layer} : Chain layers → Value
  | .unary operand => .unary operand.image
  | .layer first rest => rest.image first.start (.leaf first.image first.start)

/-- The value of a layer that starts at `start`, whose operands so far make `left`. -/
def Links.image {layer : Layer} {below : List Layer} :
    Links layer below → (start : Location) → (left : Value) → Value
  | .nil, _, left => left
  | .cons op _ _ operand rest, start, left =>
    rest.image start (.binary op left operand.image start)

def Args.image : Args → List Shc.Expr
  | .none => []
  | .some first rest => plainExpr first.image first.start :: rest.image

def MoreArgs.image : MoreArgs → List Shc.Expr
  | .nil => []
  | .cons _ arg rest => plainExpr arg.image arg.start :: rest.image

end

/-- The expression that a derivation stands for. -/
def Chain.expr (e : Expr) : Shc.Expr :=
  plainExpr (e.image env) e.start

end

/-! The first token -/

theorem Factor.exists_first (t : Factor) :
    ∃ first rest, t.tokens = first :: rest ∧ first.loc = t.start := by
  cases t <;> exact ⟨_, _, rfl, rfl⟩

theorem Unary.exists_first (t : Unary) :
    ∃ first rest, t.tokens = first :: rest ∧ first.loc = t.start := by
  cases t with
  | factor factor => exact factor.exists_first
  | _ => exact ⟨_, _, rfl, rfl⟩

theorem Chain.exists_first {layers : List Layer} : (t : Chain layers) →
    ∃ first rest, t.tokens = first :: rest ∧ first.loc = t.start
  | .unary operand => operand.exists_first
  | .layer operand links => by
    obtain ⟨first, rest, htokens, hloc⟩ := operand.exists_first
    exact ⟨first, rest ++ links.tokens, by rw [Chain.tokens, htokens, List.cons_append], hloc⟩

section

variable {env : String → Variable}

theorem Factor.loc_image (t : Factor) : (t.image env).loc = t.start := by
  cases t <;> rfl

theorem Unary.loc_image (t : Unary) : (t.image env).loc = t.start := by
  cases t with
  | factor factor => exact factor.loc_image
  | _ => rfl

theorem Links.loc_image {layer : Layer} {below : List Layer} : (t : Links layer below) →
    {start : Location} → {left : Value} → left.loc = start → (t.image env start left).loc = start
  | .nil, _, _, h => h
  | .cons _ _ _ _ rest, _, _, _ => rest.loc_image rfl

theorem Chain.loc_image {layers : List Layer} : (t : Chain layers) →
    (t.image env).loc = t.start
  | .unary operand => operand.loc_image
  | .layer _ rest => rest.loc_image rfl

theorem Chain.single_image (t : Expr) : .single (t.image env) = t.expr env := by
  rw [Shc.Expr.single, t.loc_image]
  rfl

end

theorem mem_operators {op : Operator} {layer : Layer} :
    op ∈ operators layer ↔ op.layer = layer := by
  cases op <;> cases layer <;> decide

/-! ### Declarations -/

structure TypeName where
  markers : List Span
  base : Base
  span : Span

namespace TypeName

def tokens (t : TypeName) : List Token :=
  t.markers.map (symbolAt .caret) ++ [wordAt t.base.keyword t.span]

def image (t : TypeName) : Ty :=
  ⟨t.base, t.markers.length⟩

end TypeName

structure Param where
  name : String
  span : Span
  colon : Span
  type : TypeName

namespace Param

def tokens (p : Param) : List Token :=
  nameAt p.name p.span :: symbolAt .colon p.colon :: p.type.tokens

def image (p : Param) : Variable :=
  ⟨p.name, p.type.image, p.span.start⟩

end Param

/-- `params?` -/
inductive Params where
  | none
  | some (first : Param) (rest : List (Span × Param))

namespace Params

/-- The tokens behind the first parameter. -/
def moreTokens : List (Span × Param) → List Token
  | [] => []
  | (comma, param) :: rest => symbolAt .comma comma :: (param.tokens ++ moreTokens rest)

def tokens : Params → List Token
  | none => []
  | some first rest => first.tokens ++ moreTokens rest

def image : Params → List Variable
  | none => []
  | some first rest => first.image :: rest.map fun param => param.2.image

end Params

/-- `declaration`; the initial value comes with the place of its `=`. -/
structure Declaration where
  name : String
  span : Span
  colon : Span
  type : TypeName
  init : Option (Span × Expr)
  semicolon : Span

namespace Declaration

def initTokens : Option (Span × Expr) → List Token
  | none => []
  | some (eq, value) => symbolAt .eq eq :: value.tokens

def tailTokens (d : Declaration) : List Token :=
  symbolAt .colon d.colon ::
    (d.type.tokens ++ (initTokens d.init ++ [symbolAt .semicolon d.semicolon]))

def tokens (d : Declaration) : List Token :=
  nameAt d.name d.span :: d.tailTokens

def uses (d : Declaration) : List String :=
  d.init.elim [] fun init => init.2.uses

def depth (d : Declaration) : Nat :=
  d.init.elim 0 fun init => init.2.depth

def image (d : Declaration) : Variable :=
  ⟨d.name, d.type.image, d.span.start⟩

end Declaration

/-! ### Statements -/

/-- `"(" expression ")"` behind `if` and `while` -/
structure Condition where
  opening : Span
  inner : Expr
  closing : Span

namespace Condition

def tokens (c : Condition) : List Token :=
  symbolAt .lparen c.opening :: (c.inner.tokens ++ [symbolAt .rparen c.closing])

def image (env : String → Variable) (c : Condition) : Shc.Factor :=
  .paren (c.inner.expr env) c.opening.start

end Condition

mutual

inductive Statement where
  | block (opening : Span) (inner : Statements) (closing : Span)
  | branch (word : Span) (condition : Condition) (yes : Body)
  | branchElse (word : Span) (condition : Condition) (yes : Body) (elseWord : Span) (no : Body)
  | loop (word : Span) (condition : Condition) (body : Body)
  | brk (word semicolon : Span)
  | cont (word semicolon : Span)
  | ret (word : Span) (value : Option Expr) (semicolon : Span)
  | declare (declaration : Declaration)
  | call (callee : String) (span opening : Span) (args : Args) (closing semicolon : Span)
  | assign (markers : List Span) (name : String) (span eq : Span) (value : Expr) (semicolon : Span)
  | empty (semicolon : Span)

inductive Body where
  | block (opening : Span) (inner : Statements) (closing : Span)
  | single (statement : Statement)

/-- `statement*` -/
inductive Statements where
  | nil
  | cons (first : Statement) (rest : Statements)

end

mutual

def Statement.tokens : Statement → List Token
  | .block opening inner closing =>
    symbolAt .lbrace opening :: (inner.tokens ++ [symbolAt .rbrace closing])
  | .branch word condition yes => wordAt .ifKw word :: (condition.tokens ++ yes.tokens)
  | .branchElse word condition yes elseWord no =>
    wordAt .ifKw word ::
      (condition.tokens ++ (yes.tokens ++ wordAt .elseKw elseWord :: no.tokens))
  | .loop word condition body => wordAt .whileKw word :: (condition.tokens ++ body.tokens)
  | .brk word semicolon => [wordAt .breakKw word, symbolAt .semicolon semicolon]
  | .cont word semicolon => [wordAt .continueKw word, symbolAt .semicolon semicolon]
  | .ret word value semicolon =>
    wordAt .returnKw word :: (value.elim [] Chain.tokens ++ [symbolAt .semicolon semicolon])
  | .declare declaration => declaration.tokens
  | .call callee span opening args closing semicolon =>
    nameAt callee span :: symbolAt .lparen opening ::
      (args.tokens ++ [symbolAt .rparen closing, symbolAt .semicolon semicolon])
  | .assign markers name span eq value semicolon =>
    markers.map (symbolAt .caret) ++ nameAt name span :: symbolAt .eq eq ::
      (value.tokens ++ [symbolAt .semicolon semicolon])
  | .empty semicolon => [symbolAt .semicolon semicolon]

def Body.tokens : Body → List Token
  | .block opening inner closing =>
    symbolAt .lbrace opening :: (inner.tokens ++ [symbolAt .rbrace closing])
  | .single statement => statement.tokens

def Statements.tokens : Statements → List Token
  | .nil => []
  | .cons first rest => first.tokens ++ rest.tokens

end

/-! What a walk meets -/

mutual

/-- What a walk through a statement meets. -/
def Statement.mentions : Statement → List (Mention String)
  | .block _ inner _ => inner.mentions
  | .branch _ condition yes => condition.inner.uses.map .use ++ yes.mentions
  | .branchElse _ condition yes _ no =>
    condition.inner.uses.map .use ++ (yes.mentions ++ no.mentions)
  | .loop _ condition body => condition.inner.uses.map .use ++ body.mentions
  | .brk .. | .cont .. | .empty .. => []
  | .ret _ value _ => (value.elim [] Chain.uses).map .use
  | .declare declaration => declaration.uses.map .use ++ [.declare declaration.image]
  | .call _ _ _ args _ _ => args.uses.map .use
  | .assign _ name _ _ value _ => .use name :: value.uses.map .use

def Body.mentions : Body → List (Mention String)
  | .block _ inner _ => inner.mentions
  | .single statement => statement.mentions

def Statements.mentions : Statements → List (Mention String)
  | .nil => []
  | .cons first rest => first.mentions ++ rest.mentions

end

/-! How many constructs are open at once -/

mutual

def Statement.depth : Statement → Nat
  | .block _ inner _ => inner.depth + 1
  | .branch _ condition yes => max condition.inner.depth yes.depth + 1
  | .branchElse _ condition yes _ no => max condition.inner.depth (max yes.depth no.depth) + 1
  | .loop _ condition body => max condition.inner.depth body.depth + 1
  | .brk .. | .cont .. | .empty .. => 0
  | .ret _ value _ => value.elim 0 Chain.depth
  | .declare declaration => declaration.depth
  | .call _ _ _ args _ _ => args.depth + 1
  | .assign _ _ _ _ value _ => value.depth

/-- How many constructs are open at once in a body; its own braces do not count. -/
def Body.depth : Body → Nat
  | .block _ inner _ => inner.depth
  | .single statement => statement.depth

def Statements.depth : Statements → Nat
  | .nil => 0
  | .cons first rest => max first.depth rest.depth

end

/-! The `if` of an `else` -/

mutual

/-- Whether a statement ends in an `if` that has no `else` yet. -/
def Statement.endsOpen : Statement → Bool
  | .branch .. => true
  | .branchElse _ _ _ _ no => no.endsOpen
  | .loop _ _ body => body.endsOpen
  | _ => false

def Body.endsOpen : Body → Bool
  | .block .. => false
  | .single statement => statement.endsOpen

end

mutual

/-- Every `else` in a statement belongs to the nearest `if` that is still open. -/
def Statement.NearestElse : Statement → Prop
  | .block _ inner _ => inner.NearestElse
  | .branch _ _ yes => yes.NearestElse
  | .branchElse _ _ yes _ no => yes.endsOpen = false ∧ yes.NearestElse ∧ no.NearestElse
  | .loop _ _ body => body.NearestElse
  | _ => True

def Body.NearestElse : Body → Prop
  | .block _ inner _ => inner.NearestElse
  | .single statement => statement.NearestElse

def Statements.NearestElse : Statements → Prop
  | .nil => True
  | .cons first rest => first.NearestElse ∧ rest.NearestElse

end

/-! What a derivation stands for -/

section

variable (env : String → Variable)

mutual

/-- The statements that a derivation stands for: those of a block one by one, and
    none for the empty statement. -/
def Statement.image : Statement → List Shc.Statement
  | .block _ inner _ => inner.image
  | .branch word condition yes => [.branch (condition.image env) yes.image [] word.start]
  | .branchElse word condition yes _ no =>
    [.branch (condition.image env) yes.image no.image word.start]
  | .loop word condition body => [.loop (condition.image env) body.image word.start]
  | .brk word _ => [.brk word.start]
  | .cont word _ => [.cont word.start]
  | .ret word value _ => [.ret (value.map (Chain.expr env)) word.start]
  | .declare declaration => [.declare declaration.image declaration.span.start]
  | .call callee span _ args _ _ =>
    [.call (namedOnly callee span.start) (args.image env) span.start]
  | .assign markers name span _ value _ =>
    let start := (markers.head?.getD span).start
    [.assign ⟨some ⟨env name, markers.length, start⟩, value.image env, start⟩ start]
  | .empty _ => []

def Body.image : Body → List Shc.Statement
  | .block _ inner _ => inner.image
  | .single statement => statement.image

def Statements.image : Statements → List Shc.Statement
  | .nil => []
  | .cons first rest => first.image ++ rest.image

end

end

/-! ### Programs -/

structure Function where
  word : Span
  name : String
  span : Span
  opening : Span
  params : Params
  closing : Span
  colon : Span
  returns : TypeName
  lbrace : Span
  body : Statements
  rbrace : Span

namespace Function

def tokens (f : Function) : List Token :=
  wordAt .funKw f.word :: nameAt f.name f.span :: symbolAt .lparen f.opening ::
    (f.params.tokens ++ symbolAt .rparen f.closing :: symbolAt .colon f.colon ::
      (f.returns.tokens ++ symbolAt .lbrace f.lbrace ::
        (f.body.tokens ++ [symbolAt .rbrace f.rbrace])))

/-- The locals of a function in the order of their declarations. -/
def locals (f : Function) : List Variable :=
  Mention.declared f.body.mentions

def vars (f : Function) : List Variable :=
  f.params.image ++ f.locals

/-- The variable that a name denotes in a function; some variable of that name where
    the function has none. -/
def env (f : Function) (name : String) : Variable :=
  (f.vars.find? (·.name = name)).getD ⟨name, ⟨.void, 0⟩, default⟩

def image (f : Function) : Shc.Function :=
  ⟨f.name, f.returns.image, f.params.image, f.locals, f.body.image f.env, f.word.start⟩

/-- Every variable that occurs in the function is one of its parameters or a local
    whose declaration is complete before the place where it occurs. -/
def Resolved (f : Function) : Prop :=
  Mention.Bound (fun vars name => name ∈ vars.map Variable.name) f.params.image f.body.mentions

/-- No name is declared twice among the parameters and the locals. -/
def Distinct (f : Function) : Prop :=
  (f.vars.map Variable.name).Nodup

end Function

/-- `function | declaration` -/
inductive Item where
  | function (f : Function)
  | declaration (d : Declaration)

namespace Item

def tokens : Item → List Token
  | function f => f.tokens
  | declaration d => d.tokens

def image : Item → Shc.Item
  | function f => .function f.image
  | declaration d => .global d.image

def global? : Item → Option Variable
  | function _ => none
  | declaration d => some d.image

def function? : Item → Option Shc.Function
  | function f => some f.image
  | declaration _ => none

/-- What the grammar leaves open: each `else` belongs to the nearest `if`, variables are
    declared before they are used and only once, none of them occurs outside
    functions, and not too many constructs are open at once. -/
def Valid : Item → Prop
  | function f =>
    f.body.NearestElse ∧ f.Resolved ∧ f.Distinct ∧ f.body.depth ≤ 64
  | declaration d => d.uses = [] ∧ d.depth ≤ 64

end Item

abbrev Program := List Item

namespace Program

def tokens (p : Program) : List Token :=
  p.flatMap Item.tokens

/-- The globals and the functions of a program, each in the order of the source. -/
def image (p : Program) : Shc.Program :=
  ⟨p.filterMap Item.global?, p.filterMap Item.function?⟩

theorem image_eq_ofItems (p : Program) : p.image = Program.ofItems (p.map Item.image) := by
  induction p with
  | nil => rfl
  | cons item p ih =>
    rw [List.map_cons, Program.ofItems, ← ih]
    cases item <;> rfl

/-- What the grammar leaves open holds of every item. -/
def Valid (p : Program) : Prop :=
  ∀ item ∈ p, item.Valid

end Program

end Grammar
end Shc
