import Shc.Proofs.Sound.Program

/-!
# Normal derivations

Different derivations can stand for the same program.  The normal one is the one
that printing follows: constants are numbers, blocks are spliced into the row around
them, every body stands in braces, empty statements, empty `else` parts and initial
values are gone, and globals come before functions.  It stands for the same program,
and it is valid if the derivation was: nothing is opened that was not open before,
since the braces of a body do not count.

Tokens that are kept stay where they are; the braces that are new have no place.
-/

namespace Shc.Grammar

/-! ### Expressions -/

mutual

/-- The factor with its constants written as numbers. -/
def Factor.normal : Factor → Factor
  | .int value span => .int value span
  | .char value span => .int value.toNat span
  | .bool value span => .int (if value then 1 else 0) span
  | .string value span => .string value span
  | .paren opening inner closing => .paren opening inner.normal closing
  | .var name span => .var name span
  | .call callee span opening args closing => .call callee span opening args.normal closing

def Unary.normal : Unary → Unary
  | .signed sign span operand => .signed sign span operand.normal
  | .marked first more name span => .marked first more name span
  | .factor factor => .factor factor.normal

def Chain.normal {layers : List Layer} : Chain layers → Chain layers
  | .unary operand => .unary operand.normal
  | .layer first rest => .layer first.normal rest.normal

def Links.normal {layer : Layer} {below : List Layer} : Links layer below → Links layer below
  | .nil => .nil
  | .cons op belongs span operand rest => .cons op belongs span operand.normal rest.normal

def Args.normal : Args → Args
  | .none => .none
  | .some first rest => .some first.normal rest.normal

def MoreArgs.normal : MoreArgs → MoreArgs
  | .nil => .nil
  | .cons comma arg rest => .cons comma arg.normal rest.normal

end

mutual

@[simp] theorem Factor.start_normal : (t : Factor) → t.normal.start = t.start
  | .int .. | .bool .. | .char .. | .string .. | .paren .. | .var .. | .call .. => rfl

@[simp] theorem Unary.start_normal : (t : Unary) → t.normal.start = t.start
  | .factor factor => factor.start_normal
  | .signed .. | .marked .. => rfl

@[simp] theorem Chain.start_normal {layers : List Layer} : (t : Chain layers) →
    t.normal.start = t.start
  | .unary operand => operand.start_normal
  | .layer first _ => first.start_normal

end

section

variable (env : String → Variable)

mutual

theorem Factor.normal_same : (t : Factor) →
    t.normal.uses = t.uses ∧ t.normal.depth = t.depth ∧ t.normal.image env = t.image env
  | .int .. | .char .. | .string .. | .var .. => ⟨rfl, rfl, rfl⟩
  | .bool value _ => ⟨rfl, rfl, by cases value <;> rfl⟩
  | .paren _ inner _ => by
    simp [Factor.normal, Factor.uses, Factor.depth, Factor.image, inner.normal_same]
  | .call _ _ _ args _ => by
    simp [Factor.normal, Factor.uses, Factor.depth, Factor.image, args.normal_same]

theorem Unary.normal_same : (t : Unary) →
    t.normal.uses = t.uses ∧ t.normal.depth = t.depth ∧ t.normal.image env = t.image env
  | .signed _ _ operand => by
    simp [Unary.normal, Unary.uses, Unary.depth, Unary.image, operand.normal_same]
  | .marked .. => ⟨rfl, rfl, rfl⟩
  | .factor factor => by
    simp [Unary.normal, Unary.uses, Unary.depth, Unary.image, factor.normal_same]

theorem Chain.normal_same {layers : List Layer} : (t : Chain layers) →
    t.normal.uses = t.uses ∧ t.normal.depth = t.depth ∧ t.normal.image env = t.image env
  | .unary operand => by
    simp [Chain.normal, Chain.uses, Chain.depth, Chain.image, operand.normal_same]
  | .layer first rest => by
    simp [Chain.normal, Chain.uses, Chain.depth, Chain.image, first.normal_same,
      rest.normal_same]

theorem Links.normal_same {layer : Layer} {below : List Layer} : (t : Links layer below) →
    t.normal.uses = t.uses ∧ t.normal.depth = t.depth ∧
      ∀ start left, t.normal.image env start left = t.image env start left
  | .nil => ⟨rfl, rfl, fun _ _ => rfl⟩
  | .cons _ _ _ operand rest => by
    simp [Links.normal, Links.uses, Links.depth, Links.image, operand.normal_same,
      rest.normal_same]

theorem Args.normal_same : (t : Args) →
    t.normal.uses = t.uses ∧ t.normal.depth = t.depth ∧ t.normal.image env = t.image env
  | .none => ⟨rfl, rfl, rfl⟩
  | .some first rest => by
    simp [Args.normal, Args.uses, Args.depth, Args.image, first.normal_same, rest.normal_same]

theorem MoreArgs.normal_same : (t : MoreArgs) →
    t.normal.uses = t.uses ∧ t.normal.depth = t.depth ∧ t.normal.image env = t.image env
  | .nil => ⟨rfl, rfl, rfl⟩
  | .cons _ arg rest => by
    simp [MoreArgs.normal, MoreArgs.uses, MoreArgs.depth, MoreArgs.image, arg.normal_same,
      rest.normal_same]

end

theorem Chain.expr_normal (t : Expr) : Chain.expr env t.normal = t.expr env := by
  rw [Chain.expr, Chain.expr, (t.normal_same env).2.2, t.start_normal]

end

/-- Some environment; uses and nesting do not depend on it. -/
def anyEnv (name : String) : Variable :=
  ⟨name, ⟨.void, 0⟩, default⟩

@[simp] theorem Chain.uses_normal {layers : List Layer} (t : Chain layers) :
    t.normal.uses = t.uses :=
  (t.normal_same anyEnv).1

@[simp] theorem Chain.depth_normal {layers : List Layer} (t : Chain layers) :
    t.normal.depth = t.depth :=
  (t.normal_same anyEnv).2.1

@[simp] theorem Args.uses_normal (t : Args) : t.normal.uses = t.uses :=
  (t.normal_same anyEnv).1

@[simp] theorem Args.depth_normal (t : Args) : t.normal.depth = t.depth :=
  (t.normal_same anyEnv).2.1

/-! ### Statements -/

def Condition.normal (c : Condition) : Condition :=
  { c with inner := c.inner.normal }

/-- The declaration without its initial value. -/
def Declaration.normal (d : Declaration) : Declaration :=
  { d with init := none }

/-- Statements as a body in braces. -/
def Statements.braced (t : Statements) : Body :=
  .block default t default

/-- A branch with the given statements behind `else`, or without `else` if there are none. -/
def Statement.branchTo (word : Span) (condition : Condition) (yes : Statements) :
    Statements → Statement
  | .nil => .branch word condition yes.braced
  | .cons first rest =>
    .branchElse word condition yes.braced default (Statements.cons first rest).braced

mutual

/-- The normal statements for a statement, in front of some others. -/
def Statement.normalOnto : Statement → Statements → Statements
  | .block _ inner _, later => inner.normalOnto later
  | .branch word condition yes, later =>
    .cons (.branch word condition.normal (yes.normalOnto .nil).braced) later
  | .branchElse word condition yes _ no, later =>
    .cons (.branchTo word condition.normal (yes.normalOnto .nil) (no.normalOnto .nil)) later
  | .loop word condition body, later =>
    .cons (.loop word condition.normal (body.normalOnto .nil).braced) later
  | .brk word semicolon, later => .cons (.brk word semicolon) later
  | .cont word semicolon, later => .cons (.cont word semicolon) later
  | .ret word value semicolon, later => .cons (.ret word (value.map Chain.normal) semicolon) later
  | .declare declaration, later => .cons (.declare declaration.normal) later
  | .call callee span opening args closing semicolon, later =>
    .cons (.call callee span opening args.normal closing semicolon) later
  | .assign markers name span eq value semicolon, later =>
    .cons (.assign markers name span eq value.normal semicolon) later
  | .empty _, later => later

def Body.normalOnto : Body → Statements → Statements
  | .block _ inner _, later => inner.normalOnto later
  | .single statement, later => statement.normalOnto later

def Statements.normalOnto : Statements → Statements → Statements
  | .nil, later => later
  | .cons first rest, later => first.normalOnto (rest.normalOnto later)

end

/-! What a branch in normal form has, whether or not there is an `else` -/

namespace Statement

variable (word : Span) (condition : Condition) (yes no : Statements)

theorem mentions_branchTo : (branchTo word condition yes no).mentions =
    condition.inner.uses.map .use ++ (yes.mentions ++ no.mentions) := by
  cases no with
  | nil => simp [branchTo, mentions, Statements.braced, Body.mentions, Statements.mentions]
  | cons first rest => rfl

theorem depth_branchTo : (branchTo word condition yes no).depth =
    max condition.inner.depth (max yes.depth no.depth) + 1 := by
  cases no with
  | nil => simp [branchTo, depth, Statements.braced, Body.depth, Statements.depth]
  | cons first rest => rfl

theorem image_branchTo (env : String → Variable) : (branchTo word condition yes no).image env =
    [.branch (condition.image env) (yes.image env) (no.image env) word.start] := by
  cases no with
  | nil => rfl
  | cons first rest => rfl

theorem nearestElse_branchTo (hyes : yes.NearestElse) (hno : no.NearestElse) :
    (branchTo word condition yes no).NearestElse := by
  cases no with
  | nil => exact hyes
  | cons first rest => exact ⟨rfl, hyes, hno⟩

end Statement

/-! The image -/

section

variable (env : String → Variable)

theorem Condition.image_normal (c : Condition) : c.normal.image env = c.image env := by
  rw [Condition.image, Condition.normal, Chain.expr_normal, Condition.image]

mutual

theorem Statement.image_normalOnto : (t : Statement) → (later : Statements) →
    (t.normalOnto later).image env = t.image env ++ later.image env
  | .block _ inner _, later => inner.image_normalOnto later
  | .branch _ condition yes, later => by
    simp [Statement.normalOnto, Statements.image, Statement.image, Statements.braced, Body.image,
      condition.image_normal, yes.image_normalOnto]
  | .branchElse _ condition yes _ no, later => by
    simp [Statement.normalOnto, Statements.image, Statement.image, Statement.image_branchTo,
      condition.image_normal, yes.image_normalOnto, no.image_normalOnto]
  | .loop _ condition body, later => by
    simp [Statement.normalOnto, Statements.image, Statement.image, Statements.braced, Body.image,
      condition.image_normal, body.image_normalOnto]
  | .brk .., _ | .cont .., _ | .empty .., _ | .declare .., _ => rfl
  | .ret _ value _, later => by
    cases value with
    | none => rfl
    | some e => simp [Statement.normalOnto, Statements.image, Statement.image, e.expr_normal]
  | .call _ _ _ args _ _, later => by
    simp [Statement.normalOnto, Statements.image, Statement.image, args.normal_same]
  | .assign _ _ _ _ value _, later => by
    simp [Statement.normalOnto, Statements.image, Statement.image, value.normal_same]

theorem Body.image_normalOnto : (t : Body) → (later : Statements) →
    (t.normalOnto later).image env = t.image env ++ later.image env
  | .block _ inner _, later => inner.image_normalOnto later
  | .single statement, later => statement.image_normalOnto later

theorem Statements.image_normalOnto : (t : Statements) → (later : Statements) →
    (t.normalOnto later).image env = t.image env ++ later.image env
  | .nil, _ => rfl
  | .cons first rest, later => by
    rw [Statements.normalOnto, first.image_normalOnto, rest.image_normalOnto, Statements.image,
      List.append_assoc]

end

end

/-! Nesting -/

mutual

theorem Statement.depth_normalOnto_le : (t : Statement) → (later : Statements) →
    (t.normalOnto later).depth ≤ max t.depth later.depth
  | .block _ inner _, later => by
    have hinner := inner.depth_normalOnto_le later
    simp only [Statement.normalOnto, Statement.depth]
    omega
  | .branch _ condition yes, later => by
    have hyes := yes.depth_normalOnto_le .nil
    simp only [Statements.depth] at hyes
    simp only [Statement.normalOnto, Statements.depth, Statement.depth, Statements.braced,
      Body.depth, Condition.normal, Chain.depth_normal]
    omega
  | .branchElse _ condition yes _ no, later => by
    have hyes := yes.depth_normalOnto_le .nil
    have hno := no.depth_normalOnto_le .nil
    simp only [Statements.depth] at hyes hno
    simp only [Statement.normalOnto, Statements.depth, Statement.depth_branchTo, Statement.depth,
      Condition.normal, Chain.depth_normal]
    omega
  | .loop _ condition body, later => by
    have hbody := body.depth_normalOnto_le .nil
    simp only [Statements.depth] at hbody
    simp only [Statement.normalOnto, Statements.depth, Statement.depth, Statements.braced,
      Body.depth, Condition.normal, Chain.depth_normal]
    omega
  | .brk .., _ | .cont .., _ => Nat.le_refl _
  | .empty .., _ => Nat.le_max_right _ _
  | .declare declaration, later => by
    have hzero : declaration.normal.depth = 0 := rfl
    simp only [Statement.normalOnto, Statements.depth, Statement.depth, hzero]
    omega
  | .ret _ value _, later => by
    cases value with
    | none => exact Nat.le_refl _
    | some e => simp [Statement.normalOnto, Statements.depth, Statement.depth]
  | .call _ _ _ args _ _, later => by
    simp [Statement.normalOnto, Statements.depth, Statement.depth]
  | .assign _ _ _ _ value _, later => by
    simp [Statement.normalOnto, Statements.depth, Statement.depth]

theorem Body.depth_normalOnto_le : (t : Body) → (later : Statements) →
    (t.normalOnto later).depth ≤ max t.depth later.depth
  | .block _ inner _, later => inner.depth_normalOnto_le later
  | .single statement, later => statement.depth_normalOnto_le later

theorem Statements.depth_normalOnto_le : (t : Statements) → (later : Statements) →
    (t.normalOnto later).depth ≤ max t.depth later.depth
  | .nil, later => by simp [Statements.normalOnto, Statements.depth]
  | .cons first rest, later => by
    have hfirst := first.depth_normalOnto_le (rest.normalOnto later)
    have hrest := rest.depth_normalOnto_le later
    simp only [Statements.normalOnto, Statements.depth]
    omega

end

/-! The `if` of an `else` -/

mutual

theorem Statement.nearestElse_normalOnto : (t : Statement) → {later : Statements} →
    later.NearestElse → (t.normalOnto later).NearestElse
  | .block _ inner _, _, h => inner.nearestElse_normalOnto h
  | .branch _ _ yes, _, h => ⟨yes.nearestElse_normalOnto trivial, h⟩
  | .branchElse _ _ yes _ no, _, h =>
    ⟨Statement.nearestElse_branchTo _ _ _ _ (yes.nearestElse_normalOnto trivial)
      (no.nearestElse_normalOnto trivial), h⟩
  | .loop _ _ body, _, h => ⟨body.nearestElse_normalOnto trivial, h⟩
  | .brk .., _, h | .cont .., _, h | .declare .., _, h | .ret .., _, h | .call .., _, h
  | .assign .., _, h => ⟨trivial, h⟩
  | .empty .., _, h => h

theorem Body.nearestElse_normalOnto : (t : Body) → {later : Statements} →
    later.NearestElse → (t.normalOnto later).NearestElse
  | .block _ inner _, _, h => inner.nearestElse_normalOnto h
  | .single statement, _, h => statement.nearestElse_normalOnto h

theorem Statements.nearestElse_normalOnto : (t : Statements) → {later : Statements} →
    later.NearestElse → (t.normalOnto later).NearestElse
  | .nil, _, h => h
  | .cons first rest, _, h => first.nearestElse_normalOnto (rest.nearestElse_normalOnto h)

end

/-! Variables -/

/-- A walk that leaves out some uses of another one. -/
abbrev LeavesOut : List (Mention String) → List (Mention String) → Prop :=
  Mention.Refines Eq id

theorem leavesOut_uses (uses : List String) : LeavesOut (uses.map .use) (uses.map .use) :=
  .map_use (List.forall₂_same.2 fun _ _ => rfl)

mutual

theorem Statement.leavesOut_normalOnto : (t : Statement) → {ms : List (Mention String)} →
    {later : Statements} → LeavesOut ms later.mentions →
    LeavesOut (t.mentions ++ ms) (t.normalOnto later).mentions
  | .block _ inner _, _, _, h => inner.leavesOut_normalOnto h
  | .branch _ condition yes, _, _, h => by
    have hyes : LeavesOut (yes.mentions ++ []) (yes.normalOnto .nil).mentions :=
      yes.leavesOut_normalOnto .nil
    rw [List.append_nil] at hyes
    refine .append ?_ h
    rw [Statement.mentions, Statement.mentions, Condition.normal, Chain.uses_normal]
    exact (leavesOut_uses _).append hyes
  | .branchElse _ condition yes _ no, _, _, h => by
    have hyes : LeavesOut (yes.mentions ++ []) (yes.normalOnto .nil).mentions :=
      yes.leavesOut_normalOnto .nil
    have hno : LeavesOut (no.mentions ++ []) (no.normalOnto .nil).mentions :=
      no.leavesOut_normalOnto .nil
    rw [List.append_nil] at hyes hno
    refine .append ?_ h
    rw [Statement.mentions_branchTo, Statement.mentions, Condition.normal, Chain.uses_normal]
    exact (leavesOut_uses _).append (hyes.append hno)
  | .loop _ condition body, _, _, h => by
    have hbody : LeavesOut (body.mentions ++ []) (body.normalOnto .nil).mentions :=
      body.leavesOut_normalOnto .nil
    rw [List.append_nil] at hbody
    refine .append ?_ h
    rw [Statement.mentions, Statement.mentions, Condition.normal, Chain.uses_normal]
    exact (leavesOut_uses _).append hbody
  | .brk .., _, _, h | .cont .., _, _, h | .empty .., _, _, h => h
  | .declare declaration, _, _, h => by
    refine .append ?_ h
    exact .drop_all _ (.declare .nil)
  | .ret _ value _, _, _, h => by
    refine .append ?_ h
    cases value with
    | none => exact .nil
    | some e =>
      rw [Statement.mentions, Statement.mentions, Option.map_some, Option.elim, Option.elim,
        Chain.uses_normal]
      exact leavesOut_uses _
  | .call _ _ _ args _ _, _, _, h => by
    refine .append ?_ h
    rw [Statement.mentions, Statement.mentions, Args.uses_normal]
    exact leavesOut_uses _
  | .assign _ name _ _ value _, _, _, h => by
    refine .append ?_ h
    rw [Statement.mentions, Statement.mentions, Chain.uses_normal]
    exact leavesOut_uses (name :: value.uses)

theorem Body.leavesOut_normalOnto : (t : Body) → {ms : List (Mention String)} →
    {later : Statements} → LeavesOut ms later.mentions →
    LeavesOut (t.mentions ++ ms) (t.normalOnto later).mentions
  | .block _ inner _, _, _, h => inner.leavesOut_normalOnto h
  | .single statement, _, _, h => statement.leavesOut_normalOnto h

theorem Statements.leavesOut_normalOnto : (t : Statements) → {ms : List (Mention String)} →
    {later : Statements} → LeavesOut ms later.mentions →
    LeavesOut (t.mentions ++ ms) (t.normalOnto later).mentions
  | .nil, _, _, h => h
  | .cons first rest, _, _, h => by
    rw [Statements.mentions, List.append_assoc]
    exact first.leavesOut_normalOnto (rest.leavesOut_normalOnto h)

end

/-! ### Programs -/

namespace Function

def normal (f : Function) : Function :=
  { f with body := f.body.normalOnto .nil }

theorem leavesOut_normal (f : Function) : LeavesOut f.body.mentions f.normal.body.mentions := by
  have h : LeavesOut (f.body.mentions ++ []) (f.body.normalOnto .nil).mentions :=
    f.body.leavesOut_normalOnto .nil
  rwa [List.append_nil] at h

theorem locals_normal (f : Function) : f.normal.locals = f.locals := by
  rw [locals, f.leavesOut_normal.declared_eq, List.map_id, locals]

theorem vars_normal (f : Function) : f.normal.vars = f.vars := by
  rw [vars, locals_normal]
  rfl

theorem env_normal (f : Function) : f.normal.env = f.env := by
  funext name
  rw [env, env, vars_normal]

theorem image_normal (f : Function) : f.normal.image = f.image := by
  have hbody : f.normal.body.image f.env = f.body.image f.env := by
    rw [normal, f.body.image_normalOnto, Statements.image, List.append_nil]
  rw [image, image, locals_normal, env_normal, hbody]
  rfl

theorem valid_normal {f : Function} (h : (Item.function f).Valid) :
    (Item.function f.normal).Valid := by
  obtain ⟨-, hresolved, hdistinct, hdepth⟩ := h
  refine ⟨f.body.nearestElse_normalOnto trivial, ?_, ?_, ?_⟩
  · have hbound : Mention.Bound Named (f.params.image.map id) f.normal.body.mentions := by
      refine f.leavesOut_normal.bound ?_ hresolved
      rintro known name _ rfl hname
      rwa [List.map_id]
    rw [List.map_id] at hbound
    exact hbound
  · rw [Distinct, vars_normal]
    exact hdistinct
  · have hle := f.body.depth_normalOnto_le .nil
    simp only [Statements.depth] at hle
    show (f.body.normalOnto .nil).depth ≤ 64
    omega

end Function

def Item.asDeclaration? : Item → Option Declaration
  | .declaration d => some d
  | .function _ => none

def Item.asFunction? : Item → Option Function
  | .declaration _ => none
  | .function f => some f

namespace Program

def declarations (p : Program) : List Declaration :=
  p.filterMap Item.asDeclaration?

def functions (p : Program) : List Function :=
  p.filterMap Item.asFunction?

/-- The program in normal form, with the declarations in front. -/
def normal (p : Program) : Program :=
  p.declarations.map (fun d => .declaration d.normal) ++
    p.functions.map (fun f => .function f.normal)

theorem image_eq (p : Program) :
    p.image = ⟨p.declarations.map Declaration.image, p.functions.map Function.image⟩ := by
  rw [image, declarations, functions, List.map_filterMap, List.map_filterMap]
  congr 2
  · funext item
    cases item <;> rfl
  · funext item
    cases item <;> rfl

theorem image_normal (p : Program) : (normal p).image = p.image := by
  have hglobals : p.normal.filterMap Item.global? = p.declarations.map Declaration.image := by
    simp [normal, Item.global?, Function.comp_def, Declaration.normal, Declaration.image]
  have hfunctions : p.normal.filterMap Item.function? = p.functions.map Function.image := by
    simp [normal, Item.function?, Function.comp_def, Function.image_normal]
  rw [p.image_eq, image, hglobals, hfunctions]

theorem valid_normal {p : Program} (h : p.Valid) : (normal p).Valid := by
  intro item hitem
  rcases List.mem_append.1 hitem with hmem | hmem
  · obtain ⟨d, -, rfl⟩ := List.mem_map.1 hmem
    exact ⟨rfl, Nat.zero_le _⟩
  · obtain ⟨f, hf, rfl⟩ := List.mem_map.1 hmem
    refine Function.valid_normal ?_
    obtain ⟨original, horiginal, heq⟩ := List.mem_filterMap.1 hf
    cases original with
    | declaration d => simp [Item.asFunction?] at heq
    | function g =>
      obtain rfl : g = f := by simpa [Item.asFunction?] using heq
      exact h _ horiginal

end Program

end Shc.Grammar
