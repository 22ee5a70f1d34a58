import Shc.Parse.Program

/-!
# Moving places

Tokens, syntax trees, scopes and errors carry places in a source.  `relocate f`
moves each of them by `f` and leaves everything else alone.  Moving all places to
one and the same is how two things are compared that differ in places only.
-/

namespace Shc

/-- Types whose values carry places. -/
class Relocate (α : Type) where
  /-- Move every place by `f`. -/
  relocate : (Location → Location) → α → α

export Relocate (relocate)

namespace Relocate

/-! ### Values without places, and containers -/

instance : Relocate Unit := ⟨fun _ a => a⟩
instance : Relocate Bool := ⟨fun _ a => a⟩
instance : Relocate Nat := ⟨fun _ a => a⟩
instance : Relocate String := ⟨fun _ a => a⟩
instance : Relocate Ty := ⟨fun _ a => a⟩

section

variable {α β : Type} [Relocate α] [Relocate β]

instance : Relocate (Option α) := ⟨fun f => Option.map (relocate f)⟩
instance : Relocate (List α) := ⟨fun f => List.map (relocate f)⟩
instance : Relocate (α × β) := ⟨fun f p => (relocate f p.1, relocate f p.2)⟩

variable (f : Location → Location)

@[simp] theorem relocate_some (a : α) : relocate f (some a) = some (relocate f a) := rfl
@[simp] theorem relocate_nil : relocate f ([] : List α) = [] := rfl

@[simp] theorem relocate_cons (a : α) (as : List α) :
    relocate f (a :: as) = relocate f a :: relocate f as := rfl

@[simp] theorem relocate_append (as bs : List α) :
    relocate f (as ++ bs) = relocate f as ++ relocate f bs :=
  List.map_append

@[simp] theorem relocate_mk (a : α) (b : β) : relocate f (a, b) = (relocate f a, relocate f b) :=
  rfl

end

/-! ### Tokens and errors -/

instance : Relocate Span := ⟨fun f s => ⟨f s.start, f s.stop⟩⟩
instance : Relocate Token := ⟨fun f t => ⟨t.kind, relocate f t.span⟩⟩

instance : Relocate Stream where
  relocate f s := ⟨relocate f s.current, relocate f s.later, s.size, by
    rw [s.size_eq]
    exact (List.length_map _).symm⟩

instance : Relocate ParseError := ⟨fun f e => ⟨e.kind, relocate f e.span⟩⟩

/-! ### Syntax trees -/

instance : Relocate Variable := ⟨fun f v => { v with loc := f v.loc }⟩
instance : Relocate Reference := ⟨fun f r => ⟨relocate f r.decl, r.usage, f r.loc⟩⟩

end Relocate

section

variable (f : Location → Location)

mutual

/-- A factor with its places moved. -/
def Factor.move : Factor → Factor
  | .const value loc => .const value (f loc)
  | .string value loc => .string value (f loc)
  | .paren inner loc => .paren inner.move (f loc)
  | .var reference => .var (relocate f reference)
  | .call callee args loc => .call callee.move (Expr.moveAll args) (f loc)

def Unary.move : Unary → Unary
  | .factor factor => .factor factor.move
  | .signed sign operand loc => .signed sign operand.move (f loc)

def Value.move : Value → Value
  | .unary operand => .unary operand.move
  | .leaf operand loc => .leaf operand.move (f loc)
  | .binary op left right loc => .binary op left.move right.move (f loc)

def Slot.move : Slot → Slot
  | .mk target value loc => .mk (relocate f target) value.move (f loc)

def Slot.moveAll : List Slot → List Slot
  | [] => []
  | slot :: slots => slot.move :: Slot.moveAll slots

def Expr.move : Expr → Expr
  | .mk slots loc => .mk (Slot.moveAll slots) (f loc)

def Expr.moveAll : List Expr → List Expr
  | [] => []
  | expr :: exprs => expr.move :: Expr.moveAll exprs

def Expr.moveOption : Option Expr → Option Expr
  | none => none
  | some expr => some expr.move

def Statement.move : Statement → Statement
  | .branch condition yes no loc =>
    .branch condition.move (Statement.moveAll yes) (Statement.moveAll no) (f loc)
  | .loop condition body loc => .loop condition.move (Statement.moveAll body) (f loc)
  | .declare v loc => .declare (relocate f v) (f loc)
  | .call callee args loc => .call callee.move (Expr.moveAll args) (f loc)
  | .ret value loc => .ret (Expr.moveOption value) (f loc)
  | .brk loc => .brk (f loc)
  | .cont loc => .cont (f loc)
  | .assign slot loc => .assign slot.move (f loc)

def Statement.moveAll : List Statement → List Statement
  | [] => []
  | statement :: statements => statement.move :: Statement.moveAll statements

def Function.move : Function → Function
  | .mk name returns params locals body loc =>
    .mk name returns (relocate f params) (relocate f locals) (Statement.moveAll body) (f loc)

end

end

namespace Relocate

instance : Relocate Factor := ⟨Factor.move⟩
instance : Relocate Unary := ⟨Unary.move⟩
instance : Relocate Value := ⟨Value.move⟩
instance : Relocate Slot := ⟨Slot.move⟩
instance : Relocate Expr := ⟨Expr.move⟩
instance : Relocate Statement := ⟨Statement.move⟩
instance : Relocate Function := ⟨Function.move⟩

instance : Relocate Item where
  relocate f
    | .global v => .global (relocate f v)
    | .function fn => .function (relocate f fn)

instance : Relocate Program := ⟨fun f p => ⟨relocate f p.globals, relocate f p.functions⟩⟩

instance : Relocate Scope := ⟨fun f s => ⟨relocate f s.params, relocate f s.locals, s.names⟩⟩

instance : Relocate Reading :=
  ⟨fun f r => ⟨relocate f r.items, relocate f r.error, relocate f r.rest⟩⟩

end Relocate

section

variable (f : Location → Location)

theorem Expr.moveAll_eq (exprs : List Expr) : Expr.moveAll f exprs = relocate f exprs := by
  induction exprs with
  | nil => rfl
  | cons expr exprs ih => rw [moveAll, ih]; rfl

theorem Expr.moveOption_eq (expr : Option Expr) : Expr.moveOption f expr = relocate f expr := by
  cases expr <;> rfl

theorem Statement.moveAll_eq (statements : List Statement) :
    Statement.moveAll f statements = relocate f statements := by
  induction statements with
  | nil => rfl
  | cons statement statements ih => rw [moveAll, ih]; rfl

theorem Function.relocate_eq (t : Function) : relocate f t =
    ⟨t.name, t.returns, relocate f t.params, relocate f t.locals, relocate f t.body, f t.loc⟩ := by
  rw [← Statement.moveAll_eq]
  obtain ⟨name, returns, params, locals, body, loc⟩ := t
  rfl

@[simp] theorem Function.name_relocate (t : Function) : (relocate f t).name = t.name := by
  rw [t.relocate_eq]

theorem Value.loc_relocate (value : Value) : (relocate f value).loc = f value.loc := by
  cases value with
  | unary operand =>
    cases operand with
    | factor factor => cases factor <;> rfl
    | signed => rfl
  | leaf | binary => rfl

theorem Value.relocate_extend (left : Value) (op : Operator) (right : Value) :
    relocate f (left.extend op right) = (relocate f left).extend op (relocate f right) := by
  rw [extend, extend, loc_relocate]
  rfl

theorem Expr.relocate_single (value : Value) :
    relocate f (Expr.single value) = .single (relocate f value) := by
  rw [Expr.single, Expr.single, Value.loc_relocate]
  rfl

end

/-! ### Forgetting places -/

/-- A thing with all its places forgotten. -/
def erase {α : Type} [Relocate α] (a : α) : α :=
  relocate (fun _ => default) a

/-- Tokens of the same kinds differ in places only. -/
theorem erase_tokens_eq {ts us : List Token} (h : ts.map Token.kind = us.map Token.kind) :
    erase ts = erase us := by
  have herase : ∀ ts : List Token,
      erase ts = (ts.map Token.kind).map fun kind => (⟨kind, erase default⟩ : Token) := by
    intro ts
    rw [List.map_map]
    rfl
  rw [herase, herase, h]

end Shc
