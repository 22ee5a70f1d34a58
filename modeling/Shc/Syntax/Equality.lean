/-
  Shc/Syntax/Equality.lean
  ========================
  Equality of programs is decidable.  The trees hold lists of each other, so it is
  spelled out: `same` compares two trees node by node.
-/
import Shc.Syntax.Program

namespace Shc

mutual

def Factor.same : Factor → Factor → Bool
  | .const value loc, .const value' loc' => value = value' && loc = loc'
  | .string value loc, .string value' loc' => value = value' && loc = loc'
  | .paren inner loc, .paren inner' loc' => inner.same inner' && loc = loc'
  | .var reference, .var reference' => reference = reference'
  | .call callee args loc, .call callee' args' loc' =>
    callee.same callee' && Expr.sameAll args args' && loc = loc'
  | _, _ => false
termination_by structural tree => tree

def Unary.same : Unary → Unary → Bool
  | .factor f, .factor f' => f.same f'
  | .signed sign operand loc, .signed sign' operand' loc' =>
    sign = sign' && operand.same operand' && loc = loc'
  | _, _ => false
termination_by structural tree => tree

def Value.same : Value → Value → Bool
  | .unary operand, .unary operand' => operand.same operand'
  | .leaf operand loc, .leaf operand' loc' => operand.same operand' && loc = loc'
  | .binary op left right loc, .binary op' left' right' loc' =>
    op = op' && left.same left' && right.same right' && loc = loc'
  | _, _ => false
termination_by structural tree => tree

def Slot.same : Slot → Slot → Bool
  | ⟨target, value, loc⟩, ⟨target', value', loc'⟩ =>
    target = target' && value.same value' && loc = loc'
termination_by structural tree => tree

def Slot.sameAll : List Slot → List Slot → Bool
  | [], [] => true
  | s :: slots, s' :: slots' => s.same s' && Slot.sameAll slots slots'
  | _, _ => false
termination_by structural tree => tree

def Expr.same : Expr → Expr → Bool
  | ⟨slots, loc⟩, ⟨slots', loc'⟩ => Slot.sameAll slots slots' && loc = loc'
termination_by structural tree => tree

def Expr.sameAll : List Expr → List Expr → Bool
  | [], [] => true
  | e :: es, e' :: es' => e.same e' && Expr.sameAll es es'
  | _, _ => false
termination_by structural tree => tree

def Statement.same : Statement → Statement → Bool
  | .branch condition yes no loc, .branch condition' yes' no' loc' =>
    condition.same condition' && Statement.sameAll yes yes' && Statement.sameAll no no' &&
      loc = loc'
  | .loop condition body loc, .loop condition' body' loc' =>
    condition.same condition' && Statement.sameAll body body' && loc = loc'
  | .declare v loc, .declare v' loc' => v = v' && loc = loc'
  | .call callee args loc, .call callee' args' loc' =>
    callee.same callee' && Expr.sameAll args args' && loc = loc'
  | .ret none loc, .ret none loc' => loc = loc'
  | .ret (some value) loc, .ret (some value') loc' => value.same value' && loc = loc'
  | .brk loc, .brk loc' => loc = loc'
  | .cont loc, .cont loc' => loc = loc'
  | .assign slot loc, .assign slot' loc' => slot.same slot' && loc = loc'
  | _, _ => false
termination_by structural tree => tree

def Statement.sameAll : List Statement → List Statement → Bool
  | [], [] => true
  | s :: body, s' :: body' => s.same s' && Statement.sameAll body body'
  | _, _ => false
termination_by structural tree => tree

def Function.same : Function → Function → Bool
  | ⟨name, returns, params, locals, body, loc⟩, ⟨name', returns', params', locals', body', loc'⟩ =>
    name = name' && returns = returns' && params = params' && locals = locals' &&
      Statement.sameAll body body' && loc = loc'
termination_by structural tree => tree

end

mutual

theorem Factor.same_iff : ∀ f f' : Factor, f.same f' = true ↔ f = f'
  | .const .., f' => by cases f' <;> simp [Factor.same]
  | .string .., f' => by cases f' <;> simp [Factor.same]
  | .paren inner _, f' => by cases f' <;> simp [Factor.same, inner.same_iff]
  | .var _, f' => by cases f' <;> simp [Factor.same]
  | .call callee args _, f' => by
    cases f' <;> simp [Factor.same, callee.same_iff, Expr.sameAll_iff args, and_assoc]
termination_by structural tree => tree

theorem Unary.same_iff : ∀ u u' : Unary, u.same u' = true ↔ u = u'
  | .factor f, u' => by cases u' <;> simp [Unary.same, f.same_iff]
  | .signed _ operand _, u' => by cases u' <;> simp [Unary.same, operand.same_iff, and_assoc]
termination_by structural tree => tree

theorem Value.same_iff : ∀ v v' : Value, v.same v' = true ↔ v = v'
  | .unary operand, v' => by cases v' <;> simp [Value.same, operand.same_iff]
  | .leaf operand _, v' => by cases v' <;> simp [Value.same, operand.same_iff]
  | .binary _ left right _, v' => by
    cases v' <;> simp [Value.same, left.same_iff, right.same_iff, and_assoc]
termination_by structural tree => tree

theorem Slot.same_iff : ∀ s s' : Slot, s.same s' = true ↔ s = s'
  | ⟨_, value, _⟩, ⟨_, _, _⟩ => by simp [Slot.same, value.same_iff, and_assoc]
termination_by structural tree => tree

theorem Slot.sameAll_iff :
    ∀ slots slots' : List Slot, Slot.sameAll slots slots' = true ↔ slots = slots'
  | [], slots' => by cases slots' <;> simp [Slot.sameAll]
  | s :: slots, slots' => by
    cases slots' <;> simp [Slot.sameAll, s.same_iff, Slot.sameAll_iff slots]
termination_by structural tree => tree

theorem Expr.same_iff : ∀ e e' : Expr, e.same e' = true ↔ e = e'
  | ⟨slots, _⟩, ⟨_, _⟩ => by simp [Expr.same, Slot.sameAll_iff slots]
termination_by structural tree => tree

theorem Expr.sameAll_iff : ∀ es es' : List Expr, Expr.sameAll es es' = true ↔ es = es'
  | [], es' => by cases es' <;> simp [Expr.sameAll]
  | e :: es, es' => by cases es' <;> simp [Expr.sameAll, e.same_iff, Expr.sameAll_iff es]
termination_by structural tree => tree

theorem Statement.same_iff : ∀ s s' : Statement, s.same s' = true ↔ s = s'
  | .branch condition yes no _, s' => by
    cases s' <;> simp [Statement.same, condition.same_iff, Statement.sameAll_iff yes,
      Statement.sameAll_iff no, and_assoc]
  | .loop condition body _, s' => by
    cases s' <;> simp [Statement.same, condition.same_iff, Statement.sameAll_iff body, and_assoc]
  | .declare .., s' => by cases s' <;> simp [Statement.same]
  | .call callee args _, s' => by
    cases s' <;> simp [Statement.same, callee.same_iff, Expr.sameAll_iff args, and_assoc]
  | .ret none _, s' => by
    rcases s' with _ | _ | _ | _ | ⟨_ | _, _⟩ | _ | _ | _ <;> simp [Statement.same]
  | .ret (some value) _, s' => by
    rcases s' with _ | _ | _ | _ | ⟨_ | _, _⟩ | _ | _ | _ <;>
      simp [Statement.same, value.same_iff]
  | .brk _, s' => by cases s' <;> simp [Statement.same]
  | .cont _, s' => by cases s' <;> simp [Statement.same]
  | .assign slot _, s' => by cases s' <;> simp [Statement.same, slot.same_iff]
termination_by structural tree => tree

theorem Statement.sameAll_iff :
    ∀ body body' : List Statement, Statement.sameAll body body' = true ↔ body = body'
  | [], body' => by cases body' <;> simp [Statement.sameAll]
  | s :: body, body' => by
    cases body' <;> simp [Statement.sameAll, s.same_iff, Statement.sameAll_iff body]
termination_by structural tree => tree

theorem Function.same_iff : ∀ f f' : Function, f.same f' = true ↔ f = f'
  | ⟨_, _, _, _, body, _⟩, ⟨_, _, _, _, _, _⟩ => by
    simp [Function.same, Statement.sameAll_iff body, and_assoc]
termination_by structural tree => tree

end

instance : DecidableEq Function := fun f f' =>
  decidable_of_iff _ (f.same_iff f')

deriving instance DecidableEq for Program

end Shc
