import Mathlib.Logic.Basic
import Shc.Compile.Source
import Shc.Proofs.Relocate.Basic

/-!
# Writing does not look at places

The printed text, the outline and the C text of a program are the same wherever its
parts stand.  A program without C text has none after its places were moved either,
and the error differs in its place only.  Each writer is covered by following its
definition: what it makes of a moved tree is what it makes of the tree, moved.
-/

namespace Shc

section

variable (f : Location → Location)

/-! ### Source text -/

mutual

theorem Factor.text_relocate : (t : Factor) → (relocate f t).text = t.text
  | .const .. | .string .. | .var _ => rfl
  | .paren inner _ => congrArg (fun text => "(" ++ text ++ ")") inner.text_relocate
  | .call callee args _ =>
    congrArg₂ callText (callee.name_relocate f) (Expr.texts_moveAll args)

theorem Unary.text_relocate : (t : Unary) → (relocate f t).text = t.text
  | .factor factor => factor.text_relocate
  | .signed sign operand _ => congrArg (sign.text ++ ·) operand.text_relocate

theorem Value.text_relocate : (t : Value) → (relocate f t).text = t.text
  | .unary operand => operand.text_relocate
  | .leaf operand _ => operand.text_relocate
  | .binary op left right _ =>
    congrArg₂ (fun l r => l ++ " " ++ op.text ++ " " ++ r) left.text_relocate right.text_relocate

theorem Slot.text_relocate : (t : Slot) → (relocate f t).text = t.text
  | .mk none value _ => value.text_relocate
  | .mk (some target) value _ => congrArg (target.text ++ " = " ++ ·) value.text_relocate

theorem Slot.texts_moveAll : (ts : List Slot) → Slot.texts (Slot.moveAll f ts) = Slot.texts ts
  | [] => rfl
  | slot :: slots => congrArg₂ List.cons slot.text_relocate (Slot.texts_moveAll slots)

theorem Expr.text_relocate : (t : Expr) → (relocate f t).text = t.text
  | .mk slots _ => congrArg (Text.joined ", ") (Slot.texts_moveAll slots)

theorem Expr.texts_moveAll : (ts : List Expr) → Expr.texts (Expr.moveAll f ts) = Expr.texts ts
  | [] => rfl
  | expr :: exprs => congrArg₂ List.cons expr.text_relocate (Expr.texts_moveAll exprs)

end

theorem Factor.conditionText_relocate (t : Factor) :
    (relocate f t).conditionText = t.conditionText := by
  have htext := t.text_relocate f
  cases t with
  | paren inner loc => exact htext
  | _ => exact congrArg inParens htext

mutual

theorem Statement.lines_relocate (level : Nat) : (t : Statement) →
    (relocate f t).lines level = t.lines level
  | .branch condition yes [] loc => by
    show (Statement.branch (relocate f condition) (Statement.moveAll f yes) []
      (f loc)).lines level = _
    rw [Statement.lines, Statement.lines, condition.conditionText_relocate,
      Statement.allLines_moveAll (level + 1) yes]
  | .branch condition yes (first :: no) loc => by
    have hno := Statement.allLines_moveAll (level + 1) (first :: no)
    rw [Statement.moveAll] at hno
    show (Statement.branch (relocate f condition) (Statement.moveAll f yes)
      (first.move f :: Statement.moveAll f no) (f loc)).lines level = _
    rw [Statement.lines, Statement.lines, condition.conditionText_relocate,
      Statement.allLines_moveAll (level + 1) yes, hno]
  | .loop condition body loc => by
    show (Statement.loop (relocate f condition) (Statement.moveAll f body) (f loc)).lines level = _
    rw [Statement.lines, Statement.lines, condition.conditionText_relocate,
      Statement.allLines_moveAll (level + 1) body]
  | .declare .. | .brk _ | .cont _ | .ret none _ => rfl
  | .call callee args loc => by
    show (Statement.call (relocate f callee) (Expr.moveAll f args) (f loc)).lines level = _
    rw [Statement.lines, Statement.lines, callee.name_relocate, Expr.texts_moveAll]
  | .ret (some value) loc => by
    show (Statement.ret (some (relocate f value)) (f loc)).lines level = _
    rw [Statement.lines, Statement.lines, value.text_relocate]
  | .assign slot loc => by
    show (Statement.assign (relocate f slot) (f loc)).lines level = _
    rw [Statement.lines, Statement.lines, slot.text_relocate]

theorem Statement.allLines_moveAll (level : Nat) : (ts : List Statement) →
    Statement.allLines level (Statement.moveAll f ts) = Statement.allLines level ts
  | [] => rfl
  | statement :: statements =>
    congrArg₂ (· ++ ·) (statement.lines_relocate level)
      (Statement.allLines_moveAll level statements)

end

/-- What does not look at places is the same for moved things, one by one. -/
theorem map_relocate {α β : Type} [Relocate α] {write : α → β}
    (h : ∀ a, write (relocate f a) = write a) (as : List α) :
    (relocate f as).map write = as.map write := by
  induction as with
  | nil => rfl
  | cons a as ih => rw [Relocate.relocate_cons, List.map_cons, List.map_cons, h, ih]

theorem Function.text_relocate (t : Function) : (relocate f t).text = t.text := by
  have hparams : (relocate f t.params).map Variable.text = t.params.map Variable.text :=
    map_relocate f (fun _ => rfl) t.params
  have hbody := Statement.allLines_moveAll f 1 t.body
  rw [Statement.moveAll_eq] at hbody
  rw [text, text, lines, lines, headText, headText, t.relocate_eq, hparams, hbody]

theorem Program.text_relocate (p : Program) : (relocate f p).text = p.text := by
  have hglobals : (relocate f p.globals).map (fun v => v.text ++ ";\n") =
      p.globals.map fun v => v.text ++ ";\n" := map_relocate f (fun _ => rfl) p.globals
  have hfunctions : (relocate f p.functions).map Function.text = p.functions.map Function.text :=
    map_relocate f (Function.text_relocate f) p.functions
  obtain ⟨globals, functions⟩ := p
  show Text.concat ((relocate f globals).map fun v => v.text ++ ";\n") ++
    (if (relocate f globals).isEmpty ∨ (relocate f functions).isEmpty then "" else "\n") ++
      Text.joined "\n" ((relocate f functions).map Function.text) = _
  rw [hglobals, hfunctions]
  cases globals <;> cases functions <;> rfl

/-! ### Outlines -/

mutual

theorem Factor.outline_relocate : (t : Factor) → (relocate f t).outline = t.outline
  | .const .. | .string .. | .var _ => rfl
  | .paren inner _ => congrArg (fun text => "(paren " ++ text ++ ")") inner.outline_relocate
  | .call callee args _ =>
    congrArg₂ callOutline (callee.name_relocate f) (Expr.outlines_moveAll args)

theorem Unary.outline_relocate : (t : Unary) → (relocate f t).outline = t.outline
  | .factor factor => factor.outline_relocate
  | .signed sign operand _ =>
    congrArg (fun text => "(" ++ sign.outline ++ " " ++ text ++ ")") operand.outline_relocate

theorem Value.outline_relocate : (t : Value) → (relocate f t).outline = t.outline
  | .unary operand => operand.outline_relocate
  | .leaf operand _ => operand.outline_relocate
  | .binary op left right _ =>
    congrArg₂ (fun l r => "(" ++ op.text ++ " " ++ l ++ " " ++ r ++ ")") left.outline_relocate
      right.outline_relocate

theorem Slot.outline_relocate : (t : Slot) → (relocate f t).outline = t.outline
  | .mk none value _ => value.outline_relocate
  | .mk (some target) value _ =>
    congrArg (fun text => "(assign " ++ target.outline ++ " " ++ text ++ ")") value.outline_relocate

theorem Slot.outlines_moveAll : (ts : List Slot) →
    Slot.outlines (Slot.moveAll f ts) = Slot.outlines ts
  | [] => rfl
  | slot :: slots => congrArg₂ List.cons slot.outline_relocate (Slot.outlines_moveAll slots)

theorem Expr.outline_relocate : (t : Expr) → (relocate f t).outline = t.outline
  | .mk slots _ => congrArg slotsOutline (Slot.outlines_moveAll slots)

theorem Expr.outlines_moveAll : (ts : List Expr) →
    Expr.outlines (Expr.moveAll f ts) = Expr.outlines ts
  | [] => rfl
  | expr :: exprs => congrArg₂ List.cons expr.outline_relocate (Expr.outlines_moveAll exprs)

end

mutual

theorem Statement.outline_relocate (level : Nat) : (t : Statement) →
    (relocate f t).outline level = t.outline level
  | .branch condition yes no loc => by
    show (Statement.branch (relocate f condition) (Statement.moveAll f yes)
      (Statement.moveAll f no) (f loc)).outline level = _
    rw [Statement.outline, Statement.outline, condition.outline_relocate,
      Statement.outlines_moveAll (level + 2) yes, Statement.outlines_moveAll (level + 2) no]
  | .loop condition body loc => by
    show (Statement.loop (relocate f condition) (Statement.moveAll f body)
      (f loc)).outline level = _
    rw [Statement.outline, Statement.outline, condition.outline_relocate,
      Statement.outlines_moveAll (level + 1) body]
  | .declare .. | .brk _ | .cont _ | .ret none _ => rfl
  | .call callee args loc => by
    show (Statement.call (relocate f callee) (Expr.moveAll f args) (f loc)).outline level = _
    rw [Statement.outline, Statement.outline, callee.name_relocate, Expr.outlines_moveAll]
  | .ret (some value) loc => by
    show (Statement.ret (some (relocate f value)) (f loc)).outline level = _
    rw [Statement.outline, Statement.outline, value.outline_relocate]
  | .assign slot _ => congrArg (outlineLine level) (slot.outline_relocate f)

theorem Statement.outlines_moveAll (level : Nat) : (ts : List Statement) →
    Statement.outlines level (Statement.moveAll f ts) = Statement.outlines level ts
  | [] => rfl
  | statement :: statements =>
    congrArg₂ (· ++ ·) (statement.outline_relocate level)
      (Statement.outlines_moveAll level statements)

end

theorem variablesOutline_relocate (heading : String) (vs : List Variable) :
    variablesOutline heading (relocate f vs) = variablesOutline heading vs := by
  rw [variablesOutline, variablesOutline, map_relocate f fun _ => rfl]

theorem Function.outline_relocate (t : Function) : (relocate f t).outline = t.outline := by
  have hbody := Statement.outlines_moveAll f 2 t.body
  rw [Statement.moveAll_eq] at hbody
  delta outline
  rw [t.relocate_eq, variablesOutline_relocate, variablesOutline_relocate, hbody]

theorem Program.outline_relocate (p : Program) : (relocate f p).outline = p.outline := by
  show Text.concat ((relocate f p.globals).map fun v => "(global " ++ v.outline ++ ")\n") ++
    Text.concat ((relocate f p.functions).map Function.outline) = _
  rw [map_relocate f fun _ => rfl, map_relocate f (Function.outline_relocate f)]
  rfl

end

/-! ### Moved errors -/

namespace Relocate

instance : Relocate C.Error where
  relocate f
    | .voidVariable name loc => .voidVariable name (f loc)
    | .excessIndirection name declared used loc => .excessIndirection name declared used (f loc)
    | .addressAssignment name loc => .addressAssignment name (f loc)

instance : Relocate CompileError where
  relocate f
    | .parse e => .parse (relocate f e)
    | .c e => .c (relocate f e)
    | .roundTrip expected actual => .roundTrip expected actual

instance : Relocate Compilation := ⟨fun f c => ⟨relocate f c.program, c.cSource⟩⟩

instance {ε α : Type} [Relocate ε] [Relocate α] : Relocate (Except ε α) where
  relocate f
    | .ok a => .ok (relocate f a)
    | .error e => .error (relocate f e)

instance : Relocate Emission := ⟨fun f e => { e with failure := relocate f e.failure }⟩
instance : Relocate Generator := ⟨fun _ g => g⟩

end Relocate

theorem Except.mapError_bind {ε ε' α β : Type} (g : ε → ε') (x : Except ε α)
    (k : α → Except ε β) :
    (x >>= k).mapError g = x.mapError g >>= fun a => (k a).mapError g := by
  cases x <;> rfl

section

variable (f : Location → Location)

/-! ### Expressions in C -/

theorem Value.isCompound_relocate : (t : Value) → (relocate f t).isCompound = t.isCompound
  | .unary _ | .binary .. => rfl
  | .leaf operand _ => operand.isCompound_relocate

theorem Expr.isWrapped_relocate : (t : Expr) → (relocate f t).isWrapped = t.isWrapped
  | .mk [] _ | .mk (.mk (some _) _ _ :: _) _ | .mk (.mk none _ _ :: _ :: _) _ => rfl
  | .mk [.mk none value _] _ => value.isCompound_relocate f

theorem Reference.indirection_relocate (r : Reference) :
    (relocate f r).indirection = r.indirection.mapError (relocate f) := by
  rw [indirection, indirection, show (relocate f r).declared = r.declared from rfl,
    show (relocate f r).usage = r.usage from rfl]
  cases Indirection.ofDepths? r.declared r.usage <;> rfl

theorem Reference.cText_relocate (r : Reference) :
    (relocate f r).cText = r.cText.mapError (relocate f) := by
  rw [cText, cText, Except.mapError_bind, r.indirection_relocate]
  rfl

theorem Reference.cTarget_relocate (r : Reference) :
    (relocate f r).cTarget = r.cTarget.mapError (relocate f) := by
  rw [cTarget, cTarget, Except.mapError_bind, r.indirection_relocate]
  congr 1
  funext i
  cases i <;> rfl

mutual

theorem Factor.cText_relocate : (t : Factor) →
    (relocate f t).cText = t.cText.mapError (relocate f)
  | .const .. | .string .. => rfl
  | .paren inner loc => by
    show (Factor.paren (relocate f inner) (f loc)).cText = _
    rw [Factor.cText, Factor.cText, Except.mapError_bind, inner.cText_relocate,
      inner.isWrapped_relocate]
    rfl
  | .var reference => reference.cText_relocate f
  | .call callee args loc => by
    show (Factor.call (relocate f callee) (Expr.moveAll f args) (f loc)).cText = _
    rw [Factor.cText, Factor.cText, Except.mapError_bind, Expr.cTexts_moveAll args,
      callee.name_relocate]
    rfl

theorem Unary.cText_relocate : (t : Unary) →
    (relocate f t).cText = t.cText.mapError (relocate f)
  | .factor factor => factor.cText_relocate
  | .signed sign operand loc => by
    have hoperand := operand.cText_relocate
    show (Unary.signed sign (relocate f operand) (f loc)).cText = _
    rw [Unary.cText, Unary.cText, Except.mapError_bind, hoperand]
    cases operand <;> rfl

theorem Value.cText_relocate : (t : Value) →
    (relocate f t).cText = t.cText.mapError (relocate f)
  | .unary operand => operand.cText_relocate
  | .leaf operand _ => operand.cText_relocate
  | .binary op left right loc => by
    show (Value.binary op (relocate f left) (relocate f right) (f loc)).cText = _
    rw [Value.cText, Value.cText, Except.mapError_bind, right.cText_relocate]
    congr 1
    funext rightText
    rw [Except.mapError_bind, left.cText_relocate]
    rfl

theorem Slot.cText_relocate : (t : Slot) →
    (relocate f t).cText = t.cText.mapError (relocate f)
  | .mk none value _ => value.cText_relocate
  | .mk (some target) value loc => by
    show (Slot.mk (some (relocate f target)) (relocate f value) (f loc)).cText = _
    rw [Slot.cText, Slot.cText, Except.mapError_bind, value.cText_relocate]
    congr 1
    funext text
    rw [Except.mapError_bind, target.cTarget_relocate]
    rfl

theorem Slot.cTexts_moveAll : (ts : List Slot) →
    Slot.cTexts (Slot.moveAll f ts) = (Slot.cTexts ts).mapError (relocate f)
  | [] => rfl
  | slot :: slots => by
    show Slot.cTexts (relocate f slot :: Slot.moveAll f slots) = _
    rw [Slot.cTexts, Slot.cTexts, Except.mapError_bind, slot.cText_relocate]
    congr 1
    funext text
    rw [Except.mapError_bind, Slot.cTexts_moveAll slots]
    rfl

theorem Expr.cText_relocate : (t : Expr) →
    (relocate f t).cText = t.cText.mapError (relocate f)
  | .mk slots loc => by
    show (Expr.mk (Slot.moveAll f slots) (f loc)).cText = _
    rw [Expr.cText, Expr.cText, Except.mapError_bind, Slot.cTexts_moveAll slots]
    rfl

theorem Expr.cTexts_moveAll : (ts : List Expr) →
    Expr.cTexts (Expr.moveAll f ts) = (Expr.cTexts ts).mapError (relocate f)
  | [] => rfl
  | expr :: exprs => by
    show Expr.cTexts (relocate f expr :: Expr.moveAll f exprs) = _
    rw [Expr.cTexts, Expr.cTexts, Except.mapError_bind, expr.cText_relocate]
    congr 1
    funext text
    rw [Except.mapError_bind, Expr.cTexts_moveAll exprs]
    rfl

end

theorem Factor.cCondition_relocate (t : Factor) :
    (relocate f t).cCondition = t.cCondition.mapError (relocate f) := by
  have htext := t.cText_relocate f
  have hparens : (relocate f t).cText >>= (fun text => pure (inParens text)) =
      (t.cText >>= fun text => pure (inParens text)).mapError (relocate f) := by
    rw [Except.mapError_bind, htext]
    rfl
  cases t with
  | paren inner loc => exact htext
  | _ => exact hparens

/-! ### Statements in C -/

theorem Emission.relocate_andThen (a b : Emission) :
    relocate f (a.andThen b) = (relocate f a).andThen (relocate f b) := by
  obtain ⟨lines, failure⟩ := a
  cases failure <;> rfl

theorem Emission.tryLine_mapError (level : Nat) (text : Except C.Error String) :
    tryLine level (text.mapError (relocate f)) = relocate f (tryLine level text) := by
  cases text <;> rfl

theorem Variable.declaration_relocate (v : Variable) :
    (relocate f v).declaration = v.declaration.mapError (relocate f) := by
  show (if v.type.isVoid then Except.error (C.Error.voidVariable v.name (f v.loc))
    else .ok (v.type.declarator v.name)) = _
  rw [declaration]
  by_cases hvoid : v.type.isVoid = true
  · rw [if_pos hvoid, if_pos hvoid]
    rfl
  · rw [if_neg hvoid, if_neg hvoid]
    rfl

/-- A line that is made of a text which may fail. -/
theorem Emission.tryLine_bind {text text' : Except C.Error String}
    (h : text' = text.mapError (relocate f)) (level : Nat) (k : String → String) :
    tryLine level (text' >>= fun s => pure (k s)) =
      relocate f (tryLine level (text >>= fun s => pure (k s))) := by
  rw [← tryLine_mapError, Except.mapError_bind, h]
  rfl

mutual

theorem Statement.emit_relocate (level : Nat) : (t : Statement) →
    (relocate f t).emit level = relocate f (t.emit level)
  | .branch condition yes [] loc => by
    show (Statement.branch (relocate f condition) (Statement.moveAll f yes) []
      (f loc)).emit level = _
    have hhead := Emission.tryLine_bind f (condition.cCondition_relocate f) level
      fun s => "if " ++ s ++ " \x7b"
    rw [Statement.emit, Statement.emit]
    rw [Emission.relocate_andThen, Emission.relocate_andThen, Emission.relocate_andThen,
      ← Statement.emitAll_moveAll (level + 1) yes, ← hhead]
    rfl
  | .branch condition yes (first :: no) loc => by
    have hno := Statement.emitAll_moveAll (level + 1) (first :: no)
    rw [Statement.moveAll] at hno
    show (Statement.branch (relocate f condition) (Statement.moveAll f yes)
      (first.move f :: Statement.moveAll f no) (f loc)).emit level = _
    have hhead := Emission.tryLine_bind f (condition.cCondition_relocate f) level
      fun s => "if " ++ s ++ " \x7b"
    rw [Statement.emit, Statement.emit]
    rw [Emission.relocate_andThen, Emission.relocate_andThen, Emission.relocate_andThen,
      Emission.relocate_andThen, ← Statement.emitAll_moveAll (level + 1) yes, ← hno, ← hhead]
    rfl
  | .loop condition body loc => by
    show (Statement.loop (relocate f condition) (Statement.moveAll f body) (f loc)).emit level = _
    have hhead := Emission.tryLine_bind f (condition.cCondition_relocate f) level
      fun s => "while " ++ s ++ " \x7b"
    rw [Statement.emit, Statement.emit]
    rw [Emission.relocate_andThen, Emission.relocate_andThen,
      ← Statement.emitAll_moveAll (level + 1) body, ← hhead]
    rfl
  | .declare v _ => Emission.tryLine_bind f (v.declaration_relocate f) level (· ++ ";")
  | .call callee args loc => by
    show Emission.tryLine level (do
      return cCall (relocate f callee).name (← Expr.cTexts (Expr.moveAll f args)) ++ ";") = _
    rw [Expr.cTexts_moveAll, Statement.emit, ← Emission.tryLine_mapError, Except.mapError_bind,
      callee.name_relocate]
    rfl
  | .ret (some value) _ =>
    Emission.tryLine_bind f (value.cText_relocate f) level fun s => "return " ++ s ++ ";"
  | .ret none _ | .brk _ | .cont _ => rfl
  | .assign slot _ => Emission.tryLine_bind f (slot.cText_relocate f) level (· ++ ";")

theorem Statement.emitAll_moveAll (level : Nat) : (ts : List Statement) →
    Statement.emitAll level (Statement.moveAll f ts) = relocate f (Statement.emitAll level ts)
  | [] => rfl
  | statement :: statements => by
    show (Statement.emit level (relocate f statement)).andThen
      (Statement.emitAll level (Statement.moveAll f statements)) = _
    rw [statement.emit_relocate level, Statement.emitAll_moveAll level statements,
      Statement.emitAll, Emission.relocate_andThen]

end

/-! ### Programs in C -/

theorem Function.declarations_relocate (vs : List Variable) :
    declarations (relocate f vs) = (declarations vs).mapError (relocate f) := by
  induction vs with
  | nil => rfl
  | cons v vs ih =>
    rw [Relocate.relocate_cons, declarations, declarations, Except.mapError_bind,
      v.declaration_relocate]
    congr 1
    funext text
    rw [Except.mapError_bind, ih]
    rfl

theorem Function.entryDeclarations_relocate : (vs : List Variable) →
    entryDeclarations (relocate f vs) = (entryDeclarations vs).mapError (relocate f)
  | [] | [_] => rfl
  | count :: strings :: vs => by
    show (declarations (relocate f vs) >>= fun texts =>
      pure (("int " ++ count.name) :: ("char **" ++ strings.name) :: texts)) = _
    rw [entryDeclarations, Except.mapError_bind, declarations_relocate]
    rfl

theorem Function.cParams_relocate (t : Function) :
    (relocate f t).cParams = t.cParams.mapError (relocate f) := by
  have hmoved : (relocate f t).isEntryPoint = t.isEntryPoint := by
    rw [isEntryPoint, t.relocate_eq]
    rfl
  have hparams : (relocate f t).params = relocate f t.params := by rw [t.relocate_eq]
  rw [cParams, cParams, hmoved, hparams]
  cases t.params with
  | nil => rfl
  | cons v vs =>
    show (if t.isEntryPoint = true
      then entryDeclarations (relocate f (v :: vs)) >>= fun texts => pure (Text.joined ", " texts)
      else declarations (relocate f (v :: vs)) >>= fun texts => pure (Text.joined ", " texts)) = _
    rw [entryDeclarations_relocate, declarations_relocate]
    by_cases hmain : t.isEntryPoint = true
    · simp only [if_pos hmain, Except.mapError_bind]
      rfl
    · simp only [if_neg hmain, Except.mapError_bind]
      rfl

theorem Function.signature_relocate (t : Function) :
    (relocate f t).signature = t.signature.mapError (relocate f) := by
  rw [signature, signature, Except.mapError_bind, t.cParams_relocate, t.relocate_eq]
  rfl

namespace Generator

theorem emitList_mapError (level : Nat) (texts : List (Except C.Error String)) :
    emitList level (texts.map (Except.mapError (relocate f))) =
      relocate f (emitList level texts) := by
  induction texts with
  | nil => rfl
  | cons text texts ih =>
    rw [List.map_cons, emitList, emitList, ih, Emission.tryLine_mapError,
      Emission.relocate_andThen]

/-- One line for each of some things, whose texts may fail. -/
theorem emitList_relocate {α : Type} [Relocate α] {write : α → Except C.Error String}
    (h : ∀ a, write (relocate f a) = (write a).mapError (relocate f)) (level : Nat) (as : List α) :
    emitList level ((relocate f as).map fun a => do return (← write a) ++ ";") =
      relocate f (emitList level (as.map fun a => do return (← write a) ++ ";")) := by
  rw [← emitList_mapError, List.map_map]
  congr 1
  induction as with
  | nil => rfl
  | cons a as ih =>
    rw [Relocate.relocate_cons, List.map_cons, List.map_cons, ih, h]
    congr 1
    rw [Function.comp_apply, Except.mapError_bind]
    rfl

theorem globals_relocate (g : Generator) (vs : List Variable) :
    g.globals (relocate f vs) = relocate f (g.globals vs) := by
  cases vs with
  | nil => rfl
  | cons v vs =>
    have hlines := emitList_relocate f (Variable.declaration_relocate f) g.level (v :: vs)
    exact congrArg g.append hlines

theorem prototypes_relocate (g : Generator) (ts : List Function) :
    g.prototypes (relocate f ts) = relocate f (g.prototypes ts) := by
  cases ts with
  | nil => rfl
  | cons t ts =>
    have hlines := emitList_relocate f (Function.signature_relocate f) g.level (t :: ts)
    exact congrArg g.append hlines

theorem function_relocate (g : Generator) (t : Function) :
    g.function (relocate f t) = relocate f (g.function t) := by
  have hbody := Statement.emitAll_moveAll f (g.level + 1) t.body
  rw [Statement.moveAll_eq] at hbody
  have hbody : Statement.emitAll (g.level + 1) (relocate f t).body =
      relocate f (Statement.emitAll (g.level + 1) t.body) := by
    rw [t.relocate_eq]
    exact hbody
  rw [function, function, t.signature_relocate, hbody]
  cases t.signature with
  | error e => rfl
  | ok signature =>
    obtain ⟨lines, failure⟩ := Statement.emitAll (g.level + 1) t.body
    cases failure <;> rfl

theorem laterFunctions_relocate (g : Generator) (ts : List Function) :
    g.laterFunctions (relocate f ts) = relocate f (g.laterFunctions ts) := by
  induction ts generalizing g with
  | nil => rfl
  | cons t ts ih =>
    rw [Relocate.relocate_cons, laterFunctions, laterFunctions, function_relocate]
    rcases (g.write [Line.blank]).function t with ⟨failure, g'⟩
    cases failure with
    | some e => rfl
    | none => exact ih g'

theorem functions_relocate (g : Generator) (ts : List Function) :
    g.functions (relocate f ts) = relocate f (g.functions ts) := by
  cases ts with
  | nil => rfl
  | cons t ts =>
    rw [Relocate.relocate_cons, functions, functions, function_relocate]
    rcases g.function t with ⟨failure, g'⟩
    cases failure with
    | some e => rfl
    | none => exact laterFunctions_relocate f g' ts

theorem program_relocate (g : Generator) (p : Program) :
    g.program (relocate f p) = relocate f (g.program p) := by
  obtain ⟨vs, ts⟩ := p
  rw [program, program, show (relocate f (Program.mk vs ts)).globals = relocate f vs from rfl,
    show (relocate f (Program.mk vs ts)).functions = relocate f ts from rfl, globals_relocate]
  rcases g.preamble.globals vs with ⟨failure, g₁⟩
  cases failure with
  | some e => rfl
  | none =>
    have hprototypes := prototypes_relocate f g₁ ts
    rw [show relocate f ((none : Option C.Error), g₁) = (none, g₁) from rfl]
    dsimp only
    rw [hprototypes]
    rcases g₁.prototypes ts with ⟨failure, g₂⟩
    cases failure with
    | some e => rfl
    | none => exact functions_relocate f g₂ ts

end Generator

theorem Program.cText_relocate (p : Program) :
    (relocate f p).cText = p.cText.mapError (relocate f) := by
  rw [cText, cText, Generator.program_relocate]
  rcases Generator.new.program p with ⟨failure, g⟩
  cases failure <;> rfl

/-! ### Compilations -/

theorem Program.checkRoundTrip_relocate (p : Program) :
    (relocate f p).checkRoundTrip = p.checkRoundTrip := by
  rw [checkRoundTrip, checkRoundTrip, reread, reread, p.text_relocate, p.outline_relocate]

theorem Program.compile_relocate (p : Program) (options : Options) :
    (relocate f p).compile options = relocate f (p.compile options) := by
  have hselected : (relocate f p).selected options = relocate f (p.selected options) := by
    rw [selected, selected, apply_ite (relocate f)]
    rfl
  rw [compile, compile, checkRoundTrip_relocate, checkRoundTrip, hselected, cText_relocate]
  by_cases hcheck : options.roundTrip = true
  · by_cases hsame : p.outline = p.reread
    · simp only [if_pos hcheck, if_pos hsame]
      cases (p.selected options).cText <;> rfl
    · simp only [if_pos hcheck, if_neg hsame]
      rfl
  · simp only [if_neg hcheck]
    cases (p.selected options).cText <;> rfl

end

end Shc
