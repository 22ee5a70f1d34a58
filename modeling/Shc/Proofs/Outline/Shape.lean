import Shc.Outline
import Shc.Proofs.C.BlockScope
import Shc.Proofs.Outline.Nested

/-!
# Outlines are nested lists

The outline of a syntax tree of source text is a writing of a nested list, the shape of
the tree.  A shape has a word at its head that says what kind of tree it is of.  Names,
types and numbers are words: nothing that separates words can occur in them.
-/

namespace Shc

open Nested

/-! ### Words -/

theorem Nested.IsWord.append {text text' : String} (h : IsWord text)
    (h' : ∀ c ∈ text'.toList, classOf c = .letter) : IsWord (text ++ text') := by
  rw [IsWord, String.toList_append]
  refine ⟨fun hnil => h.1 (List.append_eq_nil_iff.1 hnil).1, fun c hc => ?_⟩
  rcases List.mem_append.1 hc with hmem | hmem
  · exact h.2 c hmem
  · exact h' c hmem

/-- Whatever separates words is no part of a name. -/
theorem classOf_of_namePart {c : Char} (h : Lexeme.isNamePart c = true) : classOf c = .letter := by
  have hne : ∀ d, Lexeme.isNamePart d = false → c ≠ d := by
    rintro d hd rfl
    exact absurd h (by simp [hd])
  rw [classOf, if_neg (by simp [hne ' ' (by decide), hne '\n' (by decide)]),
    if_neg (hne '(' (by decide)), if_neg (hne ')' (by decide)), if_neg (hne '\x22' (by decide))]

theorem isWord_of_isName {name : String} (h : Lexeme.IsName name) : IsWord name := by
  rcases h.isWord with ⟨c, tail, hname, hstart, -, htail⟩
  rw [IsWord, hname]
  refine ⟨List.cons_ne_nil c tail, List.forall_mem_cons.2 ⟨?_, fun d hd => ?_⟩⟩
  · exact classOf_of_namePart (Lexeme.isNamePart_of_nameStart hstart)
  · exact classOf_of_namePart (htail d hd)

theorem isWord_decimal (n : Nat) : IsWord (Text.decimal n) := by
  rw [IsWord, Text.decimal, String.toList_ofList]
  refine ⟨Text.digits_ne_nil n, fun c hc => ?_⟩
  exact classOf_of_namePart (Lexeme.isNamePart_of_isDigit (Text.isDigit_digits n c hc))

theorem isWord_decimalInt (n : Int) : IsWord (Text.decimalInt n) := by
  cases n with
  | ofNat n => exact isWord_decimal n
  | negSucc n => exact IsWord.append (by decide) (isWord_decimal (n + 1)).2

theorem isWord_base (b : Base) : IsWord b.text := by
  cases b <;> decide

theorem isWord_type (t : Ty) : IsWord t.text := by
  have hword := isWord_base t.base
  rw [IsWord, Ty.text, Text.row, String.toList_append, String.toList_ofList]
  refine ⟨fun hnil => hword.1 (List.append_eq_nil_iff.1 hnil).2, fun c hc => ?_⟩
  rcases List.mem_append.1 hc with hmem | hmem
  · rw [List.eq_of_mem_replicate hmem]
    decide
  · exact hword.2 c hmem

theorem isWord_operator (op : Operator) : IsWord op.text := by
  cases op <;> decide

theorem isWord_sign (sign : Sign) : IsWord sign.outline := by
  cases sign <;> decide

/-! ### Variables -/

/-- The words that a variable is shown by. -/
def Variable.words (v : Variable) : List Nested :=
  [.word v.name, .word v.type.text]

theorem Variable.lists_outline {v : Variable} (h : Lexeme.IsName v.name) :
    Lists (" " ++ v.outline) v.words := by
  apply ((Lists.word (isWord_of_isName h)).append (Lists.word (isWord_type v.type))).of_eq
  simp only [Variable.outline, String.append_assoc]

/-- The shape of a use of a variable. -/
def Reference.shape (r : Reference) : Nested :=
  .list [.word "var", .word r.name, .word ("declared=" ++ Text.decimal r.declared),
    .word ("usage=" ++ Text.decimal r.usage)]

theorem Lists.labelled (label : String) (hlabel : IsWord label) (n : Nat) :
    Lists (" " ++ label ++ Text.decimal n) [.word (label ++ Text.decimal n)] := by
  rw [String.append_assoc]
  exact .word (hlabel.append (isWord_decimal n).2)

theorem Reference.lists_outline {r : Reference} (h : Lexeme.IsName r.name) :
    Lists r.outline [r.shape] := by
  have hdeclared : Lists (" declared=" ++ Text.decimal r.declared)
      [.word ("declared=" ++ Text.decimal r.declared)] := .labelled "declared=" (by decide) _
  have husage : Lists (" usage=" ++ Text.decimal r.usage)
      [.word ("usage=" ++ Text.decimal r.usage)] := .labelled "usage=" (by decide) _
  have hinner := (Lists.word (isWord_of_isName h)).append (hdeclared.append husage)
  rw [String.append_assoc] at hinner
  apply (hinner.group "(var " "var" (by decide) rfl).of_eq
  simp only [Reference.outline, String.append_assoc]

/-! ### Expressions -/

mutual

/-- The shape of a factor. -/
def Factor.shape : Factor → Nested
  | .const value _ => .list [.word "const", .word (Text.decimalInt value)]
  | .string value _ => .list [.word "str", .quoted value]
  | .paren inner _ => .list [.word "paren", inner.shape]
  | .var reference => reference.shape
  | .call callee args _ => .list (.word "call" :: .word callee.name :: Expr.shapes args)

def Unary.shape : Unary → Nested
  | .factor f => f.shape
  | .signed sign operand _ => .list [.word sign.outline, operand.shape]

def Value.shape : Value → Nested
  | .unary operand => operand.shape
  | .leaf operand _ => operand.shape
  | .binary op left right _ => .list [.word op.text, left.shape, right.shape]

/-- The shape of an expression of source text. -/
def Expr.shape : Expr → Nested
  | .mk [.mk none value _] _ => value.shape
  | _ => .list []

def Expr.shapes : List Expr → List Nested
  | [] => []
  | expr :: exprs => expr.shape :: Expr.shapes exprs

end

theorem lists_callOutline {callee : String} (hcallee : Lexeme.IsName callee)
    {args : List String} {shapes : List Nested}
    (h : Lists (Text.concat (args.map (" " ++ ·))) shapes) :
    Lists (callOutline callee args) [.list (.word "call" :: .word callee :: shapes)] := by
  have hinner := (Lists.word (isWord_of_isName hcallee)).append h
  rw [String.append_assoc] at hinner
  apply (hinner.group "(call " "call" (by decide) rfl).of_eq
  simp only [callOutline, String.append_assoc]

mutual

theorem Factor.lists_outline : (f : Factor) → f.WellFormed → Lists f.outline [f.shape]
  | .const value _, _ =>
    (Lists.word (isWord_decimalInt value)).group "(const " "const" (by decide) rfl
  | .string value _, _ => (Lists.space.append (.quoted value)).group "(str " "str" (by decide) rfl
  | .paren inner _, h =>
    (Lists.space.append (inner.lists_outline h)).group "(paren " "paren" (by decide) rfl
  | .var _, h => Reference.lists_outline h
  | .call _ args _, h => lists_callOutline h.1 (Expr.lists_outlines args h.2)

theorem Unary.lists_outline : (u : Unary) → u.WellFormed → Lists u.outline [u.shape]
  | .factor f, h => f.lists_outline h
  | .signed sign operand _, h =>
    (Lists.space.append (operand.lists_outline h)).group _ sign.outline (isWord_sign sign) rfl

theorem Value.lists_outline : (v : Value) → v.WellFormed → Lists v.outline [v.shape]
  | .unary operand, h => operand.lists_outline h
  | .leaf operand _, h => operand.lists_outline h
  | .binary op left right _, h => by
    have hinner := (Lists.space.append (left.lists_outline h.1)).append
      (Lists.space.append (right.lists_outline h.2))
    rw [String.append_assoc] at hinner
    apply (hinner.group _ op.text (isWord_operator op) rfl).of_eq
    simp only [Value.outline, String.append_assoc]

theorem Expr.lists_outline : (e : Expr) → e.WellFormed → Lists e.outline [e.shape]
  | .mk [.mk none value _] _, h => value.lists_outline h
  | .mk [] _, h | .mk (.mk (some _) _ _ :: _) _, h | .mk (.mk none _ _ :: _ :: _) _, h => h.elim

theorem Expr.lists_outlines : (es : List Expr) → Expr.AllWellFormed es →
    Lists (Text.concat ((Expr.outlines es).map (" " ++ ·))) (Expr.shapes es)
  | [], _ => .nil
  | e :: es, h => (Lists.space.append (e.lists_outline h.1)).append (Expr.lists_outlines es h.2)

end

/-! ### Statements -/

/-- The shapes of the target of a slot and of its value. -/
def Slot.shapes : Slot → List Nested
  | .mk target value _ => (target.map Reference.shape).toList ++ [value.shape]

mutual

/-- The shape of a statement of source text. -/
def Statement.shape : Statement → Nested
  | .branch condition yes no _ => .list [.word "if", condition.shape,
      .list (.word "then" :: Statement.shapes yes), .list (.word "else" :: Statement.shapes no)]
  | .loop condition body _ => .list (.word "while" :: condition.shape :: Statement.shapes body)
  | .declare v _ => .list (.word "decl" :: v.words)
  | .call callee args _ => .list (.word "call" :: .word callee.name :: Expr.shapes args)
  | .ret value _ => .list (.word "return" :: (value.map Expr.shape).toList)
  | .brk _ => .list [.word "break"]
  | .cont _ => .list [.word "continue"]
  | .assign slot _ => .list (.word "assign" :: slot.shapes)

def Statement.shapes : List Statement → List Nested
  | [] => []
  | statement :: statements => statement.shape :: Statement.shapes statements

end

theorem Lists.outlineLine {text : String} {items : List Nested} (h : Lists text items)
    (level : Nat) : Lists (outlineLine level text) items :=
  (Lists.lineEnd.append (.row (2 * level))).append h

mutual

theorem Statement.lists_outline (level : Nat) : (s : Statement) → s.WellFormed →
    Lists (s.outline level) [s.shape]
  | .branch condition yes no _, h => by
    have hyes : Lists ("(then" ++ Statement.outlines (level + 2) yes ++ ")")
        [.list (.word "then" :: Statement.shapes yes)] :=
      (Statement.lists_outlines (level + 2) yes h.2.1).list "(then" "then" (by decide) rfl
    have hno : Lists ("(else" ++ Statement.outlines (level + 2) no ++ ")")
        [.list (.word "else" :: Statement.shapes no)] :=
      (Statement.lists_outlines (level + 2) no h.2.2).list "(else" "else" (by decide) rfl
    have hinner := (Lists.space.append (condition.lists_outline h.1)).append
      ((hyes.outlineLine (level + 1)).append (hno.outlineLine (level + 1)))
    rw [String.append_assoc] at hinner
    apply ((hinner.group "(if " "if" (by decide) rfl).outlineLine level).of_eq
    have hclose : "))" = ")" ++ ")" := rfl
    rw [Statement.outline, hclose]
    simp only [outlineLine, String.append_assoc]
  | .loop condition body _, h => by
    have hinner := (Lists.space.append (condition.lists_outline h.1)).append
      (Statement.lists_outlines (level + 1) body h.2)
    rw [String.append_assoc] at hinner
    apply ((hinner.group "(while " "while" (by decide) rfl).outlineLine level).of_eq
    simp only [Statement.outline, outlineLine, String.append_assoc]
  | .declare v _, h =>
    ((Variable.lists_outline h).group "(decl " "decl" (by decide) rfl).outlineLine level
  | .call _ args _, h => (lists_callOutline h.1 (Expr.lists_outlines args h.2)).outlineLine level
  | .ret (some value) _, h =>
    ((Lists.space.append (value.lists_outline h)).group "(return " "return" (by decide)
      rfl).outlineLine level
  | .ret none _, _ => (Lists.nil.list "(return" "return" (by decide) rfl).outlineLine level
  | .brk _, _ => (Lists.nil.list "(break" "break" (by decide) rfl).outlineLine level
  | .cont _, _ => (Lists.nil.list "(continue" "continue" (by decide) rfl).outlineLine level
  | .assign (.mk (some target) value _) _, h => by
    have hinner := (Lists.space.append (Reference.lists_outline h.1)).append
      (Lists.space.append (value.lists_outline h.2))
    rw [String.append_assoc] at hinner
    apply ((hinner.group "(assign " "assign" (by decide) rfl).outlineLine level).of_eq
    simp only [Statement.outline, Slot.outline, String.append_assoc]
  | .assign (.mk none _ _) _, h => h.elim

theorem Statement.lists_outlines (level : Nat) : (ss : List Statement) →
    Statement.AllWellFormed ss → Lists (Statement.outlines level ss) (Statement.shapes ss)
  | [], _ => .nil
  | s :: ss, h => (s.lists_outline level h.1).append (Statement.lists_outlines level ss h.2)

end

/-! ### Functions and programs -/

/-- The shape of a function. -/
def Function.shape (f : Function) : Nested :=
  .list [.word "fun", .word f.name, .list [.word "returns", .word f.returns.text],
    .list (.word "params" :: f.params.map fun v => .list v.words),
    .list (.word "locals" :: f.locals.map fun v => .list v.words),
    .list (.word "body" :: Statement.shapes f.body)]

/-- The shapes of what stands at the top level: the globals, then the functions. -/
def Program.shapes (p : Program) : List Nested :=
  p.globals.map (fun v => .list (.word "global" :: v.words)) ++ p.functions.map Function.shape

theorem lists_variablesOutline (heading : String) (hheading : IsWord heading)
    {vs : List Variable} (h : ∀ v ∈ vs, Lexeme.IsName v.name) :
    Lists (variablesOutline heading vs)
      [.list (.word heading :: vs.map fun v => .list v.words)] := by
  apply Lists.list _ heading hheading rfl
  apply Lists.concat
  intro v hv
  have hentry := (Lists.word (isWord_type v.type)).list _ v.name (isWord_of_isName (h v hv)) rfl
  apply (Lists.space.append hentry).of_eq
  have hopen : " (" = " " ++ "(" := rfl
  simp only [Variable.outline, hopen, String.append_assoc]

theorem Function.lists_outline {f : Function} (hname : Lexeme.IsName f.name)
    (hparams : ∀ v ∈ f.params, Lexeme.IsName v.name)
    (hlocals : ∀ v ∈ f.locals, Lexeme.IsName v.name) (hbody : Statement.AllWellFormed f.body) :
    Lists f.outline [f.shape] := by
  have hreturns : Lists (" (returns " ++ f.returns.text ++ ")")
      [.list [.word "returns", .word f.returns.text]] := by
    have hgroup := (Lists.word (isWord_type f.returns)).group "(returns " "returns" (by decide) rfl
    apply (Lists.space.append hgroup).of_eq
    rw [← String.append_assoc, ← String.append_assoc]
    rfl
  have hlines : Lists ("(body" ++ Statement.outlines 2 f.body ++ ")")
      [.list (.word "body" :: Statement.shapes f.body)] :=
    (Statement.lists_outlines 2 f.body hbody).list "(body" "body" (by decide) rfl
  have hinner := (Lists.word (isWord_of_isName hname)).append (hreturns.append
    (((lists_variablesOutline "params" (by decide) hparams).outlineLine 1).append
      (((lists_variablesOutline "locals" (by decide) hlocals).outlineLine 1).append
        (hlines.outlineLine 1))))
  rw [String.append_assoc] at hinner
  apply ((hinner.group "(fun " "fun" (by decide) rfl).append .lineEnd).of_eq
  have hclose : ")" ++ (")" ++ "\n") = "))\n" := rfl
  -- Lean takes long to derive the equation of this definition.
  delta Function.outline
  rw [← hclose]
  simp only [outlineLine, String.append_assoc]

theorem Program.lists_outline {p : Program} (hglobals : ∀ v ∈ p.globals, Lexeme.IsName v.name)
    (hfunctions : ∀ f ∈ p.functions, Lists f.outline [f.shape]) : Lists p.outline p.shapes := by
  refine Lists.append (Lists.concat fun v hv => ?_) (Lists.concat hfunctions)
  have hglobal : Lists ("(global " ++ v.outline ++ ")") [.list (.word "global" :: v.words)] :=
    (Variable.lists_outline (hglobals v hv)).group "(global " "global" (by decide) rfl
  apply (hglobal.append .lineEnd).of_eq
  have hclose : ")\n" = ")" ++ "\n" := rfl
  simp only [hclose, String.append_assoc]

end Shc
