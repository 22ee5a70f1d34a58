import Shc.C.Expr
import Shc.Proofs.C.Reader

/-!
# Expressions and their C text

The tree that an expression stands for in C: parentheses leave no trace, and a use of
a variable becomes as many dereferences as the markers leave open, or an address.  An
expression as source text gives it, if it has a C text at all, has one that C reads as
this tree.

The text of a factor, of a signed operand and of a value is always an operand in C: a
word, a constant or a call with operators in front, or something in parentheses.
-/

namespace Shc

/-! ### Trees -/

def C.Tree.derefs : Nat → C.Tree → C.Tree
  | 0, tree => tree
  | n + 1, tree => .unary .deref (derefs n tree)

def Sign.cOp : Sign → C.UnaryOp
  | plus => .plus
  | minus => .minus

/-- A use of a variable of depth `D` with `U` markers: `D - U` dereferences if there are
    no more markers than levels, the address if there is one more. -/
def Reference.cTree (r : Reference) : Option C.Tree :=
  if r.usage ≤ r.declared then some (.derefs (r.declared - r.usage) (.word r.name))
  else if r.usage = r.declared + 1 then some (.unary .address (.word r.name))
  else none

mutual

/-- The tree of a factor; constants below zero have none. -/
def Factor.cTree : Factor → Option C.Tree
  | .const (.ofNat n) _ => some (.number n)
  | .const (.negSucc _) _ => none
  | .string value _ => some (.string value)
  | .paren inner _ => inner.cTree
  | .var reference => reference.cTree
  | .call callee args _ => (Expr.cTrees args).map (.call (.word callee.name))

def Unary.cTree : Unary → Option C.Tree
  | .factor f => f.cTree
  | .signed sign operand _ => operand.cTree.map (.unary sign.cOp)

def Value.cTree : Value → Option C.Tree
  | .unary operand => operand.cTree
  | .leaf operand _ => operand.cTree
  | .binary op left right _ => do return .binary op (← left.cTree) (← right.cTree)

/-- The tree of an expression; it has to be one plain value. -/
def Expr.cTree : Expr → Option C.Tree
  | .mk [.mk none value _] _ => value.cTree
  | _ => none

def Expr.cTrees : List Expr → Option (List C.Tree)
  | [] => some []
  | expr :: exprs => do return (← expr.cTree) :: (← Expr.cTrees exprs)

end

/-! ### Expressions of source text -/

mutual

/-- A factor as source text gives it. -/
def Factor.WellFormed : Factor → Prop
  | .const value _ => 0 ≤ value
  | .string .. => True
  | .paren inner _ => inner.WellFormed
  | .var reference => Lexeme.IsName reference.name
  | .call callee args _ => Lexeme.IsName callee.name ∧ Expr.AllWellFormed args

def Unary.WellFormed : Unary → Prop
  | .factor f => f.WellFormed
  | .signed _ operand _ => operand.WellFormed

def Value.WellFormed : Value → Prop
  | .unary operand => operand.WellFormed
  | .leaf operand _ => operand.WellFormed
  | .binary _ left right _ => left.WellFormed ∧ right.WellFormed

/-- An expression as source text gives it: one plain value. -/
def Expr.WellFormed : Expr → Prop
  | .mk [.mk none value _] _ => value.WellFormed
  | _ => False

def Expr.AllWellFormed : List Expr → Prop
  | [] => True
  | expr :: exprs => expr.WellFormed ∧ Expr.AllWellFormed exprs

end

/-! ### Texts of trees -/

theorem except_bind_eq_ok {ε α β : Type} {x : Except ε α} {f : α → Except ε β} {b : β} :
    (x >>= f) = .ok b ↔ ∃ a, x = .ok a ∧ f a = .ok b := by
  cases x with
  | error e => simp [bind, Except.bind]
  | ok a => simp [bind, Except.bind]

namespace C

/-- The text is an operand in C, which stands for the tree. -/
def Written (text : String) (tree : Tree) : Prop :=
  ∃ ts, Spells Separated text ts ∧ Reads tree ts

/-- There is a tree, and the text is an operand that stands for it. -/
def Renders (tree : Option Tree) (text : String) : Prop :=
  ∃ t, tree = some t ∧ Written text t

/-- The text can stand behind a sign. -/
abbrev TakesSign : String → Prop :=
  StartsIn fun c => c ∉ ['+', '-', '=', '>']

theorem Written.read {text : String} {tree : Tree} (h : Written text tree) :
    C.read text = some tree := by
  obtain ⟨ts, hspells, hreads⟩ := h
  exact read_of_readsWhole hspells headIn_nil hreads.whole

theorem written_inParens {text : String} {tree : Tree} {ts : List Token}
    (hspells : Spells Separated text ts) (hreads : ReadsWhole tree ts) :
    Written (inParens text) tree := by
  refine ⟨_, ?_, reads_parens hreads⟩
  have hopen := spells_lparen.append_any hspells
  exact (hopen.append_starts spells_rparen (by decide)).weaken

theorem takesSign_inParens (text : String) : TakesSign (inParens text) := by
  have hparen : TakesSign "(" := by decide
  rw [inParens, String.append_assoc]
  exact hparen.append _

theorem Written.inParens {text : String} {tree : Tree} (h : Written text tree) :
    Written (inParens text) tree := by
  obtain ⟨ts, hspells, hreads⟩ := h
  exact written_inParens hspells hreads.whole

theorem spells_binary {left right : String} {ts us : List Token} (op : Operator)
    (hleft : Spells Separated left ts) (hright : Spells Separated right us) :
    Spells Separated (left ++ " " ++ op.text ++ " " ++ right) (ts ++ .punct op.text :: us) := by
  have hop := (spells_operator op).append spells_space fun _ _ => rfl
  have hspaced := spells_space.append_any (hop.append_any hright)
  have hspace : StartsIn isSeparator " " := by decide
  have hall := hleft.append_starts hspaced (hspace.append _)
  refine hall.of_eq ?_ rfl
  simp [String.append_assoc]

theorem written_binary {left right : String} {tree tree' : Tree} (op : Operator)
    (hleft : Written left tree) (hright : Written right tree') :
    Written (Shc.inParens (left ++ " " ++ op.text ++ " " ++ right)) (.binary op tree tree') := by
  obtain ⟨ts, hleft, htree⟩ := hleft
  obtain ⟨us, hright, htree'⟩ := hright
  exact written_inParens (spells_binary op hleft hright) (readsWhole_binary op htree htree')

theorem written_signed {text : String} {tree : Tree} (sign : Sign) (h : Written text tree)
    (hstarts : TakesSign text) : Written (sign.text ++ text) (.unary sign.cOp tree) := by
  obtain ⟨ts, hspells, hreads⟩ := h
  have hop : sign.text = sign.cOp.text := by cases sign <;> rfl
  refine ⟨.punct sign.text :: ts, (spells_sign sign).append_starts hspells hstarts, ?_⟩
  rw [hop]
  exact reads_unary _ hreads

/-! Words -/

theorem notMem_of_class {p : Char → Bool} {c : Char} {cs : List Char} (hc : p c = true)
    (hcs : cs.all (fun d => !p d) = true) : c ∉ cs := by
  intro hmem
  have hnot := List.all_eq_true.1 hcs c hmem
  rw [hc] at hnot
  exact absurd hnot (by decide)

theorem startsIn_of_isWord {p : Char → Bool} {name : String} (h : Lexeme.IsWord name.toList)
    (hp : ∀ c, Lexeme.isNameStart c = true → p c = true) : StartsIn p name := by
  obtain ⟨c, tail, hname, hc, -, -⟩ := h
  simp [StartsIn, hname, hp c hc]

theorem takesSign_of_isWord {name : String} (h : Lexeme.IsWord name.toList) : TakesSign name := by
  refine startsIn_of_isWord h fun c hc => ?_
  rw [decide_eq_true_eq]
  exact notMem_of_class hc (by decide)

theorem takesSign_decimal (n : Nat) : TakesSign (Text.decimal n) := by
  have hdigits := Text.isDigit_digits n
  cases hcs : Text.digits 10 n with
  | nil => exact absurd hcs (Text.digits_ne_nil n)
  | cons c cs =>
    have hc : c.isDigit = true := hdigits c (by simp [hcs])
    have hne : c ∉ ['+', '-', '=', '>'] := notMem_of_class hc (by decide)
    simpa [StartsIn, Text.decimal, hcs] using hne

def stars (n : Nat) : List Token :=
  List.replicate n (.punct "*")

theorem spells_derefs {name : String} (h : Lexeme.IsWord name.toList) (n : Nat) :
    Spells Separated (Text.row '*' n ++ name) (stars n ++ [.word name]) ∧
      TakesSign (Text.row '*' n ++ name) := by
  induction n with
  | zero => exact ⟨spells_word h, takesSign_of_isWord h⟩
  | succ n ih =>
    obtain ⟨hspells, hstarts⟩ := ih
    have hstar : TakesSign "*" := by decide
    rw [Text.row_succ, String.append_assoc]
    refine ⟨?_, hstar.append _⟩
    refine spells_star.append_starts hspells (hstarts.mono fun c hc => ?_)
    rw [decide_eq_true_eq] at hc ⊢
    rintro rfl
    exact hc (by decide)

theorem reads_derefs (name : String) (n : Nat) :
    Reads (.derefs n (.word name)) (stars n ++ [.word name]) := by
  induction n with
  | zero => exact reads_atom rfl fun _ _ => rfl
  | succ n ih => exact reads_unary .deref ih

theorem written_derefs {name : String} (h : Lexeme.IsWord name.toList) (n : Nat) :
    Written (Text.row '*' n ++ name) (.derefs n (.word name)) ∧
      TakesSign (Text.row '*' n ++ name) :=
  ⟨⟨_, (spells_derefs h n).1, reads_derefs name n⟩, (spells_derefs h n).2⟩

theorem written_address {name : String} (h : Lexeme.IsWord name.toList) :
    Written ("&" ++ name) (.unary .address (.word name)) ∧ TakesSign ("&" ++ name) := by
  have hamp : TakesSign "&" := by decide
  have hstarts : StartsIn (fun c => c ∉ ['&', '=']) name := by
    refine startsIn_of_isWord h fun c hc => ?_
    rw [decide_eq_true_eq]
    exact notMem_of_class hc (by decide)
  refine ⟨⟨[.punct "&", .word name], spells_ampersand.append_starts (spells_word h) hstarts, ?_⟩,
    hamp.append _⟩
  exact reads_unary .address (reads_atom rfl fun _ _ => rfl)

/-! Calls -/

theorem spells_joined {texts : List String} {tss : List (List Token)}
    (h : List.Forall₂ (Spells Separated) texts tss) :
    Spells Separated (Text.joined ", " texts) (separated tss) := by
  induction h with
  | nil => exact Adds.nil
  | @cons text ts texts tss hfirst hrest ih =>
    cases hrest with
    | nil => exact hfirst
    | @cons text' ts' texts tss hsecond hrest =>
      have hcomma : Spells Anything ", " [.punct ","] := spells_comma.append_any spells_space
      have hstarts : StartsIn isSeparator ", " := by decide
      have hall := (hfirst.append_starts hcomma hstarts).append_any ih
      rw [List.append_assoc] at hall
      exact hall

theorem spells_call {name : String} {texts : List String} {tss : List (List Token)}
    (hname : Lexeme.IsWord name.toList) (htexts : List.Forall₂ (Spells Separated) texts tss) :
    Spells Anything (cCall name texts)
      (.word name :: .punct "(" :: (separated tss ++ [.punct ")"])) := by
  have hparens := (spells_lparen.append_any (spells_joined htexts)).append_starts spells_rparen
    (by decide)
  have hparen : StartsIn isSeparator "(" := by decide
  have hall := (spells_word hname).append_starts hparens (by
    rw [String.append_assoc]
    exact hparen.append _)
  exact hall

theorem written_call {name : String} {texts : List String} {trees : List Tree}
    {tss : List (List Token)} (hname : Lexeme.IsWord name.toList)
    (htexts : List.Forall₂ (Spells Separated) texts tss)
    (htrees : List.Forall₂ ReadsWhole trees tss) :
    Written (cCall name texts) (.call (.word name) trees) :=
  ⟨_, (spells_call hname htexts).weaken, reads_call htrees⟩

end C

/-! ### Texts of expressions -/

theorem Reference.written {r : Reference} (hname : Lexeme.IsName r.name) {text : String}
    (htext : r.cText = .ok text) :
    C.Renders r.cTree text ∧ C.TakesSign text := by
  obtain ⟨i, hi, htext⟩ := except_bind_eq_ok.1 htext
  obtain rfl := Except.ok.inj htext
  unfold Reference.indirection Indirection.ofDepths? at hi
  by_cases hle : r.usage ≤ r.declared
  · rw [if_pos hle] at hi
    obtain rfl := Except.ok.inj hi
    obtain ⟨hwritten, hstarts⟩ := C.written_derefs hname.isWord (r.declared - r.usage)
    exact ⟨⟨_, if_pos hle, hwritten⟩, hstarts⟩
  · rw [if_neg hle] at hi
    by_cases heq : r.usage = r.declared + 1
    · rw [if_pos heq] at hi
      obtain rfl := Except.ok.inj hi
      obtain ⟨hwritten, hstarts⟩ := C.written_address hname.isWord
      exact ⟨⟨_, by rw [cTree, if_neg hle, if_pos heq], hwritten⟩, hstarts⟩
    · rw [if_neg heq] at hi
      exact absurd hi (by simp)

mutual

theorem Factor.written : (f : Factor) → f.WellFormed → {text : String} → f.cText = .ok text →
    C.Renders f.cTree text ∧ C.TakesSign text
  | .const (.ofNat n) _, _, _, htext => by
    obtain rfl := Except.ok.inj htext
    have hwritten : C.Written (Text.decimal n) (.number n) :=
      ⟨_, C.spells_decimal n, C.reads_atom rfl fun _ _ => rfl⟩
    exact ⟨⟨_, rfl, hwritten⟩, C.takesSign_decimal n⟩
  | .const (.negSucc n) _, h, _, _ => absurd h (by simp [Factor.WellFormed])
  | .string value _, _, _, htext => by
    obtain rfl := Except.ok.inj htext
    have hquote : C.TakesSign "\"" := by decide
    have hwritten : C.Written (C.stringLiteral value) (.string value) :=
      ⟨_, (C.spells_string value).weaken, C.reads_atom rfl fun _ _ => rfl⟩
    refine ⟨⟨_, rfl, hwritten⟩, ?_⟩
    rw [C.stringLiteral, String.append_assoc]
    exact hquote.append _
  | .paren inner _, h, _, htext => by
    obtain ⟨innerText, hinner, htext⟩ := except_bind_eq_ok.1 htext
    obtain ⟨⟨tree, htree, hwritten⟩, hstarts⟩ := inner.written h hinner
    obtain rfl := Except.ok.inj htext
    by_cases hwrapped : inner.isWrapped = true
    · rw [if_pos hwrapped]
      exact ⟨⟨tree, htree, hwritten⟩, hstarts hwrapped⟩
    · rw [if_neg hwrapped]
      exact ⟨⟨tree, htree, hwritten.inParens⟩, C.takesSign_inParens _⟩
  | .var reference, h, _, htext => reference.written h htext
  | .call callee args _, h, _, htext => by
    obtain ⟨hcallee, hargs⟩ := h
    obtain ⟨texts, htexts, htext⟩ := except_bind_eq_ok.1 htext
    obtain rfl := Except.ok.inj htext
    obtain ⟨trees, tss, htrees, hspells, hreads⟩ := Expr.allWritten args hargs htexts
    refine ⟨⟨_, ?_, C.written_call hcallee.isWord hspells hreads⟩, ?_⟩
    · rw [Factor.cTree, htrees, Option.map_some]
    · exact (C.takesSign_of_isWord hcallee.isWord).append _

theorem Unary.written : (u : Unary) → u.WellFormed → {text : String} → u.cText = .ok text →
    C.Renders u.cTree text
  | .factor f, h, _, htext => (f.written h htext).1
  | .signed sign (.factor f) _, h, _, htext => by
    obtain ⟨text, hf, htext⟩ := except_bind_eq_ok.1 htext
    obtain rfl := Except.ok.inj htext
    obtain ⟨⟨tree, htree, hwritten⟩, hstarts⟩ := f.written h hf
    refine ⟨.unary sign.cOp tree, ?_, C.written_signed sign hwritten hstarts⟩
    rw [Unary.cTree, Unary.cTree, htree, Option.map_some]
  | .signed sign (.signed sign' operand loc) _, h, _, htext => by
    obtain ⟨text, hoperand, htext⟩ := except_bind_eq_ok.1 htext
    obtain rfl := Except.ok.inj htext
    obtain ⟨tree, htree, hwritten⟩ := Unary.written (.signed sign' operand loc) h hoperand
    refine ⟨.unary sign.cOp tree, ?_,
      C.written_signed sign hwritten.inParens (C.takesSign_inParens _)⟩
    rw [Unary.cTree, htree, Option.map_some]

theorem Value.written : (v : Value) → v.WellFormed → {text : String} → v.cText = .ok text →
    C.Renders v.cTree text ∧ (v.isCompound = true → C.TakesSign text)
  | .unary operand, h, _, htext => by
    refine ⟨operand.written h htext, fun hcompound => ?_⟩
    exact absurd hcompound (by simp [Value.isCompound])
  | .leaf operand _, h, _, htext => operand.written h htext
  | .binary op left right _, h, _, htext => by
    obtain ⟨hleft, hright⟩ := h
    obtain ⟨rightText, hrightText, htext⟩ := except_bind_eq_ok.1 htext
    obtain ⟨leftText, hleftText, htext⟩ := except_bind_eq_ok.1 htext
    obtain rfl := Except.ok.inj htext
    obtain ⟨⟨tree, htree, hwritten⟩, -⟩ := left.written hleft hleftText
    obtain ⟨⟨tree', htree', hwritten'⟩, -⟩ := right.written hright hrightText
    refine ⟨⟨_, ?_, C.written_binary op hwritten hwritten'⟩, ?_⟩
    · rw [Value.cTree, htree, htree']
      rfl
    · exact fun _ => C.takesSign_inParens _

theorem Expr.written : (e : Expr) → e.WellFormed → {text : String} → e.cText = .ok text →
    C.Renders e.cTree text ∧ (e.isWrapped = true → C.TakesSign text)
  | .mk [.mk none value _] _, h, text, htext => by
    obtain ⟨texts, htexts, htext⟩ := except_bind_eq_ok.1 htext
    obtain ⟨valueText, hvalue, htexts⟩ := except_bind_eq_ok.1 htexts
    obtain rfl := Except.ok.inj htexts
    obtain rfl := Except.ok.inj htext
    exact value.written h hvalue
  | .mk [] _, h, _, _ | .mk (.mk (some _) _ _ :: _) _, h, _, _
  | .mk (.mk none _ _ :: _ :: _) _, h, _, _ => h.elim

theorem Expr.allWritten : (es : List Expr) → Expr.AllWellFormed es → {texts : List String} →
    Expr.cTexts es = .ok texts →
    ∃ trees tss, Expr.cTrees es = some trees ∧ List.Forall₂ (C.Spells C.Separated) texts tss ∧
      List.Forall₂ C.ReadsWhole trees tss
  | [], _, _, htexts => by
    obtain rfl := Except.ok.inj htexts
    exact ⟨[], [], rfl, .nil, .nil⟩
  | e :: es, h, _, htexts => by
    obtain ⟨he, hes⟩ := h
    obtain ⟨text, htext, htexts⟩ := except_bind_eq_ok.1 htexts
    obtain ⟨texts, hmore, htexts⟩ := except_bind_eq_ok.1 htexts
    obtain rfl := Except.ok.inj htexts
    obtain ⟨⟨tree, htree, ts, hspells, hreads⟩, -⟩ := e.written he htext
    obtain ⟨trees, tss, htrees, hallSpells, hallReads⟩ := Expr.allWritten es hes hmore
    refine ⟨tree :: trees, ts :: tss, ?_, .cons hspells hallSpells, .cons hreads.whole hallReads⟩
    rw [Expr.cTrees, htree, htrees]
    rfl

end

end Shc
