import Shc.C.Generator
import Shc.Proofs.C.Program

/-!
# C texts and their pieces

Names, numbers, operators and strings are the pieces of a C text, and larger texts are made
of smaller ones in two ways only: one is written behind the other, or one is put in
parentheses.  A property of texts that the pieces have and that these steps keep holds of
everything that is written for an expression, a declaration or a signature.
-/

namespace Shc

namespace C

/-- The characters that neither end a line nor belong to a string or to parentheses. -/
def isOrdinary (c : Char) : Bool :=
  c ∉ ['\n', '\r', '\x22', '(', ')']

theorem isOrdinary_of_namePart {c : Char} (h : Lexeme.isNamePart c = true) :
    isOrdinary c = true := by
  rw [isOrdinary, decide_eq_true_eq]
  exact notMem_of_class h (by decide)

/-- A property of texts that the pieces have and that is kept where texts are put together. -/
structure Assembles (P : String → Prop) : Prop where
  ordinary {text : String} : text.toList.all isOrdinary = true → P text
  string (value : String) : P (stringLiteral value)
  append {a b : String} : P a → P b → P (a ++ b)
  inParens {a : String} : P a → P (inParens a)

end C

open C (Assembles)

variable {P : String → Prop} {text : String}

namespace C.Assembles

theorem name (hP : Assembles P) {name : String} (h : Lexeme.IsName name) : P name := by
  rcases h.isWord with ⟨c, tail, hname, hstart, -, htail⟩
  apply hP.ordinary
  rw [hname, List.all_eq_true]
  refine List.forall_mem_cons.2 ⟨?_, fun d hd => isOrdinary_of_namePart (htail d hd)⟩
  exact isOrdinary_of_namePart (Lexeme.isNamePart_of_nameStart hstart)

theorem decimal (hP : Assembles P) (n : Nat) : P (Text.decimal n) := by
  apply hP.ordinary
  rw [Text.decimal, String.toList_ofList, List.all_eq_true]
  intro c hc
  exact isOrdinary_of_namePart (Lexeme.isNamePart_of_isDigit (Text.isDigit_digits n c hc))

theorem decimalInt (hP : Assembles P) (n : Int) : P (Text.decimalInt n) := by
  cases n with
  | ofNat n => exact hP.decimal n
  | negSucc n => exact hP.append (hP.ordinary (by decide)) (hP.decimal (n + 1))

theorem stars (hP : Assembles P) (n : Nat) : P (Text.row '*' n) := by
  apply hP.ordinary
  rw [Text.row, String.toList_ofList, List.all_eq_true]
  intro c hc
  rw [List.eq_of_mem_replicate hc]
  rfl

theorem joined (hP : Assembles P) {texts : List String} (h : ∀ text ∈ texts, P text) :
    P (Text.joined ", " texts) := by
  fun_induction Text.joined ", " texts with
  | case1 => exact hP.ordinary (by decide)
  | case2 text => exact h text List.mem_cons_self
  | case3 text texts _ ih =>
    rw [List.forall_mem_cons] at h
    exact hP.append (hP.append h.1 (hP.ordinary (by decide))) (ih h.2)

theorem call (hP : Assembles P) {callee : String} (hcallee : Lexeme.IsName callee)
    {args : List String} (hargs : ∀ text ∈ args, P text) : P (cCall callee args) :=
  hP.append (hP.name hcallee) (hP.inParens (hP.joined hargs))

theorem sign (hP : Assembles P) (sign : Sign) : P sign.text := by
  cases sign <;> exact hP.ordinary (by decide)

theorem binary (hP : Assembles P) (op : Operator) {left right : String} (hleft : P left)
    (hright : P right) : P (left ++ " " ++ op.text ++ " " ++ right) := by
  have hop : P op.text := by cases op <;> exact hP.ordinary (by decide)
  have hspace : P " " := hP.ordinary (by decide)
  exact hP.append (hP.append (hP.append (hP.append hleft hspace) hop) hspace) hright

end C.Assembles

/-! ### Expressions -/

namespace Reference

variable {r : Reference}

theorem assembled_indirection (hP : Assembles P) (i : Indirection) : P i.text := by
  cases i with
  | deref count => exact hP.stars count
  | addressOf => exact hP.ordinary (by decide)

theorem assembled_cText (hP : Assembles P) (hname : Lexeme.IsName r.name)
    (h : r.cText = .ok text) : P text := by
  rcases except_bind_eq_ok.1 h with ⟨i, -, htext⟩
  cases htext
  exact hP.append (assembled_indirection hP i) (hP.name hname)

theorem assembled_cTarget (hP : Assembles P) (hname : Lexeme.IsName r.name)
    (h : r.cTarget = .ok text) : P text :=
  assembled_cText hP hname (cText_of_cTarget h)

end Reference

mutual

theorem Factor.assembled_cText (hP : Assembles P) : (f : Factor) → f.WellFormed →
    {text : String} → f.cText = .ok text → P text
  | .const value _, _, _, h => by
    cases h
    exact hP.decimalInt value
  | .string value _, _, _, h => by
    cases h
    exact hP.string value
  | .paren inner _, hwell, _, h => by
    rcases except_bind_eq_ok.1 h with ⟨text, hinner, htext⟩
    have hheld := Expr.assembled_cText hP inner hwell hinner
    cases htext
    split
    · exact hheld
    · exact hP.inParens hheld
  | .var reference, hwell, _, h => reference.assembled_cText hP hwell h
  | .call callee args _, hwell, _, h => by
    rcases except_bind_eq_ok.1 h with ⟨texts, hargs, htext⟩
    cases htext
    exact hP.call hwell.1 (Expr.assembled_cTexts hP args hwell.2 hargs)

theorem Unary.assembled_cText (hP : Assembles P) : (u : Unary) → u.WellFormed →
    {text : String} → u.cText = .ok text → P text
  | .factor f, hwell, _, h => Factor.assembled_cText hP f hwell h
  | .signed sign operand _, hwell, _, h => by
    rcases except_bind_eq_ok.1 h with ⟨text, hoperand, htext⟩
    have hheld := Unary.assembled_cText hP operand hwell hoperand
    cases operand with
    | factor f =>
      cases htext
      exact hP.append (hP.sign sign) hheld
    | signed sign' operand loc =>
      cases htext
      exact hP.append (hP.sign sign) (hP.inParens hheld)

theorem Value.assembled_cText (hP : Assembles P) : (v : Value) → v.WellFormed →
    {text : String} → v.cText = .ok text → P text
  | .unary operand, hwell, _, h => Unary.assembled_cText hP operand hwell h
  | .leaf operand _, hwell, _, h => Value.assembled_cText hP operand hwell h
  | .binary op left right _, hwell, _, h => by
    rcases except_bind_eq_ok.1 h with ⟨rightText, hright, h⟩
    rcases except_bind_eq_ok.1 h with ⟨leftText, hleft, htext⟩
    have hleftHeld := Value.assembled_cText hP left hwell.1 hleft
    have hrightHeld := Value.assembled_cText hP right hwell.2 hright
    cases htext
    exact hP.inParens (hP.binary op hleftHeld hrightHeld)

theorem Expr.assembled_cText (hP : Assembles P) : (e : Expr) → e.WellFormed →
    {text : String} → e.cText = .ok text → P text
  | .mk [.mk none value _] _, hwell, _, h => by
    rcases except_bind_eq_ok.1 h with ⟨texts, hslots, htext⟩
    rcases except_bind_eq_ok.1 hslots with ⟨text, hvalue, hslots⟩
    cases hslots
    cases htext
    exact Value.assembled_cText hP value hwell hvalue

theorem Expr.assembled_cTexts (hP : Assembles P) : (es : List Expr) → Expr.AllWellFormed es →
    {texts : List String} → Expr.cTexts es = .ok texts → ∀ text ∈ texts, P text
  | [], _, _, h => by
    cases h
    exact fun _ hmem => absurd hmem List.not_mem_nil
  | e :: es, hwell, _, h => by
    rcases except_bind_eq_ok.1 h with ⟨text, he, h⟩
    rcases except_bind_eq_ok.1 h with ⟨texts, hes, htexts⟩
    cases htexts
    exact List.forall_mem_cons.2
      ⟨Expr.assembled_cText hP e hwell.1 he, Expr.assembled_cTexts hP es hwell.2 hes⟩

end

theorem Factor.assembled_cCondition (hP : Assembles P) {f : Factor} (hwell : f.WellFormed)
    (h : f.cCondition = .ok text) : P text := by
  unfold cCondition at h
  split at h
  · exact assembled_cText hP _ hwell h
  · rcases except_bind_eq_ok.1 h with ⟨inner, hinner, htext⟩
    cases htext
    exact hP.inParens (assembled_cText hP _ hwell hinner)

theorem Slot.assembled_cText (hP : Assembles P) {target : Reference} {value : Value}
    {loc : Location}
    (htarget : Lexeme.IsName target.name) (hvalue : value.WellFormed)
    (h : (Slot.mk (some target) value loc).cText = .ok text) : P text := by
  rcases except_bind_eq_ok.1 h with ⟨right, hright, h⟩
  rcases except_bind_eq_ok.1 h with ⟨left, hleft, htext⟩
  cases htext
  have hleftHeld := target.assembled_cTarget hP htarget hleft
  have hrightHeld := value.assembled_cText hP hvalue hright
  exact hP.append (hP.append hleftHeld (hP.ordinary (by decide))) hrightHeld

/-- What holds of the texts of expressions holds of all texts within a function. -/
theorem Rendering.WellFormed.assembled (hP : Assembles P) {r : Rendering} (hr : r.WellFormed)
    (h : r.text = .ok text) : P text := by
  cases hr with
  | unary hwell => exact Unary.assembled_cText hP _ hwell h
  | value hwell => exact Value.assembled_cText hP _ hwell h
  | expr hwell => exact Expr.assembled_cText hP _ hwell h
  | condition hwell => exact Factor.assembled_cCondition hP hwell h
  | target hname => exact Reference.assembled_cTarget hP hname h

/-! ### Declarations -/

theorem Ty.assembled_declarator (hP : Assembles P) (t : Ty) {name : String}
    (hname : Lexeme.IsName name) : P (t.declarator name) := by
  have hbase : P t.base.cText := by cases t.base <;> exact hP.ordinary (by decide)
  exact hP.append (hP.append (hP.append hbase (hP.ordinary (by decide))) (hP.stars t.depth))
    (hP.name hname)

theorem Variable.assembled_declaration (hP : Assembles P) {v : Variable}
    (hname : Lexeme.IsName v.name) (h : v.declaration = .ok text) : P text := by
  unfold declaration at h
  split at h
  · cases h
  · cases h
    exact v.type.assembled_declarator hP hname

namespace Function

variable {vs : List Variable} {texts : List String}

theorem assembled_declarations (hP : Assembles P) (hvs : ∀ v ∈ vs, Lexeme.IsName v.name)
    (h : declarations vs = .ok texts) : ∀ text ∈ texts, P text := by
  induction vs generalizing texts with
  | nil =>
    cases h
    exact fun _ hmem => absurd hmem List.not_mem_nil
  | cons v vs ih =>
    rcases except_bind_eq_ok.1 h with ⟨text, hv, h⟩
    rcases except_bind_eq_ok.1 h with ⟨texts, htexts, hall⟩
    cases hall
    rw [List.forall_mem_cons] at hvs
    exact List.forall_mem_cons.2 ⟨v.assembled_declaration hP hvs.1 hv, ih hvs.2 htexts⟩

theorem assembled_entryDeclarations (hP : Assembles P) (hvs : ∀ v ∈ vs, Lexeme.IsName v.name)
    (h : entryDeclarations vs = .ok texts) : ∀ text ∈ texts, P text := by
  cases vs with
  | nil =>
    cases h
    exact fun _ hmem => absurd hmem List.not_mem_nil
  | cons count vs =>
    rw [List.forall_mem_cons] at hvs
    have hcount : P ("int " ++ count.name) := hP.append (hP.ordinary (by decide)) (hP.name hvs.1)
    cases vs with
    | nil =>
      cases h
      exact List.forall_mem_singleton.2 hcount
    | cons strings vs =>
      rw [List.forall_mem_cons] at hvs
      rcases except_bind_eq_ok.1 h with ⟨texts, htexts, hall⟩
      cases hall
      refine List.forall_mem_cons.2 ⟨hcount, List.forall_mem_cons.2 ⟨?_, ?_⟩⟩
      · exact hP.append (hP.ordinary (by decide)) (hP.name hvs.2.1)
      · exact assembled_declarations hP hvs.2.2 htexts

theorem assembled_signature (hP : Assembles P) {f : Function} (hname : Lexeme.IsName f.name)
    (hparams : ∀ v ∈ f.params, Lexeme.IsName v.name) (h : f.signature = .ok text) : P text := by
  rcases except_bind_eq_ok.1 h with ⟨params, hcParams, htext⟩
  cases htext
  have hhead : P f.cHead := by
    unfold cHead
    split
    · exact hP.ordinary (by decide)
    · exact f.returns.assembled_declarator hP hname
  refine hP.append hhead (hP.inParens ?_)
  unfold cParams at hcParams
  split at hcParams
  · cases hcParams
    exact hP.ordinary (by decide)
  · dsimp only at hcParams
    split at hcParams
    · rcases except_bind_eq_ok.1 hcParams with ⟨texts, htexts, hjoined⟩
      cases hjoined
      exact hP.joined (assembled_entryDeclarations hP hparams htexts)
    · rcases except_bind_eq_ok.1 hcParams with ⟨texts, htexts, hjoined⟩
      cases hjoined
      exact hP.joined (assembled_declarations hP hparams htexts)

end Function

end Shc
