import Shc.Proofs.C.Meaning
import Shc.Proofs.RoundTrip.Spelling

/-!
# The C expressions of a program

Every expression of a function comes with the text that is written for it, those
inside of other expressions included.  A text that can be written is read by C as the
tree that the expression stands for.
-/

namespace Shc

open Token (allLexical_cons allLexical_append)

/-- The tree of an expression and the text that is written for it. -/
structure Rendering where
  tree : Option C.Tree
  text : Except C.Error String

/-- If there is a text, C reads it as the tree. -/
def Rendering.Faithful (r : Rendering) : Prop :=
  ∀ text, r.text = .ok text → ∃ tree, r.tree = some tree ∧ C.read text = some tree

/-! ### The expressions of a function -/

mutual

def Factor.inner : Factor → List Rendering
  | .const .. | .string .. | .var _ => []
  | .paren inner _ => inner.renderings
  | .call _ args _ => Expr.allRenderings args

def Unary.renderings : Unary → List Rendering
  | .factor f => ⟨f.cTree, f.cText⟩ :: f.inner
  | .signed sign operand loc =>
    ⟨(Unary.signed sign operand loc).cTree, (Unary.signed sign operand loc).cText⟩ ::
      operand.renderings

def Value.renderings : Value → List Rendering
  | .unary operand => operand.renderings
  | .leaf operand _ => operand.renderings
  | .binary op left right loc =>
    ⟨(Value.binary op left right loc).cTree, (Value.binary op left right loc).cText⟩ ::
      (left.renderings ++ right.renderings)

/-- The expressions of a slot: the variable that is stored into and the value. -/
def Slot.renderings : Slot → List Rendering
  | .mk none value _ => value.renderings
  | .mk (some target) value _ => ⟨target.cTree, target.cTarget⟩ :: value.renderings

def Slot.allRenderings : List Slot → List Rendering
  | [] => []
  | slot :: slots => slot.renderings ++ Slot.allRenderings slots

/-- The expressions of an expression, itself included. -/
def Expr.renderings : Expr → List Rendering
  | .mk slots loc => ⟨(Expr.mk slots loc).cTree, (Expr.mk slots loc).cText⟩ ::
      Slot.allRenderings slots

def Expr.allRenderings : List Expr → List Rendering
  | [] => []
  | expr :: exprs => expr.renderings ++ Expr.allRenderings exprs

end

/-- The expressions of a condition, which has a text of its own. -/
def Factor.conditionRenderings (condition : Factor) : List Rendering :=
  ⟨condition.cTree, condition.cCondition⟩ :: (Unary.factor condition).renderings

mutual

def Statement.renderings : Statement → List Rendering
  | .branch condition yes no _ =>
    condition.conditionRenderings ++ (Statement.allRenderings yes ++ Statement.allRenderings no)
  | .loop condition body _ => condition.conditionRenderings ++ Statement.allRenderings body
  | .declare .. | .ret none _ | .brk _ | .cont _ => []
  | .call callee args loc => (Unary.factor (.call callee args loc)).renderings
  | .ret (some value) _ => value.renderings
  | .assign slot _ => slot.renderings

def Statement.allRenderings : List Statement → List Rendering
  | [] => []
  | statement :: statements => statement.renderings ++ Statement.allRenderings statements

end

def Function.renderings (f : Function) : List Rendering :=
  Statement.allRenderings f.body

/-! ### Well-formed expressions -/

/-- Whatever of the expressions has a text, C reads it as the tree. -/
def AllFaithful (rs : List Rendering) : Prop :=
  ∀ r ∈ rs, r.Faithful

/-- The rendering of an expression as source text gives it. -/
inductive Rendering.WellFormed : Rendering → Prop where
  | unary {u : Unary} : u.WellFormed → WellFormed ⟨u.cTree, u.cText⟩
  | value {v : Value} : v.WellFormed → WellFormed ⟨v.cTree, v.cText⟩
  | expr {e : Expr} : e.WellFormed → WellFormed ⟨e.cTree, e.cText⟩
  | condition {f : Factor} : f.WellFormed → WellFormed ⟨f.cTree, f.cCondition⟩
  | target {r : Reference} : Lexeme.IsName r.name → WellFormed ⟨r.cTree, r.cTarget⟩

theorem Rendering.faithful_of_renders {tree : Option C.Tree} {text : Except C.Error String}
    (h : ∀ s, text = .ok s → C.Renders tree s) : Faithful ⟨tree, text⟩ := by
  intro s hs
  obtain ⟨t, ht, hwritten⟩ := h s hs
  exact ⟨t, ht, hwritten.read⟩

theorem Reference.cText_of_cTarget {r : Reference} {text : String} (h : r.cTarget = .ok text) :
    r.cText = .ok text := by
  obtain ⟨i, hi, htext⟩ := except_bind_eq_ok.1 h
  cases i with
  | deref count =>
    rw [cText, hi]
    exact htext
  | addressOf => exact absurd htext (by simp [throw, throwThe, MonadExceptOf.throw])

/-- Parentheses are put around a condition where it has none. -/
theorem Factor.written_condition {f : Factor} (h : f.WellFormed) {text : String}
    (htext : f.cCondition = .ok text) : C.Renders f.cTree text := by
  unfold Factor.cCondition at htext
  split at htext
  · exact (Factor.written _ h htext).1
  · obtain ⟨inner, hinner, htext⟩ := except_bind_eq_ok.1 htext
    obtain rfl := Except.ok.inj htext
    obtain ⟨⟨tree, htree, hwritten⟩, -⟩ := f.written h hinner
    exact ⟨tree, htree, hwritten.inParens⟩

theorem Rendering.WellFormed.faithful {r : Rendering} (h : r.WellFormed) : r.Faithful := by
  cases h with
  | unary h => exact faithful_of_renders fun _ => Unary.written _ h
  | value h => exact faithful_of_renders fun _ htext => (Value.written _ h htext).1
  | expr h => exact faithful_of_renders fun _ htext => (Expr.written _ h htext).1
  | condition h => exact faithful_of_renders fun _ => Factor.written_condition h
  | target h =>
    refine faithful_of_renders fun _ htext => ?_
    exact (Reference.written h (Reference.cText_of_cTarget htext)).1

mutual

theorem Factor.wellFormed_inner : (f : Factor) → f.WellFormed → ∀ r ∈ f.inner, r.WellFormed
  | .const .., _ | .string .., _ | .var _, _ => fun _ hr => absurd hr List.not_mem_nil
  | .paren inner _, h => inner.wellFormed_renderings h
  | .call _ args _, h => Expr.wellFormed_allRenderings args h.2

theorem Unary.wellFormed_renderings : (u : Unary) → u.WellFormed →
    ∀ r ∈ u.renderings, r.WellFormed
  | .factor f, h => List.forall_mem_cons.2 ⟨.unary (u := .factor f) h, f.wellFormed_inner h⟩
  | .signed _ operand _, h => List.forall_mem_cons.2 ⟨.unary h, operand.wellFormed_renderings h⟩

theorem Value.wellFormed_renderings : (v : Value) → v.WellFormed →
    ∀ r ∈ v.renderings, r.WellFormed
  | .unary operand, h => operand.wellFormed_renderings h
  | .leaf operand _, h => operand.wellFormed_renderings h
  | .binary _ left right _, h => List.forall_mem_cons.2 ⟨.value h, List.forall_mem_append.2
      ⟨left.wellFormed_renderings h.1, right.wellFormed_renderings h.2⟩⟩

theorem Expr.wellFormed_renderings : (e : Expr) → e.WellFormed →
    ∀ r ∈ e.renderings, r.WellFormed
  | .mk [.mk none value _] _, h => List.forall_mem_cons.2 ⟨.expr h, List.forall_mem_append.2
      ⟨value.wellFormed_renderings h, fun _ hr => absurd hr List.not_mem_nil⟩⟩
  | .mk [] _, h | .mk (.mk (some _) _ _ :: _) _, h | .mk (.mk none _ _ :: _ :: _) _, h => h.elim

theorem Expr.wellFormed_allRenderings : (es : List Expr) → Expr.AllWellFormed es →
    ∀ r ∈ Expr.allRenderings es, r.WellFormed
  | [], _ => fun _ hr => absurd hr List.not_mem_nil
  | e :: es, h => List.forall_mem_append.2
      ⟨e.wellFormed_renderings h.1, Expr.wellFormed_allRenderings es h.2⟩

end

/-! ### Well-formed statements -/

mutual

/-- A statement as source text gives it. -/
def Statement.WellFormed : Statement → Prop
  | .branch condition yes no _ =>
    condition.WellFormed ∧ Statement.AllWellFormed yes ∧ Statement.AllWellFormed no
  | .loop condition body _ => condition.WellFormed ∧ Statement.AllWellFormed body
  | .declare v _ => Lexeme.IsName v.name
  | .call callee args _ => Lexeme.IsName callee.name ∧ Expr.AllWellFormed args
  | .ret (some value) _ => value.WellFormed
  | .ret none _ | .brk _ | .cont _ => True
  | .assign (.mk (some target) value _) _ => Lexeme.IsName target.name ∧ value.WellFormed
  | .assign (.mk none _ _) _ => False

def Statement.AllWellFormed : List Statement → Prop
  | [] => True
  | statement :: statements => statement.WellFormed ∧ Statement.AllWellFormed statements

end

theorem Statement.allWellFormed_append {ss ss' : List Statement} :
    Statement.AllWellFormed (ss ++ ss') ↔
      Statement.AllWellFormed ss ∧ Statement.AllWellFormed ss' := by
  induction ss with
  | nil => simp [AllWellFormed]
  | cons s ss ih => rw [List.cons_append, AllWellFormed, AllWellFormed, ih, and_assoc]

theorem Factor.wellFormed_condition {f : Factor} (h : f.WellFormed) :
    ∀ r ∈ f.conditionRenderings, r.WellFormed :=
  List.forall_mem_cons.2 ⟨.condition h, Unary.wellFormed_renderings (.factor f) h⟩

mutual

theorem Statement.wellFormed_renderings : (s : Statement) → s.WellFormed →
    ∀ r ∈ s.renderings, r.WellFormed
  | .branch _ yes no _, h => List.forall_mem_append.2
      ⟨Factor.wellFormed_condition h.1, List.forall_mem_append.2
        ⟨Statement.wellFormed_allRenderings yes h.2.1, Statement.wellFormed_allRenderings no h.2.2⟩⟩
  | .loop _ body _, h => List.forall_mem_append.2
      ⟨Factor.wellFormed_condition h.1, Statement.wellFormed_allRenderings body h.2⟩
  | .declare .., _ | .ret none _, _ | .brk _, _ | .cont _, _ =>
    fun _ hr => absurd hr List.not_mem_nil
  | .call callee args loc, h => Unary.wellFormed_renderings (.factor (.call callee args loc)) h
  | .ret (some value) _, h => value.wellFormed_renderings h
  | .assign (.mk (some _) value _) _, h => List.forall_mem_cons.2
      ⟨.target h.1, value.wellFormed_renderings h.2⟩
  | .assign (.mk none _ _) _, h => h.elim

theorem Statement.wellFormed_allRenderings : (ss : List Statement) → Statement.AllWellFormed ss →
    ∀ r ∈ Statement.allRenderings ss, r.WellFormed
  | [], _ => fun _ hr => absurd hr List.not_mem_nil
  | s :: ss, h => List.forall_mem_append.2
      ⟨s.wellFormed_renderings h.1, Statement.wellFormed_allRenderings ss h.2⟩

end

/-! ### Parsed programs -/

namespace Grammar

mutual

theorem Factor.wellFormed_image {env : String → Variable} (henv : KeepsNames env) :
    (t : Factor) → Token.AllLexical t.tokens → (t.image env).WellFormed
  | .int value _, _ => Int.natCast_nonneg value
  | .char value _, _ => Int.natCast_nonneg value.toNat
  | .bool value _, _ => by cases value <;> simp [Factor.image, Shc.Factor.WellFormed]
  | .string .., _ => trivial
  | .paren _ inner _, h =>
    inner.wellFormed_image henv (allLexical_append.1 (allLexical_cons.1 h).2).1
  | .var name span, h => by
    have hname : Lexeme.IsName name := h _ List.mem_cons_self
    rw [← henv name] at hname
    exact hname
  | .call callee _ _ args _, h => by
    obtain ⟨hcallee, h⟩ := allLexical_cons.1 h
    exact ⟨hcallee, args.wellFormed_image henv (allLexical_append.1 (allLexical_cons.1 h).2).1⟩

theorem Unary.wellFormed_image {env : String → Variable} (henv : KeepsNames env) :
    (t : Unary) → Token.AllLexical t.tokens → (t.image env).WellFormed
  | .signed _ _ operand, h => operand.wellFormed_image henv (allLexical_cons.1 h).2
  | .marked _ _ name _, h => by
    have hname : Lexeme.IsName name :=
      (allLexical_append.1 (allLexical_cons.1 h).2).2 _ List.mem_cons_self
    rw [← henv name] at hname
    exact hname
  | .factor factor, h => factor.wellFormed_image henv h

theorem Chain.wellFormed_image {env : String → Variable} (henv : KeepsNames env)
    {layers : List Layer} : (t : Chain layers) → Token.AllLexical t.tokens →
    (t.image env).WellFormed
  | .unary operand, h => operand.wellFormed_image henv h
  | .layer first rest, h => by
    obtain ⟨hfirst, hrest⟩ := allLexical_append.1 h
    exact rest.wellFormed_image henv hrest _ _ (first.wellFormed_image henv hfirst)

theorem Links.wellFormed_image {env : String → Variable} (henv : KeepsNames env) {layer : Layer}
    {below : List Layer} : (t : Links layer below) → Token.AllLexical t.tokens →
    (start : Location) → (left : Value) → left.WellFormed → (t.image env start left).WellFormed
  | .nil, _, _, _, hleft => hleft
  | .cons _ _ _ operand rest, h, _, _, hleft => by
    obtain ⟨hoperand, hrest⟩ := allLexical_append.1 (allLexical_cons.1 h).2
    exact rest.wellFormed_image henv hrest _ _ ⟨hleft, operand.wellFormed_image henv hoperand⟩

theorem Args.wellFormed_image {env : String → Variable} (henv : KeepsNames env) :
    (t : Args) → Token.AllLexical t.tokens → Expr.AllWellFormed (t.image env)
  | .none, _ => trivial
  | .some first rest, h => by
    obtain ⟨hfirst, hrest⟩ := allLexical_append.1 h
    exact ⟨first.wellFormed_image henv hfirst, rest.wellFormed_image henv hrest⟩

theorem MoreArgs.wellFormed_image {env : String → Variable} (henv : KeepsNames env) :
    (t : MoreArgs) → Token.AllLexical t.tokens → Expr.AllWellFormed (t.image env)
  | .nil, _ => trivial
  | .cons _ arg rest, h => by
    obtain ⟨harg, hrest⟩ := allLexical_append.1 (allLexical_cons.1 h).2
    exact ⟨arg.wellFormed_image henv harg, rest.wellFormed_image henv hrest⟩

end

theorem Condition.wellFormed_image {env : String → Variable} (henv : KeepsNames env)
    (c : Condition) (h : Token.AllLexical c.tokens) : (c.image env).WellFormed :=
  c.inner.wellFormed_image henv (allLexical_append.1 (allLexical_cons.1 h).2).1

mutual

theorem Statement.wellFormed_image {env : String → Variable} (henv : KeepsNames env) :
    (t : Statement) → Token.AllLexical t.tokens → Statement.AllWellFormed (t.image env)
  | .block _ inner _, h =>
    inner.wellFormed_image henv (allLexical_append.1 (allLexical_cons.1 h).2).1
  | .branch _ condition yes, h => by
    obtain ⟨hcondition, hyes⟩ := allLexical_append.1 (allLexical_cons.1 h).2
    exact ⟨⟨condition.wellFormed_image henv hcondition, yes.wellFormed_image henv hyes, trivial⟩,
      trivial⟩
  | .branchElse _ condition yes _ no, h => by
    obtain ⟨hcondition, h⟩ := allLexical_append.1 (allLexical_cons.1 h).2
    obtain ⟨hyes, h⟩ := allLexical_append.1 h
    have hno := (allLexical_cons.1 h).2
    exact ⟨⟨condition.wellFormed_image henv hcondition, yes.wellFormed_image henv hyes,
      no.wellFormed_image henv hno⟩, trivial⟩
  | .loop _ condition body, h => by
    obtain ⟨hcondition, hbody⟩ := allLexical_append.1 (allLexical_cons.1 h).2
    exact ⟨⟨condition.wellFormed_image henv hcondition, body.wellFormed_image henv hbody⟩, trivial⟩
  | .brk .., _ | .cont .., _ => ⟨trivial, trivial⟩
  | .empty .., _ => trivial
  | .declare declaration, h => ⟨h _ List.mem_cons_self, trivial⟩
  | .ret _ none _, _ => ⟨trivial, trivial⟩
  | .ret _ (some value) _, h => by
    have hvalue := value.wellFormed_image henv (allLexical_append.1 (allLexical_cons.1 h).2).1
    exact ⟨hvalue, trivial⟩
  | .call callee _ _ args _ _, h => by
    obtain ⟨hcallee, h⟩ := allLexical_cons.1 h
    have hargs := args.wellFormed_image henv (allLexical_append.1 (allLexical_cons.1 h).2).1
    exact ⟨⟨hcallee, hargs⟩, trivial⟩
  | .assign markers name _ _ value _, h => by
    obtain ⟨hname, h⟩ := allLexical_cons.1 (allLexical_append.1 h).2
    have hvalue := value.wellFormed_image henv (allLexical_append.1 (allLexical_cons.1 h).2).1
    have hdecl : Lexeme.IsName (env name).name := by
      rw [henv name]
      exact hname
    exact ⟨⟨hdecl, hvalue⟩, trivial⟩

theorem Body.wellFormed_image {env : String → Variable} (henv : KeepsNames env) :
    (t : Body) → Token.AllLexical t.tokens → Statement.AllWellFormed (t.image env)
  | .block _ inner _, h =>
    inner.wellFormed_image henv (allLexical_append.1 (allLexical_cons.1 h).2).1
  | .single statement, h => statement.wellFormed_image henv h

theorem Statements.wellFormed_image {env : String → Variable} (henv : KeepsNames env) :
    (t : Statements) → Token.AllLexical t.tokens → Statement.AllWellFormed (t.image env)
  | .nil, _ => trivial
  | .cons first rest, h => by
    obtain ⟨hfirst, hrest⟩ := allLexical_append.1 h
    rw [Statements.image]
    exact Statement.allWellFormed_append.2
      ⟨first.wellFormed_image henv hfirst, rest.wellFormed_image henv hrest⟩

end

theorem Function.wellFormed_image {f : Function} (h : Token.AllLexical f.tokens) :
    Statement.AllWellFormed f.image.body := by
  have hbody : Token.AllLexical f.body.tokens := by
    intro t ht
    refine h t ?_
    simp only [tokens, List.mem_cons, List.mem_append]
    tauto
  exact f.body.wellFormed_image f.name_env hbody

theorem Function.allFaithful_image {f : Function} (h : Token.AllLexical f.tokens) :
    AllFaithful f.image.renderings :=
  fun r hr => (Statement.wellFormed_allRenderings _ (wellFormed_image h) r hr).faithful

end Grammar

/-- Every expression of a parsed program that has a C text is read by C, with its
    longest tokens, its precedences and its grouping, as the tree that the expression
    stands for: parentheses leave no trace, and a use of a variable is as many
    dereferences as its markers leave open, or an address. -/
theorem Program.read_rendering {source : Source} {p : Program} (h : parse source = .ok p)
    {f : Function} (hf : f ∈ p.functions) {r : Rendering} (hr : r ∈ f.renderings) {text : String}
    (htext : r.text = .ok text) : ∃ tree, r.tree = some tree ∧ C.read text = some tree := by
  obtain ⟨tree, span, htokens, -, rfl⟩ := exists_derivation h
  obtain ⟨g, hg, rfl⟩ := Grammar.exists_of_mem_functions hf
  have hlexical : Token.AllLexical g.tokens := by
    intro t ht
    exact Token.allLexical_of_source htokens t (List.mem_flatMap.2 ⟨_, hg, ht⟩)
  exact Grammar.Function.allFaithful_image hlexical r hr text htext

theorem Program.read_rendering_sample :
    parse Sample.source = .ok ⟨[], [Sample.f]⟩ ∧
      ⟨Sample.sum.cTree, Sample.sum.cText⟩ ∈ Sample.f.renderings ∧
      Sample.sum.cText = .ok "(-(-*p) + f(&p))" ∧
      C.read "(-(-*p) + f(&p))" = some (.binary .add
        (.unary .minus (.unary .minus (.unary .deref (.word "p"))))
        (.call (.word "f") [.unary .address (.word "p")])) := by
  have hmem : ⟨Sample.sum.cTree, Sample.sum.cText⟩ ∈ Sample.f.renderings :=
    .tail _ (.head _)
  have htext : Sample.sum.cText = .ok "(-(-*p) + f(&p))" := rfl
  obtain ⟨tree, htree, hread⟩ :=
    Program.read_rendering Sample.parse_source List.mem_cons_self hmem htext
  obtain rfl := Option.some.inj htree
  exact ⟨Sample.parse_source, hmem, htext, hread⟩

end Shc
