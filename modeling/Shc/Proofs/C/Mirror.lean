import Shc.Proofs.C.Emission
import Shc.Proofs.ScopeSound

/-!
# Bodies as C reads them

What C reads in the text of a body is held against the body.  C evaluates expressions whose
variables are the references of the body, each behind the dereferences or the address that
it is written with.  It declares the variables of the body, and it has a block for every
body of a branch or a loop.

One walk through the statements shows all of that.  Scopes and pointer depths in C are
said of what is read, and follow for the body from here.
-/

namespace Shc

namespace C

/-! ### Variables of expressions -/

mutual

/-- The variables of an expression: its words, other than names of called functions. -/
def Tree.variables : Tree → List String
  | .word x => [x]
  | .number _ | .string _ => []
  | .call (.word _) args => Tree.allVariables args
  | .call callee args => callee.variables ++ Tree.allVariables args
  | .unary _ operand => operand.variables
  | .binary _ left right => left.variables ++ right.variables

def Tree.allVariables : List Tree → List String
  | [] => []
  | tree :: trees => tree.variables ++ Tree.allVariables trees

end

/-- A variable with any number of dereferences and addresses in front of it. -/
def Tree.isPlace : Tree → Bool
  | .word _ => true
  | .unary .deref operand | .unary .address operand => operand.isPlace
  | _ => false

mutual

/-- The variables of an expression, each with the dereferences and addresses that stand
    in front of it. -/
def Tree.occurrences : Tree → List Tree
  | .word x => [.word x]
  | .number _ | .string _ => []
  | .call (.word _) args => Tree.allOccurrences args
  | .call callee args => callee.occurrences ++ Tree.allOccurrences args
  | .unary op operand =>
    if Tree.isPlace (.unary op operand) then [.unary op operand] else operand.occurrences
  | .binary _ left right => left.occurrences ++ right.occurrences

def Tree.allOccurrences : List Tree → List Tree
  | [] => []
  | tree :: trees => tree.occurrences ++ Tree.allOccurrences trees

end

mutual

/-- An expression has the variables that occur in it. -/
theorem Tree.variables_occurrences : (tree : Tree) →
    tree.occurrences.flatMap Tree.variables = tree.variables
  | .word _ | .number _ | .string _ => rfl
  | .call callee args => by
    have hcallee := callee.variables_occurrences
    have hargs := Tree.variables_allOccurrences args
    cases callee with
    | word x => exact hargs
    | _ => rw [Tree.occurrences, Tree.variables, List.flatMap_append, hcallee, hargs] <;> simp
  | .unary op operand => by
    rw [Tree.occurrences]
    split
    · exact List.flatMap_singleton ..
    · exact operand.variables_occurrences
  | .binary _ left right => by
    rw [Tree.occurrences, Tree.variables, List.flatMap_append, left.variables_occurrences,
      right.variables_occurrences]

theorem Tree.variables_allOccurrences : (trees : List Tree) →
    (Tree.allOccurrences trees).flatMap Tree.variables = Tree.allVariables trees
  | [] => rfl
  | tree :: trees => by
    rw [Tree.allOccurrences, Tree.allVariables, List.flatMap_append, tree.variables_occurrences,
      Tree.variables_allOccurrences trees]

end

theorem Tree.variables_derefs (n : Nat) (tree : Tree) :
    (derefs n tree).variables = tree.variables := by
  induction n with
  | zero => rfl
  | succ n ih => exact ih

theorem Tree.isPlace_derefs (n : Nat) (x : String) : (derefs n (.word x)).isPlace = true := by
  induction n with
  | zero => rfl
  | succ n ih => exact ih

theorem Tree.occurrences_derefs (n : Nat) (x : String) :
    (derefs n (.word x)).occurrences = [derefs n (.word x)] := by
  cases n with
  | zero => rfl
  | succ n => exact if_pos (isPlace_derefs (n + 1) x)

end C

/-! ### References -/

/-- A reference is written as one occurrence of its variable. -/
theorem Reference.occurrence_cTree {r : Reference} {tree : C.Tree} (h : r.cTree = some tree) :
    tree.occurrences = [tree] ∧ tree.variables = [r.name] := by
  unfold cTree at h
  split at h
  · obtain rfl := Option.some.inj h
    exact ⟨C.Tree.occurrences_derefs _ _, C.Tree.variables_derefs _ _⟩
  · split at h
    · obtain rfl := Option.some.inj h
      exact ⟨rfl, rfl⟩
    · cases h

/-- The occurrences are those of the references, in this order. -/
def C.Occur (rs : List Reference) (occurrences : List C.Tree) : Prop :=
  List.Forall₂ (fun r o => r.cTree = some o) rs occurrences

theorem C.Occur.append {rs rs' : List Reference} {os os' : List C.Tree} (h : C.Occur rs os)
    (h' : C.Occur rs' os') : C.Occur (rs ++ rs') (os ++ os') :=
  List.rel_append h h'

theorem C.Occur.variables {rs : List Reference} {tree : C.Tree} (h : C.Occur rs tree.occurrences) :
    tree.variables = rs.map Reference.name := by
  rw [← tree.variables_occurrences]
  generalize tree.occurrences = os at h
  induction h with
  | nil => rfl
  | cons ho _ ih =>
    rw [List.flatMap_cons, (Reference.occurrence_cTree ho).2, ih]
    rfl

theorem Reference.occur_cTree {r : Reference} {tree : C.Tree} (h : r.cTree = some tree) :
    C.Occur [r] tree.occurrences := by
  rw [(occurrence_cTree h).1]
  exact .cons h .nil

mutual

theorem Factor.occur_cTree : (f : Factor) → {tree : C.Tree} → f.cTree = some tree →
    C.Occur f.references tree.occurrences
  | .const (.ofNat n) _, _, h | .string value _, _, h => by
    obtain rfl := Option.some.inj h
    exact .nil
  | .const (.negSucc n) _, _, h => nomatch h
  | .paren inner _, _, h => inner.occur_cTree h
  | .var reference, _, h => reference.occur_cTree h
  | .call callee args _, _, h => by
    obtain ⟨trees, htrees, rfl⟩ := Option.map_eq_some_iff.1 h
    exact Expr.occur_cTrees args htrees

theorem Unary.occur_cTree : (u : Unary) → {tree : C.Tree} → u.cTree = some tree →
    C.Occur u.references tree.occurrences
  | .factor f, _, h => f.occur_cTree h
  | .signed sign operand _, _, h => by
    obtain ⟨tree, htree, rfl⟩ := Option.map_eq_some_iff.1 h
    have hsign : (C.Tree.unary sign.cOp tree).occurrences = tree.occurrences := by
      cases sign <;> exact if_neg Bool.false_ne_true
    rw [hsign]
    exact operand.occur_cTree htree

theorem Value.occur_cTree : (v : Value) → {tree : C.Tree} → v.cTree = some tree →
    C.Occur v.references tree.occurrences
  | .unary operand, _, h => operand.occur_cTree h
  | .leaf operand _, _, h => operand.occur_cTree h
  | .binary op left right _, _, h => by
    obtain ⟨tree, hleft, h⟩ := Option.bind_eq_some_iff.1 h
    obtain ⟨tree', hright, h⟩ := Option.bind_eq_some_iff.1 h
    obtain rfl := Option.some.inj h
    exact (left.occur_cTree hleft).append (right.occur_cTree hright)

theorem Expr.occur_cTree : (e : Expr) → {tree : C.Tree} → e.cTree = some tree →
    C.Occur e.references tree.occurrences
  | .mk [.mk none value loc] loc', _, h => by
    have hreferences : (Expr.mk [.mk none value loc] loc').references = value.references :=
      List.append_nil _
    rw [hreferences]
    exact value.occur_cTree h
  | .mk [] _, _, h | .mk (.mk (some _) _ _ :: _) _, _, h | .mk (.mk none _ _ :: _ :: _) _, _, h =>
    nomatch h

theorem Expr.occur_cTrees : (es : List Expr) → {trees : List C.Tree} →
    Expr.cTrees es = some trees → C.Occur (Expr.allReferences es) (C.Tree.allOccurrences trees)
  | [], _, h => by
    obtain rfl := Option.some.inj h
    exact .nil
  | e :: es, _, h => by
    obtain ⟨tree, htree, h⟩ := Option.bind_eq_some_iff.1 h
    obtain ⟨trees, htrees, h⟩ := Option.bind_eq_some_iff.1 h
    obtain rfl := Option.some.inj h
    exact (e.occur_cTree htree).append (Expr.occur_cTrees es htrees)

end

/-! ### Events -/

namespace C

/-- What matters for scopes. -/
inductive Event where
  | use (name : String)
  | declare (name : String)
  | enter
  | leave
deriving DecidableEq, Repr

/-- Neither the beginning nor the end of a block. -/
def Event.isMention : Event → Bool
  | .use _ | .declare _ => true
  | .enter | .leave => false

def Item.events : Item → List Event
  | .declare d => [.declare d.name]
  | .eval tree => tree.variables.map .use
  | .enter => [.enter]
  | .leave => [.leave]

def Item.declarator? : Item → Option Declarator
  | .declare d => some d
  | _ => none

def Item.occurrences : Item → List Tree
  | .eval tree => tree.occurrences
  | _ => []

end C

/-- The references as uses in C. -/
def uses (rs : List Reference) : List C.Event :=
  rs.map fun r => .use r.name

/-- What is met on a walk as C has it. -/
def Mention.event : Mention Reference → C.Event
  | .use r => .use r.name
  | .declare v => .declare v.name

mutual

def Statement.events : Statement → List C.Event
  | .branch condition yes no _ =>
    let otherwise :=
      match no with
      | [] => []
      | _ :: _ => .leave :: .enter :: Statement.allEvents no
    uses condition.references ++ .enter :: (Statement.allEvents yes ++ (otherwise ++ [.leave]))
  | .loop condition body _ =>
    uses condition.references ++ .enter :: (Statement.allEvents body ++ [.leave])
  | .declare v _ => [.declare v.name]
  | .call _ args _ => uses (Expr.allReferences args)
  | .ret value _ => uses (value.elim [] Expr.references)
  | .brk _ | .cont _ => []
  | .assign slot _ => uses slot.references

def Statement.allEvents : List Statement → List C.Event
  | [] => []
  | statement :: statements => statement.events ++ Statement.allEvents statements

end

/-! ### Bodies -/

namespace C

/-- The items are those of a body that has the events `es` and on which a walk meets `ms`. -/
inductive Mirrors : (es : List Event) → (ms : List (Mention Reference)) → List Item → Prop where
  | nil : Mirrors [] [] []
  | eval {rs : List Reference} {tree : Tree} {es : List Event} {ms : List (Mention Reference)}
      {items : List Item} : Occur rs tree.occurrences → Mirrors es ms items →
      Mirrors (uses rs ++ es) (rs.map .use ++ ms) (.eval tree :: items)
  | declare {v : Variable} {es : List Event} {ms : List (Mention Reference)} {items : List Item} :
      Mirrors es ms items →
      Mirrors (.declare v.name :: es) (.declare v :: ms) (.declare v.cDeclarator :: items)
  | enter {es : List Event} {ms : List (Mention Reference)} {items : List Item} :
      Mirrors es ms items → Mirrors (.enter :: es) ms (.enter :: items)
  | leave {es : List Event} {ms : List (Mention Reference)} {items : List Item} :
      Mirrors es ms items → Mirrors (.leave :: es) ms (.leave :: items)

namespace Mirrors

variable {es es' : List Event} {ms ms' : List (Mention Reference)} {items items' : List Item}

theorem append (h : Mirrors es ms items) (h' : Mirrors es' ms' items') :
    Mirrors (es ++ es') (ms ++ ms') (items ++ items') := by
  induction h with
  | nil => exact h'
  | eval hoccur _ ih =>
    rw [List.append_assoc, List.append_assoc]
    exact .eval hoccur ih
  | declare _ ih => exact .declare ih
  | enter _ ih => exact .enter ih
  | leave _ ih => exact .leave ih

/-- The items of a block, in two parts. -/
theorem block (h : Mirrors es ms items) (h' : Mirrors es' ms' items') :
    Mirrors (.enter :: (es ++ (es' ++ [.leave]))) (ms ++ ms')
      (.enter :: (items ++ (items' ++ [.leave]))) := by
  have hend : Mirrors (es' ++ [.leave]) (ms' ++ []) (items' ++ [.leave]) :=
    h'.append (.leave .nil)
  rw [List.append_nil] at hend
  exact .enter (h.append hend)

theorem evals {tree : Option Tree} {text : String} (h : Renders tree text) {rs : List Reference}
    (hrs : ∀ t, tree = some t → Occur rs t.occurrences) :
    Mirrors (uses rs) (rs.map .use) (evals tree) := by
  rcases h with ⟨t, rfl, -⟩
  have heval : Mirrors (uses rs ++ []) (rs.map .use ++ []) [.eval t] := .eval (hrs t rfl) .nil
  rw [List.append_nil, List.append_nil] at heval
  exact heval

theorem events (h : Mirrors es ms items) : items.flatMap Item.events = es := by
  induction h with
  | nil => rfl
  | eval hoccur _ ih => simp [Item.events, hoccur.variables, uses, ih]
  | declare _ ih => exact congrArg (_ :: ·) ih
  | enter _ ih => exact congrArg (_ :: ·) ih
  | leave _ ih => exact congrArg (_ :: ·) ih

/-- But for the blocks, C meets what the walk meets. -/
theorem mentions (h : Mirrors es ms items) :
    es.filter Event.isMention = ms.map Mention.event := by
  induction h with
  | nil => rfl
  | @eval rs _ _ _ _ _ _ ih =>
    have huses : (uses rs).filter Event.isMention = (rs.map Mention.use).map Mention.event := by
      rw [List.filter_eq_self.2 (by simp [uses, Event.isMention])]
      simp [uses, Mention.event]
    rw [List.filter_append, List.map_append, huses, ih]
  | declare _ ih => exact congrArg (_ :: ·) ih
  | enter _ ih => exact ih
  | leave _ ih => exact ih

theorem occur (h : Mirrors es ms items) :
    Occur (Mention.used ms) (items.flatMap Item.occurrences) := by
  induction h with
  | nil => exact .nil
  | eval hoccur _ ih =>
    rw [Mention.used_append, Mention.used_map_use]
    exact hoccur.append ih
  | declare _ ih => exact ih
  | enter _ ih => exact ih
  | leave _ ih => exact ih

theorem declarators (h : Mirrors es ms items) :
    items.filterMap Item.declarator? = (Mention.declared ms).map Variable.cDeclarator := by
  induction h with
  | nil => rfl
  | eval _ _ ih =>
    rw [Mention.declared_append, Mention.declared_map_use]
    exact ih
  | declare _ ih => exact congrArg (_ :: ·) ih
  | enter _ ih => exact ih
  | leave _ ih => exact ih

end Mirrors

end C

theorem Factor.mirrors_condition {f : Factor} (hf : f.WellFormed) {level : Nat}
    {g : String → String}
    (hok : (Emission.tryLine level do return g (← f.cCondition)).failure = none) :
    C.Mirrors (uses f.references) (f.references.map .use) (C.evals f.cTree) := by
  rcases Emission.ok_of_tryLine hok with ⟨text, htext⟩
  exact .evals (Factor.written_condition hf htext) fun _ => f.occur_cTree

mutual

/-- C reads in the lines of a statement what a walk through the statement meets. -/
theorem Statement.mirrors (level : Nat) : (s : Statement) → s.WellFormed →
    (s.emit level).failure = none → C.Mirrors s.events s.walk s.cItems
  | .branch condition yes [] _, h, hok => by
    rw [Statement.emit] at hok
    obtain ⟨hfront, -⟩ := Emission.failure_andThen.1 hok
    obtain ⟨hfront, -⟩ := Emission.failure_andThen.1 hfront
    obtain ⟨hhead, hyes⟩ := Emission.failure_andThen.1 hfront
    apply (Factor.mirrors_condition h.1 hhead).append
    exact (Statement.allMirrors (level + 1) yes h.2.1 hyes).block .nil
  | .branch condition yes (first :: no) _, h, hok => by
    rw [Statement.emit] at hok
    obtain ⟨hfront, -⟩ := Emission.failure_andThen.1 hok
    obtain ⟨hfront, hotherwise⟩ := Emission.failure_andThen.1 hfront
    obtain ⟨hhead, hyes⟩ := Emission.failure_andThen.1 hfront
    obtain ⟨-, hno⟩ := Emission.failure_andThen.1 hotherwise
    apply (Factor.mirrors_condition h.1 hhead).append
    apply (Statement.allMirrors (level + 1) yes h.2.1 hyes).block
    exact .leave (.enter (Statement.allMirrors (level + 1) (first :: no) h.2.2 hno))
  | .loop condition body _, h, hok => by
    rw [Statement.emit] at hok
    obtain ⟨hfront, -⟩ := Emission.failure_andThen.1 hok
    obtain ⟨hhead, hbody⟩ := Emission.failure_andThen.1 hfront
    have hblock := (Statement.allMirrors (level + 1) body h.2 hbody).block .nil
    rw [List.append_nil] at hblock
    exact (Factor.mirrors_condition h.1 hhead).append hblock
  | .declare v _, _, _ => .declare .nil
  | .call callee args loc, h, hok => by
    obtain ⟨texts, htexts⟩ := Emission.ok_of_tryLine hok
    have htext : (Factor.call callee args loc).cText = .ok (cCall callee.name texts) := by
      rw [Factor.cText, htexts]
      rfl
    exact .evals ((Factor.call callee args loc).written h htext).1
      fun _ => (Factor.call callee args loc).occur_cTree
  | .ret (some value) _, h, hok => by
    obtain ⟨text, htext⟩ := Emission.ok_of_tryLine hok
    exact .evals (value.written h htext).1 fun _ => value.occur_cTree
  | .ret none _, _, _ | .brk _, _, _ | .cont _, _, _ => .nil
  | .assign (.mk (some target) value _) _, h, hok => by
    obtain ⟨text, htext⟩ := Emission.ok_of_tryLine hok
    obtain ⟨right, hright, htext⟩ := except_bind_eq_ok.1 htext
    obtain ⟨left, hleft, -⟩ := except_bind_eq_ok.1 htext
    have htarget : C.Mirrors (uses [target]) ([target].map .use) (C.evals target.cTree) :=
      .evals (target.written h.1 (Reference.cText_of_cTarget hleft)).1
        fun _ => target.occur_cTree
    exact htarget.append (.evals (value.written h.2 hright).1 fun _ => value.occur_cTree)
  | .assign (.mk none _ _) _, h, _ => h.elim

theorem Statement.allMirrors (level : Nat) : (ss : List Statement) →
    Statement.AllWellFormed ss → (Statement.emitAll level ss).failure = none →
    C.Mirrors (Statement.allEvents ss) (Statement.walkAll ss) (Statement.allCItems ss)
  | [], _, _ => .nil
  | s :: ss, h, hok => by
    rw [Statement.emitAll] at hok
    obtain ⟨hfirst, hrest⟩ := Emission.failure_andThen.1 hok
    exact (s.mirrors level h.1 hfirst).append (Statement.allMirrors level ss h.2 hrest)

end

end Shc
