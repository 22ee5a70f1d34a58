import Shc.Proofs.Grammar

/-!
# Constructs that are open at once

A path leads from a statement of a function down to a leaf of its tree.  Some of the nodes on
it are open as long as the walk is below them: `if` and `while` statements, calls, signs and
parentheses, except those around a condition, which belong to the statement.

The parser counts the constructs that are open while it reads.  Its count is the `depth` of
the derivation and also has the blocks in it, which leave no node in the tree.  So no path has
more open nodes than the parser allows.
-/

namespace Shc

/-- A node on a path.  The condition of an `if` or a `while` is told from other factors. -/
inductive Step where
  | statement (s : Statement)
  | condition (f : Factor)
  | slot (s : Slot)
  | expr (e : Expr)
  | value (v : Value)
  | unary (u : Unary)
  | factor (f : Factor)
  | callee (f : Function)

namespace Step

/-- Whether the node is a construct that is open below it. -/
def opens : Step → Bool
  | statement (.branch ..) | statement (.loop ..) | statement (.call ..) => true
  | unary (.signed ..) => true
  | factor (.paren ..) | factor (.call ..) => true
  | _ => false

/-- The paths through a node, given those below it.  Without any the node is a leaf. -/
def above (step : Step) : List (List Step) → List (List Step)
  | [] => [[step]]
  | path :: paths => (path :: paths).map (step :: ·)

end Step

/-! ### Paths -/

/-- A path from the condition of a statement. -/
def Step.fromCondition : List Step → List Step
  | .factor (.paren inner loc) :: path => .condition (.paren inner loc) :: path
  | path => path

mutual

/-- The paths from a factor down to the leaves. -/
def Factor.paths : Factor → List (List Step)
  | .const value loc => [[.factor (.const value loc)]]
  | .string value loc => [[.factor (.string value loc)]]
  | .paren inner loc => Step.above (.factor (.paren inner loc)) inner.paths
  | .var reference => [[.factor (.var reference)]]
  | .call callee args loc =>
    Step.above (.factor (.call callee args loc)) (callee.paths ++ Expr.allPaths args)

def Unary.paths : Unary → List (List Step)
  | .factor f => Step.above (.unary (.factor f)) f.paths
  | .signed sign operand loc => Step.above (.unary (.signed sign operand loc)) operand.paths

def Value.paths : Value → List (List Step)
  | .unary operand => Step.above (.value (.unary operand)) operand.paths
  | .leaf operand loc => Step.above (.value (.leaf operand loc)) operand.paths
  | .binary op left right loc =>
    Step.above (.value (.binary op left right loc)) (left.paths ++ right.paths)

def Slot.paths : Slot → List (List Step)
  | .mk target value loc => Step.above (.slot (.mk target value loc)) value.paths

def Slot.allPaths : List Slot → List (List Step)
  | [] => []
  | slot :: slots => slot.paths ++ Slot.allPaths slots

def Expr.paths : Expr → List (List Step)
  | .mk slots loc => Step.above (.expr (.mk slots loc)) (Slot.allPaths slots)

def Expr.allPaths : List Expr → List (List Step)
  | [] => []
  | expr :: exprs => expr.paths ++ Expr.allPaths exprs

def Expr.optionPaths : Option Expr → List (List Step)
  | none => []
  | some expr => expr.paths

def Statement.paths : Statement → List (List Step)
  | .branch condition yes no loc =>
    Step.above (.statement (.branch condition yes no loc))
      (condition.paths.map Step.fromCondition ++ (Statement.allPaths yes ++ Statement.allPaths no))
  | .loop condition body loc =>
    Step.above (.statement (.loop condition body loc))
      (condition.paths.map Step.fromCondition ++ Statement.allPaths body)
  | .declare v loc => [[.statement (.declare v loc)]]
  | .call callee args loc =>
    Step.above (.statement (.call callee args loc)) (callee.paths ++ Expr.allPaths args)
  | .ret value loc => Step.above (.statement (.ret value loc)) (Expr.optionPaths value)
  | .brk loc => [[.statement (.brk loc)]]
  | .cont loc => [[.statement (.cont loc)]]
  | .assign slot loc => Step.above (.statement (.assign slot loc)) slot.paths

def Statement.allPaths : List Statement → List (List Step)
  | [] => []
  | statement :: statements => statement.paths ++ Statement.allPaths statements

/-- The paths from the callee of a call. -/
def Function.paths : Function → List (List Step)
  | .mk name returns params locals body loc =>
    Step.above (.callee (.mk name returns params locals body loc)) (Statement.allPaths body)

end

theorem Statement.allPaths_append (first second : List Statement) :
    allPaths (first ++ second) = allPaths first ++ allPaths second := by
  induction first with
  | nil => rfl
  | cons statement first ih => simp [allPaths, ih]

theorem Statement.allPaths_singleton (s : Statement) : allPaths [s] = s.paths := by
  rw [allPaths, allPaths, List.append_nil]

/-! ### Open nodes on a path -/

/-- At most `n` nodes of each path are open constructs. -/
def Within (n : Nat) (paths : List (List Step)) : Prop :=
  ∀ path ∈ paths, path.countP Step.opens ≤ n

namespace Within

variable {m n : Nat} {paths more : List (List Step)}

theorem nil : Within n [] := by
  intro path hpath
  cases hpath

theorem mono (h : Within m paths) (hle : m ≤ n) : Within n paths := by
  intro path hpath
  exact Nat.le_trans (h path hpath) hle

theorem append (h : Within m paths) (hmore : Within n more) : Within (max m n) (paths ++ more) := by
  intro path hpath
  rcases List.mem_append.1 hpath with hpath | hpath
  · exact Nat.le_trans (h path hpath) (Nat.le_max_left ..)
  · exact Nat.le_trans (hmore path hpath) (Nat.le_max_right ..)

theorem leaf (step : Step) (hstep : step.opens = false) : Within n [[step]] := by
  intro path hpath
  rw [List.mem_singleton.1 hpath]
  simp [hstep]

/-- One more node on every path. -/
theorem above (step : Step) (h : Within n paths) :
    Within (n + step.opens.toNat) (step.above paths) := by
  have hcount : ∀ path : List Step,
      (step :: path).countP Step.opens = path.countP Step.opens + step.opens.toNat := by
    intro path
    cases hstep : step.opens <;> simp [hstep]
  intro path hpath
  cases paths with
  | nil =>
    rw [List.mem_singleton.1 hpath, hcount]
    exact Nat.add_le_add_right (Nat.zero_le n) _
  | cons first paths =>
    obtain ⟨below, hbelow, rfl⟩ := List.mem_map.1 hpath
    rw [hcount]
    exact Nat.add_le_add_right (h below hbelow) _

/-- An expression of one slot adds no open node to its value. -/
theorem plain {v : Value} {loc : Location} (h : Within n v.paths) :
    Within n (Grammar.plainExpr v loc).paths := by
  have hslot : Within n (Slot.allPaths [⟨none, v, loc⟩]) := by
    rw [Slot.allPaths, Slot.allPaths, List.append_nil]
    exact h.above (.slot ⟨none, v, loc⟩)
  exact hslot.above (.expr (Grammar.plainExpr v loc))

/-- Nothing is below the callee of a call. -/
theorem callee (name : String) (loc : Location) (h : Within n paths) :
    Within n ((Grammar.namedOnly name loc).paths ++ paths) := by
  have hcallee : Within n (Grammar.namedOnly name loc).paths := leaf _ rfl
  rw [← Nat.max_self n]
  exact hcallee.append h

end Within

/-! ### The depth of a derivation -/

namespace Grammar

section

variable {env : String → Variable}

mutual

theorem Factor.within : (t : Factor) → Within t.depth (t.image env).paths
  | .int .. | .char .. | .bool .. | .string .. | .var .. => .leaf _ rfl
  | .paren _ inner _ => inner.within.plain.above _
  | .call callee span _ args _ => (args.within.callee callee span.start).above _

theorem Unary.within : (t : Unary) → Within t.depth (t.image env).paths
  | .signed _ _ operand => operand.within.above _
  | .marked .. => (Within.leaf _ rfl).above _
  | .factor factor => factor.within.above _

theorem Chain.within {layers : List Layer} : (t : Chain layers) →
    Within t.depth (t.image env).paths
  | .unary operand => operand.within.above _
  | .layer first rest => rest.within (first.within.above _)

/-- The operands of a layer, if those so far have at most `n` open nodes. -/
theorem Links.within {layer : Layer} {below : List Layer} : (t : Links layer below) →
    {n : Nat} → {start : Location} → {left : Value} → Within n left.paths →
    Within (max n t.depth) (t.image env start left).paths
  | .nil, n, _, _, hleft => hleft.mono (Nat.le_max_left n 0)
  | .cons op _ _ operand rest, n, start, left, hleft => by
    have hbinary : Within (max n operand.depth)
        (Value.binary op left (operand.image env) start).paths :=
      (hleft.append operand.within).above _
    rw [Links.depth, ← Nat.max_assoc]
    exact rest.within hbinary

theorem Args.within : (t : Args) → Within t.depth (Expr.allPaths (t.image env))
  | .none => .nil
  | .some first rest => first.within.plain.append rest.within

theorem MoreArgs.within : (t : MoreArgs) → Within t.depth (Expr.allPaths (t.image env))
  | .nil => .nil
  | .cons _ arg rest => arg.within.plain.append rest.within

end

/-- The parentheses around a condition are not open. -/
theorem Condition.within (t : Condition) :
    Within t.inner.depth ((t.image env).paths.map Step.fromCondition) := by
  have hpaths : (t.image env).paths.map Step.fromCondition =
      Step.above (.condition (t.image env)) (t.inner.expr env).paths := by
    show (Step.above (.factor (t.image env)) (t.inner.expr env).paths).map Step.fromCondition = _
    cases (t.inner.expr env).paths with
    | nil => rfl
    | cons path paths =>
      rw [Step.above, Step.above, List.map_map]
      rfl
  rw [hpaths]
  exact t.inner.within.plain.above _

mutual

theorem Statement.within : (t : Statement) → Within t.depth (Statement.allPaths (t.image env))
  | .block _ inner _ => inner.within.mono (Nat.le_succ _)
  | .branch _ condition yes => by
    have hno : Within 0 (Statement.allPaths []) := .nil
    have hcondition : Within condition.inner.depth
        ((condition.image env).paths.map Step.fromCondition) := condition.within
    have hparts := hcondition.append (yes.within.append hno)
    rw [Nat.max_zero] at hparts
    rw [Statement.image, Statement.allPaths_singleton]
    exact hparts.above _
  | .branchElse _ condition yes _ no => by
    rw [Statement.image, Statement.allPaths_singleton]
    exact (condition.within.append (yes.within.append no.within)).above _
  | .loop _ condition body => by
    rw [Statement.image, Statement.allPaths_singleton]
    exact (condition.within.append body.within).above _
  | .brk .. | .cont .. => .leaf _ rfl
  | .ret _ value _ => by
    rw [Statement.image, Statement.allPaths_singleton]
    cases value with
    | none => exact .leaf _ rfl
    | some e => exact e.within.plain.above _
  | .declare declaration => .leaf _ rfl
  | .call _ _ _ args _ _ => by
    rw [Statement.image, Statement.allPaths_singleton]
    exact (args.within.callee _ _).above _
  | .assign _ _ _ _ value _ => by
    rw [Statement.image, Statement.allPaths_singleton]
    exact (value.within.above _).above _
  | .empty _ => .nil

theorem Body.within : (t : Body) → Within t.depth (Statement.allPaths (t.image env))
  | .block _ inner _ => inner.within
  | .single statement => statement.within

theorem Statements.within : (t : Statements) → Within t.depth (Statement.allPaths (t.image env))
  | .nil => .nil
  | .cons first rest => by
    rw [Statements.image, Shc.Statement.allPaths_append]
    exact first.within.append rest.within

end

end

end Grammar
end Shc
