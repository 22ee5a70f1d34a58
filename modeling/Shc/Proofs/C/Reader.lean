import Mathlib.Data.List.Forall2
import Shc.Proofs.C.Lexis

/-!
# Expressions of C

The trees of C expressions and how C reads them: binary operators by precedence, each
row of one precedence grouping to the left, then the operators in front of an operand,
then calls.  Parentheses leave no trace in the tree.

A reader takes the tokens of an expression from the front.  The number that bounds the
nesting is never felt: as many levels as there are tokens are always enough.
-/

namespace Shc.C

inductive UnaryOp where
  | plus | minus | deref | address
deriving DecidableEq, Repr

namespace UnaryOp

def text : UnaryOp → String
  | plus => "+"
  | minus => "-"
  | deref => "*"
  | address => "&"

def ofToken? : Token → Option UnaryOp
  | .punct text => [plus, minus, deref, address].find? (·.text = text)
  | _ => none

end UnaryOp

inductive Tree where
  | word (text : String)
  | number (value : Nat)
  | string (value : String)
  | call (callee : Tree) (args : List Tree)
  | unary (op : UnaryOp) (operand : Tree)
  | binary (op : Operator) (left right : Tree)
deriving Repr

namespace Tree

mutual

def same : Tree → Tree → Bool
  | .word text, .word text' => text == text'
  | .number value, .number value' => value == value'
  | .string value, .string value' => value == value'
  | .call callee args, .call callee' args' => callee.same callee' && sameAll args args'
  | .unary op operand, .unary op' operand' => op == op' && operand.same operand'
  | .binary op left right, .binary op' left' right' =>
    op == op' && left.same left' && right.same right'
  | _, _ => false

def sameAll : List Tree → List Tree → Bool
  | [], [] => true
  | t :: ts, t' :: ts' => t.same t' && sameAll ts ts'
  | _, _ => false

end

mutual

theorem same_iff : ∀ t t' : Tree, t.same t' = true ↔ t = t'
  | .word _, t' => by cases t' <;> simp [same]
  | .number _, t' => by cases t' <;> simp [same]
  | .string _, t' => by cases t' <;> simp [same]
  | .call callee args, t' => by cases t' <;> simp [same, callee.same_iff, sameAll_iff args]
  | .unary _ operand, t' => by cases t' <;> simp [same, operand.same_iff]
  | .binary _ left right, t' => by
    cases t' <;> simp [same, left.same_iff, right.same_iff, and_assoc]

theorem sameAll_iff : ∀ ts ts' : List Tree, sameAll ts ts' = true ↔ ts = ts'
  | [], ts' => by cases ts' <;> simp [sameAll]
  | t :: ts, ts' => by cases ts' <;> simp [sameAll, t.same_iff, sameAll_iff ts]

end

instance : DecidableEq Tree := fun t t' =>
  decidable_of_iff _ (t.same_iff t')

end Tree

/-- Punctuators of one precedence and the operators that they are. -/
abbrev Operators := List (String × Operator)

/-- The binary operators of C by precedence, the loosest first. -/
def precedence : List Operators :=
  [[("||", .or)], [("&&", .and)], [("==", .eq), ("!=", .ne)],
    [("<", .lt), ("<=", .le), (">", .gt), (">=", .ge)], [("+", .add), ("-", .sub)],
    [("*", .mul), ("/", .div), ("%", .mod)]]

def operator? (ops : Operators) : Token → Option Operator
  | .punct text => ops.lookup text
  | _ => none

/-! ### Reading -/

/-- Something is read from the front of the tokens. -/
abbrev Reader (α : Type) := List Token → Option (α × List Token)

/-- The operators of one precedence and their operands, behind a first operand. -/
def links (operand : Reader Tree) (ops : Operators) : Nat → Tree → Reader Tree
  | 0, left, ts => some (left, ts)
  | n + 1, left, ts =>
    match ts.head?.bind (operator? ops) with
    | none => some (left, ts)
    | some op =>
      (operand ts.tail).bind fun r => links operand ops n (.binary op left r.1) r.2

/-- An expression of the given precedences. -/
def chain (operand : Reader Tree) : List Operators → Reader Tree
  | [], ts => operand ts
  | ops :: tighter, ts =>
    (chain operand tighter ts).bind fun r =>
      links (chain operand tighter) ops r.2.length r.1 r.2

/-- One argument or more, and the parenthesis behind them. -/
def arguments (value : Reader Tree) : Nat → Reader (List Tree)
  | 0, _ => none
  | n + 1, ts =>
    (value ts).bind fun r =>
      match r.2 with
      | .punct "," :: rest => (arguments value n rest).map fun s => (r.1 :: s.1, s.2)
      | .punct ")" :: rest => some ([r.1], rest)
      | _ => none

def calls (value : Reader Tree) : Nat → Tree → Reader Tree
  | 0, callee, ts => some (callee, ts)
  | n + 1, callee, ts =>
    match ts with
    | .punct "(" :: .punct ")" :: rest => calls value n (.call callee []) rest
    | .punct "(" :: rest =>
      (arguments value rest.length rest).bind fun r => calls value n (.call callee r.1) r.2
    | _ => some (callee, ts)

/-- A word, a constant or an expression in parentheses, from its first token on. -/
def atom (value : Reader Tree) : Token → Reader Tree
  | .word text, ts => some (.word text, ts)
  | .number n, ts => some (.number n, ts)
  | .string text, ts => some (.string text, ts)
  | .punct "(", ts =>
    (value ts).bind fun r =>
      match r.2 with
      | .punct ")" :: rest => some (r.1, rest)
      | _ => none
  | .punct _, _ => none

/-- An operand: operators, an atom and its calls. -/
def unary : Nat → Reader Tree
  | 0, _ => none
  | _ + 1, [] => none
  | n + 1, t :: ts =>
    match UnaryOp.ofToken? t with
    | some op => (unary n ts).map fun r => (.unary op r.1, r.2)
    | none =>
      (atom (chain (unary n) precedence) t ts).bind fun r =>
        calls (chain (unary n) precedence) r.2.length r.1 r.2

def read (text : String) : Option Tree :=
  (lex text.toList).bind fun ts =>
    match chain (unary ts.length) precedence ts with
    | some (tree, []) => some tree
    | _ => none

/-! ### Binary operators -/

def NoOperator (layers : List Operators) (ts : List Token) : Prop :=
  ∀ ops ∈ layers, ts.head?.bind (operator? ops) = none

section

variable {operand : Reader Tree} {layers : List Operators} {ts rest : List Token}
  {tree : Tree}

theorem links_of_none {ops : Operators} (h : ts.head?.bind (operator? ops) = none) (n : Nat)
    (left : Tree) : links operand ops n left ts = some (left, ts) := by
  cases n with
  | zero => rfl
  | succ n => rw [links, h]

theorem chain_cons {ops : Operators} (h : chain operand layers ts = some (tree, rest))
    (hrest : rest.head?.bind (operator? ops) = none) :
    chain operand (ops :: layers) ts = some (tree, rest) := by
  rw [chain, h, Option.bind_some, links_of_none hrest]

theorem chain_append (h : chain operand layers ts = some (tree, rest))
    {looser : List Operators} (hrest : NoOperator looser rest) :
    chain operand (looser ++ layers) ts = some (tree, rest) := by
  induction looser with
  | nil => exact h
  | cons ops looser ih =>
    obtain ⟨hops, hlooser⟩ := List.forall_mem_cons.1 hrest
    exact chain_cons (ih hlooser) hops

theorem chain_of_operand (h : operand ts = some (tree, rest)) (hrest : NoOperator layers rest) :
    chain operand layers ts = some (tree, rest) := by
  have hnil : chain operand [] ts = some (tree, rest) := h
  have hall := chain_append hnil hrest
  rwa [List.append_nil] at hall

end

theorem precedence_split (op : Operator) :
    ∃ looser ops tighter, precedence = looser ++ ops :: tighter ∧
      operator? ops (.punct op.text) = some op ∧
      ∀ ops' ∈ tighter, operator? ops' (.punct op.text) = none := by
  cases op with
  | or => exact ⟨precedence.take 0, _, precedence.drop 1, rfl, rfl, by decide⟩
  | and => exact ⟨precedence.take 1, _, precedence.drop 2, rfl, rfl, by decide⟩
  | eq | ne => exact ⟨precedence.take 2, _, precedence.drop 3, rfl, rfl, by decide⟩
  | lt | le | gt | ge => exact ⟨precedence.take 3, _, precedence.drop 4, rfl, rfl, by decide⟩
  | add | sub => exact ⟨precedence.take 4, _, precedence.drop 5, rfl, rfl, by decide⟩
  | mul | div | mod => exact ⟨precedence.take 5, _, precedence.drop 6, rfl, rfl, by decide⟩

/-- Two operands with an operator between them are read as one binary expression. -/
theorem chain_binary {operand : Reader Tree} {op : Operator} {ts us rest : List Token}
    {left right : Tree} (hleft : operand ts = some (left, .punct op.text :: us))
    (hright : operand us = some (right, rest)) (hrest : NoOperator precedence rest) :
    chain operand precedence ts = some (.binary op left right, rest) := by
  obtain ⟨looser, ops, tighter, hsplit, hop, htighter⟩ := precedence_split op
  rw [hsplit] at hrest ⊢
  obtain ⟨hlooser, hrest⟩ := List.forall_mem_append.1 hrest
  obtain ⟨hops, hrest⟩ := List.forall_mem_cons.1 hrest
  refine chain_append ?_ hlooser
  have hfirst : chain operand tighter ts = some (left, .punct op.text :: us) :=
    chain_of_operand hleft htighter
  have hsecond : chain operand tighter us = some (right, rest) := chain_of_operand hright hrest
  have hnext : (Token.punct op.text :: us).head?.bind (operator? ops) = some op := hop
  rw [chain, hfirst, Option.bind_some]
  dsimp only
  rw [List.length_cons, links, hnext]
  dsimp only
  rw [List.tail_cons, hsecond, Option.bind_some, links_of_none hops]

/-! ### Tokens of trees -/

/-- The tokens are an operand, wherever no call of it follows. -/
def Reads (tree : Tree) (ts : List Token) : Prop :=
  ∀ n rest, ts.length ≤ n → rest.head? ≠ some (.punct "(") →
    unary n (ts ++ rest) = some (tree, rest)

/-- A list of arguments, an expression in parentheses or the text ends here. -/
def Ends (rest : List Token) : Prop :=
  ∀ t ∈ rest.head?, t = .punct ")" ∨ t = .punct ","

/-- The tokens are an expression, wherever it ends behind them. -/
def ReadsWhole (tree : Tree) (ts : List Token) : Prop :=
  ∀ n rest, ts.length ≤ n → Ends rest → chain (unary n) precedence (ts ++ rest) = some (tree, rest)

theorem ends_rparen (rest : List Token) : Ends (.punct ")" :: rest) :=
  fun _ ht => .inl (Option.some.inj ht).symm

theorem ends_comma (rest : List Token) : Ends (.punct "," :: rest) :=
  fun _ ht => .inr (Option.some.inj ht).symm

theorem Ends.noOperator {rest : List Token} (h : Ends rest) : NoOperator precedence rest := by
  have hrparen : ∀ ops ∈ precedence, operator? ops (.punct ")") = none := by decide
  have hcomma : ∀ ops ∈ precedence, operator? ops (.punct ",") = none := by decide
  cases rest with
  | nil => exact fun _ _ => rfl
  | cons t rest =>
    rcases h t rfl with rfl | rfl
    · exact hrparen
    · exact hcomma

theorem Ends.ne_lparen {rest : List Token} (h : Ends rest) :
    rest.head? ≠ some (.punct "(") := by
  intro hhead
  rcases h _ hhead with heq | heq
  · exact absurd heq (by decide)
  · exact absurd heq (by decide)

theorem Reads.whole {tree : Tree} {ts : List Token} (h : Reads tree ts) : ReadsWhole tree ts :=
  fun n rest hn hrest => chain_of_operand (h n rest hn hrest.ne_lparen) hrest.noOperator

theorem readsWhole_binary {left right : Tree} {ts us : List Token} (op : Operator)
    (hleft : Reads left ts) (hright : Reads right us) :
    ReadsWhole (.binary op left right) (ts ++ .punct op.text :: us) := by
  intro n rest hn hrest
  rw [List.length_append, List.length_cons] at hn
  have htext : ∀ op : Operator, some (Token.punct op.text) ≠ some (.punct "(") := by
    intro op
    cases op <;> decide
  have hop : (Token.punct op.text :: (us ++ rest)).head? ≠ some (.punct "(") := htext op
  have hfirst := hleft n (.punct op.text :: (us ++ rest)) (by omega) hop
  have hsecond := hright n rest (by omega) hrest.ne_lparen
  rw [List.append_assoc, List.cons_append]
  exact chain_binary hfirst hsecond hrest.noOperator

/-! ### Operands -/

theorem calls_of_ne {value : Reader Tree} {rest : List Token}
    (h : rest.head? ≠ some (.punct "(")) (n : Nat) (callee : Tree) :
    calls value n callee rest = some (callee, rest) := by
  cases n with
  | zero => rfl
  | succ n =>
    cases rest with
    | nil => rfl
    | cons t rest =>
      have ht : t ≠ .punct "(" := by simpa using h
      unfold calls
      split
      · rename_i heq
        exact absurd (List.cons.inj heq).1 ht
      · rename_i heq
        exact absurd (List.cons.inj heq).1 ht
      · rfl

theorem reads_atom {t : Token} {tree : Tree} (hop : UnaryOp.ofToken? t = none)
    (hatom : ∀ value ts, atom value t ts = some (tree, ts)) : Reads tree [t] := by
  intro n rest hn hrest
  obtain ⟨n, rfl⟩ := Nat.exists_eq_succ_of_ne_zero (Nat.ne_zero_of_lt hn)
  rw [List.cons_append, List.nil_append, unary, hop]
  dsimp only
  rw [hatom, Option.bind_some, calls_of_ne hrest]

theorem reads_unary {tree : Tree} {ts : List Token} (op : UnaryOp) (h : Reads tree ts) :
    Reads (.unary op tree) (.punct op.text :: ts) := by
  intro n rest hn hrest
  rw [List.length_cons] at hn
  obtain ⟨n, rfl⟩ := Nat.exists_eq_succ_of_ne_zero (Nat.ne_zero_of_lt hn)
  have hop : UnaryOp.ofToken? (.punct op.text) = some op := by cases op <;> rfl
  rw [List.cons_append, unary, hop]
  dsimp only
  rw [h n rest (by omega) hrest]
  rfl

theorem reads_parens {tree : Tree} {ts : List Token} (h : ReadsWhole tree ts) :
    Reads tree (.punct "(" :: (ts ++ [.punct ")"])) := by
  intro n rest hn hrest
  rw [List.length_cons, List.length_append] at hn
  obtain ⟨n, rfl⟩ := Nat.exists_eq_succ_of_ne_zero (Nat.ne_zero_of_lt hn)
  have hinner := h n (.punct ")" :: rest) (by omega) (ends_rparen rest)
  rw [List.cons_append, List.append_assoc, List.singleton_append, unary]
  have hop : UnaryOp.ofToken? (.punct "(") = none := rfl
  rw [hop]
  dsimp only
  rw [atom, hinner]
  dsimp only [Option.bind_some]
  exact calls_of_ne hrest _ _

/-! ### Calls -/

def separated : List (List Token) → List Token
  | [] => []
  | [ts] => ts
  | ts :: tss => ts ++ .punct "," :: separated tss

theorem separated_cons (ts us : List Token) (tss : List (List Token)) :
    separated (ts :: us :: tss) = ts ++ .punct "," :: separated (us :: tss) :=
  rfl

theorem length_separated (tss : List (List Token)) : tss.length ≤ (separated tss).length + 1 := by
  induction tss with
  | nil => exact Nat.zero_le _
  | cons ts tss ih =>
    cases tss with
    | nil => simp
    | cons us tss =>
      simp only [separated_cons, List.length_append, List.length_cons] at ih ⊢
      omega

theorem length_le_separated {ts : List Token} {tss : List (List Token)} (h : ts ∈ tss) :
    ts.length ≤ (separated tss).length := by
  induction tss with
  | nil => exact absurd h (by simp)
  | cons us tss ih =>
    cases tss with
    | nil =>
      rw [List.mem_singleton] at h
      rw [h, separated]
    | cons vs tss =>
      rw [separated_cons, List.length_append, List.length_cons]
      rcases List.mem_cons.1 h with rfl | hmem
      · omega
      · have hle := ih hmem
        omega

theorem chain_eq_none {operand : Reader Tree} {ts : List Token} (h : operand ts = none)
    (layers : List Operators) : chain operand layers ts = none := by
  induction layers with
  | nil => exact h
  | cons ops layers ih => rw [chain, ih, Option.bind_none]

/-- No expression starts with a closing parenthesis. -/
theorem ReadsWhole.head?_ne {tree : Tree} {ts : List Token} (h : ReadsWhole tree ts)
    {rest : List Token} (hrest : Ends rest) : (ts ++ rest).head? ≠ some (.punct ")") := by
  intro hhead
  obtain ⟨us, hus⟩ := List.head?_eq_some_iff.1 hhead
  have hread := h ts.length rest (Nat.le_refl _) hrest
  have hnone : unary ts.length (.punct ")" :: us) = none := by
    cases ts.length with
    | zero => rfl
    | succ n => rfl
  rw [hus, chain_eq_none hnone] at hread
  exact absurd hread (by simp)

theorem arguments_separated {k : Nat} {tree : Tree} {ts : List Token} {trees : List Tree}
    {tss : List (List Token)} (hfirst : ReadsWhole tree ts)
    (hrest : List.Forall₂ ReadsWhole trees tss) (hk : ∀ us ∈ ts :: tss, us.length ≤ k) {n : Nat}
    (hn : tss.length < n) (rest : List Token) :
    arguments (chain (unary k) precedence) n (separated (ts :: tss) ++ .punct ")" :: rest) =
      some (tree :: trees, rest) := by
  induction hrest generalizing tree ts n with
  | nil =>
    obtain ⟨n, rfl⟩ := Nat.exists_eq_succ_of_ne_zero (Nat.ne_zero_of_lt hn)
    rw [arguments, separated, hfirst k _ (hk ts List.mem_cons_self) (ends_rparen rest)]
    rfl
  | @cons tree' ts' trees tss hsecond _ ih =>
    obtain ⟨hts, htss⟩ := List.forall_mem_cons.1 hk
    obtain ⟨n, rfl⟩ := Nat.exists_eq_succ_of_ne_zero (Nat.ne_zero_of_lt hn)
    have hmore := ih hsecond htss (n := n) (by simp only [List.length_cons] at hn; omega)
    rw [arguments, separated_cons, List.append_assoc, List.cons_append,
      hfirst k _ hts (ends_comma _)]
    simp only [Option.bind_some, hmore, Option.map_some]

theorem calls_arguments {value : Reader Tree} {ts rest : List Token} {trees : List Tree}
    (hargs : arguments value ts.length ts = some (trees, rest))
    (hts : ts.head? ≠ some (.punct ")")) (hrest : rest.head? ≠ some (.punct "(")) (n : Nat)
    (callee : Tree) :
    calls value (n + 1) callee (.punct "(" :: ts) = some (.call callee trees, rest) := by
  unfold calls
  split
  · rename_i heq
    rw [(List.cons.inj heq).2] at hts
    exact absurd rfl hts
  · rename_i heq
    rw [← (List.cons.inj heq).2, hargs]
    exact calls_of_ne hrest n _
  · rename_i hother
    exact absurd rfl (hother ts)

theorem reads_call {name : String} {trees : List Tree} {tss : List (List Token)}
    (h : List.Forall₂ ReadsWhole trees tss) :
    Reads (.call (.word name) trees)
      (.word name :: .punct "(" :: (separated tss ++ [.punct ")"])) := by
  intro n rest hn hrest
  simp only [List.length_cons, List.length_append, List.length_nil] at hn
  obtain ⟨n, rfl⟩ := Nat.exists_eq_succ_of_ne_zero (Nat.ne_zero_of_lt hn)
  rw [List.cons_append, List.cons_append, List.append_assoc, List.singleton_append, unary]
  have hop : UnaryOp.ofToken? (.word name) = none := rfl
  rw [hop]
  dsimp only [atom, Option.bind_some]
  rw [List.length_cons]
  cases h with
  | nil =>
    rw [separated, List.nil_append, calls]
    exact calls_of_ne hrest _ _
  | @cons tree ts trees tss hfirst hmore =>
    have hargs := arguments_separated (k := n) hfirst hmore
      (fun us hus => Nat.le_trans (length_le_separated hus) (by omega))
      (n := (separated (ts :: tss) ++ .punct ")" :: rest).length)
      (by have hle := length_separated (ts :: tss)
          simp only [List.length_cons, List.length_append] at hle ⊢
          omega) rest
    have hne : (separated (ts :: tss) ++ .punct ")" :: rest).head? ≠ some (.punct ")") := by
      cases tss with
      | nil => exact hfirst.head?_ne (ends_rparen rest)
      | cons us tss =>
        rw [separated_cons, List.append_assoc]
        exact hfirst.head?_ne (ends_comma _)
    exact calls_arguments hargs hne hrest _ _

/-! ### Whole texts -/

theorem read_of_readsWhole {follow : List Char → Prop} {text : String} {ts : List Token}
    {tree : Tree} (hspells : Spells follow text ts) (hnil : follow [])
    (hreads : ReadsWhole tree ts) : read text = some tree := by
  have hlex : lex text.toList = some ts := hspells.whole hnil (by rw [lex])
  have hends : Ends [] := fun _ ht => absurd ht (by simp)
  have htree := hreads ts.length [] (Nat.le_refl _) hends
  rw [List.append_nil] at htree
  rw [read, hlex, Option.bind_some, htree]

end Shc.C
