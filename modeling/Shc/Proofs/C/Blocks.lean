import Shc.Proofs.C.Emission
import Shc.Proofs.C.Rows

/-!
# Blocks of lines

The statements of a function and the lines that are written for them are two views of one
tree.  `Block` is this tree with the C texts in it: `Statement.cBlock` builds it from a
statement, `Block.rows` lists its lines, and a reader that goes through the lines and keeps
the bodies that are still open builds it again.
-/

namespace Shc

namespace C

/-- A statement with all its bodies.  A branch without a second body has no `else`. -/
inductive Block where
  | simple (s : Simple)
  | ifThen (condition : String) (yes : List Block)
  | ifElse (condition : String) (yes no : List Block)
  | loop (condition : String) (body : List Block)

mutual

/-- The lines of a statement and their levels. -/
def Block.rows (level : Nat) : Block → List (Nat × Row)
  | .simple s => [(level, .simple s)]
  | .ifThen condition yes =>
    (level, .ifHead condition) :: (Block.allRows (level + 1) yes ++ [(level, .leave)])
  | .ifElse condition yes no =>
    (level, .ifHead condition) :: (Block.allRows (level + 1) yes ++
      (level, .otherwise) :: (Block.allRows (level + 1) no ++ [(level, .leave)]))
  | .loop condition body =>
    (level, .whileHead condition) :: (Block.allRows (level + 1) body ++ [(level, .leave)])

def Block.allRows (level : Nat) : List Block → List (Nat × Row)
  | [] => []
  | block :: blocks => block.rows level ++ Block.allRows level blocks

end

/-! ### Nesting -/

/-- A body that is being read: the first one of a branch, the second one, or that of a loop. -/
inductive Frame where
  | yes (condition : String)
  | no (condition : String) (yes : List Block)
  | body (condition : String)

/-- How far the reading has come.  `done` is what the innermost body has so far, and `outer`
    has for each open body what stands in front of it in the body around it. -/
inductive Nesting where
  | within (done : List Block) (outer : List (Frame × List Block))
  | finished (blocks : List Block)

/-- Read one more line. -/
def Nesting.step : Nesting → Row → Option Nesting
  | .within done outer, .simple s => some (.within (done ++ [.simple s]) outer)
  | .within done outer, .ifHead condition => some (.within [] ((.yes condition, done) :: outer))
  | .within done outer, .whileHead condition =>
    some (.within [] ((.body condition, done) :: outer))
  | .within yes ((.yes condition, done) :: outer), .otherwise =>
    some (.within [] ((.no condition yes, done) :: outer))
  | .within yes ((.yes condition, done) :: outer), .leave =>
    some (.within (done ++ [.ifThen condition yes]) outer)
  | .within no ((.no condition yes, done) :: outer), .leave =>
    some (.within (done ++ [.ifElse condition yes no]) outer)
  | .within body ((.body condition, done) :: outer), .leave =>
    some (.within (done ++ [.loop condition body]) outer)
  | .within blocks [], .leave => some (.finished blocks)
  | _, _ => none

/-- What was read, if the function is closed. -/
def Nesting.blocks? : Nesting → Option (List Block)
  | .within _ _ => none
  | .finished blocks => some blocks

/-- The statements of a body, read from its lines through the one that closes it. -/
def readBody (rows : List Row) : Option (List Block) :=
  (rows.foldlM Nesting.step (.within [] [])).bind Nesting.blocks?

/-- The signature of a function and its statements, read from its text. -/
def readFunction (text : String) : Option (String × List Block) :=
  match Text.lines text.toList with
  | [] => none
  | first :: later => do
    let signature ← between "" " \x7b" first
    let blocks ← readBody (← later.mapM Row.ofLine)
    return (signature, blocks)

namespace Nesting

/-- The lines take the reading from one point to another. -/
def Goes (rows : List (Nat × Row)) (a b : Nesting) : Prop :=
  (rows.map Prod.snd).foldlM step a = some b

variable {a b c : Nesting} {rows rows' : List (Nat × Row)}

theorem goes_nil : Goes [] a a :=
  rfl

theorem goes_cons {level : Nat} {r : Row} (h : a.step r = some b) (h' : Goes rows b c) :
    Goes ((level, r) :: rows) a c := by
  rw [Goes, List.map_cons, List.foldlM_cons, h]
  exact h'

theorem Goes.append (h : Goes rows a b) (h' : Goes rows' b c) : Goes (rows ++ rows') a c := by
  rw [Goes, List.map_append, List.foldlM_append, h]
  exact h'

end Nesting

open Nesting (goes_nil goes_cons)

mutual

/-- The lines of a statement add this statement to what was read.  Its head opens a frame,
    and the line that closes it takes the same frame off again. -/
theorem Block.goes_rows (level : Nat) : (block : Block) → (done : List Block) →
    (outer : List (Frame × List Block)) →
    Nesting.Goes (block.rows level) (.within done outer) (.within (done ++ [block]) outer)
  | .simple _, _, _ => goes_cons rfl goes_nil
  | .ifThen condition yes, done, outer => by
    have hyes := Block.goes_allRows (level + 1) yes [] ((.yes condition, done) :: outer)
    exact goes_cons rfl (hyes.append (goes_cons rfl goes_nil))
  | .ifElse condition yes no, done, outer => by
    have hyes := Block.goes_allRows (level + 1) yes [] ((.yes condition, done) :: outer)
    have hno := Block.goes_allRows (level + 1) no [] ((.no condition yes, done) :: outer)
    exact goes_cons rfl (hyes.append (goes_cons rfl (hno.append (goes_cons rfl goes_nil))))
  | .loop condition body, done, outer => by
    have hbody := Block.goes_allRows (level + 1) body [] ((.body condition, done) :: outer)
    exact goes_cons rfl (hbody.append (goes_cons rfl goes_nil))

theorem Block.goes_allRows (level : Nat) : (blocks : List Block) → (done : List Block) →
    (outer : List (Frame × List Block)) →
    Nesting.Goes (Block.allRows level blocks) (.within done outer) (.within (done ++ blocks) outer)
  | [], done, outer => by
    rw [List.append_nil]
    exact goes_nil
  | block :: blocks, done, outer => by
    have hfirst := Block.goes_rows level block done outer
    have hrest := Block.goes_allRows level blocks (done ++ [block]) outer
    rw [List.append_assoc, List.singleton_append] at hrest
    exact hfirst.append hrest

end

/-- The lines of a body and the one that closes it are read as its statements. -/
theorem readBody_allRows (level : Nat) (blocks : List Block) :
    readBody ((Block.allRows level blocks ++ [(0, Row.leave)]).map Prod.snd) = some blocks := by
  have hbody := Block.goes_allRows level blocks [] []
  have hall : Nesting.Goes (Block.allRows level blocks ++ [(0, Row.leave)]) (.within [] [])
      (.finished blocks) := hbody.append (goes_cons rfl goes_nil)
  rw [readBody, hall]
  rfl

/-- A row as a line. -/
def Row.line (p : Nat × Row) : Line :=
  ⟨p.1, p.2.text⟩

end C

/-! ### The blocks of statements -/

mutual

/-- The block that a statement is in C, if all its texts can be written. -/
def Statement.cBlock : Statement → Except C.Error C.Block
  | .branch condition yes no _ => do
    let text ← condition.cCondition
    let blocks ← Statement.cBlocks yes
    match no with
    | [] => return .ifThen text blocks
    | _ :: _ => return .ifElse text blocks (← Statement.cBlocks no)
  | .loop condition body _ => do
    return .loop (← condition.cCondition) (← Statement.cBlocks body)
  | .declare v _ => do return .simple (.other (← v.declaration))
  | .call callee args _ => do return .simple (.other (cCall callee.name (← Expr.cTexts args)))
  | .ret (some value) _ => do return .simple (.ret (some (← value.cText)))
  | .ret none _ => return .simple (.ret none)
  | .brk _ => return .simple .brk
  | .cont _ => return .simple .cont
  | .assign slot _ => do return .simple (.other (← slot.cText))

def Statement.cBlocks : List Statement → Except C.Error (List C.Block)
  | [] => return []
  | statement :: statements => do
    return (← statement.cBlock) :: (← Statement.cBlocks statements)

end

namespace C

open Text (Unbroken unbroken_append)

/-- The rows that are always the same. -/
theorem Row.proper_constant (r : Row)
    (h : r ∈ [otherwise, leave, simple (.ret none), simple .brk, simple .cont]) : r.Proper := by
  simp only [List.mem_cons, List.not_mem_nil, or_false] at h
  rcases h with rfl | rfl | rfl | rfl | rfl <;>
    exact ⟨inLine_of_all (by decide), by simp [Legible], by simp⟩

theorem Row.proper_head {condition : Factor} (hwell : condition.WellFormed) {text : String}
    (h : condition.cCondition = .ok text) :
    (ifHead text).Proper ∧ (whileHead text).Proper := by
  have htext := condition.assembled_cCondition assembles_unbroken hwell h
  have henclosed := condition.enclosed_cCondition hwell h
  have hbrace : Unbroken " \x7b" := inLine_of_all (by decide)
  have hhead : ∀ {front : String}, Unbroken front → Unbroken (front ++ text ++ " \x7b") :=
    fun hfront => unbroken_append.2 ⟨unbroken_append.2 ⟨hfront, htext⟩, hbrace⟩
  constructor
  · refine ⟨hhead (inLine_of_all (by decide)), by simp [Legible], ?_⟩
    rintro _ (heq | heq) <;> cases heq
    exact henclosed
  · refine ⟨hhead (inLine_of_all (by decide)), by simp [Legible], ?_⟩
    rintro _ (heq | heq) <;> cases heq
    exact henclosed

theorem Row.proper_ret {text : String} (h : Unbroken text) :
    (simple (.ret (some text))).Proper := by
  refine ⟨?_, by simp [Legible], by simp⟩
  exact unbroken_append.2
    ⟨unbroken_append.2 ⟨inLine_of_all (by decide), h⟩, inLine_of_all (by decide)⟩

theorem Row.proper_other {text : String} (hunbroken : Unbroken text) (hother : Other text) :
    (simple (.other text)).Proper := by
  refine ⟨unbroken_append.2 ⟨hunbroken, inLine_of_all (by decide)⟩, ?_, by simp⟩
  rintro _ heq
  cases heq
  exact hother

end C

open C (Row assembles_unbroken)

/-! ### The lines of statements -/

namespace Emission

/-- The lines that were written are these rows. -/
structure Shows (e : Emission) (rows : List (Nat × Row)) : Prop where
  lines_eq : e.lines = rows.map Row.line
  proper : ∀ p ∈ rows, p.2.Proper

variable {rows rows' : List (Nat × Row)}

theorem shows_empty : empty.Shows [] :=
  ⟨rfl, fun _ hp => absurd hp List.not_mem_nil⟩

theorem shows_line {r : Row} (h : r.Proper) (level : Nat) :
    (line level r.text).Shows [(level, r)] :=
  ⟨rfl, List.forall_mem_singleton.2 h⟩

theorem Shows.andThen {a b : Emission} (hok : a.failure = none) (ha : a.Shows rows)
    (hb : b.Shows rows') : (a.andThen b).Shows (rows ++ rows') := by
  constructor
  · rw [Emission.andThen, hok, List.map_append, ← ha.lines_eq, ← hb.lines_eq]
  · exact List.forall_mem_append.2 ⟨ha.proper, hb.proper⟩

end Emission

open Emission (failure_andThen ok_of_tryLine shows_empty shows_line)

/-- A statement on one line. -/
theorem Statement.shows_tryLine {α : Type} {level : Nat} {x : Except C.Error α} {f : α → String}
    (simple : α → C.Simple) (hf : ∀ a, (simple a).text = f a)
    (hproper : ∀ a, x = .ok a → (Row.simple (simple a)).Proper)
    (hok : (Emission.tryLine level do return f (← x)).failure = none) :
    ∃ block, (do return C.Block.simple (simple (← x))) = (.ok block : Except C.Error C.Block) ∧
      (Emission.tryLine level do return f (← x)).Shows (block.rows level) := by
  rcases ok_of_tryLine hok with ⟨a, rfl⟩
  refine ⟨_, rfl, ?_⟩
  have hline := shows_line (hproper a rfl) level
  rw [Row.text, hf] at hline
  exact hline

theorem C.Other.of_call {callee : String} (hname : Lexeme.IsName callee) {texts : List String} :
    C.Other (cCall callee texts) := by
  refine .of_name hname ?_
  rw [inParens, String.append_assoc]
  exact StartsIn.append (by decide) _

theorem Variable.other_declaration {v : Variable} {text : String} (h : v.declaration = .ok text) :
    C.Other text := by
  unfold declaration at h
  split at h
  · cases h
  · cases h
    rw [Ty.declarator, String.append_assoc, String.append_assoc]
    cases v.type.base <;>
      exact .of_word (by decide) (by decide) (by decide) (StartsIn.append (by decide) _)

theorem Slot.other_cText {target : Reference} {value : Value} {loc : Location}
    (hname : Lexeme.IsName target.name) {text : String}
    (h : (Slot.mk (some target) value loc).cText = .ok text) : C.Other text := by
  rcases except_bind_eq_ok.1 h with ⟨right, -, h⟩
  rcases except_bind_eq_ok.1 h with ⟨left, hleft, htext⟩
  rcases except_bind_eq_ok.1 hleft with ⟨i, -, hleft⟩
  cases htext
  cases i with
  | addressOf => cases hleft
  | deref count =>
    cases hleft
    cases count with
    | zero =>
      rw [show (Indirection.deref 0).text = "" from rfl, String.empty_append, String.append_assoc]
      exact .of_name hname (StartsIn.append (by decide) right)
    | succ count =>
      -- a star is in front, so the line has no word at its start
      have hchars : ((Indirection.deref (count + 1)).text ++ target.name ++ " = " ++ right).toList =
          '*' :: ((Indirection.deref count).text ++ target.name ++ " = " ++ right).toList := by
        simp [Indirection.text, Text.row, List.replicate_succ]
      constructor
      · rw [StartsIn, hchars]
        rfl
      · have hword : C.leadingWord ('*' :: (((Indirection.deref count).text ++ target.name ++
            " = " ++ right).toList ++ ";".toList)) = "" := rfl
        rw [String.toList_append, hchars, List.cons_append, hword]
        decide

mutual

/-- A statement whose emission does not fail is written as the lines of its block. -/
theorem Statement.shows_emit (level : Nat) : (s : Statement) → s.WellFormed →
    (s.emit level).failure = none →
    ∃ block, s.cBlock = .ok block ∧ (s.emit level).Shows (block.rows level)
  | .branch condition yes no _, hwell, hok => by
    rcases failure_andThen.1 hok with ⟨hallOk, -⟩
    rcases failure_andThen.1 hallOk with ⟨hfrontOk, hnoOk⟩
    rcases failure_andThen.1 hfrontOk with ⟨hheadOk, hyesOk⟩
    rcases ok_of_tryLine hheadOk with ⟨text, htext⟩
    rcases Statement.shows_emitAll (level + 1) yes hwell.2.1 hyesOk with ⟨blocks, hblocks, hyes⟩
    have hhead : (Emission.tryLine level do
        return "if " ++ (← condition.cCondition) ++ " \x7b").Shows [(level, .ifHead text)] := by
      rw [htext]
      exact shows_line (Row.proper_head hwell.1 htext).1 level
    have hfront := hhead.andThen hheadOk hyes
    have hleave := shows_line (Row.proper_constant .leave (by simp)) level
    cases no with
    | nil =>
      refine ⟨.ifThen text blocks, ?_, ?_⟩
      · rw [cBlock, htext, hblocks]
        rfl
      · have hall := (hfront.andThen hfrontOk shows_empty).andThen hallOk hleave
        rw [List.append_nil] at hall
        exact hall
    | cons s ss =>
      rcases Statement.shows_emitAll (level + 1) (s :: ss) hwell.2.2
        (failure_andThen.1 hnoOk).2 with ⟨noBlocks, hnoBlocks, hno⟩
      -- the second body is not empty, and its own line stands in front of it
      have helse := (shows_line (Row.proper_constant .otherwise (by simp)) level).andThen rfl hno
      refine ⟨.ifElse text blocks noBlocks, ?_, ?_⟩
      · rw [cBlock, htext, hblocks, hnoBlocks]
        rfl
      · have hall := (hfront.andThen hfrontOk helse).andThen hallOk hleave
        rw [List.append_assoc] at hall
        exact hall
  | .loop condition body _, hwell, hok => by
    rcases failure_andThen.1 hok with ⟨hfrontOk, -⟩
    rcases failure_andThen.1 hfrontOk with ⟨hheadOk, hbodyOk⟩
    rcases ok_of_tryLine hheadOk with ⟨text, htext⟩
    rcases Statement.shows_emitAll (level + 1) body hwell.2 hbodyOk with ⟨blocks, hblocks, hbody⟩
    have hhead : (Emission.tryLine level do
        return "while " ++ (← condition.cCondition) ++ " \x7b").Shows
        [(level, .whileHead text)] := by
      rw [htext]
      exact shows_line (Row.proper_head hwell.1 htext).2 level
    have hleave := shows_line (Row.proper_constant .leave (by simp)) level
    refine ⟨.loop text blocks, ?_, (hhead.andThen hheadOk hbody).andThen hfrontOk hleave⟩
    rw [cBlock, htext, hblocks]
    rfl
  | .declare v _, hwell, hok =>
    Statement.shows_tryLine .other (fun _ => rfl) (fun _ htext => Row.proper_other
      (v.assembled_declaration assembles_unbroken hwell htext) (v.other_declaration htext)) hok
  | .call callee args _, hwell, hok =>
    Statement.shows_tryLine (fun texts => .other (cCall callee.name texts)) (fun _ => rfl)
      (fun _ htexts => Row.proper_other
        (assembles_unbroken.call hwell.1
          (Expr.assembled_cTexts assembles_unbroken args hwell.2 htexts))
        (.of_call hwell.1)) hok
  | .ret (some value) _, hwell, hok =>
    Statement.shows_tryLine (fun text => .ret (some text)) (fun _ => rfl)
      (fun _ htext => Row.proper_ret (value.assembled_cText assembles_unbroken hwell htext)) hok
  | .ret none _, _, _ =>
    ⟨_, rfl, shows_line (Row.proper_constant (.simple (.ret none)) (by simp)) level⟩
  | .brk _, _, _ => ⟨_, rfl, shows_line (Row.proper_constant (.simple .brk) (by simp)) level⟩
  | .cont _, _, _ => ⟨_, rfl, shows_line (Row.proper_constant (.simple .cont) (by simp)) level⟩
  | .assign (.mk (some target) value _) _, hwell, hok =>
    Statement.shows_tryLine .other (fun _ => rfl) (fun _ htext => Row.proper_other
      (Slot.assembled_cText assembles_unbroken hwell.1 hwell.2 htext)
      (Slot.other_cText hwell.1 htext)) hok

theorem Statement.shows_emitAll (level : Nat) : (ss : List Statement) →
    Statement.AllWellFormed ss → (Statement.emitAll level ss).failure = none →
    ∃ blocks, Statement.cBlocks ss = .ok blocks ∧
      (Statement.emitAll level ss).Shows (C.Block.allRows level blocks)
  | [], _, _ => ⟨[], rfl, shows_empty⟩
  | s :: ss, hwell, hok => by
    rcases failure_andThen.1 hok with ⟨hsOk, hssOk⟩
    rcases Statement.shows_emit level s hwell.1 hsOk with ⟨block, hblock, hs⟩
    rcases Statement.shows_emitAll level ss hwell.2 hssOk with ⟨blocks, hblocks, hss⟩
    refine ⟨block :: blocks, ?_, .andThen hsOk hs hss⟩
    rw [cBlocks, hblock, hblocks]
    rfl

end

end Shc
