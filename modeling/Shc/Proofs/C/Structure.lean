import Shc.Proofs.C.Blocks
import Shc.Proofs.C.Writer

/-!
# The structure of an emitted function

The text of a function shows the statements of its body.  Each line is indented by the
braces that are open around it, the braces are those of the bodies, and the lines alone tell
which statement stands in which body.  Strings cannot get in the way: they stay within their
lines, and no line starts or ends with one.
-/

namespace Shc

open Text (Unbroken unbroken_append)

namespace C

/-! ### Braces and levels -/

/-- The number of lines that open a brace. -/
def opened (lines : List (List Char)) : Nat :=
  lines.countP opensBrace

/-- The number of lines that close a brace. -/
def closed (lines : List (List Char)) : Nat :=
  lines.countP closesBrace

theorem opened_cons (line : List Char) (lines : List (List Char)) :
    opened (line :: lines) = opened lines + (opensBrace line).toNat := by
  rw [opened, List.countP_cons]
  cases opensBrace line <;> rfl

theorem closed_cons (line : List Char) (lines : List (List Char)) :
    closed (line :: lines) = closed lines + (closesBrace line).toNat := by
  rw [closed, List.countP_cons]
  cases closesBrace line <;> rfl

/-- The lines of a function.  A line has four spaces in front for each brace that is open
    around it, where the brace that it closes itself does not count.  The braces come in
    pairs, and nothing but the last line closes that of the first one. -/
structure LaidOut (lines : List (List Char)) : Prop where
  indented : ∀ before line after, lines = before ++ line :: after →
    ∃ level content, line = List.replicate (4 * level) ' ' ++ content ∧
      content.head? ≠ some ' ' ∧ opened before = closed (before ++ [line]) + level
  balanced : opened lines = closed lines
  inside : ∀ before after, lines = before ++ after → before ≠ [] → after ≠ [] →
    closed before < opened before
  last : lines.getLast? = some ['\x7d']

/-- Lines that lead from `m` open braces to `n`.  Each one is at the level of the braces
    that are open around it, and none is below the level `floor`. -/
inductive Nests (floor : Nat) : Nat → List Line → Nat → Prop where
  | nil (m : Nat) : Nests floor m [] m
  | cons {l : Line} {ls : List Line} {m n : Nat} : floor ≤ l.level →
      m = l.level + (closesBrace l.chars).toNat →
      Nests floor (l.level + (opensBrace l.chars).toNat) ls n → Nests floor m (l :: ls) n

namespace Nests

variable {floor m k n : Nat} {ls ls' : List Line}

theorem append (h : Nests floor m ls k) (h' : Nests floor k ls' n) :
    Nests floor m (ls ++ ls') n := by
  induction h with
  | nil => exact h'
  | cons hfloor hlevel _ ih => exact .cons hfloor hlevel (ih h')

theorem split (h : Nests floor m (ls ++ ls') n) :
    ∃ k, Nests floor m ls k ∧ Nests floor k ls' n := by
  induction ls generalizing m with
  | nil => exact ⟨m, .nil m, h⟩
  | cons l ls ih =>
    cases h with
    | cons hfloor hlevel hrest =>
      rcases ih hrest with ⟨k, hfirst, hsecond⟩
      exact ⟨k, .cons hfloor hlevel hfirst, hsecond⟩

theorem lower (h : Nests floor m ls n) {floor' : Nat} (hle : floor' ≤ floor) :
    Nests floor' m ls n := by
  induction h with
  | nil m => exact .nil m
  | cons hfloor hlevel _ ih => exact .cons (hle.trans hfloor) hlevel ih

theorem floor_le (h : Nests floor m ls n) (hm : floor ≤ m) : floor ≤ n := by
  induction h with
  | nil => exact hm
  | cons hfloor _ _ ih => exact ih (Nat.le_add_right_of_le hfloor)

/-- What is open at the end is what was open at the start and what was opened and not
    closed. -/
theorem count (h : Nests floor m ls n) :
    m + opened (ls.map Line.chars) = n + closed (ls.map Line.chars) := by
  induction h with
  | nil => rfl
  | @cons l ls m n _ hlevel _ ih =>
    rw [List.map_cons, opened_cons, closed_cons]
    omega

end Nests

theorem nests_row {r : Row} (hr : r.Legible) {floor level m n : Nat} {ls : List Line}
    (hfloor : floor ≤ level) (hm : m = level + r.closes.toNat)
    (h : Nests floor (level + r.opens.toNat) ls n) :
    Nests floor m (Row.line (level, r) :: ls) n := by
  rw [← hr.closesBrace_text level] at hm
  rw [← r.opensBrace_text level] at h
  exact .cons hfloor hm h

mutual

/-- The lines of a statement leave no brace open and close none that was open before. -/
theorem Block.nests_rows (level : Nat) : (block : Block) →
    (∀ p ∈ block.rows level, p.2.Legible) →
    Nests level level ((block.rows level).map Row.line) level
  | .simple s, h => by
    rw [rows, List.forall_mem_singleton] at h
    exact nests_row h (Nat.le_refl level) rfl (.nil level)
  | .ifThen condition yes, h => by
    rw [rows, List.forall_mem_cons, List.forall_mem_append, List.forall_mem_singleton] at h
    have hyes := (Block.nests_allRows (level + 1) yes h.2.1).lower (Nat.le_succ level)
    have hleave := nests_row h.2.2 (Nat.le_refl level) rfl (.nil level)
    rw [rows, List.map_cons, List.map_append]
    exact nests_row h.1 (Nat.le_refl level) rfl (hyes.append hleave)
  | .ifElse condition yes no, h => by
    rw [rows, List.forall_mem_cons, List.forall_mem_append, List.forall_mem_cons,
      List.forall_mem_append, List.forall_mem_singleton] at h
    have hyes := (Block.nests_allRows (level + 1) yes h.2.1).lower (Nat.le_succ level)
    have hno := (Block.nests_allRows (level + 1) no h.2.2.2.1).lower (Nat.le_succ level)
    have hleave := nests_row h.2.2.2.2 (Nat.le_refl level) rfl (.nil level)
    have helse := nests_row h.2.2.1 (Nat.le_refl level) rfl (hno.append hleave)
    rw [rows, List.map_cons, List.map_append, List.map_cons, List.map_append]
    exact nests_row h.1 (Nat.le_refl level) rfl (hyes.append helse)
  | .loop condition body, h => by
    rw [rows, List.forall_mem_cons, List.forall_mem_append, List.forall_mem_singleton] at h
    have hbody := (Block.nests_allRows (level + 1) body h.2.1).lower (Nat.le_succ level)
    have hleave := nests_row h.2.2 (Nat.le_refl level) rfl (.nil level)
    rw [rows, List.map_cons, List.map_append]
    exact nests_row h.1 (Nat.le_refl level) rfl (hbody.append hleave)

theorem Block.nests_allRows (level : Nat) : (blocks : List Block) →
    (∀ p ∈ Block.allRows level blocks, p.2.Legible) →
    Nests level level ((Block.allRows level blocks).map Row.line) level
  | [], _ => .nil level
  | block :: blocks, h => by
    rw [allRows, List.forall_mem_append] at h
    rw [allRows, List.map_append]
    exact (Block.nests_rows level block h.1).append (Block.nests_allRows level blocks h.2)

end

/-! ### The lines of a function -/

/-- The lines that are written for a function with this signature and these statements. -/
def functionLines (signature : String) (blocks : List Block) : List Line :=
  ⟨0, signature ++ " \x7b"⟩ :: (Block.allRows 1 blocks ++ [(0, Row.leave)]).map Row.line

/-- What is needed of the texts in a function. -/
structure WellWritten (signature : String) (blocks : List Block) : Prop where
  unbroken : Unbroken signature
  typed : ∃ type rest, signature = type ++ " " ++ rest ∧ type ∈ typeNames
  proper : ∀ p ∈ Block.allRows 1 blocks, p.2.Proper

namespace WellWritten

variable {signature : String} {blocks : List Block}

theorem leadingWord_mem (h : WellWritten signature blocks) :
    leadingWord (signature ++ " \x7b").toList ∈ typeNames := by
  rcases h.typed with ⟨type, rest, rfl, htype⟩
  have hword : type.toList.all isWordPart = true := by
    simp only [typeNames, List.mem_cons, List.not_mem_nil, or_false] at htype
    rcases htype with rfl | rfl | rfl | rfl | rfl <;> decide
  rwa [leadingWord_spaced type rfl hword]

theorem starts (h : WellWritten signature blocks) :
    StartsIn (fun c => c ∉ [' ', '\x7d']) (signature ++ " \x7b") := by
  rcases h.typed with ⟨type, rest, rfl, htype⟩
  refine StartsIn.append (StartsIn.append (StartsIn.append ?_ " ") rest) _
  simp only [typeNames, List.mem_cons, List.not_mem_nil, or_false] at htype
  rcases htype with rfl | rfl | rfl | rfl | rfl <;> decide

/-- All lines but the first one are rows. -/
theorem properRows (h : WellWritten signature blocks) :
    ∀ p ∈ Block.allRows 1 blocks ++ [(0, Row.leave)], p.2.Proper :=
  List.forall_mem_append.2 ⟨h.proper, List.forall_mem_singleton.2
    (Row.proper_constant .leave (by simp))⟩

theorem forall_lines (h : WellWritten signature blocks) {P : Line → Prop}
    (hfirst : P ⟨0, signature ++ " \x7b"⟩)
    (hrow : ∀ p : Nat × Row, p.2.Proper → P (Row.line p)) :
    ∀ l ∈ functionLines signature blocks, P l := by
  refine List.forall_mem_cons.2 ⟨hfirst, List.forall_mem_map.2 ?_⟩
  exact fun p hp => hrow p (h.properRows p hp)

theorem starts_dark (h : WellWritten signature blocks) :
    ∀ l ∈ functionLines signature blocks, StartsIn (· ≠ ' ') l.text := by
  apply h.forall_lines (P := fun l => StartsIn (· ≠ ' ') l.text)
  · exact startsIn_dark h.starts
  · exact fun p hp => hp.legible.starts_dark

theorem lines_renderAll (h : WellWritten signature blocks) :
    Text.lines (Line.renderAll (functionLines signature blocks)).toList =
      (functionLines signature blocks).map Line.chars := by
  apply Line.lines_renderAll
  apply h.forall_lines (P := fun l => Unbroken l.text)
  · exact unbroken_append.2 ⟨h.unbroken, inLine_of_all (by decide)⟩
  · exact fun _ hp => hp.unbroken

theorem braces_first (h : WellWritten signature blocks) :
    opensBrace (Line.chars ⟨0, signature ++ " \x7b"⟩) = true ∧
      closesBrace (Line.chars ⟨0, signature ++ " \x7b"⟩) = false := by
  constructor
  · exact opensBrace_chars (getLast?_append_text (c := '\x7b') signature (by decide)) 0
  · exact closesBrace_chars h.starts 0

/-- The brace of the function is open throughout the body. -/
theorem nests_body (h : WellWritten signature blocks) :
    Nests 1 1 ((Block.allRows 1 blocks).map Row.line) 1 :=
  Block.nests_allRows 1 blocks fun p hp => (h.proper p hp).legible

theorem nests (h : WellWritten signature blocks) :
    Nests 0 0 (functionLines signature blocks) 0 := by
  rcases h.braces_first with ⟨hopens, hcloses⟩
  have hleave := nests_row (Row.proper_constant .leave (by simp)).legible (Nat.le_refl 0) rfl
    (.nil 0)
  refine .cons (Nat.le_refl 0) (by rw [hcloses]; rfl) ?_
  rw [hopens, List.map_append]
  exact (h.nests_body.lower (Nat.zero_le 1)).append hleave

theorem indented (h : WellWritten signature blocks) {before after : List (List Char)}
    {line : List Char}
    (hlines : (functionLines signature blocks).map Line.chars = before ++ line :: after) :
    ∃ level content, line = List.replicate (4 * level) ' ' ++ content ∧
      content.head? ≠ some ' ' ∧ opened before = closed (before ++ [line]) + level := by
  rcases List.map_eq_append_iff.1 hlines with ⟨front, back, hsplit, rfl, hback⟩
  rcases List.map_eq_cons_iff.1 hback with ⟨l, back, rfl, rfl, -⟩
  have hall := h.nests
  rw [hsplit] at hall
  rcases hall.split with ⟨k, hfront, hrest⟩
  refine ⟨l.level, l.text.toList, rfl, ?_, ?_⟩
  · have hstarts := h.starts_dark l (by rw [hsplit]; simp)
    intro hspace
    rw [StartsIn, hspace] at hstarts
    cases hstarts
  · have hcount := hfront.count
    have hclosed : closed (front.map Line.chars ++ [l.chars]) =
        closed (front.map Line.chars) + (closesBrace l.chars).toNat := by
      rw [closed, List.countP_append]
      exact congrArg _ ((closed_cons l.chars []).trans (Nat.zero_add _))
    cases hrest with
    | cons _ hlevel _ => omega

theorem inside (h : WellWritten signature blocks) {before after : List (List Char)}
    (hlines : (functionLines signature blocks).map Line.chars = before ++ after)
    (hbefore : before ≠ []) (hafter : after ≠ []) : closed before < opened before := by
  rcases List.map_eq_append_iff.1 hlines with ⟨front, back, hsplit, rfl, rfl⟩
  rcases List.exists_cons_of_ne_nil (mt (congrArg (List.map Line.chars)) hbefore) with ⟨l, ls, rfl⟩
  rw [functionLines, List.cons_append] at hsplit
  rcases List.cons.inj hsplit with ⟨rfl, hrest⟩
  -- the last line is behind the front, so the rest of the front lies in the body
  rcases List.eq_nil_or_concat back with rfl | ⟨back, last, rfl⟩
  · exact absurd rfl hafter
  · rw [List.map_append, List.concat_eq_append, ← List.append_assoc] at hrest
    have hbody := h.nests_body
    rw [(List.append_inj' hrest rfl).1] at hbody
    rcases hbody.split with ⟨k, hfront, -⟩
    have hcount := hfront.count
    have hfloor := hfront.floor_le (Nat.le_refl 1)
    rcases h.braces_first with ⟨hopens, hcloses⟩
    rw [List.map_cons, opened_cons, closed_cons, hopens, hcloses, Bool.toNat_true,
      Bool.toNat_false]
    omega

theorem laidOut (h : WellWritten signature blocks) :
    LaidOut ((functionLines signature blocks).map Line.chars) := by
  refine ⟨fun before line after => h.indented, ?_, fun before after => h.inside, ?_⟩
  · have hcount := h.nests.count
    omega
  · rw [functionLines, List.map_append, ← List.cons_append, List.map_append]
    exact List.getLast?_concat

theorem mapM_ofLine {rows : List (Nat × Row)} (h : ∀ p ∈ rows, p.2.Legible) :
    ((rows.map Row.line).map Line.chars).mapM Row.ofLine = some (rows.map Prod.snd) := by
  induction rows with
  | nil => rfl
  | cons p rows ih =>
    rw [List.forall_mem_cons] at h
    have hfirst : Row.ofLine (Row.line p).chars = some p.2 := h.1.ofLine_chars p.1
    rw [List.map_cons, List.map_cons, List.mapM_cons, ih h.2, hfirst]
    rfl

/-- The conditions in the heads are expressions in parentheses. -/
theorem enclosed (h : WellWritten signature blocks) {r : Row} {condition : String}
    (hr : r = .ifHead condition ∨ r = .whileHead condition) :
    ∀ l ∈ functionLines signature blocks, unindented l.chars = r.text.toList →
      Enclosed condition := by
  apply h.forall_lines (P := fun l => unindented l.chars = r.text.toList → Enclosed condition)
  · intro htext
    rw [unindented_chars (startsIn_dark h.starts)] at htext
    -- the first line starts with the name of a type and is no head
    have hword := h.leadingWord_mem
    rw [htext] at hword
    rcases hr with rfl | rfl
    · rw [Row.text, leadingWord_spaced "if" (by decide) (by decide)] at hword
      exact absurd hword (by decide)
    · rw [Row.text, leadingWord_spaced "while" (by decide) (by decide)] at hword
      exact absurd hword (by decide)
  · intro p hp htext
    have hlegible : r.Legible := by
      rintro text rfl
      rcases hr with hr | hr <;> cases hr
    have hsame : Row.ofLine (Row.line p).chars = some p.2 := hp.legible.ofLine_chars p.1
    rw [Row.ofLine, htext, hlegible.ofChars_text] at hsame
    cases hsame
    exact hp.enclosed condition hr

theorem readFunction_eq (h : WellWritten signature blocks) :
    readFunction (Line.renderAll (functionLines signature blocks)) = some (signature, blocks) := by
  have hsignature := between_append "" signature " \x7b"
  rw [String.empty_append] at hsignature
  have hfirst : between "" " \x7b" (Line.chars ⟨0, signature ++ " \x7b"⟩) = some signature :=
    hsignature
  have hrows := mapM_ofLine fun p hp => (h.properRows p hp).legible
  rw [readFunction, h.lines_renderAll, functionLines, List.map_cons]
  simp only [hfirst, hrows, readBody_allRows, Option.bind_eq_bind, Option.bind_some]
  rfl

end WellWritten

end C

/-! ### Functions -/

/-- A signature starts with the name of a type. -/
theorem Function.typed_signature {f : Function} {text : String} (h : f.signature = .ok text) :
    ∃ type rest, text = type ++ " " ++ rest ∧ type ∈ C.typeNames := by
  rcases except_bind_eq_ok.1 h with ⟨params, -, htext⟩
  cases htext
  unfold cHead
  split
  · refine ⟨"int", "main" ++ inParens params, ?_, by decide⟩
    rw [← String.append_assoc]
    rfl
  · refine ⟨f.returns.base.cText, Text.row '*' f.returns.depth ++ f.name ++ inParens params, ?_,
      C.base_mem_typeNames f.returns.base⟩
    simp [Ty.declarator, String.append_assoc]

namespace Generator

/-- What is written for a function, if nothing fails. -/
theorem exists_wellWritten {f : Function} (hf : f.Checked) (h : (new.call (.function f)).1 = none) :
    ∃ signature blocks, f.signature = .ok signature ∧ Statement.cBlocks f.body = .ok blocks ∧
      C.WellWritten signature blocks ∧
      (new.call (.function f)).2.text = Line.renderAll (C.functionLines signature blocks) := by
  rw [call_function] at h ⊢
  rcases hasDefinition_of_function rfl h with ⟨⟨signature, hsignature⟩, hbody⟩
  rcases Statement.shows_emitAll 1 f.body hf.wellFormed hbody with ⟨blocks, hblocks, hshows⟩
  have hunbroken := Function.assembled_signature C.assembles_unbroken hf.isName hf.params_isName
    hsignature
  refine ⟨signature, blocks, hsignature, hblocks,
    ⟨hunbroken, Function.typed_signature hsignature, hshows.proper⟩, ?_⟩
  rw [function_eq rfl hsignature hbody, text_write, hshows.lines_eq, C.functionLines,
    List.map_append]
  exact String.empty_append

/-- The text that a new generator writes for a function of a parsed program, if nothing
    fails.  No expression and no declaration holds a line end.  The lines are indented by
    the braces around them, the braces come in pairs, and the last line closes the function.
    The condition of a branch or a loop is one expression in one pair of parentheses.  Read
    line by line, the text gives the signature and the tree of the statements, with an `else`
    wherever there are statements for it. -/
theorem function_structure {source : Source} {p : Program} (hp : Program.parse source = .ok p)
    {f : Function} (hf : f ∈ p.functions) (hok : (new.call (.function f)).1 = none) :
    (∀ r ∈ f.renderings, ∀ text, r.text = .ok text → Unbroken text) ∧
    (∀ v ∈ f.params ++ f.locals, ∀ text, v.declaration = .ok text → Unbroken text) ∧
    C.LaidOut (Text.lines (new.call (.function f)).2.text.toList) ∧
    (∀ line ∈ Text.lines (new.call (.function f)).2.text.toList, ∀ condition,
      C.unindented line = ("if " ++ condition ++ " \x7b").toList ∨
        C.unindented line = ("while " ++ condition ++ " \x7b").toList → C.Enclosed condition) ∧
    ∃ signature blocks, f.signature = .ok signature ∧ Unbroken signature ∧
      Statement.cBlocks f.body = .ok blocks ∧
      C.readFunction (new.call (.function f)).2.text = some (signature, blocks) := by
  have hscoped := Program.scoped_of_parse hp hf
  have hchecked := hscoped.checked
  rcases exists_wellWritten hchecked hok with
    ⟨signature, blocks, hsignature, hblocks, hwritten, htext⟩
  rw [htext, hwritten.lines_renderAll]
  refine ⟨?_, ?_, hwritten.laidOut, ?_, signature, blocks, hsignature, hwritten.unbroken, hblocks,
    hwritten.readFunction_eq⟩
  · intro r hr text h
    have hr := Statement.wellFormed_allRenderings f.body hchecked.wellFormed r hr
    exact hr.assembled C.assembles_unbroken h
  · intro v hv text h
    refine v.assembled_declaration C.assembles_unbroken ?_ h
    rcases List.mem_append.1 hv with hparam | hlocal
    · exact hchecked.params_isName v hparam
    · rw [hscoped.locals_eq] at hlocal
      exact Statement.isName_declaredAll f.body hchecked.wellFormed v hlocal
  · intro line hline condition hcondition
    rcases List.mem_map.1 hline with ⟨l, hl, rfl⟩
    rcases hcondition with hif | hwhile
    · exact hwritten.enclosed (.inl rfl) l hl hif
    · exact hwritten.enclosed (.inr rfl) l hl hwhile

/-- The statements of the crowded source as the C text shows them. -/
def crowdedBlocks : List C.Block :=
  [.loop "(n < 2)"
      [.ifElse "(f(\")\x7b\\n\"))" [.simple (.other "n = 1")] [.simple (.ret (some "n"))]],
    .simple (.ret (some "3"))]

theorem function_structure_nested :
    Program.parse Crowded.source = .ok ⟨[], [Crowded.f]⟩ ∧
      C.LaidOut (Text.lines (new.call (.function Crowded.f)).2.text.toList) ∧
      C.readFunction (new.call (.function Crowded.f)).2.text =
        some ("uint64_t f(uint64_t n)", crowdedBlocks) := by
  have hok : (new.call (.function Crowded.f)).1 = none := by decide +kernel
  have hsignature : Crowded.f.signature = .ok "uint64_t f(uint64_t n)" := by decide +kernel
  have hblocks : Statement.cBlocks Crowded.f.body = .ok crowdedBlocks := by cbv
  obtain ⟨-, -, hlaidOut, -, signature, blocks, hsignature', -, hblocks', hread⟩ :=
    function_structure Crowded.parse_source List.mem_cons_self hok
  cases hsignature.symm.trans hsignature'
  cases hblocks.symm.trans hblocks'
  exact ⟨Crowded.parse_source, hlaidOut, hread⟩

end Generator

end Shc
