import Shc.C.Writer
import Shc.Proofs.C.BlockScope
import Shc.Proofs.C.OneLine
import Shc.Proofs.Outline.Injective

/-!
# Generators in use

One generator is asked for one thing after the other, and some of the calls fail.  What
a call adds is what it adds to a new generator, moved to the right by the level, and the
level is the number of functions that were left open.

Two views of writing are compared for this.  A writer changes the generator and has to
take the level back; an emission gets the level as an argument and is a list of lines.
`Emits` says that a writer adds the lines of an emission and leaves the level alone, and
`Moved` compares the emissions at two levels.
-/

namespace Shc

/-! ### Indented texts -/

namespace Text

/-- A line with `n` spaces in front, unless it is blank. -/
def indentedLine (n : Nat) (line : List Char) : List Char :=
  if line.all (· = ' ') then line else List.replicate n ' ' ++ line

/-- A text with `n` spaces in front of each line that is not blank. -/
def indented (n : Nat) (text : String) : String :=
  String.ofList (['\n'].intercalate ((text.toList.splitOn '\n').map (indentedLine n)))

theorem indented_empty (n : Nat) : indented n "" = "" :=
  rfl

theorem indented_line {line : String} (hline : OneLine line) (n : Nat) (rest : String) :
    indented n (line ++ "\n" ++ rest) =
      String.ofList (indentedLine n line.toList) ++ "\n" ++ indented n rest := by
  have hsplit : (line ++ "\n" ++ rest).toList.splitOn '\n' =
      line.toList :: rest.toList.splitOn '\n' := by
    rw [String.toList_append, String.toList_append, List.append_assoc]
    apply List.splitOnP_append_cons_of_forall_mem _ '\n' (by simp)
    intro c hc
    simpa using ne_of_mem_of_not_mem hc hline
  have hne : (rest.toList.splitOn '\n').map (indentedLine n) ≠ [] := by
    rw [Ne, List.map_eq_nil_iff]
    exact List.splitOn_ne_nil '\n' rest.toList
  rw [indented, hsplit, List.map_cons, List.intercalate_cons_of_ne_nil hne, String.ofList_append,
    String.ofList_append]
  rfl

/-- The text of a line that is not blank. -/
def Solid (text : String) : Prop :=
  OneLine text ∧ text.toList.all (· = ' ') = false

instance (text : String) : Decidable (Solid text) :=
  inferInstanceAs (Decidable (_ ∧ _))

theorem solid_append {front back : String} (hfront : OneLine front) (hback : Solid back) :
    Solid (front ++ back) := by
  refine ⟨oneLine_append.2 ⟨hfront, hback.1⟩, ?_⟩
  rw [String.toList_append, List.all_append, hback.2, Bool.and_false]

/-- A line that is written at a level is indented by the spaces of more levels. -/
theorem indentedLine_row {text : String} (htext : Solid text) (n m : Nat) :
    String.ofList (indentedLine n (row ' ' m ++ text).toList) = row ' ' (m + n) ++ text := by
  have hsolid := solid_append (oneLine_row (c := ' ') (by decide) m) htext
  rw [indentedLine, hsolid.2, if_neg Bool.false_ne_true, String.ofList_append, String.ofList_toList,
    ← String.append_assoc, row, row, ← String.ofList_append, List.replicate_append_replicate,
    Nat.add_comm n m]

end Text

open Text (OneLine Solid oneLine_append solid_append)

open C (assembles_unbroken)

namespace Line

/-- The same line `k` levels further to the right; an empty line has no level. -/
inductive Moved (k : Nat) : Line → Line → Prop where
  | blank : Moved k .blank .blank
  | solid {level : Nat} {text : String} :
      Text.Solid text → Moved k ⟨level, text⟩ ⟨level + k, text⟩

theorem moved_zero {k : Nat} {text : String} (htext : Text.Solid text) :
    Moved k ⟨0, text⟩ ⟨k, text⟩ := by
  have hmoved : Moved k ⟨0, text⟩ ⟨0 + k, text⟩ := .solid htext
  rwa [Nat.zero_add] at hmoved

theorem Moved.indented {k : Nat} {l l' : Line} (h : Moved k l l') (rest : String) :
    Text.indented (4 * k) (l.render ++ rest) = l'.render ++ Text.indented (4 * k) rest := by
  cases h with
  | blank => exact @Text.indented_line "" (by decide) (4 * k) rest
  | @solid level text htext =>
    have hrow : OneLine (Text.row ' ' (4 * level) ++ text) :=
      oneLine_append.2 ⟨Text.oneLine_row (by decide) _, htext.1⟩
    rw [render, render, Text.indented_line hrow, Text.indentedLine_row htext, Nat.mul_add]

theorem indented_renderAll {k : Nat} {ls ls' : List Line} (h : List.Forall₂ (Moved k) ls ls') :
    Text.indented (4 * k) (renderAll ls) = renderAll ls' := by
  induction h with
  | nil => exact Text.indented_empty _
  | cons hline _ ih => rw [renderAll_cons, renderAll_cons, hline.indented, ih]

end Line

/-! ### Emissions at two levels -/

namespace Emission

variable {k level : Nat}

/-- The same emission `k` levels further to the right. -/
structure Moved (k : Nat) (e e' : Emission) : Prop where
  lines : List.Forall₂ (Line.Moved k) e.lines e'.lines
  failure : e'.failure = e.failure

theorem moved_empty : Moved k empty empty :=
  ⟨.nil, rfl⟩

theorem moved_line {text : String} (htext : Solid text) :
    Moved k (line level text) (line (level + k) text) :=
  ⟨.cons (.solid htext) .nil, rfl⟩

theorem Moved.andThen {a a' b b' : Emission} (ha : Moved k a a') (hb : Moved k b b') :
    Moved k (a.andThen b) (a'.andThen b') := by
  unfold Emission.andThen
  rw [ha.failure]
  cases a.failure with
  | none => exact ⟨List.rel_append ha.lines hb.lines, hb.failure⟩
  | some e => exact ha

theorem moved_tryLine {α : Type} {x : Except C.Error α} {f : α → String}
    (h : ∀ a, x = .ok a → Solid (f a)) :
    Moved k (tryLine level do return f (← x)) (tryLine (level + k) do return f (← x)) := by
  cases x with
  | error e => exact ⟨.nil, rfl⟩
  | ok a => exact moved_line (h a rfl)

end Emission

namespace Statement

open Emission (moved_empty moved_line moved_tryLine)

theorem moved_head (k level : Nat) {word : String} (hword : OneLine word) {condition : Factor}
    (hwell : condition.WellFormed) :
    (Emission.tryLine level do return word ++ (← condition.cCondition) ++ " \x7b").Moved k
      (Emission.tryLine (level + k) do return word ++ (← condition.cCondition) ++ " \x7b") :=
  moved_tryLine fun _ htext =>
    solid_append (oneLine_append.2
      ⟨hword, (condition.assembled_cCondition assembles_unbroken hwell htext).oneLine⟩) (by decide)

theorem moved_leave (k level : Nat) :
    (Emission.line level "\x7d").Moved k (Emission.line (level + k) "\x7d") :=
  moved_line (by decide)

mutual

/-- A statement is written in the same way at any level. -/
theorem moved_emit (k level : Nat) : (s : Statement) → s.WellFormed →
    (s.emit level).Moved k (s.emit (level + k))
  | .branch condition yes no _, hwell => by
    have hhead := moved_head k level (by decide : OneLine "if ") hwell.1
    have hyes := moved_emitAll k (level + 1) yes hwell.2.1
    rw [Nat.add_right_comm] at hyes
    cases no with
    | nil => exact ((hhead.andThen hyes).andThen moved_empty).andThen (moved_leave k level)
    | cons s ss =>
      have hno := moved_emitAll k (level + 1) (s :: ss) hwell.2.2
      rw [Nat.add_right_comm] at hno
      have helse : (Emission.line level "\x7d else \x7b").Moved k
          (Emission.line (level + k) "\x7d else \x7b") := moved_line (by decide)
      exact ((hhead.andThen hyes).andThen (helse.andThen hno)).andThen (moved_leave k level)
  | .loop condition body _, hwell => by
    have hhead := moved_head k level (by decide : OneLine "while ") hwell.1
    have hbody := moved_emitAll k (level + 1) body hwell.2
    rw [Nat.add_right_comm] at hbody
    exact (hhead.andThen hbody).andThen (moved_leave k level)
  | .declare v _, hwell =>
    moved_tryLine fun _ htext =>
      solid_append (v.assembled_declaration assembles_unbroken hwell htext).oneLine (by decide)
  | .call _ args _, hwell => moved_tryLine fun _ htexts =>
    solid_append (assembles_unbroken.call hwell.1
      (Expr.assembled_cTexts assembles_unbroken args hwell.2 htexts)).oneLine (by decide)
  | .ret (some value) _, hwell => moved_tryLine fun _ htext =>
    solid_append (oneLine_append.2
      ⟨by decide, (value.assembled_cText assembles_unbroken hwell htext).oneLine⟩) (by decide)
  | .ret none _, _ | .brk _, _ | .cont _, _ => moved_line (by decide)
  | .assign (.mk (some _) _ _) _, hwell => moved_tryLine fun _ htext =>
    solid_append (Slot.assembled_cText assembles_unbroken hwell.1 hwell.2 htext).oneLine (by decide)

theorem moved_emitAll (k level : Nat) : (ss : List Statement) → AllWellFormed ss →
    (emitAll level ss).Moved k (emitAll (level + k) ss)
  | [], _ => moved_empty
  | s :: ss, hwell => (moved_emit k level s hwell.1).andThen (moved_emitAll k level ss hwell.2)

end

end Statement

/-! ### Writers -/

theorem Generator.write_write (g : Generator) (lines lines' : List Line) :
    (g.write lines).write lines' = g.write (lines ++ lines') := by
  rw [write, write, write, List.append_assoc]

namespace Writer

/-- The writer adds the lines that are emitted at the level of the generator, fails as the
    emission does, and leaves the level as it was. -/
def Emits (w : Writer Unit) (e : Nat → Emission) : Prop :=
  ∀ g, w.outcome g = ((e g.level).failure, g.write (e g.level).lines)

theorem outcome_bind (w w' : Writer Unit) (g : Generator) :
    outcome (w >>= fun _ => w') g =
      match w.outcome g with
      | (none, g) => w'.outcome g
      | (some e, g) => (some e, g) := by
  simp only [outcome, bind, EStateM.bind]
  cases w g <;> rfl

theorem emits_pure : (pure () : Writer Unit).Emits fun _ => .empty := by
  intro g
  simp [outcome, Emission.empty, Generator.write, pure, EStateM.pure]

theorem emits_line (text : String) : (line text).Emits fun level => .line level text :=
  fun _ => rfl

theorem emits_tryLine {α : Type} (x : Except C.Error α) (f : α → String) :
    (need x >>= fun a => line (f a)).Emits fun level => .tryLine level do return f (← x) := by
  intro g
  cases x with
  | ok a => rfl
  | error e =>
    have hnothing : g.write [] = g := by simp [Generator.write]
    exact congrArg (Prod.mk (some e)) hnothing.symm

theorem Emits.bind {w w' : Writer Unit} {e e' : Nat → Emission} (h : w.Emits e)
    (h' : w'.Emits e') : (w >>= fun _ => w').Emits fun level => (e level).andThen (e' level) := by
  intro g
  have hnext := h' (g.write (e g.level).lines)
  rw [outcome_bind, h g]
  dsimp only [Emission.andThen]
  cases hfailure : (e g.level).failure with
  | none =>
    rw [Generator.write_write] at hnext
    exact hnext
  | some error => rw [hfailure]

theorem outcome_nested (w : Writer Unit) (g : Generator) :
    (nested w).outcome g =
      Prod.map id (fun g' => { g' with level := g'.level - 1 })
        (w.outcome { g with level := g.level + 1 }) := by
  have hnested : nested w g =
      EStateM.bind (EStateM.tryCatch w _) _ { g with level := g.level + 1 } := rfl
  simp only [outcome, hnested, EStateM.bind, EStateM.tryCatch]
  cases w { g with level := g.level + 1 } <;> rfl

/-- The level is taken back behind a failure too. -/
theorem Emits.nested {w : Writer Unit} {e : Nat → Emission} (h : w.Emits e) :
    (nested w).Emits fun level => e (level + 1) := by
  intro g
  rw [outcome_nested, h]
  rfl

/-- A line that needs a text, in front of something else. -/
theorem Emits.headed {w : Writer Unit} {e : Nat → Emission} (h : w.Emits e)
    {α : Type} (x : Except C.Error α) (f : α → String) :
    (need x >>= fun a => line (f a) >>= fun _ => w).Emits
      fun level => (Emission.tryLine level do return f (← x)).andThen (e level) := by
  rw [← bind_assoc]
  exact (emits_tryLine x f).bind h

end Writer

theorem Emission.andThen_assoc (a b c : Emission) :
    (a.andThen b).andThen c = a.andThen (b.andThen c) := by
  unfold andThen
  cases ha : a.failure with
  | some e => simp [ha]
  | none =>
    cases hb : b.failure with
    | some e => simp [hb]
    | none => simp

theorem Emission.empty_andThen (e : Emission) : empty.andThen e = e :=
  rfl

namespace Statement

open Writer (emits_line emits_pure emits_tryLine)

mutual

/-- Writing a statement adds its lines at the level of the moment. -/
theorem emits_write : (s : Statement) → s.write.Emits fun level => s.emit level
  | .branch condition yes no _ => by
    have hyes := (emits_writeAll yes).nested
    cases no with
    | nil =>
      have hbody := (hyes.bind (emits_line "\x7d")).headed condition.cCondition
        fun text => "if " ++ text ++ " \x7b"
      simp only [emit, Emission.andThen_assoc, Emission.empty_andThen]
      exact hbody
    | cons s ss =>
      have hno := (emits_writeAll (s :: ss)).nested
      have helse := (emits_line "\x7d else \x7b").bind (hno.bind (emits_line "\x7d"))
      have hbody := (hyes.bind helse).headed condition.cCondition
        fun text => "if " ++ text ++ " \x7b"
      simp only [emit, Emission.andThen_assoc]
      exact hbody
  | .loop condition body _ => by
    have hbody := ((emits_writeAll body).nested.bind (emits_line "\x7d")).headed
      condition.cCondition fun text => "while " ++ text ++ " \x7b"
    simp only [emit, Emission.andThen_assoc]
    exact hbody
  | .declare v _ => emits_tryLine v.declaration (· ++ ";")
  | .call callee args _ =>
    emits_tryLine (Expr.cTexts args) fun texts => cCall callee.name texts ++ ";"
  | .ret (some value) _ => emits_tryLine value.cText fun text => "return " ++ text ++ ";"
  | .ret none _ => emits_line "return;"
  | .brk _ => emits_line "break;"
  | .cont _ => emits_line "continue;"
  | .assign slot _ => emits_tryLine slot.cText (· ++ ";")

theorem emits_writeAll : (ss : List Statement) → (writeAll ss).Emits fun level => emitAll level ss
  | [] => emits_pure
  | s :: ss => (emits_write s).bind (emits_writeAll ss)

end

end Statement

/-! ### Calls -/

theorem Writer.emits_list (texts : List (Except C.Error String)) :
    (texts.forM (fun text => need text >>= fun text => line (text ++ ";")) >>= fun _ => blank).Emits
      fun level => Generator.emitList level (texts.map fun text => do return (← text) ++ ";") := by
  induction texts with
  | nil => exact fun _ => rfl
  | cons text texts ih =>
    rw [List.forM, bind_assoc]
    exact (emits_tryLine text (· ++ ";")).bind ih

namespace Generator

theorem call_preamble (g : Generator) : g.call .preamble = (none, g.preamble) := by
  change (none, (((g.write [_]).write [_]).write [_]).write [_]) = _
  simp only [write_write]
  rfl

theorem call_globals (g : Generator) (vs : List Variable) :
    g.call (.globals vs) = g.globals vs := by
  cases vs with
  | nil => rfl
  | cons v vs =>
    have hlist := Writer.emits_list ((v :: vs).map Variable.declaration) g
    rw [List.map_map] at hlist
    exact hlist

theorem call_prototypes (g : Generator) (fs : List Function) :
    g.call (.prototypes fs) = g.prototypes fs := by
  cases fs with
  | nil => rfl
  | cons f fs =>
    have hlist := Writer.emits_list ((f :: fs).map Function.signature) g
    rw [List.map_map] at hlist
    exact hlist

theorem call_function (g : Generator) (f : Function) : g.call (.function f) = g.function f := by
  dsimp only [call, Call.write, function]
  cases f.signature with
  | error e => rfl
  | ok signature =>
    have hbody := Statement.emits_writeAll f.body
      { g.write [⟨g.level, signature ++ " \x7b"⟩] with level := g.level + 1 }
    change Writer.outcome (Writer.line _ >>= fun _ => Writer.indent >>= fun _ =>
      Statement.writeAll f.body >>= fun _ => Writer.dedent >>= fun _ => Writer.line _) g = _
    rw [Writer.outcome_bind]
    change Writer.outcome (Statement.writeAll f.body >>= _)
      { g.write [⟨g.level, signature ++ " \x7b"⟩] with level := g.level + 1 } = _
    rw [Writer.outcome_bind, hbody]
    dsimp only
    -- a failure ends the call one level up, before the level is taken back
    cases (Statement.emitAll (g.level + 1) f.body).failure with
    | some e => simp [write]
    | none =>
      change (none, { (_ : Generator) with level := _ }.write _) = _
      simp [write]

/-- A call about what source text has: each global and each function is one of some
    parsed program. -/
def Call.Parsed : Call → Prop
  | preamble => True
  | globals vs => ∀ v ∈ vs, ∃ source p, Program.parse source = .ok p ∧ v ∈ p.globals
  | prototypes fs => ∀ f ∈ fs, ∃ source p, Program.parse source = .ok p ∧ f ∈ p.functions
  | function f => ∃ source p, Program.parse source = .ok p ∧ f ∈ p.functions

/-- Whether a call was a function with a signature that failed all the same, so in its body. -/
def failedInBody : Call × Option C.Error → Bool
  | (.function f, some _) => f.signature.isOk
  | _ => false

/-- What has been done to `g` is what has been done to a new generator: the same lines,
    moved to the level of `g`, and as many levels more. -/
def Repeats (g : Generator) (a b : Option C.Error × Generator) : Prop :=
  ∃ lines, List.Forall₂ (Line.Moved g.level) a.2.lines lines ∧
    b = (a.1, ⟨g.lines ++ lines, g.level + a.2.level⟩)

variable {g : Generator}

theorem repeats_append {e e' : Emission} (h : e.Moved g.level e') :
    g.Repeats (new.append e) (g.append e') :=
  ⟨e'.lines, h.lines, by rw [append, h.failure]; rfl⟩

theorem moved_emitList {α : Type} (k level : Nat) {as : List α} {f : α → Except C.Error String}
    (h : ∀ a ∈ as, ∀ text, f a = .ok text → OneLine text) :
    (emitList level (as.map fun a => do return (← f a) ++ ";")).Moved k
      (emitList (level + k) (as.map fun a => do return (← f a) ++ ";")) := by
  induction as with
  | nil => exact ⟨.cons .blank .nil, rfl⟩
  | cons a as ih =>
    rw [List.forall_mem_cons] at h
    have hline : (Emission.tryLine level do return (← f a) ++ ";").Moved k
        (Emission.tryLine (level + k) do return (← f a) ++ ";") :=
      Emission.moved_tryLine fun text htext => solid_append (h.1 text htext) (by decide)
    exact hline.andThen (ih h.2)

theorem repeats_list {α : Type} (g : Generator) {as : List α} {f : α → Except C.Error String}
    (h : ∀ a ∈ as, ∀ text, f a = .ok text → OneLine text) :
    g.Repeats (new.append (emitList 0 (as.map fun a => do return (← f a) ++ ";")))
      (g.append (emitList g.level (as.map fun a => do return (← f a) ++ ";"))) := by
  have hlist := moved_emitList g.level 0 h
  rw [Nat.zero_add] at hlist
  exact repeats_append hlist

theorem repeats_function (g : Generator) {f : Function} (hf : f.Checked) :
    g.Repeats (new.function f) (g.function f) := by
  have hbody := Statement.moved_emitAll g.level 1 f.body hf.wellFormed
  rw [Nat.add_comm 1] at hbody
  unfold function
  cases hsignature : f.signature with
  | error e => exact ⟨[], .nil, by simp [new]⟩
  | ok signature =>
    have hline := (Function.assembled_signature assembles_unbroken hf.isName hf.params_isName
      hsignature).oneLine
    have hhead : Line.Moved g.level ⟨0, signature ++ " \x7b"⟩ ⟨g.level, signature ++ " \x7b"⟩ :=
      Line.moved_zero (solid_append hline (by decide))
    have hlast : Line.Moved g.level ⟨0, "\x7d"⟩ ⟨g.level, "\x7d"⟩ := Line.moved_zero (by decide)
    dsimp only [new, Nat.zero_add]
    rw [hbody.failure]
    cases (Statement.emitAll 1 f.body).failure with
    | some e => exact ⟨_, .cons hhead hbody.lines, rfl⟩
    | none =>
      refine ⟨_, List.rel_append (.cons hhead hbody.lines) (.cons hlast .nil), ?_⟩
      simp [write]

/-- A call does to any generator what it does to a new one. -/
theorem repeats_call (g : Generator) {c : Call} (hc : c.Parsed) :
    g.Repeats (new.call c) (g.call c) := by
  cases c with
  | preamble =>
    rw [call_preamble, call_preamble]
    refine ⟨_, .cons (Line.moved_zero ?_) (.cons (Line.moved_zero ?_)
      (.cons (Line.moved_zero ?_) (.cons .blank .nil))), rfl⟩
    all_goals decide
  | globals vs =>
    rw [call_globals, call_globals]
    cases vs with
    | nil => exact ⟨[], .nil, by simp [globals, new]⟩
    | cons v vs =>
      apply g.repeats_list
      intro v hv text htext
      rcases hc v hv with ⟨source, p, hparse, hmem⟩
      have hname := Program.isName_global_of_parse hparse v hmem
      exact (v.assembled_declaration assembles_unbroken hname htext).oneLine
  | prototypes fs =>
    rw [call_prototypes, call_prototypes]
    cases fs with
    | nil => exact ⟨[], .nil, by simp [prototypes, new]⟩
    | cons f fs =>
      apply g.repeats_list
      intro f hf text htext
      rcases hc f hf with ⟨source, p, hparse, hmem⟩
      have hchecked := Program.checked_of_parse hparse hmem
      exact (Function.assembled_signature assembles_unbroken hchecked.isName
        hchecked.params_isName htext).oneLine
  | function f =>
    rcases hc with ⟨source, p, hparse, hmem⟩
    rw [call_function, call_function]
    exact g.repeats_function (Program.checked_of_parse hparse hmem)

/-- Of all calls only a function that fails in its body changes the level. -/
theorem level_call (c : Call) :
    (new.call c).2.level = if failedInBody (c, (new.call c).1) then 1 else 0 := by
  cases c with
  | preamble => rfl
  | globals vs =>
    rw [call_globals, level_globals]
    rfl
  | prototypes fs =>
    rw [call_prototypes, level_prototypes]
    rfl
  | function f =>
    rw [call_function]
    cases hsignature : f.signature with
    | error e => simp [function, failedInBody, hsignature, Except.isOk, Except.toBool, new]
    | ok signature =>
      cases hfailure : (Statement.emitAll 1 f.body).failure with
      | some e =>
        simp [function, failedInBody, hsignature, hfailure, Except.isOk, Except.toBool, new]
      | none => simp [function, failedInBody, hsignature, hfailure, write, new]

/-! ### Runs -/

variable {c : Call} {cs : List Call}

theorem calls_cons (g : Generator) (c : Call) (cs : List Call) :
    g.calls (c :: cs) =
      ((c, (g.call c).1) :: ((g.call c).2.calls cs).1, ((g.call c).2.calls cs).2) :=
  rfl

theorem text_call (hc : c.Parsed) :
    (g.call c).2.text = g.text ++ Text.indented (4 * g.level) (new.call c).2.text := by
  rcases g.repeats_call hc with ⟨lines, hmoved, hcall⟩
  rw [hcall, text, Line.renderAll_append, ← Line.indented_renderAll hmoved]
  rfl

theorem failure_call (hc : c.Parsed) : (g.call c).1 = (new.call c).1 := by
  rcases g.repeats_call hc with ⟨lines, -, hcall⟩
  rw [hcall]

theorem level_calls (hcs : ∀ c ∈ cs, c.Parsed) :
    (g.calls cs).2.level = g.level + (g.calls cs).1.countP failedInBody := by
  induction cs generalizing g with
  | nil => rfl
  | cons c cs ih =>
    rw [List.forall_mem_cons] at hcs
    have hlevel : (g.call c).2.level =
        g.level + if failedInBody (c, (g.call c).1) then 1 else 0 := by
      rw [failure_call hcs.1, ← level_call]
      rcases g.repeats_call hcs.1 with ⟨lines, -, hcall⟩
      rw [hcall]
    calc ((g.call c).2.calls cs).2.level
        = (g.call c).2.level + ((g.call c).2.calls cs).1.countP failedInBody := ih hcs.2
      _ = g.level + ((if failedInBody (c, (g.call c).1) then 1 else 0) +
            ((g.call c).2.calls cs).1.countP failedInBody) := by rw [hlevel, Nat.add_assoc]
      _ = g.level + (g.calls (c :: cs)).1.countP failedInBody := by
        rw [calls_cons, List.countP_cons, Nat.add_comm (List.countP _ _)]

theorem extends_calls (hcs : ∀ c ∈ cs, c.Parsed) :
    ∃ more, (g.calls cs).2.text = g.text ++ more := by
  induction cs generalizing g with
  | nil => exact ⟨"", String.append_empty.symm⟩
  | cons c cs ih =>
    rw [List.forall_mem_cons] at hcs
    rcases ih (g := (g.call c).2) hcs.2 with ⟨more, hmore⟩
    rw [text_call hcs.1, String.append_assoc] at hmore
    exact ⟨_, hmore⟩

theorem calls_append (g : Generator) (cs ds : List Call) :
    g.calls (cs ++ ds) =
      ((g.calls cs).1 ++ ((g.calls cs).2.calls ds).1, ((g.calls cs).2.calls ds).2) := by
  induction cs generalizing g with
  | nil => rfl
  | cons c cs ih =>
    rw [List.cons_append, calls_cons, ih]
    rfl

theorem level_nested (ss : List Statement) (g : Generator) :
    ((Writer.nested (Statement.writeAll ss)).outcome g).2.level = g.level := by
  rw [(Statement.emits_writeAll ss).nested g]
  rfl

/-- Calls on one generator.  Text is only added.  The level counts the functions that
    failed in their bodies, and no block within a body changes it.  Each call ends as it
    does on a new generator and adds the same text, moved to the right by the level. -/
theorem calls_indented {cs ds : List Call} {c : Call} (h : ∀ d ∈ cs ++ c :: ds, d.Parsed) :
    let before := new.calls cs
    let after := new.calls (cs ++ [c])
    (∃ more, (new.calls (cs ++ c :: ds)).2.text = after.2.text ++ more) ∧
      before.2.level = before.1.countP failedInBody ∧
      after.2.level = after.1.countP failedInBody ∧
      (∀ ss g, ((Writer.nested (Statement.writeAll ss)).outcome g).2.level = g.level) ∧
      after.1 = before.1 ++ [(c, (new.call c).1)] ∧
      after.2.text = before.2.text ++ Text.indented (4 * before.2.level) (new.call c).2.text := by
  rw [List.forall_mem_append, List.forall_mem_cons] at h
  rcases h with ⟨hcs, hc, hds⟩
  have hafter : ∀ d ∈ cs ++ [c], d.Parsed :=
    List.forall_mem_append.2 ⟨hcs, List.forall_mem_singleton.2 hc⟩
  have hnew : new.level = 0 := rfl
  refine ⟨?_, ?_, ?_, level_nested, ?_, ?_⟩
  · rw [List.append_cons, calls_append new (cs ++ [c])]
    exact extends_calls hds
  · rw [level_calls hcs, hnew, Nat.zero_add]
  · rw [level_calls hafter, hnew, Nat.zero_add]
  · rw [calls_append, ← failure_call hc]
    rfl
  · rw [calls_append]
    exact text_call hc

namespace Unfinished

/-- A function that has no C text within a branch, and one that has. -/
def source : Source :=
  Source.ofString "fun b():void\x7bif(1)\x7bx:void;\x7d\x7dfun f():void\x7breturn;\x7d"

def x : Variable :=
  ⟨"x", ⟨.void, 0⟩, ⟨1, 20⟩⟩

def b : Function :=
  ⟨"b", ⟨.void, 0⟩, [], [x],
    [.branch (.paren (.single (Sample.plain (.const 1 ⟨1, 17⟩))) ⟨1, 16⟩) [.declare x ⟨1, 20⟩] []
      ⟨1, 14⟩], ⟨1, 1⟩⟩

def f : Function :=
  ⟨"f", ⟨.void, 0⟩, [], [], [.ret none ⟨1, 42⟩], ⟨1, 29⟩⟩

theorem parse_source : Program.parse source = .ok ⟨[], [b, f]⟩ := by
  decide +kernel

theorem parsed : ∀ c ∈ [Call.function b] ++ .function f :: [.preamble], c.Parsed := by
  have hb : (Call.function b).Parsed := ⟨_, _, parse_source, List.mem_cons_self⟩
  have hf : (Call.function f).Parsed :=
    ⟨_, _, parse_source, List.mem_cons_of_mem _ List.mem_cons_self⟩
  simp only [List.cons_append, List.nil_append, List.forall_mem_cons]
  exact ⟨hb, hf, trivial, fun _ hmem => absurd hmem List.not_mem_nil⟩

end Unfinished

theorem calls_indented_sample :
    let run := new.calls [.function Unfinished.b, .function Unfinished.f]
    run.2.level = 1 ∧
      run.2.text = "void b(void) \x7b\n    if (1) \x7b\n" ++
        "    void f(void) \x7b\n        return;\n    \x7d\n" := by
  obtain ⟨-, hbefore, hlevel, -, -, htext⟩ := calls_indented Unfinished.parsed
  refine ⟨hlevel.trans ?_, htext.trans ?_⟩
  · decide +kernel
  · rw [hbefore]
    decide +kernel

end Generator

end Shc
