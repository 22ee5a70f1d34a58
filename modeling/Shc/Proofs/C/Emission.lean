import Shc.C.Generator
import Shc.Proofs.C.Definition
import Shc.Proofs.C.Program

/-!
# Emitted functions

The text that is written for a function is a definition of C, with a declaration, an
expression or a brace wherever the function has a declaration, an expression or a
body.  Blocks of the source have been dissolved before, so the only blocks are the
bodies of branches and loops.
-/

namespace Shc

/-! ### Emissions -/

namespace Emission

/-- The text of the lines. -/
def text (e : Emission) : String :=
  Line.renderAll e.lines

theorem failure_andThen {a b : Emission} :
    (a.andThen b).failure = none ↔ a.failure = none ∧ b.failure = none := by
  unfold andThen
  cases ha : a.failure with
  | none => simp
  | some e => simp [ha]

theorem text_andThen {a b : Emission} (h : a.failure = none) :
    (a.andThen b).text = a.text ++ b.text := by
  rw [text, andThen, h]
  exact Line.renderAll_append _ _

theorem ok_of_tryLine {α : Type} {level : Nat} {x : Except C.Error α} {f : α → String}
    (h : (tryLine level do return f (← x)).failure = none) : ∃ a, x = .ok a := by
  cases x with
  | ok a => exact ⟨a, rfl⟩
  | error e => exact nomatch h

/-- If nothing failed, the text is read as these items. -/
def Holds (e : Emission) (front : List C.Item) : Prop :=
  e.failure = none → C.Holds e.text front

theorem holds_empty : empty.Holds [] :=
  fun _ => C.holds_nil

theorem Holds.andThen {a b : Emission} {front front' : List C.Item} (h : a.Holds front)
    (h' : b.Holds front') : (a.andThen b).Holds (front ++ front') := by
  intro hok
  obtain ⟨ha, hb⟩ := failure_andThen.1 hok
  rw [text_andThen ha]
  exact (h ha).append (h' hb)

theorem holds_line {level : Nat} {s : String} {front : List C.Item}
    (h : C.Holds (Line.render ⟨level, s⟩) front) : (line level s).Holds front := by
  intro _
  have htext : (line level s).text = Line.render ⟨level, s⟩ := String.append_empty
  rwa [htext]

theorem holds_tryLine {α : Type} {level : Nat} {x : Except C.Error α} {f : α → String}
    {front : List C.Item} (h : ∀ a, x = .ok a → C.Holds (Line.render ⟨level, f a⟩) front) :
    (tryLine level do return f (← x)).Holds front := by
  intro hok
  obtain ⟨a, rfl⟩ := ok_of_tryLine hok
  exact holds_line (h a rfl) hok

end Emission

/-! ### Statements -/

def Variable.cDeclarator (v : Variable) : C.Declarator :=
  ⟨v.type.base.cText, v.type.depth, v.name⟩

/-- The tree as something that is evaluated, if there is a tree. -/
def C.evals (tree : Option C.Tree) : List C.Item :=
  tree.toList.map .eval

mutual

/-- What a statement is in C. -/
def Statement.cItems : Statement → List C.Item
  | .branch condition yes no _ =>
    let otherwise :=
      match no with
      | [] => []
      | _ :: _ => .leave :: .enter :: Statement.allCItems no
    C.evals condition.cTree ++ .enter :: (Statement.allCItems yes ++ (otherwise ++ [.leave]))
  | .loop condition body _ =>
    C.evals condition.cTree ++ .enter :: (Statement.allCItems body ++ [.leave])
  | .declare v _ => [.declare v.cDeclarator]
  | .call callee args loc => C.evals (Factor.call callee args loc).cTree
  | .ret (some value) _ => C.evals value.cTree
  | .ret none _ | .brk _ | .cont _ => []
  | .assign (.mk (some target) value _) _ => C.evals target.cTree ++ C.evals value.cTree
  | .assign (.mk none value _) _ => C.evals value.cTree

def Statement.allCItems : List Statement → List C.Item
  | [] => []
  | statement :: statements => statement.cItems ++ Statement.allCItems statements

end

namespace C

theorem isWord_base (base : Base) : Lexeme.IsWord base.cText.toList := by
  cases base <;> exact ⟨_, _, rfl, by decide, by decide, List.all_eq_true.1 (by decide)⟩

theorem spells_declarator {base name : String} (hbase : Lexeme.IsWord base.toList)
    (hname : Lexeme.IsWord name.toList) (n : Nat) :
    Spells Separated (base ++ " " ++ Text.row '*' n ++ name)
      (Declarator.tokens ⟨base, n, name⟩) := by
  have hfront := (spells_word hbase).append_starts spells_space (by decide)
  rw [List.append_nil] at hfront
  rw [String.append_assoc]
  exact hfront.append_any (spells_derefs hname n).1

theorem spells_semicolon_of {text : String} {ts : List Token} (h : Spells Separated text ts) :
    Spells Anything (text ++ ";") (ts ++ [.punct ";"]) :=
  h.append_starts spells_semicolon (by decide)

/-- A keyword, a text and an opening brace. -/
theorem spells_opening (word : Keyword) {text : String} {ts : List Token}
    (h : Spells Separated text ts) :
    Spells Anything (word.text ++ " " ++ text ++ " \x7b")
      (.word word.text :: (ts ++ [.punct "\x7b"])) := by
  have hword := (spells_word (Lexeme.isWord_keyword word)).append_starts spells_space (by decide)
  have hbrace : Spells Anything " \x7b" [.punct "\x7b"] := spells_space.append_any spells_lbrace
  exact (hword.append_any h).append_starts hbrace (by decide)

theorem spells_assign {left right : String} {ts us : List Token} (hleft : Spells Separated left ts)
    (hright : Spells Separated right us) :
    Spells Separated (left ++ " = " ++ right) (ts ++ .punct "=" :: us) := by
  have heq : Spells SpaceNext "=" [.punct "="] := by
    refine spells_of_step (some (.punct "=")) rfl ?_
    intro rest hrest
    obtain ⟨rest, rfl⟩ := List.head?_eq_some_iff.1 hrest
    rfl
  have hsign : Spells Anything " = " [.punct "="] :=
    spells_space.append_any (heq.append spells_space fun _ _ => rfl)
  have hall := (hleft.append_starts hsign (by decide)).append_any hright
  rwa [List.append_assoc] at hall

theorem holds_leave (level : Nat) : Holds (Line.render ⟨level, "\x7d"⟩) [.leave] :=
  holds_line spells_rbrace (by simp) phrase_leave level

/-- The line between the two bodies of a branch closes one block and opens another. -/
theorem holds_else (level : Nat) :
    Holds (Line.render ⟨level, "\x7d else \x7b"⟩) [.leave, .enter] := by
  have hword := (spells_word (Lexeme.isWord_keyword .elseKw)).append_starts spells_space (by decide)
  have hspells := (spells_rbrace.append_any spells_space).append_any
    (hword.append_any spells_lbrace)
  have htext : "\x7d" ++ " " ++ (Keyword.elseKw.text ++ " " ++ "\x7b") = "\x7d else \x7b" := by
    decide
  rw [htext] at hspells
  refine ⟨_, spells_render hspells level, fun rest more hrest => ?_⟩
  have hne : [Token.word "else", Token.punct "\x7b"] ≠ [] := List.cons_ne_nil _ _
  have hopened := items_append hne (phrase_else rest) hrest
  have hclosed := items_append (List.cons_ne_nil (Token.punct "\x7d") []) (phrase_leave _) hopened
  exact hclosed

theorem plain_base (base : Base) : Plain (.word base.cText) := by
  cases base <;> exact ⟨by decide, by decide⟩

theorem base_mem_typeNames (base : Base) : base.cText ∈ typeNames := by
  cases base <;> decide

end C

theorem Variable.spells_declaration {v : Variable} (hname : Lexeme.IsName v.name) {text : String}
    (h : v.declaration = .ok text) : C.Spells C.Separated text v.cDeclarator.tokens := by
  unfold declaration at h
  split at h
  · exact nomatch h
  · obtain rfl := Except.ok.inj h
    exact C.spells_declarator (C.isWord_base v.type.base) hname.isWord v.type.depth

theorem Variable.holds_declaration {v : Variable} (hname : Lexeme.IsName v.name) {text : String}
    (h : v.declaration = .ok text) (level : Nat) :
    C.Holds (Line.render ⟨level, text ++ ";"⟩) [.declare v.cDeclarator] := by
  have hline := C.spells_semicolon_of (v.spells_declaration hname h)
  refine C.holds_line hline (by simp) (fun rest => ?_) level
  rw [List.append_assoc]
  exact C.phrase_declare (d := v.cDeclarator) (C.base_mem_typeNames _) (C.plain_base _) rest

theorem C.Renders.evals {tree : Option C.Tree} {text : String} (h : C.Renders tree text) :
    ∃ t ts, C.evals tree = [.eval t] ∧ C.Spells C.Separated text ts ∧ C.Reads t ts := by
  obtain ⟨t, rfl, ts, hspells, hreads⟩ := h
  exact ⟨t, ts, rfl, hspells, hreads⟩

theorem Factor.holds_condition {f : Factor} (hf : f.WellFormed) {text : String}
    (h : f.cCondition = .ok text) {word : Keyword} (hword : word = .ifKw ∨ word = .whileKw)
    (level : Nat) :
    C.Holds (Line.render ⟨level, word.text ++ " " ++ text ++ " \x7b"⟩)
      (C.evals f.cTree ++ [.enter]) := by
  obtain ⟨t, ts, htree, hspells, hreads⟩ := (Factor.written_condition hf h).evals
  rw [htree]
  refine C.holds_line (C.spells_opening word hspells) (by simp) (fun rest => ?_) level
  have hphrase := C.phrase_condition hword hreads rest
  simpa using hphrase

theorem Expr.holds_return {e : Expr} (he : e.WellFormed) {text : String} (h : e.cText = .ok text)
    (level : Nat) : C.Holds (Line.render ⟨level, "return " ++ text ++ ";"⟩) (C.evals e.cTree) := by
  obtain ⟨t, ts, htree, hspells, hreads⟩ := (e.written he h).1.evals
  rw [htree]
  have hword := (C.spells_word (Lexeme.isWord_keyword .returnKw)).append_starts C.spells_space
    (by decide)
  have hline := C.spells_semicolon_of (hword.append_any hspells)
  refine C.holds_line hline (by simp) (fun rest => ?_) level
  have hphrase := C.phrase_return hreads rest
  rw [List.append_assoc]
  exact hphrase

theorem Statement.holds_call {callee : Function} {args : List Expr}
    (hcallee : Lexeme.IsName callee.name) (hargs : Expr.AllWellFormed args) {texts : List String}
    (h : Expr.cTexts args = .ok texts) (loc : Location) (level : Nat) :
    C.Holds (Line.render ⟨level, cCall callee.name texts ++ ";"⟩)
      (C.evals (Factor.call callee args loc).cTree) := by
  obtain ⟨trees, tss, htrees, hspells, hreads⟩ := Expr.allWritten args hargs h
  rw [Factor.cTree, htrees]
  have hline := C.spells_semicolon_of (C.spells_call hcallee.isWord hspells).weaken
  refine C.holds_line hline (by simp) (fun rest => ?_) level
  have hphrase := C.phrase_call hcallee hreads rest
  rw [List.append_assoc]
  exact hphrase

/-- A target is a name behind stars. -/
theorem Reference.cTarget_eq {r : Reference} {text : String} (h : r.cTarget = .ok text) :
    ∃ n, text = Text.row '*' n ++ r.name ∧ r.cTree = some (.derefs n (.word r.name)) := by
  obtain ⟨i, hi, htext⟩ := except_bind_eq_ok.1 h
  unfold indirection Indirection.ofDepths? at hi
  by_cases hle : r.usage ≤ r.declared
  · rw [if_pos hle] at hi
    obtain rfl := Except.ok.inj hi
    obtain rfl := Except.ok.inj htext
    exact ⟨_, rfl, if_pos hle⟩
  · rw [if_neg hle] at hi
    by_cases heq : r.usage = r.declared + 1
    · rw [if_pos heq] at hi
      obtain rfl := Except.ok.inj hi
      exact nomatch htext
    · rw [if_neg heq] at hi
      exact nomatch hi

theorem Statement.holds_assign {target : Reference} {value : Value}
    (htarget : Lexeme.IsName target.name) (hvalue : value.WellFormed) {left right : String}
    (hleft : target.cTarget = .ok left) (hright : value.cText = .ok right) (level : Nat) :
    C.Holds (Line.render ⟨level, left ++ " = " ++ right ++ ";"⟩)
      (C.evals target.cTree ++ C.evals value.cTree) := by
  obtain ⟨n, rfl, htree⟩ := Reference.cTarget_eq hleft
  obtain ⟨t, us, hevals, hspells, hreads⟩ := (value.written hvalue hright).1.evals
  rw [htree, hevals]
  have hline := C.spells_semicolon_of
    (C.spells_assign (C.spells_derefs htarget.isWord n).1 hspells)
  refine C.holds_line hline (by simp) (fun rest => ?_) level
  have hphrase := C.phrase_assign htarget n hreads rest
  simpa [C.evals] using hphrase

theorem C.holds_word (word : Keyword)
    (h : ∀ rest, C.phrase (.word word.text :: .punct ";" :: rest) = some ([], rest)) (level : Nat) :
    C.Holds (Line.render ⟨level, word.text ++ ";"⟩) [] :=
  C.holds_line (C.spells_semicolon_of (C.spells_word (Lexeme.isWord_keyword word))) (by simp) h
    level

mutual

/-- The lines of a statement are read as what the statement is in C. -/
theorem Statement.holds (level : Nat) : (s : Statement) → s.WellFormed →
    (s.emit level).Holds s.cItems
  | .branch condition yes [] _, h => by
    have hhead := Emission.holds_tryLine fun s hs =>
      Factor.holds_condition h.1 hs (.inl rfl) level
    have hall := ((hhead.andThen (Statement.holdsAll (level + 1) yes h.2.1)).andThen
      Emission.holds_empty).andThen (Emission.holds_line (C.holds_leave level))
    simp only [Statement.emit, Statement.cItems, List.append_assoc] at hall ⊢
    exact hall
  | .branch condition yes (first :: no) _, h => by
    have hhead := Emission.holds_tryLine fun s hs =>
      Factor.holds_condition h.1 hs (.inl rfl) level
    have hno := (Emission.holds_line (C.holds_else level)).andThen
      (Statement.holdsAll (level + 1) (first :: no) h.2.2)
    have hall := ((hhead.andThen (Statement.holdsAll (level + 1) yes h.2.1)).andThen
      hno).andThen (Emission.holds_line (C.holds_leave level))
    simp only [Statement.emit, Statement.cItems, List.append_assoc] at hall ⊢
    exact hall
  | .loop condition body _, h => by
    have hhead := Emission.holds_tryLine fun s hs =>
      Factor.holds_condition h.1 hs (.inr rfl) level
    have hall := (hhead.andThen (Statement.holdsAll (level + 1) body h.2)).andThen
      (Emission.holds_line (C.holds_leave level))
    simp only [Statement.emit, Statement.cItems, List.append_assoc] at hall ⊢
    exact hall
  | .declare v _, h => Emission.holds_tryLine fun _ hs => v.holds_declaration h hs level
  | .call _ _ loc, h =>
    Emission.holds_tryLine fun _ hs => Statement.holds_call h.1 h.2 hs loc level
  | .ret (some value) _, h => Emission.holds_tryLine fun _ hs => value.holds_return h hs level
  | .ret none _, _ => Emission.holds_line (C.holds_word .returnKw C.phrase_return_none level)
  | .brk _, _ => Emission.holds_line (C.holds_word .breakKw C.phrase_break level)
  | .cont _, _ => Emission.holds_line (C.holds_word .continueKw C.phrase_continue level)
  | .assign (.mk (some target) value _) _, h => by
    refine Emission.holds_tryLine fun s hs => ?_
    obtain ⟨right, hright, hs⟩ := except_bind_eq_ok.1 hs
    obtain ⟨left, hleft, hs⟩ := except_bind_eq_ok.1 hs
    obtain rfl := Except.ok.inj hs
    exact Statement.holds_assign h.1 h.2 hleft hright level
  | .assign (.mk none _ _) _, h => h.elim

theorem Statement.holdsAll (level : Nat) : (ss : List Statement) → Statement.AllWellFormed ss →
    (Statement.emitAll level ss).Holds (Statement.allCItems ss)
  | [], _ => Emission.holds_empty
  | s :: ss, h => (s.holds level h.1).andThen (Statement.holdsAll level ss h.2)

end

/-! ### Functions -/

namespace Function

/-- The text that is written for a function. -/
def cDefinition (f : Function) : String :=
  (Generator.new.function f).2.text

/-- What a function returns and its name. -/
def cDeclarator (f : Function) : C.Declarator :=
  if f.isEntryPoint then ⟨"int", 0, "main"⟩ else ⟨f.returns.base.cText, f.returns.depth, f.name⟩

/-- The parameters of an entry point. -/
def entryDeclarators : List Variable → List C.Declarator
  | [] => []
  | [count] => [⟨"int", 0, count.name⟩]
  | count :: strings :: vs =>
    ⟨"int", 0, count.name⟩ :: ⟨"char", 2, strings.name⟩ :: vs.map Variable.cDeclarator

def cDeclarators (f : Function) : List C.Declarator :=
  if f.isEntryPoint then entryDeclarators f.params else f.params.map Variable.cDeclarator

theorem name_entryDeclarators (vs : List Variable) :
    (entryDeclarators vs).map C.Declarator.name = vs.map Variable.name := by
  match vs with
  | [] => rfl
  | [count] => rfl
  | count :: strings :: vs => simp [entryDeclarators, Variable.cDeclarator]

theorem name_cDeclarators (f : Function) :
    f.cDeclarators.map C.Declarator.name = f.params.map Variable.name := by
  unfold cDeclarators
  split
  · exact name_entryDeclarators f.params
  · simp [Variable.cDeclarator]

theorem spells_declarations {vs : List Variable} (hvs : ∀ v ∈ vs, Lexeme.IsName v.name)
    {texts : List String} (h : declarations vs = .ok texts) :
    List.Forall₂ (C.Spells C.Separated) texts
      ((vs.map Variable.cDeclarator).map C.Declarator.tokens) := by
  induction vs generalizing texts with
  | nil =>
    obtain rfl := Except.ok.inj h
    exact .nil
  | cons v vs ih =>
    obtain ⟨hv, hvs⟩ := List.forall_mem_cons.1 hvs
    obtain ⟨text, htext, h⟩ := except_bind_eq_ok.1 h
    obtain ⟨more, hmore, h⟩ := except_bind_eq_ok.1 h
    obtain rfl := Except.ok.inj h
    exact .cons (v.spells_declaration hv htext) (ih hvs hmore)

theorem spells_entryDeclarations {vs : List Variable} (hvs : ∀ v ∈ vs, Lexeme.IsName v.name)
    {texts : List String} (h : entryDeclarations vs = .ok texts) :
    List.Forall₂ (C.Spells C.Separated) texts
      ((entryDeclarators vs).map C.Declarator.tokens) := by
  have hint : ∀ v ∈ vs, C.Spells C.Separated ("int " ++ v.name)
      (C.Declarator.tokens ⟨"int", 0, v.name⟩) := fun v hv =>
    C.spells_declarator (Lexeme.isWord_keyword .intKw) (hvs v hv).isWord 0
  have hchar : ∀ v ∈ vs, C.Spells C.Separated ("char **" ++ v.name)
      (C.Declarator.tokens ⟨"char", 2, v.name⟩) := fun v hv =>
    C.spells_declarator (Lexeme.isWord_keyword .charKw) (hvs v hv).isWord 2
  match vs, h with
  | [], h =>
    obtain rfl := Except.ok.inj h
    exact .nil
  | [count], h =>
    obtain rfl := Except.ok.inj h
    exact .cons (hint count (by simp)) .nil
  | count :: strings :: vs, h =>
    obtain ⟨more, hmore, h⟩ := except_bind_eq_ok.1 h
    obtain rfl := Except.ok.inj h
    refine .cons (hint count (by simp)) (.cons (hchar strings (by simp)) ?_)
    exact spells_declarations (fun v hv => hvs v (by simp [hv])) hmore

theorem spells_cHead {f : Function} (hname : Lexeme.IsName f.name) :
    C.Spells C.Separated f.cHead f.cDeclarator.tokens := by
  have hmain : Lexeme.IsWord "main".toList :=
    ⟨_, _, rfl, by decide, by decide, List.all_eq_true.1 (by decide)⟩
  unfold cHead cDeclarator
  split
  · exact C.spells_declarator (Lexeme.isWord_keyword .intKw) hmain 0
  · exact C.spells_declarator (C.isWord_base _) hname.isWord _

theorem spells_cParams {f : Function} (hparams : ∀ v ∈ f.params, Lexeme.IsName v.name)
    {text : String} (h : f.cParams = .ok text) :
    C.Spells C.Separated text (C.parameterTokens f.cDeclarators) := by
  unfold cParams at h
  unfold cDeclarators
  cases hcases : f.params with
  | nil =>
    rw [hcases] at h
    obtain rfl := Except.ok.inj h
    have hvoid := C.spells_word (Lexeme.isWord_keyword .voidKw)
    split
    · exact hvoid
    · exact hvoid
  | cons v vs =>
    rw [hcases] at h hparams
    by_cases hentry : f.isEntryPoint = true
    · simp only [hentry, if_true] at h ⊢
      obtain ⟨texts, htexts, h⟩ := except_bind_eq_ok.1 h
      obtain rfl := Except.ok.inj h
      have hall := C.spells_joined (spells_entryDeclarations hparams htexts)
      cases vs with
      | nil => exact hall
      | cons v' vs => exact hall
    · simp only [hentry] at h ⊢
      obtain ⟨texts, htexts, h⟩ := except_bind_eq_ok.1 h
      obtain rfl := Except.ok.inj h
      exact C.spells_joined (spells_declarations hparams htexts)

theorem spells_signature {f : Function} (hname : Lexeme.IsName f.name)
    (hparams : ∀ v ∈ f.params, Lexeme.IsName v.name) {text : String}
    (h : f.signature = .ok text) :
    C.Spells Anything (text ++ " \x7b")
      (f.cDeclarator.tokens ++ .punct "(" ::
        (C.parameterTokens f.cDeclarators ++ [.punct ")", .punct "\x7b"])) := by
  obtain ⟨params, hcParams, h⟩ := except_bind_eq_ok.1 h
  obtain rfl := Except.ok.inj h
  have hparens := (C.spells_lparen.append_any (spells_cParams hparams hcParams)).append_starts
    C.spells_rparen (by decide)
  have hparen : StartsIn C.isSeparator "(" := by decide
  have hfront := (spells_cHead hname).append_starts hparens (by
    rw [String.append_assoc]
    exact hparen.append _)
  have hall := hfront.append_any (C.spells_space.append_any C.spells_lbrace)
  simpa [inParens] using hall

/-- Everything in a function has a C text. -/
def HasDefinition (f : Function) : Prop :=
  (∃ signature, f.signature = .ok signature) ∧ (Statement.emitAll 1 f.body).failure = none

end Function

/-! ### Programs -/

namespace Generator

variable {g : Generator} {f : Function}

theorem text_write (g : Generator) (lines : List Line) :
    (g.write lines).text = g.text ++ Line.renderAll lines :=
  Line.renderAll_append _ _

theorem function_eq (hlevel : g.level = 0) {signature : String}
    (hsignature : f.signature = .ok signature)
    (hok : (Statement.emitAll 1 f.body).failure = none) :
    g.function f = (none, g.write (⟨0, signature ++ " \x7b"⟩ ::
      ((Statement.emitAll 1 f.body).lines ++ [⟨0, "\x7d"⟩]))) := by
  simp [function, hsignature, hlevel, hok, write]

theorem hasDefinition_of_function (hlevel : g.level = 0) (h : (g.function f).1 = none) :
    f.HasDefinition := by
  unfold function at h
  cases hsignature : f.signature with
  | error e =>
    rw [hsignature] at h
    exact nomatch h
  | ok signature =>
    refine ⟨⟨signature, hsignature⟩, ?_⟩
    cases hok : (Statement.emitAll 1 f.body).failure with
    | none => rfl
    | some e =>
      simp only [hsignature, hlevel, Nat.zero_add, hok] at h
      exact nomatch h

/-- A function adds its definition to the text. -/
theorem text_function (hlevel : g.level = 0) (h : f.HasDefinition) :
    (g.function f).2.text = g.text ++ f.cDefinition ∧ (g.function f).2.level = 0 := by
  obtain ⟨⟨signature, hsignature⟩, hok⟩ := h
  have hnew := function_eq (g := new) rfl hsignature hok
  rw [Function.cDefinition, hnew, function_eq hlevel hsignature hok, text_write, text_write]
  exact ⟨by rw [show new.text = "" from rfl, String.empty_append], hlevel⟩

/-- The generator goes on from `g` and the text contains the definitions of these functions. -/
def Defines (g : Generator) (fs : List Function) (g' : Generator) : Prop :=
  (∃ more, g'.text = g.text ++ more) ∧
    ∀ f ∈ fs, f.HasDefinition ∧ ∃ before after, g'.text = before ++ f.cDefinition ++ after

theorem defines_functions_cons {fs : List Function} (hlevel : g.level = 0)
    (hlater : ∀ g : Generator, g.level = 0 → (g.laterFunctions fs).1 = none →
      Defines g fs (g.laterFunctions fs).2)
    (h : (g.functions (f :: fs)).1 = none) : Defines g (f :: fs) (g.functions (f :: fs)).2 := by
  have hfirst : (g.function f).1 = none := by
    cases hfunction : g.function f with
    | mk failure g' =>
      cases failure with
      | none => rfl
      | some e =>
        rw [functions, hfunction] at h
        exact nomatch h
  have hdefinition := hasDefinition_of_function hlevel hfirst
  obtain ⟨htext, hlevel'⟩ := text_function hlevel hdefinition
  have hstep : g.functions (f :: fs) = (g.function f).2.laterFunctions fs := by
    rw [functions]
    cases hfunction : g.function f with
    | mk failure g' =>
      rw [hfunction] at hfirst
      obtain rfl : failure = none := hfirst
      rfl
  rw [hstep] at h ⊢
  obtain ⟨⟨more, hmore⟩, hrest⟩ := hlater _ hlevel' h
  rw [htext] at hmore
  refine ⟨⟨f.cDefinition ++ more, by rw [hmore, String.append_assoc]⟩, ?_⟩
  exact List.forall_mem_cons.2 ⟨⟨hdefinition, g.text, more, hmore⟩, hrest⟩

theorem defines_laterFunctions {fs : List Function} (hlevel : g.level = 0)
    (h : (g.laterFunctions fs).1 = none) : Defines g fs (g.laterFunctions fs).2 := by
  induction fs generalizing g with
  | nil => exact ⟨⟨"", String.append_empty.symm⟩, by simp⟩
  | cons f fs ih =>
    obtain ⟨⟨more, hmore⟩, hall⟩ :=
      defines_functions_cons (g := g.write [.blank]) hlevel (fun _ hg hok => ih hg hok) h
    refine ⟨⟨Line.renderAll [.blank] ++ more, ?_⟩, hall⟩
    rw [← String.append_assoc, ← text_write]
    exact hmore

theorem defines_functions {fs : List Function} (hlevel : g.level = 0)
    (h : (g.functions fs).1 = none) : Defines g fs (g.functions fs).2 := by
  cases fs with
  | nil => exact ⟨⟨"", String.append_empty.symm⟩, by simp⟩
  | cons f fs =>
    exact defines_functions_cons hlevel (fun _ hg hok => defines_laterFunctions hg hok) h

theorem level_globals (g : Generator) (vs : List Variable) : (g.globals vs).2.level = g.level := by
  cases vs <;> rfl

theorem level_prototypes (g : Generator) (fs : List Function) :
    (g.prototypes fs).2.level = g.level := by
  cases fs <;> rfl

end Generator

/-- The text of a program contains the definition of each function. -/
theorem Program.contains_cDefinition {p : Program} {text : String} (h : p.cText = .ok text)
    {f : Function} (hf : f ∈ p.functions) :
    f.HasDefinition ∧ ∃ before after, text = before ++ f.cDefinition ++ after := by
  unfold cText Generator.program at h
  have hglobals := Generator.level_globals Generator.new.preamble p.globals
  generalize Generator.new.preamble.globals p.globals = globals at h hglobals
  obtain ⟨_ | e, g⟩ := globals
  · have hprototypes := Generator.level_prototypes g p.functions
    dsimp only at h
    generalize g.prototypes p.functions = prototypes at h hprototypes
    obtain ⟨_ | e, g'⟩ := prototypes
    · have hlevel : g'.level = 0 := hprototypes.trans hglobals
      have hdefines := @Generator.defines_functions g' p.functions hlevel
      dsimp only at h
      generalize g'.functions p.functions = functions at h hdefines
      obtain ⟨_ | e, g''⟩ := functions
      · obtain rfl := Except.ok.inj h
        exact (hdefines rfl).2 f hf
      · exact nomatch h
    · exact nomatch h
  · exact nomatch h

/-! ### Definitions -/

/-- The definition that is written for a function is read as the function. -/
theorem Function.definition_cDefinition {f : Function} (hname : Lexeme.IsName f.name)
    (hparams : ∀ v ∈ f.params, Lexeme.IsName v.name) (hbody : Statement.AllWellFormed f.body)
    (h : f.HasDefinition) :
    C.definition f.cDefinition =
      some ⟨f.cDeclarator, f.cDeclarators, .enter :: (Statement.allCItems f.body ++ [.leave])⟩ := by
  obtain ⟨⟨signature, hsignature⟩, hok⟩ := h
  have htext : f.cDefinition = Line.render ⟨0, signature ++ " \x7b"⟩ ++
      ((Statement.emitAll 1 f.body).text ++ Line.render ⟨0, "\x7d"⟩) := by
    rw [cDefinition, Generator.function_eq rfl hsignature hok, Generator.text_write,
      Line.renderAll_cons, Line.renderAll_append]
    rw [show Generator.new.text = "" from rfl, String.empty_append, Line.renderAll_cons,
      show Line.renderAll [] = "" from rfl, String.append_empty]
    rfl
  rw [htext]
  refine C.definition_of_spells (C.spells_render (spells_signature hname hparams hsignature) 0) ?_
  exact (Statement.holdsAll 1 f.body hbody hok).append (C.holds_leave 0)

end Shc
