import Shc.Proofs.Sound.Expr

/-!
# Accepted statements derive from the grammar

A statement parser also says what it leaves behind: the scope has grown by the
variables that the statement declares, and whatever occurs in the statement was
known by then.  The two facts compose along a row of statements.

An `else` is read by the innermost `if` that can take it.  So where a statement ends
in an `if` without `else`, the token behind it is none, and a body in front of an
`else` does not end that way.
-/

namespace Shc

open Token (Kind)
open Grammar (symbolAt wordAt nameAt)

/-- A use of a name is justified by a variable of that name. -/
abbrev Grammar.Named (vars : List Variable) (name : String) : Prop :=
  name ∈ vars.map Variable.name

/-- The scope after a walk has the variables that were declared on it, and whatever
    occurred was known by then. -/
structure Scope.Grows (scope : Scope) (mentions : List (Mention String)) (scope' : Scope) :
    Prop where
  indexed : scope'.Indexed
  params_eq : scope'.params = scope.params
  locals_eq : scope'.locals = scope.locals ++ Mention.declared mentions
  bound : Mention.Bound Grammar.Named scope.vars mentions

theorem Means.grows {α : Type} {scope : Scope} {room depth : Nat} {uses : List String}
    {image : (String → Variable) → α} {a : α} (hscope : scope.Indexed)
    (h : Means scope room uses depth image a) : scope.Grows (uses.map .use) scope where
  indexed := hscope
  params_eq := rfl
  locals_eq := by simp
  bound := by
    rw [Mention.bound_map_use]
    intro name hname
    exact hscope.exists_find?_iff.1 (h.known name hname)

namespace Scope.Grows

variable {scope scope₁ scope₂ : Scope} {first second : List (Mention String)}

theorem vars_eq (h : scope.Grows first scope₁) :
    scope₁.vars = scope.vars ++ Mention.declared first := by
  rw [Scope.vars, Scope.vars, h.params_eq, h.locals_eq, List.append_assoc]

theorem trans (h₁ : scope.Grows first scope₁) (h₂ : scope₁.Grows second scope₂) :
    scope.Grows (first ++ second) scope₂ where
  indexed := h₂.indexed
  params_eq := h₂.params_eq.trans h₁.params_eq
  locals_eq := by
    rw [h₂.locals_eq, h₁.locals_eq, Mention.declared_append, List.append_assoc]
  bound := Mention.bound_append.2 ⟨h₁.bound, h₁.vars_eq ▸ h₂.bound⟩

/-- What agrees with the scope after a walk agrees with the one before it. -/
theorem agrees {env : String → Variable} (h : scope.Grows first scope₁)
    (hscope : scope.Indexed) (henv : scope₁.Agrees env) : scope.Agrees env := by
  intro name v hfind
  obtain ⟨hmem, hname⟩ := hscope.find?_eq_some_iff.1 hfind
  refine henv _ _ (h.indexed.find?_eq_some_iff.2 ⟨?_, hname⟩)
  rw [h.vars_eq]
  exact List.mem_append_left _ hmem

end Scope.Grows

/-- What parsing statements leaves behind: the scope has grown, and the statements
    are the image of what was read. -/
structure Leaves (scope : Scope) (room : Nat) (mentions : List (Mention String)) (depth : Nat)
    (image : (String → Variable) → List Statement) (left : Parser.Body) : Prop where
  grows : scope.Grows mentions left.1
  depth_le : depth ≤ room
  image_eq : ∀ {env : String → Variable}, left.1.Agrees env → image env = left.2

/-- Statements that declare nothing leave the scope as it is. -/
theorem Leaves.of_uses {scope : Scope} {room : Nat} (uses : List String) {depth : Nat}
    {image : (String → Variable) → List Statement} {statements : List Statement}
    (hscope : scope.Indexed) (h : Means scope room uses depth image statements) :
    Leaves scope room (uses.map .use) depth image (scope, statements) :=
  ⟨h.grows hscope, h.depth_le, h.image_eq⟩

namespace Parser

/-! ### Parts of statements -/

theorem condition_finds {scope : Scope} {room : Nat} {e : Parser Expr}
    (he : FindsExpr scope room e) (keyword : Keyword) :
    Finds (condition keyword e) Grammar.Condition.tokens
      (fun c => Means scope room c.inner.uses c.inner.depth (c.image ·)) := by
  intro s s' found hs h
  rw [condition, peek_bind] at h
  obtain ⟨u, s₁, hopen, h⟩ := bind_eq_ok.1 h
  obtain ⟨opening, hcons₁⟩ := expect_ok hs rfl hopen
  obtain ⟨e, s₂, hexpr, h⟩ := bind_eq_ok.1 h
  obtain ⟨inner, hcons₂, hmeans⟩ := he hcons₁.closed hexpr
  obtain ⟨u', s₃, hclose, hpure⟩ := bind_eq_ok.1 h
  obtain ⟨closing, hcons₃⟩ := expect_ok hcons₂.closed rfl hclose
  obtain ⟨rfl, rfl⟩ := pure_eq_ok.1 hpure
  refine ⟨⟨opening, inner, closing⟩, hcons₁.trans (hcons₂.trans hcons₃), ?_⟩
  rw [Token.loc, hcons₁.current_eq]
  exact hmeans.map (Factor.paren · opening.start)

/-- A declaration behind its name. -/
theorem declaration_ok {scope : Scope} {room : Nat} {expr : Parser Expr}
    (hexprs : FindsExpr scope room expr) {n : String} {span : Span} {s s' : Stream}
    {v : Variable} (hs : s.Closed) (h : declaration expr n span.start s = .ok v s') :
    ∃ d : Grammar.Declaration, d.name = n ∧ d.span = span ∧ d.image = v ∧
      s.Consumes d.tailTokens s' ∧ Means scope room d.uses d.depth (fun _ => d.image) v := by
  obtain ⟨u, s₁, hcolon, h⟩ := bind_eq_ok.1 h
  obtain ⟨colon, hcons₁⟩ := expect_ok hs rfl hcolon
  obtain ⟨ty, s₂, htype, h⟩ := bind_eq_ok.1 h
  obtain ⟨t, hcons₂, rfl⟩ := type_finds hcons₁.closed htype
  obtain ⟨found, s₃, haccept, hrest⟩ := bind_eq_ok.1 h
  have hend : ∀ {s₄ : Stream}, s₄.Closed →
      (peek >>= fun t' => if t'.kind = .symbol .comma then
        (fail .multipleDeclarations t'.span : Parser Unit) >>= fun _ => do
          semicolon
          return (⟨n, t.image, span.start⟩ : Variable)
        else do
          semicolon
          return (⟨n, t.image, span.start⟩ : Variable)) s₄ = .ok v s' →
      ∃ semi, s₄.Consumes [symbolAt .semicolon semi] s' ∧ v = ⟨n, t.image, span.start⟩ := by
    intro s₄ hs₄ hrest
    rw [peek_bind] at hrest
    split at hrest
    · simp at hrest
    · obtain ⟨u', s₅, hsemi, hpure⟩ := bind_eq_ok.1 hrest
      obtain ⟨semi, hcons⟩ := expect_ok hs₄ rfl hsemi
      obtain ⟨rfl, rfl⟩ := pure_eq_ok.1 hpure
      exact ⟨semi, hcons, rfl⟩
  cases found with
  | true =>
    obtain ⟨eq, hcons₃⟩ := accept_ok_true hcons₂.closed rfl haccept
    obtain ⟨e, s₄, hexpr, htail⟩ := bind_eq_ok.1 hrest
    obtain ⟨init, hcons₄, hmeans⟩ := hexprs hcons₃.closed hexpr
    obtain ⟨semi, hcons₅, rfl⟩ := hend hcons₄.closed htail
    exact ⟨⟨n, span, colon, t, some (eq, init), semi⟩, rfl, rfl, rfl,
      hcons₁.trans (hcons₂.trans ((hcons₃.trans hcons₄).trans hcons₅)),
      hmeans.known, hmeans.depth_le, fun _ => rfl⟩
  | false =>
    obtain ⟨rfl, -⟩ := accept_ok_false haccept
    obtain ⟨semi, hcons₃, rfl⟩ := hend hcons₂.closed hrest
    exact ⟨⟨n, span, colon, t, none, semi⟩, rfl, rfl, rfl,
      hcons₁.trans (hcons₂.trans hcons₃), .const _⟩

theorem assignment_ok {scope : Scope} {room : Nat} {value : Parser Value}
    (hvalues : FindsValue scope room value) {target : Reference} {loc : Location} {s s' : Stream}
    {found : Statement} (hs : s.Closed) (h : assignment value target loc s = .ok found s') :
    ∃ (eq : Span) (e : Grammar.Expr) (semi : Span),
      s.Consumes (symbolAt .eq eq :: (e.tokens ++ [symbolAt .semicolon semi])) s' ∧
      Means scope room e.uses e.depth
        (fun env => .assign ⟨some target, e.image env, loc⟩ loc) found := by
  obtain ⟨u, s₁, heq, h⟩ := bind_eq_ok.1 h
  obtain ⟨eq, hcons₁⟩ := expect_ok hs rfl heq
  obtain ⟨v, s₂, hvalue, h⟩ := bind_eq_ok.1 h
  obtain ⟨e, hcons₂, hmeans⟩ := hvalues hcons₁.closed hvalue
  obtain ⟨u', s₃, hsemi, hpure⟩ := bind_eq_ok.1 h
  obtain ⟨semi, hcons₃⟩ := expect_ok hcons₂.closed rfl hsemi
  obtain ⟨rfl, rfl⟩ := pure_eq_ok.1 hpure
  exact ⟨eq, e, semi, hcons₁.trans (hcons₂.trans hcons₃),
    hmeans.map fun value => Statement.assign ⟨some target, value, loc⟩ loc⟩

/-! ### Statements that open nothing -/

/-- A successful run has consumed a statement that ends in no open `if`. -/
def FindsFlat (scope : Scope) (room : Nat) (p : Parser Body) : Prop :=
  ∀ {s s' : Stream} {left : Body}, s.Closed → p s = .ok left s' →
    ∃ t : Grammar.Statement, s.Consumes t.tokens s' ∧ t.NearestElse ∧ t.endsOpen = false ∧
      Leaves scope room t.mentions t.depth (t.image ·) left

theorem assign_leaves {scope : Scope} {room : Nat} {markers : List Span} {n : String}
    {v : Variable} {span eq semi : Span} {e : Grammar.Expr} {found : Statement}
    (hscope : scope.Indexed) (hfind : scope.find? n = some v)
    (hmeans : Means scope room e.uses e.depth (fun env => .assign
      ⟨some ⟨v, markers.length, (markers.head?.getD span).start⟩, e.image env,
        (markers.head?.getD span).start⟩ (markers.head?.getD span).start) found) :
    Leaves scope room (Grammar.Statement.assign markers n span eq e semi).mentions e.depth
      (fun env => (Grammar.Statement.assign markers n span eq e semi).image env)
      (scope, [found]) := by
  have htarget := (Means.name hfind).append (fun v env => Statement.assign
    ⟨some ⟨v, markers.length, (markers.head?.getD span).start⟩, e.image env,
      (markers.head?.getD span).start⟩ (markers.head?.getD span).start) hmeans
  rw [Nat.zero_max] at htarget
  exact .of_uses (n :: e.uses) hscope (htarget.map ([·]))

theorem named_finds {scope : Scope} (hscope : scope.Indexed) (room : Nat) :
    FindsFlat scope room (named scope (unary scope room) (args scope room)) := by
  intro s s' left hs h
  obtain ⟨⟨n, span⟩, s₁, hname, hrest⟩ := bind_eq_ok.1 h
  have hcons₁ := name_ok hs hname
  simp only [peek_bind] at hrest
  generalize hkind : s₁.current.kind = kind at hrest
  split at hrest
  · -- a declaration
    obtain ⟨v, s₂, hdecl, hrest⟩ := bind_eq_ok.1 hrest
    obtain ⟨d, rfl, rfl, rfl, hcons₂, hmeans⟩ :=
      declaration_ok (exprOf_finds (unary_finds scope room)) hcons₁.closed hdecl
    cases hdeclare : scope.declareLocal? d.image with
    | none => simp [hdeclare] at hrest
    | some grown =>
      simp only [hdeclare, pure_run, EStateM.Result.ok.injEq] at hrest
      obtain ⟨rfl, rfl⟩ := hrest
      obtain ⟨grown', hgrown', hindexed, hparams, hlocals⟩ :=
        hscope.declareLocal?_of_notMem (hscope.notMem_of_declareLocal? hdeclare)
      obtain rfl : grown' = grown := Option.some.inj (hgrown'.symm.trans hdeclare)
      refine ⟨.declare d, hcons₁.trans hcons₂, trivial, rfl, ?_⟩
      have hgrows : scope.Grows [.declare d.image] grown' :=
        ⟨hindexed, hparams, hlocals, Mention.bound_declare_cons.2 Mention.bound_nil⟩
      exact ⟨(hmeans.grows hscope).trans hgrows, hmeans.depth_le, fun _ => rfl⟩
  · -- a call
    obtain ⟨t, s₂, hadvance, hrest⟩ := bind_eq_ok.1 hrest
    have hopen := advance_ok_of_kind hcons₁.closed hkind rfl hadvance
    obtain ⟨all, s₃, hargs, hrest⟩ := bind_eq_ok.1 hrest
    obtain ⟨⟨e, closing⟩, hcons₃, hmeans⟩ := args_finds scope room hopen.closed hargs
    obtain ⟨u, s₄, hsemi, hpure⟩ := bind_eq_ok.1 hrest
    obtain ⟨semi, hcons₄⟩ := expect_ok hcons₃.closed rfl hsemi
    obtain ⟨rfl, rfl⟩ := pure_eq_ok.1 hpure
    refine ⟨.call n span s₁.current.span e closing semi, ?_, trivial, rfl, ?_⟩
    · have hall := hcons₁.trans (hopen.trans (hcons₃.trans hcons₄))
      simpa [Grammar.Statement.tokens] using hall
    · refine .of_uses _ hscope ⟨hmeans.known, hmeans.depth_le, ?_⟩
      intro env henv
      rw [Grammar.Statement.image, hmeans.image_eq henv]
      rfl
  · -- an assignment without markers
    obtain ⟨r, s₂, hresolve, htail⟩ := bind_eq_ok.1 hrest
    obtain ⟨v, hfind, rfl, rfl⟩ := resolve_ok hresolve
    obtain ⟨found, s₃, hassign, hpure⟩ := bind_eq_ok.1 htail
    obtain ⟨eq, e, semi, hcons₂, hmeans⟩ :=
      assignment_ok (valueOf_finds (unary_finds scope room)) hcons₁.closed hassign
    obtain ⟨rfl, rfl⟩ := pure_eq_ok.1 hpure
    refine ⟨.assign [] n span eq e semi, hcons₁.trans hcons₂, trivial, rfl, ?_⟩
    exact assign_leaves hscope hfind hmeans
  · simp at hrest

theorem ret_ok {scope : Scope} {room : Nat} {expr : Parser Expr}
    (hexprs : FindsExpr scope room expr) {loc : Location} {s s' : Stream} {found : Statement}
    (hs : s.Closed) (h : ret expr loc s = .ok found s') :
    ∃ (value : Option Grammar.Expr) (semi : Span),
      s.Consumes (value.elim [] Grammar.Chain.tokens ++ [symbolAt .semicolon semi]) s' ∧
      Means scope room (value.elim [] Grammar.Chain.uses) (value.elim 0 Grammar.Chain.depth)
        (fun env => .ret (value.map (Grammar.Chain.expr env)) loc) found := by
  rw [ret, peek_bind] at h
  split at h
  · obtain ⟨value, s₁, hvalue, hrest⟩ := bind_eq_ok.1 h
    obtain ⟨rfl, rfl⟩ := pure_eq_ok.1 hvalue
    obtain ⟨u, s₂, hsemi, hpure⟩ := bind_eq_ok.1 hrest
    obtain ⟨semi, hcons⟩ := expect_ok hs rfl hsemi
    obtain ⟨rfl, rfl⟩ := pure_eq_ok.1 hpure
    exact ⟨none, semi, hcons, .const (Statement.ret none loc)⟩
  · obtain ⟨value, s₁, hvalue, hrest⟩ := bind_eq_ok.1 h
    obtain ⟨e, hexpr, rfl⟩ := map_eq_ok.1 hvalue
    obtain ⟨t, hcons₁, hmeans⟩ := hexprs hs hexpr
    obtain ⟨u, s₂, hsemi, hpure⟩ := bind_eq_ok.1 hrest
    obtain ⟨semi, hcons₂⟩ := expect_ok hcons₁.closed rfl hsemi
    obtain ⟨rfl, rfl⟩ := pure_eq_ok.1 hpure
    exact ⟨some t, semi, hcons₁.trans hcons₂,
      hmeans.map fun value => Statement.ret (some value) loc⟩

theorem flat_finds {scope : Scope} (hscope : scope.Indexed) (room : Nat) :
    FindsFlat scope room (flatAt room scope) := by
  intro s s' left hs h
  rw [flatAt, flat, peek_bind] at h
  generalize hkind : s.current.kind = kind at h
  split at h
  · obtain ⟨t, s₁, hadvance, hrest⟩ := bind_eq_ok.1 h
    have hword := advance_ok_of_kind hs hkind rfl hadvance
    obtain ⟨u, s₂, hsemi, hpure⟩ := bind_eq_ok.1 hrest
    obtain ⟨semi, hcons⟩ := expect_ok hword.closed rfl hsemi
    obtain ⟨rfl, rfl⟩ := pure_eq_ok.1 hpure
    refine ⟨.brk s.current.span semi, hword.trans hcons, trivial, rfl, ?_⟩
    exact .of_uses [] hscope (.const _)
  · obtain ⟨t, s₁, hadvance, hrest⟩ := bind_eq_ok.1 h
    have hword := advance_ok_of_kind hs hkind rfl hadvance
    obtain ⟨u, s₂, hsemi, hpure⟩ := bind_eq_ok.1 hrest
    obtain ⟨semi, hcons⟩ := expect_ok hword.closed rfl hsemi
    obtain ⟨rfl, rfl⟩ := pure_eq_ok.1 hpure
    refine ⟨.cont s.current.span semi, hword.trans hcons, trivial, rfl, ?_⟩
    exact .of_uses [] hscope (.const _)
  · obtain ⟨t, s₁, hadvance, hrest⟩ := bind_eq_ok.1 h
    have hword := advance_ok_of_kind hs hkind rfl hadvance
    obtain ⟨found, s₂, hret, hpure⟩ := bind_eq_ok.1 hrest
    obtain ⟨value, semi, hcons, hmeans⟩ :=
      ret_ok (exprOf_finds (unary_finds scope room)) hword.closed hret
    obtain ⟨rfl, rfl⟩ := pure_eq_ok.1 hpure
    refine ⟨.ret s.current.span value semi, hword.trans hcons, trivial, rfl, ?_⟩
    refine .of_uses _ hscope ⟨hmeans.known, hmeans.depth_le, ?_⟩
    intro env henv
    rw [← hmeans.image_eq henv]
    rfl
  · obtain ⟨t, s₁, hadvance, hpure⟩ := bind_eq_ok.1 h
    have hsemi := advance_ok_of_kind hs hkind rfl hadvance
    obtain ⟨rfl, rfl⟩ := pure_eq_ok.1 hpure
    refine ⟨.empty s.current.span, hsemi, trivial, rfl, ?_⟩
    exact .of_uses [] hscope (.const _)
  · -- an assignment with markers
    obtain ⟨r, s₁, hmarked, hrest⟩ := bind_eq_ok.1 h
    obtain ⟨spans, n, span, v, hcons₁, hfind, rfl⟩ := marked_ok hs hmarked
    obtain ⟨found, s₂, hassign, hpure⟩ := bind_eq_ok.1 hrest
    obtain ⟨eq, e, semi, hcons₂, hmeans⟩ :=
      assignment_ok (valueOf_finds (unary_finds scope room)) hcons₁.closed hassign
    obtain ⟨rfl, rfl⟩ := pure_eq_ok.1 hpure
    refine ⟨.assign spans n span eq e semi, ?_, trivial, rfl, ?_⟩
    · simpa [Grammar.Statement.tokens] using hcons₁.trans hcons₂
    · have hstart : s.current.loc = (spans.head?.getD span).start := by
        cases spans with
        | nil => rw [Token.loc, hcons₁.current_eq]; rfl
        | cons first more => rw [Token.loc, hcons₁.current_eq]; rfl
      rw [hstart] at hmeans
      exact assign_leaves hscope hfind hmeans
  · exact named_finds hscope room hs h
  · simp at h

/-! ### Blocks, branches and loops -/

/-- A successful run has consumed a statement; where that ends in an open `if`, no
    `else` follows. -/
def FindsStatement (room : Nat) (p : Scope → Parser Body) : Prop :=
  ∀ {scope : Scope} {s s' : Stream} {left : Body}, scope.Indexed → s.Closed →
    p scope s = .ok left s' →
    ∃ t : Grammar.Statement, s.Consumes t.tokens s' ∧ t.NearestElse ∧
      (t.endsOpen = true → s'.current.kind ≠ .keyword .elseKw) ∧
      Leaves scope room t.mentions t.depth (t.image ·) left

section

variable {room : Nat} {statement : Scope → Parser Body} {scope : Scope} {s s' : Stream}
  {left : Body}

theorem statements_ok (hstatement : FindsStatement room statement) (hscope : scope.Indexed)
    (hs : s.Closed) (h : statements statement scope s = .ok left s') :
    ∃ ts : Grammar.Statements, s.Consumes ts.tokens s' ∧ ts.NearestElse ∧
      Leaves scope room ts.mentions ts.depth (ts.image ·) left := by
  refine iterate_ok_induction
    (motive := fun (b : Body) s left s' => b.1.Indexed → s.Closed →
      ∃ ts : Grammar.Statements, s.Consumes ts.tokens s' ∧ ts.NearestElse ∧
        Leaves b.1 room ts.mentions ts.depth (fun env => b.2 ++ ts.image env) left)
    ?_ ?_ ?_ h hscope hs
  · rintro ⟨scope, found⟩ s s' hstep
    simp only [peek_bind] at hstep
    split at hstep
    · simp only [pure_run, EStateM.Result.ok.injEq, true_and] at hstep
      exact hstep.symm
    · obtain ⟨⟨scope', new⟩, s₁, hstatement, hpure⟩ := bind_eq_ok.1 hstep
      simp at hpure
  · rintro ⟨scope, found⟩ s hscope hs
    refine ⟨.nil, .refl hs, trivial, ⟨hscope, rfl, ?_, Mention.bound_nil⟩, Nat.zero_le _, ?_⟩
    · simp [Grammar.Statements.mentions, Mention.declared]
    · intro env _
      simp [Grammar.Statements.image]
  · rintro ⟨scope, found⟩ s b' s₁ left s₂ hstep hrest hscope hs
    simp only [peek_bind] at hstep
    split at hstep
    · simp at hstep
    · obtain ⟨⟨scope', new⟩, s₃, hfirst, hpure⟩ := bind_eq_ok.1 hstep
      simp only [pure_run, EStateM.Result.ok.injEq, Option.some.injEq] at hpure
      obtain ⟨rfl, rfl⟩ := hpure
      obtain ⟨t, hcons, hnearest, -, hleaves⟩ := hstatement hscope hs hfirst
      obtain ⟨ts, hconsRest, hnearestRest, hleavesRest⟩ :=
        hrest hleaves.grows.indexed hcons.closed
      refine ⟨.cons t ts, hcons.trans hconsRest, ⟨hnearest, hnearestRest⟩,
        hleaves.grows.trans hleavesRest.grows,
        Nat.max_le.2 ⟨hleaves.depth_le, hleavesRest.depth_le⟩, ?_⟩
      intro env henv
      have hfirstEnv := hleavesRest.grows.agrees hleaves.grows.indexed henv
      have hfirstImage := hleaves.image_eq hfirstEnv
      have hrestImage := hleavesRest.image_eq henv
      simp only at hfirstImage
      rw [← hfirstImage, List.append_assoc] at hrestImage
      exact hrestImage

theorem block_ok (hstatement : FindsStatement room statement) (hscope : scope.Indexed)
    (hs : s.Closed) (h : block statement scope s = .ok left s') :
    ∃ (ts : Grammar.Statements) (closing : Span),
      s.Consumes (ts.tokens ++ [symbolAt .rbrace closing]) s' ∧ ts.NearestElse ∧
      Leaves scope room ts.mentions ts.depth (ts.image ·) left := by
  obtain ⟨found, s₁, hstatements, hrest⟩ := bind_eq_ok.1 h
  obtain ⟨ts, hcons₁, hnearest, hleaves⟩ := statements_ok hstatement hscope hs hstatements
  obtain ⟨u, s₂, hclose, hpure⟩ := bind_eq_ok.1 hrest
  obtain ⟨closing, hcons₂⟩ := expect_ok hcons₁.closed rfl hclose
  obtain ⟨rfl, rfl⟩ := pure_eq_ok.1 hpure
  exact ⟨ts, closing, hcons₁.trans hcons₂, hnearest, hleaves⟩

theorem body_ok (hstatement : FindsStatement room statement) (hscope : scope.Indexed)
    (hs : s.Closed) (h : body statement scope s = .ok left s') :
    ∃ b : Grammar.Body, s.Consumes b.tokens s' ∧ b.NearestElse ∧
      (b.endsOpen = true → s'.current.kind ≠ .keyword .elseKw) ∧
      Leaves scope room b.mentions b.depth (b.image ·) left := by
  obtain ⟨found, s₁, haccept, hrest⟩ := bind_eq_ok.1 h
  cases found with
  | true =>
    obtain ⟨opening, hcons₁⟩ := accept_ok_true hs rfl haccept
    obtain ⟨ts, closing, hcons₂, hnearest, hleaves⟩ :=
      block_ok hstatement hscope hcons₁.closed hrest
    exact ⟨.block opening ts closing, hcons₁.trans hcons₂, hnearest,
      fun hopen => by simp [Grammar.Body.endsOpen] at hopen, hleaves⟩
  | false =>
    obtain ⟨rfl, -⟩ := accept_ok_false haccept
    obtain ⟨t, hcons, hnearest, hopen, hleaves⟩ := hstatement hscope hs hrest
    exact ⟨.single t, hcons, hnearest, hopen, hleaves⟩

end

/-- What is parsed on the level finds derivations for which the room is enough. -/
structure FindsLevel (room : Nat) (level : Level Stream ParseError) : Prop where
  expr : ∀ scope, FindsExpr scope room (level.expr scope)
  statement : FindsStatement room level.statement

section

variable {room : Nat} {level : Level Stream ParseError} {scope : Scope} {s s' : Stream}
  {left : Body}

/-- A branch behind its word; the statements inside have one less room. -/
theorem branch_ok (hlevel : FindsLevel room level) (hscope : scope.Indexed)
    (hs : s.Closed) {word : Span} (h : branch level scope word.start s = .ok left s') :
    ∃ t : Grammar.Statement, (∃ ts, t.tokens = wordAt .ifKw word :: ts ∧ s.Consumes ts s') ∧
      t.NearestElse ∧ (t.endsOpen = true → s'.current.kind ≠ .keyword .elseKw) ∧
      Leaves scope (room + 1) t.mentions t.depth (t.image ·) left := by
  obtain ⟨c, s₁, hcondition, hrest⟩ := bind_eq_ok.1 h
  obtain ⟨ct, hcons₁, hmeans⟩ := condition_finds (hlevel.expr scope) .ifKw hs hcondition
  obtain ⟨⟨scope₁, yes⟩, s₂, hyes, hrest⟩ := bind_eq_ok.1 hrest
  obtain ⟨yt, hcons₂, hnearest₂, hopen₂, hleaves₂⟩ :=
    body_ok hlevel.statement hscope hcons₁.closed hyes
  have hgrows := (hmeans.grows hscope).trans hleaves₂.grows
  obtain ⟨found, s₃, haccept, helse⟩ := bind_eq_ok.1 hrest
  cases found with
  | true =>
    obtain ⟨⟨scope₂, no⟩, s₄, hno, hpure⟩ := bind_eq_ok.1 helse
    obtain ⟨elseWord, hcons₃⟩ := accept_ok_true hcons₂.closed rfl haccept
    obtain ⟨nt, hcons₄, hnearest₄, hopen₄, hleaves₄⟩ :=
      body_ok hlevel.statement hleaves₂.grows.indexed hcons₃.closed hno
    obtain ⟨rfl, rfl⟩ := pure_eq_ok.1 hpure
    -- the body in front of the `else` does not end in an open `if`
    have hclosed : yt.endsOpen = false := by
      cases hends : yt.endsOpen with
      | false => rfl
      | true => exact absurd (by rw [hcons₃.current_eq]) (hopen₂ hends)
    have hall := hcons₁.trans (hcons₂.trans (hcons₃.trans hcons₄))
    refine ⟨.branchElse word ct yt elseWord nt, ⟨_, rfl, hall⟩, ⟨hclosed, hnearest₂, hnearest₄⟩,
      hopen₄, ?_, ?_, ?_⟩
    · simpa [Grammar.Statement.mentions] using hgrows.trans hleaves₄.grows
    · have hc := hmeans.depth_le
      have hy := hleaves₂.depth_le
      have hn := hleaves₄.depth_le
      simp only [Grammar.Statement.depth]
      omega
    · intro env henv
      have henv₁ := hleaves₄.grows.agrees hleaves₂.grows.indexed henv
      have hc := hmeans.image_eq (hleaves₂.grows.agrees hscope henv₁)
      have hy := hleaves₂.image_eq henv₁
      have hn := hleaves₄.image_eq henv
      simp only [Grammar.Statement.image, hc, hy, hn]
  | false =>
    obtain ⟨rfl, hnoElse⟩ := accept_ok_false haccept
    simp only [Bool.false_eq_true, if_false, pure_run, EStateM.Result.ok.injEq] at helse
    obtain ⟨rfl, rfl⟩ := helse
    refine ⟨.branch word ct yt, ⟨_, rfl, hcons₁.trans hcons₂⟩, hnearest₂, fun _ => hnoElse,
      hgrows, ?_, ?_⟩
    · have hc := hmeans.depth_le
      have hy := hleaves₂.depth_le
      simp only [Grammar.Statement.depth]
      omega
    · intro env henv
      have hc := hmeans.image_eq (hleaves₂.grows.agrees hscope henv)
      have hy := hleaves₂.image_eq henv
      simp only [Grammar.Statement.image, hc, hy]

theorem loop_ok (hlevel : FindsLevel room level) (hscope : scope.Indexed)
    (hs : s.Closed) {word : Span} (h : loop level scope word.start s = .ok left s') :
    ∃ t : Grammar.Statement, (∃ ts, t.tokens = wordAt .whileKw word :: ts ∧ s.Consumes ts s') ∧
      t.NearestElse ∧ (t.endsOpen = true → s'.current.kind ≠ .keyword .elseKw) ∧
      Leaves scope (room + 1) t.mentions t.depth (t.image ·) left := by
  obtain ⟨c, s₁, hcondition, hrest⟩ := bind_eq_ok.1 h
  obtain ⟨ct, hcons₁, hmeans⟩ := condition_finds (hlevel.expr scope) .whileKw hs hcondition
  obtain ⟨⟨scope₁, inner⟩, s₂, hinner, hpure⟩ := bind_eq_ok.1 hrest
  obtain ⟨bt, hcons₂, hnearest, hopen, hleaves⟩ :=
    body_ok hlevel.statement hscope hcons₁.closed hinner
  obtain ⟨rfl, rfl⟩ := pure_eq_ok.1 hpure
  refine ⟨.loop word ct bt, ⟨_, rfl, hcons₁.trans hcons₂⟩, hnearest, hopen,
    (hmeans.grows hscope).trans hleaves.grows, ?_, ?_⟩
  · have hc := hmeans.depth_le
    have hb := hleaves.depth_le
    simp only [Grammar.Statement.depth]
    omega
  · intro env henv
    have hc := hmeans.image_eq (hleaves.grows.agrees hscope henv)
    have hb := hleaves.image_eq henv
    simp only [Grammar.Statement.image, hc, hb]

end

theorem statementWith_finds {room : Nat} {flat : Scope → Parser Body}
    {inner : Opening Stream ParseError (Level Stream ParseError)}
    (hflat : ∀ {scope : Scope}, scope.Indexed → FindsFlat scope room (flat scope))
    (hinner : inner.Leads fun level => ∃ less, room = less + 1 ∧ FindsLevel less level) :
    FindsStatement room (statementWith flat inner) := by
  intro scope s s' left hscope hs h
  rw [statementWith, peek_bind] at h
  generalize hkind : s.current.kind = kind at h
  split at h
  · obtain ⟨level, ⟨less, rfl, hlevel⟩, h⟩ := enter_ok hinner h
    obtain ⟨t, s₁, hadvance, hrest⟩ := bind_eq_ok.1 h
    have hopening := advance_ok_of_kind hs hkind rfl hadvance
    obtain ⟨ts, closing, hcons, hnearest, hleaves⟩ :=
      block_ok hlevel.statement hscope hopening.closed hrest
    exact ⟨.block s.current.span ts closing, hopening.trans hcons, hnearest,
      fun hopen => by simp [Grammar.Statement.endsOpen] at hopen,
      hleaves.grows, Nat.succ_le_succ hleaves.depth_le, hleaves.image_eq⟩
  · obtain ⟨level, ⟨less, rfl, hlevel⟩, h⟩ := enter_ok hinner h
    obtain ⟨t, s₁, hadvance, hrest⟩ := bind_eq_ok.1 h
    have hword := advance_ok_of_kind hs hkind rfl hadvance
    obtain ⟨t, ⟨ts, htokens, hcons⟩, hfacts⟩ := branch_ok hlevel hscope hword.closed hrest
    exact ⟨t, htokens ▸ hword.trans hcons, hfacts⟩
  · obtain ⟨level, ⟨less, rfl, hlevel⟩, h⟩ := enter_ok hinner h
    obtain ⟨t, s₁, hadvance, hrest⟩ := bind_eq_ok.1 h
    have hword := advance_ok_of_kind hs hkind rfl hadvance
    obtain ⟨t, ⟨ts, htokens, hcons⟩, hfacts⟩ := loop_ok hlevel hscope hword.closed hrest
    exact ⟨t, htokens ▸ hword.trans hcons, hfacts⟩
  · obtain ⟨t, hcons, hnearest, hends, hleaves⟩ := hflat hscope hs h
    exact ⟨t, hcons, hnearest, fun hopen => by simp [hends] at hopen, hleaves⟩

theorem statement_finds (room : Nat) : FindsStatement room (statement room) := by
  induction room with
  | zero => exact statementWith_finds (fun hscope => flat_finds hscope 0) .shut
  | succ room ih =>
    exact statementWith_finds (fun hscope => flat_finds hscope (room + 1))
      (.into ⟨room, rfl, fun scope => exprOf_finds (unary_finds scope room), ih⟩)

end Parser
end Shc
