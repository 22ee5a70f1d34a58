import Shc.Proofs.Outline.Shape
import Shc.Proofs.Places.Shape
import Shc.Proofs.Relocate.Output
import Shc.Proofs.RoundTrip.Program

/-!
# Outlines tell programs apart

Two parsed programs have the same outline exactly if they differ in places only.  An
outline shows everything but places, with two exceptions.  A use of a variable shows the
name and the depth of its declaration, but not its base type.  This is known from the
parameters and locals of the function, which the outline shows with their types, as no
two of them have one name.  And nothing is shown of a leaf but what is in it, or of a callee
but its name.  That there is no more to know is said of the nodes of a parsed program.
-/

namespace Shc

open Nested

/-! ### Words tell apart what they are written for -/

theorem Base.text_inj {b b' : Base} (h : b.text = b'.text) : b = b' := by
  revert h
  cases b <;> cases b' <;> decide

/-- The markers in front of a type are as many as it is deep. -/
theorem Ty.takeWhile_text (t : Ty) :
    t.text.toList.takeWhile (· = '^') = List.replicate t.depth '^' := by
  rw [text, Text.row, String.toList_append, String.toList_ofList]
  apply takeWhile_append_headIn
  · intro c hc
    simp [List.eq_of_mem_replicate hc]
  · cases t.base <;> exact headIn_cons (by decide) _

theorem Ty.text_inj {t u : Ty} (h : t.text = u.text) : t = u := by
  have hmarkers : List.replicate t.depth '^' = List.replicate u.depth '^' := by
    rw [← t.takeWhile_text, h, u.takeWhile_text]
  have hdepth : t.depth = u.depth := by simpa using congrArg List.length hmarkers
  rw [text, text, hdepth] at h
  have hbase : t.base = u.base := Base.text_inj ((String.append_right_inj _).1 h)
  cases t
  cases u
  exact congrArg₂ Ty.mk hbase hdepth

theorem Operator.text_inj {op op' : Operator} (h : op.text = op'.text) : op = op' := by
  revert h
  cases op <;> cases op' <;> decide

theorem Sign.outline_inj {sign sign' : Sign} (h : sign.outline = sign'.outline) : sign = sign' := by
  revert h
  cases sign <;> cases sign' <;> decide

/-! ### Variables and uses of them -/

theorem Variable.erase_eq_of_words {v w : Variable} (h : v.words = w.words) :
    erase v = erase w := by
  simp only [words, List.cons.injEq, word.injEq, and_true] at h
  have htype : v.type = w.type := Ty.text_inj h.2
  show (⟨v.name, v.type, default⟩ : Variable) = ⟨w.name, w.type, default⟩
  rw [h.1, htype]

theorem erase_eq_of_map {α : Type} [Relocate α] {shape : α → Nested} {as bs : List α}
    (h : ∀ a ∈ as, ∀ b ∈ bs, shape a = shape b → erase a = erase b)
    (hmap : as.map shape = bs.map shape) : erase as = erase bs := by
  induction as generalizing bs with
  | nil =>
    cases bs with
    | nil => rfl
    | cons b bs => simp at hmap
  | cons a as ih =>
    cases bs with
    | nil => simp at hmap
    | cons b bs =>
      rw [List.map_cons, List.map_cons, List.cons.injEq] at hmap
      have hfirst := h a List.mem_cons_self b List.mem_cons_self hmap.1
      have hrest := ih (fun a' ha b' hb =>
        h a' (List.mem_cons_of_mem _ ha) b' (List.mem_cons_of_mem _ hb)) hmap.2
      exact congrArg₂ List.cons hfirst hrest

/-- Uses of one name are uses of one variable, up to places. -/
def Agree (rs rs' : List Reference) : Prop :=
  ∀ r ∈ rs, ∀ r' ∈ rs', r.name = r'.name → erase r.decl = erase r'.decl

theorem Agree.append {rs ss rs' ss' : List Reference} (h : Agree (rs ++ ss) (rs' ++ ss')) :
    Agree rs rs' ∧ Agree ss ss' := by
  constructor
  · intro r hr r' hr'
    exact h r (List.mem_append_left _ hr) r' (List.mem_append_left _ hr')
  · intro r hr r' hr'
    exact h r (List.mem_append_right _ hr) r' (List.mem_append_right _ hr')

theorem Reference.erase_eq_of_shape {r r' : Reference} (hagree : Agree [r] [r'])
    (h : r.shape = r'.shape) : erase r = erase r' := by
  simp only [shape, list.injEq, List.cons.injEq, word.injEq, true_and, and_true] at h
  have hdecl := hagree r List.mem_cons_self r' List.mem_cons_self h.1
  have husage : r.usage = r'.usage := Text.decimal_inj ((String.append_right_inj _).1 h.2.2)
  show (⟨erase r.decl, r.usage, default⟩ : Reference) = ⟨erase r'.decl, r'.usage, default⟩
  rw [hdecl, husage]

/-! ### Expressions -/

/-- The word at the head of a list. -/
def Nested.head? : Nested → Option String
  | .list (.word head :: _) => some head
  | _ => none

theorem Factor.head?_shape (f : Factor) :
    f.shape.head? ∈ [some "const", some "str", some "paren", some "var", some "call"] := by
  cases f <;> simp [shape, Reference.shape, head?]

theorem Unary.head?_shape (u : Unary) : u.shape.head? ∈
    [some "const", some "str", some "paren", some "var", some "call", some "pos", some "neg"] := by
  cases u with
  | factor f => exact List.mem_append_left [some "pos", some "neg"] f.head?_shape
  | signed sign operand loc => cases sign <;> simp [shape, Sign.outline, head?]

theorem Factor.shape_ne_signed (f : Factor) (sign : Sign) (items : List Nested) :
    f.shape ≠ .list (.word sign.outline :: items) := by
  intro h
  have hhead := f.head?_shape
  rw [h, head?] at hhead
  revert hhead
  cases sign <;> simp [Sign.outline]

theorem Unary.shape_ne_binary (u : Unary) (op : Operator) (items : List Nested) :
    u.shape ≠ .list (.word op.text :: items) := by
  intro h
  have hhead := u.head?_shape
  rw [h, head?] at hhead
  revert hhead
  cases op <;> simp [Operator.text]

/-- An operator that is of no layer of a value is not at the head of its shape. -/
theorem Value.Layered.shape_ne_binary {v : Value} {layers : List Layer} (h : v.Layered layers)
    {op : Operator} (hop : op.layer ∉ layers) (items : List Nested) :
    v.shape ≠ .list (.word op.text :: items) := by
  induction h with
  | unary operand => exact operand.shape_ne_binary op items
  | leaf _ ih => exact ih fun hmem => hop (List.mem_cons_of_mem _ hmem)
  | binary hlayer _ _ _ _ =>
    intro heq
    simp only [shape, list.injEq, List.cons.injEq, word.injEq] at heq
    rw [← Operator.text_inj heq.1, hlayer] at hop
    exact hop List.mem_cons_self

/-- The nodes have the shape that a parser gives them. -/
def Regular (nodes : List Node) : Prop :=
  ∀ node ∈ nodes, ∃ text, node.Fits text

namespace Regular

variable {node : Node} {nodes more : List Node}

theorem head (h : Regular (node :: nodes)) : ∃ text, node.Fits text :=
  h node List.mem_cons_self

theorem tail (h : Regular (node :: nodes)) : Regular nodes :=
  fun node hnode => h node (List.mem_cons_of_mem _ hnode)

theorem left (h : Regular (nodes ++ more)) : Regular nodes :=
  fun node hnode => h node (List.mem_append_left _ hnode)

theorem right (h : Regular (nodes ++ more)) : Regular more :=
  fun node hnode => h node (List.mem_append_right _ hnode)

end Regular

/-- Callees of one name are the same up to places. -/
theorem Function.erase_eq_of_callee {f g : Function} (hf : ∃ text, (Node.callee f).Fits text)
    (hg : ∃ text, (Node.callee g).Fits text) (h : f.name = g.name) : erase f = erase g := by
  obtain ⟨_, -, hreturns, hparams, hlocals, hbody⟩ := hf
  obtain ⟨_, -, hreturns', hparams', hlocals', hbody'⟩ := hg
  rw [erase, f.relocate_eq, erase, g.relocate_eq, h, hreturns, hparams, hlocals, hbody, hreturns',
    hparams', hlocals', hbody']

theorem Expr.exists_value {e : Expr} (h : Regular e.nodes) :
    ∃ value loc loc', e = .mk [.mk none value loc] loc' ∧ value.Layered Grammar.allLayers ∧
      Regular value.nodes := by
  obtain ⟨slots, loc'⟩ := e
  obtain ⟨_, value, loc, hslots⟩ := h.head
  obtain rfl : slots = [.mk none value loc] := hslots
  have hslot : Regular (Slot.mk none value loc).nodes := h.tail.left
  obtain ⟨_, hlayered⟩ := hslot.head
  exact ⟨value, loc, loc', rfl, hlayered, hslot.tail⟩

theorem Factor.erase_call (callee : Function) (args : List Expr) (loc : Location) :
    erase (Factor.call callee args loc) = .call (erase callee) (erase args) default :=
  congrArg (Factor.call (erase callee) · default) (Expr.moveAll_eq _ args)

-- The induction is on the first tree.  The word at the head of its shape leaves one
-- constructor for the second tree, or the layer does.
mutual

theorem Factor.erase_eq_of_shape : (f g : Factor) → Regular f.nodes → Regular g.nodes →
    Agree f.references g.references → f.shape = g.shape → erase f = erase g
  | .const value loc, g, _, _, _, h => by
    cases g with
    | const value' loc' =>
      simp only [Factor.shape, list.injEq, List.cons.injEq, word.injEq, true_and, and_true] at h
      rw [Text.decimalInt_inj h]
      rfl
    | _ => simp [Factor.shape, Reference.shape] at h
  | .string value loc, g, _, _, _, h => by
    cases g with
    | string value' loc' =>
      simp only [Factor.shape, list.injEq, List.cons.injEq, quoted.injEq, true_and, and_true] at h
      rw [h]
      rfl
    | _ => simp [Factor.shape, Reference.shape] at h
  | .paren inner loc, g, hf, hg, hagree, h => by
    cases g with
    | paren inner' loc' =>
      simp only [Factor.shape, list.injEq, List.cons.injEq, true_and, and_true] at h
      have hinner := inner.erase_eq_of_shape inner' hf.tail hg.tail hagree h
      exact congrArg (Factor.paren · default) hinner
    | _ => simp [Factor.shape, Reference.shape] at h
  | .var r, g, _, _, hagree, h => by
    cases g with
    | var r' => exact congrArg Factor.var (Reference.erase_eq_of_shape hagree h)
    | _ => simp [Factor.shape, Reference.shape] at h
  | .call callee args loc, g, hf, hg, hagree, h => by
    cases g with
    | call callee' args' loc' =>
      simp only [Factor.shape, list.injEq, List.cons.injEq, word.injEq, true_and] at h
      have hcallee := Function.erase_eq_of_callee hf.tail.head hg.tail.head h.1
      have hargs := Expr.erase_eq_of_shapes args args' hf.tail.tail hg.tail.tail hagree h.2
      rw [Factor.erase_call, Factor.erase_call, hcallee, hargs]
    | _ => simp [Factor.shape, Reference.shape] at h
termination_by structural tree => tree

theorem Unary.erase_eq_of_shape : (u w : Unary) → Regular u.nodes → Regular w.nodes →
    Agree u.references w.references → u.shape = w.shape → erase u = erase w
  | .factor f, .factor g, hu, hw, hagree, h =>
    congrArg Unary.factor (f.erase_eq_of_shape g hu.tail hw.tail hagree h)
  | .factor f, .signed sign _ _, _, _, _, h => absurd h (f.shape_ne_signed sign _)
  | .signed sign _ _, .factor g, _, _, _, h => absurd h.symm (g.shape_ne_signed sign _)
  | .signed sign operand _, .signed sign' operand' _, hu, hw, hagree, h => by
    simp only [Unary.shape, list.injEq, List.cons.injEq, word.injEq, and_true] at h
    have hoperand := operand.erase_eq_of_shape operand' hu.tail hw.tail hagree h.2
    exact congrArg₂ (fun s o => Unary.signed s o default) (Sign.outline_inj h.1) hoperand
termination_by structural tree => tree

theorem Value.erase_eq_of_shape : (v w : Value) → {layers : List Layer} → layers.Nodup →
    v.Layered layers → w.Layered layers → Regular v.nodes → Regular w.nodes →
    Agree v.references w.references → v.shape = w.shape → erase v = erase w
  | .unary u, w, _, _, hv, hw, hnodes, hnodes', hagree, h => by
    cases hv
    cases hw with
    | unary u' => exact congrArg Value.unary (u.erase_eq_of_shape u' hnodes hnodes' hagree h)
  | .leaf v _, w, _, hlayers, hv, hw, hnodes, hnodes', hagree, h => by
    cases hv with
    | leaf hv =>
      obtain ⟨hlayer, hbelow⟩ := List.nodup_cons.1 hlayers
      cases hw with
      | leaf hw =>
        have hoperand := v.erase_eq_of_shape _ hbelow hv hw hnodes.tail hnodes'.tail hagree h
        exact congrArg (Value.leaf · default) hoperand
      | binary hop _ _ => exact absurd h (hv.shape_ne_binary (hop ▸ hlayer) _)
  | .binary op left right _, w, _, hlayers, hv, hw, hnodes, hnodes', hagree, h => by
    cases hv with
    | binary hop hleft hright =>
      obtain ⟨hlayer, hbelow⟩ := List.nodup_cons.1 hlayers
      cases hw with
      | leaf hw => exact absurd h.symm (hw.shape_ne_binary (hop ▸ hlayer) _)
      | binary _ hleft' hright' =>
        simp only [Value.shape, list.injEq, List.cons.injEq, word.injEq, and_true] at h
        have hl := left.erase_eq_of_shape _ hlayers hleft hleft' hnodes.tail.left hnodes'.tail.left
          hagree.append.1 h.2.1
        have hr := right.erase_eq_of_shape _ hbelow hright hright' hnodes.tail.right
          hnodes'.tail.right hagree.append.2 h.2.2
        rw [Operator.text_inj h.1]
        exact congrArg₂ (Value.binary _ · · default) hl hr
termination_by structural tree => tree

theorem Expr.erase_eq_of_shape : (e e' : Expr) → Regular e.nodes → Regular e'.nodes →
    Agree e.references e'.references → e.shape = e'.shape → erase e = erase e'
  | .mk [.mk none value loc] _, e', he, he', hagree, h => by
    obtain ⟨value', _, _, rfl, hlayered', hnodes'⟩ := Expr.exists_value he'
    have hslot : Regular (Slot.mk none value loc).nodes := he.tail.left
    obtain ⟨_, hlayered⟩ := hslot.head
    have hvalue := value.erase_eq_of_shape value' (by decide) hlayered hlayered' hslot.tail hnodes'
      hagree.append.1.append.2 h
    exact congrArg (fun v => Expr.mk [.mk none v default] default) hvalue
  | .mk [] _, _, he, _, _, _ | .mk (.mk (some _) _ _ :: _) _, _, he, _, _, _
  | .mk (.mk none _ _ :: _ :: _) _, _, he, _, _, _ => by
    obtain ⟨_, _, _, hslots⟩ := he.head
    cases hslots
termination_by structural tree => tree

theorem Expr.erase_eq_of_shapes : (es es' : List Expr) → Regular (Expr.allNodes es) →
    Regular (Expr.allNodes es') → Agree (Expr.allReferences es) (Expr.allReferences es') →
    Expr.shapes es = Expr.shapes es' → erase es = erase es'
  | [], [], _, _, _, _ => rfl
  | [], _ :: _, _, _, _, h => by simp [Expr.shapes] at h
  | _ :: _, [], _, _, _, h => by simp [Expr.shapes] at h
  | e :: es, e' :: es', hes, hes', hagree, h => by
    simp only [Expr.shapes, List.cons.injEq] at h
    have hfirst := e.erase_eq_of_shape e' hes.left hes'.left hagree.append.1 h.1
    have hrest := Expr.erase_eq_of_shapes es es' hes.right hes'.right hagree.append.2 h.2
    exact congrArg₂ List.cons hfirst hrest
termination_by structural tree => tree

end

/-! ### Statements -/

theorem Statement.erase_branch (condition : Factor) (yes no : List Statement) (loc : Location) :
    erase (Statement.branch condition yes no loc) =
      .branch (erase condition) (erase yes) (erase no) default :=
  congrArg₂ (Statement.branch (erase condition) · · default) (Statement.moveAll_eq _ yes)
    (Statement.moveAll_eq _ no)

theorem Statement.erase_loop (condition : Factor) (body : List Statement) (loc : Location) :
    erase (Statement.loop condition body loc) = .loop (erase condition) (erase body) default :=
  congrArg (Statement.loop (erase condition) · default) (Statement.moveAll_eq _ body)

theorem Statement.erase_call (callee : Function) (args : List Expr) (loc : Location) :
    erase (Statement.call callee args loc) = .call (erase callee) (erase args) default :=
  congrArg (Statement.call (erase callee) · default) (Expr.moveAll_eq _ args)

theorem Statement.erase_ret (value : Option Expr) (loc : Location) :
    erase (Statement.ret value loc) = .ret (erase value) default :=
  congrArg (Statement.ret · default) (Expr.moveOption_eq _ value)

/-- The slots of two assignments. -/
theorem Slot.erase_eq_of_shapes {slot slot' : Slot} {loc loc' : Location}
    (h : Regular (Statement.assign slot loc).nodes)
    (h' : Regular (Statement.assign slot' loc').nodes)
    (hagree : Agree slot.references slot'.references) (hshapes : slot.shapes = slot'.shapes) :
    erase slot = erase slot' := by
  obtain ⟨_, target, htarget⟩ := h.head
  obtain ⟨_, target', htarget'⟩ := h'.head
  obtain ⟨_, value, place⟩ := slot
  obtain ⟨_, value', place'⟩ := slot'
  obtain rfl : _ = some target := htarget
  obtain rfl : _ = some target' := htarget'
  obtain ⟨_, hlayered⟩ := h.tail.head
  obtain ⟨_, hlayered'⟩ := h'.tail.head
  simp only [Slot.shapes, Option.map_some, Option.toList_some, List.singleton_append,
    List.cons.injEq, and_true] at hshapes
  have hreference := Reference.erase_eq_of_shape hagree.append.1 hshapes.1
  have hvalue := value.erase_eq_of_shape value' (by decide) hlayered hlayered' h.tail.tail.right
    h'.tail.tail.right hagree.append.2 hshapes.2
  exact congrArg₂ (fun t v => Slot.mk (some t) v default) hreference hvalue

mutual

theorem Statement.erase_eq_of_shape : (s t : Statement) → Regular s.nodes → Regular t.nodes →
    Agree (Mention.used s.walk) (Mention.used t.walk) → s.shape = t.shape → erase s = erase t
  | .branch condition yes no loc, t, hs, ht, hagree, h => by
    cases t with
    | branch condition' yes' no' loc' =>
      simp only [Statement.shape, list.injEq, List.cons.injEq, true_and, and_true] at h
      simp only [Statement.walk, Mention.used_append, Mention.used_map_use] at hagree
      have hcondition := condition.erase_eq_of_shape condition' hs.tail.left ht.tail.left
        hagree.append.1 h.1
      have hyes := Statement.erase_eq_of_shapes yes yes' hs.tail.right.left ht.tail.right.left
        hagree.append.2.append.1 h.2.1
      have hno := Statement.erase_eq_of_shapes no no' hs.tail.right.right ht.tail.right.right
        hagree.append.2.append.2 h.2.2
      rw [Statement.erase_branch, Statement.erase_branch, hcondition, hyes, hno]
    | _ => simp [Statement.shape] at h
  | .loop condition body loc, t, hs, ht, hagree, h => by
    cases t with
    | loop condition' body' loc' =>
      simp only [Statement.shape, list.injEq, List.cons.injEq, true_and] at h
      simp only [Statement.walk, Mention.used_append, Mention.used_map_use] at hagree
      have hcondition := condition.erase_eq_of_shape condition' hs.tail.left ht.tail.left
        hagree.append.1 h.1
      have hbody := Statement.erase_eq_of_shapes body body' hs.tail.right ht.tail.right
        hagree.append.2 h.2
      rw [Statement.erase_loop, Statement.erase_loop, hcondition, hbody]
    | _ => simp [Statement.shape] at h
  | .declare v loc, t, _, _, _, h => by
    cases t with
    | declare v' loc' =>
      simp only [Statement.shape, list.injEq, List.cons.injEq, true_and] at h
      exact congrArg (Statement.declare · default) (Variable.erase_eq_of_words h)
    | _ => simp [Statement.shape] at h
  | .call callee args loc, t, hs, ht, hagree, h => by
    cases t with
    | call callee' args' loc' =>
      simp only [Statement.shape, list.injEq, List.cons.injEq, word.injEq, true_and] at h
      simp only [Statement.walk, Mention.used_map_use] at hagree
      have hcallee := Function.erase_eq_of_callee hs.tail.head ht.tail.head h.1
      have hargs := Expr.erase_eq_of_shapes args args' hs.tail.tail ht.tail.tail hagree h.2
      rw [Statement.erase_call, Statement.erase_call, hcallee, hargs]
    | _ => simp [Statement.shape] at h
  | .ret value loc, t, hs, ht, hagree, h => by
    cases t with
    | ret value' loc' =>
      simp only [Statement.shape, list.injEq, List.cons.injEq, true_and] at h
      simp only [Statement.walk, Mention.used_map_use] at hagree
      cases value with
      | none =>
        cases value' with
        | none => rfl
        | some e' => simp at h
      | some e =>
        cases value' with
        | none => simp at h
        | some e' =>
          have he := e.erase_eq_of_shape e' hs.tail ht.tail hagree (by simpa using h)
          rw [Statement.erase_ret, Statement.erase_ret]
          exact congrArg (fun e => Statement.ret (some e) default) he
    | _ => simp [Statement.shape] at h
  | .brk loc, t, _, _, _, h => by
    cases t with
    | brk loc' => rfl
    | _ => simp [Statement.shape] at h
  | .cont loc, t, _, _, _, h => by
    cases t with
    | cont loc' => rfl
    | _ => simp [Statement.shape] at h
  | .assign slot loc, t, hs, ht, hagree, h => by
    cases t with
    | assign slot' loc' =>
      simp only [Statement.shape, list.injEq, List.cons.injEq, true_and] at h
      simp only [Statement.walk, Mention.used_map_use] at hagree
      exact congrArg (Statement.assign · default) (Slot.erase_eq_of_shapes hs ht hagree h)
    | _ => simp [Statement.shape] at h

theorem Statement.erase_eq_of_shapes : (ss ts : List Statement) →
    Regular (Statement.allNodes ss) → Regular (Statement.allNodes ts) →
    Agree (Mention.used (Statement.walkAll ss)) (Mention.used (Statement.walkAll ts)) →
    Statement.shapes ss = Statement.shapes ts → erase ss = erase ts
  | [], [], _, _, _, _ => rfl
  | [], _ :: _, _, _, _, h => by simp [Statement.shapes] at h
  | _ :: _, [], _, _, _, h => by simp [Statement.shapes] at h
  | s :: ss, t :: ts, hss, hts, hagree, h => by
    simp only [Statement.shapes, List.cons.injEq] at h
    simp only [Statement.walkAll, Mention.used_append] at hagree
    have hfirst := s.erase_eq_of_shape t hss.left hts.left hagree.append.1 h.1
    have hrest := Statement.erase_eq_of_shapes ss ts hss.right hts.right hagree.append.2 h.2
    exact congrArg₂ List.cons hfirst hrest

end

/-! ### Functions -/

mutual

theorem Statement.isName_declared : (s : Statement) → s.WellFormed →
    ∀ v ∈ Mention.declared s.walk, Lexeme.IsName v.name
  | .branch condition yes no loc, h => by
    simp only [Statement.walk, Mention.declared_append, Mention.declared_map_use, List.nil_append]
    exact List.forall_mem_append.2
      ⟨Statement.isName_declaredAll yes h.2.1, Statement.isName_declaredAll no h.2.2⟩
  | .loop condition body loc, h => by
    simp only [Statement.walk, Mention.declared_append, Mention.declared_map_use, List.nil_append]
    exact Statement.isName_declaredAll body h.2
  | .declare v _, h => List.forall_mem_singleton.2 h
  | .call .., _ | .ret .., _ | .assign .., _ => by simp [Statement.walk]
  | .brk _, _ | .cont _, _ => by simp [Statement.walk, Mention.declared]

theorem Statement.isName_declaredAll : (ss : List Statement) → Statement.AllWellFormed ss →
    ∀ v ∈ Mention.declared (Statement.walkAll ss), Lexeme.IsName v.name
  | [], _ => by simp [Statement.walkAll, Mention.declared]
  | s :: ss, h => by
    rw [Statement.walkAll, Mention.declared_append]
    exact List.forall_mem_append.2 ⟨s.isName_declared h.1, Statement.isName_declaredAll ss h.2⟩

end

namespace Function.Scoped

variable {f g : Function}

theorem lists_outline (h : f.Scoped) : Lists f.outline [f.shape] := by
  apply Function.lists_outline h.checked.isName h.checked.params_isName ?_ h.checked.wellFormed
  rw [h.locals_eq]
  exact Statement.isName_declaredAll f.body h.checked.wellFormed

/-- Where the variables are the same up to places, so are the variables of one name. -/
theorem agree (hf : f.Scoped) (hg : g.Scoped)
    (hvars : erase (f.params ++ f.locals) = erase (g.params ++ g.locals)) :
    Agree (Mention.used (Statement.walkAll f.body)) (Mention.used (Statement.walkAll g.body)) := by
  intro r hr r' hr' hname
  -- Without places both declarations are among the variables of `g`, under one name.
  have hdistinct : ((erase (g.params ++ g.locals)).map Variable.name).Nodup := by
    rw [erase, map_relocate _ fun _ => rfl]
    exact hg.distinct
  have hdecl : erase r.decl ∈ erase (g.params ++ g.locals) :=
    hvars ▸ List.mem_map_of_mem (hf.decl_mem hr)
  have hdecl' : erase r'.decl ∈ erase (g.params ++ g.locals) :=
    List.mem_map_of_mem (hg.decl_mem hr')
  exact List.inj_on_of_nodup_map hdistinct hdecl hdecl' hname

theorem erase_eq_of_shape (hf : f.Scoped) (hg : g.Scoped) (hnodes : Regular f.nodes)
    (hnodes' : Regular g.nodes) (h : f.shape = g.shape) : erase f = erase g := by
  simp only [shape, list.injEq, List.cons.injEq, word.injEq, true_and, and_true] at h
  obtain ⟨hname, hreturns, hparams, hlocals, hbody⟩ := h
  have hwords : ∀ v w : Variable, Nested.list v.words = .list w.words → erase v = erase w :=
    fun v w hvw => Variable.erase_eq_of_words (list.inj hvw)
  replace hparams := erase_eq_of_map (fun v _ w _ => hwords v w) hparams
  replace hlocals := erase_eq_of_map (fun v _ w _ => hwords v w) hlocals
  have hvars : erase (f.params ++ f.locals) = erase (g.params ++ g.locals) := by
    rw [erase, Relocate.relocate_append, erase, Relocate.relocate_append]
    exact congrArg₂ (· ++ ·) hparams hlocals
  have hstatements := Statement.erase_eq_of_shapes f.body g.body hnodes.tail.right.right
    hnodes'.tail.right.right (hf.agree hg hvars) hbody
  rw [erase, f.relocate_eq, erase, g.relocate_eq]
  change Function.mk f.name f.returns (erase f.params) (erase f.locals) (erase f.body) default =
    ⟨g.name, g.returns, erase g.params, erase g.locals, erase g.body, default⟩
  rw [hname, Ty.text_inj hreturns, hparams, hlocals, hstatements]

end Function.Scoped

/-! ### Programs -/

namespace Program

theorem isName_global_of_parse {source : Source} {p : Program} (h : parse source = .ok p) :
    ∀ v ∈ p.globals, Lexeme.IsName v.name := by
  obtain ⟨tree, span, htokens, -, rfl⟩ := exists_derivation h
  have hlexical := Token.allLexical_of_source htokens
  rw [Grammar.Program.image_eq]
  refine List.forall_mem_map.2 fun d hd => ?_
  exact (Token.allLexical_cons.1 (Grammar.Program.allLexical_declaration hlexical hd)).1

theorem regular_of_parse {source : Source} {p : Program} (h : parse source = .ok p) {f : Function}
    (hf : f ∈ p.functions) : Regular f.nodes := by
  obtain ⟨tree, span, -, -, rfl⟩ := exists_derivation h
  intro node hnode
  have hmem : node ∈ tree.image.nodes :=
    List.mem_append_right _ (List.mem_flatMap.2 ⟨f, hf, hnode⟩)
  obtain ⟨text, -, hfits⟩ := Grammar.Program.exists_fits hmem
  exact ⟨text, hfits⟩

/-- The shapes of globals and functions have different heads. -/
theorem shapes_inj {p q : Program} (h : p.shapes = q.shapes) :
    p.globals.map (fun v => Nested.list (.word "global" :: v.words)) =
        q.globals.map (fun v => Nested.list (.word "global" :: v.words)) ∧
      p.functions.map Function.shape = q.functions.map Function.shape := by
  have hglobals : ∀ p : Program, p.shapes.filter (·.head? = some "global") =
      p.globals.map fun v => Nested.list (.word "global" :: v.words) := by
    intro p
    rw [shapes, List.filter_append, List.filter_eq_self.2, List.filter_eq_nil_iff.2,
      List.append_nil]
    · exact List.forall_mem_map.2 fun f _ => by simp [Function.shape, head?]
    · exact List.forall_mem_map.2 fun v _ => by simp [head?]
  have hfirst := hglobals p
  rw [h, hglobals q] at hfirst
  rw [shapes, shapes, hfirst] at h
  exact ⟨hfirst.symm, List.append_cancel_left h⟩

theorem lists_outline_of_parse {source : Source} {p : Program} (h : parse source = .ok p) :
    Lists p.outline p.shapes :=
  lists_outline (isName_global_of_parse h) fun _ hf => (scoped_of_parse h hf).lists_outline

/-- Two parsed programs have the same outline exactly if they differ in places only. -/
theorem outline_eq_iff {source source' : Source} {p q : Program} (hp : parse source = .ok p)
    (hq : parse source' = .ok q) : p.outline = q.outline ↔ erase p = erase q := by
  constructor
  · intro h
    have hshapes := (lists_outline_of_parse hp).unique (h ▸ lists_outline_of_parse hq)
    rcases shapes_inj hshapes with ⟨hglobals, hfunctions⟩
    have hvariables : erase p.globals = erase q.globals := by
      refine erase_eq_of_map (fun v _ w _ hvw => ?_) hglobals
      exact Variable.erase_eq_of_words (List.cons.inj (list.inj hvw)).2
    have hbodies : erase p.functions = erase q.functions := by
      refine erase_eq_of_map (fun f hf g hg hfg => ?_) hfunctions
      exact (scoped_of_parse hp hf).erase_eq_of_shape (scoped_of_parse hq hg)
        (regular_of_parse hp hf) (regular_of_parse hq hg) hfg
    exact congrArg₂ Program.mk hvariables hbodies
  · intro h
    rw [← p.outline_relocate (fun _ => default), ← q.outline_relocate (fun _ => default)]
    exact congrArg outline h

theorem outline_eq_iff_sample :
    parse Sample.source = .ok ⟨[], [Sample.f]⟩ ∧
      parse (Source.ofString
        "\nfun f(p : ^int) : int \x7b n : int; \x7b n = - -p + f(^^p); \x7d \x7d") =
        .ok (relocate (fun l => ⟨l.line + 1, l.column⟩) ⟨[], [Sample.f]⟩) ∧
      erase (Program.mk [] [Sample.f]) =
        erase (relocate (fun l => ⟨l.line + 1, l.column⟩) (Program.mk [] [Sample.f])) := by
  have hbelow : parse (Source.ofString
      "\nfun f(p : ^int) : int \x7b n : int; \x7b n = - -p + f(^^p); \x7d \x7d") =
      .ok (relocate (fun l => ⟨l.line + 1, l.column⟩) ⟨[], [Sample.f]⟩) := by
    decide +kernel
  refine ⟨Sample.parse_source, hbelow, (outline_eq_iff Sample.parse_source hbelow).1 ?_⟩
  exact (outline_relocate _ _).symm

end Program

end Shc
