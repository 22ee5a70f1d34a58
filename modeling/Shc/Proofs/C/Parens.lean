import Shc.Proofs.C.OneLine

/-!
# Parentheses that belong together

Parentheses are counted through a text, those in strings left out.  A text is balanced if
it closes all that it opens and nothing else, and every text of an expression is.  So the
first and the last mark of a condition belong together, and what stands between them is an
expression by itself.
-/

namespace Shc

namespace C

/-! ### Counting -/

/-- Where in a text a character stands: in the open, in a string, or behind a backslash in
    a string. -/
inductive Place where
  | code
  | string
  | escape
deriving DecidableEq, Repr

/-- How many parentheses are open behind a text if `depth` are open in front of it.  There
    is no answer where one is closed that was not opened, or where a string stays open. -/
def openParens : Place → (depth : Nat) → List Char → Option Nat
  | .code, depth, [] => some depth
  | .string, _, [] => none
  | .escape, _, [] => none
  | .code, depth, c :: cs =>
    if c = '\x22' then openParens .string depth cs
    else if c = '(' then openParens .code (depth + 1) cs
    else if c = ')' then if depth = 0 then none else openParens .code (depth - 1) cs
    else openParens .code depth cs
  | .string, depth, c :: cs =>
    if c = '\\' then openParens .escape depth cs
    else if c = '\x22' then openParens .code depth cs
    else openParens .string depth cs
  | .escape, depth, _ :: cs => openParens .string depth cs

/-- The text leaves open what was open, and depends on nothing in front of it. -/
def Balanced (text : String) : Prop :=
  ∀ depth rest, openParens .code depth (text.toList ++ rest) = openParens .code depth rest

theorem Balanced.openParens {text : String} (h : Balanced text) (depth : Nat) :
    openParens .code depth text.toList = some depth := by
  have hnil := h depth []
  rwa [List.append_nil] at hnil

theorem openParens_inString {cs : List Char} (hcs : ∀ c ∈ cs, c ≠ '\\' ∧ c ≠ '\x22')
    (depth : Nat) (rest : List Char) :
    openParens .string depth (cs ++ rest) = openParens .string depth rest := by
  induction cs with
  | nil => rfl
  | cons c cs ih =>
    rcases List.forall_mem_cons.1 hcs with ⟨⟨hbackslash, hquote⟩, hcs⟩
    rw [List.cons_append, C.openParens, if_neg hbackslash, if_neg hquote, ih hcs]

/-- The body of a string is left behind as a whole. -/
theorem Denotes.openParens {body value : List Char} (h : Denotes body value) (depth : Nat)
    (rest : List Char) :
    openParens .string depth (body ++ rest) = openParens .string depth rest := by
  induction h with
  | nil => rfl
  | plain hquote hbackslash _ _ ih =>
    rw [List.cons_append, C.openParens, if_neg hbackslash, if_neg hquote, ih]
  | simple _ _ ih =>
    rw [List.cons_append, List.cons_append, C.openParens, if_pos rfl, C.openParens, ih]
  | @octal digits body _ hrun _ _ ih =>
    -- the backslash takes the first digit, and the others are passed like plain characters
    rcases List.exists_cons_of_ne_nil hrun.ne_nil with ⟨d, digits, rfl⟩
    have hdigits : ∀ c ∈ digits, c ≠ '\\' ∧ c ≠ '\x22' := by
      intro c hc
      have hoctal := hrun.isOctal c (List.mem_cons_of_mem d hc)
      constructor
      · rintro rfl
        exact absurd hoctal (by decide)
      · rintro rfl
        exact absurd hoctal (by decide)
    rw [List.cons_append, C.openParens, if_pos rfl, List.cons_append, List.cons_append,
      C.openParens, List.append_assoc, openParens_inString hdigits, ih]

theorem balanced_stringLiteral (value : String) : Balanced (stringLiteral value) := by
  intro depth rest
  have hchars : (stringLiteral value).toList ++ rest =
      '\x22' :: (escapedChars value.toList ++ '\x22' :: rest) := by
    simp [stringLiteral, escaped]
  rw [hchars, openParens, if_pos rfl, (denotes_escapedChars value.toList).openParens, openParens,
    if_neg (by decide), if_pos rfl]

theorem openParens_ordinary {c : Char} (h : isOrdinary c = true) (depth : Nat)
    (rest : List Char) : openParens .code depth (c :: rest) = openParens .code depth rest := by
  rw [isOrdinary, decide_eq_true_eq] at h
  simp only [List.mem_cons, List.not_mem_nil, or_false, not_or] at h
  rw [openParens, if_neg h.2.2.1, if_neg h.2.2.2.1, if_neg h.2.2.2.2]

theorem balanced_ordinary {text : String} (h : text.toList.all isOrdinary = true) :
    Balanced text := by
  intro depth rest
  generalize text.toList = cs at h
  induction cs with
  | nil => rfl
  | cons c cs ih =>
    rw [List.all_cons, Bool.and_eq_true] at h
    rw [List.cons_append, openParens_ordinary h.1, ih h.2]

theorem assembles_balanced : Assembles Balanced where
  ordinary := balanced_ordinary
  string := balanced_stringLiteral
  append := by
    intro a b ha hb depth rest
    rw [String.toList_append, List.append_assoc, ha, hb]
  inParens := by
    intro a ha depth rest
    have hchars : (inParens a).toList ++ rest = '(' :: (a.toList ++ ')' :: rest) := by
      simp [inParens]
    rw [hchars, openParens, if_neg (by decide), if_pos rfl, ha, openParens, if_neg (by decide),
      if_neg (by decide), if_pos rfl, if_neg (Nat.succ_ne_zero depth), Nat.add_sub_cancel]

/-! ### Conditions -/

/-- One expression within one pair of parentheses that belong together. -/
def Enclosed (text : String) : Prop :=
  ∃ inner tree, text = "(" ++ inner ++ ")" ∧ openParens .code 0 inner.toList = some 0 ∧
    read inner = some tree

theorem enclosed_inParens {inner : String} {tree : Tree} (hbalanced : Balanced inner)
    (hread : read inner = some tree) : Enclosed (inParens inner) :=
  ⟨inner, tree, rfl, hbalanced.openParens 0, hread⟩

end C

open C (assembles_balanced enclosed_inParens)

/-- A binary operation comes with its own parentheses. -/
theorem Value.enclosed_of_isCompound : (v : Value) → v.WellFormed → v.isCompound = true →
    {text : String} → v.cText = .ok text → C.Enclosed text
  | .leaf operand _, hwell, hcompound, _, h => operand.enclosed_of_isCompound hwell hcompound h
  | .binary op left right _, hwell, _, _, h => by
    rcases except_bind_eq_ok.1 h with ⟨rightText, hright, h⟩
    rcases except_bind_eq_ok.1 h with ⟨leftText, hleft, h⟩
    cases h
    rcases (left.written hwell.1 hleft).1 with ⟨tree, -, ts, hspells, hreads⟩
    rcases (right.written hwell.2 hright).1 with ⟨tree', -, us, hspells', hreads'⟩
    have hread := C.read_of_readsWhole (C.spells_binary op hspells hspells') headIn_nil
      (C.readsWhole_binary op hreads hreads')
    apply enclosed_inParens _ hread
    apply assembles_balanced.binary
    · exact left.assembled_cText assembles_balanced hwell.1 hleft
    · exact right.assembled_cText assembles_balanced hwell.2 hright

theorem Expr.enclosed_of_isWrapped {e : Expr} (hwell : e.WellFormed) (hwrapped : e.isWrapped = true)
    {text : String} (h : e.cText = .ok text) : C.Enclosed text := by
  rcases e with ⟨slots, loc⟩
  rcases slots with _ | ⟨⟨_ | target, value, loc'⟩, _ | ⟨slot, slots⟩⟩
  · cases hwrapped
  · rcases except_bind_eq_ok.1 h with ⟨texts, hslots, htext⟩
    rcases except_bind_eq_ok.1 hslots with ⟨text, hvalue, hslots⟩
    cases hslots
    cases htext
    exact value.enclosed_of_isCompound hwell hwrapped hvalue
  · cases hwrapped
  · cases hwrapped
  · cases hwrapped

/-- The text of a condition is an expression in parentheses, also where the parentheses are
    those of the expression itself. -/
theorem Factor.enclosed_cCondition {f : Factor} (hwell : f.WellFormed) {text : String}
    (h : f.cCondition = .ok text) : C.Enclosed text := by
  unfold cCondition at h
  split at h
  · rename_i inner loc
    rcases except_bind_eq_ok.1 h with ⟨innerText, hinner, htext⟩
    cases htext
    split
    · rename_i hwrapped
      exact inner.enclosed_of_isWrapped hwell hwrapped hinner
    · rcases (inner.written hwell hinner).1 with ⟨tree, -, hwritten⟩
      exact enclosed_inParens (inner.assembled_cText assembles_balanced hwell hinner) hwritten.read
  · rcases except_bind_eq_ok.1 h with ⟨inner, hinner, htext⟩
    cases htext
    rcases (f.written hwell hinner).1 with ⟨tree, -, hwritten⟩
    exact enclosed_inParens (f.assembled_cText assembles_balanced hwell hinner) hwritten.read

end Shc
