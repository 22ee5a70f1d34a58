import Shc.Proofs.Lexing.Scan
import Shc.Token.Buffer

/-!
# Places as numbers

A buffer knows its place on a line as a number, and a scan that gets such a number wrong ends
in a fault.  No scan does.  On a line that is split into what is behind the cursor and what is
in front of it, every scan is followed step by step: it moves over a piece of the line, which is
the piece that the lexeme or the gap takes from the list of characters, and a loop moves in
every round behind which it goes on.

So a lexer on a buffer answers every call as the lexer on a cursor does.  What is unread is the
same for both, and a token that is not terminal takes something away from it.
-/

namespace Shc

open Token (Kind)
open Cursor (nextIn)

/-! ### Buffers and their places -/

namespace Buffer

section

variable (failure : Option ReadError) (later : List (List Char)) (line : Nat)

/-- The buffer on a line with `done` behind the cursor and `rest` in front of it. -/
def on (done rest : List Char) : Buffer :=
  ⟨later, failure, (done ++ rest).toArray, line, done.length, false⟩

/-- The buffer on the last line, which is `done`, when it has been noticed that no more is to
    come. -/
def atEnd (done : List Char) : Buffer :=
  { on failure [] line done [] with ended := true }

end

/-- The place of a buffer. -/
def cursor (b : Buffer) : Cursor :=
  ⟨b.line, b.column, b.chars.toList.drop b.column, b.later, b.failure⟩

/-- A buffer from which a token can be read.  There is a character in front of the cursor only
    if a line has been begun. -/
structure Ready (b : Buffer) : Prop where
  column_le : b.column ≤ b.chars.size
  ended_eq : b.ended = false
  line_pos : b.column < b.chars.size → 1 ≤ b.line

variable {failure : Option ReadError} {later : List (List Char)} {line : Nat}
  {done rest : List Char}

@[simp] theorem on_ended : (on failure later line done rest).ended = false := rfl

@[simp] theorem on_column : (on failure later line done rest).column = done.length := rfl

@[simp] theorem on_size :
    (on failure later line done rest).chars.size = done.length + rest.length := by
  simp [on]

theorem on_getElem? (ahead : Nat) :
    (on failure later line done rest).chars[done.length + ahead]? = rest[ahead]? := by
  simp only [on, List.getElem?_toArray]
  rw [List.getElem?_append_right (Nat.le_add_right ..), Nat.add_sub_cancel_left]

theorem on_extract {taken : List Char} :
    ((on failure later line (done ++ taken) rest).chars.extract done.length
      (done ++ taken).length).toList = taken := by
  simp [on]

theorem on_work : (on failure later line done rest).work =
    rest.length + (later.map (·.length + 1)).foldr (· + ·) 0 + 1 := by
  simp [work, unread, on]

theorem on_cursor :
    (on failure later line done rest).cursor = ⟨line, done.length, rest, later, failure⟩ := by
  simp [cursor, on]

theorem on_ready (hline : 1 ≤ line) : (on failure later line done rest).Ready :=
  ⟨by simp, rfl, fun _ => hline⟩

theorem atEnd_cursor : (atEnd failure line done).cursor = ⟨line, done.length, [], [], failure⟩ :=
  on_cursor

theorem atEnd_endLoc : (atEnd failure line done).endLoc = ⟨max line 1, done.length + 1⟩ := by
  simp [endLoc, atEnd, on]

theorem atEnd_column_le :
    (atEnd failure line done).column ≤ (atEnd failure line done).chars.size := by
  simp [atEnd, on]

theorem atEnd_work_lt : (atEnd failure line done).work < (on failure [] line done []).work := by
  simp [work, unread, atEnd, on]

/-- Moving over something on the line leaves less to do. -/
theorem work_moved_lt (taken : List Char) (h : 0 < taken.length) :
    (on failure later line (done ++ taken) rest).work <
      (on failure later line done (taken ++ rest)).work := by
  rw [on_work, on_work, List.length_append]
  omega

/-- Taking up a line leaves less to do. -/
theorem work_nextLine_lt {next : List Char} : (on failure later (line + 1) [] next).work <
    (on failure (next :: later) line done []).work := by
  simp only [on_work, List.map_cons, List.foldr_cons, List.length_nil]
  omega

theorem Ready.length_take {b : Buffer} (h : b.Ready) :
    (b.chars.toList.take b.column).length = b.column := by
  rw [List.length_take, Array.length_toList, Nat.min_eq_left h.column_le]

theorem Ready.eq_on {b : Buffer} (h : b.Ready) :
    b = on b.failure b.later b.line (b.chars.toList.take b.column)
      (b.chars.toList.drop b.column) := by
  rw [on, h.length_take, List.take_append_drop, ← h.ended_eq]

theorem unread_eq_size (b : Buffer) : b.unread = b.cursor.size := by
  simp [unread, cursor, Cursor.size]

end Buffer

namespace Scan

open Buffer (on atEnd work_moved_lt work_nextLine_lt)

variable {α β : Type}

/-! ### Single steps -/

theorem bind_ok {m : Scan α} {k : α → Scan β} {s s' : Buffer} {a : α} (h : m s = .ok a s') :
    (m >>= k) s = k a s' := by
  change EStateM.bind m k s = k a s'
  rw [EStateM.bind, h]

theorem bind_error {m : Scan α} {k : α → Scan β} {s s' : Buffer} {e : Exit}
    (h : m s = .error e s') : (m >>= k) s = .error e s' := by
  change EStateM.bind m k s = .error e s'
  rw [EStateM.bind, h]

theorem loop_done {step : β → Scan (β ⊕ α)} {b : β} {s s' : Buffer} {a : α}
    (h : step b s = .ok (.inr a) s') : loop step b s = .ok a s' := by
  rw [loop, h]

theorem loop_error {step : β → Scan (β ⊕ α)} {b : β} {s s' : Buffer} {e : Exit}
    (h : step b s = .error e s') : loop step b s = .error e s' := by
  rw [loop, h]

theorem loop_more {step : β → Scan (β ⊕ α)} {b b' : β} {s s' : Buffer}
    (h : step b s = .ok (.inl b') s') (hwork : s'.work < s.work) :
    loop step b s = loop step b' s' := by
  rw [loop, h]
  exact if_pos hwork

/-- Wherever the cursor is put without a fault, it is on its line. -/
theorem column_le_of_moveTo {column : Nat} {s s' : Buffer} (h : moveTo column s = .ok () s') :
    s'.column ≤ s'.chars.size := by
  by_cases hcolumn : column ≤ s.chars.size
  · have hmove : moveTo column s = .ok () { s with column } := by
      refine (bind_ok rfl).trans ?_
      rw [if_pos hcolumn]
      rfl
    obtain ⟨-, rfl⟩ := EStateM.Result.ok.inj (hmove.symm.trans h)
    exact hcolumn
  · have hfault : moveTo column s = .error (.fault .outside) s := by
      refine (bind_ok rfl).trans ?_
      rw [if_neg hcolumn]
      rfl
    cases hfault.symm.trans h

/-- Where a character is given without a fault, there is one. -/
theorem column_lt_of_cur {s s' : Buffer} {c : Char} (h : cur s = .ok c s') :
    s.column < s.chars.size := by
  by_contra hcolumn
  have hpeek : peek 0 s = .ok none s := by
    refine (bind_ok rfl).trans ?_
    rw [Nat.add_zero, Array.getElem?_eq_none (Nat.le_of_not_lt hcolumn)]
    rfl
  have hfault : cur s = .error (.fault .noChar) s := bind_ok hpeek
  cases hfault.symm.trans h

/-- What is cut out without a fault is a piece of the line. -/
theorem le_of_slice {start : Nat} {s s' : Buffer} {cs : List Char}
    (h : slice start s = .ok cs s') : start ≤ s.column ∧ s.column ≤ s.chars.size := by
  by_contra hbounds
  have hfault : slice start s = .error (.fault .badSlice) s := by
    refine (bind_ok rfl).trans ?_
    rw [if_neg hbounds]
    rfl
  cases hfault.symm.trans h

variable {failure : Option ReadError} {later : List (List Char)} {line : Nat}
  {done rest : List Char}

theorem peek_on (ahead : Nat) :
    peek ahead (on failure later line done rest) =
      .ok rest[ahead]? (on failure later line done rest) := by
  refine (bind_ok rfl).trans ?_
  rw [Buffer.on_column, Buffer.on_getElem?]
  rfl

theorem cur_on {c : Char} :
    cur (on failure later line done (c :: rest)) = .ok c (on failure later line done (c :: rest)) :=
  bind_ok (peek_on 0)

theorem moveTo_on (taken : List Char) :
    moveTo (done.length + taken.length) (on failure later line done (taken ++ rest)) =
      .ok () (on failure later line (done ++ taken) rest) := by
  refine (bind_ok rfl).trans ?_
  rw [if_pos (by simp)]
  simp only [on, List.append_assoc, List.length_append]
  rfl

theorem forward_on (taken : List Char) :
    forward taken.length (on failure later line done (taken ++ rest)) =
      .ok () (on failure later line (done ++ taken) rest) :=
  (bind_ok rfl).trans (moveTo_on taken)

theorem slice_on {taken : List Char} :
    slice done.length (on failure later line (done ++ taken) rest) =
      .ok taken (on failure later line (done ++ taken) rest) := by
  refine (bind_ok rfl).trans ?_
  rw [if_pos (by simp), Buffer.on_column, Buffer.on_extract]
  rfl

theorem nextLine_on {next : List Char} :
    nextLine (on failure (next :: later) line done rest) =
      .ok true (on failure later (line + 1) [] next) := rfl

theorem nextLine_end :
    nextLine (on none [] line done []) = .ok false (atEnd none line done) := rfl

theorem nextLine_failure {error : ReadError} :
    nextLine (on (some error) [] line done []) =
      .error (.token ⟨.error (.unreadable error), .point ⟨line + 1, 1⟩⟩)
        (atEnd (some error) line done) := rfl

/-! ### Moving over a piece of the line -/

/-- In front of `taken` and `rest`, wherever that is, the scan gives `a` and has moved over
    `taken`. -/
def Moves (m : Scan α) (taken rest : List Char) (a : α) : Prop :=
  ∀ failure later line done, m (on failure later line done (taken ++ rest)) =
    .ok a (on failure later line (done ++ taken) rest)

theorem moves_pure (a : α) : Moves (pure a) [] rest a := by
  intro failure later line done
  rw [List.append_nil]
  rfl

theorem moves_toLineEnd (taken : List Char) : Moves toLineEnd taken [] () := by
  intro failure later line done
  refine (bind_ok rfl).trans ?_
  rw [Buffer.on_size, List.length_append, List.length_nil, Nat.add_zero]
  exact moveTo_on taken

namespace Moves

variable {taken more : List Char} {a : α} {b : β}

protected theorem bind {m : Scan α} {k : α → Scan β} (h : Moves m taken (more ++ rest) a)
    (hk : Moves (k a) more rest b) : Moves (m >>= k) (taken ++ more) rest b := by
  intro failure later line done
  rw [List.append_assoc, bind_ok (h failure later line done), hk, List.append_assoc]

protected theorem map {m : Scan α} (h : Moves m taken rest a) (f : α → β) :
    Moves (do return f (← m)) taken rest (f a) :=
  fun failure later line done => bind_ok (h failure later line done)

protected theorem peek {ahead : Nat} {k : Option Char → Scan α}
    (h : Moves (k (taken ++ rest)[ahead]?) taken rest a) :
    Moves (Scan.peek ahead >>= k) taken rest a := by
  intro failure later line done
  rw [bind_ok (peek_on ahead)]
  exact h failure later line done

protected theorem forward {m : Scan α} (taken : List Char) (h : Moves m more rest a) :
    Moves (do Scan.forward taken.length; m) (taken ++ more) rest a :=
  Moves.bind (fun _ _ _ _ => forward_on taken) h

protected theorem cut {m : Scan Unit} (h : Moves m taken rest ()) :
    Moves (Scan.cut m) taken rest taken :=
  fun failure later line done =>
    (bind_ok rfl).trans ((bind_ok (h failure later line done)).trans slice_on)

protected theorem loop_done {step : β → Scan (β ⊕ α)} (h : Moves (step b) taken rest (.inr a)) :
    Moves (loop step b) taken rest a :=
  fun failure later line done => Scan.loop_done (h failure later line done)

protected theorem loop_more {step : β → Scan (β ⊕ α)} {b' : β} (taken : List Char)
    (h : Moves (step b) taken (more ++ rest) (.inl b')) (htaken : 0 < taken.length)
    (hmore : Moves (loop step b') more rest a) : Moves (loop step b) (taken ++ more) rest a := by
  intro failure later line done
  rw [List.append_assoc, Scan.loop_more (h failure later line done) (work_moved_lt taken htaken),
    hmore, List.append_assoc]

end Moves

theorem moves_skipWhile (p : Char → Bool) (cs : List Char) :
    Moves (skipWhile p) (cs.takeWhile p) (cs.dropWhile p) () := by
  induction cs with
  | nil => exact .loop_done (.peek (moves_pure _))
  | cons c cs ih =>
    cases hp : p c with
    | true =>
      rw [List.takeWhile_cons_of_pos hp, List.dropWhile_cons_of_pos hp]
      refine .loop_more [c] (.peek ?_) Nat.zero_lt_one ih
      change Moves (if p c then _ else _) _ _ _
      rw [if_pos hp]
      exact .forward [c] (moves_pure _)
    | false =>
      have hneg : ¬ p c = true := by rw [hp]; decide
      rw [List.takeWhile_cons_of_neg hneg, List.dropWhile_cons_of_neg hneg]
      refine .loop_done (.peek ?_)
      change Moves (if p c then _ else _) _ _ _
      rw [if_neg hneg]
      exact moves_pure _

/-! ### Lexemes -/

/-- The scan reads what `read` says there is at the front of `cs`: something, and how far it
    reaches, counted from `width` characters before. -/
def Lexes (m : Scan α) (width : Nat) (cs : List Char) (read : α × Nat) : Prop :=
  ∃ taken rest, cs = taken ++ rest ∧ read.2 = width + taken.length ∧ Moves m taken rest read.1

namespace Lexes

variable {width : Nat} {cs : List Char} {read read' : α × Nat}

protected theorem pure (a : α) : Lexes (Pure.pure a) width cs (a, width) :=
  ⟨[], cs, rfl, rfl, moves_pure a⟩

protected theorem peek {ahead : Nat} {k : Option Char → Scan α}
    (h : Lexes (k cs[ahead]?) width cs read) : Lexes (Scan.peek ahead >>= k) width cs read := by
  obtain ⟨taken, rest, rfl, hwidth, hmoves⟩ := h
  exact ⟨taken, rest, rfl, hwidth, hmoves.peek⟩

protected theorem forward {m : Scan α} (taken : List Char)
    (h : Lexes m (width + taken.length) rest read) :
    Lexes (do Scan.forward taken.length; m) width (taken ++ rest) read := by
  obtain ⟨more, rest, rfl, hwidth, hmoves⟩ := h
  refine ⟨taken ++ more, rest, (List.append_assoc ..).symm, ?_, .forward taken hmoves⟩
  rw [hwidth, List.length_append, Nat.add_assoc]

protected theorem ite {p : Prop} [Decidable p] {m m' : Scan α}
    (h : p → Lexes m width cs read) (h' : ¬p → Lexes m' width cs read') :
    Lexes (if p then m else m') width cs (if p then read else read') := by
  by_cases hp : p
  · rw [if_pos hp, if_pos hp]
    exact h hp
  · rw [if_neg hp, if_neg hp]
    exact h' hp

protected theorem loop_done {step : β → Scan (β ⊕ α)} {b : β} {a : α} {reach : Nat}
    (h : Lexes (step b) width cs (.inr a, reach)) : Lexes (loop step b) width cs (a, reach) := by
  obtain ⟨taken, rest, rfl, hwidth, hmoves⟩ := h
  exact ⟨taken, rest, rfl, hwidth, hmoves.loop_done⟩

protected theorem loop_more {step : β → Scan (β ⊕ α)} {b b' : β} (taken : List Char)
    (hround : Moves (step b) taken rest (.inl b')) (htaken : 0 < taken.length)
    (h : Lexes (loop step b') (width + taken.length) rest read) :
    Lexes (loop step b) width (taken ++ rest) read := by
  obtain ⟨more, rest, rfl, hwidth, hmoves⟩ := h
  refine ⟨taken ++ more, rest, (List.append_assoc ..).symm, ?_,
    hround.loop_more taken htaken hmoves⟩
  rw [hwidth, List.length_append, Nat.add_assoc]

end Lexes

/-- A backslash is at the end of the line or in front of a character. -/
theorem ne_backslash {c : Char} {rest : List Char} (hlast : c = '\\' → rest = [] → False)
    (hslash : ∀ d rest', c = '\\' → rest = d :: rest' → False) : c ≠ '\\' := by
  rintro rfl
  cases rest with
  | nil => exact hlast rfl rfl
  | cons d rest => exact hslash d rest rfl rfl

theorem lexes_string (value : String) (width : Nat) (cs : List Char) :
    Lexes (loop stringRound value) width cs (Lexeme.string value width cs) := by
  fun_induction Lexeme.string value width cs with
  | case1 value width => exact .loop_done (.peek (.pure _))
  | case2 value width rest => exact .loop_done (.peek (.forward ['\x22'] (.pure _)))
  | case3 value width => exact .loop_done (.peek (.peek (.forward ['\\'] (.pure _))))
  | case4 value width c rest d hescape ih =>
    refine .loop_more ['\\', c] (.peek (.peek (.forward ['\\', c] ?_))) Nat.zero_lt_two ih
    simp only [hescape]
    exact moves_pure _
  | case5 value width c rest hescape =>
    refine .loop_done (.peek (.peek (.forward ['\\', c] ?_)))
    simp only [hescape]
    exact .pure _
  | case6 value width c rest hquote hlast hslash ih =>
    refine .loop_more [c] (.peek ?_) Nat.zero_lt_one ih
    change Moves (if c = '\x22' then _ else if c = '\\' then _ else _) _ _ _
    rw [if_neg hquote, if_neg (ne_backslash hlast hslash)]
    exact .forward [c] (moves_pure _)

theorem lexes_closeChar (value : Char) (width : Nat) (cs : List Char) :
    Lexes (closeChar value) width cs (Lexeme.closeChar value width cs) := by
  fun_cases Lexeme.closeChar value width cs with
  | case1 rest => exact .peek (.forward ['\x27'] (.pure _))
  | case2 cs hquote =>
    refine .peek ?_
    rw [if_neg]
    · exact .pure _
    · intro h
      rw [← List.head?_eq_getElem?] at h
      obtain ⟨rest, rfl⟩ := List.head?_eq_some_iff.mp h
      exact hquote rest rfl

theorem lexes_char (cs : List Char) : Lexes char 1 cs (Lexeme.char cs) := by
  fun_cases Lexeme.char cs with
  | case1 => exact .peek (.pure _)
  | case2 rest => exact .peek (.forward ['\x27'] (.pure _))
  | case3 => exact .peek (.peek (.forward ['\\'] (.pure _)))
  | case4 c rest d hescape =>
    refine .peek (.peek (.forward ['\\', c] ?_))
    simp only [hescape]
    exact lexes_closeChar d 3 rest
  | case5 c rest hescape =>
    refine .peek (.peek (.forward ['\\', c] ?_))
    simp only [hescape]
    exact .pure _
  | case6 c rest hquote hlast hslash =>
    refine .peek ?_
    change Lexes (if c = '\x27' then _ else if c = '\\' then _ else _) _ _ _
    rw [if_neg hquote, if_neg (ne_backslash hlast hslash)]
    exact .forward [c] (lexes_closeChar c 2 rest)

theorem lexes_number {c : Char} (hc : c.isDigit = true) (cs : List Char) :
    Lexes number 0 (c :: cs) (Lexeme.number c cs) := by
  have hmoves := (moves_skipWhile Char.isDigit (c :: cs)).cut.map Lexeme.numberKind
  rw [List.takeWhile_cons_of_pos hc, List.dropWhile_cons_of_pos hc] at hmoves
  refine ⟨_, _, ?_, (Nat.zero_add _).symm, hmoves⟩
  rw [List.cons_append, List.takeWhile_append_dropWhile]

theorem lexes_word (c : Char) (cs : List Char) : Lexes word 0 (c :: cs) (Lexeme.word c cs) := by
  have hmoves := (Moves.forward [c] (moves_skipWhile Lexeme.isNamePart cs)).cut
  refine ⟨_, _, ?_, (Nat.zero_add _).symm, hmoves.map _⟩
  rw [List.cons_append, List.takeWhile_append_dropWhile]

theorem lexes_lexeme (c : Char) (cs : List Char) :
    Lexes (lexeme c) 0 (c :: cs) (Lexeme.read c cs) := by
  refine .peek ?_
  rw [List.getElem?_cons_succ, ← List.head?_eq_getElem?, Lexeme.read, Lexeme.symbol?]
  cases hdouble : cs.head?.bind (Lexeme.double? c) with
  | some symbol =>
    obtain ⟨d, hd, -⟩ := Option.bind_eq_some_iff.mp hdouble
    obtain ⟨rest, rfl⟩ := List.head?_eq_some_iff.mp hd
    exact .forward [c, d] (.pure _)
  | none =>
    cases hsingle : Lexeme.single? c with
    | some symbol => exact .forward [c] (.pure _)
    | none =>
      exact .ite (fun _ => .forward [c] (lexes_string "" 1 cs)) fun _ =>
        .ite (fun _ => .forward [c] (lexes_char cs)) fun _ =>
        .ite (fun hdigit => lexes_number hdigit cs) fun _ =>
        .ite (fun _ => lexes_word c cs) fun _ => .forward [c] (.pure _)

/-! ### Comments -/

section

variable {start : Location} {c : Char}

theorem commentRound_nil :
    commentRound start (on failure later line done []) =
      (nextLine >>= fun found => if found then pure (.inl ()) else
        throw (.token ⟨.error .unterminatedComment, ⟨start, ⟨max line 1, done.length + 1⟩⟩⟩))
        (on failure later line done []) := by
  refine (bind_ok rfl).trans ?_
  rw [if_pos (by simp)]
  rfl

theorem moves_commentRound_closing :
    Moves (commentRound start) ['*', '/'] rest (.inr ()) := by
  intro failure later line done
  refine (bind_ok rfl).trans ?_
  rw [if_neg (by simp)]
  refine (bind_ok cur_on).trans ((bind_ok (peek_on 1)).trans ?_)
  exact Moves.forward ['*', '/'] (moves_pure _) failure later line done

theorem moves_commentRound_inside (hopen : c = '*' → rest.head? ≠ some '/') :
    Moves (commentRound start) [c] rest (.inl ()) := by
  intro failure later line done
  refine (bind_ok rfl).trans ?_
  rw [if_neg (by simp)]
  refine (bind_ok cur_on).trans ((bind_ok (peek_on 1)).trans ?_)
  rw [if_neg]
  · exact Moves.forward [c] (moves_pure _) failure later line done
  · rintro ⟨hc, hhead⟩
    exact hopen hc (List.head?_eq_getElem?.trans hhead)

/-- How skipping the rest of a comment ends, from the buffer `s` on, where the next token is the
    one of `read`: behind the closing mark, with no more to do than before, or early with a
    terminal token. -/
inductive Skipped (s : Buffer) (read : Token × Cursor) :
    EStateM.Result Exit Buffer Unit → Prop where
  | closed {failure : Option ReadError} {later : List (List Char)} {line : Nat}
      {done rest : List Char} :
      (on failure later line done rest).work ≤ s.work → 1 ≤ line →
      read = nextIn failure later line done.length rest .space →
      Skipped s read (.ok () (on failure later line done rest))
  | stopped {t : Token} {b : Buffer} :
      b.column ≤ b.chars.size → t.isTerminal = true → read = (t, b.cursor) →
      Skipped s read (.error (.token t) b)

theorem Skipped.mono {s s' : Buffer} {read : Token × Cursor}
    {r : EStateM.Result Exit Buffer Unit} (h : Skipped s read r) (hwork : s.work ≤ s'.work) :
    Skipped s' read r := by
  cases h with
  | closed hle hline hread => exact .closed (Nat.le_trans hle hwork) hline hread
  | stopped hcolumn hterminal hread => exact .stopped hcolumn hterminal hread

/-- The rest of a comment is skipped in a buffer as it is in front of a cursor. -/
def SkipsComment (start : Location) (failure : Option ReadError) (later : List (List Char))
    (line : Nat) (done rest : List Char) : Prop :=
  Skipped (on failure later line done rest)
    (nextIn failure later line done.length rest (.comment start))
    (comment start (on failure later line done rest))

theorem skipsComment_nil
    (hnext : ∀ next later', later = next :: later' →
      SkipsComment start failure later' (line + 1) [] next) :
    SkipsComment start failure later line done [] := by
  cases later with
  | cons next later =>
    have hskip : comment start (on failure (next :: later) line done []) =
        comment start (on failure later (line + 1) [] next) :=
      loop_more (commentRound_nil.trans (bind_ok nextLine_on)) work_nextLine_lt
    rw [SkipsComment, hskip, nextIn, Gap.cross]
    exact (hnext next later rfl).mono (Nat.le_of_lt work_nextLine_lt)
  | nil =>
    rw [SkipsComment, nextIn, Gap.cross]
    cases failure with
    | none =>
      have hstop : comment start (on none [] line done []) =
          .error (.token ⟨.error .unterminatedComment, ⟨start, ⟨max line 1, done.length + 1⟩⟩⟩)
            (atEnd none line done) :=
        loop_error (commentRound_nil.trans (bind_ok nextLine_end))
      rw [hstop]
      exact .stopped Buffer.atEnd_column_le rfl (by rw [Buffer.atEnd_cursor]; rfl)
    | some error =>
      have hstop : comment start (on (some error) [] line done []) =
          .error (.token ⟨.error (.unreadable error), .point ⟨line + 1, 1⟩⟩)
            (atEnd (some error) line done) :=
        loop_error (commentRound_nil.trans (bind_error nextLine_failure))
      rw [hstop]
      exact .stopped Buffer.atEnd_column_le rfl (by rw [Buffer.atEnd_cursor]; rfl)

/-- On a line the comment is skipped character by character. -/
theorem skipsComment_line (hline : 1 ≤ line)
    (hnext : ∀ next later', later = next :: later' →
      SkipsComment start failure later' (line + 1) [] next) :
    SkipsComment start failure later line done rest := by
  induction rest generalizing done with
  | nil => exact skipsComment_nil hnext
  | cons c rest ih =>
    by_cases hclose : c = '*' ∧ rest.head? = some '/'
    · obtain ⟨rfl, hhead⟩ := hclose
      obtain ⟨rest, rfl⟩ := List.head?_eq_some_iff.mp hhead
      have hclosed : comment start (on failure later line done ('*' :: '/' :: rest)) =
          .ok () (on failure later line (done ++ ['*', '/']) rest) :=
        loop_done (moves_commentRound_closing failure later line done)
      rw [SkipsComment, hclosed, Cursor.nextIn_closing]
      refine .closed (Nat.le_of_lt (work_moved_lt _ Nat.zero_lt_two)) hline ?_
      rw [List.length_append]
      rfl
    · have hopen : c = '*' → rest.head? ≠ some '/' := fun hc hhead => hclose ⟨hc, hhead⟩
      have hskip : comment start (on failure later line done (c :: rest)) =
          comment start (on failure later line (done ++ [c]) rest) :=
        loop_more (moves_commentRound_inside hopen failure later line done)
          (work_moved_lt [c] Nat.zero_lt_one)
      have hrest : SkipsComment start failure later line (done ++ [c]) rest := ih
      rw [SkipsComment, List.length_append] at hrest
      rw [SkipsComment, hskip, Cursor.nextIn_inside hopen]
      exact hrest.mono (Nat.le_of_lt (work_moved_lt [c] Nat.zero_lt_one))

theorem skipsComment (hline : 1 ≤ line) : SkipsComment start failure later line done rest := by
  induction later generalizing line done rest with
  | nil => exact skipsComment_line hline fun _ _ h => (List.cons_ne_nil _ _ h.symm).elim
  | cons next later ih =>
    refine skipsComment_line hline fun next' later' h => ?_
    obtain ⟨rfl, rfl⟩ := List.cons.inj h
    exact ih (Nat.le_add_left ..)

end

/-! ### Gaps -/

section

variable {c : Char}

theorem gapRound_nil : gapRound (on failure later line done []) =
    (nextLine >>= fun _ => pure (.inl ())) (on failure later line done []) := by
  refine (bind_ok rfl).trans ?_
  rw [if_neg (by simp), if_pos (by simp)]

theorem gapRound_cons : gapRound (on failure later line done (c :: rest)) =
    gapAt c (on failure later line done (c :: rest)) := by
  refine (bind_ok rfl).trans ?_
  rw [if_neg (by simp), if_neg (by simp)]
  exact bind_ok cur_on

theorem moves_gapRound_blank (hblank : Text.isBlank c = true) :
    Moves gapRound [c] rest (.inl ()) := by
  intro failure later line done
  refine gapRound_cons.trans ?_
  rw [gapAt, if_pos hblank]
  exact Moves.forward [c] (moves_pure _) failure later line done

theorem moves_gapRound_lineComment {body : List Char} :
    Moves gapRound ('/' :: '/' :: body) [] (.inl ()) := by
  intro failure later line done
  refine gapRound_cons.trans ?_
  rw [gapAt, if_neg (by decide)]
  refine (bind_ok (peek_on 1)).trans ?_
  rw [if_pos (by simp)]
  exact (moves_toLineEnd ('/' :: '/' :: body)).map _ failure later line done

theorem gapRound_opening : gapRound (on failure later line done ('/' :: '*' :: rest)) =
    (comment ⟨max line 1, done.length + 1⟩ >>= fun _ => pure (.inl ()))
      (on failure later line (done ++ ['/', '*']) rest) := by
  refine gapRound_cons.trans ?_
  rw [gapAt, if_neg (by decide)]
  refine (bind_ok (peek_on 1)).trans ?_
  rw [if_neg (by simp), if_pos (by simp)]
  exact (bind_ok rfl).trans (bind_ok (forward_on ['/', '*']))

theorem gapRound_start (hblank : Text.isBlank c = false)
    (hslash : c = '/' → rest.head? ≠ some '/' ∧ rest.head? ≠ some '*') :
    gapRound (on failure later line done (c :: rest)) =
      .ok (.inr ()) (on failure later line done (c :: rest)) := by
  refine gapRound_cons.trans ?_
  rw [gapAt, if_neg (by rw [hblank]; decide)]
  refine (bind_ok (peek_on 1)).trans ?_
  rw [List.getElem?_cons_succ, ← List.head?_eq_getElem?, if_neg, if_neg]
  · rfl
  · exact fun h => (hslash h.1).2 h.2
  · exact fun h => (hslash h.1).1 h.2

/-! ### The next token -/

/-- A scan has read the token of `read` without a fault and stands behind it; a token that is
    not terminal can be followed by another one. -/
def Ends (read : Token × Cursor) (r : EStateM.Result Exit Buffer Token) : Prop :=
  ∃ b, settle r = .ok (read.1, b) ∧ b.cursor = read.2 ∧ b.column ≤ b.chars.size ∧
    (read.1.isTerminal = false → b.Ready)

theorem Ends.of_terminal {t : Token} {b : Buffer} {read : Token × Cursor}
    {r : EStateM.Result Exit Buffer Token} (hr : settle r = .ok (t, b))
    (hcolumn : b.column ≤ b.chars.size) (hterminal : t.isTerminal = true)
    (hread : read = (t, b.cursor)) : Ends read r := by
  subst hread
  refine ⟨b, hr, rfl, hcolumn, fun hproper => ?_⟩
  rw [hterminal] at hproper
  cases hproper

/-- The next token in a buffer is the one in front of a cursor. -/
def FindsToken (failure : Option ReadError) (later : List (List Char)) (line : Nat)
    (done rest : List Char) : Prop :=
  Ends (nextIn failure later line done.length rest .space)
    (token (on failure later line done rest))

/-- What a round of the gap skips does not matter for the token. -/
theorem token_skip {s s' : Buffer} (hround : gapRound s = .ok (.inl ()) s')
    (hwork : s'.work < s.work) : token s = token s' := by
  have hgap : gap s = gap s' := loop_more hround hwork
  change EStateM.bind gap (fun _ => here) s = EStateM.bind gap (fun _ => here) s'
  rw [EStateM.bind, EStateM.bind, hgap]

theorem findsToken_start (hline : 1 ≤ line) (hblank : Text.isBlank c = false)
    (hslash : c = '/' → rest.head? ≠ some '/' ∧ rest.head? ≠ some '*') :
    FindsToken failure later line done (c :: rest) := by
  obtain ⟨taken, more, hcs, hwidth, hmoves⟩ := lexes_lexeme c rest
  have hlexeme := hmoves failure later line done
  rw [← hcs] at hlexeme
  have hgap : gap (on failure later line done (c :: rest)) =
      .ok () (on failure later line done (c :: rest)) :=
    loop_done (gapRound_start hblank hslash)
  have htoken : token (on failure later line done (c :: rest)) =
      .ok ⟨(Lexeme.read c rest).1, ⟨⟨max line 1, done.length + 1⟩,
          ⟨max line 1, (done ++ taken).length + 1⟩⟩⟩
        (on failure later line (done ++ taken) more) := by
    refine (bind_ok hgap).trans ((bind_ok rfl).trans ?_)
    rw [if_neg (by simp)]
    exact (bind_ok cur_on).trans ((bind_ok hlexeme).trans rfl)
  rw [FindsToken, Cursor.nextIn_start hslash hblank, htoken]
  refine ⟨on failure later line (done ++ taken) more, ?_, ?_, ?_, fun _ => Buffer.on_ready hline⟩
  · simp [Cursor.take, Cursor.skip, Cursor.loc, hwidth, settle]
  · rw [Buffer.on_cursor]
    simp [Cursor.take, Cursor.skip, hwidth, hcs]
  · simp

theorem findsToken_nil (hnext : ∀ next later', later = next :: later' →
      FindsToken failure later' (line + 1) [] next) : FindsToken failure later line done [] := by
  cases later with
  | cons next later =>
    rw [FindsToken, token_skip (gapRound_nil.trans (bind_ok nextLine_on)) work_nextLine_lt,
      nextIn, Gap.cross]
    exact hnext next later rfl
  | nil =>
    rw [FindsToken, nextIn, Gap.cross]
    cases failure with
    | none =>
      have hend : gap (on none [] line done []) = .ok () (atEnd none line done) :=
        (loop_more (gapRound_nil.trans (bind_ok nextLine_end)) Buffer.atEnd_work_lt).trans
          (loop_done rfl)
      refine .of_terminal (congrArg settle (bind_ok hend)) Buffer.atEnd_column_le rfl ?_
      rw [Buffer.atEnd_endLoc, Buffer.atEnd_cursor]
      rfl
    | some error =>
      have hstop : gap (on (some error) [] line done []) =
          .error (.token ⟨.error (.unreadable error), .point ⟨line + 1, 1⟩⟩)
            (atEnd (some error) line done) :=
        loop_error (gapRound_nil.trans (bind_error nextLine_failure))
      exact .of_terminal (congrArg settle (bind_error hstop)) Buffer.atEnd_column_le rfl
        (by rw [Buffer.atEnd_cursor]; rfl)

theorem findsToken_lineComment {body : List Char}
    (hend : FindsToken failure later line (done ++ '/' :: '/' :: body) []) :
    FindsToken failure later line done ('/' :: '/' :: body) := by
  have hround : gapRound (on failure later line done ('/' :: '/' :: body ++ [])) = _ :=
    moves_gapRound_lineComment failure later line done
  have hlt : (on failure later line (done ++ '/' :: '/' :: body) []).work <
      (on failure later line done ('/' :: '/' :: body ++ [])).work :=
    work_moved_lt _ (Nat.zero_lt_succ _)
  have hskip := token_skip hround hlt
  rw [List.append_nil] at hskip
  rw [FindsToken, hskip, Cursor.nextIn_lineComment]
  rwa [FindsToken, List.length_append] at hend

/-- A block comment is skipped, and the token is the one behind it. -/
theorem findsToken_opening (hline : 1 ≤ line)
    (hbehind : ∀ failure' later' line' done' rest', 1 ≤ line' →
      (on failure' later' line' done' rest').work <
        (on failure later line done ('/' :: '*' :: rest)).work →
      FindsToken failure' later' line' done' rest') :
    FindsToken failure later line done ('/' :: '*' :: rest) := by
  have hskips : SkipsComment ⟨line, done.length + 1⟩ failure later line (done ++ ['/', '*']) rest :=
    skipsComment hline
  have hround : gapRound (on failure later line done ('/' :: '*' :: rest)) =
      (comment ⟨line, done.length + 1⟩ >>= fun _ => pure (.inl ()))
        (on failure later line (done ++ ['/', '*']) rest) := by
    rw [gapRound_opening, Nat.max_eq_left hline]
  rw [SkipsComment, List.length_append] at hskips
  rw [FindsToken, Cursor.nextIn_opening]
  generalize hcomment : comment ⟨line, done.length + 1⟩
    (on failure later line (done ++ ['/', '*']) rest) = r at hskips
  cases hskips with
  | closed hle hline' hread =>
    have hlt := Nat.lt_of_le_of_lt hle (work_moved_lt _ Nat.zero_lt_two)
    have hfinds := hbehind _ _ _ _ _ hline' hlt
    rw [FindsToken, ← hread] at hfinds
    rwa [token_skip (hround.trans (bind_ok hcomment)) hlt]
  | stopped hcolumn hterminal hread =>
    have hstop : gap (on failure later line done ('/' :: '*' :: rest)) = .error _ _ :=
      loop_error (hround.trans (bind_error hcomment))
    exact .of_terminal (congrArg settle (bind_error hstop)) hcolumn hterminal hread

theorem findsToken_blank (hblank : Text.isBlank c = true)
    (hslash : c = '/' → rest.head? ≠ some '/' ∧ rest.head? ≠ some '*')
    (hrest : FindsToken failure later line (done ++ [c]) rest) :
    FindsToken failure later line done (c :: rest) := by
  have hskip : token (on failure later line done (c :: rest)) =
      token (on failure later line (done ++ [c]) rest) :=
    token_skip (moves_gapRound_blank hblank failure later line done)
      (work_moved_lt _ Nat.zero_lt_one)
  rw [FindsToken, hskip, Cursor.nextIn_blank hslash hblank]
  rwa [FindsToken, List.length_append] at hrest

end

theorem findsToken (hline : rest ≠ [] → 1 ≤ line) : FindsToken failure later line done rest := by
  induction hwork : (on failure later line done rest).work using Nat.strongRecOn
    generalizing failure later line done rest with
  | _ n ih =>
    subst hwork
    cases rest with
    | nil =>
      refine findsToken_nil fun next later' hlater => ?_
      subst hlater
      exact ih _ work_nextLine_lt (fun _ => Nat.le_add_left ..) rfl
    | cons c rest =>
      have hpos := hline (List.cons_ne_nil c rest)
      by_cases hlineComment : c = '/' ∧ rest.head? = some '/'
      · obtain ⟨rfl, hhead⟩ := hlineComment
        obtain ⟨body, rfl⟩ := List.head?_eq_some_iff.mp hhead
        refine findsToken_lineComment (ih _ ?_ (fun _ => hpos) rfl)
        rw [Buffer.on_work, Buffer.on_work, List.length_nil, List.length_cons]
        omega
      by_cases hblock : c = '/' ∧ rest.head? = some '*'
      · obtain ⟨rfl, hhead⟩ := hblock
        obtain ⟨rest, rfl⟩ := List.head?_eq_some_iff.mp hhead
        exact findsToken_opening hpos fun _ _ _ _ _ hline hlt => ih _ hlt (fun _ => hline) rfl
      have hslash : c = '/' → rest.head? ≠ some '/' ∧ rest.head? ≠ some '*' :=
        fun hc => ⟨fun hhead => hlineComment ⟨hc, hhead⟩, fun hhead => hblock ⟨hc, hhead⟩⟩
      cases hblank : Text.isBlank c with
      | false => exact findsToken_start hpos hblank hslash
      | true =>
        exact findsToken_blank hblank hslash
          (ih _ (work_moved_lt [c] Nat.zero_lt_one) (fun _ => hpos) rfl)

end Scan

/-- From a buffer that is ready a token is read, the one that follows its place. -/
theorem Buffer.Ready.ends {b : Buffer} (h : b.Ready) : Scan.Ends b.cursor.next (Scan.token b) := by
  have hfinds : Scan.FindsToken b.failure b.later b.line (b.chars.toList.take b.column)
      (b.chars.toList.drop b.column) := by
    refine Scan.findsToken fun hne => h.line_pos ?_
    rw [← List.length_pos_iff, List.length_drop, Array.length_toList] at hne
    omega
  rwa [Scan.FindsToken, ← h.eq_on, h.length_take] at hfinds

theorem Buffer.ready_start (source : Source) : (Buffer.start source).Ready :=
  ⟨Nat.le_refl 0, rfl, fun h => absurd h (Nat.lt_irrefl 0)⟩

/-! ### Calls -/

namespace BufferedLexer

/-- A lexer on a buffer is in front of the same token as a lexer on a cursor, and at the same
    place. -/
structure Follows (l : BufferedLexer) (lexer : Lexer) : Prop where
  current_eq : l.current = lexer.current
  cursor_eq : l.buffer.cursor = lexer.cursor
  column_le : l.buffer.column ≤ l.buffer.chars.size
  ready : l.current.isTerminal = false → l.buffer.Ready

theorem follows_ofBuffer {b : Buffer} (h : b.Ready) :
    ∃ l, ofBuffer b = .ok l ∧ l.Follows (Lexer.ofCursor b.cursor) := by
  obtain ⟨b', hsettle, hcursor, hcolumn, hready⟩ := h.ends
  refine ⟨⟨b.cursor.next.1, b'⟩, ?_, rfl, hcursor, hcolumn, hready⟩
  rw [ofBuffer, Buffer.next, hsettle]
  rfl

theorem follows_ofSource (source : Source) :
    ∃ l, ofSource source = .ok l ∧ l.Follows (Lexer.ofSource source) :=
  follows_ofBuffer (Buffer.ready_start source)

theorem advance_terminal {l : BufferedLexer} (h : l.current.isTerminal = true) :
    l.advance = .ok (l.current, l) :=
  if_pos h

namespace Follows

variable {l : BufferedLexer} {lexer : Lexer}

theorem advance (h : l.Follows lexer) :
    ∃ l', l.advance = .ok (lexer.advance.1, l') ∧ l'.Follows lexer.advance.2 := by
  cases hterminal : l.current.isTerminal with
  | true =>
    have hlexer : lexer.current.isTerminal = true := by rw [← h.current_eq, hterminal]
    refine ⟨l, ?_, ?_⟩
    · rw [advance_terminal hterminal, Lexer.advance, h.current_eq]
    · rw [Lexer.advance, if_pos hlexer]
      exact h
  | false =>
    have hlexer : ¬ lexer.current.isTerminal = true := by rw [← h.current_eq, hterminal]; decide
    obtain ⟨l', hl', hfollows⟩ := follows_ofBuffer (h.ready hterminal)
    refine ⟨l', ?_, ?_⟩
    · rw [BufferedLexer.advance, if_neg (by rw [hterminal]; decide), hl', h.current_eq]
      rfl
    · rw [Lexer.advance, if_neg hlexer, ← h.cursor_eq]
      exact hfollows

theorem call (h : l.Follows lexer) (c : Lexer.Call) :
    ∃ l', l.call c = .ok ((lexer.call c).1, l') ∧ l'.Follows (lexer.call c).2 := by
  cases c with
  | current => exact ⟨l, by rw [BufferedLexer.call, h.current_eq]; rfl, h⟩
  | advance => exact h.advance

theorem calls (h : l.Follows lexer) (cs : List Lexer.Call) :
    ∃ l', l.calls cs = .ok ((lexer.calls cs).1, l') ∧ l'.Follows (lexer.calls cs).2 := by
  induction cs generalizing l lexer with
  | nil => exact ⟨l, rfl, h⟩
  | cons c cs ih =>
    obtain ⟨l₁, hcall, hfollows₁⟩ := h.call c
    obtain ⟨l₂, hcalls, hfollows₂⟩ := ih hfollows₁
    refine ⟨l₂, ?_, hfollows₂⟩
    rw [BufferedLexer.calls, hcall]
    change (do let r ← l₁.calls cs; _) = _
    rw [hcalls]
    rfl

/-- Consuming a token that is not terminal takes something away from what is unread, or the
    next token is terminal. -/
theorem unread_lt (h : l.Follows lexer) (hproper : l.current.isTerminal = false) :
    ∃ l', l.advance = .ok (l.current, l') ∧
      (l'.buffer.unread < l.buffer.unread ∨ l'.current.isTerminal = true) := by
  obtain ⟨l', hadvance, hfollows⟩ := h.advance
  have hlexer : ¬ lexer.current.isTerminal = true := by rw [← h.current_eq, hproper]; decide
  rw [Lexer.advance, if_neg hlexer] at hfollows
  refine ⟨l', by rw [hadvance, h.current_eq, Lexer.advance], ?_⟩
  cases hterminal : l'.current.isTerminal with
  | true => exact .inr rfl
  | false =>
    rw [hfollows.current_eq] at hterminal
    rw [Buffer.unread_eq_size, Buffer.unread_eq_size, hfollows.cursor_eq, h.cursor_eq]
    exact .inl (lexer.cursor.size_next_lt hterminal)

end Follows

/-- A terminal token stays, and with it the whole state. -/
theorem calls_terminal {l : BufferedLexer} (h : l.current.isTerminal = true)
    (cs : List Lexer.Call) : l.calls cs = .ok (List.replicate cs.length l.current, l) := by
  induction cs with
  | nil => rfl
  | cons c cs ih =>
    have hcall : l.call c = .ok (l.current, l) := by
      cases c with
      | current => rfl
      | advance => exact advance_terminal h
    rw [calls, hcall]
    change (do let r ← l.calls cs; _) = _
    rw [ih]
    rfl

/-- A scan that goes on has the cursor on its line, has looked only at characters that are
    there and has cut out only pieces of the line; otherwise there was a fault.  Whatever a lexer
    on a buffer is asked for, there is none, and no loop goes on without reading either.  The
    answers are those of the lexer on a cursor.  Consuming a token that is not terminal leaves
    less unread or leads to a terminal one, and with a terminal token in front nothing changes
    any more. -/
theorem calls_safe :
    (∀ {column s s'}, Scan.moveTo column s = .ok () s' → s'.column ≤ s'.chars.size) ∧
    (∀ {s c s'}, Scan.cur s = .ok c s' → s.column < s.chars.size) ∧
    (∀ {start s cs s'}, Scan.slice start s = .ok cs s' →
      start ≤ s.column ∧ s.column ≤ s.chars.size) ∧
    ∀ (source : Source) (cs : List Lexer.Call), ∃ first l, ofSource source = .ok first ∧
      first.calls cs = .ok (((Lexer.ofSource source).calls cs).1, l) ∧
      l.current = ((Lexer.ofSource source).calls cs).2.current ∧
      l.buffer.column ≤ l.buffer.chars.size ∧
      (l.current.isTerminal = false → ∃ l', l.advance = .ok (l.current, l') ∧
        (l'.buffer.unread < l.buffer.unread ∨ l'.current.isTerminal = true)) ∧
      (l.current.isTerminal = true → ∀ more,
        l.calls more = .ok (List.replicate more.length l.current, l)) := by
  refine ⟨Scan.column_le_of_moveTo, Scan.column_lt_of_cur, Scan.le_of_slice, fun source cs => ?_⟩
  obtain ⟨first, hfirst, hfollows⟩ := follows_ofSource source
  obtain ⟨l, hcalls, hl⟩ := hfollows.calls cs
  exact ⟨first, l, hfirst, hcalls, hl.current_eq, hl.column_le, hl.unread_lt, calls_terminal⟩

end BufferedLexer

end Shc
