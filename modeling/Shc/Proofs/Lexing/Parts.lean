import Mathlib.Data.List.TakeWhile

/-!
# Texts in parts

A lexer relates characters to tokens.  `Adds R follow text ts` says that the text can
be put in front of any characters that satisfy `follow`, and adds the tokens `ts` to
theirs.  Texts of this kind are put together from shorter ones, where it matters
which character comes next: a word ends only where no other character of a word
follows.
-/

namespace Shc

/-- Nothing is asked of what follows. -/
abbrev Anything (_ : List Char) : Prop :=
  True

/-- Nothing follows, or a character of the class does. -/
def HeadIn (p : Char → Bool) (rest : List Char) : Prop :=
  ∀ c ∈ rest.head?, p c = true

/-- A text that starts with a character of the class. -/
def StartsIn (p : Char → Bool) (text : String) : Prop :=
  text.toList.head?.any p = true

instance (p : Char → Bool) (text : String) : Decidable (StartsIn p text) :=
  inferInstanceAs (Decidable (_ = true))

section

variable {p : Char → Bool}

theorem headIn_nil : HeadIn p [] := by
  simp [HeadIn]

theorem headIn_cons {c : Char} (hc : p c = true) (rest : List Char) : HeadIn p (c :: rest) := by
  simpa [HeadIn] using hc

theorem HeadIn.mono {q : Char → Bool} {rest : List Char} (h : HeadIn p rest)
    (hpq : ∀ c, p c = true → q c = true) : HeadIn q rest :=
  fun c hc => hpq c (h c hc)

/-- A row of characters of a class is as long as it can be where no other one follows. -/
theorem takeWhile_append_headIn {cs rest : List Char} (hcs : ∀ c ∈ cs, p c = true)
    (hrest : HeadIn (fun c => !p c) rest) : (cs ++ rest).takeWhile p = cs := by
  rw [List.takeWhile_append_of_pos hcs]
  cases rest with
  | nil => simp
  | cons c rest =>
    have hc : p c = false := by simpa using hrest c rfl
    simp [hc]

theorem StartsIn.append {text : String} (h : StartsIn p text) (more : String) :
    StartsIn p (text ++ more) := by
  rw [StartsIn, String.toList_append]
  cases hcs : text.toList with
  | nil => simp [StartsIn, hcs] at h
  | cons c cs => simpa [StartsIn, hcs] using h

theorem StartsIn.mono {q : Char → Bool} {text : String} (h : StartsIn p text)
    (hpq : ∀ c, p c = true → q c = true) : StartsIn q text := by
  rw [StartsIn, Option.any_eq_true] at h ⊢
  obtain ⟨c, hc, hp⟩ := h
  exact ⟨c, hc, hpq c hp⟩

theorem StartsIn.headIn {text : String} (h : StartsIn p text) (rest : List Char) :
    HeadIn p (text.toList ++ rest) := by
  cases hcs : text.toList with
  | nil => simp [StartsIn, hcs] at h
  | cons c cs => exact headIn_cons (by simpa [StartsIn, hcs] using h) _

end

/-- The text adds these tokens in front of any characters with the property. -/
def Adds {τ : Type} (R : List Char → List τ → Prop) (follow : List Char → Prop) (text : String)
    (ts : List τ) : Prop :=
  ∀ rest us, follow rest → R rest us → R (text.toList ++ rest) (ts ++ us)

namespace Adds

variable {τ : Type} {R : List Char → List τ → Prop} {follow follow' : List Char → Prop}
  {text text' : String} {ts us : List τ}

theorem nil : Adds R follow "" [] :=
  fun _ _ _ h => h

theorem of_eq (h : Adds R follow text ts) (htext : text = text') (hts : ts = us) :
    Adds R follow text' us :=
  htext ▸ hts ▸ h

theorem weaken (h : Adds R Anything text ts) : Adds R follow text ts :=
  fun rest us _ hrest => h rest us trivial hrest

theorem append (h : Adds R follow text ts) (h' : Adds R follow' text' us)
    (hfollow : ∀ rest, follow' rest → follow (text'.toList ++ rest)) :
    Adds R follow' (text ++ text') (ts ++ us) := by
  intro rest vs hrest hreads
  rw [String.toList_append, List.append_assoc, List.append_assoc]
  exact h _ _ (hfollow rest hrest) (h' rest vs hrest hreads)

theorem append_any (h : Adds R Anything text ts) (h' : Adds R follow text' us) :
    Adds R follow (text ++ text') (ts ++ us) :=
  h.append h' fun _ _ => trivial

/-- A text in front of one whose first character it can stand next to. -/
theorem append_starts {p : Char → Bool} (h : Adds R (HeadIn p) text ts)
    (h' : Adds R follow text' us) (hstarts : StartsIn p text') :
    Adds R follow (text ++ text') (ts ++ us) :=
  h.append h' fun rest _ => hstarts.headIn rest

theorem whole (h : Adds R follow text ts) (hnil : follow []) (hR : R [] []) :
    R text.toList ts := by
  have hall := h [] [] hnil hR
  rwa [List.append_nil, List.append_nil] at hall

end Adds

end Shc
