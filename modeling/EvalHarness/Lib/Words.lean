/-
# Splitting a text into words

The characters of a text are of any type and `p` says which of them are blank.  `Tokens p l ws`
says that `ws` are the maximal runs of `l` without a blank; `split p l` computes them.

* `tokens_iff`: the two agree, so every text has exactly one list of words.
* `split_intercalate`: words that are joined with a blank are read back, which makes joining
  injective (`intercalate_inj`).
* `split_respaced`: how long a run of blanks is makes no difference, and at the ends none is needed.
-/
import Mathlib.Data.List.Basic

namespace Words

variable {α β : Type*} {p : α → Bool}

/-! ## 1. Words and blanks -/

def Blank (p : α → Bool) (s : List α) : Prop := ∀ c ∈ s, p c = true

structure Word (p : α → Bool) (w : List α) : Prop where
  ne_nil : w ≠ []
  solid : ∀ c ∈ w, p c = false

/-- The maximal runs of a text without a blank: each is preceded by blanks only, and what follows it
is nothing or begins with one. -/
inductive Tokens (p : α → Bool) : List α → List (List α) → Prop
  | blank {s} : Blank p s → Tokens p s []
  | word {s w rest ws} : Blank p s → Word p w → (∀ c ∈ rest.head?, p c = true) →
      Tokens p rest ws → Tokens p (s ++ w ++ rest) (w :: ws)

def split (p : α → Bool) (l : List α) : List (List α) := (l.splitOnP p).filter fun w => !w.isEmpty

/-! ## 2. What is split where -/

@[simp] theorem split_nil : split p [] = [] := by
  simp [split, List.splitOnP_nil]

/-- A blank ends one word and begins the next; the rest follows from this. -/
theorem split_append_cons {c : α} (hc : p c = true) (x y : List α) :
    split p (x ++ c :: y) = split p x ++ split p y := by
  unfold split
  rw [List.splitOnP_append_cons x y hc, List.filter_append]

theorem split_cons {c : α} (hc : p c = true) (l : List α) : split p (c :: l) = split p l :=
  split_append_cons hc [] l

theorem split_word {w : List α} (hw : Word p w) : split p w = [w] := by
  unfold split
  rw [List.splitOnP_eq_singleton hw.solid]
  simp [hw.ne_nil]

theorem split_blank_append {s : List α} (hs : Blank p s) (l : List α) :
    split p (s ++ l) = split p l := by
  induction s with
  | nil => rfl
  | cons c s ih =>
    rw [List.cons_append, split_cons (hs c List.mem_cons_self)]
    exact ih fun d hd => hs d (List.mem_cons_of_mem c hd)

theorem split_blank {s : List α} (hs : Blank p s) : split p s = [] := by
  simpa using split_blank_append hs []

/-- Any blanks between two texts do what one does. -/
theorem split_append_append {s : List α} (hne : s ≠ []) (hs : Blank p s) (x y : List α) :
    split p (x ++ s ++ y) = split p x ++ split p y := by
  cases s with
  | nil => exact absurd rfl hne
  | cons c s =>
    rw [List.append_assoc, List.cons_append, split_append_cons (hs c List.mem_cons_self),
      split_blank_append fun d hd => hs d (List.mem_cons_of_mem c hd)]

theorem split_append_blank {s : List α} (hs : Blank p s) (l : List α) :
    split p (l ++ s) = split p l := by
  cases s with
  | nil => rw [List.append_nil]
  | cons c s =>
    rw [split_append_cons (hs c List.mem_cons_self),
      split_blank fun d hd => hs d (List.mem_cons_of_mem c hd), List.append_nil]

/-! ## 3. The two forms agree -/

theorem Tokens.split_eq {l : List α} {ws : List (List α)} (h : Tokens p l ws) : split p l = ws := by
  induction h with
  | blank hs => exact split_blank hs
  | @word s w rest ws hs hw hrest _ ih =>
    rw [List.append_assoc, split_blank_append hs, ← ih]
    cases rest with
    | nil => rw [List.append_nil, split_word hw, split_nil]
    | cons c rest =>
      have hc : p c = true := hrest c rfl
      rw [split_append_cons hc, split_word hw, split_cons hc]
      rfl

/-- One more character in front: a blank, a letter of the first word, or a word of its own. -/
theorem Tokens.cons {l : List α} {ws : List (List α)} (h : Tokens p l ws) (c : α) :
    ∃ ws', Tokens p (c :: l) ws' := by
  by_cases hc : p c = true
  · have hblank : ∀ {s}, Blank p s → Blank p (c :: s) := fun hs => List.forall_mem_cons.mpr ⟨hc, hs⟩
    cases h with
    | blank hs => exact ⟨_, .blank (hblank hs)⟩
    | word hs hw hrest h => exact ⟨_, .word (hblank hs) hw hrest h⟩
  · have hsolid : p c = false := Bool.eq_false_iff.mpr hc
    have hnil : Blank p ([] : List α) := fun _ hd => (List.not_mem_nil hd).elim
    have hone : Word p [c] := ⟨List.cons_ne_nil c [], by simp [hsolid]⟩
    -- `l` begins with a blank or ends here
    have hword : (∀ d ∈ l.head?, p d = true) → ∃ ws', Tokens p (c :: l) ws' := fun hl =>
      ⟨_, .word hnil hone hl h⟩
    cases h with
    | @blank s hs =>
      refine hword fun d hd => hs d ?_
      exact List.mem_of_mem_head? hd
    | @word s w rest ws hs hw hrest h =>
      cases s with
      | nil =>
        have hlonger : Word p (c :: w) :=
          ⟨List.cons_ne_nil c w, List.forall_mem_cons.mpr ⟨hsolid, hw.solid⟩⟩
        exact ⟨_, .word hnil hlonger hrest h⟩
      | cons b s =>
        refine hword fun d hd => ?_
        obtain rfl : b = d := by simpa using hd
        exact hs b List.mem_cons_self

theorem exists_tokens (l : List α) : ∃ ws, Tokens p l ws := by
  induction l with
  | nil => exact ⟨_, .blank fun _ hc => (List.not_mem_nil hc).elim⟩
  | cons c l ih =>
    obtain ⟨ws, h⟩ := ih
    exact h.cons c

/-- **Every text has one list of words**, and `split` finds it. -/
theorem tokens_iff {l : List α} {ws : List (List α)} : Tokens p l ws ↔ split p l = ws := by
  constructor
  · exact Tokens.split_eq
  · rintro rfl
    obtain ⟨ws, h⟩ := exists_tokens l
    exact h.split_eq ▸ h

theorem Tokens.word_of_mem {l : List α} {ws : List (List α)} (h : Tokens p l ws) :
    ∀ w ∈ ws, Word p w := by
  induction h with
  | blank _ => exact fun _ hw => (List.not_mem_nil hw).elim
  | word _ hw _ _ ih => exact List.forall_mem_cons.mpr ⟨hw, ih⟩

theorem word_of_mem_split {l w : List α} (hw : w ∈ split p l) : Word p w :=
  (tokens_iff.mpr rfl).word_of_mem w hw

/-! ## 4. Joining -/

section Join

variable {sep : α}

theorem split_intercalate (hsep : p sep = true) {ws : List (List α)} (hws : ∀ w ∈ ws, Word p w) :
    split p ([sep].intercalate ws) = ws := by
  induction ws with
  | nil => exact split_nil
  | cons w ws ih =>
    obtain ⟨hw, hrest⟩ := List.forall_mem_cons.mp hws
    cases ws with
    | nil => rw [List.intercalate_singleton, split_word hw]
    | cons v ws =>
      rw [List.intercalate_cons_cons, List.append_assoc, List.singleton_append,
        split_append_cons hsep, split_word hw, ih hrest]
      rfl

/-- **Joining is injective** on lists of words. -/
theorem intercalate_inj (hsep : p sep = true) {ws vs : List (List α)} (hws : ∀ w ∈ ws, Word p w)
    (hvs : ∀ v ∈ vs, Word p v) : [sep].intercalate ws = [sep].intercalate vs ↔ ws = vs := by
  constructor
  · intro h
    rw [← split_intercalate hsep hws, h, split_intercalate hsep hvs]
  · exact congrArg _

/-- A map of characters that keeps the separator can be applied before or after joining. -/
theorem flatMap_intercalate {f : α → List β} {sep' : β} (hsep : f sep = [sep'])
    (ws : List (List α)) :
    ([sep].intercalate ws).flatMap f = [sep'].intercalate (ws.map (·.flatMap f)) := by
  induction ws with
  | nil => rfl
  | cons w ws ih =>
    cases ws with
    | nil => simp
    | cons v ws =>
      rw [List.intercalate_cons_cons, List.flatMap_append, List.flatMap_append, ih]
      simp [List.intercalate_cons_cons, hsep]

end Join

/-! ## 5. Blanks do not count -/

/-- One run of blanks is replaced by another, or one at an end is dropped. -/
inductive Respaced (p : α → Bool) : List α → List α → Prop
  | run {s s' : List α} (x y : List α) : s ≠ [] → Blank p s → s' ≠ [] → Blank p s' →
      Respaced p (x ++ s ++ y) (x ++ s' ++ y)
  | leading {s : List α} (x : List α) : Blank p s → Respaced p (s ++ x) x
  | trailing {s : List α} (x : List α) : Blank p s → Respaced p (x ++ s) x

theorem split_respaced {l l' : List α} (h : Respaced p l l') : split p l = split p l' := by
  cases h with
  | run x y hne hs hne' hs' => rw [split_append_append hne hs, split_append_append hne' hs']
  | leading _ hs => exact split_blank_append hs _
  | trailing _ hs => exact split_append_blank hs _

end Words
