/-
# What a JSON text shows of the value it is read as

Two questions a caller of `json` can ask of a text without reading it.

**Which characters can come out of it?**  A character that neither the format nor an escape uses,
such as a backtick, can only come into a value by standing in the text.  So `loads` of a text holds
it no more often than the text does (`occ_le_of_loads`), and `dumps` of a value exactly as often as
the value (`dumps_clean`).

* The first needs that no escape of the text denotes the character.  That is a fact about the text
  cut anywhere between two escapes: `lex` reads the escapes alone.
* The reader never loses step with `lex`, and one of its steps adds at most the character it reads
  (`step_inStep`, one lemma for each thing the reader can expect).  The run is `foldl_inStep`.
* For `dumps` the texts are put together from clean pieces (`Clean.append`).

**What becomes of a value with other text around it?**  In front of a brace only white space, a
container or a string can stand, or the text is not read (`loads_prefix`): what the reader raises
is a `JSONDecodeError`, unless the text begins with an integer that has too many digits.  Behind a
value only white space can stand (`loads_append`).
-/
import EvalHarness.Lib.PyJson

namespace Py.Json

variable {codec : Codec} {q : Nat}

/-! ## 1. Characters the format does not use -/

/-- Does the format use it, in its punctuation, its constants, its numbers or its escapes? -/
def isSyntax (c : Nat) : Bool :=
  isDigit c || (0x41 ≤ c && c ≤ 0x5a) || (0x61 ≤ c && c ≤ 0x7a) ||
    [0x20, 0x22, 0x2b, 0x2c, 0x2d, 0x2e, 0x2f, 0x3a, 0x5b, 0x5c, 0x5d, 0x7b, 0x7d].contains c

/-- A printable character the format does not use. -/
structure Quiet (q : Nat) : Prop where
  ge : 0x20 ≤ q
  le : q ≤ 0x7e
  unused : isSyntax q = false

theorem Quiet.ne (hq : Quiet q) {c : Nat} (hc : isSyntax c = true) : c ≠ q := by
  rintro rfl
  exact absurd hc (by simp [hq.unused])

theorem Quiet.count_eq_zero (hq : Quiet q) {s : Str} (hs : ∀ c ∈ s, isSyntax c = true) :
    s.count q = 0 :=
  List.count_eq_zero.mpr fun h => hq.ne (hs q h) rfl

/-! ## 2. How often a character stands in a value -/

mutual

/-- How often the strings of a value hold a character. -/
def occ (q : Nat) : Json → Nat
  | .str s => s.count q
  | .arr xs => occList q xs
  | .obj fields => occFields q fields
  | _ => 0

def occList (q : Nat) : List Json → Nat
  | [] => 0
  | x :: xs => occ q x + occList q xs

def occFields (q : Nat) : List (Str × Json) → Nat
  | [] => 0
  | (key, x) :: fields => key.count q + occ q x + occFields q fields

end

theorem occList_append (xs ys : List Json) :
    occList q (xs ++ ys) = occList q xs + occList q ys := by
  induction xs with
  | nil => simp [occList]
  | cons x xs ih => simp [occList, ih, Nat.add_assoc]

/-- A field that is written over is lost, never copied. -/
theorem occFields_setField (key : Str) (v : Json) (fields : List (Str × Json)) :
    occFields q (setField key v fields) ≤ occFields q fields + key.count q + occ q v := by
  induction fields with
  | nil => simp [setField, occFields]
  | cons f fields ih =>
    obtain ⟨k, x⟩ := f
    unfold setField
    split
    · unfold occFields
      omega
    · unfold occFields
      omega

def occFrame (q : Nat) : Frame → Nat
  | .arr xs => occList q xs
  | .obj fields key => occFields q fields + key.count q

def occMode (q : Nat) : Mode → Nat
  | .value | .element | .number _ => 0
  | .member fields _ => occFields q fields
  | .key fields t => occFields q fields + t.acc.count q
  | .colon fields key => occFields q fields + key.count q
  | .str t => t.acc.count q
  | .literal _ v => occ q v
  | .afterElement xs => occList q xs
  | .afterMember fields => occFields q fields

/-- What the machine has collected so far. -/
def occState (q : Nat) : State → Nat
  | .run stack mode => (stack.map (occFrame q)).sum + occMode q mode
  | .done v => occ q v
  | .fail _ => 0

/-! ## 3. The escapes of a text -/

/-- One code point, for the escapes alone; `none` at an escape that is wrong or denotes `q`. -/
def Esc.step (q : Nat) : Esc → Nat → Option Esc
  | .plain, c => if c = 0x5c then some .back else some .plain
  | .back, c =>
    if c = 0x75 then some (.hex 0 0) else if (escaped c).isSome then some .plain else none
  | .hex n x, c =>
    match hexValue c with
    | none => none
    | some d =>
      if n < 3 then some (.hex (n + 1) (16 * x + d))
      else if 16 * x + d = q then none else some .plain

/-- The escapes of a text that begins at one of them. -/
def lex (q : Nat) (e : Esc) (s : Str) : Option Esc := s.foldlM (Esc.step q) e

theorem lex_append (e : Esc) (s t : Str) : lex q e (s ++ t) = (lex q e s).bind fun e' => lex q e' t :=
  List.foldlM_append

theorem lex_cons (e : Esc) (c : Nat) (s : Str) :
    lex q e (c :: s) = (Esc.step q e c).bind fun e' => lex q e' s := rfl

/-- Without a backslash there are no escapes. -/
theorem lex_of_notMem {s : Str} (h : 0x5c ∉ s) : lex q .plain s = some .plain := by
  induction s with
  | nil => rfl
  | cons c s ih =>
    rw [List.mem_cons, not_or] at h
    rw [lex_cons, Esc.step, if_neg (Ne.symm h.1)]
    exact ih h.2

theorem isSome_lex_of_append {e : Esc} {s t : Str} (h : (lex q e (s ++ t)).isSome = true) :
    (lex q e s).isSome = true := by
  rw [lex_append] at h
  cases hs : lex q e s with
  | none => simp [hs] at h
  | some e' => rfl

theorem lex_drop_of_notMem {s t : Str} (hs : 0x5c ∉ s) (h : (lex q .plain (s ++ t)).isSome = true) :
    (lex q .plain t).isSome = true := by
  rwa [lex_append, lex_of_notMem hs] at h

/-- A character that occurs in no escape stands between two of them. -/
theorem lex_drop_of_stop {s t : Str} {c : Nat} (hesc : escaped c = none) (hhex : hexValue c = none)
    (hu : c ≠ 0x75) {e : Esc} (h : (lex q e (s ++ c :: t)).isSome = true) :
    (lex q .plain (c :: t)).isSome = true := by
  rw [lex_append] at h
  cases hs : lex q e s with
  | none => simp [hs] at h
  | some e' =>
    rw [hs] at h
    cases e' with
    | plain => exact h
    | back => simp [lex_cons, Esc.step, hesc, hu] at h
    | hex n x => simp [lex_cons, Esc.step, hhex] at h

/-! ## 4. The reader keeps step -/

/-- The reader is where `lex` is: inside an escape of a string, or between escapes. -/
def InStep : State → Esc → Prop
  | .run _ (.key _ t), e | .run _ (.str t), e => t.esc = e
  | .run _ (.literal rest _), e => e = .plain ∧ 0x5c ∉ rest
  | .fail _, _ => True
  | _, e => e = .plain

theorem escaped_ne (hq : Quiet q) {c x : Nat} (h : escaped c = some x) : x ≠ q := by
  have h20 := hq.ge
  unfold escaped at h
  split at h
  · rename_i hc
    rw [← Option.some.inj h]
    rcases hc with rfl | rfl | rfl <;> exact hq.ne (by decide)
  · repeat' split at h
    all_goals first
      | (rw [← Option.some.inj h]; omega)
      | cases h

theorem count_singleton_of_ne {x : Nat} (hx : x ≠ q) : [x].count q = 0 :=
  List.count_eq_zero.mpr (by simpa using Ne.symm hx)

/-- A `\u` escape that is not of `q` adds none. -/
theorem count_addUnit (hq : Quiet q) {t : Chars} {x : Nat} (hx : x ≠ q) :
    (t.addUnit x).acc.count q ≤ t.acc.count q := by
  unfold Chars.addUnit
  split
  · have h7e := hq.le
    have hne : 0x10000 + (t.acc.getLastD 0 - 0xd800) * 0x400 + (x - 0xdc00) ≠ q := by omega
    rw [List.count_append, count_singleton_of_ne hne, Nat.add_zero]
    exact (List.dropLast_sublist _).count_le q
  · rw [List.count_append, count_singleton_of_ne hx, Nat.add_zero]

/-- One code point of a string. -/
theorem Chars.step_spec (hq : Quiet q) {t : Chars} {c : Nat} {e' : Esc}
    (hlex : Esc.step q t.esc c = some e') :
    (∀ t', t.step c = .ok (some t') →
      t'.esc = e' ∧ t'.acc.count q ≤ t.acc.count q + [c].count q) ∧
    (t.step c = .ok none → e' = .plain) := by
  obtain ⟨acc, high, esc⟩ := t
  -- a character that stands for itself, the letter of an escape, a digit of `\u`
  cases esc with
  | plain =>
    simp only [Esc.step] at hlex
    simp only [Chars.step]
    by_cases hquote : c = 0x22
    · subst hquote
      simpa using hlex.symm
    · by_cases hback : c = 0x5c
      · subst hback
        simpa using hlex
      · rw [if_neg hback] at hlex
        rw [if_neg hquote, if_neg hback]
        split
        · simp
        · simp [← Option.some.inj hlex, List.count_append]
  | back =>
    simp only [Esc.step] at hlex
    simp only [Chars.step]
    by_cases hu : c = 0x75
    · subst hu
      simpa using hlex
    · rw [if_neg hu] at hlex
      rw [if_neg hu]
      cases hc : escaped c with
      | none => simp
      | some x =>
        have hne := escaped_ne hq hc
        have hzero := count_singleton_of_ne hne
        simp only [hc, Option.isSome_some, if_true, Option.some.injEq] at hlex
        simp [hlex, List.count_append, hzero]
  | hex n x =>
    simp only [Esc.step] at hlex
    simp only [Chars.step]
    cases hd : hexValue c with
    | none => simp
    | some d =>
      dsimp only
      simp only [hd] at hlex
      by_cases hn : n < 3
      · rw [if_pos hn] at hlex ⊢
        simp [← Option.some.inj hlex]
      · rw [if_neg hn] at hlex ⊢
        -- the last digit: `lex` has made sure that the unit is not `q`
        split at hlex
        · cases hlex
        · rename_i hx
          obtain rfl := Option.some.inj hlex
          refine ⟨?_, by simp⟩
          intro t' ht
          obtain rfl := Option.some.inj (Except.ok.inj ht)
          refine ⟨?_, (count_addUnit hq hx).trans (Nat.le_add_right _ _)⟩
          unfold Chars.addUnit
          split <;> rfl

theorem convert_cases (codec : Codec) (negative : Bool) (whole frac exp : Str) :
    (∃ n, convert codec negative whole frac exp = .ok (.int n)) ∨
    (∃ x, convert codec negative whole frac exp = .ok (.float x)) ∨
    convert codec negative whole frac exp = .error .valueError := by
  unfold convert ofDigits
  by_cases hint : frac = [] ∧ exp = []
  · rw [if_pos hint]
    by_cases hlen : (whole.map (· - 0x30)).length ≤ maxStrDigits
    · rw [if_pos hlen]
      exact .inl ⟨_, rfl⟩
    · rw [if_neg hlen]
      exact .inr (.inr rfl)
  · rw [if_neg hint]
    exact .inr (.inl ⟨_, rfl⟩)

/-- A number is an `int` or a `float`; what fails is the text, or an integer that is too long. -/
theorem readNumber_cases (codec : Codec) (token : Str) :
    (∃ n, readNumber codec token = .ok (.int n)) ∨ (∃ x, readNumber codec token = .ok (.float x)) ∨
    readNumber codec token = .error .jsonDecodeError ∨
    readNumber codec token = .error .valueError := by
  simp only [readNumber]
  generalize (token.head? == some 0x2d) = negative
  generalize (if negative = true then token.tail else token) = s
  by_cases hw : wholePart s = []
  · rw [if_pos hw]
    exact .inr (.inr (.inl rfl))
  · rw [if_neg hw]
    obtain ⟨n, h⟩ | ⟨x, h⟩ | h := convert_cases codec negative (wholePart s)
      (fraction (s.drop (wholePart s).length))
      (exponent (s.drop (wholePart s ++ fraction (s.drop (wholePart s).length)).length))
    · simp only [h]
      split
      · exact .inl ⟨n, rfl⟩
      · exact .inr (.inr (.inl rfl))
    · simp only [h]
      split
      · exact .inr (.inl ⟨x, rfl⟩)
      · exact .inr (.inr (.inl rfl))
    · simp only [h]
      exact .inr (.inr (.inr trivial))

/-- A number is no string. -/
theorem occ_of_readNumber {token : Str} {v : Json} (h : readNumber codec token = .ok v) :
    occ q v = 0 := by
  obtain ⟨n, h'⟩ | ⟨x, h'⟩ | h' | h' := readNumber_cases codec token <;> rw [h'] at h
  · rw [← Except.ok.inj h]
    rfl
  · rw [← Except.ok.inj h]
    rfl
  · cases h
  · cases h

theorem occState_complete (stack : List Frame) (v : Json) :
    occState q (complete stack v) ≤ (stack.map (occFrame q)).sum + occ q v := by
  cases stack with
  | nil => simp [complete, occState]
  | cons frame stack =>
    cases frame with
    | arr xs =>
      simp only [complete, occState, occMode, occList_append, occList, List.map_cons, List.sum_cons,
        occFrame]
      omega
    | obj fields key =>
      have hset := occFields_setField (q := q) key v fields
      simp only [complete, occState, occMode, List.map_cons, List.sum_cons, occFrame]
      omega

theorem inStep_complete (stack : List Frame) (v : Json) : InStep (complete stack v) .plain := by
  cases stack with
  | nil => rfl
  | cons frame stack => cases frame <;> rfl

theorem isNumberChar_ne {c : Nat} (h : isNumberChar c = true) : c ≠ 0x5c := by
  rintro rfl
  exact absurd h (by decide)

/-- What a step may do to what has been collected, the escapes having gone from `e` to `e'`. -/
def Keeps (q : Nat) (before : State) (c : Nat) (e' : Esc) (after : State) : Prop :=
  InStep after e' ∧ occState q after ≤ occState q before + [c].count q

theorem keeps_fail {before : State} {c : Nat} {e' : Esc} {e : Exc} :
    Keeps q before c e' (.fail e) := ⟨trivial, Nat.zero_le _⟩

theorem keeps_complete {before : State} {c : Nat} {stack : List Frame} {v : Json}
    (h : (stack.map (occFrame q)).sum + occ q v ≤ occState q before) :
    Keeps q before c .plain (complete stack v) :=
  ⟨inStep_complete stack v, ((occState_complete stack v).trans h).trans (Nat.le_add_right _ _)⟩

theorem keeps_run {before : State} {c : Nat} {stack : List Frame} {mode : Mode}
    (hs : InStep (.run stack mode) .plain) (h : occState q (.run stack mode) ≤ occState q before) :
    Keeps q before c .plain (.run stack mode) := ⟨hs, h.trans (Nat.le_add_right _ _)⟩

/-- A value begins, or there is none. -/
theorem keeps_beginValue {before : State} {c : Nat} {e' : Esc} {stack : List Frame}
    (he : Esc.step q .plain c = some e') (h : (stack.map (occFrame q)).sum ≤ occState q before) :
    Keeps q before c e' (beginValue codec stack c) := by
  by_cases hc : c = 0x5c
  · subst hc
    exact keeps_fail
  · rw [Esc.step, if_neg hc] at he
    obtain rfl := Option.some.inj he
    -- a container, a string, a number or one of the constants, none of which hold anything yet
    unfold beginValue
    repeat' split
    all_goals first
      | exact keeps_fail
      | exact keeps_run rfl h
      | exact keeps_run ⟨rfl, by decide⟩ h

theorem keeps_afterValue {s : State} {c : Nat} {e' : Esc} (hs : InStep s .plain)
    (he : Esc.step q .plain c = some e') : Keeps q s c e' (afterValue s c) := by
  by_cases hc : c = 0x5c
  · subst hc
    unfold afterValue
    split <;> exact keeps_fail
  · rw [Esc.step, if_neg hc] at he
    obtain rfl := Option.some.inj he
    unfold afterValue
    split
    · split
      · exact ⟨rfl, Nat.le_add_right _ _⟩
      · exact keeps_fail
    · repeat' split
      · exact keeps_run rfl le_rfl
      · exact keeps_run rfl (by simp [occState, occMode, occFrame, Nat.add_comm])
      · exact keeps_complete (by simp [occState, occMode, occ])
      · exact keeps_fail
    · repeat' split
      · exact keeps_run rfl le_rfl
      · exact keeps_run rfl le_rfl
      · exact keeps_complete (by simp [occState, occMode, occ])
      · exact keeps_fail
    · exact keeps_fail
    · exact keeps_fail

theorem plain_of_ne {c : Nat} {e' : Esc} (hc : c ≠ 0x5c) (he : Esc.step q .plain c = some e') :
    e' = .plain := by
  rw [Esc.step, if_neg hc] at he
  exact (Option.some.inj he).symm

theorem plain_of_isWs {c : Nat} {e' : Esc} (hc : isWs c = true)
    (he : Esc.step q .plain c = some e') : e' = .plain :=
  plain_of_ne (by rintro rfl; exact absurd hc (by decide)) he

/-! A case of `step` each, by what the reader expects.  Where that is no character of a string, the
reader stands between two escapes, and a character that takes it on is no backslash. -/

/-- White space is passed over. -/
theorem keeps_ws {s t : State} {c : Nat} {e' : Esc} (hs : InStep s .plain)
    (he : Esc.step q .plain c = some e') (ht : Keeps q s c e' t) :
    Keeps q s c e' (if isWs c then s else t) := by
  split
  · rename_i hws
    rw [plain_of_isWs hws he]
    exact ⟨hs, Nat.le_add_right _ _⟩
  · exact ht

section Modes

variable {stack : List Frame} {c : Nat} {e' : Esc}

theorem keeps_value (he : Esc.step q .plain c = some e') :
    Keeps q (.run stack .value) c e' (step codec (.run stack .value) c) :=
  keeps_ws rfl he (keeps_beginValue he (Nat.le_add_right _ _))

theorem keeps_element (he : Esc.step q .plain c = some e') :
    Keeps q (.run stack .element) c e' (step codec (.run stack .element) c) := by
  refine keeps_ws rfl he ?_
  split
  · rename_i hc
    rw [plain_of_ne (by omega) he]
    exact keeps_complete (by simp [occState, occ, occList])
  · exact keeps_beginValue he (by simp [occState, occFrame, occList])

theorem keeps_member {fields : List (Str × Json)} {first : Bool}
    (he : Esc.step q .plain c = some e') :
    Keeps q (.run stack (.member fields first)) c e'
      (step codec (.run stack (.member fields first)) c) := by
  refine keeps_ws rfl he ?_
  split
  · rename_i hc
    rw [plain_of_ne (by omega) he]
    exact keeps_run rfl le_rfl
  · split
    · rename_i hc
      rw [plain_of_ne (by omega) he]
      exact keeps_complete (by simp [occState, occMode, occ])
    · exact keeps_fail

theorem keeps_colon {fields : List (Str × Json)} {key : Str}
    (he : Esc.step q .plain c = some e') :
    Keeps q (.run stack (.colon fields key)) c e'
      (step codec (.run stack (.colon fields key)) c) := by
  refine keeps_ws rfl he ?_
  split
  · rename_i hc
    rw [plain_of_ne (by omega) he]
    exact keeps_run rfl (by simp [occState, occMode, occFrame, Nat.add_comm])
  · exact keeps_fail

/-- In the name of a field the reader is as far in an escape as the text. -/
theorem keeps_key (hq : Quiet q) {fields : List (Str × Json)} {t : Chars}
    (he : Esc.step q t.esc c = some e') :
    Keeps q (.run stack (.key fields t)) c e' (step codec (.run stack (.key fields t)) c) := by
  obtain ⟨hsome, hnone⟩ := Chars.step_spec hq he
  simp only [step]
  cases ht : t.step c with
  | error x => exact keeps_fail
  | ok o =>
    cases o with
    | none =>
      rw [hnone ht]
      exact keeps_run rfl le_rfl
    | some t' =>
      obtain ⟨hesc, hcount⟩ := hsome t' ht
      refine ⟨hesc, ?_⟩
      simp only [occState, occMode]
      omega

theorem keeps_str (hq : Quiet q) {t : Chars} (he : Esc.step q t.esc c = some e') :
    Keeps q (.run stack (.str t)) c e' (step codec (.run stack (.str t)) c) := by
  obtain ⟨hsome, hnone⟩ := Chars.step_spec hq he
  simp only [step]
  cases ht : t.step c with
  | error x => exact keeps_fail
  | ok o =>
    cases o with
    | none =>
      rw [hnone ht]
      exact keeps_complete (by simp [occState, occMode, occ])
    | some t' =>
      obtain ⟨hesc, hcount⟩ := hsome t' ht
      refine ⟨hesc, ?_⟩
      simp only [occState, occMode]
      omega

/-- A number ends in front of the character that is no part of it, which is read once more. -/
theorem keeps_number {token : Str} (he : Esc.step q .plain c = some e') :
    Keeps q (.run stack (.number token)) c e' (step codec (.run stack (.number token)) c) := by
  simp only [step]
  split
  · rename_i hc
    rw [plain_of_ne (isNumberChar_ne hc) he]
    exact keeps_run rfl le_rfl
  · split
    · rename_i hc
      rw [plain_of_ne (by omega) he]
      exact keeps_run ⟨rfl, by decide⟩ (by simp [occState, occMode, occ])
    · cases hv : readNumber codec token with
      | error x => exact keeps_fail
      | ok v =>
        obtain ⟨hafter, hocc⟩ := keeps_afterValue (inStep_complete stack v) he
        have hle := occState_complete (q := q) stack v
        rw [occ_of_readNumber hv] at hle
        exact ⟨hafter, hocc.trans (Nat.add_le_add_right hle _)⟩

theorem keeps_literal {rest : Str} {v : Json} (hrest : 0x5c ∉ rest)
    (he : Esc.step q .plain c = some e') :
    Keeps q (.run stack (.literal rest v)) c e' (step codec (.run stack (.literal rest v)) c) := by
  simp only [step]
  cases rest with
  | nil => exact keeps_fail
  | cons c' rest =>
    rw [List.mem_cons, not_or] at hrest
    dsimp only
    split
    · exact keeps_fail
    · rename_i hc
      rw [plain_of_ne (by omega) he]
      split
      · exact keeps_complete le_rfl
      · exact ⟨⟨rfl, hrest.2⟩, Nat.le_add_right _ _⟩

end Modes

/-- **The reader keeps step.**  Where the escapes of the text denote no `q`, a step adds at most the
`q` that it reads. -/
theorem step_inStep (hq : Quiet q) {s : State} {e e' : Esc} {c : Nat} (hs : InStep s e)
    (he : Esc.step q e c = some e') : Keeps q s c e' (step codec s c) := by
  match s with
  | .fail x => exact keeps_fail
  | .done v =>
    obtain rfl : e = .plain := hs
    exact keeps_afterValue rfl he
  | .run stack (.afterElement xs) =>
    obtain rfl : e = .plain := hs
    exact keeps_afterValue rfl he
  | .run stack (.afterMember fields) =>
    obtain rfl : e = .plain := hs
    exact keeps_afterValue rfl he
  | .run stack .value =>
    obtain rfl : e = .plain := hs
    exact keeps_value he
  | .run stack .element =>
    obtain rfl : e = .plain := hs
    exact keeps_element he
  | .run stack (.member fields first) =>
    obtain rfl : e = .plain := hs
    exact keeps_member he
  | .run stack (.colon fields key) =>
    obtain rfl : e = .plain := hs
    exact keeps_colon he
  | .run stack (.key fields t) =>
    obtain rfl : t.esc = e := hs
    exact keeps_key hq he
  | .run stack (.str t) =>
    obtain rfl : t.esc = e := hs
    exact keeps_str hq he
  | .run stack (.number token) =>
    obtain rfl : e = .plain := hs
    exact keeps_number he
  | .run stack (.literal rest v) =>
    obtain ⟨rfl, hrest⟩ := hs
    exact keeps_literal hrest he

theorem foldl_inStep (hq : Quiet q) {e' : Esc} : ∀ {text : Str} {s : State} {e : Esc},
    InStep s e → lex q e text = some e' →
      InStep (text.foldl (step codec) s) e' ∧
        occState q (text.foldl (step codec) s) ≤ occState q s + text.count q := by
  intro text
  induction text with
  | nil =>
    intro s e hs hlex
    obtain rfl := Option.some.inj hlex
    exact ⟨hs, Nat.le_add_right _ _⟩
  | cons c text ih =>
    intro s e hs hlex
    rw [lex_cons] at hlex
    obtain ⟨e₁, he, hlex⟩ := Option.bind_eq_some_iff.mp hlex
    obtain ⟨hs₁, hle₁⟩ : Keeps q s c e₁ (step codec s c) := step_inStep hq hs he
    obtain ⟨hs₂, hle₂⟩ := ih hs₁ hlex
    refine ⟨hs₂, ?_⟩
    have hcount : (c :: text).count q = [c].count q + text.count q := by
      rw [← List.singleton_append, List.count_append]
    rw [List.foldl_cons, hcount]
    omega

theorem occ_of_finish {s : State} {v : Json} (h : finish codec s = .ok v) :
    occ q v ≤ occState q s := by
  unfold finish at h
  split at h
  · exact (Except.ok.inj h) ▸ le_rfl
  · cases h
  · rename_i stack token
    cases hv : readNumber codec token with
    | error e =>
      rw [hv] at h
      cases h
    | ok v' =>
      have hzero := occ_of_readNumber (q := q) hv
      simp only [hv, Except.bind, bind] at h
      split at h
      · rw [← Except.ok.inj h, hzero]
        exact Nat.zero_le _
      · cases h
  · cases h

/-- **Nothing quiet comes from nowhere.**  A value holds a character the format does not use no more
often than the text it was read from, when no escape of the text denotes the character. -/
theorem occ_le_of_loads (hq : Quiet q) {s : Str} {v : Json} (hlex : (lex q .plain s).isSome = true)
    (h : loads codec s = .ok v) : occ q v ≤ s.count q := by
  unfold loads at h
  split at h
  · cases h
  · obtain ⟨e, he⟩ := Option.isSome_iff_exists.mp hlex
    have hfold := @foldl_inStep codec q hq e s (.run [] .value) .plain rfl he
    exact (occ_of_finish h).trans (by simpa [occState, occMode] using hfold.2)

/-! ## 5. What the writer writes -/

/-- A text of whole escapes, none of them of `q`, that holds `q` so often. -/
def Clean (q : Nat) (s : Str) (n : Nat) : Prop := lex q .plain s = some .plain ∧ s.count q = n

theorem Clean.append {s t : Str} {n m : Nat} (hs : Clean q s n) (ht : Clean q t m) :
    Clean q (s ++ t) (n + m) := by
  refine ⟨?_, by rw [List.count_append, hs.2, ht.2]⟩
  rw [lex_append, hs.1]
  exact ht.1

theorem clean_of_syntax (hq : Quiet q) {s : Str} (hs : ∀ c ∈ s, isSyntax c = true ∧ c ≠ 0x5c) :
    Clean q s 0 :=
  ⟨lex_of_notMem fun h => (hs _ h).2 rfl, hq.count_eq_zero fun c hc => (hs c hc).1⟩

theorem isSyntax_hexDigit {n : Nat} (h : n < 16) : isSyntax (hexDigit n) = true := by
  revert n
  decide

theorem clean_unitEscape (hq : Quiet q) {x : Nat} (hx : x < 0x10000) (hne : x ≠ q) :
    Clean q (unitEscape x) 0 := by
  obtain ⟨h1, -⟩ := hexValue_hexDigit (n := x / 4096 % 16) (by omega)
  obtain ⟨h2, -⟩ := hexValue_hexDigit (n := x / 256 % 16) (by omega)
  obtain ⟨h3, -⟩ := hexValue_hexDigit (n := x / 16 % 16) (by omega)
  obtain ⟨h4, -⟩ := hexValue_hexDigit (n := x % 16) (by omega)
  have hval : 16 * (16 * (16 * (x / 4096 % 16) + x / 256 % 16) + x / 16 % 16) + x % 16 ≠ q := by
    omega
  refine ⟨?_, hq.count_eq_zero ?_⟩
  · simp [unitEscape, lex, Esc.step, h1, h2, h3, h4, hval]
  · intro c hc
    simp only [unitEscape, List.mem_cons, List.not_mem_nil, or_false] at hc
    rcases hc with rfl | rfl | rfl | rfl | rfl | rfl
    · decide
    · decide
    all_goals exact isSyntax_hexDigit (by omega)

/-- An escape of one character. -/
theorem clean_short (hq : Quiet q) {c x : Nat} (hc : c ≠ q) (hx : isSyntax x = true)
    (hesc : x ≠ 0x75 ∧ (escaped x).isSome = true) : Clean q [0x5c, x] ([c].count q) := by
  rw [count_singleton_of_ne hc]
  refine ⟨?_, hq.count_eq_zero ?_⟩
  · simp [lex, Esc.step, hesc]
  · intro c' hc'
    simp only [List.mem_cons, List.not_mem_nil, or_false] at hc'
    rcases hc' with rfl | rfl
    · decide
    · exact hx

theorem clean_escape (hq : Quiet q) (c : Nat) : Clean q (escape c) ([c].count q) := by
  have h20 := hq.ge
  have h7e := hq.le
  unfold escape
  split
  · rename_i h
    exact clean_short hq (h ▸ hq.ne (by decide)) (by decide) (by decide)
  split
  · rename_i h
    exact clean_short hq (h ▸ hq.ne (by decide)) (by decide) (by decide)
  split
  · exact clean_short hq (by omega) (by decide) (by decide)
  split
  · exact clean_short hq (by omega) (by decide) (by decide)
  split
  · exact clean_short hq (by omega) (by decide) (by decide)
  split
  · exact clean_short hq (by omega) (by decide) (by decide)
  split
  · exact clean_short hq (by omega) (by decide) (by decide)
  split
  · exact ⟨lex_of_notMem (by simpa using Ne.symm (by assumption)), rfl⟩
  rw [count_singleton_of_ne (by omega)]
  split
  · exact clean_unitEscape hq (by omega) (by omega)
  · exact (clean_unitEscape hq (by omega) (by omega)).append
      (clean_unitEscape hq (by omega) (by omega))

theorem clean_quote (hq : Quiet q) (s : Str) : Clean q (quote s) (s.count q) := by
  have hbody : Clean q (s.flatMap escape) (s.count q) := by
    induction s with
    | nil => exact ⟨rfl, rfl⟩
    | cons c s ih =>
      rw [List.flatMap_cons, ← List.singleton_append, List.count_append]
      exact (clean_escape hq c).append ih
  have hmark : Clean q [0x22] 0 := clean_of_syntax hq (by decide)
  simpa [quote] using (hmark.append hbody).append hmark

theorem clean_showInt (hq : Quiet q) (n : Int) : Clean q (showInt n) 0 := by
  have hdigit : ∀ d < 10, isSyntax (0x30 + d) = true ∧ 0x30 + d ≠ 0x5c := by decide
  refine clean_of_syntax hq fun c hc => ?_
  unfold showInt at hc
  rcases List.mem_append.mp hc with hc | hc
  · split at hc
    · obtain rfl := List.mem_singleton.mp hc
      decide
    · cases hc
  · split at hc
    · obtain rfl := List.mem_singleton.mp hc
      decide
    · obtain ⟨d, hd, rfl⟩ := List.mem_map.mp hc
      exact hdigit d (Nat.digits_lt_base (by decide) (List.mem_reverse.mp hd))

theorem isSyntax_of_isNumberChar {c : Nat} (h : isNumberChar c = true) :
    isSyntax c = true ∧ c ≠ 0x5c := by
  simp only [isNumberChar, Bool.or_eq_true, beq_iff_eq] at h
  rcases h with ((((hd | rfl) | rfl) | rfl) | rfl) | rfl
  · refine ⟨by simp [isSyntax, hd], ?_⟩
    rintro rfl
    exact absurd hd (by decide)
  all_goals decide

theorem clean_showFloat (hq : Quiet q) (x : Float) : Clean q (showFloat codec x) 0 := by
  cases x with
  | num x => exact clean_of_syntax hq fun c hc => isSyntax_of_isNumberChar (codec.showFloat_chars x c hc)
  | inf negative =>
    cases negative with
    | false => exact clean_of_syntax (s := Py.str "Infinity") hq (by decide)
    | true => exact clean_of_syntax (s := Py.str "-Infinity") hq (by decide)
  | nan => exact clean_of_syntax (s := Py.str "NaN") hq (by decide)

mutual

/-- **What is quiet is written as it is.**  `dumps` writes whole escapes, none of them of `q`, and
`q` as often as the value holds it. -/
theorem dumps_clean (hq : Quiet q) : ∀ v : Json, Clean q (dumps codec v) (occ q v)
  | .null => clean_of_syntax (s := Py.str "null") hq (by decide)
  | .bool false => clean_of_syntax (s := Py.str "false") hq (by decide)
  | .bool true => clean_of_syntax (s := Py.str "true") hq (by decide)
  | .int n => clean_showInt hq n
  | .float x => clean_showFloat hq x
  | .str s => clean_quote hq s
  | .arr xs => by
    have hopen : Clean q [0x5b] 0 := clean_of_syntax hq (by decide)
    have hclose : Clean q [0x5d] 0 := clean_of_syntax hq (by decide)
    simpa [dumps, occ] using (hopen.append (dumpsElements_clean hq true xs)).append hclose
  | .obj fields => by
    have hopen : Clean q [0x7b] 0 := clean_of_syntax hq (by decide)
    have hclose : Clean q [0x7d] 0 := clean_of_syntax hq (by decide)
    simpa [dumps, occ] using (hopen.append (dumpsMembers_clean hq true fields)).append hclose

theorem dumpsElements_clean (hq : Quiet q) (first : Bool) :
    ∀ xs : List Json, Clean q (dumpsElements codec first xs) (occList q xs)
  | [] => ⟨rfl, rfl⟩
  | x :: xs => by
    have hsep : Clean q (if first then [] else Py.str ", ") 0 := by
      cases first <;> exact clean_of_syntax hq (by decide)
    simpa [dumpsElements, occList] using
      hsep.append ((dumps_clean hq x).append (dumpsElements_clean hq false xs))

theorem dumpsMembers_clean (hq : Quiet q) (first : Bool) :
    ∀ fields : List (Str × Json), Clean q (dumpsMembers codec first fields) (occFields q fields)
  | [] => ⟨rfl, rfl⟩
  | (key, x) :: fields => by
    have hsep : Clean q (if first then [] else Py.str ", ") 0 := by
      cases first <;> exact clean_of_syntax hq (by decide)
    have hcolon : Clean q (Py.str ": ") 0 := clean_of_syntax hq (by decide)
    have hall := hsep.append ((clean_quote hq key).append (hcolon.append
      ((dumps_clean hq x).append (dumpsMembers_clean hq false fields))))
    simpa [dumpsMembers, occFields, Nat.add_assoc] using hall

end

/-! ## 6. A value with other text around it -/

theorem foldl_fail (e : Exc) (text : Str) : text.foldl (step codec) (.fail e) = .fail e := by
  induction text with
  | nil => rfl
  | cons c text ih => exact ih

/-- Behind a value nothing but white space may follow. -/
theorem foldl_done (v : Json) (text : Str) :
    text.foldl (step codec) (.done v) =
      if text.all isWs then .done v else .fail .jsonDecodeError := by
  induction text with
  | nil => rfl
  | cons c text ih =>
    rw [List.foldl_cons, List.all_cons]
    cases hc : isWs c with
    | true => simpa [step, afterValue, hc] using ih
    | false => simpa [step, afterValue, hc] using @foldl_fail codec .jsonDecodeError text

theorem complete_ne_number (stack stack' : List Frame) (v : Json) (token : Str) :
    complete stack v ≠ .run stack' (.number token) := by
  cases stack with
  | nil => simp [complete]
  | cons frame stack => cases frame <;> simp [complete]

/-- A closing brace is no part of a number. -/
theorem step_brace_ne_number (s : State) (stack : List Frame) (token : Str) :
    step codec s 0x7d ≠ .run stack (.number token) := by
  have hbegin : ∀ st, beginValue codec st 0x7d = .fail .jsonDecodeError := fun _ => rfl
  have hafter : ∀ s', afterValue s' 0x7d ≠ .run stack (.number token) := by
    intro s'
    unfold afterValue
    split
    · simp [isWs]
    · simp [isWs]
    · simpa [isWs] using complete_ne_number _ _ _ _
    · simp
    · simp
  match s with
  | .fail x => exact hafter (.fail x)
  | .done v => exact hafter (.done v)
  | .run st (.afterElement xs) => exact hafter (.run st (.afterElement xs))
  | .run st (.afterMember fields) => exact hafter (.run st (.afterMember fields))
  | .run st .value => simp [step, isWs, hbegin]
  | .run st .element => simp [step, isWs, hbegin]
  | .run st (.member fields first) =>
    cases first with
    | false => simp [step, isWs]
    | true => simpa [step, isWs] using complete_ne_number _ _ _ _
  | .run st (.key fields t) =>
    simp only [step]
    split <;> simp
  | .run st (.colon fields key) => simp [step, isWs]
  | .run st (.str t) =>
    simp only [step]
    split
    · simp
    · exact complete_ne_number _ _ _ _
    · simp
  | .run st (.number tok) =>
    have hnot : ¬ isNumberChar 0x7d = true := by decide
    have hneg : ¬ (tok = [0x2d] ∧ (0x7d : Nat) = 0x49) := by simp
    simp only [step, if_neg hnot, if_neg hneg]
    cases readNumber codec tok with
    | error e => simp
    | ok v => exact hafter (complete st v)
  | .run st (.literal rest v) =>
    simp only [step]
    split
    · simp
    · split
      · simp
      · split
        · exact complete_ne_number _ _ _ _
        · simp

/-- A text that ends with a brace is read as a value by its last character. -/
theorem foldl_of_loads {s : Str} {v : Json} (h : loads codec (s ++ [0x7d]) = .ok v) :
    (s ++ [0x7d]).foldl (step codec) (.run [] .value) = .done v := by
  unfold loads at h
  split at h
  · cases h
  · rw [List.foldl_append, List.foldl_cons, List.foldl_nil] at h ⊢
    generalize hs : step codec (s.foldl (step codec) (.run [] .value)) 0x7d = s' at h
    unfold finish at h
    split at h
    · rw [Except.ok.inj h]
    · cases h
    · exact absurd hs (step_brace_ne_number _ _ _)
    · cases h

/-- A text begins with an integer that has too many digits. -/
def overlongInt (text : Str) : Bool :=
  let token := text.takeWhile isNumberChar
  let s := if token.head? == some 0x2d then token.tail else token
  let whole := wholePart s
  decide (maxStrDigits < whole.length) && fraction (s.drop whole.length) == [] &&
    exponent (s.drop whole.length) == []

theorem convert_eq_error_iff (codec : Codec) (negative : Bool) (whole frac exp : Str) :
    convert codec negative whole frac exp = .error .valueError ↔
      maxStrDigits < whole.length ∧ frac = [] ∧ exp = [] := by
  unfold convert ofDigits
  by_cases hint : frac = [] ∧ exp = []
  · rw [if_pos hint, List.length_map]
    by_cases hlen : whole.length ≤ maxStrDigits
    · rw [if_pos hlen]
      simp [Except.map, Nat.not_lt.mpr hlen]
    · rw [if_neg hlen]
      simp [Except.map, Nat.lt_of_not_le hlen, hint]
  · rw [if_neg hint]
    simp only [reduceCtorEq, false_iff]
    exact fun h => hint h.2

theorem readNumber_eq_valueError_iff (codec : Codec) (text : Str) :
    readNumber codec (text.takeWhile isNumberChar) = .error .valueError ↔
      overlongInt text = true := by
  simp only [overlongInt, readNumber]
  generalize text.takeWhile isNumberChar = token
  generalize (token.head? == some 0x2d) = negative
  generalize (if negative = true then token.tail else token) = s
  by_cases hw : wholePart s = []
  · simp [hw]
  · rw [if_neg hw]
    have hparts := convert_eq_error_iff codec negative (wholePart s)
      (fraction (s.drop (wholePart s).length))
      (exponent (s.drop (wholePart s ++ fraction (s.drop (wholePart s).length)).length))
    -- without a fraction, the exponent begins where the integer ends
    have hexp : fraction (s.drop (wholePart s).length) = [] →
        exponent (s.drop (wholePart s ++ fraction (s.drop (wholePart s).length)).length) =
          exponent (s.drop (wholePart s).length) := by
      intro h
      rw [h, List.append_nil]
    simp only [Bool.and_eq_true, decide_eq_true_eq, beq_iff_eq]
    constructor
    · intro h
      cases hv : convert codec negative (wholePart s) (fraction (s.drop (wholePart s).length))
        (exponent (s.drop (wholePart s ++ fraction (s.drop (wholePart s).length)).length)) with
      | error e =>
        simp only [hv, Except.error.injEq] at h
        subst h
        obtain ⟨h1, h2, h3⟩ := hparts.mp hv
        exact ⟨⟨h1, h2⟩, hexp h2 ▸ h3⟩
      | ok v =>
        simp only [hv] at h
        split at h <;> cases h
    · rintro ⟨⟨h1, h2⟩, h3⟩
      rw [hparts.mpr ⟨h1, h2, (hexp h2).trans h3⟩]

/-- A long run of ones is an integer that has too many digits. -/
theorem overlongInt_replicate {n : Nat} (hn : maxStrDigits < n) :
    overlongInt (List.replicate n 0x31) = true := by
  obtain ⟨m, rfl⟩ : ∃ m, n = m + 1 := ⟨n - 1, by omega⟩
  have htoken : (List.replicate (m + 1) 0x31).takeWhile isNumberChar = List.replicate (m + 1) 0x31 :=
    List.takeWhile_eq_self_iff.mpr fun c hc => by rw [List.eq_of_mem_replicate hc]; rfl
  have hwhole : wholePart (List.replicate (m + 1) 0x31) = List.replicate (m + 1) 0x31 := by
    rw [List.replicate_succ, wholePart]
    · exact List.takeWhile_eq_self_iff.mpr fun c hc => by
        rw [List.eq_of_mem_replicate (n := m + 1) hc]
        rfl
    · intro s hs
      exact absurd (List.cons.inj hs).1 (by decide)
  simp only [overlongInt, htoken]
  rw [if_neg (by simp [List.replicate_succ]), hwhole]
  simp [hn, fraction, exponent]

/-- What reading a text raises that begins with no container and no string, but holds a brace. -/
def prefixError (text : Str) : Exc := if overlongInt text then .valueError else .jsonDecodeError

theorem prefixError_eq (codec : Codec) (text : Str) :
    (match readNumber codec (text.takeWhile isNumberChar) with
      | .error e => e
      | .ok _ => .jsonDecodeError) = prefixError text := by
  have hlong := readNumber_eq_valueError_iff codec text
  unfold prefixError
  obtain ⟨n, h⟩ | ⟨x, h⟩ | h | h := readNumber_cases codec (text.takeWhile isNumberChar) <;>
    rw [h] at hlong ⊢ <;> simp at hlong <;> simp [hlong]

/-- Only a digit or a minus sign begins a number. -/
theorem prefixError_of_not_number {c : Nat} (p : Str) (hminus : c ≠ 0x2d)
    (hdigit : isDigit c = false) : prefixError (c :: p) = .jsonDecodeError := by
  have hzero : c ≠ 0x30 := by
    rintro rfl
    exact absurd hdigit (by decide)
  have hlong : overlongInt (c :: p) = false := by
    cases hnum : isNumberChar c with
    | false => simp [overlongInt, hnum, wholePart]
    | true => simp [overlongInt, hnum, hminus, wholePart, hzero, hdigit]
  simp [prefixError, hlong]

/-- The rest of a constant is never a brace. -/
theorem foldl_literal (v : Json) (t : Str) : ∀ (p rest : Str), rest ≠ [] → 0x7b ∉ rest →
    (p ++ 0x7b :: t).foldl (step codec) (.run [] (.literal rest v)) =
      .fail .jsonDecodeError := by
  intro p
  induction p with
  | nil =>
    intro rest hne hrest
    cases rest with
    | nil => exact absurd rfl hne
    | cons c' rest =>
      rw [List.mem_cons, not_or] at hrest
      rw [List.nil_append, List.foldl_cons]
      simp only [step, if_pos hrest.1]
      exact foldl_fail _ _
  | cons c p ih =>
    intro rest hne hrest
    cases rest with
    | nil => exact absurd rfl hne
    | cons c' rest =>
      rw [List.mem_cons, not_or] at hrest
      rw [List.cons_append, List.foldl_cons]
      simp only [step]
      split
      · exact foldl_fail _ _
      · split
        · rw [complete, foldl_done, if_neg (by simp [isWs])]
        · exact ih rest (by assumption) hrest.2

/-- A number in front of a brace. -/
theorem foldl_number (t : Str) : ∀ (p token : Str),
    (p ++ 0x7b :: t).foldl (step codec) (.run [] (.number token)) =
      .fail (match readNumber codec (token ++ p.takeWhile isNumberChar) with
        | .error e => e
        | .ok _ => .jsonDecodeError) := by
  -- the number ends in front of `c`
  have hend : ∀ (token text : Str) (c : Nat), isNumberChar c = false →
      ¬ (token = [0x2d] ∧ c = 0x49) → (c :: text).all isWs = false →
      (c :: text).foldl (step codec) (.run [] (.number token)) =
        .fail (match readNumber codec token with
          | .error e => e
          | .ok _ => .jsonDecodeError) := by
    intro token text c hnum hinf hws
    rw [List.foldl_cons]
    simp only [step, hnum, Bool.false_eq_true, if_false, if_neg hinf]
    cases readNumber codec token with
    | error e => exact foldl_fail _ _
    | ok v =>
      have hdone := @foldl_done codec v (c :: text)
      rw [if_neg (by simp [hws]), List.foldl_cons] at hdone
      exact hdone
  have hbrace : ∀ p : Str, (p ++ 0x7b :: t).all isWs = false := by
    intro p
    simp [isWs]
  intro p
  induction p with
  | nil =>
    intro token
    simpa using hend token t 0x7b (by decide) (by simp) (hbrace [])
  | cons c p ih =>
    intro token
    cases hnum : isNumberChar c with
    | true =>
      rw [List.cons_append, List.foldl_cons, List.takeWhile_cons_of_pos hnum]
      simp only [step, hnum, if_true]
      rw [ih, List.append_assoc, List.singleton_append]
    | false =>
      rw [List.takeWhile_cons_of_neg (by simp [hnum]), List.append_nil, List.cons_append]
      by_cases hinf : token = [0x2d] ∧ c = 0x49
      · obtain ⟨rfl, rfl⟩ := hinf
        rw [List.foldl_cons]
        exact foldl_literal _ t p (Py.str "nfinity") (by decide) (by decide)
      · exact hend token _ c hnum hinf (hbrace (c :: p))

/-- **No object in front of one.**  A text that begins with no white space, no container and no
string, and that goes on with a brace, is not read: it is no JSON, unless it begins with an integer
that has too many digits. -/
theorem loads_prefix {c : Nat} (p t : Str) (hws : isWs c = false)
    (hopen : c ≠ 0x22 ∧ c ≠ 0x5b ∧ c ≠ 0x7b) :
    loads codec (c :: p ++ 0x7b :: t) = .error (prefixError (c :: p)) := by
  have hfold : (p ++ 0x7b :: t).foldl (step codec) (beginValue codec [] c) =
      .fail (prefixError (c :: p)) := by
    obtain ⟨h22, h5b, h7b⟩ := hopen
    by_cases hnum : c = 0x2d ∨ isDigit c = true
    · have hrange : c = 0x2d ∨ 0x30 ≤ c ∧ c ≤ 0x39 := by simpa [isDigit] using hnum
      have hchar : isNumberChar c = true := by
        rcases hnum with rfl | hd
        · decide
        · simp [isNumberChar, hd]
      have hbegin : beginValue codec [] c = .run [] (.number [c]) := by
        unfold beginValue
        rw [if_neg h22, if_neg h7b, if_neg h5b, if_neg (by omega), if_neg (by omega),
          if_neg (by omega), if_neg (by omega), if_neg (by omega), if_pos hnum]
      rw [hbegin, foldl_number, ← prefixError_eq codec, List.takeWhile_cons_of_pos hchar]
      rfl
    · have hnot := not_or.mp hnum
      rw [prefixError_of_not_number p hnot.1 (by simpa using hnot.2)]
      unfold beginValue
      rw [if_neg h22, if_neg h7b, if_neg h5b, if_neg hnum]
      repeat' split
      all_goals first
        | exact foldl_literal _ t p _ (by decide) (by decide)
        | exact foldl_fail _ _
  unfold loads
  rw [List.cons_append, List.foldl_cons]
  split
  · rename_i hbom
    obtain rfl := Option.some.inj hbom
    rw [prefixError_of_not_number p (by decide) (by decide)]
  · simp only [step, hws, Bool.false_eq_true, if_false, hfold]
    rfl

/-- An integer that has too many digits raises a plain `ValueError`. -/
theorem loads_long (codec : Codec) {n : Nat} (hn : maxStrDigits < n) :
    loads codec (List.replicate n 0x31) = .error .valueError := by
  obtain ⟨m, rfl⟩ : ∃ m, n = m + 1 := ⟨n - 1, by omega⟩
  have hchars : ∀ (k : Nat) (token : Str),
      (List.replicate k 0x31).foldl (step codec) (.run [] (.number token)) =
        .run [] (.number (token ++ List.replicate k 0x31)) := by
    intro k
    induction k with
    | zero => intro token; simp
    | succ k ih =>
      intro token
      have hstep : step codec (.run [] (.number token)) 0x31 = .run [] (.number (token ++ [0x31])) :=
        rfl
      rw [List.replicate_succ, List.foldl_cons, hstep, ih]
      simp
  have hnumber := (readNumber_eq_valueError_iff codec _).mpr (overlongInt_replicate hn)
  rw [List.takeWhile_eq_self_iff.mpr fun c hc => by rw [List.eq_of_mem_replicate hc]; rfl] at hnumber
  have hfirst : step codec (.run [] .value) 0x31 = .run [] (.number [0x31]) := rfl
  unfold loads
  rw [if_neg (by simp [List.replicate_succ]), List.replicate_succ, List.foldl_cons, hfirst, hchars]
  rw [List.replicate_succ] at hnumber
  simp only [finish, List.singleton_append, hnumber]
  rfl

/-- What follows a value that ends with a brace is white space, or an error. -/
theorem loads_append {s : Str} {v : Json} (h : loads codec (s ++ [0x7d]) = .ok v) (t : Str) :
    loads codec (s ++ [0x7d] ++ t) = if t.all isWs then .ok v else .error .jsonDecodeError := by
  have hdone := foldl_of_loads h
  have hhead : (s ++ [0x7d] ++ t).head? = (s ++ [0x7d]).head? := by
    cases s <;> simp
  unfold loads at h ⊢
  split at h
  · cases h
  · rename_i hbom
    rw [hhead, if_neg hbom, List.foldl_append, hdone, foldl_done]
    split <;> rfl

end Py.Json
