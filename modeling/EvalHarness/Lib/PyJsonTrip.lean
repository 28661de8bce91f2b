/-
# `json.loads` reads back what `json.dumps` wrote

The reader of `PyJson.lean` takes one code point at a time and does not know where a value ends, and a
number ends only where something else begins.  So what the text of a value does to it is stated with
`Reads`: the reader is through with the value, or has a number in hand that denotes it; any separator
settles the matter (`step_of_reads`).  `foldl_dumps` goes over the value with that, and `loads_dumps` is
the round trip.

`Faithful` is what it needs of a value: no surrogates, no key twice, no integer with too many digits,
floats that the interpreter prints as it reads them.
-/
import EvalHarness.Lib.PyJson
import Mathlib.Data.Nat.Digits.Lemmas

namespace Py.Json

variable {codec : Codec}

/-! ## 1. What is read back -/

/-- A code point that is no surrogate. -/
def isScalar (c : Nat) : Bool := c < 0xd800 || (0xdfff < c && c < 0x110000)

mutual

/-- A value whose text stands for it. -/
def Faithful (codec : Codec) : Json → Prop
  | .null | .bool _ => True
  | .int n => (Nat.digits 10 n.natAbs).length ≤ maxStrDigits
  | .float (.num x) => readNumber codec (codec.showFloat x) = .ok (.float (.num x))
  | .float _ => True
  | .str s => ∀ c ∈ s, isScalar c = true
  | .arr xs => FaithfulElements codec xs
  | .obj fields => (fields.map Prod.fst).Nodup ∧ FaithfulMembers codec fields

def FaithfulElements (codec : Codec) : List Json → Prop
  | [] => True
  | x :: xs => Faithful codec x ∧ FaithfulElements codec xs

def FaithfulMembers (codec : Codec) : List (Str × Json) → Prop
  | [] => True
  | (key, x) :: fields =>
    (∀ c ∈ key, isScalar c = true) ∧ Faithful codec x ∧ FaithfulMembers codec fields

end

mutual

/-- How many containers are open inside each other at the deepest place of a value. -/
def nesting : Json → Nat
  | .arr xs => nestingElements xs + 1
  | .obj fields => nestingMembers fields + 1
  | _ => 0

def nestingElements : List Json → Nat
  | [] => 0
  | x :: xs => max (nesting x) (nestingElements xs)

def nestingMembers : List (Str × Json) → Nat
  | [] => 0
  | (_, x) :: fields => max (nesting x) (nestingMembers fields)

end

/-! ## 2. Strings -/

/-- Characters that do not close the string. -/
def Chars.feed (t : Chars) (s : Str) : Option Chars :=
  s.foldlM (fun t c =>
    match t.step c with
    | .ok (some t') => some t'
    | .ok none => none
    | .error _ => none) t

theorem Chars.feed_append (t : Chars) (s s' : Str) :
    t.feed (s ++ s') = (t.feed s).bind fun t' => t'.feed s' := by
  rw [feed, List.foldlM_append]
  rfl

/-- A unit that is half of a pair or stands for itself. -/
theorem feed_unitEscape (acc : Str) (high : Bool) {x : Nat} (hx : x < 0x10000) :
    ({ acc, high } : Chars).feed (unitEscape x) =
      some (({ acc, high } : Chars).addUnit x) := by
  obtain ⟨h1, -⟩ := hexValue_hexDigit (n := x / 4096 % 16) (by omega)
  obtain ⟨h2, -⟩ := hexValue_hexDigit (n := x / 256 % 16) (by omega)
  obtain ⟨h3, -⟩ := hexValue_hexDigit (n := x / 16 % 16) (by omega)
  obtain ⟨h4, -⟩ := hexValue_hexDigit (n := x % 16) (by omega)
  have hval : 16 * (16 * (16 * (x / 4096 % 16) + x / 256 % 16) + x / 16 % 16) + x % 16 = x := by
    omega
  simp [unitEscape, Chars.feed, Chars.step, h1, h2, h3, h4, hval, Chars.addUnit]

/-- A pair of surrogates denotes one code point. -/
theorem feed_pair (acc : Str) {hi lo : Nat} (hhigh : isHigh hi = true) (hlow : isLow lo = true) :
    ({ acc } : Chars).feed (unitEscape hi ++ unitEscape lo) =
      some { acc := acc ++ [0x10000 + (hi - 0xd800) * 0x400 + (lo - 0xdc00)] } := by
  have hhi : hi < 0x10000 := by
    simp only [isHigh, Bool.and_eq_true, decide_eq_true_eq] at hhigh
    omega
  have hlo : lo < 0x10000 := by
    simp only [isLow, Bool.and_eq_true, decide_eq_true_eq] at hlow
    omega
  have hfirst : ({ acc } : Chars).addUnit hi = { acc := acc ++ [hi], high := true } := by
    simp [Chars.addUnit, hhigh]
  rw [Chars.feed_append, feed_unitEscape acc false hhi, Option.bind_some, hfirst,
    feed_unitEscape _ true hlo]
  simp only [Chars.addUnit, hlow, Bool.and_self, if_true, List.dropLast_concat, List.getLastD_concat]

theorem feed_short (acc : Str) {c x : Nat} (hx : x ≠ 0x75) (hesc : escaped x = some c) :
    ({ acc } : Chars).feed [0x5c, x] = some { acc := acc ++ [c] } := by
  simp [Chars.feed, Chars.step, hx, hesc]

/-- A scalar is read from its escape. -/
theorem feed_escape (acc : Str) {c : Nat} (hc : isScalar c = true) :
    ({ acc } : Chars).feed (escape c) = some { acc := acc ++ [c] } := by
  have hrange : c < 0xd800 ∨ 0xdfff < c ∧ c < 0x110000 := by simpa [isScalar] using hc
  unfold escape
  split
  · rename_i h
    subst h
    exact feed_short acc (by decide) (by decide)
  split
  · rename_i h
    subst h
    exact feed_short acc (by decide) (by decide)
  split
  · rename_i h
    subst h
    exact feed_short acc (by decide) (by decide)
  split
  · rename_i h
    subst h
    exact feed_short acc (by decide) (by decide)
  split
  · rename_i h
    subst h
    exact feed_short acc (by decide) (by decide)
  split
  · rename_i h
    subst h
    exact feed_short acc (by decide) (by decide)
  split
  · rename_i h
    subst h
    exact feed_short acc (by decide) (by decide)
  split
  · rename_i h22 h5c _ _ _ _ _ h
    simp [Chars.feed, Chars.step, h22, h5c, show ¬ c < 0x20 by omega]
  split
  · rename_i h
    rw [feed_unitEscape acc false h]
    have hhigh : isHigh c = false := by
      simp [isHigh]
      omega
    simp [Chars.addUnit, hhigh]
  · -- the two halves of a pair
    have hhigh : isHigh (0xd800 + (c - 0x10000) / 0x400 % 0x400) = true := by
      simp [isHigh]
      omega
    have hlow : isLow (0xdc00 + (c - 0x10000) % 0x400) = true := by
      simp [isLow]
      omega
    have hval : 0x10000 + (0xd800 + (c - 0x10000) / 0x400 % 0x400 - 0xd800) * 0x400 +
        (0xdc00 + (c - 0x10000) % 0x400 - 0xdc00) = c := by omega
    rw [feed_pair acc hhigh hlow, hval]

theorem feed_escapes {s : Str} (hs : ∀ c ∈ s, isScalar c = true) :
    ∀ acc, ({ acc } : Chars).feed (s.flatMap escape) = some { acc := acc ++ s } := by
  induction s with
  | nil => exact fun acc => by simp [Chars.feed]
  | cons c s ih =>
    intro acc
    rw [List.flatMap_cons, Chars.feed_append, feed_escape acc (hs c List.mem_cons_self),
      Option.bind_some, ih fun c' hc' => hs c' (List.mem_cons_of_mem _ hc')]
    simp

/-- The reader goes through characters as the string does that it is in. -/
theorem foldl_feed {stack : List Frame} {mode : Chars → Mode}
    (hmode : ∀ t c t', t.step c = .ok (some t') →
      step codec (.run stack (mode t)) c = .run stack (mode t')) :
    ∀ {s : Str} {t t' : Chars}, t.feed s = some t' →
      s.foldl (step codec) (.run stack (mode t)) = .run stack (mode t') := by
  intro s
  induction s with
  | nil =>
    intro t t' h
    obtain rfl := Option.some.inj h
    rfl
  | cons c s ih =>
    intro t t' h
    rw [Chars.feed, List.foldlM_cons] at h
    obtain ⟨t₁, hstep, h⟩ := Option.bind_eq_some_iff.mp h
    have hone : t.step c = .ok (some t₁) := by
      split at hstep
      · rename_i t₂ ht
        rw [ht, Option.some.inj hstep]
      · exact absurd hstep (by simp)
      · exact absurd hstep (by simp)
    rw [List.foldl_cons, hmode t c t₁ hone]
    exact ih h

/-- A string that is read in a mode ends with its closing mark. -/
theorem foldl_quote (stack : List Frame) (mode : Chars → Mode) {before after : State} {s : Str}
    (hs : ∀ c ∈ s, isScalar c = true) (hopen : step codec before 0x22 = .run stack (mode {}))
    (hmode : ∀ t c t', t.step c = .ok (some t') →
      step codec (.run stack (mode t)) c = .run stack (mode t'))
    (hclose : step codec (.run stack (mode { acc := s })) 0x22 = after) :
    (quote s).foldl (step codec) before = after := by
  rw [quote, List.foldl_cons, List.foldl_append, hopen, foldl_feed hmode (feed_escapes hs [])]
  exact hclose

theorem foldl_quote_value (stack : List Frame) {s : Str} (hs : ∀ c ∈ s, isScalar c = true) :
    (quote s).foldl (step codec) (.run stack .value) = complete stack (.str s) := by
  refine foldl_quote stack Mode.str hs rfl (fun t c t' h => ?_) ?_
  · simp [step, h]
  · rfl

theorem foldl_quote_key (stack : List Frame) (fields : List (Str × Json)) (first : Bool) {s : Str}
    (hs : ∀ c ∈ s, isScalar c = true) :
    (quote s).foldl (step codec) (.run stack (.member fields first)) =
      .run stack (.colon fields s) := by
  refine foldl_quote stack (Mode.key fields) hs rfl (fun t c t' h => ?_) ?_
  · simp [step, h]
  · rfl

/-! ## 3. Numbers -/

theorem foldl_numberChars (stack : List Frame) : ∀ (s token : Str),
    (∀ c ∈ s, isNumberChar c = true) →
    s.foldl (step codec) (.run stack (.number token)) = .run stack (.number (token ++ s)) := by
  intro s
  induction s with
  | nil => intro token _; simp
  | cons c s ih =>
    intro token hs
    have hc := hs c List.mem_cons_self
    have hstep : step codec (.run stack (.number token)) c = .run stack (.number (token ++ [c])) := by
      simp [step, hc]
    rw [List.foldl_cons, hstep, ih _ fun c' hc' => hs c' (List.mem_cons_of_mem _ hc')]
    simp

/-- The text of a number begins with a sign or a digit. -/
theorem head_of_readNumber {token : Str} {v : Json} (h : readNumber codec token = .ok v) :
    ∃ c s, token = c :: s ∧ (c = 0x2d ∨ isDigit c = true) := by
  cases token with
  | nil => exact absurd h (by simp [readNumber, wholePart])
  | cons c s =>
    refine ⟨c, s, rfl, ?_⟩
    by_contra hno
    obtain ⟨hsign, hdigit⟩ := not_or.mp hno
    have hwhole : wholePart (c :: s) = [] := by
      unfold wholePart
      split
      · rename_i heq
        obtain ⟨rfl, -⟩ := List.cons.inj heq
        exact absurd (by decide) hdigit
      · rw [List.takeWhile_cons_of_neg hdigit]
    have hneg : ((c :: s).head? == some 0x2d) = false := by simpa using hsign
    simp only [readNumber, hneg, Bool.false_eq_true, if_false, hwhole, if_true] at h
    exact absurd h (by simp)

/-- A run of number characters that denotes a value is in hand when it has been gone through. -/
theorem foldl_number_of_readNumber (stack : List Frame) {token : Str} {v : Json}
    (h : readNumber codec token = .ok v) (hchars : ∀ c ∈ token, isNumberChar c = true) :
    token.foldl (step codec) (.run stack .value) = .run stack (.number token) := by
  obtain ⟨c, s, rfl, hc⟩ := head_of_readNumber h
  have hrange : c = 0x2d ∨ 0x30 ≤ c ∧ c ≤ 0x39 := by simpa [isDigit] using hc
  have hws : isWs c = false := by
    simp only [isWs, Bool.or_eq_false_iff, beq_eq_false_iff_ne]
    omega
  have hbegin : step codec (.run stack .value) c = .run stack (.number [c]) := by
    simp only [step, hws, Bool.false_eq_true, if_false, beginValue]
    rw [if_neg (by omega), if_neg (by omega), if_neg (by omega), if_neg (by omega),
      if_neg (by omega), if_neg (by omega), if_neg (by omega), if_neg (by omega), if_pos hc]
  rw [List.foldl_cons, hbegin, foldl_numberChars stack s [c] fun c' hc' =>
    hchars c' (List.mem_cons_of_mem _ hc')]
  rfl

theorem isDigit_of_mem_digits {m d : Nat} (h : d ∈ Nat.digits 10 m) : isDigit (0x30 + d) = true := by
  have := Nat.digits_lt_base (by decide) h
  simp [isDigit]
  omega

/-- The digits of a positive number, as they stand in a text, are its integer part. -/
theorem wholePart_digits {m : Nat} (hm : m ≠ 0) :
    wholePart ((Nat.digits 10 m).reverse.map (0x30 + ·)) =
      (Nat.digits 10 m).reverse.map (0x30 + ·) := by
  have hall : ∀ c ∈ (Nat.digits 10 m).reverse.map (0x30 + ·), isDigit c = true := by
    intro c hc
    obtain ⟨d, hd, rfl⟩ := List.mem_map.mp hc
    exact isDigit_of_mem_digits (List.mem_reverse.mp hd)
  have htake := List.takeWhile_eq_self_iff.mpr hall
  have hne : Nat.digits 10 m ≠ [] := Nat.digits_ne_nil_iff_ne_zero.mpr hm
  -- the first of them is no zero
  have hhead : ((Nat.digits 10 m).reverse.map (0x30 + ·)).head? ≠ some 0x30 := by
    have hlast := Nat.getLast_digit_ne_zero 10 hm
    rw [List.head?_map, List.head?_reverse, List.getLast?_eq_some_getLast hne]
    intro h
    have : 0x30 + (Nat.digits 10 m).getLast hne = 0x30 := Option.some.inj h
    omega
  unfold wholePart
  split
  · rename_i heq
    rw [heq] at hhead
    exact absurd rfl hhead
  · exact htake

theorem ofDigits_digits {m : Nat} (hm : (Nat.digits 10 m).length ≤ maxStrDigits) :
    ofDigits (((Nat.digits 10 m).reverse.map (0x30 + ·)).map (· - 0x30)) = .ok (m : Int) := by
  have hval : (Nat.digits 10 m).reverse.foldl (fun n d => 10 * n + d) 0 = m := by
    rw [List.foldl_reverse]
    conv_rhs => rw [← Nat.ofDigits_digits 10 m, Nat.ofDigits_eq_foldr]
    simp only [Nat.cast_id]
    exact congrArg (fun f => List.foldr f 0 (Nat.digits 10 m)) (by funext d n; omega)
  have hmap : ((Nat.digits 10 m).reverse.map (0x30 + ·)).map (· - 0x30) =
      (Nat.digits 10 m).reverse := by
    rw [List.map_map]
    conv_rhs => rw [← List.map_id (Nat.digits 10 m).reverse]
    exact List.map_congr_left fun d _ => by simp
  rw [hmap, Py.ofDigits, if_pos (by simpa using hm), hval]

/-- `int.__repr__` is read as the integer. -/
theorem readNumber_showInt {n : Int} (hn : (Nat.digits 10 n.natAbs).length ≤ maxStrDigits) :
    readNumber codec (showInt n) = .ok (.int n) := by
  by_cases hzero : n = 0
  · subst hzero
    rfl
  have hm : n.natAbs ≠ 0 := by omega
  have hwhole := wholePart_digits hm
  have hdigits := ofDigits_digits hn
  generalize hD : (Nat.digits 10 n.natAbs).reverse.map (0x30 + ·) = D at hwhole hdigits
  have hne : D ≠ [] := by
    rw [← hD]
    simpa [Nat.digits_ne_nil_iff_ne_zero] using hzero
  have hconv : ∀ negative, convert codec negative D [] [] =
      .ok (.int (if negative then -(n.natAbs : Int) else n.natAbs)) := by
    intro negative
    rw [convert, if_pos ⟨rfl, rfl⟩, hdigits]
    rfl
  have hshow : showInt n = (if n < 0 then [0x2d] else []) ++ D := by
    rw [showInt, if_neg hzero, hD]
  have hhead : (D.head? == some 0x2d) = false := by
    rw [← hD, List.head?_map]
    cases (Nat.digits 10 n.natAbs).reverse.head? with
    | none => rfl
    | some d =>
      refine beq_eq_false_iff_ne.mpr fun h => ?_
      have : 0x30 + d = 0x2d := Option.some.inj h
      omega
  by_cases hneg : n < 0
  · rw [hshow, if_pos hneg]
    simp only [readNumber, List.singleton_append, List.head?_cons, beq_self_eq_true, if_true,
      List.tail_cons, hwhole, List.drop_length, List.append_nil, fraction, exponent, if_neg hne, hconv]
    rw [if_pos le_rfl, show -(n.natAbs : Int) = n by omega]
  · rw [hshow, if_neg hneg, List.nil_append]
    simp only [readNumber, hhead, Bool.false_eq_true, if_false, hwhole, List.drop_length,
      List.append_nil, fraction, exponent, if_neg hne, hconv]
    rw [if_pos le_rfl, show (n.natAbs : Int) = n by omega]

theorem isNumberChar_of_mem_showInt {n : Int} {c : Nat} (hc : c ∈ showInt n) :
    isNumberChar c = true := by
  unfold showInt at hc
  rcases List.mem_append.mp hc with hc | hc
  · split at hc
    · obtain rfl := List.mem_singleton.mp hc
      decide
    · cases hc
  · split at hc
    · obtain rfl := List.mem_singleton.mp hc
      decide
    · obtain ⟨d, hd, rfl⟩ := List.mem_map.mp hc
      simp [isNumberChar, isDigit_of_mem_digits (List.mem_reverse.mp hd)]

/-! ## 4. Values -/

/-- The reader has come to the end of a value, as far as it can know. -/
inductive Reads (codec : Codec) (stack : List Frame) (v : Json) : State → Prop
  | done : Reads codec stack v (complete stack v)
  | number {token} (h : readNumber codec token = .ok v) :
      Reads codec stack v (.run stack (.number token))

theorem step_complete (stack : List Frame) (v : Json) (c : Nat) :
    step codec (complete stack v) c = afterValue (complete stack v) c := by
  cases stack with
  | nil => rfl
  | cons frame stack => cases frame <;> rfl

/-- A separator ends a value. -/
theorem step_of_reads {stack : List Frame} {v : Json} {s : State} (h : Reads codec stack v s)
    {c : Nat} (hc : c = 0x2c ∨ c = 0x5d ∨ c = 0x7d) :
    step codec s c = afterValue (complete stack v) c := by
  cases h with
  | done => exact step_complete stack v c
  | number h =>
    have hnum : isNumberChar c = false := by
      rcases hc with rfl | rfl | rfl <;> decide
    simp only [step, hnum, Bool.false_eq_true, if_false, h]
    rw [if_neg fun hinf => by omega]

/-- Reading a literal. -/
theorem foldl_literal_done (codec : Codec) (stack : List Frame) (v : Json) : ∀ rest : Str, rest ≠ [] →
    rest.foldl (step codec) (.run stack (.literal rest v)) = complete stack v := by
  intro rest
  induction rest with
  | nil => exact fun h => absurd rfl h
  | cons c rest ih =>
    intro _
    cases rest with
    | nil => simp [step]
    | cons c' rest =>
      rw [List.foldl_cons]
      have hstep : step codec (.run stack (.literal (c :: c' :: rest) v)) c =
          .run stack (.literal (c' :: rest) v) := by simp [step]
      rw [hstep]
      exact ih (by simp)

theorem setField_of_notMem {key : Str} (v : Json) : ∀ {fields : List (Str × Json)},
    key ∉ fields.map Prod.fst → setField key v fields = fields ++ [(key, v)] := by
  intro fields
  induction fields with
  | nil => exact fun _ => rfl
  | cons f fields ih =>
    intro h
    have hne : f.1 ≠ key := fun heq => h (by simp [heq])
    rw [setField, if_neg hne, ih fun hmem => h (by simp [hmem]), List.cons_append]

/-- The first character of a value's text. -/
theorem head_dumps {v : Json} (hv : Faithful codec v) :
    ∃ c s, dumps codec v = c :: s ∧ isWs c = false ∧ c ≠ 0x5d ∧ c ≠ 0xfeff := by
  have hnumber : ∀ {token : Str} {w : Json}, readNumber codec token = .ok w →
      ∃ c s, token = c :: s ∧ isWs c = false ∧ c ≠ 0x5d ∧ c ≠ 0xfeff := by
    intro token w h
    obtain ⟨c, s, rfl, hc⟩ := head_of_readNumber h
    have hrange : c = 0x2d ∨ 0x30 ≤ c ∧ c ≤ 0x39 := by simpa [isDigit] using hc
    refine ⟨c, s, rfl, ?_, by omega, by omega⟩
    simp only [isWs, Bool.or_eq_false_iff, beq_eq_false_iff_ne]
    omega
  cases v with
  | null => exact ⟨_, _, rfl, by decide⟩
  | bool b => cases b <;> exact ⟨_, _, rfl, by decide⟩
  | int n => exact hnumber (readNumber_showInt hv)
  | float x =>
    cases x with
    | num x => exact hnumber hv
    | inf negative => cases negative <;> exact ⟨_, _, rfl, by decide⟩
    | nan => exact ⟨_, _, rfl, by decide⟩
  | str s => exact ⟨_, _, rfl, by decide⟩
  | arr xs => exact ⟨_, _, rfl, by decide⟩
  | obj fields => exact ⟨_, _, rfl, by decide⟩

/-- The first element of a list is read as any value is. -/
theorem foldl_element (stack : List Frame) {v : Json} (hv : Faithful codec v) :
    (dumps codec v).foldl (step codec) (.run stack .element) =
      (dumps codec v).foldl (step codec) (.run (.arr [] :: stack) .value) := by
  obtain ⟨c, s, hdumps, hws, hclose, -⟩ := head_dumps hv
  rw [hdumps, List.foldl_cons, List.foldl_cons]
  simp [step, hws, hclose]

/-- Between two elements. -/
theorem foldl_separator {stack : List Frame} {done : List Json} {x : Json} {s : State}
    (h : Reads codec (.arr done :: stack) x s) :
    (Py.str ", ").foldl (step codec) s = .run (.arr (done ++ [x]) :: stack) .value := by
  have hcomma := step_of_reads h (c := 0x2c) (Or.inl rfl)
  rw [show Py.str ", " = [0x2c, 0x20] by decide, List.foldl_cons, hcomma]
  rfl

/-- From the end of one member to the value of the next. -/
theorem foldl_nextMember {stack : List Frame} {done : List (Str × Json)} {key key' : Str} {x : Json}
    {s : State} (h : Reads codec (.obj done key :: stack) x s)
    (hkey : ∀ c ∈ key', isScalar c = true) :
    (Py.str ", " ++ (quote key' ++ Py.str ": ")).foldl (step codec) s =
      .run (.obj (setField key x done) key' :: stack) .value := by
  have hcomma := step_of_reads h (c := 0x2c) (Or.inl rfl)
  have hmember : (Py.str ", ").foldl (step codec) s =
      .run stack (.member (setField key x done) false) := by
    rw [show Py.str ", " = [0x2c, 0x20] by decide, List.foldl_cons, hcomma]
    rfl
  rw [List.foldl_append, hmember, List.foldl_append, foldl_quote_key stack _ false hkey]
  rfl

mutual

/-- **Reading a value's text.**  From anywhere a value is due the reader goes through the text and is
through with the value. -/
theorem foldl_dumps : ∀ (v : Json) (stack : List Frame), Faithful codec v →
    stack.length + nesting v ≤ codec.depth →
    Reads codec stack v ((dumps codec v).foldl (step codec) (.run stack .value))
  | .null, stack, _, _ => by
    have h := foldl_literal_done codec stack .null (Py.str "ull") (by decide)
    exact h ▸ .done
  | .bool true, stack, _, _ => by
    have h := foldl_literal_done codec stack (.bool true) (Py.str "rue") (by decide)
    exact h ▸ .done
  | .bool false, stack, _, _ => by
    have h := foldl_literal_done codec stack (.bool false) (Py.str "alse") (by decide)
    exact h ▸ .done
  | .int n, stack, hv, _ => by
    have h : readNumber codec (showInt n) = .ok (.int n) := readNumber_showInt hv
    rw [dumps, foldl_number_of_readNumber stack h fun c => isNumberChar_of_mem_showInt]
    exact .number h
  | .float (.num x), stack, hv, _ => by
    have h : readNumber codec (codec.showFloat x) = .ok (.float (.num x)) := hv
    rw [dumps, showFloat, foldl_number_of_readNumber stack h (codec.showFloat_chars x)]
    exact .number h
  | .float (.inf true), stack, _, _ => by
    have h := foldl_literal_done codec stack (.float (.inf true)) (Py.str "nfinity") (by decide)
    exact h ▸ .done
  | .float (.inf false), stack, _, _ => by
    have h := foldl_literal_done codec stack (.float (.inf false)) (Py.str "nfinity") (by decide)
    exact h ▸ .done
  | .float .nan, stack, _, _ => by
    have h := foldl_literal_done codec stack (.float .nan) (Py.str "aN") (by decide)
    exact h ▸ .done
  | .str s, stack, hv, _ => by
    rw [dumps, foldl_quote_value stack hv]
    exact .done
  | .arr xs, stack, hv, hdepth => by
    have hopen : step codec (.run stack .value) 0x5b = .run stack .element := by
      have : stack.length < codec.depth := by
        rw [nesting] at hdepth
        omega
      simp [step, isWs, beginValue, this]
    rw [dumps, List.foldl_cons, hopen]
    cases xs with
    | nil => exact .done
    | cons x xs =>
      rw [nesting, nestingElements] at hdepth
      rw [dumpsElements, List.append_assoc, List.append_assoc]
      have hfirst := foldl_dumps x (.arr [] :: stack) hv.1 (by simp only [List.length_cons]; omega)
      rw [← foldl_element stack hv.1] at hfirst
      have hrest := foldl_elements xs [] hfirst hv.2 (by omega)
      simp only [if_true, List.nil_append, List.foldl_append] at hrest ⊢
      rw [hrest]
      exact .done
  | .obj fields, stack, hv, hdepth => by
    have hopen : step codec (.run stack .value) 0x7b = .run stack (.member [] true) := by
      have : stack.length < codec.depth := by
        rw [nesting] at hdepth
        omega
      simp [step, isWs, beginValue, this]
    rw [dumps, List.foldl_cons, hopen]
    cases fields with
    | nil => exact .done
    | cons f fields =>
      obtain ⟨key, x⟩ := f
      obtain ⟨hnd, hkey, hx, hfields⟩ := hv
      rw [nesting, nestingMembers] at hdepth
      have hfirst := foldl_dumps x (.obj [] key :: stack) hx (by simp only [List.length_cons]; omega)
      have hrest := foldl_members fields [] hfirst (by simpa using hnd) hfields (by omega)
      have hbegin : (quote key ++ Py.str ": ").foldl (step codec) (.run stack (.member [] true)) =
          .run (.obj [] key :: stack) .value := by
        rw [List.foldl_append, foldl_quote_key stack _ true hkey]
        rfl
      rw [dumpsMembers]
      simp only [if_true, List.nil_append, List.foldl_append] at hrest hbegin ⊢
      rw [hbegin, hrest]
      exact .done

theorem foldl_elements : ∀ (xs done : List Json) {x : Json} {stack : List Frame} {s : State},
    Reads codec (.arr done :: stack) x s → FaithfulElements codec xs →
    stack.length + 1 + nestingElements xs ≤ codec.depth →
    (dumpsElements codec false xs ++ [0x5d]).foldl (step codec) s =
      complete stack (.arr (done ++ x :: xs))
  | [], done, x, stack, s, h, _, _ => by
    have hclose := step_of_reads h (c := 0x5d) (by omega)
    rw [dumpsElements, List.nil_append, List.foldl_cons, hclose]
    rfl
  | y :: ys, done, x, stack, s, h, hxs, hdepth => by
    rw [nestingElements] at hdepth
    have hnext := foldl_dumps y (.arr (done ++ [x]) :: stack) hxs.1
      (by simp only [List.length_cons]; omega)
    have hrest := foldl_elements ys (done ++ [x]) hnext hxs.2 (by omega)
    have hsep := foldl_separator h
    rw [dumpsElements]
    simp only [Bool.false_eq_true, if_false, List.foldl_append] at hrest ⊢
    rw [hsep, hrest, List.append_assoc, List.singleton_append]

theorem foldl_members : ∀ (fields done : List (Str × Json)) {key : Str} {x : Json}
    {stack : List Frame} {s : State}, Reads codec (.obj done key :: stack) x s →
    ((done ++ (key, x) :: fields).map Prod.fst).Nodup → FaithfulMembers codec fields →
    stack.length + 1 + nestingMembers fields ≤ codec.depth →
    (dumpsMembers codec false fields ++ [0x7d]).foldl (step codec) s =
      complete stack (.obj (done ++ (key, x) :: fields))
  | [], done, key, x, stack, s, h, hnd, _, _ => by
    have hclose := step_of_reads h (c := 0x7d) (by omega)
    have hfresh : key ∉ done.map Prod.fst := by
      rw [List.map_append, List.nodup_append] at hnd
      exact fun hmem => hnd.2.2 _ hmem key (by simp) rfl
    rw [dumpsMembers, List.nil_append, List.foldl_cons, hclose, ← setField_of_notMem x hfresh]
    rfl
  | (key', y) :: fields, done, key, x, stack, s, h, hnd, hfields, hdepth => by
    rw [nestingMembers] at hdepth
    have hfresh : key ∉ done.map Prod.fst := by
      rw [List.map_append, List.nodup_append] at hnd
      exact fun hmem => hnd.2.2 _ hmem key (by simp) rfl
    have hnext := foldl_nextMember h hfields.1
    rw [setField_of_notMem x hfresh] at hnext
    have hvalue := foldl_dumps y (.obj (done ++ [(key, x)]) key' :: stack) hfields.2.1
      (by simp only [List.length_cons]; omega)
    have hrest := foldl_members fields (done ++ [(key, x)]) hvalue (by simpa using hnd) hfields.2.2
      (by omega)
    rw [dumpsMembers]
    simp only [Bool.false_eq_true, if_false, List.foldl_append] at hnext hrest ⊢
    rw [hnext, hrest, List.append_assoc, List.singleton_append]

end

/-- **The round trip.**  What `dumps` writes of a faithful value that is not nested too deep, `loads`
reads as the value. -/
theorem loads_dumps {v : Json} (hv : Faithful codec v) (hdepth : nesting v ≤ codec.depth) :
    loads codec (dumps codec v) = .ok v := by
  have hhead : (dumps codec v).head? ≠ some 0xfeff := by
    obtain ⟨c, s, hdumps, -, -, hbom⟩ := head_dumps hv
    rw [hdumps]
    exact fun h => hbom (Option.some.inj h)
  have hreads := foldl_dumps v [] hv (by simpa using hdepth)
  rw [loads, if_neg hhead]
  generalize (dumps codec v).foldl (step codec) (.run [] .value) = s at hreads
  cases hreads with
  | done => rfl
  | number h => simp [finish, h, bind, Except.bind]

end Py.Json
