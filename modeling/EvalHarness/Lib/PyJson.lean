/-
# Python's `json`, as far as programs read back what they wrote

`Json` is the one type of values: what `json.loads` returns, what a JSON column holds and what
`json.dumps` is given, with Python's truth of a value and the fields of a `dict`.

`loads` is a machine that takes one code point at a time: a stack of the containers that are open
around the place it stands at, and what it expects there.  It keeps the corners of the real reader
that a caller can see: the literals NaN and Infinity, a field given twice, surrogates written as two
escapes, and the exceptions that are no `JSONDecodeError`, namely the `ValueError` of an integer
with too many digits and the `RecursionError` of containers nested too deep.

The reading and the printing of a finite `float` come with the `Codec`, and so does the depth.
-/
import EvalHarness.Lib.PyFloat
import Mathlib.Data.Nat.Digits.Defs

namespace Py

/-- A value `json.loads` can return.  The keys of an object are distinct, in insertion order. -/
inductive Json
  | null
  | bool (b : Bool)
  | int (n : Int)
  | float (x : Float)
  | str (s : Str)
  | arr (xs : List Json)
  | obj (fields : List (Str × Json))

namespace Json

/-! ## 1. Values -/

mutual

/-- Equality of values, as a test. -/
def same : Json → Json → Bool
  | .null, .null => true
  | .bool a, .bool b => a == b
  | .int m, .int n => m == n
  | .float x, .float y => x == y
  | .str s, .str t => s == t
  | .arr xs, .arr ys => sameList xs ys
  | .obj fs, .obj gs => sameFields fs gs
  | _, _ => false

def sameList : List Json → List Json → Bool
  | [], [] => true
  | x :: xs, y :: ys => same x y && sameList xs ys
  | _, _ => false

def sameFields : List (Str × Json) → List (Str × Json) → Bool
  | [], [] => true
  | (k, x) :: fs, (k', y) :: gs => k == k' && same x y && sameFields fs gs
  | _, _ => false

end

mutual

theorem eq_of_same : ∀ {x y : Json}, same x y = true → x = y := by
  intro x y h
  cases x <;> cases y <;> simp only [same, Bool.false_eq_true, beq_iff_eq] at h
  case null.null => rfl
  case bool.bool | int.int | float.float | str.str => rw [h]
  case arr.arr => rw [eq_of_sameList h]
  case obj.obj => rw [eq_of_sameFields h]

theorem eq_of_sameList : ∀ {xs ys : List Json}, sameList xs ys = true → xs = ys := by
  intro xs ys h
  match xs, ys with
  | [], [] => rfl
  | x :: xs, y :: ys =>
    simp only [sameList, Bool.and_eq_true] at h
    rw [eq_of_same h.1, eq_of_sameList h.2]
  | [], _ :: _ | _ :: _, [] => simp [sameList] at h

theorem eq_of_sameFields : ∀ {fs gs : List (Str × Json)}, sameFields fs gs = true → fs = gs := by
  intro fs gs h
  match fs, gs with
  | [], [] => rfl
  | (k, x) :: fs, (k', y) :: gs =>
    simp only [sameFields, Bool.and_eq_true, beq_iff_eq] at h
    rw [h.1.1, eq_of_same h.1.2, eq_of_sameFields h.2]
  | [], _ :: _ | _ :: _, [] => simp [sameFields] at h

end

mutual

theorem same_self : ∀ x : Json, same x x = true
  | .null => by simp [same]
  | .bool _ | .int _ | .float _ | .str _ => by simp [same]
  | .arr xs => by simp [same, sameList_self xs]
  | .obj fs => by simp [same, sameFields_self fs]

theorem sameList_self : ∀ xs : List Json, sameList xs xs = true
  | [] => by simp [sameList]
  | x :: xs => by simp [sameList, same_self x, sameList_self xs]

theorem sameFields_self : ∀ fs : List (Str × Json), sameFields fs fs = true
  | [] => by simp [sameFields]
  | (_, x) :: fs => by simp [sameFields, same_self x, sameFields_self fs]

end

instance : DecidableEq Json := fun x y =>
  decidable_of_iff (same x y = true) ⟨eq_of_same, fun h => h ▸ same_self x⟩

/-- `bool(v)`. -/
def truthy : Json → Bool
  | .null => false
  | .bool b => b
  | .int n => n != 0
  | .float x => x != .num 0
  | .str s => !s.isEmpty
  | .arr xs => !xs.isEmpty
  | .obj fields => !fields.isEmpty

/-- `fields.get(key, default)`. -/
def field (fields : List (Str × Json)) (key : Str) (default : Json := .null) : Json :=
  (fields.lookup key).getD default

end Json

def isDigit (c : Nat) : Bool := 0x30 ≤ c && c ≤ 0x39

/-- The characters a number can consist of. -/
def isNumberChar (c : Nat) : Bool :=
  isDigit c || c == 0x2b || c == 0x2d || c == 0x2e || c == 0x45 || c == 0x65

/-- What the module takes from the interpreter it runs in. -/
structure Codec where
  /-- `float(..)` of a number's text. -/
  readFloat : Str → Float
  /-- `float.__repr__` of a finite `float`. -/
  showFloat : Rat → Str
  showFloat_chars : ∀ x, ∀ c ∈ showFloat x, isNumberChar c = true
  /-- How many containers may be open inside each other. -/
  depth : Nat

namespace Json

/-! ## 2. Numbers and strings -/

/-- The fraction a text begins with, its point included. -/
def fraction : Str → Str
  | 0x2e :: s => if s.takeWhile isDigit = [] then [] else 0x2e :: s.takeWhile isDigit
  | _ => []

def sign : Str → Str
  | 0x2b :: _ => [0x2b]
  | 0x2d :: _ => [0x2d]
  | _ => []

/-- The exponent a text begins with. -/
def exponent : Str → Str
  | [] => []
  | c :: s =>
    let ds := (s.drop (sign s).length).takeWhile isDigit
    if (c = 0x45 ∨ c = 0x65) ∧ ds ≠ [] then c :: (sign s ++ ds) else []

/-- The integer part a text without a sign begins with: no digit follows a leading zero. -/
def wholePart : Str → Str
  | 0x30 :: _ => [0x30]
  | s => s.takeWhile isDigit

/-- The value of a number whose parts are these.  Only an integer can be too long. -/
def convert (codec : Codec) (negative : Bool) (whole frac exp : Str) : Except Exc Json :=
  if frac = [] ∧ exp = [] then
    (ofDigits (whole.map (· - 0x30))).map fun n => .int (if negative then -n else n)
  else
    .ok (.float (codec.readFloat ((if negative then [0x2d] else []) ++ (whole ++ frac ++ exp))))

/-- The longest number at the front of a run of number characters is converted first; only then does
what follows it count as an error. -/
def readNumber (codec : Codec) (token : Str) : Except Exc Json :=
  let negative := token.head? == some 0x2d
  let s := if negative then token.tail else token
  let whole := wholePart s
  let frac := fraction (s.drop whole.length)
  let exp := exponent (s.drop (whole ++ frac).length)
  if whole = [] then .error .jsonDecodeError
  else
    match convert codec negative whole frac exp with
    | .error e => .error e
    | .ok v => if s.length ≤ (whole ++ frac ++ exp).length then .ok v else .error .jsonDecodeError

/-- Where a string stands with respect to a backslash. -/
inductive Esc
  | plain
  /-- Behind a backslash. -/
  | back
  /-- Behind `\u` and `n` digits with the value `x`. -/
  | hex (n x : Nat)
  deriving DecidableEq, Repr

/-- What an escape of one character stands for. -/
def escaped (c : Nat) : Option Nat :=
  if c = 0x22 ∨ c = 0x5c ∨ c = 0x2f then some c
  else if c = 0x62 then some 8
  else if c = 0x66 then some 12
  else if c = 0x6e then some 10
  else if c = 0x72 then some 13
  else if c = 0x74 then some 9
  else none

def isHigh (x : Nat) : Bool := 0xd800 ≤ x && x ≤ 0xdbff

def isLow (x : Nat) : Bool := 0xdc00 ≤ x && x ≤ 0xdfff

/-- A string that is being read. -/
structure Chars where
  acc : Str := []
  /-- The last code point is a high surrogate that was written as an escape. -/
  high : Bool := false
  esc : Esc := .plain

/-- Add what a `\u` escape denotes; the second half of a pair completes the first. -/
def Chars.addUnit (t : Chars) (x : Nat) : Chars :=
  if t.high && isLow x then
    { acc := t.acc.dropLast ++ [0x10000 + (t.acc.getLastD 0 - 0xd800) * 0x400 + (x - 0xdc00)] }
  else { acc := t.acc ++ [x], high := isHigh x }

/-- One code point of a string; `none` when it closes it. -/
def Chars.step (t : Chars) (c : Nat) : Except Exc (Option Chars) :=
  match t.esc with
  | .plain =>
    if c = 0x22 then .ok none
    else if c = 0x5c then .ok (some { t with esc := .back })
    else if c < 0x20 then .error .jsonDecodeError
    else .ok (some { acc := t.acc ++ [c] })
  | .back =>
    if c = 0x75 then .ok (some { t with esc := .hex 0 0 })
    else
      match escaped c with
      | some x => .ok (some { acc := t.acc ++ [x] })
      | none => .error .jsonDecodeError
  | .hex n x =>
    match hexValue c with
    | none => .error .jsonDecodeError
    | some d =>
      if n < 3 then .ok (some { t with esc := .hex (n + 1) (16 * x + d) })
      else .ok (some (t.addUnit (16 * x + d)))

/-! ## 3. `json.loads` -/

/-- White space of the format. -/
def isWs (c : Nat) : Bool := c == 0x20 || c == 9 || c == 10 || c == 13

/-- A container around the place that is read, up to the value that is due in it. -/
inductive Frame
  | arr (xs : List Json)
  | obj (fields : List (Str × Json)) (key : Str)

/-- What is expected. -/
inductive Mode
  | value
  /-- Behind `[`: a value or `]`. -/
  | element
  /-- A key or, right behind the opening brace, the closing one. -/
  | member (fields : List (Str × Json)) (first : Bool)
  | key (fields : List (Str × Json)) (t : Chars)
  | colon (fields : List (Str × Json)) (key : Str)
  | str (t : Chars)
  | number (token : Str)
  /-- The rest of the name of a constant. -/
  | literal (rest : Str) (v : Json)
  | afterElement (xs : List Json)
  | afterMember (fields : List (Str × Json))

inductive State
  | run (stack : List Frame) (mode : Mode)
  | done (v : Json)
  | fail (e : Exc)

/-- `fields[key] = v`. -/
def setField (key : Str) (v : Json) : List (Str × Json) → List (Str × Json)
  | [] => [(key, v)]
  | f :: fields => if f.1 = key then (key, v) :: fields else f :: setField key v fields

/-- A value is complete. -/
def complete : List Frame → Json → State
  | [], v => .done v
  | .arr xs :: stack, v => .run stack (.afterElement (xs ++ [v]))
  | .obj fields key :: stack, v => .run stack (.afterMember (setField key v fields))

/-- The first character of a value. -/
def beginValue (codec : Codec) (stack : List Frame) (c : Nat) : State :=
  if c = 0x22 then .run stack (.str {})
  else if c = 0x7b then
    if stack.length < codec.depth then .run stack (.member [] true) else .fail .recursionError
  else if c = 0x5b then
    if stack.length < codec.depth then .run stack .element else .fail .recursionError
  else if c = 0x6e then .run stack (.literal (Py.str "ull") .null)
  else if c = 0x74 then .run stack (.literal (Py.str "rue") (.bool true))
  else if c = 0x66 then .run stack (.literal (Py.str "alse") (.bool false))
  else if c = 0x4e then .run stack (.literal (Py.str "aN") (.float .nan))
  else if c = 0x49 then .run stack (.literal (Py.str "nfinity") (.float (.inf false)))
  else if c = 0x2d ∨ isDigit c = true then .run stack (.number [c])
  else .fail .jsonDecodeError

/-- A character behind a value. -/
def afterValue : State → Nat → State
  | .done v, c => if isWs c then .done v else .fail .jsonDecodeError
  | .run stack (.afterElement xs), c =>
    if isWs c then .run stack (.afterElement xs)
    else if c = 0x2c then .run (.arr xs :: stack) .value
    else if c = 0x5d then complete stack (.arr xs)
    else .fail .jsonDecodeError
  | .run stack (.afterMember fields), c =>
    if isWs c then .run stack (.afterMember fields)
    else if c = 0x2c then .run stack (.member fields false)
    else if c = 0x7d then complete stack (.obj fields)
    else .fail .jsonDecodeError
  | .run _ _, _ => .fail .jsonDecodeError
  | .fail e, _ => .fail e

/-- One code point. -/
def step (codec : Codec) : State → Nat → State
  | .run stack .value, c => if isWs c then .run stack .value else beginValue codec stack c
  | .run stack .element, c =>
    if isWs c then .run stack .element
    else if c = 0x5d then complete stack (.arr [])
    else beginValue codec (.arr [] :: stack) c
  | .run stack (.member fields first), c =>
    if isWs c then .run stack (.member fields first)
    else if c = 0x22 then .run stack (.key fields {})
    else if first = true ∧ c = 0x7d then complete stack (.obj fields)
    else .fail .jsonDecodeError
  | .run stack (.key fields t), c =>
    match t.step c with
    | .error e => .fail e
    | .ok none => .run stack (.colon fields t.acc)
    | .ok (some t') => .run stack (.key fields t')
  | .run stack (.colon fields key), c =>
    if isWs c then .run stack (.colon fields key)
    else if c = 0x3a then .run (.obj fields key :: stack) .value
    else .fail .jsonDecodeError
  | .run stack (.str t), c =>
    match t.step c with
    | .error e => .fail e
    | .ok none => complete stack (.str t.acc)
    | .ok (some t') => .run stack (.str t')
  | .run stack (.number token), c =>
    if isNumberChar c then .run stack (.number (token ++ [c]))
    else if token = [0x2d] ∧ c = 0x49 then
      .run stack (.literal (Py.str "nfinity") (.float (.inf true)))
    else
      match readNumber codec token with
      | .error e => .fail e
      | .ok v => afterValue (complete stack v) c
  | .run stack (.literal rest v), c =>
    match rest with
    | [] => .fail .jsonDecodeError
    | c' :: rest' =>
      if c ≠ c' then .fail .jsonDecodeError
      else if rest' = [] then complete stack v
      else .run stack (.literal rest' v)
  | s, c => afterValue s c

/-- The end of the text. -/
def finish (codec : Codec) : State → Except Exc Json
  | .done v => .ok v
  | .fail e => .error e
  | .run stack (.number token) => do
    let v ← readNumber codec token
    if stack.isEmpty then .ok v else .error .jsonDecodeError
  | .run _ _ => .error .jsonDecodeError

/-- `json.loads(s)`. -/
def loads (codec : Codec) (s : Str) : Except Exc Json :=
  if s.head? = some 0xfeff then .error .jsonDecodeError
  else finish codec (s.foldl (step codec) (.run [] .value))

/-! ## 4. `json.dumps` -/

/-- The escape of a UTF-16 unit. -/
def unitEscape (x : Nat) : Str :=
  [0x5c, 0x75, hexDigit (x / 4096 % 16), hexDigit (x / 256 % 16), hexDigit (x / 16 % 16),
    hexDigit (x % 16)]

/-- A code point in a string that is to be ASCII. -/
def escape (c : Nat) : Str :=
  if c = 0x22 then [0x5c, 0x22]
  else if c = 0x5c then [0x5c, 0x5c]
  else if c = 8 then [0x5c, 0x62]
  else if c = 9 then [0x5c, 0x74]
  else if c = 10 then [0x5c, 0x6e]
  else if c = 12 then [0x5c, 0x66]
  else if c = 13 then [0x5c, 0x72]
  else if 0x20 ≤ c ∧ c ≤ 0x7e then [c]
  else if c < 0x10000 then unitEscape c
  else unitEscape (0xd800 + (c - 0x10000) / 0x400 % 0x400) ++
    unitEscape (0xdc00 + (c - 0x10000) % 0x400)

def quote (s : Str) : Str := 0x22 :: (s.flatMap escape ++ [0x22])

/-- `int.__repr__`. -/
def showInt (n : Int) : Str :=
  (if n < 0 then [0x2d] else []) ++
    (if n = 0 then [0x30] else (Nat.digits 10 n.natAbs).reverse.map (0x30 + ·))

def showFloat (codec : Codec) : Float → Str
  | .num x => codec.showFloat x
  | .inf negative => if negative then Py.str "-Infinity" else Py.str "Infinity"
  | .nan => Py.str "NaN"

mutual

/-- `json.dumps(v)`. -/
def dumps (codec : Codec) : Json → Str
  | .null => Py.str "null"
  | .bool b => if b then Py.str "true" else Py.str "false"
  | .int n => showInt n
  | .float x => showFloat codec x
  | .str s => quote s
  | .arr xs => 0x5b :: (dumpsElements codec true xs ++ [0x5d])
  | .obj fields => 0x7b :: (dumpsMembers codec true fields ++ [0x7d])

/-- The elements; a separator stands in front of each but the first. -/
def dumpsElements (codec : Codec) (first : Bool) : List Json → Str
  | [] => []
  | x :: xs =>
    (if first then [] else Py.str ", ") ++ (dumps codec x ++ dumpsElements codec false xs)

def dumpsMembers (codec : Codec) (first : Bool) : List (Str × Json) → Str
  | [] => []
  | (key, x) :: fields =>
    (if first then [] else Py.str ", ") ++
      (quote key ++ (Py.str ": " ++ (dumps codec x ++ dumpsMembers codec false fields)))

end

end Json

end Py
