/-
# Python's `str`, as far as programs convert it

A `str` is a list of code points, lone surrogates included.  Here are the conversions that parse
one or that build one from bytes: `str.strip`, `int(..)` with its limit on the number of digits,
`bytes.hex` and `bytes.fromhex`.  What a conversion raises is an `Exc`; a `JSONDecodeError` is a
`ValueError`, so a handler of the second catches both.
-/
import Mathlib.Data.List.DropRight
import Mathlib.Tactic.Common

namespace Py

abbrev Str := List Nat

/-- A literal. -/
def str (s : String) : Str := s.toList.map Char.toNat

/-- The characters of a text.  A surrogate, which is none, becomes U+0000. -/
def text (s : Str) : String := String.ofList (s.map Char.ofNat)

/-- The exceptions the conversions of this library raise. -/
inductive Exc
  | valueError
  | jsonDecodeError
  | overflowError
  | typeError
  | keyError
  | indexError
  | recursionError
  deriving DecidableEq, Repr

/-- Does `except ValueError` catch it? -/
def Exc.isValueError : Exc → Bool
  | .valueError | .jsonDecodeError => true
  | _ => false

/-! ## 1. White space -/

/-- `str.isspace` of one code point; also what `\s` matches. -/
def isSpace (c : Nat) : Bool :=
  (9 ≤ c && c ≤ 13) || (28 ≤ c && c ≤ 32) || c == 0x85 || c == 0xa0 || c == 0x1680 ||
    (0x2000 ≤ c && c ≤ 0x200a) || c == 0x2028 || c == 0x2029 || c == 0x202f || c == 0x205f ||
    c == 0x3000

/-- The white space of C. -/
def isAsciiSpace (c : Nat) : Bool := (9 ≤ c && c ≤ 13) || c == 32

/-- Remove what satisfies `p` at both ends. -/
def stripOf (p : Nat → Bool) (s : Str) : Str := (s.dropWhile p).rdropWhile p

/-- `s.strip()`. -/
def strip (s : Str) : Str := stripOf isSpace s

theorem stripOf_eq_self {p : Nat → Bool} {s : Str} (hhead : ∀ c, s.head? = some c → p c = false)
    (hlast : ∀ c, s.getLast? = some c → p c = false) : stripOf p s = s := by
  have hdrop : s.dropWhile p = s := by
    cases s with
    | nil => rfl
    | cons c s => rw [List.dropWhile_cons_of_neg (by simp [hhead c rfl])]
  rw [stripOf, hdrop, List.rdropWhile_eq_self_iff]
  intro hne
  simp [hlast _ (List.getLast?_eq_some_getLast hne)]

/-- A character that stays holds what is behind it. -/
theorem dropWhile_append_cons {p : Nat → Bool} {c : Nat} (hc : p c = false) (s t : Str) :
    (s ++ c :: t).dropWhile p = s.dropWhile p ++ c :: t := by
  induction s with
  | nil => simp [hc]
  | cons d s ih =>
    cases hd : p d with
    | true => simp [hd, ih]
    | false => simp [hd]

theorem rdropWhile_append_cons {p : Nat → Bool} {c : Nat} (hc : p c = false) (s t : Str) :
    (s ++ c :: t).rdropWhile p = s ++ c :: t.rdropWhile p := by
  have hreverse : (s ++ c :: t).reverse = t.reverse ++ c :: s.reverse := by simp
  rw [List.rdropWhile, hreverse, dropWhile_append_cons hc, List.rdropWhile]
  simp

/-! ## 2. Integers -/

/-- The zeros of the scripts that have decimal digits. -/
def decimalZeros : List Nat :=
  [0x30, 0x660, 0x6f0, 0x7c0, 0x966, 0x9e6, 0xa66, 0xae6, 0xb66, 0xbe6, 0xc66, 0xce6, 0xd66, 0xde6,
   0xe50, 0xed0, 0xf20, 0x1040, 0x1090, 0x17e0, 0x1810, 0x1946, 0x19d0, 0x1a80, 0x1a90, 0x1b50,
   0x1bb0, 0x1c40, 0x1c50, 0xa620, 0xa8d0, 0xa900, 0xa9d0, 0xa9f0, 0xaa50, 0xabf0, 0xff10, 0x104a0,
   0x10d30, 0x11066, 0x110f0, 0x11136, 0x111d0, 0x112f0, 0x11450, 0x114d0, 0x11650, 0x116c0,
   0x11730, 0x118e0, 0x11950, 0x11c50, 0x11d50, 0x11da0, 0x11f50, 0x16a60, 0x16ac0, 0x16b50,
   0x1d7ce, 0x1d7d8, 0x1d7e2, 0x1d7ec, 0x1d7f6, 0x1e140, 0x1e2f0, 0x1e4f0, 0x1e950, 0x1fbf0]

/-- The value of a decimal digit. -/
def decimal (c : Nat) : Option Nat :=
  (decimalZeros.find? fun z => z ≤ c && c < z + 10).map fun z => c - z

/-- The white space `int` ignores at both ends: an ASCII text is not looked at by `isspace`. -/
def isIntSpace (c : Nat) : Bool := isAsciiSpace c || (0x80 ≤ c && isSpace c)

/-- Digits behind a digit; a single underscore may stand in front of each. -/
def moreDigits : Str → Option (List Nat)
  | [] => some []
  | c :: rest =>
    match decimal c with
    | some d => (moreDigits rest).map (d :: ·)
    | none =>
      match rest with
      | [] => none
      | c' :: rest' =>
        if c = 0x5f then (decimal c').bind fun d => (moreDigits rest').map (d :: ·) else none

def digits : Str → Option (List Nat)
  | [] => none
  | c :: rest => (decimal c).bind fun d => (moreDigits rest).map (d :: ·)

/-- `sys.int_info.default_max_str_digits`. -/
def maxStrDigits : Nat := 4300

/-- The number a list of digits denotes, unless it is too long to be converted. -/
def ofDigits (ds : List Nat) : Except Exc Int :=
  if ds.length ≤ maxStrDigits then .ok (ds.foldl (fun n d => 10 * n + d) 0 : Nat)
  else .error .valueError

/-- A sign, if there is one, and what is behind it. -/
def splitSign : Str → Bool × Str
  | 0x2d :: rest => (true, rest)
  | 0x2b :: rest => (false, rest)
  | s => (false, s)

/-- `int(s)`. -/
def int (s : Str) : Except Exc Int :=
  let (negative, unsigned) := splitSign (stripOf isIntSpace s)
  match digits unsigned with
  | none => .error .valueError
  | some ds => (ofDigits ds).map fun n => if negative then -n else n

example : (int (str " -1_000 ") = .ok (-1000)) ∧ int (str "1e3") = .error .valueError := by decide

/-- `int` of a text raises nothing but a `ValueError`. -/
theorem int_error {s : Str} {e : Exc} (h : int s = .error e) : e = .valueError := by
  simp only [int] at h
  cases hd : digits (splitSign (stripOf isIntSpace s)).2 with
  | none =>
    rw [hd] at h
    exact (Except.error.inj h).symm
  | some ds =>
    rw [hd] at h
    by_cases hlen : ds.length ≤ maxStrDigits
    · simp [ofDigits, hlen, Except.map] at h
    · simpa [ofDigits, hlen, Except.map] using h.symm

/-! ## 3. Bytes as hexadecimal text -/

def hexDigit (n : Nat) : Nat := if n < 10 then 0x30 + n else 0x57 + n

/-- `bs.hex()`. -/
def hex (bs : List UInt8) : Str :=
  bs.flatMap fun b => [hexDigit (b.toNat / 16), hexDigit (b.toNat % 16)]

/-- The value of a hexadecimal digit. -/
def hexValue (c : Nat) : Option Nat :=
  if 0x30 ≤ c ∧ c ≤ 0x39 then some (c - 0x30)
  else if 0x61 ≤ c ∧ c ≤ 0x66 then some (c - 0x57)
  else if 0x41 ≤ c ∧ c ≤ 0x46 then some (c - 0x37)
  else none

/-- `bytes.fromhex(s)`; `none` is a `ValueError`. -/
def fromhex : Str → Option (List UInt8)
  | [] => some []
  | c :: rest =>
    if isAsciiSpace c then fromhex rest
    else
      match rest with
      | [] => none
      | c' :: rest' => do
        let high ← hexValue c
        let low ← hexValue c'
        let bs ← fromhex rest'
        return UInt8.ofNat (16 * high + low) :: bs

theorem hexValue_hexDigit {n : Nat} (h : n < 16) :
    hexValue (hexDigit n) = some n ∧ isAsciiSpace (hexDigit n) = false := by
  simp only [hexDigit, hexValue, isAsciiSpace]
  split
  · rw [if_pos (by omega)]
    simp
    omega
  · rw [if_neg (by omega), if_pos (by omega)]
    simp
    omega

/-- **Bytes read back as what was written.** -/
theorem fromhex_hex (bs : List UInt8) : fromhex (hex bs) = some bs := by
  induction bs with
  | nil => rfl
  | cons b bs ih =>
    have hb : b.toNat < 256 := b.toNat_lt
    obtain ⟨h1, hs⟩ := hexValue_hexDigit (n := b.toNat / 16) (by omega)
    obtain ⟨h2, -⟩ := hexValue_hexDigit (n := b.toNat % 16) (by omega)
    have hbyte : 16 * (b.toNat / 16) + b.toNat % 16 = b.toNat := by omega
    have hcons : hex (b :: bs) =
        hexDigit (b.toNat / 16) :: hexDigit (b.toNat % 16) :: hex bs := rfl
    rw [hcons, fromhex, hs]
    simp only [Bool.false_eq_true, if_false, h1, h2, ih, hbyte, Option.bind_eq_bind,
      Option.bind_some, Option.pure_def, UInt8.ofNat_toNat]

theorem hex_injective : Function.Injective hex := fun bs bs' h =>
  Option.some.inj ((fromhex_hex bs).symm.trans ((congrArg fromhex h).trans (fromhex_hex bs')))

theorem mem_hex {bs : List UInt8} {c : Nat} (h : c ∈ hex bs) : ∃ n < 16, c = hexDigit n := by
  obtain ⟨b, -, hc⟩ := List.mem_flatMap.mp h
  have hb : b.toNat < 256 := b.toNat_lt
  rcases List.mem_cons.mp hc with rfl | hc
  · exact ⟨_, by omega, rfl⟩
  · exact ⟨_, by omega, List.mem_singleton.mp hc⟩

/-! ## 4. Searching -/

/-- What stands in front of the first occurrence of a text, and behind it (`str.partition`). -/
def partition (p : Str) : Str → Option (Str × Str)
  | [] => none
  | c :: s =>
    if p.isPrefixOf (c :: s) then some ([], (c :: s).drop p.length)
    else (partition p s).map fun x => (c :: x.1, x.2)

/-- `s.removeprefix(p)`. -/
def removePrefix (p s : Str) : Str := if p.isPrefixOf s then s.drop p.length else s

variable {p s t : Str}

theorem eq_append_of_isPrefixOf (h : p.isPrefixOf s = true) : s = p ++ s.drop p.length := by
  obtain ⟨t, rfl⟩ := List.isPrefixOf_iff_prefix.mp h
  simp

theorem partition_eq {a b : Str} (h : partition p s = some (a, b)) : s = a ++ p ++ b := by
  induction s generalizing a with
  | nil => cases h
  | cons c s ih =>
    rw [partition] at h
    split at h
    · rename_i hp
      obtain ⟨rfl, rfl⟩ := Prod.mk.inj (Option.some.inj h)
      exact eq_append_of_isPrefixOf hp
    · obtain ⟨⟨a', b'⟩, h', heq⟩ := Option.map_eq_some_iff.mp h
      obtain ⟨rfl, rfl⟩ := Prod.mk.inj heq
      rw [ih h']
      simp

/-- The first occurrence stands no later than any other. -/
theorem partition_append (hp : p ≠ []) (a b : Str) :
    ∃ a' x, partition p (a ++ p ++ b) = some (a', x ++ b) := by
  induction a with
  | nil =>
    obtain ⟨c, p', rfl⟩ := List.exists_cons_of_ne_nil hp
    refine ⟨[], [], ?_⟩
    rw [List.nil_append, List.cons_append, partition, if_pos]
    · simp
    · rw [List.isPrefixOf_iff_prefix]
      exact List.prefix_append _ _
  | cons c a ih =>
    rw [List.cons_append, List.cons_append, partition]
    split
    · refine ⟨[], (c :: (a ++ p)).drop p.length, ?_⟩
      rw [← List.drop_append_of_le_length (by simp; omega)]
      simp
    · obtain ⟨a', x, h⟩ := ih
      exact ⟨c :: a', x, by rw [h]; rfl⟩

theorem partition_isSome_iff (hp : p ≠ []) : (partition p s).isSome = true ↔ p <:+: s := by
  constructor
  · intro h
    obtain ⟨⟨a, b⟩, hab⟩ := Option.isSome_iff_exists.mp h
    exact ⟨a, b, (partition_eq hab).symm⟩
  · rintro ⟨a, b, rfl⟩
    obtain ⟨a', x, h⟩ := partition_append hp a b
    rw [h]
    rfl

/-- A character that `p` does not hold ends every occurrence. -/
theorem isPrefixOf_append_cons {c : Nat} (hc : c ∉ p) :
    p.isPrefixOf (s ++ c :: t) = p.isPrefixOf s := by
  induction p generalizing s with
  | nil => simp
  | cons d p ih =>
    rw [List.mem_cons, not_or] at hc
    cases s with
    | nil => simp [List.isPrefixOf, Ne.symm hc.1]
    | cons e s => simp [List.isPrefixOf, ih hc.2]

theorem partition_append_cons {c : Nat} (hc : c ∉ p) (s t : Str) :
    partition p (s ++ c :: t) =
      match partition p s with
      | some x => some (x.1, x.2 ++ c :: t)
      | none => (partition p (c :: t)).map fun x => (s ++ x.1, x.2) := by
  induction s with
  | nil => simp [partition]
  | cons d s ih =>
    rw [List.cons_append, partition, partition, ← List.cons_append, isPrefixOf_append_cons hc]
    split
    · rename_i hp
      have hle : p.length ≤ (d :: s).length := (List.isPrefixOf_iff_prefix.mp hp).length_le
      rw [List.drop_append_of_le_length hle]
    · rw [ih]
      cases partition p s with
      | none => simp [Function.comp_def]
      | some x => rfl

/-- Text without a character of `p` in front moves the first occurrence along. -/
theorem partition_free_append (hp : p ≠ []) {a : Str} (ha : ∀ c ∈ a, c ∉ p) (s : Str) :
    partition p (a ++ s) = (partition p s).map fun x => (a ++ x.1, x.2) := by
  induction a with
  | nil => simp
  | cons c a ih =>
    have hc : c ∉ p := ha c List.mem_cons_self
    have hnot : p.isPrefixOf (c :: (a ++ s)) = false := by
      obtain ⟨d, p', rfl⟩ := List.exists_cons_of_ne_nil hp
      have hne : d ≠ c := fun h => hc (h ▸ List.mem_cons_self)
      simp [List.isPrefixOf, hne]
    rw [List.cons_append, partition, hnot, if_neg (by simp),
      ih fun c hc => ha c (List.mem_cons_of_mem _ hc)]
    simp [Function.comp_def]

theorem partition_free (hp : p ≠ []) {a : Str} (ha : ∀ c ∈ a, c ∉ p) : partition p a = none := by
  simpa [partition] using partition_free_append hp ha []

end Py
