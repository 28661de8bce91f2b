/-
# Taking a JSON value apart in Python

A program that expects a document of a certain shape subscripts it without looking, and converts
what it finds with `int`.  On a document of another shape each of these steps raises in its own way:
a subscript one of the three exceptions `Exc.isShapeError` lists, `int` also a `ValueError` for a
text or a NaN and an `OverflowError` for an infinity.
-/
import EvalHarness.Lib.PyJson

namespace Py

/-- Does `except (KeyError, IndexError, TypeError)` catch it? -/
def Exc.isShapeError : Exc → Bool
  | .keyError | .indexError | .typeError => true
  | .valueError | .jsonDecodeError | .overflowError | .recursionError => false

/-- Whatever the computation raises is a shape error. -/
def OnlyShape {α : Type} (x : Except Exc α) : Prop := ∀ e, x = .error e → e.isShapeError = true

theorem onlyShape_ok {α : Type} (a : α) : OnlyShape (.ok a) := fun _ h => by cases h

/-- The steps of a computation, one after the other. -/
theorem onlyShape_bind_iff {α β : Type} {x : Except Exc α} {f : α → Except Exc β} :
    OnlyShape (x >>= f) ↔ OnlyShape x ∧ ∀ a, x = .ok a → OnlyShape (f a) := by
  cases x with
  | error e =>
    constructor
    · intro h
      exact ⟨fun e' he => h e' (by rw [← Except.error.inj he]; rfl), fun a ha => by cases ha⟩
    · rintro ⟨h, -⟩ e' he
      exact h e' (by rw [← Except.error.inj he])
  | ok a =>
    constructor
    · intro h
      exact ⟨onlyShape_ok a, fun a' ha => Except.ok.inj ha ▸ h⟩
    · rintro ⟨-, h⟩
      exact h a rfl

namespace Json

/-- `v[key]`, of a text. -/
def getKey (v : Json) (key : Str) : Except Exc Json :=
  match v with
  | .obj fields =>
    match fields.lookup key with
    | some x => .ok x
    | none => .error .keyError
  | _ => .error .typeError

/-- `v[i]`, of a number that is not negative.  The keys of an object are texts. -/
def getIndex (v : Json) (i : Nat) : Except Exc Json :=
  match v with
  | .arr xs =>
    match xs[i]? with
    | some x => .ok x
    | none => .error .indexError
  | .str s =>
    match s[i]? with
    | some c => .ok (.str [c])
    | none => .error .indexError
  | .obj _ => .error .keyError
  | _ => .error .typeError

/-- `int(v)`. -/
def toInt : Json → Except Exc Int
  | .bool b => .ok (if b then 1 else 0)
  | .int n => .ok n
  | .float x => x.toInt
  | .str s => Py.int s
  | .null | .arr _ | .obj _ => .error .typeError

/-- `int` of the value raises no `ValueError` and no `OverflowError`: a text must spell an integer,
and a `float` be finite. -/
def Converts : Json → Prop
  | .str s => ∃ n, Py.int s = .ok n
  | .float x => ∃ q, x = .num q
  | .null | .bool _ | .int _ | .arr _ | .obj _ => True

theorem getKey_onlyShape (v : Json) (key : Str) : OnlyShape (v.getKey key) := by
  intro e h
  unfold getKey at h
  split at h
  · split at h
    · cases h
    · rw [← Except.error.inj h]
      rfl
  · rw [← Except.error.inj h]
    rfl

theorem getIndex_onlyShape (v : Json) (i : Nat) : OnlyShape (v.getIndex i) := by
  intro e h
  unfold getIndex at h
  split at h
  · split at h
    · cases h
    · rw [← Except.error.inj h]
      rfl
  · split at h
    · cases h
    · rw [← Except.error.inj h]
      rfl
  · rw [← Except.error.inj h]
    rfl
  · rw [← Except.error.inj h]
    rfl

/-- **What `int` raises.**  Of a value that does not convert it raises something that is no shape
error; of the others, if anything, a `TypeError`. -/
theorem toInt_onlyShape_iff {v : Json} : OnlyShape v.toInt ↔ v.Converts := by
  cases v with
  | null | arr xs | obj fields =>
    refine iff_of_true (fun e h => ?_) trivial
    rw [← Except.error.inj h]
    rfl
  | bool b => exact iff_of_true (fun e h => by cases h) trivial
  | int n => exact iff_of_true (fun e h => by cases h) trivial
  | float x =>
    simp only [toInt, Converts]
    cases x with
    | num q => exact iff_of_true (fun e h => by cases h) ⟨q, rfl⟩
    | inf negative =>
      refine iff_of_false (fun h => ?_) (by simp)
      cases h .overflowError rfl
    | nan =>
      refine iff_of_false (fun h => ?_) (by simp)
      cases h .valueError rfl
  | str s =>
    simp only [toInt, Converts]
    cases hs : Py.int s with
    | ok n => exact iff_of_true (fun e h => by cases h) ⟨n, rfl⟩
    | error e =>
      refine iff_of_false (fun h => ?_) (by simp)
      have hshape := h e rfl
      rw [int_error hs] at hshape
      cases hshape

end Json

end Py
