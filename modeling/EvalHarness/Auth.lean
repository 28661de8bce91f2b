/-
# API keys (`app/auth.py`, `app/middleware.py`, `app/api/v1/api_keys.py`)

A key is stored as a salted digest in a text of four fields and found by a prefix of another digest.
Section 1 has the functions under their source names, section 2 the two operations that write the
table.  `authenticate_issued` says that the detour loses nothing: after any history of creations
and deletions, a presented key is accepted exactly when a row was issued for it and is still there,
in whatever order the candidates come, and as if every stored row had been verified.

SHA-256 and the key derivation are parameters (`Digests`).  What the result rests on is named in its
hypotheses: the derivation tells the presented key from every other issued key under one salt, and
no key is issued twice.
-/
import EvalHarness.Lib.PyStr
import EvalHarness.Lib.Runs
import EvalHarness.Lib.Table

namespace EvalHarness

open Lts (Run)
open Py (Str Exc str)

abbrev ApiKeyId := Nat

inductive ApiKeyRole
  | admin | reviewer
  deriving DecidableEq, Repr

/-! ## 1. `app/auth.py` and `_authenticate` -/

/-- The digests of `hashlib`. -/
structure Digests where
  sha256 : List UInt8 → List UInt8
  /-- PBKDF2-HMAC-SHA256 of a password under a salt and a number of iterations. -/
  derive : List UInt8 → List UInt8 → Nat → List UInt8

/-- `raw_key.encode()`. -/
def encode (rawKey : String) : List UInt8 := rawKey.toList.flatMap String.utf8EncodeChar

/-- `hashlib.pbkdf2_hmac("sha256", ..)`. -/
def pbkdf2Hmac (dig : Digests) (password salt : List UInt8) (iterations : Int) :
    Except Exc (List UInt8) :=
  if iterations < -2 ^ 63 ∨ 2 ^ 31 ≤ iterations then .error .overflowError
  else if iterations < 1 then .error .valueError
  else .ok (dig.derive password salt iterations.toNat)

/-- `hmac.compare_digest` of two texts, which have to be ASCII. -/
def compareDigest (a b : Str) : Except Exc Bool :=
  if (a ++ b).all (· < 128) then .ok (a == b) else .error .typeError

def PBKDF2_ITERATIONS : Nat := 100000

/-- `hash_api_key`; the salt is what `secrets.token_bytes` returned. -/
def hashApiKey (dig : Digests) (rawKey : String) (salt : List UInt8) : Str :=
  [0x24].intercalate
    [str "pbkdf2_sha256", str (toString PBKDF2_ITERATIONS), Py.hex salt,
      Py.hex (dig.derive (encode rawKey) salt PBKDF2_ITERATIONS)]

/-- `key_prefix`. -/
def keyPrefix (dig : Digests) (rawKey : String) : Str :=
  (Py.hex (dig.sha256 (encode rawKey))).take 16

/-- The body of the `try` in `verify_api_key`. -/
def checkApiKey (dig : Digests) (rawKey : String) (stored : Str) : Except Exc Bool :=
  match stored.splitOn 0x24 with
  | [_algorithm, iterations, saltHex, hashHex] => do
    let salt ← (Py.fromhex saltHex).elim (.error .valueError) .ok
    let n ← Py.int iterations
    let digest ← pbkdf2Hmac dig (encode rawKey) salt n
    compareDigest (Py.hex digest) hashHex
  | _ => .error .valueError

/-- `verify_api_key`. -/
def verifyApiKey (dig : Digests) (rawKey : String) (stored : Str) : Except Exc Bool :=
  match checkApiKey dig rawKey stored with
  | .error e => if e.isValueError then .ok false else .error e
  | .ok b => .ok b

structure ApiKey where
  name : String
  role : ApiKeyRole
  keyPrefix : Str
  keyHash : Str
  deriving DecidableEq

structure AuthContext where
  apiKeyId : ApiKeyId
  name : String
  role : ApiKeyRole
  deriving DecidableEq

/-- The loop of `_authenticate` over the rows it was given. -/
def authenticate (dig : Digests) (rawKey : String) :
    List (ApiKeyId × ApiKey) → Except Exc (Option AuthContext)
  | [] => .ok none
  | (id, row) :: rest => do
    if ← verifyApiKey dig rawKey row.keyHash then return some ⟨id, row.name, row.role⟩
    else authenticate dig rawKey rest

/-- `select(ApiKey).where(ApiKey.key_prefix == key_prefix(raw_key))`. -/
def candidates (dig : Digests) (t : Table ApiKeyId ApiKey) (rawKey : String) :
    List (ApiKeyId × ApiKey) :=
  t.rows.filter fun x => x.2.keyPrefix == keyPrefix dig rawKey

/-! ## 2. `create_api_key` and `delete_api_key` -/

/-- The row `create_api_key` inserts. -/
def issue (dig : Digests) (name : String) (role : ApiKeyRole) (rawKey : String)
    (salt : List UInt8) : ApiKey :=
  { name, role, keyPrefix := keyPrefix dig rawKey, keyHash := hashApiKey dig rawKey salt }

/-- An operation, with what it draws: the id of the row, the raw key, the salt. -/
inductive KeyOp
  | create (id : ApiKeyId) (name : String) (role : ApiKeyRole) (rawKey : String)
      (salt : List UInt8)
  | delete (id : ApiKeyId)
  deriving DecidableEq

/-- The insertion of `create_api_key`; `none` when the primary key or the unique constraint on
`key_hash` refuses it. -/
def createApiKey (t : Table ApiKeyId ApiKey) (id : ApiKeyId) (row : ApiKey) :
    Option (Table ApiKeyId ApiKey) :=
  if t.count (fun _ row' => row'.keyHash == row.keyHash) = 0 then t.insertAll [(id, row)] else none

/-- The table after an operation.  A refused creation and the deletion of no row change nothing. -/
def keyStep (dig : Digests) (t : Table ApiKeyId ApiKey) : KeyOp → Option (Table ApiKeyId ApiKey)
  | .create id name role rawKey salt =>
    some ((createApiKey t id (issue dig name role rawKey salt)).getD t)
  | .delete id => some (t.delete id)

/-- The raw key a request hands out, when its row is inserted. -/
def rawKey? (dig : Digests) (t : Table ApiKeyId ApiKey) : KeyOp → Option String
  | .create id name role rawKey salt =>
    if (createApiKey t id (issue dig name role rawKey salt)).isSome then some rawKey else none
  | .delete _ => none

/-- The raw keys issued in a history. -/
def issuedKeys (dig : Digests) (tr : List (Table ApiKeyId ApiKey × KeyOp)) : List String :=
  tr.filterMap fun x => rawKey? dig x.1 x.2

/-- In this history the row `id` was created for this key, and has not been deleted since. -/
def Issued (dig : Digests) (tr : List (Table ApiKeyId ApiKey × KeyOp)) (id : ApiKeyId)
    (name : String) (role : ApiKeyRole) (rawKey : String) (salt : List UInt8) : Prop :=
  ∃ a t b, tr = a ++ (t, .create id name role rawKey salt) :: b ∧
    (createApiKey t id (issue dig name role rawKey salt)).isSome = true ∧
    ∀ x ∈ b, x.2 ≠ .delete id

/-! ## 3. A stored text reads back -/

/-- Neither a digit of a hexadecimal text nor one of the other two fields is the separator. -/
theorem hashApiKey_fields (dig : Digests) (rawKey : String) (salt : List UInt8) :
    (hashApiKey dig rawKey salt).splitOn 0x24 =
      [str "pbkdf2_sha256", str (toString PBKDF2_ITERATIONS), Py.hex salt,
        Py.hex (dig.derive (encode rawKey) salt PBKDF2_ITERATIONS)] := by
  have hhex : ∀ bs, 0x24 ∉ Py.hex bs := by
    intro bs hmem
    obtain ⟨n, hn, hc⟩ := Py.mem_hex hmem
    unfold Py.hexDigit at hc
    split at hc <;> omega
  refine List.splitOn_intercalate 0x24 ?_ (by simp)
  intro field hfield
  simp only [List.mem_cons, List.not_mem_nil, or_false] at hfield
  rcases hfield with rfl | rfl | rfl | rfl
  · decide
  · decide
  · exact hhex _
  · exact hhex _

theorem int_iterations : Py.int (str (toString PBKDF2_ITERATIONS)) = .ok 100000 := by decide

theorem compareDigest_hex (bs bs' : List UInt8) :
    compareDigest (Py.hex bs) (Py.hex bs') = .ok (decide (bs = bs')) := by
  have hascii : (Py.hex bs ++ Py.hex bs').all (· < 128) = true := by
    rw [List.all_eq_true]
    intro c hc
    obtain ⟨n, hn, rfl⟩ : ∃ n < 16, c = Py.hexDigit n := by
      rcases List.mem_append.mp hc with hc | hc <;> exact Py.mem_hex hc
    have hlt : Py.hexDigit n < 128 := by
      unfold Py.hexDigit
      split <;> omega
    exact decide_eq_true hlt
  rw [compareDigest, if_pos hascii]
  by_cases h : bs = bs'
  · simp [h]
  · have hne : Py.hex bs ≠ Py.hex bs' := fun heq => h (Py.hex_injective heq)
    simp [h, hne]

/-- `verify_api_key` on what `hash_api_key` stored compares the two derived digests and raises
nothing. -/
theorem verifyApiKey_hashApiKey (dig : Digests) (rawKey k : String) (salt : List UInt8) :
    verifyApiKey dig rawKey (hashApiKey dig k salt) =
      .ok (decide (dig.derive (encode rawKey) salt PBKDF2_ITERATIONS =
        dig.derive (encode k) salt PBKDF2_ITERATIONS)) := by
  have hcheck : checkApiKey dig rawKey (hashApiKey dig k salt) =
      compareDigest (Py.hex (dig.derive (encode rawKey) salt PBKDF2_ITERATIONS))
        (Py.hex (dig.derive (encode k) salt PBKDF2_ITERATIONS)) := by
    rw [checkApiKey, hashApiKey_fields]
    simp only [Py.fromhex_hex, int_iterations, Option.elim]
    rfl
  rw [verifyApiKey, hcheck, compareDigest_hex]

/-! ## 4. The loop over the candidates -/

/-- Over rows that verify without an exception the loop is a search. -/
theorem authenticate_eq_find? {dig : Digests} {rawKey : String} {p : ApiKeyId × ApiKey → Bool}
    {rows : List (ApiKeyId × ApiKey)}
    (h : ∀ x ∈ rows, verifyApiKey dig rawKey x.2.keyHash = .ok (p x)) :
    authenticate dig rawKey rows =
      .ok ((rows.find? p).map fun x => ⟨x.1, x.2.name, x.2.role⟩) := by
  induction rows with
  | nil => rfl
  | cons x rows ih =>
    have hx := h x List.mem_cons_self
    have ih := ih fun y hy => h y (List.mem_cons_of_mem _ hy)
    obtain ⟨id, row⟩ := x
    rw [authenticate, hx]
    cases hp : p (id, row) with
    | false =>
      rw [List.find?_cons_of_neg (by simp [hp])]
      exact ih
    | true =>
      rw [List.find?_cons_of_pos hp]
      rfl

/-- A search for what is there once at most finds it, wherever it stands. -/
theorem find?_eq_some_iff_of_unique {α : Type} {p : α → Bool} {l : List α}
    (h : ∀ x ∈ l, ∀ y ∈ l, p x = true → p y = true → x = y) {x : α} :
    l.find? p = some x ↔ x ∈ l ∧ p x = true := by
  constructor
  · intro hx
    exact ⟨List.mem_of_find?_eq_some hx, List.find?_some hx⟩
  · rintro ⟨hmem, hp⟩
    obtain ⟨y, hy⟩ := Option.isSome_iff_exists.mp (List.find?_isSome.mpr ⟨x, hmem, hp⟩)
    rw [hy, h x hmem y (List.mem_of_find?_eq_some hy) hp (List.find?_some hy)]

/-! ## 5. What a history leaves in the table -/

theorem Issued.snoc {dig : Digests} {tr : List (Table ApiKeyId ApiKey × KeyOp)}
    {t : Table ApiKeyId ApiKey} {op : KeyOp} {id : ApiKeyId} {name : String} {role : ApiKeyRole}
    {rawKey : String} {salt : List UInt8} :
    Issued dig (tr ++ [(t, op)]) id name role rawKey salt ↔
      (op = .create id name role rawKey salt ∧
        (createApiKey t id (issue dig name role rawKey salt)).isSome = true) ∨
      (Issued dig tr id name role rawKey salt ∧ op ≠ .delete id) := by
  constructor
  · rintro ⟨a, u, b, htr, hins, hb⟩
    rcases List.eq_nil_or_concat b with rfl | ⟨b, x, rfl⟩
    · obtain ⟨-, hlast⟩ := List.append_inj' htr rfl
      obtain ⟨rfl, rfl⟩ := Prod.mk.inj (List.cons.inj hlast).1
      exact .inl ⟨rfl, hins⟩
    · rw [List.concat_eq_append, ← List.cons_append, ← List.append_assoc] at htr
      obtain ⟨rfl, hlast⟩ := List.append_inj' htr rfl
      obtain rfl := (List.cons.inj hlast).1
      exact .inr ⟨⟨a, u, b, rfl, hins, fun y hy => hb y (by simp [hy])⟩, hb (t, op) (by simp)⟩
  · rintro (⟨rfl, hins⟩ | ⟨⟨a, u, b, rfl, hins, hb⟩, hop⟩)
    · exact ⟨tr, t, [], rfl, hins, by simp⟩
    · refine ⟨a, u, b ++ [(t, op)], by simp, hins, ?_⟩
      intro x hx
      rcases List.mem_append.mp hx with hx | hx
      · exact hb x hx
      · rw [List.mem_singleton.mp hx]
        exact hop

/-- **The table is the history.**  A row is stored exactly when it was issued and not deleted
since. -/
theorem get_iff_issued {dig : Digests} {tr : List (Table ApiKeyId ApiKey × KeyOp)}
    {t : Table ApiKeyId ApiKey} (hrun : Run (keyStep dig) Table.empty tr t) :
    ∀ id row, t.get id = some row ↔ ∃ name role rawKey salt,
      Issued dig tr id name role rawKey salt ∧ row = issue dig name role rawKey salt := by
  have hany : Lts.Follows (fun _ _ _ => True) tr := fun _ _ _ _ => trivial
  refine Run.induct (J := fun tr t => ∀ id row, t.get id = some row ↔ ∃ name role rawKey salt,
    Issued dig tr id name role rawKey salt ∧ row = issue dig name role rawKey salt) ?_ ?_ hrun hany
  · intro id row
    simp only [Table.get_empty, reduceCtorEq, false_iff, not_exists, not_and]
    rintro name role rawKey salt ⟨a, u, b, htr, -⟩
    simp at htr
  · intro tr t op t' ih _ hstep id row
    cases op with
    | create id' name' role' rawKey' salt' =>
      obtain rfl := Option.some.inj hstep
      cases hins : createApiKey t id' (issue dig name' role' rawKey' salt') with
      | none =>
        simp only [Option.getD_none, ih id row, Issued.snoc]
        refine exists_congr fun name => exists_congr fun role => exists_congr fun rawKey =>
          exists_congr fun salt => and_congr_left fun _ => ?_
        constructor
        · exact fun h => .inr ⟨h, by simp⟩
        · rintro (⟨hop, hsome⟩ | ⟨h, -⟩)
          · obtain ⟨rfl, rfl, rfl, rfl, rfl⟩ := KeyOp.create.inj hop
            simp [hins] at hsome
          · exact h
      | some u =>
        have hbatch : t.insertAll [(id', issue dig name' role' rawKey' salt')] = some u := by
          unfold createApiKey at hins
          split at hins
          · exact hins
          · cases hins
        simp only [Option.getD_some, Table.get_insertAll_some hbatch, ih id row, Issued.snoc]
        constructor
        · rintro (⟨name, role, rawKey, salt, h, rfl⟩ | hnew)
          · exact ⟨name, role, rawKey, salt, .inr ⟨h, by simp⟩, rfl⟩
          · obtain ⟨rfl, rfl⟩ := Prod.mk.inj (List.mem_singleton.mp hnew)
            exact ⟨name', role', rawKey', salt', .inl ⟨rfl, by simp [hins]⟩, rfl⟩
        · rintro ⟨name, role, rawKey, salt, ⟨hop, -⟩ | ⟨h, -⟩, rfl⟩
          · obtain ⟨rfl, rfl, rfl, rfl, rfl⟩ := KeyOp.create.inj hop
            exact .inr List.mem_cons_self
          · exact .inl ⟨name, role, rawKey, salt, h, rfl⟩
    | delete id' =>
      obtain rfl := Option.some.inj hstep
      simp only [Table.get_delete_some, ih id row, Issued.snoc]
      constructor
      · rintro ⟨⟨name, role, rawKey, salt, h, rfl⟩, hid⟩
        exact ⟨name, role, rawKey, salt, .inr ⟨h, by simpa using Ne.symm hid⟩, rfl⟩
      · rintro ⟨name, role, rawKey, salt, ⟨hop, -⟩ | ⟨h, hop⟩, rfl⟩
        · cases hop
        · exact ⟨⟨name, role, rawKey, salt, h, rfl⟩, fun hid => hop (by rw [hid])⟩

theorem issuedKeys_snoc (dig : Digests) (tr : List (Table ApiKeyId ApiKey × KeyOp))
    (t : Table ApiKeyId ApiKey) (op : KeyOp) :
    issuedKeys dig (tr ++ [(t, op)]) = issuedKeys dig tr ++ (rawKey? dig t op).toList := by
  cases h : rawKey? dig t op <;> simp [issuedKeys, List.filterMap_append, h]

/-- A row of the history has its key among the issued ones. -/
theorem Issued.mem_issuedKeys {dig : Digests} {tr : List (Table ApiKeyId ApiKey × KeyOp)}
    {id : ApiKeyId} {name : String} {role : ApiKeyRole} {rawKey : String} {salt : List UInt8}
    (h : Issued dig tr id name role rawKey salt) : rawKey ∈ issuedKeys dig tr := by
  obtain ⟨a, u, b, rfl, hins, -⟩ := h
  refine List.mem_filterMap.mpr ⟨(u, .create id name role rawKey salt), by simp, ?_⟩
  simp [rawKey?, hins]

/-- No two rows of a history were issued for one key. -/
theorem Issued.unique {dig : Digests} {id id' : ApiKeyId} {name name' : String}
    {role role' : ApiKeyRole} {rawKey : String} {salt salt' : List UInt8} :
    ∀ {tr : List (Table ApiKeyId ApiKey × KeyOp)}, (issuedKeys dig tr).Nodup →
      Issued dig tr id name role rawKey salt → Issued dig tr id' name' role' rawKey salt' →
      id = id' ∧ name = name' ∧ role = role' ∧ salt = salt' := by
  intro tr
  induction tr using List.reverseRecOn with
  | nil =>
    rintro - ⟨a, u, b, htr, -⟩ -
    simp at htr
  | append_singleton tr x ih =>
    obtain ⟨t, op⟩ := x
    intro hnd h h'
    rw [issuedKeys_snoc, List.nodup_append] at hnd
    rw [Issued.snoc] at h h'
    obtain ⟨hop, hins⟩ | ⟨h, -⟩ := h
    · obtain ⟨hop', -⟩ | ⟨h', -⟩ := h'
      · obtain ⟨rfl, rfl, rfl, -, rfl⟩ := KeyOp.create.inj (hop.symm.trans hop')
        exact ⟨rfl, rfl, rfl, rfl⟩
      · exact absurd rfl (hnd.2.2 _ h'.mem_issuedKeys rawKey (by simp [hop, rawKey?, hins]))
    · obtain ⟨hop', hins'⟩ | ⟨h', -⟩ := h'
      · exact absurd rfl (hnd.2.2 _ h.mem_issuedKeys rawKey (by simp [hop', rawKey?, hins']))
      · exact ih hnd.1 h h'

/-! ## 6. Lookup by prefix -/

/-- The rows of the table verify a key, when the digests can tell it from the other keys, exactly
if they were issued for it. -/
theorem verify_row {dig : Digests} {tr : List (Table ApiKeyId ApiKey × KeyOp)}
    {t : Table ApiKeyId ApiKey} (hrun : Run (keyStep dig) Table.empty tr t) {rawKey : String}
    (hinj : ∀ k ∈ issuedKeys dig tr, ∀ salt,
      dig.derive (encode rawKey) salt PBKDF2_ITERATIONS =
        dig.derive (encode k) salt PBKDF2_ITERATIONS → rawKey = k)
    {x : ApiKeyId × ApiKey} (hx : x ∈ t.rows) :
    ∃ b, verifyApiKey dig rawKey x.2.keyHash = .ok b ∧
      (b = true ↔ ∃ salt, Issued dig tr x.1 x.2.name x.2.role rawKey salt) ∧
      (b = true → x.2.keyPrefix = keyPrefix dig rawKey) := by
  obtain ⟨id, row⟩ := x
  obtain ⟨name, role, k, salt, hissued, rfl⟩ :=
    (get_iff_issued hrun id row).mp (t.mem_rows_iff.mp hx)
  refine ⟨_, verifyApiKey_hashApiKey dig rawKey k salt, ?_, ?_⟩
  · rw [decide_eq_true_iff]
    constructor
    · intro hd
      obtain rfl := hinj k hissued.mem_issuedKeys salt hd
      exact ⟨salt, hissued⟩
    · rintro ⟨salt', h'⟩
      -- the row under this id is the one issued for the presented key
      have hrow := (get_iff_issued hrun id _).mpr ⟨_, _, _, _, h', rfl⟩
      have hsame := Option.some.inj ((t.mem_rows_iff.mp hx).symm.trans hrow)
      have hhash : hashApiKey dig k salt = hashApiKey dig rawKey salt' :=
        congrArg ApiKey.keyHash hsame
      have hfields := congrArg (List.splitOn 0x24) hhash
      rw [hashApiKey_fields, hashApiKey_fields] at hfields
      simp only [List.cons.injEq, true_and, and_true] at hfields
      rw [← Py.hex_injective hfields.1] at hfields
      exact (Py.hex_injective hfields.2).symm
  · intro hd
    rw [decide_eq_true_iff] at hd
    obtain rfl := hinj k hissued.mem_issuedKeys salt hd
    rfl

/-- **Lookup by prefix loses and confuses no key.**  After any history of creations and deletions
in which no key is issued twice, a presented key gets the context of a row exactly when that row
was issued for it and not deleted since; the rows behind the prefix answer as all rows would,
whatever order either come in, and nothing is raised. -/
theorem authenticate_issued (dig : Digests) {tr : List (Table ApiKeyId ApiKey × KeyOp)}
    {t : Table ApiKeyId ApiKey} (hrun : Run (keyStep dig) Table.empty tr t)
    (hdistinct : (issuedKeys dig tr).Nodup) (rawKey : String)
    (hinj : ∀ k ∈ issuedKeys dig tr, ∀ salt,
      dig.derive (encode rawKey) salt PBKDF2_ITERATIONS =
        dig.derive (encode k) salt PBKDF2_ITERATIONS → rawKey = k)
    {cs all : List (ApiKeyId × ApiKey)} (hcs : cs.Perm (candidates dig t rawKey))
    (hall : all.Perm t.rows) :
    (∀ ctx, authenticate dig rawKey cs = .ok (some ctx) ↔
      ∃ salt, Issued dig tr ctx.apiKeyId ctx.name ctx.role rawKey salt) ∧
    authenticate dig rawKey cs = authenticate dig rawKey all ∧
    ∃ answer, authenticate dig rawKey cs = .ok answer := by
  have hverify := fun x hx => verify_row (x := x) hrun hinj hx
  -- what a row answers
  let p : ApiKeyId × ApiKey → Bool := fun x => verifyApiKey dig rawKey x.2.keyHash matches .ok true
  have hp : ∀ x ∈ t.rows, verifyApiKey dig rawKey x.2.keyHash = .ok (p x) := by
    intro x hx
    obtain ⟨b, hb, -⟩ := hverify x hx
    cases b <;> simp [p, hb]
  have hissued : ∀ x ∈ t.rows, (p x = true ↔
      ∃ salt, Issued dig tr x.1 x.2.name x.2.role rawKey salt) := by
    intro x hx
    obtain ⟨b, hb, hiff, -⟩ := hverify x hx
    rw [← hiff, Except.ok.inj ((hp x hx).symm.trans hb)]
  have hunique : ∀ x ∈ t.rows, ∀ y ∈ t.rows, p x = true → p y = true → x = y := by
    intro x hx y hy hpx hpy
    obtain ⟨salt, h⟩ := (hissued x hx).mp hpx
    obtain ⟨salt', h'⟩ := (hissued y hy).mp hpy
    have hid : x.1 = y.1 := (h.unique hdistinct h').1
    have hrow : t.get x.1 = some y.2 := by
      rw [hid]
      exact t.mem_rows_iff.mp hy
    exact Prod.ext hid (Option.some.inj ((t.mem_rows_iff.mp hx).symm.trans hrow))
  have hcand : ∀ x, x ∈ cs ↔ x ∈ t.rows ∧ (x.2.keyPrefix == keyPrefix dig rawKey) = true := by
    intro x
    rw [hcs.mem_iff, candidates, List.mem_filter]
  -- the rows behind the prefix are searched for the same row as all rows
  have hfind : ∀ x, cs.find? p = some x ↔ x ∈ t.rows ∧ p x = true := by
    intro x
    rw [find?_eq_some_iff_of_unique fun y hy z hz =>
      hunique y ((hcand y).mp hy).1 z ((hcand z).mp hz).1]
    constructor
    · rintro ⟨hx, hpx⟩
      exact ⟨((hcand x).mp hx).1, hpx⟩
    · rintro ⟨hx, hpx⟩
      obtain ⟨b, hb, -, hstart⟩ := hverify x hx
      rw [← Except.ok.inj ((hp x hx).symm.trans hb)] at hstart
      exact ⟨(hcand x).mpr ⟨hx, beq_iff_eq.mpr (hstart hpx)⟩, hpx⟩
  have hfindAll : ∀ x, all.find? p = some x ↔ x ∈ t.rows ∧ p x = true := by
    intro x
    rw [find?_eq_some_iff_of_unique fun y hy z hz =>
      hunique y (hall.mem_iff.mp hy) z (hall.mem_iff.mp hz), hall.mem_iff]
  have heq : cs.find? p = all.find? p :=
    Option.ext fun x => (hfind x).trans (hfindAll x).symm
  have hans := authenticate_eq_find? fun x hx => hp x ((hcand x).mp hx).1
  refine ⟨?_, ?_, _, hans⟩
  · intro ctx
    rw [hans]
    simp only [Except.ok.injEq, Option.map_eq_some_iff, hfind]
    constructor
    · rintro ⟨x, ⟨hx, hpx⟩, rfl⟩
      exact (hissued x hx).mp hpx
    · rintro ⟨salt, h⟩
      have hx := t.mem_rows_iff.mpr ((get_iff_issued hrun ctx.apiKeyId _).mpr ⟨_, _, _, _, h, rfl⟩)
      exact ⟨_, ⟨hx, (hissued _ hx).mpr ⟨salt, h⟩⟩, rfl⟩
  · rw [hans, authenticate_eq_find? fun x hx => hp x (hall.mem_iff.mp hx), heq]

/-- The digests of two keys under two salts, as `hashlib` computes them. -/
def sampleDigests : Digests where
  sha256 bs := (Py.fromhex (str (
    if bs = encode "alpha" then "8ed3f6ad685b959ead7022518e1af76cd816f8e8ec7ccdda1ed4018e8f2223f8"
    else "f44e64e75f3948e9f73f8dfa94721c4ce8cbb4f265c4790c702b2d41cfbf2753"))).getD []
  derive password salt _ :=
    if salt = [1, 2] then (Py.fromhex (str (
      if password = encode "alpha" then
        "1dd6782abced2f79ed8f581af34b599f0680f4417a994db05008ac495f037dec"
      else "6274a5456eb09ce7eeca84308bcae88f978041349269fd996ef5d1ec900ae084"))).getD []
    else if salt = [3, 4] then (Py.fromhex (str (
      if password = encode "alpha" then
        "aafbcd2aeac16a58f4af8934c096970b4610f33c456c68447c5592ba568c4af4"
      else "46f7d1c617cdbc41f13fcced75affd439dfc6673ae2f448cb08d75f67ca7e5ce"))).getD []
    else password

theorem ok_of_toOption {ε α : Type} {x : Except ε α} {a : α} (h : x.toOption = some a) :
    x = .ok a := by
  cases x with
  | error e => cases h
  | ok b => rw [Option.some.inj h]

/-- Two keys are created and the first is deleted: the second opens its row, the first nothing. -/
theorem authenticate_issued_two : ∃ tr t,
    Run (keyStep sampleDigests) Table.empty tr t ∧
    tr.map Prod.snd = [.create 1 "console" .admin "alpha" [1, 2],
      .create 2 "laptop" .reviewer "beta" [3, 4], .delete 1] ∧
    (∃ salt, Issued sampleDigests tr 2 "laptop" .reviewer "beta" salt) ∧
    authenticate sampleDigests "beta" (candidates sampleDigests t "beta") =
      authenticate sampleDigests "beta" t.rows ∧
    ∀ id name role salt, ¬ Issued sampleDigests tr id name role "alpha" salt := by
  obtain ⟨tr, t, hrun, -, htest⟩ := Lts.exists_run_of_play (keyStep sampleDigests) Table.empty
    (fun _ _ => true) [.create 1 "console" .admin "alpha" [1, 2],
      .create 2 "laptop" .reviewer "beta" [3, 4], .delete 1]
    (fun tr t => decide (tr.map Prod.snd = [.create 1 "console" .admin "alpha" [1, 2],
        .create 2 "laptop" .reviewer "beta" [3, 4], .delete 1] ∧
      issuedKeys sampleDigests tr = ["alpha", "beta"] ∧
      (authenticate sampleDigests "beta" (candidates sampleDigests t "beta")).toOption =
        some (some ⟨2, "laptop", .reviewer⟩) ∧
      (authenticate sampleDigests "alpha" (candidates sampleDigests t "alpha")).toOption =
        some none)) (by decide +kernel)
  obtain ⟨hops, hkeys, hbeta, halpha⟩ := of_decide_eq_true htest
  have hdistinct : (issuedKeys sampleDigests tr).Nodup := by
    rw [hkeys]
    decide
  -- either key's digest differs from the other's under the two salts, and elsewhere
  have hinj : ∀ rawKey ∈ ["alpha", "beta"], ∀ k ∈ issuedKeys sampleDigests tr, ∀ salt,
      sampleDigests.derive (encode rawKey) salt PBKDF2_ITERATIONS =
        sampleDigests.derive (encode k) salt PBKDF2_ITERATIONS → rawKey = k := by
    rw [hkeys]
    intro rawKey hraw k hk salt
    simp only [sampleDigests]
    simp only [List.mem_cons, List.not_mem_nil, or_false] at hraw hk
    obtain rfl | hne := eq_or_ne rawKey k
    · exact fun _ => rfl
    · split
      · rcases hraw with rfl | rfl <;> rcases hk with rfl | rfl <;>
          first | exact absurd rfl hne | decide +kernel
      · split <;> rcases hraw with rfl | rfl <;> rcases hk with rfl | rfl <;>
          first | exact absurd rfl hne | decide +kernel
  obtain ⟨hb, hsame, -⟩ := authenticate_issued sampleDigests hrun hdistinct "beta"
    (hinj "beta" (by decide)) (.refl _) (.refl _)
  obtain ⟨ha, -, -⟩ := authenticate_issued sampleDigests hrun hdistinct "alpha"
    (hinj "alpha" (by decide)) (.refl _) (.refl _)
  refine ⟨tr, t, hrun, hops, ?_, hsame, ?_⟩
  · refine (hb ⟨2, "laptop", .reviewer⟩).mp ?_
    exact ok_of_toOption hbeta
  · intro id name role salt h
    have hsome := (ha ⟨id, name, role⟩).mpr ⟨salt, h⟩
    rw [ok_of_toOption halpha] at hsome
    cases hsome

end EvalHarness
