/-
# Getting the judge's JSON out of its answer (`extract_json`)

`extract_json` looks for a Markdown fence before it parses anything.  So an object whose own strings
hold two fences is taken apart at them, and one fence is enough once the object stands in a fenced
block.  `extractJson_dumps` says when each of the three accepted wrappings gives the object back:
exactly when the search finds no fence inside it, and, for an object in running text, when the text
in front does not begin with an integer that Python refuses to convert.

That a part of the text cut out at a fence never reads as the whole object is a count of backticks:
JSON has no other use for them (`Lib/PyJsonText`).
-/
import EvalHarness.Lib.PyJsonText

namespace EvalHarness

open Py (Str str partition removePrefix strip isSpace)
open Py.Json (loads dumps lex occ Quiet overlongInt isWs)

/-! ## 1. `extract_json` -/

/-- The JSON module of the interpreter, with the text of the `JSONDecodeError` for a document. -/
structure JsonLibrary where
  codec : Py.Codec
  decodeError : Str → Str

/-- What a judge's answer can raise on its way to a verdict. -/
inductive JudgeExc
  /-- `JudgeParseError`. -/
  | parse (text : Str)
  /-- pydantic's `ValidationError`. -/
  | validation (text : Str)
  | other (e : Py.Exc)
  deriving DecidableEq

def ticks : Str := [0x60, 0x60, 0x60]

/-- The group of the fence, stripped.  White space at its ends goes either way, so the pattern's
`\s*` needs no step of its own. -/
def fenced (s : Str) : Option Str :=
  (partition ticks s).bind fun x =>
    (partition ticks (removePrefix (str "json") x.2)).map fun y => strip y.1

/-- From the first opening brace to the last closing one. -/
def braces (s : Str) : Option Str :=
  let t := (s.dropWhile (· != 0x7b)).rdropWhile (· != 0x7d)
  if t = [] then none else some t

/-- The two parses of `extract_json`. -/
def extractFrom (lib : JsonLibrary) (stripped : Str) : Except JudgeExc Py.Json :=
  match loads lib.codec stripped with
  | .ok v => .ok v
  | .error .jsonDecodeError =>
    match braces stripped with
    | none => .error (.parse (str "no JSON object found in judge response"))
    | some t =>
      match loads lib.codec t with
      | .ok v => .ok v
      | .error .jsonDecodeError =>
        .error (.parse (str "no parseable JSON object found: " ++ lib.decodeError t))
      | .error e => .error (.other e)
  | .error e => .error (.other e)

/-- `extract_json`. -/
def extractJson (lib : JsonLibrary) (text : Str) : Except JudgeExc Py.Json :=
  let stripped := strip text
  extractFrom lib ((fenced stripped).getD stripped)

/-! ## 2. Fences -/

/-- Two fences, one behind the other. -/
def TwoFences (s : Str) : Prop := ∃ a b c, s = a ++ ticks ++ b ++ ticks ++ c

theorem ticks_ne_nil : ticks ≠ [] := by decide

theorem mem_ticks {c : Nat} : c ∈ ticks ↔ c = 0x60 := by simp [ticks]

theorem removePrefix_eq (p s : Str) :
    ∃ b, s = b ++ removePrefix p s ∧ (b = p ∨ b = []) := by
  unfold removePrefix
  split
  · rename_i h
    exact ⟨p, Py.eq_append_of_isPrefixOf h, .inl rfl⟩
  · exact ⟨[], rfl, .inr rfl⟩

/-- The group stands between two fences. -/
theorem fenced_eq {s part : Str} (h : fenced s = some part) :
    ∃ a b group c, s = a ++ ticks ++ (b ++ (group ++ (ticks ++ c))) ∧ part = strip group ∧
      (b = str "json" ∨ b = []) := by
  obtain ⟨⟨a, rest⟩, hfirst, h⟩ := Option.bind_eq_some_iff.mp h
  obtain ⟨⟨group, c⟩, hsecond, rfl⟩ := Option.map_eq_some_iff.mp h
  obtain ⟨b, hb, hjson⟩ := removePrefix_eq (str "json") rest
  refine ⟨a, b, group, c, ?_, rfl, hjson⟩
  rw [Py.partition_eq hfirst]
  congr 1
  rw [hb, Py.partition_eq hsecond]
  simp

theorem fenced_eq_none_iff {s : Str} : fenced s = none ↔ ¬ TwoFences s := by
  constructor
  · rintro hnone ⟨a, b, c, rfl⟩
    obtain ⟨a', x, hfirst⟩ := Py.partition_append ticks_ne_nil a (b ++ ticks ++ c)
    obtain ⟨p, hp, hjson⟩ := removePrefix_eq (str "json") (x ++ (b ++ ticks ++ c))
    have hfree : ∀ d ∈ p, d ∉ ticks := by
      rcases hjson with rfl | rfl <;> decide
    have hinfix : (partition ticks (x ++ (b ++ ticks ++ c))).isSome = true :=
      (Py.partition_isSome_iff ticks_ne_nil).mpr ⟨x ++ b, c, by simp⟩
    rw [hp, Py.partition_free_append ticks_ne_nil hfree, Option.isSome_map] at hinfix
    obtain ⟨y, hsecond⟩ := Option.isSome_iff_exists.mp hinfix
    simp only [List.append_assoc] at hfirst hnone hsecond
    simp [fenced, hfirst, hsecond] at hnone
  · intro h
    cases hf : fenced s with
    | none => rfl
    | some part =>
      obtain ⟨a, b, group, c, rfl, -, -⟩ := fenced_eq hf
      exact absurd ⟨a, b ++ group, c, by simp⟩ h

/-- Text without backticks around an object changes nothing for the search. -/
theorem partition_ticks_append {post : Str} (hpost : 0x60 ∉ post) (s : Str) :
    partition ticks (s ++ post) = (partition ticks s).map fun x => (x.1, x.2 ++ post) := by
  cases post with
  | nil => simp
  | cons c post =>
    have hfree : ∀ d ∈ c :: post, d ∉ ticks := fun d hd ht => hpost (mem_ticks.mp ht ▸ hd)
    rw [Py.partition_append_cons (hfree c List.mem_cons_self),
      Py.partition_free ticks_ne_nil hfree]
    cases partition ticks s <;> rfl

theorem fenced_around {pre post s : Str} (hpre : 0x60 ∉ pre) (hpost : 0x60 ∉ post) :
    fenced (pre ++ (s ++ [0x7d]) ++ post) = fenced (s ++ [0x7d]) := by
  have hfree : ∀ c ∈ pre, c ∉ ticks := fun c hc ht => hpre (mem_ticks.mp ht ▸ hc)
  rw [fenced, List.append_assoc, Py.partition_free_append ticks_ne_nil hfree,
    partition_ticks_append hpost, fenced]
  cases hfirst : partition ticks (s ++ [0x7d]) with
  | none => rfl
  | some x =>
    obtain ⟨a, rest⟩ := x
    -- what follows the fence still ends with the closing brace
    obtain ⟨rest, rfl⟩ : ∃ r, rest = r ++ [0x7d] := by
      have heq := Py.partition_eq hfirst
      rcases List.eq_nil_or_concat rest with rfl | ⟨r, c, rfl⟩
      · rw [List.append_nil, ticks] at heq
        have hlast := congrArg List.getLast? heq
        simp at hlast
      · rw [List.concat_eq_append, ← List.append_assoc] at heq
        obtain ⟨-, hc⟩ := List.append_inj' heq rfl
        exact ⟨r, by rw [List.concat_eq_append, hc]⟩
    have hlabel : removePrefix (str "json") (rest ++ [0x7d] ++ post) =
        removePrefix (str "json") (rest ++ [0x7d]) ++ post := by
      have hp : ∀ t, (str "json").isPrefixOf (rest ++ 0x7d :: t) = (str "json").isPrefixOf rest :=
        fun t => Py.isPrefixOf_append_cons (by decide)
      rw [removePrefix, removePrefix, List.append_assoc, List.singleton_append, hp, hp]
      split
      · rename_i h
        have hle : (str "json").length ≤ rest.length :=
          (List.isPrefixOf_iff_prefix.mp h).length_le
        rw [List.drop_append_of_le_length hle, List.drop_append_of_le_length hle]
        simp
      · simp
    simp only [Option.map_some, Option.bind_some, hlabel, partition_ticks_append hpost,
      Option.map_map]
    rfl

/-! ## 3. The braces of an object -/

theorem isSpace_brace : isSpace 0x7b = false ∧ isSpace 0x7d = false ∧ isSpace 0x60 = false := by
  decide

theorem isSpace_of_isWs {c : Nat} (h : isWs c = true) : isSpace c = true := by
  simp only [isWs, Bool.or_eq_true, beq_iff_eq] at h
  rcases h with ((rfl | rfl) | rfl) | rfl <;> decide

/-- An object has nothing to strip; what is stripped is what surrounds it. -/
theorem strip_around (pre post b : Str) :
    strip (pre ++ (0x7b :: b ++ [0x7d]) ++ post) =
      pre.dropWhile isSpace ++ (0x7b :: b ++ [0x7d]) ++ post.rdropWhile isSpace := by
  have hleft : pre ++ (0x7b :: b ++ [0x7d]) ++ post = pre ++ 0x7b :: (b ++ [0x7d] ++ post) := by
    simp
  have hright : pre.dropWhile isSpace ++ 0x7b :: (b ++ [0x7d] ++ post) =
      pre.dropWhile isSpace ++ 0x7b :: b ++ 0x7d :: post := by simp
  rw [strip, Py.stripOf, hleft, Py.dropWhile_append_cons isSpace_brace.1, hright,
    Py.rdropWhile_append_cons isSpace_brace.2.1]
  simp

theorem strip_object (b : Str) : strip (0x7b :: b ++ [0x7d]) = 0x7b :: b ++ [0x7d] := by
  simpa using strip_around [] [] b

theorem braces_around {pre post : Str} (hpre : 0x7b ∉ pre) (hpost : 0x7d ∉ post) (b : Str) :
    braces (pre ++ (0x7b :: b ++ [0x7d]) ++ post) = some (0x7b :: b ++ [0x7d]) := by
  have hnil : pre.dropWhile (· != 0x7b) = [] := by
    rw [List.dropWhile_eq_nil_iff]
    rintro c hc
    exact bne_iff_ne.mpr fun h => hpre (h ▸ hc)
  have hnil' : post.rdropWhile (· != 0x7d) = [] := by
    rw [List.rdropWhile_eq_nil_iff]
    rintro c hc
    exact bne_iff_ne.mpr fun h => hpost (h ▸ hc)
  have hleft : pre ++ (0x7b :: b ++ [0x7d]) ++ post = pre ++ 0x7b :: (b ++ [0x7d] ++ post) := by
    simp
  have hright : (0x7b :: (b ++ [0x7d] ++ post) : Str) = 0x7b :: b ++ 0x7d :: post := by simp
  rw [braces, hleft, Py.dropWhile_append_cons (by decide), hnil, List.nil_append, hright,
    Py.rdropWhile_append_cons (by decide), hnil']
  simp

/-! ## 4. A part of an object is not the object -/

theorem quiet_tick : Quiet 0x60 := ⟨by decide, by decide, by decide⟩

section Parts

variable {lib : JsonLibrary} {s group : Str} {v w : Py.Json}

theorem isSome_lex_strip (h : (lex 0x60 .plain group).isSome = true) :
    (lex 0x60 .plain (strip group)).isSome = true := by
  have hspace : 0x5c ∉ group.takeWhile isSpace := by
    intro hmem
    exact absurd (List.mem_takeWhile_imp hmem) (by decide)
  rw [← List.takeWhile_append_dropWhile (p := isSpace) (l := group)] at h
  have hdrop := Py.Json.lex_drop_of_notMem hspace h
  obtain ⟨t, ht⟩ := List.rdropWhile_prefix (p := isSpace) (l := group.dropWhile isSpace)
  rw [← ht] at hdrop
  exact Py.Json.isSome_lex_of_append hdrop

theorem strip_sublist (group : Str) : (strip group).Sublist group :=
  (List.rdropWhile_prefix _ _).sublist.trans (List.dropWhile_sublist _)

/-- A brace stands in no escape, so the search for braces takes none apart. -/
theorem braces_spec {t : Str} (h : braces s = some t) (hlex : (lex 0x60 .plain s).isSome = true) :
    (lex 0x60 .plain t).isSome = true ∧ t.Sublist s := by
  simp only [braces] at h
  split at h
  · cases h
  · rename_i hne
    obtain rfl := Option.some.inj h
    obtain ⟨rest, hrest⟩ := List.rdropWhile_prefix (p := (· != 0x7d)) (l := s.dropWhile (· != 0x7b))
    refine ⟨?_, (List.rdropWhile_prefix _ _).sublist.trans (List.dropWhile_sublist _)⟩
    cases hd : s.dropWhile (· != 0x7b) with
    | nil => simp [hd] at hne
    | cons c t =>
      have hc : c = 0x7b := by
        have hhead := List.head_dropWhile_not (p := (· != 0x7b)) (l := s) (by simp [hd])
        simpa [hd] using hhead
      subst hc
      rw [← List.takeWhile_append_dropWhile (p := (· != 0x7b)) (l := s), hd] at hlex
      have hdrop := Py.Json.lex_drop_of_stop (by decide) (by decide) (by decide) hlex
      rw [← hd, ← hrest] at hdrop
      exact hd ▸ Py.Json.isSome_lex_of_append hdrop

/-- What is read from a text holds no more backticks than the text. -/
theorem occ_le_of_extractFrom (hlex : (lex 0x60 .plain s).isSome = true)
    (h : extractFrom lib s = .ok w) : occ 0x60 w ≤ s.count 0x60 := by
  unfold extractFrom at h
  split at h
  · rename_i v hv
    obtain rfl := Except.ok.inj h
    exact Py.Json.occ_le_of_loads quiet_tick hlex hv
  · split at h
    · cases h
    · rename_i t ht
      obtain ⟨hlex', hsub⟩ := braces_spec ht hlex
      split at h
      · rename_i v hv
        obtain rfl := Except.ok.inj h
        exact (Py.Json.occ_le_of_loads quiet_tick hlex' hv).trans (hsub.count_le 0x60)
      · cases h
      · cases h
  · cases h

/-- **A part is not the whole.**  What stands between two fences in the text of a value, or in front
of one, is read as something else. -/
theorem extractFrom_strip_ne (hlex : (lex 0x60 .plain group).isSome = true)
    (hlt : group.count 0x60 < (dumps lib.codec v).count 0x60) :
    extractFrom lib (strip group) ≠ .ok v := by
  intro h
  have hle := occ_le_of_extractFrom (isSome_lex_strip hlex) h
  have hcount := (strip_sublist group).count_le 0x60
  rw [(Py.Json.dumps_clean quiet_tick v).2] at hlt
  omega

end Parts

/-! ## 5. The three wrappings -/

/-- Braces, brackets, the quotation mark and the backtick. -/
def marks : Str := [0x7b, 0x7d, 0x5b, 0x5d, 0x22, 0x60]

section Wrappings

variable {lib : JsonLibrary} {fields : List (Str × Py.Json)}

/-- The text of an object, its braces apart. -/
theorem dumps_obj (codec : Py.Codec) (fields : List (Str × Py.Json)) :
    dumps codec (.obj fields) =
      0x7b :: Py.Json.dumpsMembers codec true fields ++ [0x7d] := by
  simp [dumps]

/-- What the search cuts out of the object between two fences is not read as the object. -/
theorem extractFrom_fenced_ne {part : Str} (h : fenced (dumps lib.codec (.obj fields)) = some part) :
    extractFrom lib part ≠ .ok (.obj fields) := by
  obtain ⟨a, b, group, c, hs, rfl, hb⟩ := fenced_eq h
  have hclean := (@Py.Json.dumps_clean lib.codec 0x60 quiet_tick (.obj fields)).1
  have hslash : 0x5c ∉ ticks ++ b := by
    rcases hb with rfl | rfl <;> decide
  have hlex : (lex 0x60 .plain (dumps lib.codec (.obj fields))).isSome = true := by
    rw [hclean]
    rfl
  rw [hs, List.append_assoc] at hlex
  have hstop := Py.Json.lex_drop_of_stop (by decide) (by decide) (by decide) hlex
  have hafter : (lex 0x60 .plain (ticks ++ b ++ (group ++ (ticks ++ c)))).isSome = true := by
    rw [List.append_assoc]
    exact hstop
  have hgroup := Py.Json.lex_drop_of_notMem hslash hafter
  refine extractFrom_strip_ne (Py.Json.isSome_lex_of_append hgroup) ?_
  rw [hs]
  simp only [List.count_append]
  have hthree : ticks.count 0x60 = 3 := by decide
  omega

/-- In front of a fence there is only a part of the object. -/
theorem extractFrom_front_ne {a b : Str}
    (h : partition ticks (dumps lib.codec (.obj fields)) = some (a, b)) :
    extractFrom lib (strip (0x0a :: a)) ≠ .ok (.obj fields) := by
  have hs := Py.partition_eq h
  have hlex : (lex 0x60 .plain (dumps lib.codec (.obj fields))).isSome = true := by
    rw [(Py.Json.dumps_clean quiet_tick _).1]
    rfl
  rw [hs, List.append_assoc] at hlex
  refine extractFrom_strip_ne ?_ ?_
  · rw [Py.Json.lex_cons]
    exact Py.Json.isSome_lex_of_append hlex
  · rw [hs]
    simp only [List.count_append, List.count_cons]
    have hthree : ticks.count 0x60 = 3 := by decide
    simp [hthree]
    omega

theorem extractJson_direct
    (hloads : loads lib.codec (dumps lib.codec (.obj fields)) = .ok (.obj fields)) :
    extractJson lib (dumps lib.codec (.obj fields)) = .ok (.obj fields) ↔
      ¬ TwoFences (dumps lib.codec (.obj fields)) := by
  have hstrip : strip (dumps lib.codec (.obj fields)) = dumps lib.codec (.obj fields) := by
    rw [dumps_obj, strip_object]
  simp only [extractJson, hstrip, ← fenced_eq_none_iff]
  cases hf : fenced (dumps lib.codec (.obj fields)) with
  | none => simp [extractFrom, hloads]
  | some part => simpa using extractFrom_fenced_ne hf

theorem extractJson_block
    (hloads : loads lib.codec (dumps lib.codec (.obj fields)) = .ok (.obj fields)) :
    extractJson lib (ticks ++ str "json\n" ++ dumps lib.codec (.obj fields) ++ str "\n" ++ ticks) =
        .ok (.obj fields) ↔
      ¬ ticks <:+: dumps lib.codec (.obj fields) := by
  have hnl : ∀ c ∈ ([0x0a] : Str), c ∉ ticks := by decide
  have htext : ticks ++ str "json\n" ++ dumps lib.codec (.obj fields) ++ str "\n" ++ ticks =
      0x60 :: 0x60 :: 0x60 ::
        (str "json" ++ ([0x0a] ++ (dumps lib.codec (.obj fields) ++ 0x0a :: ticks))) := by
    simp [ticks, str]
  have hfirst : partition ticks (0x60 :: 0x60 :: 0x60 ::
      (str "json" ++ ([0x0a] ++ (dumps lib.codec (.obj fields) ++ 0x0a :: ticks)))) =
      some ([], str "json" ++ ([0x0a] ++ (dumps lib.codec (.obj fields) ++ 0x0a :: ticks))) := rfl
  have hlabel : removePrefix (str "json")
      (str "json" ++ ([0x0a] ++ (dumps lib.codec (.obj fields) ++ 0x0a :: ticks))) =
      [0x0a] ++ (dumps lib.codec (.obj fields) ++ 0x0a :: ticks) := by
    simp [removePrefix]
  have hstrip : strip (ticks ++ str "json\n" ++ dumps lib.codec (.obj fields) ++ str "\n" ++ ticks) =
      ticks ++ str "json\n" ++ dumps lib.codec (.obj fields) ++ str "\n" ++ ticks := by
    refine Py.stripOf_eq_self ?_ ?_
    · intro c hc
      rw [htext] at hc
      obtain rfl := Option.some.inj hc
      exact isSpace_brace.2.2
    · intro c hc
      rw [List.getLast?_append_of_ne_nil _ ticks_ne_nil] at hc
      obtain rfl := Option.some.inj hc
      exact isSpace_brace.2.2
  simp only [extractJson, hstrip]
  rw [htext, fenced, hfirst, Option.bind_some, hlabel,
    Py.partition_free_append ticks_ne_nil hnl, Py.partition_append_cons (by decide)]
  cases hinner : partition ticks (dumps lib.codec (.obj fields)) with
  | none =>
    have hgroup : strip (0x0a :: (dumps lib.codec (.obj fields) ++ [0x0a])) =
        dumps lib.codec (.obj fields) := by
      have haround := strip_around [0x0a] [0x0a] (Py.Json.dumpsMembers lib.codec true fields)
      have hleft : ([0x0a] : Str).dropWhile isSpace = [] := by decide
      have hright : ([0x0a] : Str).rdropWhile isSpace = [] := by decide
      rw [← dumps_obj, hleft, hright] at haround
      simpa using haround
    have hnot : ¬ ticks <:+: dumps lib.codec (.obj fields) := by
      rw [← Py.partition_isSome_iff ticks_ne_nil, hinner]
      simp
    have hend : partition ticks (0x0a :: ticks) = some ([0x0a], []) := rfl
    simp [hend, hgroup, extractFrom, hloads, hnot]
  | some x =>
    have hin : ticks <:+: dumps lib.codec (.obj fields) := by
      rw [← Py.partition_isSome_iff ticks_ne_nil, hinner]
      rfl
    simpa [hin] using extractFrom_front_ne hinner

/-- Without a fence, running text around an object stands in the way only when it begins with an
integer Python does not convert. -/
theorem extractFrom_around {b pre post : Str} {v : Py.Json}
    (hloads : loads lib.codec (0x7b :: b ++ [0x7d]) = .ok v) (hpre : ∀ c ∈ pre, c ∉ marks)
    (hpost : ∀ c ∈ post, c ∉ marks) (hhead : ∀ c p, pre = c :: p → isSpace c = false) :
    extractFrom lib (pre ++ (0x7b :: b ++ [0x7d]) ++ post) = .ok v ↔ overlongInt pre = false := by
  have hbraces : braces (pre ++ (0x7b :: b ++ [0x7d]) ++ post) = some (0x7b :: b ++ [0x7d]) :=
    braces_around (fun h => hpre _ h (by decide)) (fun h => hpost _ h (by decide)) b
  cases pre with
  | nil =>
    have hlong : overlongInt [] = false := by decide
    have hread := Py.Json.loads_append hloads post
    rw [List.nil_append] at hbraces ⊢
    simp only [hlong, iff_true]
    unfold extractFrom
    rw [hread]
    cases post.all isWs with
    | true => rfl
    | false => simp only [Bool.false_eq_true, if_false, hbraces, hloads]
  | cons c p =>
    have hmark : ∀ d ∈ marks, c ≠ d := fun d hd h => hpre c List.mem_cons_self (h ▸ hd)
    have hws : isWs c = false := by
      have hspace := hhead c p rfl
      cases hc : isWs c with
      | false => rfl
      | true =>
        rw [isSpace_of_isWs hc] at hspace
        cases hspace
    have hread := @Py.Json.loads_prefix lib.codec c p (b ++ [0x7d] ++ post) hws
      ⟨hmark _ (by decide), hmark _ (by decide), hmark _ (by decide)⟩
    have htext : c :: p ++ (0x7b :: b ++ [0x7d]) ++ post =
        c :: p ++ 0x7b :: (b ++ [0x7d] ++ post) := by simp
    rw [htext] at hbraces ⊢
    unfold extractFrom
    rw [hread, Py.Json.prefixError]
    cases overlongInt (c :: p) with
    | true => simp
    | false => simp only [Bool.false_eq_true, if_false, hbraces, hloads]

theorem extractJson_text
    (hloads : loads lib.codec (dumps lib.codec (.obj fields)) = .ok (.obj fields))
    {pre post : Str} (hpre : ∀ c ∈ pre, c ∉ marks) (hpost : ∀ c ∈ post, c ∉ marks) :
    extractJson lib (pre ++ dumps lib.codec (.obj fields) ++ post) = .ok (.obj fields) ↔
      ¬ TwoFences (dumps lib.codec (.obj fields)) ∧
      overlongInt (pre.dropWhile isSpace) = false := by
  have hpre' : ∀ c ∈ pre.dropWhile isSpace, c ∉ marks :=
    fun c hc => hpre c ((List.dropWhile_sublist _).subset hc)
  have hpost' : ∀ c ∈ post.rdropWhile isSpace, c ∉ marks :=
    fun c hc => hpost c ((List.rdropWhile_prefix _ _).subset hc)
  have hhead : ∀ c p, pre.dropWhile isSpace = c :: p → isSpace c = false := by
    intro c p hcp
    have hnot := List.head_dropWhile_not (p := isSpace) (l := pre) (by simp [hcp])
    simpa [hcp] using hnot
  have hfence := fenced_around (s := 0x7b :: Py.Json.dumpsMembers lib.codec true fields)
    (fun h => hpre' _ h (by decide)) (fun h => hpost' _ h (by decide))
  rw [← dumps_obj] at hfence
  have hstrip := strip_around pre post (Py.Json.dumpsMembers lib.codec true fields)
  rw [← dumps_obj] at hstrip
  simp only [extractJson, hstrip, hfence, ← fenced_eq_none_iff]
  cases hf : fenced (dumps lib.codec (.obj fields)) with
  | some part => simpa using extractFrom_fenced_ne hf
  | none =>
    rw [dumps_obj] at hloads ⊢
    simpa using extractFrom_around hloads hpre' hpost' hhead

/-- **`extract_json` undoes serialisation.**  An object comes back from its own text exactly when the
text holds no two fences, out of a fenced block exactly when it holds no fence, and from running
text exactly when it holds no two fences and the text in front begins with no overlong integer. -/
theorem extractJson_dumps (lib : JsonLibrary) (fields : List (Str × Py.Json))
    (hloads : loads lib.codec (dumps lib.codec (.obj fields)) = .ok (.obj fields)) :
    (extractJson lib (dumps lib.codec (.obj fields)) = .ok (.obj fields) ↔
      ¬ TwoFences (dumps lib.codec (.obj fields))) ∧
    (extractJson lib (ticks ++ str "json\n" ++ dumps lib.codec (.obj fields) ++ str "\n" ++ ticks) =
        .ok (.obj fields) ↔
      ¬ ticks <:+: dumps lib.codec (.obj fields)) ∧
    ∀ pre post : Str, (∀ c ∈ pre, c ∉ marks) → (∀ c ∈ post, c ∉ marks) →
      (extractJson lib (pre ++ dumps lib.codec (.obj fields) ++ post) = .ok (.obj fields) ↔
        ¬ TwoFences (dumps lib.codec (.obj fields)) ∧
        overlongInt (pre.dropWhile isSpace) = false) :=
  ⟨extractJson_direct hloads, extractJson_block hloads,
    fun _ _ hpre hpost => extractJson_text hloads hpre hpost⟩

end Wrappings

/-- A reader for texts without fractions, which is all the samples need. -/
def plainJson : JsonLibrary where
  codec :=
    { readFloat := fun _ => .num 0
      showFloat := fun _ => [0x30]
      showFloat_chars := fun _ => by decide
      depth := 1000 }
  decodeError _ := str "Expecting value: line 1 column 1 (char 0)"

/-- The object of the tests comes back from all three wrappings. -/
theorem extractJson_dumps_small :
    extractJson plainJson (dumps plainJson.codec (.obj [(str "a", .int 1)])) =
        .ok (.obj [(str "a", .int 1)]) ∧
    extractJson plainJson (ticks ++ str "json\n" ++
        dumps plainJson.codec (.obj [(str "a", .int 1)]) ++ str "\n" ++ ticks) =
      .ok (.obj [(str "a", .int 1)]) ∧
    extractJson plainJson (str "Here it is: " ++
        dumps plainJson.codec (.obj [(str "a", .int 1)]) ++ str ". Thanks!") =
      .ok (.obj [(str "a", .int 1)]) := by
  have hclean : ¬ ticks <:+: dumps plainJson.codec (.obj [(str "a", .int 1)]) := by decide +kernel
  have htwo : ¬ TwoFences (dumps plainJson.codec (.obj [(str "a", .int 1)])) := by
    rintro ⟨a, b, c, h⟩
    exact hclean ⟨a ++ ticks ++ b, c, h.symm⟩
  obtain ⟨hdirect, hblock, htext⟩ := extractJson_dumps plainJson [(str "a", .int 1)] rfl
  exact ⟨hdirect.mpr htwo, hblock.mpr hclean, (htext (str "Here it is: ") (str ". Thanks!")
    (by decide) (by decide)).mpr ⟨htwo, by decide⟩⟩

/-- An answer that quotes two fences is cut in two. -/
theorem extractJson_loses : ¬ ∀ (lib : JsonLibrary) (fields : List (Str × Py.Json)),
    loads lib.codec (dumps lib.codec (.obj fields)) = .ok (.obj fields) →
      extractJson lib (dumps lib.codec (.obj fields)) = .ok (.obj fields) := by
  intro hall
  have h := hall plainJson [(str "a", .str (ticks ++ str " x " ++ ticks))] rfl
  have hparse : extractJson plainJson
      (dumps plainJson.codec (.obj [(str "a", .str (ticks ++ str " x " ++ ticks))])) =
      .error (.parse (str "no JSON object found in judge response")) := rfl
  rw [hparse] at h
  cases h

end EvalHarness
