import NativeKiln.Codec.JsNumber
import Mathlib.Data.List.Basic
import Mathlib.Data.List.Nodup
import Mathlib.Logic.Function.Basic

/-!
# Schemas

The part of the schema library (zod 3.24.1) that the configuration is written in: strings with
checks, enumerations, coerced numbers with checks, and the wrappers `transform`, `default` and
`optional`. A value that does not satisfy a schema is reported as a list of issues; an issue has a
message, which is the one the schema gives or the default one.

A check is one step of a schema (`Check`). The message of an issue is a function of the failed check
with one exception: an enumeration quotes the value it has received (`message_eq`).
-/

namespace NativeKiln

open JsString (lit)

/-- What a schema takes and returns. -/
inductive JsValue
  | undefined
  | string (s : JsString)
  | number (x : JsNumber)
  | boolean (b : Bool)

namespace JsValue

/-- `Number(v)`. -/
def toNumber : JsValue → JsNumber
  | undefined => 0 / 0
  | string s => JsNumber.ofString s
  | number x => x
  | boolean b => if b then 1 else 0

/-- The type of a value, as the library names it. -/
def parsedType : JsValue → JsString
  | undefined => lit "undefined"
  | string _ => lit "string"
  | number x => if x.isNaN then lit "nan" else lit "number"
  | boolean _ => lit "boolean"

/-- The value is a string. -/
def IsString : JsValue → Prop
  | string _ => True
  | _ => False

end JsValue

namespace Zod

/-! ## Issues -/

/-- What is wrong with a value. -/
inductive IssueData
  | invalid_type (expected received : JsString)
  | invalid_enum_value (options : List JsString) (received : JsString)
  | invalid_string (validation : JsString)
  | too_small (type : JsString) (minimum : ℤ) (inclusive : Bool)
  | too_big (type : JsString) (maximum : ℤ) (inclusive : Bool)

/-- An issue, with the path it was found under and the message the schema gives for it, if any. -/
structure Issue where
  path : List JsString
  data : IssueData
  given : Option JsString

/-- `util.joinValues`. -/
def joinValues (values : List JsString) : JsString :=
  (lit " | ").intercalate (values.map fun v ↦ lit "'" ++ v ++ lit "'")

/-- The default messages. -/
def defaultErrorMap : IssueData → JsString
  | .invalid_type expected received =>
    if received = lit "undefined" then lit "Required"
    else lit "Expected " ++ expected ++ lit ", received " ++ received
  | .invalid_enum_value options received =>
    lit "Invalid enum value. Expected " ++ joinValues options ++ lit ", received '" ++ received ++
      lit "'"
  | .invalid_string validation =>
    if validation = lit "regex" then lit "Invalid" else lit "Invalid " ++ validation
  | .too_small type minimum inclusive =>
    if type = lit "string" then
      lit "String must contain " ++ (if inclusive then lit "at least" else lit "over") ++ lit " " ++
        JsString.ofInt minimum ++ lit " character(s)"
    else
      lit "Number must be " ++
        (if inclusive then lit "greater than or equal to " else lit "greater than ") ++
        JsString.ofInt minimum
  | .too_big type maximum inclusive =>
    if type = lit "string" then
      lit "String must contain " ++ (if inclusive then lit "at most" else lit "under") ++ lit " " ++
        JsString.ofInt maximum ++ lit " character(s)"
    else
      lit "Number must be " ++
        (if inclusive then lit "less than or equal to" else lit "less than") ++ lit " " ++
        JsString.ofInt maximum

def Issue.message (i : Issue) : JsString := i.given.getD (defaultErrorMap i.data)

/-! ## Schemas -/

inductive StringCheck
  | min (value : ℕ) (message : Option JsString)
  | regex (matches? : JsString → Bool) (message : Option JsString)
  | url

inductive NumberCheck
  | int
  | min (value : ℤ) (inclusive : Bool)
  | max (value : ℤ) (inclusive : Bool)

inductive Schema
  | string (checks : List StringCheck)
  | enum (values : List JsString)
  /-- `z.coerce.number()`. -/
  | number (checks : List NumberCheck)
  | transform (inner : Schema) (f : JsValue → JsValue)
  | default (inner : Schema) (value : JsValue)
  | optional (inner : Schema)

/-- The issue of a value of the wrong type. -/
def invalidTypeOf (expected : JsString) (v : JsValue) : Issue :=
  ⟨[], .invalid_type expected v.parsedType, none⟩

/-- A string fails a check. `isUrl` is whether `new URL` takes the string. -/
def StringCheck.fails (isUrl : JsString → Bool) (s : JsString) : StringCheck → Bool
  | min value _ => s.length < value
  | regex matches? _ => !matches? s
  | url => !isUrl s

/-- The issue that is added for a string that fails a check. -/
def StringCheck.issue : StringCheck → Issue
  | min value message => ⟨[], .too_small (lit "string") value true, message⟩
  | regex _ message => ⟨[], .invalid_string (lit "regex"), message⟩
  | url => ⟨[], .invalid_string (lit "url"), none⟩

/-- A number fails a check. -/
def NumberCheck.fails (x : JsNumber) : NumberCheck → Bool
  | int => !JsNumber.isInteger x
  | min value inclusive => if inclusive then x < Float.ofInt value else x ≤ Float.ofInt value
  | max value inclusive => if inclusive then x > Float.ofInt value else x ≥ Float.ofInt value

/-- The issue that is added for a number that fails a check. -/
def NumberCheck.issue : NumberCheck → Issue
  | int => ⟨[], .invalid_type (lit "integer") (lit "float"), none⟩
  | min value inclusive => ⟨[], .too_small (lit "number") value inclusive, none⟩
  | max value inclusive => ⟨[], .too_big (lit "number") value inclusive, none⟩

/-- The value, unless there are issues. -/
def accept (v : JsValue) (issues : List Issue) : Except (List Issue) JsValue :=
  if issues.isEmpty then .ok v else .error issues

namespace Schema

variable (isUrl : JsString → Bool)

/-- `safeParse` of one value. -/
def safeParse : Schema → JsValue → Except (List Issue) JsValue
  | string checks, v =>
    match v with
    | .string s => accept (.string s) ((checks.filter (·.fails isUrl s)).map StringCheck.issue)
    | v => .error [invalidTypeOf (lit "string") v]
  | enum values, v =>
    match v with
    | .string s =>
      if s ∈ values then .ok (.string s)
      else .error [⟨[], .invalid_enum_value values s, none⟩]
    | v => .error [invalidTypeOf (joinValues values) v]
  | number checks, v =>
    let x := v.toNumber
    if x.isNaN then .error [invalidTypeOf (lit "number") (.number x)]
    else accept (.number x) ((checks.filter (·.fails x)).map NumberCheck.issue)
  | transform inner f, v => (inner.safeParse v).map f
  | default inner value, v =>
    inner.safeParse (match v with
      | .undefined => value
      | v => v)
  | optional inner, v =>
    match v with
    | .undefined => .ok .undefined
    | v => inner.safeParse v

/-- The issues of a value. -/
def issues (schema : Schema) (v : JsValue) : List Issue :=
  match schema.safeParse isUrl v with
  | .ok _ => []
  | .error issues => issues

end Schema

/-! ## Failed checks -/

/-- A step of a schema that a value can fail: the value is there, it has the right type, and it
passes each of the checks, named by what the schema says about it. -/
inductive Check
  | presence
  | type
  | integer
  | length (minimum : ℤ) (message : Option JsString)
  | lower (minimum : ℤ) (inclusive : Bool)
  | upper (maximum : ℤ) (inclusive : Bool)
  | pattern (message : Option JsString)
  | url
  | membership
  deriving DecidableEq

/-- The step an issue is about. -/
def Issue.check (i : Issue) : Check :=
  match i.data with
  | .invalid_type _ received =>
    if received = lit "undefined" then .presence
    else if received = lit "float" then .integer
    else .type
  | .invalid_enum_value _ _ => .membership
  | .invalid_string validation => if validation = lit "regex" then .pattern i.given else .url
  | .too_small type minimum inclusive =>
    if type = lit "string" then .length minimum i.given else .lower minimum inclusive
  | .too_big _ maximum inclusive => .upper maximum inclusive

/-- The message of a failed check, for the checks of strings and numbers. -/
def Check.message : Check → JsString
  | integer => defaultErrorMap (.invalid_type (lit "integer") (lit "float"))
  | length minimum given => given.getD (defaultErrorMap (.too_small (lit "string") minimum true))
  | lower minimum inclusive => defaultErrorMap (.too_small (lit "number") minimum inclusive)
  | upper maximum inclusive => defaultErrorMap (.too_big (lit "number") maximum inclusive)
  | pattern given => given.getD (defaultErrorMap (.invalid_string (lit "regex")))
  | url => defaultErrorMap (.invalid_string (lit "url"))
  | presence | type | membership => []

/-- The issue is one of a check of strings or numbers, and its message says which. -/
structure Issue.Plain (i : Issue) : Prop where
  message : i.message = i.check.message
  presence : i.check ≠ .presence
  type : i.check ≠ .type
  membership : i.check ≠ .membership

variable {isUrl : JsString → Bool} {i j : Issue}

theorem StringCheck.plain (c : StringCheck) : c.issue.Plain := by
  have hurl : lit "url" ≠ lit "regex" := by decide
  constructor
  · rcases c with _ | _ | _ <;> rfl
  all_goals rcases c with _ | _ | _ <;> simp [StringCheck.issue, Issue.check, hurl]

theorem NumberCheck.plain (c : NumberCheck) : c.issue.Plain := by
  have hfloat : lit "float" ≠ lit "undefined" := by decide
  have hnumber : lit "number" ≠ lit "string" := by decide
  constructor
  · rcases c with _ | _ | _ <;> rfl
  all_goals rcases c with _ | _ | _ <;> simp [NumberCheck.issue, Issue.check, hfloat, hnumber]

theorem check_invalidTypeOf (expected : JsString) (v : JsValue) :
    (invalidTypeOf expected v).check = .presence ∨ (invalidTypeOf expected v).check = .type := by
  have hfloat : v.parsedType ≠ lit "float" := by
    rcases v with _ | _ | x | _ <;> rw [JsValue.parsedType]
    · decide
    · decide
    · split <;> decide
    · decide
  rw [invalidTypeOf, Issue.check]
  by_cases h : v.parsedType = lit "undefined"
  · exact Or.inl (if_pos h)
  · exact Or.inr (by simp [h, hfloat])

namespace Schema

theorem issues_accept {v : JsValue} {l : List Issue} :
    (match accept v l with
      | .ok _ => []
      | .error issues => issues) = l := by
  rw [accept]
  cases l <;> rfl

@[simp] theorem issues_string (checks : List StringCheck) (s : JsString) :
    (string checks).issues isUrl (.string s) =
      (checks.filter (·.fails isUrl s)).map StringCheck.issue := by
  rw [issues, safeParse]
  exact issues_accept

theorem issues_string_of_not {checks : List StringCheck} {v : JsValue} (h : ¬v.IsString) :
    (string checks).issues isUrl v = [invalidTypeOf (lit "string") v] := by
  rcases v with _ | s | _ | _
  · rfl
  · exact absurd trivial h
  · rfl
  · rfl

@[simp] theorem issues_enum (values : List JsString) (s : JsString) :
    (enum values).issues isUrl (.string s) =
      if s ∈ values then [] else [⟨[], .invalid_enum_value values s, none⟩] := by
  rw [issues, safeParse]
  by_cases h : s ∈ values
  · simp [h]
  · simp [h]

theorem issues_enum_of_not {values : List JsString} {v : JsValue} (h : ¬v.IsString) :
    (enum values).issues isUrl v = [invalidTypeOf (joinValues values) v] := by
  rcases v with _ | s | _ | _
  · rfl
  · exact absurd trivial h
  · rfl
  · rfl

theorem issues_number (checks : List NumberCheck) (v : JsValue) :
    (number checks).issues isUrl v =
      if v.toNumber.isNaN then [⟨[], .invalid_type (lit "number") (lit "nan"), none⟩]
      else (checks.filter (·.fails v.toNumber)).map NumberCheck.issue := by
  rw [issues, safeParse]
  by_cases h : v.toNumber.isNaN
  · have hparsed : (JsValue.number v.toNumber).parsedType = lit "nan" := if_pos h
    simp only [if_pos h, invalidTypeOf, hparsed]
  · simp only [h]
    exact issues_accept

@[simp] theorem issues_transform (inner : Schema) (f : JsValue → JsValue) (v : JsValue) :
    (transform inner f).issues isUrl v = inner.issues isUrl v := by
  rw [issues, safeParse, issues]
  cases inner.safeParse isUrl v <;> rfl

@[simp] theorem issues_default (inner : Schema) (value v : JsValue) :
    (default inner value).issues isUrl v =
      inner.issues isUrl (match v with
        | .undefined => value
        | v => v) := rfl

@[simp] theorem issues_optional_undefined (inner : Schema) :
    (optional inner).issues isUrl .undefined = [] := rfl

theorem issues_optional {inner : Schema} {v : JsValue} (h : v ≠ .undefined) :
    (optional inner).issues isUrl v = inner.issues isUrl v := by
  rcases v with _ | _ | _ | _
  · exact absurd rfl h
  all_goals rfl

/-- Two values that one environment variable can have: at most one of them is no string, or they are
the same. -/
def Comparable (x y : JsValue) : Prop := x = y ∨ x.IsString ∨ y.IsString

/-- **Issues quote no values.** What the same failed check of a schema is reported as depends on the
value only if the check is that of an enumeration. -/
theorem message_eq {schema : Schema} {x y : JsValue} (hxy : Comparable x y)
    (hi : i ∈ schema.issues isUrl x) (hj : j ∈ schema.issues isUrl y) (hcheck : i.check = j.check)
    (hmembership : i.check ≠ .membership) : i.message = j.message := by
  induction schema generalizing x y with
  | string checks =>
    -- a string fails checks, everything else has the wrong type
    have hplain : ∀ {i v}, v.IsString → i ∈ (string checks).issues isUrl v → i.Plain := by
      rintro i (_ | s | _ | _) hv hi
      · exact absurd hv id
      · rw [issues_string] at hi
        obtain ⟨c, -, rfl⟩ := List.mem_map.mp hi
        exact c.plain
      · exact absurd hv id
      · exact absurd hv id
    have hwrong : ∀ {i v}, ¬v.IsString → i ∈ (string checks).issues isUrl v →
        i = invalidTypeOf (lit "string") v := by
      intro i v hv hi
      rw [issues_string_of_not hv] at hi
      exact List.mem_singleton.mp hi
    by_cases hx : x.IsString
    · by_cases hy : y.IsString
      · rw [(hplain hx hi).message, (hplain hy hj).message, hcheck]
      · have hc := check_invalidTypeOf (lit "string") y
        rw [← hwrong hy hj, ← hcheck] at hc
        exact (hc.elim (hplain hx hi).presence (hplain hx hi).type).elim
    · by_cases hy : y.IsString
      · have hc := check_invalidTypeOf (lit "string") x
        rw [← hwrong hx hi, hcheck] at hc
        exact (hc.elim (hplain hy hj).presence (hplain hy hj).type).elim
      · obtain rfl := hxy.resolve_right (by simp [hx, hy])
        rw [hwrong hx hi, hwrong hx hj]
  | enum values =>
    have hmember : ∀ {i v}, v.IsString → i ∈ (enum values).issues isUrl v →
        i.check = .membership := by
      rintro i (_ | s | _ | _) hv hi
      · exact absurd hv id
      · rw [issues_enum] at hi
        split at hi
        · exact absurd hi List.not_mem_nil
        · rw [List.mem_singleton.mp hi]
          rfl
      · exact absurd hv id
      · exact absurd hv id
    have hx : ¬x.IsString := fun hx ↦ hmembership (hmember hx hi)
    have hy : ¬y.IsString := fun hy ↦ hmembership (hcheck.trans (hmember hy hj))
    obtain rfl := hxy.resolve_right (by simp [hx, hy])
    rw [issues_enum_of_not hx] at hi hj
    rw [List.mem_singleton.mp hi, List.mem_singleton.mp hj]
  | number checks =>
    have hcases : ∀ {i v}, i ∈ (number checks).issues isUrl v →
        i = ⟨[], .invalid_type (lit "number") (lit "nan"), none⟩ ∨ i.Plain := by
      intro i v hi
      rw [issues_number] at hi
      split at hi
      · exact Or.inl (List.mem_singleton.mp hi)
      · obtain ⟨c, -, rfl⟩ := List.mem_map.mp hi
        exact Or.inr c.plain
    rcases hcases hi with rfl | hi <;> rcases hcases hj with rfl | hj
    · rfl
    · exact absurd hcheck.symm hj.type
    · exact absurd hcheck hi.type
    · rw [hi.message, hj.message, hcheck]
  | transform inner f ih =>
    rw [issues_transform] at hi hj
    exact ih hxy hi hj
  | default inner value ih =>
    rw [issues_default] at hi hj
    refine ih ?_ hi hj
    rcases hxy with rfl | hx | hy
    · exact Or.inl rfl
    · rcases x with _ | _ | _ | _
      · exact absurd hx id
      all_goals exact Or.inr (Or.inl hx)
    · rcases y with _ | _ | _ | _
      · exact absurd hy id
      all_goals exact Or.inr (Or.inr hy)
  | optional inner ih =>
    by_cases hx : x = .undefined
    · rw [hx, issues_optional_undefined] at hi
      exact absurd hi List.not_mem_nil
    · by_cases hy : y = .undefined
      · rw [hy, issues_optional_undefined] at hj
        exact absurd hj List.not_mem_nil
      · rw [issues_optional hx] at hi
        rw [issues_optional hy] at hj
        exact ih hxy hi hj

/-! ## Enumerations -/

/-- The values of the enumeration a schema is about, if it is about one. -/
def enumValues? : Schema → Option (List JsString)
  | enum values => some values
  | transform inner _ | default inner _ | optional inner => inner.enumValues?
  | string _ | number _ => none

theorem issues_of_enumValues {schema : Schema} {values : List JsString}
    (h : schema.enumValues? = some values) (s : JsString) :
    schema.issues isUrl (.string s) =
      if s ∈ values then [] else [⟨[], .invalid_enum_value values s, none⟩] := by
  induction schema with
  | enum values' =>
    obtain rfl := Option.some_inj.mp h
    exact issues_enum values' s
  | transform inner f ih =>
    rw [issues_transform]
    exact ih h
  | default inner value ih =>
    rw [issues_default]
    exact ih h
  | optional inner ih =>
    rw [issues_optional (by simp)]
    exact ih h
  | string checks => exact absurd h (by simp [enumValues?])
  | number checks => exact absurd h (by simp [enumValues?])

theorem exists_enumValues {schema : Schema} {v : JsValue} (hi : i ∈ schema.issues isUrl v)
    (hcheck : i.check = .membership) : ∃ values, schema.enumValues? = some values := by
  induction schema generalizing v with
  | enum values => exact ⟨values, rfl⟩
  | transform inner f ih => exact ih (issues_transform inner f v ▸ hi)
  | default inner value ih => exact ih (issues_default inner value v ▸ hi)
  | optional inner ih =>
    by_cases hv : v = .undefined
    · rw [hv, issues_optional_undefined] at hi
      exact absurd hi List.not_mem_nil
    · exact ih (issues_optional hv ▸ hi)
  | string checks =>
    exfalso
    by_cases hv : v.IsString
    · rcases v with _ | s | _ | _
      · exact hv
      · rw [issues_string] at hi
        obtain ⟨c, -, rfl⟩ := List.mem_map.mp hi
        exact c.plain.membership hcheck
      · exact hv
      · exact hv
    · rw [issues_string_of_not hv] at hi
      rw [List.mem_singleton.mp hi] at hcheck
      rcases check_invalidTypeOf (lit "string") v with h | h <;> simp [h] at hcheck
  | number checks =>
    exfalso
    rw [issues_number] at hi
    split at hi
    · rw [List.mem_singleton.mp hi] at hcheck
      exact absurd hcheck (by decide)
    · obtain ⟨c, -, rfl⟩ := List.mem_map.mp hi
      exact c.plain.membership hcheck

end Schema

/-! ## Objects -/

/-- `z.object`. -/
structure ObjectSchema where
  /-- The keys with their schemas. -/
  shape : List (JsString × Schema)
  /-- An object has a key once. -/
  nodup : (shape.map Prod.fst).Nodup

/-- `process.env`. -/
abbrev ProcessEnv := JsString → Option JsString

/-- The value a key has in an environment. -/
def envValue (source : ProcessEnv) (key : JsString) : JsValue :=
  match source key with
  | some s => .string s
  | none => .undefined

theorem comparable_envValue (source source' : ProcessEnv) (key : JsString) :
    Schema.Comparable (envValue source key) (envValue source' key) := by
  rw [envValue, envValue]
  rcases source key with _ | s
  · rcases source' key with _ | s'
    · exact Or.inl rfl
    · exact Or.inr (Or.inr trivial)
  · exact Or.inr (Or.inl trivial)

theorem lookup_filterMap {α : Type*} {shape : List (JsString × Schema)} {key : JsString}
    {v : Schema} (f : JsString × Schema → Option α) (hnodup : (shape.map Prod.fst).Nodup)
    (hkey : (key, v) ∈ shape) :
    (shape.filterMap fun p ↦ (f p).map (p.1, ·)).lookup key = f (key, v) := by
  induction shape with
  | nil => exact absurd hkey List.not_mem_nil
  | cons p shape ih =>
    rw [List.map_cons, List.nodup_cons] at hnodup
    rcases List.mem_cons.mp hkey with rfl | hkey
    · rcases hv : f (key, v) with _ | x
      · -- nothing is kept for the key, and there is no other entry for it
        rw [List.filterMap_cons_none (by simp [hv]), List.lookup_eq_none_iff]
        intro q hq
        obtain ⟨r, hr, hrq⟩ := List.mem_filterMap.mp hq
        obtain ⟨x, -, rfl⟩ := Option.map_eq_some_iff.mp hrq
        rw [bne_iff_ne]
        exact fun heq ↦ hnodup.1 (List.mem_map.mpr ⟨r, hr, heq.symm⟩)
      · rw [List.filterMap_cons_some (b := (key, x)) (by simp [hv]), List.lookup_cons_self]
    · have hne : key ≠ p.1 := fun heq ↦ hnodup.1 (List.mem_map.mpr ⟨_, hkey, heq⟩)
      rcases hp : f p with _ | x
      · rw [List.filterMap_cons_none (by simp [hp])]
        exact ih hnodup.2 hkey
      · rw [List.filterMap_cons_some (b := (p.1, x)) (by simp [hp]), List.lookup_cons,
          beq_false_of_ne hne]
        exact ih hnodup.2 hkey

namespace ObjectSchema

/-- `a.merge(b)`: the schemas of `b` take precedence. -/
def merge (a b : ObjectSchema) : ObjectSchema where
  shape := a.shape.map (fun p ↦ (p.1, (b.shape.lookup p.1).getD p.2)) ++
    b.shape.filter fun p ↦ !(a.shape.map Prod.fst).contains p.1
  nodup := by
    rw [List.map_append, List.map_map]
    refine List.nodup_append.mpr ⟨a.nodup, (List.filter_sublist.map Prod.fst).nodup b.nodup, ?_⟩
    rintro k hk k' hk' rfl
    obtain ⟨p, hp, rfl⟩ := List.mem_map.mp hk'
    have hnot := (List.mem_filter.mp hp).2
    simp only [Bool.not_eq_true', List.contains_eq_mem, decide_eq_false_iff_not] at hnot
    exact hnot hk

variable (isUrl : JsString → Bool) (schema : ObjectSchema) (source : ProcessEnv)

/-- The issues of all keys, in the order of the keys. -/
def issues : List Issue :=
  schema.shape.flatMap fun p ↦
    (p.2.issues isUrl (envValue source p.1)).map fun i ↦ { i with path := p.1 :: i.path }

/-- `safeParse` of an environment; unknown keys are left out. -/
def safeParse : Except (List Issue) (List (JsString × JsValue)) :=
  if (schema.issues isUrl source).isEmpty then
    .ok (schema.shape.filterMap fun p ↦
      (p.2.safeParse isUrl (envValue source p.1)).toOption.map (p.1, ·))
  else .error (schema.issues isUrl source)

variable {isUrl schema source} {source' : ProcessEnv}

theorem mem_issues : i ∈ schema.issues isUrl source ↔ ∃ p ∈ schema.shape,
    ∃ j ∈ p.2.issues isUrl (envValue source p.1), { j with path := p.1 :: j.path } = i := by
  simp only [issues, List.mem_flatMap, List.mem_map]

theorem mem_merge {a b : ObjectSchema} {p : JsString × Schema} (h : p ∈ (a.merge b).shape) :
    p ∈ a.shape ∨ p ∈ b.shape := by
  rcases List.mem_append.mp h with h | h
  · obtain ⟨q, hq, rfl⟩ := List.mem_map.mp h
    rcases hlookup : b.shape.lookup q.1 with _ | v
    · exact Or.inl (by simpa [hlookup] using hq)
    · obtain ⟨pre, post, hshape, -⟩ := List.lookup_eq_some_iff.mp hlookup
      exact Or.inr (by simp [hshape])
  · exact Or.inr (List.mem_filter.mp h).1

theorem lookup_of_safeParse {data : List (JsString × JsValue)} {key : JsString} {v : Schema}
    (h : schema.safeParse isUrl source = .ok data) (hkey : (key, v) ∈ schema.shape) :
    data.lookup key = (v.safeParse isUrl (envValue source key)).toOption := by
  rw [safeParse] at h
  split at h
  · rw [← Except.ok.inj h]
    exact lookup_filterMap (fun p ↦ (p.2.safeParse isUrl (envValue source p.1)).toOption)
      schema.nodup hkey
  · simp at h

theorem message_eq (hi : i ∈ schema.issues isUrl source) (hj : j ∈ schema.issues isUrl source')
    (hpath : i.path = j.path) (hcheck : i.check = j.check) (hmembership : i.check ≠ .membership) :
    i.message = j.message := by
  obtain ⟨p, hp, i', hi', rfl⟩ := mem_issues.mp hi
  obtain ⟨q, hq, j', hj', rfl⟩ := mem_issues.mp hj
  obtain rfl : p = q := List.inj_on_of_nodup_map schema.nodup hp hq (List.cons.inj hpath).1
  exact Schema.message_eq (i := i') (j := j') (comparable_envValue source source' p.1) hi' hj'
    hcheck hmembership

theorem issues_update (isUrl : JsString → Bool) (source : ProcessEnv)
    {pre post : List (JsString × Schema)} {p : JsString × Schema}
    (hshape : schema.shape = pre ++ p :: post) : ∃ before after, ∀ s,
      schema.issues isUrl (Function.update source p.1 (some s)) =
        before ++ (p.2.issues isUrl (.string s)).map (fun i ↦ { i with path := p.1 :: i.path }) ++
          after := by
  have hnodup := schema.nodup
  rw [hshape, List.map_append, List.map_cons, List.nodup_append, List.nodup_cons] at hnodup
  obtain ⟨-, ⟨hpost, -⟩, hpre⟩ := hnodup
  have hother : ∀ q ∈ pre ++ post, ∀ s,
      envValue (Function.update source p.1 (some s)) q.1 = envValue source q.1 := by
    intro q hq s
    have hne : q.1 ≠ p.1 := by
      intro h
      rcases List.mem_append.mp hq with hq | hq
      · exact hpre q.1 (List.mem_map_of_mem hq) p.1 List.mem_cons_self h
      · exact hpost (h ▸ List.mem_map_of_mem hq)
    rw [envValue, envValue, Function.update_of_ne hne]
  refine ⟨pre.flatMap fun q ↦ (q.2.issues isUrl (envValue source q.1)).map fun i ↦
      { i with path := q.1 :: i.path },
    post.flatMap fun q ↦ (q.2.issues isUrl (envValue source q.1)).map fun i ↦
      { i with path := q.1 :: i.path }, fun s ↦ ?_⟩
  have hself : envValue (Function.update source p.1 (some s)) p.1 = .string s := by
    rw [envValue, Function.update_self]
  rw [issues, hshape, List.flatMap_append, List.flatMap_cons, hself, List.append_assoc]
  congr 1
  · refine List.flatMap_congr fun q hq ↦ ?_
    rw [hother q (List.mem_append_left _ hq) s]
  · congr 1
    refine List.flatMap_congr fun q hq ↦ ?_
    rw [hother q (List.mem_append_right _ hq) s]

end ObjectSchema

end Zod

end NativeKiln
