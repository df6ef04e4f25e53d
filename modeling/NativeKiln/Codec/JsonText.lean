import NativeKiln.Codec.JsString
import Mathlib.Data.List.Basic

/-!
# `JSON.stringify`

What `JSON.stringify` makes of a value, and when it throws. A value is unfolded along its
properties into a tree; an object that contains itself is cut where it comes back (`cyclic`), and
what cannot be read without an exception — a throwing getter, a throwing proxy — is `raising`. The
text that is written is kept as the tree it is read back as.
-/

/-- A JSON text, as the tree it is read back as. -/
inductive JsonText
  | null
  | bool (b : Bool)
  | number (numeral : JsString)
  | string (s : JsString)
  | array (items : List JsonText)
  | object (members : List (JsString × JsonText))

/-- A value, unfolded. -/
inductive JsTree
  /-- `undefined`, and a symbol. -/
  | undefined
  | null
  | bool (b : Bool)
  /-- A finite number, by the numeral it is written as. -/
  | number (numeral : JsString)
  | nonFinite
  | string (s : JsString)
  | bigint (n : ℤ)
  /-- A function, with the value it returns when it is called as a `toJSON` method. -/
  | function (result : JsTree)
  | array (items : List JsTree)
  /-- An object without an inherited `toJSON` method: its own enumerable properties, in order. -/
  | object (properties : List (JsString × JsTree))
  /-- An object with an inherited `toJSON` method, and the value that returns. -/
  | hooked (value result : JsTree)
  /-- An object that encloses this place. -/
  | cyclic
  /-- What throws when it is read. -/
  | raising

/-- A value that was thrown: an `Error` with its message, or anything else. -/
inductive Thrown
  | error (message : JsTree)
  | other

namespace JsTree

open JsString (lit)

/-- The name of the method that is called before a value is written. -/
def toJSON : JsString := lit "toJSON"

def bigintError : Thrown := .error (.string (lit "Do not know how to serialize a BigInt"))

def cyclicError : Thrown := .error (.string (lit "Converting circular structure to JSON"))

mutual

/-- Write a value as it is, without looking for a `toJSON` method; `none` stands for no text. -/
def serialize : JsTree → Except Thrown (Option JsonText)
  | undefined => .ok none
  | null => .ok (some .null)
  | bool b => .ok (some (.bool b))
  | number numeral => .ok (some (.number numeral))
  | nonFinite => .ok (some .null)
  | string s => .ok (some (.string s))
  | bigint _ => .error bigintError
  | function _ => .ok none
  | array items => (elements items).map fun ts ↦ some (.array ts)
  | object properties => (members properties).map fun ms ↦ some (.object ms)
  | hooked value _ => serialize value
  | cyclic => .error cyclicError
  | raising => .error .other

/-- `JSON.stringify`: the `toJSON` method of an object is called first. -/
def stringify : JsTree → Except Thrown (Option JsonText)
  | undefined => .ok none
  | null => .ok (some .null)
  | bool b => .ok (some (.bool b))
  | number numeral => .ok (some (.number numeral))
  | nonFinite => .ok (some .null)
  | string s => .ok (some (.string s))
  | bigint _ => .error bigintError
  | function _ => .ok none
  | array items => (elements items).map fun ts ↦ some (.array ts)
  | object properties =>
    match ownToJSON properties with
    | some text => text
    | none => (members properties).map fun ms ↦ some (.object ms)
  | hooked _ result => serialize result
  | cyclic => .error cyclicError
  | raising => .error .other

/-- What the `toJSON` method among the properties of an object has written, if there is one. -/
def ownToJSON : List (JsString × JsTree) → Option (Except Thrown (Option JsonText))
  | [] => none
  | (k, function result) :: properties =>
    if k = toJSON then some (serialize result) else ownToJSON properties
  | _ :: properties => ownToJSON properties

/-- The members an object is written with: a property without a text is left out. -/
def members : List (JsString × JsTree) → Except Thrown (List (JsString × JsonText))
  | [] => .ok []
  | (k, v) :: properties => do
    let text ← stringify v
    let ms ← members properties
    return match text with
      | some t => (k, t) :: ms
      | none => ms

/-- The items an array is written with: an element without a text is written as `null`. -/
def elements : List JsTree → Except Thrown (List JsonText)
  | [] => .ok []
  | v :: items => do
    let text ← stringify v
    let ts ← elements items
    return text.getD .null :: ts

end

/-! ## Objects -/

theorem ownToJSON_cons_of_ne {k : JsString} (hk : k ≠ toJSON) (v : JsTree)
    (ps : List (JsString × JsTree)) : ownToJSON ((k, v) :: ps) = ownToJSON ps := by
  cases v with
  | function result => rw [ownToJSON, if_neg hk]
  | _ => rfl

theorem ownToJSON_eq_none {ps : List (JsString × JsTree)} (h : ∀ p ∈ ps, p.1 ≠ toJSON) :
    ownToJSON ps = none := by
  induction ps with
  | nil => rfl
  | cons p ps ih =>
    obtain ⟨hp, hps⟩ := List.forall_mem_cons.mp h
    rw [ownToJSON_cons_of_ne hp, ih hps]

theorem ownToJSON_filter (keep : JsString → Bool) (hkeep : keep toJSON)
    (ps : List (JsString × JsTree)) : ownToJSON (ps.filter fun p ↦ keep p.1) = ownToJSON ps := by
  induction ps with
  | nil => rfl
  | cons p ps ih =>
    obtain ⟨k, v⟩ := p
    rw [List.filter_cons]
    by_cases hk : keep k
    · rw [if_pos hk]
      cases v with
      | function result => rw [ownToJSON, ownToJSON, ih]
      | _ => exact ih
    · rw [if_neg hk, ih, ownToJSON_cons_of_ne]
      rintro rfl
      exact hk hkeep

theorem stringify_object_of_ownToJSON {ps : List (JsString × JsTree)}
    {t : Except Thrown (Option JsonText)} (h : ownToJSON ps = some t) :
    stringify (.object ps) = t := by
  rw [stringify, h]

theorem stringify_object {ps : List (JsString × JsTree)} (h : ownToJSON ps = none) :
    stringify (.object ps) = (members ps).map fun ms ↦ some (.object ms) := by
  rw [stringify, h]

theorem members_cons {k : JsString} {v : JsTree} {ps : List (JsString × JsTree)}
    {ms : List (JsString × JsonText)} : members ((k, v) :: ps) = .ok ms ↔
      ∃ text rest, stringify v = .ok text ∧ members ps = .ok rest ∧
        ms = (text.map fun t ↦ (k, t)).toList ++ rest := by
  rw [members]
  rcases stringify v with e | text
  · simp [bind, Except.bind]
  · rcases members ps with e | rest
    · simp [bind, Except.bind]
    · cases text <;> simp [bind, Except.bind, pure, Except.pure, eq_comm]

theorem members_ok_iff {ps : List (JsString × JsTree)} :
    (∃ ms, members ps = .ok ms) ↔ ∀ p ∈ ps, ∃ text, stringify p.2 = .ok text := by
  induction ps with
  | nil => simp [members]
  | cons p ps ih =>
    rw [List.forall_mem_cons, ← ih]
    constructor
    · rintro ⟨ms, h⟩
      obtain ⟨text, rest, htext, hrest, -⟩ := members_cons.mp h
      exact ⟨⟨text, htext⟩, rest, hrest⟩
    · rintro ⟨⟨text, htext⟩, rest, hrest⟩
      exact ⟨_, members_cons.mpr ⟨text, rest, htext, hrest, rfl⟩⟩

theorem lookup_members_eq_none {ps : List (JsString × JsTree)} {ms : List (JsString × JsonText)}
    (h : members ps = .ok ms) {k : JsString} (hk : ∀ p ∈ ps, p.1 ≠ k) : ms.lookup k = none := by
  induction ps generalizing ms with
  | nil =>
    obtain rfl : [] = ms := Except.ok.inj h
    rfl
  | cons p ps ih =>
    obtain ⟨text, rest, -, hrest, rfl⟩ := members_cons.mp h
    obtain ⟨hp, hps⟩ := List.forall_mem_cons.mp hk
    have hlookup := ih hrest hps
    cases text with
    | none => exact hlookup
    | some t => simpa [List.lookup_cons, beq_false_of_ne (Ne.symm hp)] using hlookup

end JsTree
