import NativeKiln.Codec.JsString
import Mathlib.Data.List.Infix

/-!
# Regular expressions

The grammar of a JavaScript pattern without the `u` flag, and what a pattern matches. A pattern is
first taken apart into tokens: a character that is no syntax character stands for itself, and a
backslash before a syntax character makes it stand for itself too. The tokens are then read with a
stack of the groups that are open, so that the reader is a plain recursion over them.

Read here are literal characters, `.`, `^`, `$`, capturing groups, alternatives and the quantifiers
`*`, `+` and `?`. Character classes, counted repetition, look-around and the escapes of letters and
digits are not: a pattern that has one has no reading.
-/

namespace RegExp

/-! ## Patterns -/

/-- How often a term may be repeated. -/
inductive Quantifier
  | star
  | plus
  | option
  deriving DecidableEq

/-- A term of a pattern. A group holds its alternatives, each a row of terms. -/
inductive Term
  | char (c : UInt16)
  | any
  | start
  | stop
  | group (alternatives : List (List Term))
  | repeated (q : Quantifier) (greedy : Bool) (t : Term)

/-- A pattern: its alternatives. -/
abbrev Pattern := List (List Term)

/-- The pattern whose only alternative is the characters of a word, in order. -/
def word (v : JsString) : Pattern := [v.map .char]

/-! ## Tokens -/

/-- The characters with a meaning of their own. -/
def syntaxCharacters : JsString := JsString.lit "^$\\.*+?()[]\x7b\x7d|"

inductive Token
  | literal (c : UInt16)
  | any
  | start
  | stop
  | opening
  | closing
  | bar
  | quantifier (q : Quantifier)

/-- The token of a character that no backslash precedes. -/
def token (c : UInt16) : Option Token :=
  if c ∉ syntaxCharacters then some (.literal c)
  else if c = 46 then some .any
  else if c = 94 then some .start
  else if c = 36 then some .stop
  else if c = 40 then some .opening
  else if c = 41 then some .closing
  else if c = 124 then some .bar
  else if c = 42 then some (.quantifier .star)
  else if c = 43 then some (.quantifier .plus)
  else if c = 63 then some (.quantifier .option)
  else none

def tokenize : JsString → Option (List Token)
  | [] => some []
  | [c] => (token c).map fun t ↦ [t]
  | c :: d :: s =>
    if c = 92 then
      if d ∈ syntaxCharacters then (tokenize s).map (.literal d :: ·) else none
    else (token c).bind fun t ↦ (tokenize (d :: s)).map (t :: ·)

theorem token_literal {c : UInt16} (h : c ∉ syntaxCharacters) : token c = some (.literal c) :=
  if_pos h

theorem tokenize_escaped {d : UInt16} (hd : d ∈ syntaxCharacters) (s : JsString) :
    tokenize (92 :: d :: s) = (tokenize s).map (.literal d :: ·) := by
  rw [tokenize, if_pos rfl, if_pos hd]

theorem tokenize_plain {c : UInt16} (hc : c ∉ syntaxCharacters) (s : JsString) :
    tokenize (c :: s) = (tokenize s).map (.literal c :: ·) := by
  have hne : c ≠ 92 := by
    rintro rfl
    exact hc (by decide)
  cases s with
  | nil => simp [tokenize, token_literal hc]
  | cons d s => rw [tokenize, if_neg hne, token_literal hc, Option.bind_some]

/-! ## Reading -/

/-- What has been read of one group: the alternatives before the last bar, and the terms behind it,
latest first. -/
structure Frame where
  alternatives : List (List Term)
  terms : List Term

namespace Frame

def empty : Frame := ⟨[], []⟩

/-- The alternatives of the group, were it closed here. -/
def close (f : Frame) : Pattern := f.alternatives ++ [f.terms.reverse]

def push (f : Frame) (t : Term) : Frame := { f with terms := t :: f.terms }

end Frame

/-- A quantifier behind a term. There is none behind an assertion, and behind a quantified term only
the question mark that makes it lazy. -/
def Term.quantify (q : Quantifier) : Term → Option Term
  | .start => none
  | .stop => none
  | .repeated p greedy t => if greedy ∧ q = .option then some (.repeated p false t) else none
  | t => some (.repeated q true t)

def Frame.quantify (f : Frame) (q : Quantifier) : Option Frame :=
  match f.terms with
  | [] => none
  | t :: ts => (t.quantify q).map fun t ↦ { f with terms := t :: ts }

/-- Read tokens into the innermost of the open groups. -/
def read : List Frame → Frame → List Token → Option Pattern
  | [], f, [] => some f.close
  | _ :: _, _, [] => none
  | outer, f, .literal c :: s => read outer (f.push (.char c)) s
  | outer, f, .any :: s => read outer (f.push .any) s
  | outer, f, .start :: s => read outer (f.push .start) s
  | outer, f, .stop :: s => read outer (f.push .stop) s
  | outer, f, .opening :: s => read (f :: outer) .empty s
  | [], _, .closing :: _ => none
  | g :: outer, f, .closing :: s => read outer (g.push (.group f.close)) s
  | outer, f, .bar :: s => read outer ⟨f.close, []⟩ s
  | outer, f, .quantifier q :: s => (f.quantify q).bind fun f ↦ read outer f s

/-- The pattern a source text stands for. -/
def parse (source : JsString) : Option Pattern := (tokenize source).bind (read [] .empty)

example : parse (JsString.lit "a+?|(b)")
    = some [[.repeated .plus false (.char 97)], [.group [[.char 98]]]] := rfl

theorem read_literals (f : Frame) (v : JsString) :
    read [] f (v.map .literal) = some (f.alternatives ++ [f.terms.reverse ++ v.map .char]) := by
  induction v generalizing f with
  | nil => rw [List.map_nil, List.map_nil, List.append_nil]; rfl
  | cons c v ih => rw [List.map_cons, read, ih, Frame.push]; simp

theorem parse_of_tokenize {source v : JsString} (h : tokenize source = some (v.map .literal)) :
    parse source = some (word v) := by
  rw [parse, h, Option.bind_some, read_literals]
  rfl

/-! ## Matching -/

/-- The characters `.` does not match. -/
def lineTerminators : List UInt16 := [0x0A, 0x0D, 0x2028, 0x2029]

/-- The numbers of repetitions a quantifier admits. -/
def Quantifier.Admits : Quantifier → ℕ → Prop
  | .star, _ => True
  | .plus, n => 0 < n
  | .option, n => n ≤ 1

mutual

/-- A term matches the text from one position to another. -/
inductive Term.Matches (text : JsString) : Term → ℕ → ℕ → Prop
  | char {c : UInt16} {i : ℕ} (h : text[i]? = some c) : Term.Matches text (.char c) i (i + 1)
  | any {c : UInt16} {i : ℕ} (h : text[i]? = some c) (hc : c ∉ lineTerminators) :
    Term.Matches text .any i (i + 1)
  | start : Term.Matches text .start 0 0
  | stop : Term.Matches text .stop text.length text.length
  | group {alternatives : List (List Term)} {ts : List Term} {i j : ℕ} (h : ts ∈ alternatives)
    (hm : RowMatches text ts i j) : Term.Matches text (.group alternatives) i j
  | repeated {q : Quantifier} {greedy : Bool} {t : Term} {n i j : ℕ} (h : q.Admits n)
    (hm : RowMatches text (List.replicate n t) i j) : Term.Matches text (.repeated q greedy t) i j

/-- A row of terms matches the text from one position to another. -/
inductive RowMatches (text : JsString) : List Term → ℕ → ℕ → Prop
  | nil {i : ℕ} : RowMatches text [] i i
  | cons {t : Term} {ts : List Term} {i j k : ℕ} (h : t.Matches text i j)
    (hm : RowMatches text ts j k) : RowMatches text (t :: ts) i k

end

/-- A pattern matches the text from `i` to `j`, the text being searched without the flags `i`, `m`
and `s`. -/
def Matches (text : JsString) (p : Pattern) (i j : ℕ) : Prop := ∃ ts ∈ p, RowMatches text ts i j

theorem matches_char_iff {text : JsString} {c : UInt16} {i j : ℕ} :
    (Term.char c).Matches text i j ↔ text[i]? = some c ∧ j = i + 1 := by
  constructor
  · rintro ⟨h⟩
    exact ⟨h, rfl⟩
  · rintro ⟨h, rfl⟩
    exact .char h

theorem rowMatches_nil_iff {text : JsString} {i j : ℕ} : RowMatches text [] i j ↔ j = i := by
  constructor
  · rintro ⟨⟩
    rfl
  · rintro rfl
    exact .nil

theorem rowMatches_cons_iff {text : JsString} {t : Term} {ts : List Term} {i k : ℕ} :
    RowMatches text (t :: ts) i k ↔ ∃ j, t.Matches text i j ∧ RowMatches text ts j k := by
  constructor
  · rintro (_ | ⟨h, hm⟩)
    exact ⟨_, h, hm⟩
  · rintro ⟨j, h, hm⟩
    exact .cons h hm

theorem rowMatches_char_iff {text v : JsString} {i j : ℕ} :
    RowMatches text (v.map .char) i j ↔ v <+: text.drop i ∧ j = i + v.length := by
  induction v generalizing i with
  | nil => simp [rowMatches_nil_iff]
  | cons c v ih =>
    have hdrop : c :: v <+: text.drop i ↔ text[i]? = some c ∧ v <+: text.drop (i + 1) := by
      rw [List.cons_prefix_iff, ← List.tail_drop, ← List.head?_drop]
      cases text.drop i <;> simp
    simp only [List.map_cons, rowMatches_cons_iff, matches_char_iff, hdrop, List.length_cons]
    constructor
    · rintro ⟨k, ⟨h, rfl⟩, hm⟩
      obtain ⟨hpre, rfl⟩ := ih.mp hm
      exact ⟨⟨h, hpre⟩, by omega⟩
    · rintro ⟨⟨h, hpre⟩, rfl⟩
      exact ⟨i + 1, ⟨h, rfl⟩, ih.mpr ⟨hpre, by omega⟩⟩

/-- **A word is matched where it stands.** -/
theorem matches_word_iff {text v : JsString} {i j : ℕ} :
    Matches text (word v) i j ↔ v <+: text.drop i ∧ j = i + v.length := by
  rw [← rowMatches_char_iff, Matches, word]
  simp only [List.mem_singleton, exists_eq_left]

end RegExp
