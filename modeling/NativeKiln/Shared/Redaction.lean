import NativeKiln.Codec.Base64
import NativeKiln.Codec.RegExp
import NativeKiln.Words.Selection
import Mathlib.Data.List.Sort

/-!
# Secret redaction

`packages/shared/src/redaction.ts`: a `Redactor` is built from the known secrets and replaces every
one of their encoded variants in a text by `[REDACTED]`, the longer variants first, one global
replacement per variant over the text the earlier ones have rewritten.

Two questions are settled about it. When no variant can overlap the marker, nothing of the variant
list is left in the output (`redact_clean`): a later pass rewrites what an earlier one has cleaned
but cannot bring anything back. That does not say that every *character* of an occurrence is gone.
Of two occurrences that overlap only one is replaced, and the rest of the other stays; which
occurrences go is the greedy selection by length, listing and position, and the whole of every
occurrence is absent exactly when the selected ones cover it (`covers_iff_selection`).
-/

namespace NativeKiln

open JsString (lit)
open Words (Clear replaceAll replaceEach tagged untagged)

/-- `REDACTED`. -/
def REDACTED : JsString := lit "[REDACTED]"

/-! ## Literal patterns -/

/-- The metacharacters `escapeRegExp` looks for. -/
def regExpMeta : JsString := lit ".*+?^$\x7b\x7d()|[]\\"

/-- Put a backslash before every metacharacter. -/
def escapeRegExp (value : JsString) : JsString :=
  value.flatMap fun c ↦ if c ∈ regExpMeta then [92, c] else [c]

/-- Read a pattern that consists of literal characters and escaped metacharacters only. -/
def parseLiteral : JsString → Option JsString
  | [] => some []
  | [c] => if c ∈ regExpMeta then none else some [c]
  | c :: d :: t =>
    if c = 92 then
      if d ∈ regExpMeta then (parseLiteral t).map (d :: ·) else none
    else if c ∈ regExpMeta then none
    else (parseLiteral (d :: t)).map (c :: ·)

theorem parseLiteral_escaped {c : UInt16} (hc : c ∈ regExpMeta) (t : JsString) :
    parseLiteral (92 :: c :: t) = (parseLiteral t).map (c :: ·) := by
  rw [parseLiteral, if_pos rfl, if_pos hc]

theorem parseLiteral_plain {c : UInt16} (hc : c ∉ regExpMeta) (t : JsString) :
    parseLiteral (c :: t) = (parseLiteral t).map (c :: ·) := by
  have hne : c ≠ 92 := by
    rintro rfl
    exact hc (by decide)
  cases t with
  | nil => simp [parseLiteral, hc]
  | cons d t => rw [parseLiteral, if_neg hne, if_neg hc]

theorem parseLiteral_escapeRegExp (value : JsString) :
    parseLiteral (escapeRegExp value) = some value := by
  induction value with
  | nil => rfl
  | cons c t ih =>
    rw [escapeRegExp, List.flatMap_cons, ← escapeRegExp]
    by_cases hc : c ∈ regExpMeta
    · rw [if_pos hc, List.cons_append, List.singleton_append, parseLiteral_escaped hc, ih,
        Option.map_some]
    · rw [if_neg hc, List.singleton_append, parseLiteral_plain hc, ih, Option.map_some]

/-- A global regular expression whose source is read as a literal. -/
structure LiteralRegExp where
  /-- The source it was built from. -/
  source : JsString
  /-- The word it matches. -/
  literal : JsString
  /-- The source reads as that word. -/
  parses : parseLiteral source = some literal

/-- `new RegExp(escapeRegExp(v), 'g')`. -/
def LiteralRegExp.ofValue (v : JsString) : LiteralRegExp :=
  ⟨escapeRegExp v, v, parseLiteral_escapeRegExp v⟩

theorem tokenize_of_parseLiteral {source word : JsString} (h : parseLiteral source = some word) :
    RegExp.tokenize source = some (word.map .literal) := by
  have hmeta : ∀ c, c ∈ regExpMeta ↔ c ∈ RegExp.syntaxCharacters := fun c ↦ by
    have hperm : regExpMeta.Perm RegExp.syntaxCharacters := by decide
    exact hperm.mem_iff
  induction source using parseLiteral.induct generalizing word with
  | case1 =>
    rw [parseLiteral, Option.some_inj] at h
    subst h
    rfl
  | case2 c hc => simp [parseLiteral, hc] at h
  | case3 c hc =>
    rw [parseLiteral, if_neg hc, Option.some_inj] at h
    subst h
    exact RegExp.tokenize_plain (mt (hmeta c).mpr hc) []
  | case4 d s hd ih =>
    rw [parseLiteral_escaped hd] at h
    obtain ⟨w, hw, rfl⟩ := Option.map_eq_some_iff.mp h
    rw [RegExp.tokenize_escaped ((hmeta d).mp hd), ih hw, Option.map_some, List.map_cons]
  | case5 d s hd => simp [parseLiteral, hd] at h
  | case6 c d s hne hc => simp [parseLiteral, hne, hc] at h
  | case7 c d s hne hc ih =>
    rw [parseLiteral_plain hc] at h
    obtain ⟨w, hw, rfl⟩ := Option.map_eq_some_iff.mp h
    rw [RegExp.tokenize_plain (mt (hmeta c).mpr hc), ih hw, Option.map_some, List.map_cons]

theorem LiteralRegExp.parse_source (r : LiteralRegExp) :
    RegExp.parse r.source = some (RegExp.word r.literal) :=
  RegExp.parse_of_tokenize (tokenize_of_parseLiteral r.parses)

/-- **Every secret is a literal pattern.** The escaped value is a valid pattern, its only
alternative is the characters of the value in order, and it matches at a position of a text exactly
when the value stands there. -/
theorem escapeRegExp_literal (v : JsString) :
    RegExp.parse (escapeRegExp v) = some [v.map .char]
      ∧ ∀ (text : JsString) (i j : ℕ), RegExp.Matches text [v.map .char] i j ↔
          v <+: text.drop i ∧ j = i + v.length :=
  ⟨(LiteralRegExp.ofValue v).parse_source, fun _ _ _ ↦ RegExp.matches_word_iff⟩

/-! ## The redactor -/

/-- `Set.prototype.add`, with the insertion order kept. -/
def setAdd (s : List JsString) (v : JsString) : List JsString := if v ∈ s then s else s ++ [v]

/-- Encoded variants a secret might appear as in logs. -/
def encodedVariants (secret : JsString) : List JsString :=
  let variants := [secret]
  let variants := setAdd variants (Base64.encode .base64 secret.utf8)
  let variants := setAdd variants (Base64.encode .base64url secret.utf8)
  let variants := match secret.encodeURIComponent with
    | some v => setAdd variants v
    | none => variants
  variants.filter fun v ↦ 6 ≤ v.length

/-- The set of values the constructor collects. -/
def redactorValues (secrets : List JsString) : List JsString :=
  secrets.foldl (fun values secret ↦
    if secret = [] then values else (encodedVariants secret).foldl setAdd values) []

/-- The values in the order they are replaced: longest first, by a stable sort. -/
def redactorWords (secrets : List JsString) : List JsString :=
  (redactorValues secrets).insertionSort fun a b ↦ b.length ≤ a.length

structure Redactor where
  patterns : List LiteralRegExp

/-- `new Redactor(secrets)`. -/
def Redactor.new (secrets : List JsString) : Redactor where
  patterns := (redactorWords secrets).map LiteralRegExp.ofValue

/-- `String.prototype.replace` with a global literal pattern. The replacement text has no `$`. -/
def replace (out : JsString) (pattern : LiteralRegExp) : JsString :=
  replaceAll id pattern.literal REDACTED out

def Redactor.redact (r : Redactor) (text : JsString) : JsString := r.patterns.foldl replace text

def redactSecrets (text : JsString) (secrets : List JsString) : JsString :=
  (Redactor.new secrets).redact text

example : redactSecrets (lit "value=abcdef123456") [lit "abcdef", lit "abcdef123456"]
    = lit "value=[REDACTED]" := by decide

theorem redact_eq_replaceEach (secrets : List JsString) (text : JsString) :
    (Redactor.new secrets).redact text = replaceEach id (redactorWords secrets) REDACTED text := by
  rw [Redactor.redact, Redactor.new, List.foldl_map]
  rfl

/-! ## The kept variants -/

/-- The forms of one secret: itself, base64, base64url, and the URI component when there is one. -/
def rawVariants (secret : JsString) : List JsString :=
  [secret, Base64.encode .base64 secret.utf8, Base64.encode .base64url secret.utf8]
    ++ secret.encodeURIComponent.toList

/-- A form of a non-empty secret that is long enough to be redacted. -/
def KeptVariant (secrets : List JsString) (v : JsString) : Prop :=
  ∃ secret ∈ secrets, secret ≠ [] ∧ v ∈ rawVariants secret ∧ 6 ≤ v.length

theorem mem_setAdd {s : List JsString} {v w : JsString} : w ∈ setAdd s v ↔ w ∈ s ∨ w = v := by
  rw [setAdd]
  split
  · next h => exact ⟨Or.inl, fun hw ↦ hw.elim id fun e ↦ e ▸ h⟩
  · rw [List.mem_append, List.mem_singleton]

theorem mem_foldl_setAdd {vs s : List JsString} {w : JsString} :
    w ∈ vs.foldl setAdd s ↔ w ∈ s ∨ w ∈ vs := by
  induction vs generalizing s with
  | nil => simp
  | cons v vs ih => rw [List.foldl_cons, ih, mem_setAdd, List.mem_cons, or_assoc]

theorem mem_encodedVariants {secret v : JsString} :
    v ∈ encodedVariants secret ↔ v ∈ rawVariants secret ∧ 6 ≤ v.length := by
  rw [encodedVariants, List.mem_filter, decide_eq_true_eq, rawVariants]
  refine and_congr_left fun _ ↦ ?_
  cases secret.encodeURIComponent <;> simp [mem_setAdd, or_assoc]

theorem mem_redactorValues {secrets : List JsString} {v : JsString} :
    v ∈ redactorValues secrets ↔ KeptVariant secrets v := by
  have key : ∀ vals : List JsString,
      v ∈ secrets.foldl (fun values secret ↦
        if secret = [] then values else (encodedVariants secret).foldl setAdd values) vals
        ↔ v ∈ vals ∨ KeptVariant secrets v := by
    induction secrets with
    | nil => simp [KeptVariant]
    | cons secret secrets ih =>
      intro vals
      rw [List.foldl_cons, ih, KeptVariant, KeptVariant]
      by_cases hs : secret = []
      · simp [hs]
      · rw [if_neg hs, mem_foldl_setAdd, mem_encodedVariants, or_assoc]
        simp [hs]
  simpa [redactorValues] using key []

theorem mem_redactorWords {secrets : List JsString} {v : JsString} :
    v ∈ redactorWords secrets ↔ KeptVariant secrets v := by
  rw [redactorWords, List.mem_insertionSort, mem_redactorValues]

theorem KeptVariant.ne_nil {secrets : List JsString} {v : JsString} (h : KeptVariant secrets v) :
    v ≠ [] := by
  rintro rfl
  obtain ⟨-, -, -, -, hlen⟩ := h
  simp at hlen

theorem redactorWords_ne_nil (secrets : List JsString) : ∀ v ∈ redactorWords secrets, v ≠ [] :=
  fun _ hv ↦ (mem_redactorWords.mp hv).ne_nil

theorem nodup_setAdd {s : List JsString} (hs : s.Nodup) (v : JsString) : (setAdd s v).Nodup := by
  rw [setAdd]
  split
  · exact hs
  · next hv =>
    rw [← List.concat_eq_append]
    exact hs.concat hv

theorem nodup_foldl_setAdd {s : List JsString} (hs : s.Nodup) (vs : List JsString) :
    (vs.foldl setAdd s).Nodup := by
  induction vs generalizing s with
  | nil => exact hs
  | cons v vs ih => exact ih (nodup_setAdd hs v)

theorem nodup_redactorWords (secrets : List JsString) : (redactorWords secrets).Nodup := by
  have key : ∀ vals : List JsString, vals.Nodup → (secrets.foldl (fun values secret ↦
      if secret = [] then values
      else (encodedVariants secret).foldl setAdd values) vals).Nodup := by
    induction secrets with
    | nil => exact fun _ hvals ↦ hvals
    | cons secret secrets ih =>
      intro vals hvals
      rw [List.foldl_cons]
      refine ih _ ?_
      split
      · exact hvals
      · exact nodup_foldl_setAdd hvals _
  exact (List.perm_insertionSort _ _).nodup_iff.mpr (key [] List.nodup_nil)

/-! ## Nothing is left behind -/

/-- No kept variant can overlap an inserted marker. -/
def MarkerSafe (secrets : List JsString) : Prop := ∀ v, KeptVariant secrets v → Clear REDACTED v

theorem markerSafe_iff {secrets : List JsString} :
    MarkerSafe secrets ↔ ∀ v ∈ redactorValues secrets, Clear REDACTED v :=
  forall_congr' fun _ ↦ by rw [mem_redactorValues]

instance (secrets : List JsString) : Decidable (MarkerSafe secrets) :=
  decidable_of_iff _ markerSafe_iff.symm

/-- One pass per word, each clear of the marker, leaves none of the words. -/
theorem not_infix_replaceEach {vs : List JsString} {m : JsString} (hvs : ∀ v ∈ vs, Clear m v)
    (text : JsString) : ∀ v ∈ vs, ¬v <:+: replaceEach id vs m text := by
  induction vs using List.reverseRecOn with
  | nil => simp
  | append_singleton vs w ih =>
    have hw : Clear m w := hvs w (by simp)
    intro v hv
    rw [Words.replaceEach_concat]
    rcases List.mem_append.mp hv with hv | hv
    · -- the last pass does not bring an earlier word back
      intro hin
      exact ih (fun u hu ↦ hvs u (List.mem_append_left _ hu)) v hv
        (Words.infix_of_infix_replaceAll hw.ne_nil (hvs v (List.mem_append_left _ hv)) hin)
    · rw [List.mem_singleton.mp hv]
      exact Words.not_infix_replaceAll hw _

theorem replaceEach_eq_self {vs : List JsString} {m text : JsString}
    (h : ∀ v ∈ vs, ¬v <:+: text) : replaceEach id vs m text = text := by
  induction vs with
  | nil => rfl
  | cons v vs ih =>
    rw [replaceEach, List.foldl_cons,
      Words.replaceAll_eq_self (by simpa using h v List.mem_cons_self),
      ← replaceEach, ih fun w hw ↦ h w (List.mem_cons_of_mem v hw)]

/-- **No secret is left behind.** When no kept variant can overlap the marker, none occurs in the
redacted text, and redacting again changes nothing. -/
theorem redact_clean (secrets : List JsString) (text : JsString) (h : MarkerSafe secrets) :
    (∀ v, KeptVariant secrets v → ¬v <:+: (Redactor.new secrets).redact text)
      ∧ (Redactor.new secrets).redact ((Redactor.new secrets).redact text)
        = (Redactor.new secrets).redact text := by
  have hclean : ∀ v ∈ redactorWords secrets, ¬v <:+: (Redactor.new secrets).redact text := by
    rw [redact_eq_replaceEach]
    exact not_infix_replaceEach (fun v hv ↦ h v (mem_redactorWords.mp hv)) text
  refine ⟨fun v hv ↦ hclean v (mem_redactorWords.mpr hv), ?_⟩
  rw [redact_eq_replaceEach secrets ((Redactor.new secrets).redact text)]
  exact replaceEach_eq_self hclean

theorem redact_clean_superSecretValue :
    (∀ v, KeptVariant [lit "superSecretValue123", lit "p@ss word/with+special"] v →
        ¬v <:+: redactSecrets (lit "token is superSecretValue123 here")
          [lit "superSecretValue123", lit "p@ss word/with+special"])
      ∧ redactSecrets (redactSecrets (lit "token is superSecretValue123 here")
          [lit "superSecretValue123", lit "p@ss word/with+special"])
          [lit "superSecretValue123", lit "p@ss word/with+special"]
        = redactSecrets (lit "token is superSecretValue123 here")
          [lit "superSecretValue123", lit "p@ss word/with+special"] :=
  redact_clean _ _ (by decide +kernel)

/-! ## Which characters are left

To say that a *character* of the text is absent from the output, and not only that some equal
character does not occur there, the run is repeated on a text whose letters remember their
position. Forgetting the positions gives back the redacted text. -/

open Words (Occurrence Selection removedBy)

/-- The redaction of a text, each letter with the position of the text it was copied from. -/
def tracedRedact (secrets : List JsString) (text : JsString) : List (UInt16 × Option ℕ) :=
  replaceEach Prod.fst (redactorWords secrets) (untagged REDACTED) (tagged text)

theorem map_fst_tracedRedact (secrets : List JsString) (text : JsString) :
    (tracedRedact secrets text).map Prod.fst = (Redactor.new secrets).redact text := by
  have hmap : (tracedRedact secrets text).map Prod.fst = replaceEach id (redactorWords secrets)
      ((untagged REDACTED).map Prod.fst) ((tagged text).map Prod.fst) :=
    Words.map_replaceEach id Prod.fst (redactorWords_ne_nil secrets) _ _
  rwa [Words.map_fst_untagged, Words.map_fst_tagged, ← redact_eq_replaceEach] at hmap

/-- The character at position `i` of the text is in the output. -/
def Shows (secrets : List JsString) (text : JsString) (i : ℕ) : Prop :=
  ∃ x ∈ tracedRedact secrets text, x.2 = some i

instance (secrets : List JsString) (text : JsString) (i : ℕ) : Decidable (Shows secrets text i) :=
  List.decidableBEx ..

/-- Every character inside an occurrence of a kept variant is absent from the output. -/
def CoversOccurrences (secrets : List JsString) (text : JsString) : Prop :=
  ∀ o : Occurrence UInt16, KeptVariant secrets o.word → o.In text → ∀ i, o.Covers i →
    ¬Shows secrets text i

/-- No variant reads partly as characters of an occurrence and partly as others, be these markers or
characters that lie in no occurrence. The occurrences, the selection among them and what stands
between the characters that are not selected are given by the secrets and the text. -/
def EdgesApart (secrets : List JsString) (text : JsString) : Prop :=
  Words.EdgesApart (redactorWords secrets) REDACTED text

theorem edgesApart_iff {secrets : List JsString} {text : JsString} :
    EdgesApart secrets text ↔ Words.Undisturbed Prod.fst
      (Words.AtStake (redactorWords secrets) text) (redactorWords secrets) (untagged REDACTED)
      (tagged text) :=
  Words.edgesApart_iff (redactorWords_ne_nil secrets)

instance (secrets : List JsString) (text : JsString) : Decidable (EdgesApart secrets text) :=
  decidable_of_iff _ edgesApart_iff.symm

theorem MarkerSafe.clear {secrets : List JsString} (h : MarkerSafe secrets) :
    ∀ v ∈ redactorWords secrets, Clear REDACTED v := fun v hv ↦ h v (mem_redactorWords.mp hv)

theorem MarkerSafe.edgesApart {secrets : List JsString} (h : MarkerSafe secrets)
    (text : JsString) : EdgesApart secrets text :=
  Words.edgesApart_of_clear h.clear (nodup_redactorWords secrets) (by decide) text

/-- Variants without a square bracket keep apart from the edges in every text, also those that lie
inside the marker. -/
theorem edgesApart_of_unbracketed {secrets : List JsString}
    (h : ∀ v, KeptVariant secrets v → ∀ a ∈ lit "[]", a ∉ v) (text : JsString) :
    EdgesApart secrets text := by
  have hnot : ∀ v ∈ redactorWords secrets, ∀ a ∈ lit "[]", a ∉ v :=
    fun v hv ↦ h v (mem_redactorWords.mp hv)
  have hhead : REDACTED.head? = (lit "[]").head? := by decide
  have hlast : REDACTED.getLast? = (lit "[]").getLast? := by decide
  exact Words.edgesApart_of_notMem (redactorWords_ne_nil secrets) (nodup_redactorWords secrets)
    (by decide) (fun v hv a ha ↦ hnot v hv a (List.mem_of_head? (hhead ▸ ha)))
    (fun v hv a ha ↦ hnot v hv a (List.mem_of_getLast? (hlast ▸ ha))) text

theorem shows_iff {secrets : List JsString} {text : JsString} (h : EdgesApart secrets text)
    {o : Occurrence UInt16} (hv : KeptVariant secrets o.word) (ho : o.In text) {i : ℕ}
    (hi : o.Covers i) :
    Shows secrets text i ↔ ∀ o' ∈ removedBy (redactorWords secrets) text, ¬o'.Covers i :=
  Words.mem_replaceEach_tagged_iff (redactorWords_ne_nil secrets) (nodup_redactorWords secrets)
    (by decide) h (mem_redactorWords.mpr hv) ho hi

/-- The condition cannot be left out: `]uvwxy` does not occur in the text, but it is found on the
end of a marker and the text behind it, and so the selected occurrence of `uvwxyz` loses all but its
last character before its turn comes. -/
example : ¬EdgesApart [lit "abcdefg", lit "]uvwxy", lit "uvwxyz"] (lit "abcdefguvwxyz")
    ∧ Shows [lit "abcdefg", lit "]uvwxy", lit "uvwxyz"] (lit "abcdefguvwxyz") 12 := by
  decide +kernel

theorem length_le_of_idxOf_le {secrets : List JsString} {v w : JsString}
    (hv : v ∈ redactorWords secrets) (hw : w ∈ redactorWords secrets)
    (h : (redactorWords secrets).idxOf v ≤ (redactorWords secrets).idxOf w) :
    w.length ≤ v.length := by
  have hsorted : (redactorWords secrets).Pairwise fun a b ↦ b.length ≤ a.length := by
    have : Std.Total fun a b : JsString ↦ b.length ≤ a.length := ⟨fun a b ↦ le_total _ _⟩
    have : IsTrans JsString fun a b ↦ b.length ≤ a.length := ⟨fun _ _ _ hab hbc ↦ hbc.trans hab⟩
    exact List.pairwise_insertionSort _ _
  rcases h.lt_or_eq with hlt | heq
  · have := List.pairwise_iff_getElem.mp hsorted _ _ (List.idxOf_lt_length_of_mem hv)
      (List.idxOf_lt_length_of_mem hw) hlt
    rwa [List.getElem_idxOf, List.getElem_idxOf] at this
  · rw [List.idxOf_inj hv |>.mp heq]

/-- What the order by length does settle: when occurrences only ever meet by lying one inside the
other, all of them are covered. -/
theorem covers_of_nested {secrets : List JsString} {text : JsString}
    (h : EdgesApart secrets text)
    (hnest : ∀ o o' : Occurrence UInt16, KeptVariant secrets o.word → KeptVariant secrets o'.word →
      o.In text → o'.In text → o.Meets o' → o'.word.length ≤ o.word.length →
      ∀ i, o'.Covers i → o.Covers i) : CoversOccurrences secrets text := by
  intro o hv ho i hi hshow
  have hsel := Words.selection_removedBy (redactorWords_ne_nil secrets) text
  have hmem := mem_redactorWords.mpr hv
  obtain ⟨o', ho', hle, hm⟩ := hsel.dominates o hmem ho
  obtain ⟨hmem', hin'⟩ := hsel.occurs o' ho'
  have hidx : (redactorWords secrets).idxOf o'.word ≤ (redactorWords secrets).idxOf o.word :=
    (Prod.Lex.toLex_le_toLex.mp hle).elim le_of_lt fun he ↦ he.1.le
  exact (shows_iff h hv ho hi).mp hshow o' ho' (hnest o' o (mem_redactorWords.mp hmem') hv hin' ho
    hm (length_le_of_idxOf_le hmem' hmem hidx) i hi)

/-! ## Nothing else is touched -/

theorem redact_eq_self {secrets : List JsString} {text : JsString}
    (h : ∀ v, KeptVariant secrets v → ¬v <:+: text) :
    (Redactor.new secrets).redact text = text := by
  rw [redact_eq_replaceEach]
  exact replaceEach_eq_self fun v hv ↦ h v (mem_redactorWords.mp hv)

/-- **Only secrets are removed.** When no kept variant can overlap the marker, the text falls into
pieces, first a kept one, then kept variants each followed by a kept one, and the output has the
marker in place of each of these variants. A text without a variant is returned as it is. -/
theorem redact_pieces (secrets : List JsString) (text : JsString) (h : MarkerSafe secrets) :
    (∃ c : Words.Cut UInt16, c.word = text ∧ c.mark REDACTED = (Redactor.new secrets).redact text
        ∧ ∀ r ∈ c.removed, KeptVariant secrets r)
      ∧ ((∀ v, KeptVariant secrets v → ¬v <:+: text) →
          (Redactor.new secrets).redact text = text) := by
  refine ⟨?_, redact_eq_self⟩
  obtain ⟨c, hword, hmark, hrem⟩ :=
    Words.exists_cut_replaceEach h.clear text
  exact ⟨c, hword, by rw [hmark, redact_eq_replaceEach],
    fun r hr ↦ mem_redactorWords.mp (hrem r hr)⟩

theorem redact_pieces_superSecretValue :
    (∃ c : Words.Cut UInt16, c.word = lit "token is superSecretValue123 here"
        ∧ c.mark REDACTED = (Redactor.new [lit "superSecretValue123"]).redact
            (lit "token is superSecretValue123 here")
        ∧ ∀ r ∈ c.removed, KeptVariant [lit "superSecretValue123"] r)
      ∧ ((∀ v, KeptVariant [lit "superSecretValue123"] v →
            ¬v <:+: lit "token is superSecretValue123 here") →
          (Redactor.new [lit "superSecretValue123"]).redact
              (lit "token is superSecretValue123 here")
            = lit "token is superSecretValue123 here") :=
  redact_pieces _ _ (by decide +kernel)

/-! ## The listing of the secrets

The sort by length is stable, so equal-length variants keep the order in which they were collected.
That order shows only where two of them overlap in the text. -/

/-- No kept variant can run into another one of its length. -/
def EqualLengthApart (secrets : List JsString) : Prop :=
  ∀ v, KeptVariant secrets v → ∀ w, KeptVariant secrets w → v.length = w.length → v ≠ w →
    ∀ i < v.length, 0 < i → ¬v.drop i <+: w

theorem equalLengthApart_iff {secrets : List JsString} :
    EqualLengthApart secrets ↔ ∀ v ∈ redactorValues secrets, ∀ w ∈ redactorValues secrets,
      v.length = w.length → v ≠ w → ∀ i < v.length, 0 < i → ¬v.drop i <+: w := by
  simp only [EqualLengthApart, mem_redactorValues]

instance (secrets : List JsString) : Decidable (EqualLengthApart secrets) :=
  decidable_of_iff _ equalLengthApart_iff.symm

theorem keptVariant_congr {secrets secrets' : List JsString}
    (h : ∀ s, s ∈ secrets ↔ s ∈ secrets') (v : JsString) :
    KeptVariant secrets v ↔ KeptVariant secrets' v := by
  simp only [KeptVariant, h]

theorem EqualLengthApart.word_eq {secrets : List JsString} (h : EqualLengthApart secrets)
    {text : JsString} {o o' : Occurrence UInt16} (hv : KeptVariant secrets o.word)
    (hv' : KeptVariant secrets o'.word) (hin : o.In text) (hin' : o'.In text) (hm : o.Meets o')
    (hlen : o.word.length = o'.word.length) : o.word = o'.word := by
  by_contra hne
  rcases lt_trichotomy o.start o'.start with hlt | heq | hgt
  · obtain ⟨hi, hpre⟩ := hm.drop_prefix hin hin' hlt hlen.le
    exact h _ hv _ hv' hlen hne _ hi (Nat.sub_pos_of_lt hlt) hpre
  · rw [Occurrence.In, ← heq] at hin'
    exact hne ((List.prefix_of_prefix_length_le hin hin' hlen.le).eq_of_length hlen)
  · obtain ⟨hi, hpre⟩ := hm.symm.drop_prefix hin' hin hgt hlen.ge
    exact h _ hv' _ hv hlen.symm (Ne.symm hne) _ hi (Nat.sub_pos_of_lt hgt) hpre

/-- Two listings of the same secrets rank occurrences that meet in the same way. -/
theorem rank_le_of_rank_le {secrets secrets' : List JsString}
    (h : ∀ s, s ∈ secrets ↔ s ∈ secrets') (hapart : EqualLengthApart secrets) {text : JsString}
    {o o' : Occurrence UInt16} (hv : KeptVariant secrets o.word)
    (hv' : KeptVariant secrets o'.word) (hin : o.In text) (hin' : o'.In text) (hm : o.Meets o')
    (hle : o.rank (redactorWords secrets') ≤ o'.rank (redactorWords secrets')) :
    o.rank (redactorWords secrets) ≤ o'.rank (redactorWords secrets) := by
  have hmem := mem_redactorWords.mpr hv
  have hmem' := mem_redactorWords.mpr hv'
  have hidx : (redactorWords secrets').idxOf o.word ≤ (redactorWords secrets').idxOf o'.word :=
    (Prod.Lex.toLex_le_toLex.mp hle).elim le_of_lt fun he ↦ he.1.le
  have hlen : o'.word.length ≤ o.word.length :=
    length_le_of_idxOf_le (mem_redactorWords.mpr ((keptVariant_congr h _).mp hv))
      (mem_redactorWords.mpr ((keptVariant_congr h _).mp hv')) hidx
  rw [Occurrence.rank, Occurrence.rank, Prod.Lex.toLex_le_toLex] at hle ⊢
  rcases hlen.lt_or_eq with hlt | heq
  · -- the longer word comes first in every listing
    left
    by_contra! hge
    exact absurd (length_le_of_idxOf_le hmem' hmem hge) hlt.not_ge
  · have hword := hapart.word_eq hv hv' hin hin' hm heq.symm
    rw [hword] at hle ⊢
    exact Or.inr ⟨rfl, hle.elim (fun hlt ↦ absurd hlt (lt_irrefl _)) And.right⟩

/-- **The listing does not matter.** Redactors built from two enumerations of the same set of
secrets, in any order and with any repetitions, agree on every text, when no two kept variants of
equal length overlap and none can overlap the marker. -/
theorem redact_congr (secrets secrets' : List JsString) (h : ∀ s, s ∈ secrets ↔ s ∈ secrets')
    (hapart : EqualLengthApart secrets) (hsafe : MarkerSafe secrets) (text : JsString) :
    (Redactor.new secrets).redact text = (Redactor.new secrets').redact text := by
  have hne := redactorWords_ne_nil secrets
  have hne' := redactorWords_ne_nil secrets'
  have hsafe' : MarkerSafe secrets' := fun v hv ↦ hsafe v ((keptVariant_congr h v).mpr hv)
  have hremoved : removedBy (redactorWords secrets) text
      = removedBy (redactorWords secrets') text := by
    refine Words.removedBy_congr hne hne' (fun v ↦ ?_) fun o o' hv hv' hin hin' hm hle ↦ ?_
    · rw [mem_redactorWords, mem_redactorWords, keptVariant_congr h]
    · exact rank_le_of_rank_le h hapart (mem_redactorWords.mp hv) (mem_redactorWords.mp hv') hin
        hin' hm hle
  rw [redact_eq_replaceEach, redact_eq_replaceEach,
    Words.replaceEach_eq_mark_map hsafe.clear,
    Words.replaceEach_eq_mark_map hsafe'.clear,
    Words.cutEach_eq_of_removedBy_eq hne hne' hremoved]

theorem redact_congr_swapped :
    (Redactor.new [lit "abcdef", lit "uvwxyz"]).redact (lit "uvwxyzabcdef")
      = (Redactor.new [lit "uvwxyz", lit "abcdef", lit "uvwxyz"]).redact (lit "uvwxyzabcdef") :=
  redact_congr _ _ (fun s ↦ by simp; tauto) (by decide +kernel) (by decide +kernel) _

end NativeKiln
