import NativeKiln.Codec.JsString
import Mathlib.Data.List.Infix

/-!
# E-mail addresses

The pattern that `z.string().email()` of the schema library tests a string against:
`/^(?!\.)(?!.*\.\.)([A-Z0-9_'+\-\.]*)[A-Z0-9_+-]@([A-Z0-9][A-Z0-9\-]*\.)+[A-Z]{2,}$/i`.
No class contains `@` and no class of the domain contains the dot, so that the string can be taken
apart at the first `@` and its domain at the dots (`emailRegex_iff`).
-/

namespace JsString

/-! ## Classes -/

/-- `[A-Z]`, in both cases. -/
def isLetter (u : UInt16) : Bool :=
  65 ≤ u.toNat && u.toNat ≤ 90 || 97 ≤ u.toNat && u.toNat ≤ 122

/-- `[A-Z0-9]`. -/
def isAlphanumeric (u : UInt16) : Bool := isLetter u || 48 ≤ u.toNat && u.toNat ≤ 57

/-- `[A-Z0-9_'+\-\.]`. -/
def isLocal (u : UInt16) : Bool := isAlphanumeric u || (lit "_'+-.").contains u

/-- `[A-Z0-9_+-]`. -/
def isLocalEnd (u : UInt16) : Bool := isAlphanumeric u || (lit "_+-").contains u

/-! ## Parts -/

/-- `([A-Z0-9_'+\-\.]*)[A-Z0-9_+-]`. -/
def isLocalPart (s : JsString) : Bool := s.dropLast.all isLocal && s.getLast?.any isLocalEnd

/-- `[A-Z0-9][A-Z0-9\-]*`. -/
def isLabel : JsString → Bool
  | [] => false
  | u :: s => isAlphanumeric u && s.all fun v ↦ isAlphanumeric v || v == 45

/-- `[A-Z]{2,}`. -/
def isTopLevel (s : JsString) : Bool := 2 ≤ s.length && s.all isLetter

/-- `([A-Z0-9][A-Z0-9\-]*\.)+[A-Z]{2,}`. -/
def isDomain (s : JsString) : Bool :=
  let parts := s.splitOn 46
  2 ≤ parts.length && parts.dropLast.all isLabel && parts.getLast?.any isTopLevel

/-- The whole pattern. A string that has a line terminator, which the second look-ahead does not
look behind, is not matched anyway. -/
def emailRegex (s : JsString) : Bool :=
  s.head? != some 46 && !decide (lit ".." <:+: s) && isLocalPart (s.takeWhile (· != 64)) &&
    isDomain ((s.dropWhile (· != 64)).drop 1)

/-! ## The pattern, part by part -/

theorem isLocalPart_iff {s : JsString} : isLocalPart s ↔
    ∃ front last, s = front ++ [last] ∧ front.all isLocal ∧ isLocalEnd last := by
  rw [isLocalPart]
  constructor
  · intro h
    obtain ⟨hfront, hlast⟩ := Bool.and_eq_true_iff.mp h
    rcases hs : s.getLast? with _ | last
    · simp [hs] at hlast
    · refine ⟨s.dropLast, last, ?_, hfront, by simpa [hs] using hlast⟩
      exact (List.dropLast_append_getLast? last hs).symm
  · rintro ⟨front, last, rfl, hfront, hlast⟩
    simp [hfront, hlast]

theorem intercalate_concat (sep : UInt16) (labels : List JsString) (top : JsString) :
    [sep].intercalate (labels ++ [top]) = labels.flatMap (· ++ [sep]) ++ top := by
  induction labels with
  | nil => simp
  | cons l labels ih =>
    rw [List.cons_append, List.intercalate_cons_of_ne_nil (by simp), ih, List.flatMap_cons,
      List.append_assoc, List.append_assoc, List.append_assoc]

theorem forall_of_isLabel {s : JsString} (h : isLabel s) :
    ∀ u ∈ s, isAlphanumeric u || u == 45 := by
  rcases s with _ | ⟨u, s⟩
  · simp
  · obtain ⟨hu, hs⟩ := Bool.and_eq_true_iff.mp h
    rintro v (_ | ⟨_, hmem⟩)
    · simp [hu]
    · exact List.all_eq_true.mp hs v hmem

theorem forall_of_isTopLevel {s : JsString} (h : isTopLevel s) : ∀ u ∈ s, isLetter u :=
  List.all_eq_true.mp (Bool.and_eq_true_iff.mp h).2

theorem forall_of_isLocalPart {s : JsString} (h : isLocalPart s) :
    ∀ u ∈ s, isLocal u || isLocalEnd u := by
  obtain ⟨front, last, rfl, hfront, hlast⟩ := isLocalPart_iff.mp h
  intro u hmem
  rcases List.mem_append.mp hmem with hmem | hmem
  · simp [List.all_eq_true.mp hfront u hmem]
  · simp [List.mem_singleton.mp hmem, hlast]

theorem dot_notMem_of_isLabel {s : JsString} (h : isLabel s) : 46 ∉ s := fun hmem ↦
  absurd (forall_of_isLabel h 46 hmem) (by decide)

theorem dot_notMem_of_isTopLevel {s : JsString} (h : isTopLevel s) : 46 ∉ s := fun hmem ↦
  absurd (forall_of_isTopLevel h 46 hmem) (by decide)

theorem isDomain_iff {s : JsString} : isDomain s ↔
    ∃ labels top, s = labels.flatMap (· ++ [46]) ++ top ∧ labels ≠ [] ∧ labels.all isLabel ∧
      isTopLevel top := by
  rw [isDomain]
  constructor
  · intro h
    obtain ⟨hparts, htop⟩ := Bool.and_eq_true_iff.mp h
    obtain ⟨hlength, hlabels⟩ := Bool.and_eq_true_iff.mp hparts
    rcases hlast : (s.splitOn 46).getLast? with _ | top
    · simp [hlast] at htop
    · have hsplit : s.splitOn 46 = (s.splitOn 46).dropLast ++ [top] :=
        (List.dropLast_append_getLast? top hlast).symm
      refine ⟨(s.splitOn 46).dropLast, top, ?_, ?_, hlabels, by simpa [hlast] using htop⟩
      · rw [← intercalate_concat, ← hsplit, List.intercalate_splitOn]
      · intro hnil
        have htwo := of_decide_eq_true hlength
        rw [hsplit, hnil] at htwo
        simp at htwo
  · rintro ⟨labels, top, rfl, hne, hlabels, htop⟩
    have hdots : ∀ l ∈ labels ++ [top], 46 ∉ l := by
      intro l hl
      rcases List.mem_append.mp hl with hl | hl
      · exact dot_notMem_of_isLabel (List.all_eq_true.mp hlabels l hl)
      · rw [List.mem_singleton.mp hl]
        exact dot_notMem_of_isTopLevel htop
    have hpos := List.length_pos_iff.mpr hne
    rw [← intercalate_concat, List.splitOn_intercalate 46 hdots (by simp)]
    simp [hlabels, htop]
    omega

theorem at_notMem_of_isLocalPart {s : JsString} (h : isLocalPart s) : 64 ∉ s := fun hmem ↦
  absurd (forall_of_isLocalPart h 64 hmem) (by decide)

/-- **The pattern.** A string matches when it does not start with a dot, has no two dots in a row,
and is a local part, an `@`, labels with dots behind them and a top level. -/
theorem emailRegex_iff {s : JsString} : emailRegex s ↔
    s.head? ≠ some 46 ∧ ¬lit ".." <:+: s ∧ ∃ name labels top,
      s = name ++ 64 :: (labels.flatMap (· ++ [46]) ++ top) ∧ isLocalPart name ∧ labels ≠ [] ∧
        labels.all isLabel ∧ isTopLevel top := by
  simp only [emailRegex, Bool.and_eq_true, bne_iff_ne, Bool.not_eq_true', decide_eq_false_iff_not]
  constructor
  · rintro ⟨⟨⟨hhead, hdots⟩, hname⟩, hdomain⟩
    obtain ⟨labels, top, hparts, hlabels⟩ := isDomain_iff.mp hdomain
    refine ⟨hhead, hdots, _, labels, top, ?_, hname, hlabels⟩
    rw [← hparts]
    rcases hdrop : s.dropWhile (· != 64) with _ | ⟨u, domain⟩
    · rw [hdrop] at hdomain
      exact absurd hdomain (by decide)
    · have hu : (u != 64) = false := by
        simpa [hdrop] using List.head?_dropWhile_not (· != 64) s
      obtain rfl : u = 64 := by simpa using hu
      rw [List.drop_one, List.tail_cons, ← hdrop, List.takeWhile_append_dropWhile]
  · rintro ⟨hhead, hdots, name, labels, top, rfl, hname, hlabels⟩
    have hdomain := isDomain_iff.mpr ⟨labels, top, rfl, hlabels⟩
    have hbefore : ∀ u ∈ name, (u != 64) = true := fun u hu ↦
      bne_iff_ne.mpr fun h ↦ at_notMem_of_isLocalPart hname (h ▸ hu)
    rw [List.takeWhile_append_of_pos hbefore, List.dropWhile_append_of_pos hbefore,
      List.takeWhile_cons_of_neg (by decide), List.dropWhile_cons_of_neg (by decide),
      List.append_nil]
    exact ⟨⟨⟨hhead, hdots⟩, hname⟩, hdomain⟩

theorem colon_notMem_of_emailRegex {s : JsString} (h : emailRegex s) : 58 ∉ s := by
  obtain ⟨-, -, name, labels, top, rfl, hname, -, hlabels, htop⟩ := emailRegex_iff.mp h
  simp only [List.mem_append, List.mem_cons, List.mem_flatMap, List.not_mem_nil, or_false, not_or,
    not_exists, not_and]
  refine ⟨fun hmem ↦ absurd (forall_of_isLocalPart hname 58 hmem) (by decide), by decide,
    fun l hl ↦ ⟨fun hmem ↦ ?_, by decide⟩, fun hmem ↦ ?_⟩
  · exact absurd (forall_of_isLabel (List.all_eq_true.mp hlabels l hl) 58 hmem) (by decide)
  · exact absurd (forall_of_isTopLevel htop 58 hmem) (by decide)

end JsString
