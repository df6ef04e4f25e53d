import NativeKiln.Api.SessionTable
import NativeKiln.Counting.Collisions
import Mathlib.Data.FinEnum
import Mathlib.Data.List.GetD

/-!
# Identifiers

What `ids.ts` says of the strings it makes up: they tell what they stand for, they go into a URL as
they are, and nobody predicts them. A letter of an identifier is a byte modulo 62, so that eight of
the letters come up for five bytes each and the others for four; an identifier of 22 letters comes
up for at most `5 ^ 22` of the `256 ^ 22` draws.

What the store relies on, that no token and no identifier is made up twice, cannot be proved of a
run. It is proved of all but a small share of the draws (`rarely_repeated`): a run is taken for each
outcome of the draws, whatever decides about the schedule.
-/

namespace NativeKiln

open JsString (lit)
open Interaction (Config)

/-! ## Prefixes -/

inductive IdPrefix
  | usr | ses | prj | src | prof | env | cred | bld | step | log | art | run | cap | sub | aud
  | rtok
  deriving DecidableEq

def IdPrefix.text : IdPrefix → JsString
  | usr => lit "usr"
  | ses => lit "ses"
  | prj => lit "prj"
  | src => lit "src"
  | prof => lit "prof"
  | env => lit "env"
  | cred => lit "cred"
  | bld => lit "bld"
  | step => lit "step"
  | log => lit "log"
  | art => lit "art"
  | run => lit "run"
  | cap => lit "cap"
  | sub => lit "sub"
  | aud => lit "aud"
  | rtok => lit "rtok"

def IdPrefix.all : List IdPrefix :=
  [usr, ses, prj, src, prof, env, cred, bld, step, log, art, run, cap, sub, aud, rtok]

theorem IdPrefix.mem_all (p : IdPrefix) : p ∈ all := by cases p <;> decide

namespace Identifiers

open Finset

theorem text_injective : Function.Injective IdPrefix.text := by
  have h : ∀ p ∈ IdPrefix.all, ∀ q ∈ IdPrefix.all, p.text = q.text → p = q := by decide +kernel
  exact fun p q ↦ h p p.mem_all q q.mem_all

/-! ## Letters -/

/-- What a byte is worth as a letter. -/
def residue (b : UInt8) : ℕ := b.toNat % ALPHABET.length

/-- The letter a byte is written as. -/
def letterOf (b : UInt8) : UInt16 := ALPHABET.getD (residue b) 0

theorem residue_lt (b : UInt8) : residue b < ALPHABET.length := Nat.mod_lt _ (by decide)

theorem letterOf_eq_iff {b b' : UInt8} : letterOf b = letterOf b' ↔ residue b = residue b' := by
  have hnodup : ALPHABET.Nodup := by decide +kernel
  rw [letterOf, letterOf, List.getD_eq_getElem _ _ (residue_lt b),
    List.getD_eq_getElem _ _ (residue_lt b'), hnodup.getElem_inj_iff]

theorem letterOf_mem (b : UInt8) : letterOf b ∈ ALPHABET := by
  rw [letterOf, List.getD_eq_getElem _ _ (residue_lt b)]
  exact List.getElem_mem _

theorem idOf_eq (s : JsString) (b : Bytes) : idOf s b = s ++ 95 :: b.map letterOf := by
  rw [idOf, List.append_assoc]
  rfl

theorem map_letterOf_eq_iff {b b' : Bytes} :
    b.map letterOf = b'.map letterOf ↔ b.map residue = b'.map residue := by
  induction b generalizing b' with
  | nil => cases b' <;> simp
  | cons x b ih => cases b' <;> simp [letterOf_eq_iff, ih]

/-- **An identifier tells what it stands for**, and its bytes up to multiples of 62. -/
theorem idOf_eq_iff {p q : IdPrefix} {b b' : Bytes} :
    idOf p.text b = idOf q.text b' ↔ p = q ∧ b.map residue = b'.map residue := by
  have htext : (95 : UInt16) ∉ p.text := by
    have h : ∀ p ∈ IdPrefix.all, (95 : UInt16) ∉ p.text := by decide +kernel
    exact h p p.mem_all
  have hletters : (95 : UInt16) ∉ b.map letterOf := by
    intro h
    obtain ⟨x, -, hx⟩ := List.mem_map.mp h
    have hmem := letterOf_mem x
    rw [hx] at hmem
    exact absurd hmem (by decide +kernel)
  rw [idOf_eq, idOf_eq, List.append_cons_inj_of_notMem htext hletters, text_injective.eq_iff,
    map_letterOf_eq_iff]
  simp

/-! ## Draws -/

/-- What `randomBytes(n)` may come to. -/
abbrev Draw (n : ℕ) := Fin n → UInt8

def bytesOf {n : ℕ} (u : Draw n) : Bytes := List.ofFn u

@[simp] theorem length_bytesOf {n : ℕ} (u : Draw n) : (bytesOf u).length = n := List.length_ofFn

theorem card_draw (n : ℕ) : Fintype.card (Draw n) = 256 ^ n := by
  have hcard : Fintype.card UInt8 = 256 := by decide +kernel
  rw [Fintype.card_fun, Fintype.card_fin, hcard]

theorem card_residue (b : UInt8) :
    #{x : UInt8 | residue x = residue b} = if residue b < 8 then 5 else 4 := by
  have h : ∀ r : Fin 62, #{x : UInt8 | residue x = r} = if r.val < 8 then 5 else 4 := by
    decide +kernel
  exact h ⟨residue b, residue_lt b⟩

/-- **How often an identifier comes up.** -/
theorem card_idOf (p : IdPrefix) {n : ℕ} (v : Draw n) :
    #{u : Draw n | idOf p.text (bytesOf u) = idOf p.text (bytesOf v)} =
      ∏ i, if residue (v i) < 8 then 5 else 4 := by
  have hpi : ({u : Draw n | idOf p.text (bytesOf u) = idOf p.text (bytesOf v)} : Finset (Draw n)) =
      Fintype.piFinset fun i ↦ {x | residue x = residue (v i)} := by
    ext u
    rw [mem_filter, Fintype.mem_piFinset, idOf_eq_iff, bytesOf, bytesOf, List.map_ofFn,
      List.map_ofFn, List.ofFn_inj, funext_iff]
    simp
  rw [hpi, Fintype.card_piFinset]
  exact Finset.prod_congr rfl fun i _ ↦ card_residue (v i)

/-- No identifier comes up for more than `5 ^ n` draws. -/
theorem card_idOf_le (p : IdPrefix) (n : ℕ) (s : JsString) :
    #{u : Draw n | idOf p.text (bytesOf u) = s} ≤ 5 ^ n := by
  by_cases h : ∃ v : Draw n, idOf p.text (bytesOf v) = s
  · obtain ⟨v, rfl⟩ := h
    rw [card_idOf]
    calc ∏ i, (if residue (v i) < 8 then 5 else 4) ≤ ∏ _i : Fin n, 5 :=
          Finset.prod_le_prod' fun i _ ↦ by split <;> decide
      _ = 5 ^ n := by simp
  · rw [card_eq_zero.mpr (filter_eq_empty_iff.mpr fun u _ hu ↦ h ⟨u, hu⟩)]
    exact Nat.zero_le _

theorem tokenOf_injective : Function.Injective tokenOf := Base64.encode_injective _

theorem card_tokenOf_le (n : ℕ) (s : JsString) : #{u : Draw n | tokenOf (bytesOf u) = s} ≤ 1 :=
  card_le_one.mpr fun _ hu _ hv ↦ List.ofFn_injective
    (tokenOf_injective ((mem_filter.mp hu).2.trans (mem_filter.mp hv).2.symm))

/-! ## URLs -/

/-- An ASCII letter or digit, a dash or an underscore. -/
def IsWordUnit (u : UInt16) : Prop :=
  48 ≤ u.toNat ∧ u.toNat ≤ 57 ∨ 65 ≤ u.toNat ∧ u.toNat ≤ 90 ∨ 97 ≤ u.toNat ∧ u.toNat ≤ 122 ∨
    u.toNat = 45 ∨ u.toNat = 95

instance : DecidablePred IsWordUnit := fun _ ↦ inferInstanceAs (Decidable (_ ∨ _))

theorem IsWordUnit.unreserved {u : UInt16} (h : IsWordUnit u) :
    ¬(JsString.IsHigh u ∨ JsString.IsLow u) ∧ JsString.unreserved (JsString.single u) := by
  have hsingle : ¬(JsString.IsHigh u ∨ JsString.IsLow u) := by
    simp only [IsWordUnit, JsString.IsHigh, JsString.IsLow] at h ⊢
    omega
  refine ⟨hsingle, ?_⟩
  have halpha : ∀ n : Fin 128, 48 ≤ n.val ∧ n.val ≤ 57 ∨ 65 ≤ n.val ∧ n.val ≤ 90 ∨
      97 ≤ n.val ∧ n.val ≤ 122 → (Char.ofNat n).isAlphanum := by decide +kernel
  rw [JsString.unreserved, Bool.or_eq_true, JsString.single, if_neg hsingle]
  rcases h with h | h | h | h | h
  · exact Or.inl (halpha ⟨u.toNat, by omega⟩ (Or.inl h))
  · exact Or.inl (halpha ⟨u.toNat, by omega⟩ (Or.inr (Or.inl h)))
  · exact Or.inl (halpha ⟨u.toNat, by omega⟩ (Or.inr (Or.inr h)))
  · exact Or.inr (by rw [h]; decide)
  · exact Or.inr (by rw [h]; decide)

theorem encodeURIComponent_eq_self {s : JsString} (h : ∀ u ∈ s, IsWordUnit u) :
    JsString.encodeURIComponent s = some s :=
  JsString.encodeURIComponent_eq_self fun u hu ↦ (h u hu).unreserved

theorem isWordUnit_of_mem_idOf {p : IdPrefix} {b : Bytes} {u : UInt16} (hu : u ∈ idOf p.text b) :
    IsWordUnit u := by
  rw [idOf_eq, List.mem_append, List.mem_cons] at hu
  rcases hu with hu | rfl | hu
  · have h : ∀ p ∈ IdPrefix.all, p.text.all fun u ↦ IsWordUnit u := by decide +kernel
    exact of_decide_eq_true (List.all_eq_true.mp (h p p.mem_all) u hu)
  · decide
  · obtain ⟨x, -, rfl⟩ := List.mem_map.mp hu
    have h : ALPHABET.all fun u ↦ IsWordUnit u := by decide +kernel
    exact of_decide_eq_true (List.all_eq_true.mp h _ (letterOf_mem x))

theorem isWordUnit_of_mem_tokenOf {b : Bytes} {u : UInt16} (hu : u ∈ tokenOf b) :
    IsWordUnit u := by
  rw [tokenOf, Base64.encode, Base64.Variant.padding, List.append_nil] at hu
  obtain ⟨n, hn, rfl⟩ := List.mem_map.mp hu
  have h : ∀ n : Fin 64, IsWordUnit (Base64.Variant.base64url.letter n) := by decide +kernel
  exact h ⟨n, Base64.lt_of_mem_sextets hn⟩

/-- **The format.** Two identifiers are equal exactly when they have the same prefix and their bytes
agree modulo 62; an identifier comes up for four or five bytes a letter, a token for one draw only;
and both go into a URL as they are. -/
theorem format :
    (∀ p q : IdPrefix, ∀ b b' : Bytes, idOf p.text b = idOf q.text b' ↔
      p = q ∧ b.map residue = b'.map residue) ∧
    (∀ (p : IdPrefix) (n : ℕ) (v : Draw n),
      #{u : Draw n | idOf p.text (bytesOf u) = idOf p.text (bytesOf v)} =
        ∏ i, if residue (v i) < 8 then 5 else 4) ∧
    (∀ b b' : Bytes, tokenOf b = tokenOf b' ↔ b = b') ∧
    (∀ (p : IdPrefix) (b : Bytes),
      JsString.encodeURIComponent (idOf p.text b) = some (idOf p.text b)) ∧
    ∀ b : Bytes, JsString.encodeURIComponent (tokenOf b) = some (tokenOf b) :=
  ⟨fun _ _ _ _ ↦ idOf_eq_iff, fun p _ v ↦ card_idOf p v, fun _ _ ↦ tokenOf_injective.eq_iff,
    fun _ _ ↦ encodeURIComponent_eq_self fun _ ↦ isWordUnit_of_mem_idOf,
    fun _ ↦ encodeURIComponent_eq_self fun _ ↦ isWordUnit_of_mem_tokenOf⟩

/-! ## Runs -/

open Authentication (handsOut)

section Runs

variable {P : Platform} {w₀ : World} {c : Config Op Op.Val Exn Request Response World}

/-- What is left to chance: requests that are handed the same token are the same request, rows that
are inserted with the same identifier are the same row, and until its time is up a session has its
row if and only if it was opened and its token was not revoked since. -/
structure Unrepeated (c : Config Op Op.Val Exn Request Response World) : Prop where
  tokens : ∀ f ∈ c.trace, ∀ f' ∈ c.trace, ∀ token ≠ [], handsOut token f → handsOut token f' →
    f.thread = f'.thread
  ids : ∀ e ∈ c.trace, ∀ e' ∈ c.trace, ∀ d d', Inserts d e → Inserts d' e' → d.id = d'.id → e = e'
  rows : ∀ d, c.store.clock < d.expiresAt → (d ∈ c.store.rows ↔ Granted d c.trace)

theorem nodup_generatedId (hc : (api P).Reachable w₀ c)
    (h : (c.trace.filterMap fun e ↦ (drawn? 22 e).map (idOf (lit "ses"))).Nodup) :
    (c.trace.filterMap generatedId?).Nodup := by
  have hdrawn : ∀ pre e post, c.trace = pre ++ e :: post → ∀ id, generatedId? e = some id →
      ∃ g ∈ c.trace, g.thread = e.thread ∧ (drawn? 22 g).map (idOf (lit "ses")) = some id := by
    intro pre e post htr id hid
    obtain ⟨d, hd, rfl⟩ := Option.map_eq_some_iff.mp hid
    obtain ⟨r, ha⟩ := requested?_eq_some.mp hd
    have hallows := (SessionTable.orderly hc).trace pre e post htr
    rw [Interaction.System.Disciplined, ha] at hallows
    obtain ⟨b, hb, hid⟩ := hallows
    obtain ⟨g, hg, hgi, hgb⟩ := drawn?_of_mem_own hb
    exact ⟨g, by simp [htr, hg], hgi, by rw [hgb, hid]; rfl⟩
  refine nodup_filterMap fun pre e post htr id hid e' he' hid' ↦ ?_
  obtain ⟨p, q, rfl⟩ := List.append_of_mem he'
  obtain ⟨g, hg, hgi, hgd⟩ := hdrawn _ e post htr id hid
  obtain ⟨g', hg', hgi', hgd'⟩ := hdrawn p e' (q ++ e :: post) (by simp [htr]) id hid'
  obtain rfl := eq_of_nodup h hg hg' hgd hgd'
  -- both would be the only row that the request asks for
  obtain ⟨d, hd, -⟩ := Option.map_eq_some_iff.mp hid
  obtain ⟨d', hd', -⟩ := Option.map_eq_some_iff.mp hid'
  obtain ⟨r, ha⟩ := requested?_eq_some.mp hd
  obtain ⟨r', ha'⟩ := requested?_eq_some.mp hd'
  have hallows := (Authentication.orderly hc).trace _ e post htr
  rw [Interaction.System.Disciplined, ha] at hallows
  exact hallows.1 d' r'.seen
    (Interaction.mem_own.mpr ⟨e', by simp, hgi'.symm.trans hgi, r', ha', rfl⟩)

theorem unrepeated (hc : (api P).Reachable w₀ c) (h₀ : w₀.sessions = [])
    (htokens : (c.trace.filterMap generatedToken?).Nodup)
    (hids : (c.trace.filterMap generatedId?).Nodup) : Unrepeated c where
  tokens f hf f' hf' token hne hout hout' := by
    obtain ⟨g, hg, hgi, hgd⟩ := Authentication.generated_of_handsOut hc hf hout hne
    obtain ⟨g', hg', hgi', hgd'⟩ := Authentication.generated_of_handsOut hc hf' hout' hne
    obtain rfl := eq_of_nodup htokens hg hg' hgd hgd'
    exact hgi.symm.trans hgi'
  ids _ he _ he' _ _ hd hd' hid := SessionTable.insert_eq_of_id hc hids he he' hd hd' hid
  rows d hlive := ⟨fun hd ↦ (traced hc h₀).1.granted d hd, fun hd ↦
    ((SessionTable.kept hc h₀ hids).1 d hd).resolve_right (not_le.mpr hlive)⟩

/-- Two of the draws are made into the same string. -/
def Repeats {n k : ℕ} (g : Bytes → JsString) (f : Fin k → Draw n) : Prop :=
  ¬Function.Injective ((fun u ↦ g (bytesOf u)) ∘ f)

instance {n k : ℕ} (g : Bytes → JsString) : DecidablePred (Repeats g : (Fin k → Draw n) → Prop) :=
  fun _ ↦ inferInstanceAs (Decidable (¬_))

/-- What `k` draws are made into is hardly ever the same twice. -/
theorem dens_repeats_le {n m : ℕ} (g : Bytes → JsString)
    (hg : ∀ s, #{u : Draw n | g (bytesOf u) = s} ≤ m) (k : ℕ) :
    dens {f : Fin k → Draw n | Repeats g f} ≤ k.choose 2 * (m / 256 ^ n) := by
  have h := Counting.dens_collisions_le (ι := Fin k) (fun u : Draw n ↦ g (bytesOf u)) hg
  rw [card_draw, Fintype.card_fin, Nat.cast_pow, Nat.cast_ofNat] at h
  exact h

theorem nodup_of_sublist {n k : ℕ} {g : Bytes → JsString} {f : Fin k → Draw n} {tr : List ApiEvent}
    (hf : ¬Repeats g f)
    (hsub : (tr.filterMap (drawn? n)).Sublist (List.ofFn fun i ↦ bytesOf (f i))) :
    (tr.filterMap fun e ↦ (drawn? n e).map g).Nodup := by
  have hnodup : ((List.ofFn fun i ↦ bytesOf (f i)).map g).Nodup := by
    rw [List.map_ofFn]
    exact List.nodup_ofFn.mpr (not_not.mp hf)
  rw [← List.map_filterMap]
  exact hnodup.sublist (hsub.map g)

/-- An outcome of `k` draws of 32 bytes and `l` of 22. -/
abbrev Chance (k l : ℕ) := (Fin k → Draw 32) × (Fin l → Draw 22)

open scoped Classical in
/-- **Hardly ever.** Take `k` draws of 32 bytes and `l` of 22, all of them equally likely, and for
each outcome a run of the API that uses none of these draws twice, whatever has decided about its
requests, its failures and its schedule. In all runs but a share of at most
`k (k - 1) / 2 / 256 ^ 32 + l (l - 1) / 2 * (5 / 256) ^ 22` no two requests are handed the same
token, no two sessions have the same identifier, and no session is lost before its time. -/
theorem rarely_repeated (P : Platform) (w₀ : World) (h₀ : w₀.sessions = []) (k l : ℕ)
    (c : Chance k l → Config Op Op.Val Exn Request Response World)
    (hc : ∀ f, (api P).Reachable w₀ (c f))
    (htokens : ∀ f, ((c f).trace.filterMap (drawn? 32)).Sublist
      (List.ofFn fun i ↦ bytesOf (f.1 i)))
    (hids : ∀ f, ((c f).trace.filterMap (drawn? 22)).Sublist
      (List.ofFn fun i ↦ bytesOf (f.2 i))) :
    dens {f | ¬Unrepeated (c f)} ≤
      k.choose 2 * (1 / 256 ^ 32) + l.choose 2 * (5 ^ 22 / 256 ^ 22) := by
  have hsub : ∀ f, ¬Unrepeated (c f) →
      Repeats tokenOf f.1 ∨ Repeats (idOf IdPrefix.ses.text) f.2 := by
    intro f hf
    by_contra hboth
    rw [not_or] at hboth
    exact hf (unrepeated (hc f) h₀ (nodup_of_sublist hboth.1 (htokens f))
      (nodup_generatedId (hc f) (nodup_of_sublist hboth.2 (hids f))))
  calc dens {f | ¬Unrepeated (c f)}
      ≤ dens {f : Chance k l | Repeats tokenOf f.1 ∨ Repeats (idOf IdPrefix.ses.text) f.2} :=
        dens_le_dens (monotone_filter_right _ fun f _ hf ↦ hsub f hf)
    _ ≤ dens {f : Fin k → Draw 32 | Repeats tokenOf f} +
          dens {f : Fin l → Draw 22 | Repeats (idOf IdPrefix.ses.text) f} :=
        Counting.dens_fst_or_snd_le (Repeats tokenOf) (Repeats (idOf IdPrefix.ses.text))
    _ ≤ (k.choose 2 * ((1 : ℕ) / 256 ^ 32) + l.choose 2 * ((5 ^ 22 : ℕ) / 256 ^ 22) : ℚ≥0) :=
        add_le_add (dens_repeats_le _ (card_tokenOf_le 32) k)
          (dens_repeats_le _ (card_idOf_le .ses 22) l)
    _ = _ := by rw [Nat.cast_one, Nat.cast_pow, Nat.cast_ofNat]

/-! ### Schedules -/

/-- The bytes that an entry of a schedule has for somebody who draws `n` of them. -/
def offered? (n : ℕ) : Interaction.System.Label Exn Request Bytes → Option Bytes
  | .next _ y _ => if y.length = n then some y else none
  | _ => none

theorem eq_of_drawn {m : ℕ} {y : Bytes} {f : Interaction.System.Fault Exn} {w w' : World}
    {b : Bytes} (h : (api P).answer? y f w (.randomBytes m) = some (w', .answered (.ok b))) :
    y.length = m ∧ y = b := by
  cases f with
  | none =>
    obtain ⟨p, hp, heq⟩ := Option.map_eq_some_iff.mp h
    change World.exec P y w (.randomBytes m) = some p at hp
    rw [World.exec] at hp
    split at hp
    · next hy =>
      obtain rfl := Option.some_inj.mp hp
      simp only [Prod.mk.injEq, Interaction.Reply.answered.injEq, Except.ok.injEq] at heq
      exact ⟨hy, heq.2⟩
    · simp at hp
  | reject e =>
    rw [Interaction.System.answer?] at h
    split at h <;> simp at h
  | lose e =>
    rw [Interaction.System.answer?] at h
    split at h <;> simp at h

/-- What is drawn in a run goes back to different entries of the schedule. -/
theorem drawn_sublist (n : ℕ) (ls : List (Interaction.System.Label Exn Request Bytes)) :
    (((api P).run ls w₀).trace.filterMap (drawn? n)).Sublist (ls.filterMap (offered? n)) := by
  induction ls using List.reverseRecOn with
  | nil => exact List.nil_sublist _
  | append_singleton ls l ih =>
    rw [Interaction.System.run_concat, List.filterMap_append]
    cases h : (api P).next? l ((api P).run ls w₀) with
    | none => exact ih.trans (List.sublist_append_left ..)
    | some c' =>
      rcases Interaction.System.trace_of_next? h with htr | ⟨e, htr, hl⟩
      · rw [Option.getD_some, htr]
        exact ih.trans (List.sublist_append_left ..)
      · rw [Option.getD_some, htr, List.filterMap_append]
        refine ih.append ?_
        cases hb : drawn? n e with
        | none => simp [hb]
        | some b =>
          have hoffered : offered? n l = some b := by
            rw [drawn?] at hb
            split at hb
            swap
            · simp at hb
            next m b' ha =>
            obtain ⟨y, f, rfl, hanswer⟩ := hl _ _ ha
            obtain ⟨hy, rfl⟩ := eq_of_drawn hanswer
            rwa [offered?, hy]
          rw [List.filterMap_cons_some hb, List.filterMap_cons_some hoffered]
          exact List.Sublist.refl _

end Runs

/-- A login, with all its random bytes but those of the CSRF token left open. -/
def loginSchedule (f : Chance 1 2) : List (Interaction.System.Label Exn Request Bytes) :=
  [.start 0 (loginRequest (lit "admin@example.com") (lit "correct horse"))] ++
    .replicate 7 (.next 0 [] .none) ++ [.next 0 (bytesOf (f.2 0)) .none, .next 0 [] .none,
      .next 0 [] .none, .next 0 [] .none, .next 0 (bytesOf (f.1 0)) .none, .next 0 [] .none,
      .next 0 (bytesOf (f.2 1)) .none, .next 0 [] .none, .next 0 (.replicate 24 2) .none,
      .next 0 [] .none]

theorem offered_login (f : Chance 1 2) :
    (loginSchedule f).filterMap (offered? 32) = (List.ofFn fun i ↦ bytesOf (f.1 i)) ∧
      (loginSchedule f).filterMap (offered? 22) = List.ofFn fun i ↦ bytesOf (f.2 i) := by
  simp [loginSchedule, offered?, List.filterMap_cons, List.replicate_succ]

open scoped Classical in
theorem rarely_repeated_login :
    dens {f | ¬Unrepeated ((api samplePlatform).run (loginSchedule f) sampleWorld)} ≤
      5 ^ 22 / 256 ^ 22 := by
  have h := rarely_repeated samplePlatform sampleWorld rfl 1 2 _
    (fun f ↦ Interaction.System.reachable_run (loginSchedule f) sampleWorld)
    (fun f ↦ (offered_login f).1 ▸ drawn_sublist 32 (loginSchedule f))
    (fun f ↦ (offered_login f).2 ▸ drawn_sublist 22 (loginSchedule f))
  simpa using h

end Identifiers

end NativeKiln
