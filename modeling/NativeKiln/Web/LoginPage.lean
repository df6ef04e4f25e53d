import NativeKiln.Api.Answers
import NativeKiln.Api.Seeding

/-!
# The login page

`apps/web/app/login/page.tsx` together with the API it calls, as one system: tabs in which somebody
types and submits, the calls that have not been answered yet, and everything else that goes on at
the API. A call may fail at any time, whether or not the API goes on with it, and an answer may
arrive without its body.

What a tab shows is an invariant of this system (`Sound`): a tab that says that somebody has signed
in goes back to a session that the API has opened for credentials that this tab has sent, and an
error is one of the four texts with which the API refuses a login, the page's own where it could not
read the answer, or the network's (`page_tells`).
-/

namespace NativeKiln.LoginPage

open JsString (lit)
open Interaction (Config)
open Answers (Refused Served)
open Authentication (Requested LoginOf handsOut)

/-! ## The page -/

mutual

/-- `String(v)`, for numbers that are written without an exponent. -/
def stringOf : Json → JsString
  | .null => lit "null"
  | .bool b => if b then lit "true" else lit "false"
  | .num n => lit (toString n)
  | .str s => s
  | .arr items => joined items
  | .obj _ => lit "[object Object]"

/-- `items.join(',')`. -/
def joined : List Json → JsString
  | [] => []
  | [.null] => []
  | [v] => stringOf v
  | .null :: rest => lit "," ++ joined rest
  | v :: rest => stringOf v ++ lit "," ++ joined rest

end

/-- `v?.[name]`, for a name that strings and arrays do not have. -/
def member (name : JsString) : Json → Option Json
  | .obj fields => fields.lookup name
  | _ => none

/-- The text of the page's own. -/
def loginFailed : JsString := lit "Login failed"

/-- `body?.error?.message ?? 'Login failed'`, as the message of an error. -/
def errorText (body : Option Json) : JsString :=
  match (body.bind (member (lit "error"))).bind (member (lit "message")) with
  | none | some .null => loginFailed
  | some message => stringOf message

/-- What a call comes to: an answer with what `res.json().catch(() => null)` makes of its body, or a
rejection of `fetch` with its message. -/
inductive Fetched
  | answer (status : ℕ) (body : Option Json)
  | failed (message : JsString)

/-- `res.ok`. -/
def isOk (status : ℕ) : Bool := decide (200 ≤ status ∧ status ≤ 299)

/-- The state of the component. -/
structure Page where
  email : JsString
  password : JsString
  error : Option JsString
  loading : Bool
  signedIn : Bool

namespace Page

def initial : Page := ⟨[], [], none, false, false⟩

/-- `onSubmit` until it waits for the answer. -/
def submitted (p : Page) : Page := { p with error := none, loading := true }

/-- `onSubmit` from the answer on. -/
def settled (p : Page) : Fetched → Page
  | .answer status body =>
    if isOk status then { p with signedIn := true, loading := false }
    else { p with error := some (errorText body), loading := false }
  | .failed message => { p with error := some message, loading := false }

end Page

/-! ## Tabs and the API -/

/-- A call that has not come to anything yet; the API knows it by a thread once it has arrived. -/
structure Flight where
  email : JsString
  password : JsString
  thread : Option ℕ

/-- A tab: the page, its calls under way, and the credentials it has ever sent. -/
structure Tab where
  page : Page
  flights : List Flight
  sent : List (JsString × JsString)

structure Site where
  api : Config Op Op.Val Exn Request Response World
  tabs : ℕ → Tab

namespace Site

/-- Nobody has done anything. -/
def initial (w₀ : World) : Site := ⟨.initial w₀, fun _ ↦ ⟨.initial, [], []⟩⟩

def setTab (s : Site) (t : ℕ) (tab : Tab) : Site := { s with tabs := Function.update s.tabs t tab }

@[simp] theorem setTab_api (s : Site) (t : ℕ) (tab : Tab) : (s.setTab t tab).api = s.api := rfl

theorem setTab_tabs (s : Site) (t : ℕ) (tab : Tab) (t' : ℕ) :
    (s.setTab t tab).tabs t' = if t' = t then tab else s.tabs t' := Function.update_apply ..

end Site

/-- The request is the call for these credentials; the browser and the network add the rest. The
body parser of the API may refuse to take the body, say for its size. -/
structure Carries (r : Request) (email password : JsString) : Prop where
  method : r.method = lit "POST"
  url : r.url = lit "/api/v1/auth/login"
  body : r.body =
      .parsed (some (.obj [(lit "email", .str email), (lit "password", .str password)])) ∨
    ∃ message stack, r.body = .rejected message stack

/-- One step of the site; `network` are the messages with which `fetch` rejects. -/
inductive Step (P : Platform) (network : JsString → Prop) : Site → Site → Prop
  /-- Something happens at the API, to these calls or to others. -/
  | api (s : Site) (c) (h : (api P).Step s.api c) : Step P network s { s with api := c }
  | changeEmail (s : Site) (t : ℕ) (value : JsString) (hform : (s.tabs t).page.signedIn = false) :
    Step P network s
      (s.setTab t { s.tabs t with page := { (s.tabs t).page with email := value } })
  | changePassword (s : Site) (t : ℕ) (value : JsString)
    (hform : (s.tabs t).page.signedIn = false) : Step P network s
      (s.setTab t { s.tabs t with page := { (s.tabs t).page with password := value } })
  /-- The form is there, and its button is not disabled. -/
  | submit (s : Site) (t : ℕ) (hform : (s.tabs t).page.signedIn = false)
    (hbutton : (s.tabs t).page.loading = false) : Step P network s
      (s.setTab t
        { page := (s.tabs t).page.submitted
          flights := (s.tabs t).flights ++ [⟨(s.tabs t).page.email, (s.tabs t).page.password, none⟩]
          sent := (s.tabs t).sent ++ [((s.tabs t).page.email, (s.tabs t).page.password)] })
  /-- A call arrives at the API. -/
  | arrive (s : Site) (t i : ℕ) (r : Request) (before after : List Flight) (x : Flight)
    (hx : (s.tabs t).flights = before ++ x :: after) (hthread : x.thread = none)
    (hr : Carries r x.email x.password) (hi : s.api.threads i = none) : Step P network s
      ({ s with api := s.api.emit i r .start s.api.store (some (serve P r)) }.setTab t
        { s.tabs t with flights := before ++ { x with thread := some i } :: after })
  /-- The answer of the API arrives. -/
  | answer (s : Site) (t i : ℕ) (response : Response) (before after : List Flight) (x : Flight)
    (hx : (s.tabs t).flights = before ++ x :: after) (hthread : x.thread = some i) (f : ApiEvent)
    (hf : f ∈ s.api.trace) (hi : f.thread = i) (hret : f.returned = some response) :
      Step P network s (s.setTab t { s.tabs t with
        page := (s.tabs t).page.settled (.answer response.status response.body)
        flights := before ++ after })
  /-- The answer arrives, but the connection breaks before its body is there. -/
  | breakOff (s : Site) (t i : ℕ) (response : Response) (before after : List Flight) (x : Flight)
    (hx : (s.tabs t).flights = before ++ x :: after) (hthread : x.thread = some i) (f : ApiEvent)
    (hf : f ∈ s.api.trace) (hi : f.thread = i) (hret : f.returned = some response) :
      Step P network s (s.setTab t { s.tabs t with
        page := (s.tabs t).page.settled (.answer response.status none)
        flights := before ++ after })
  /-- The call fails on its way. -/
  | fail (s : Site) (t : ℕ) (message : JsString) (before after : List Flight) (x : Flight)
    (hx : (s.tabs t).flights = before ++ x :: after) (hm : network message) : Step P network s
      (s.setTab t { s.tabs t with
        page := (s.tabs t).page.settled (.failed message), flights := before ++ after })

/-- What can come about when the API starts from `w₀`. -/
def Reachable (P : Platform) (network : JsString → Prop) (w₀ : World) : Site → Prop :=
  Relation.ReflTransGen (Step P network) (.initial w₀)

/-! ## What an answer tells the page -/

/-- The texts with which the API refuses a login. -/
def refusals : List JsString :=
  [lit "Invalid request payload", lit "Invalid email or password.",
    lit "Too many login attempts. Try again later.", lit "Internal server error"]

/-- The API has opened a session for the credentials and handed its token out. -/
def Opened (P : Platform) (w₀ : World) (tr : List ApiEvent) (email password : JsString) : Prop :=
  ∃ p e q token userId, tr = p ++ e :: q ∧ LoginOf P w₀ p e ⟨email, password⟩ token userId ∧
    ∃ f ∈ q, f.thread = e.thread ∧ handsOut token f

section Answer

variable {P : Platform} {w₀ : World} {c : Config Op Op.Val Exn Request Response World}
  {r : Request} {past : List Answered} {email password : JsString}

theorem Opened.append {tr tr' : List ApiEvent} (h : Opened P w₀ tr email password) :
    Opened P w₀ (tr ++ tr') email password := by
  obtain ⟨p, e, q, token, userId, rfl, hlogin, f, hf, hthread, hout⟩ := h
  exact ⟨p, e, q ++ tr', token, userId, by simp, hlogin, f, List.mem_append_left _ hf, hthread,
    hout⟩

theorem Carries.route (h : Carries r email password) : r.route? = some .login := by
  simp only [Request.route?, Route.matches?, h.method, h.url]
  decide

theorem Carries.credentials (h : Carries r email password) {body : LoginDto}
    (hreq : Requested P r body) : body = ⟨email, password⟩ := by
  obtain ⟨-, value, hvalue, hvalid⟩ := hreq
  have hsent := h.body.resolve_right (by simp [hvalue])
  have hbody : NativeKiln.credentials P r = .ok body := by
    rw [NativeKiln.credentials, hvalue]
    exact hvalid
  have hcarries : r.Carries ⟨email, password⟩ := ⟨h.route, _, hsent, rfl, rfl⟩
  have hcredentials := credentials_of_carries (P := P) hcarries
  split at hcredentials
  · exact Except.ok.inj (hbody.symm.trans hcredentials)
  · obtain ⟨details, hcredentials⟩ := hcredentials
    simp [hbody] at hcredentials

theorem errorText_error (message stack : JsString) :
    errorText (DomainExceptionFilter.handle (.error message stack)).body ∈ refusals := by
  rw [show errorText (DomainExceptionFilter.handle (.error message stack)).body =
    lit "Internal server error" from rfl]
  decide

theorem errorText_mem (h : Carries r email password) {e : Exn} (hrefused : Refused P r past e)
    (hplain : Answers.Plain past) :
    isOk (DomainExceptionFilter.handle e).status = false ∧
      errorText (DomainExceptionFilter.handle e).body ∈ refusals := by
  have hpublic : ∀ route, r.route? = some route → route.isPublic = false → False := by
    intro route hroute hpublic
    obtain rfl := Option.some_inj.mp (hroute.symm.trans h.route)
    simp [Route.isPublic] at hpublic
  cases hrefused with
  | malformed message hbody => rcases h.body with h | ⟨_, _, h⟩ <;> simp [h] at hbody
  | rejected message stack => exact ⟨rfl, errorText_error _ _⟩
  | unrouted hroute => simp [h.route] at hroute
  | anonymous route hroute hp => exact (hpublic route hroute hp).elim
  | unknown route hroute hp => exact (hpublic route hroute hp).elim
  | expired route hroute hp => exact (hpublic route hroute hp).elim
  | forged e route hroute hcsrf => exact (hpublic route hroute (Answers.forged_cases hcsrf).1).elim
  | unhashed message => exact ⟨rfl, errorText_error _ _⟩
  | invalid e value hroute hbody hvalid =>
    obtain ⟨details, rfl⟩ := Answers.invalid_eq hvalid
    exact ⟨rfl, List.mem_cons_self⟩
  | limited => exact ⟨rfl, by decide⟩
  | wrong => exact ⟨rfl, by decide⟩
  | failed o e ho hmem =>
    obtain ⟨message, stack, rfl⟩ := hplain o e hmem ho
    exact ⟨rfl, errorText_error _ _⟩

/-- **What an answer tells the page.** If the page takes it for a success, the API has opened a
session for the credentials of the call; if it does not, it finds one of the texts. -/
theorem answer_tells (hc : (api P).Reachable w₀ c) {f start : ApiEvent} (hf : f ∈ c.trace)
    {response : Response} (hret : f.returned = some response) (hstart : start ∈ c.trace)
    (hthread : f.thread = start.thread) (h : Carries start.call email password) :
    if isOk response.status then Opened P w₀ c.trace email password
    else errorText response.body ∈ refusals := by
  obtain ⟨pre, post, htr⟩ := List.append_of_mem hf
  have hcall : f.call = start.call := (SessionTable.orderly hc).call_eq hf hstart hthread
  have hcarries : Carries f.call email password := hcall ▸ h
  have hhead : ∀ response : Response, Answers.headed f.call response = response := fun response ↦ by
    rw [Answers.headed, if_neg (by rw [hcarries.method]; decide)]
  rcases Answers.explained hc htr hret with ⟨hoptions, -⟩ | ⟨response', hserved, rfl⟩ |
    ⟨e, hrefused, rfl⟩
  · exact absurd (hcarries.method.symm.trans hoptions) (by decide)
  · have hok : isOk (Answers.headed f.call response').status := by
      rw [isOk, Answers.headed_status, decide_eq_true_eq]
      rcases hserved.status with h | h <;> omega
    rw [if_pos hok]
    obtain ⟨body, token, userId, hout, p, e, q, rfl, hthread, hlogin⟩ :=
      Answers.opened_of_served hc htr hret hserved rfl hcarries.route
    have hecall : e.call = f.call := (SessionTable.orderly hc).call_eq (by simp [htr]) hf hthread
    obtain rfl := hcarries.credentials (hecall ▸ hlogin.requested)
    exact ⟨p, e, q ++ f :: post, token, userId, by simp [htr], hlogin, f, by simp, hthread.symm,
      hout⟩
  · rw [hhead]
    obtain ⟨hok, htext⟩ := errorText_mem hcarries hrefused (Answers.plain_own hc htr _)
    rw [if_neg (by simp [hok])]
    exact htext

end Answer

/-! ## What a tab shows -/

section Site

variable {P : Platform} {network : JsString → Prop} {w₀ : World} {s s' : Site}

/-- What holds of a tab, beside a trace of the API. -/
structure Sound (P : Platform) (network : JsString → Prop) (w₀ : World) (tr : List ApiEvent)
    (tab : Tab) : Prop where
  /-- The page waits for one call at a time. -/
  flights : tab.flights.length = if tab.page.loading then 1 else 0
  /-- What is under way was sent. -/
  sent : ∀ x ∈ tab.flights, (x.email, x.password) ∈ tab.sent
  /-- What has arrived is handled by a thread that was given the credentials. -/
  arrived : ∀ x ∈ tab.flights, ∀ i, x.thread = some i →
    ∃ start ∈ tr, start.thread = i ∧ Carries start.call x.email x.password
  /-- Somebody has signed in, with credentials that were sent. -/
  signedIn : tab.page.signedIn → tab.page.loading = false ∧
    ∃ p ∈ tab.sent, Opened P w₀ tr p.1 p.2
  /-- An error is one of the API, of the page or of the network. -/
  error : ∀ m, tab.page.error = some m → m ∈ refusals ∨ m = loginFailed ∨ network m

theorem sound_initial : Sound P network w₀ [] ⟨.initial, [], []⟩ where
  flights := rfl
  sent := by simp
  arrived := by simp
  signedIn := by simp [Page.initial]
  error := by simp [Page.initial]

/-- What happens at the API leaves the tabs as they are. -/
theorem Sound.append {tr tr' : List ApiEvent} {tab : Tab} (h : Sound P network w₀ tr tab) :
    Sound P network w₀ (tr ++ tr') tab where
  flights := h.flights
  sent := h.sent
  arrived x hx i hi := by
    obtain ⟨start, hstart, hthread, hcarries⟩ := h.arrived x hx i hi
    exact ⟨start, List.mem_append_left _ hstart, hthread, hcarries⟩
  signedIn hs := ⟨(h.signedIn hs).1, (h.signedIn hs).2.imp fun _ hp ↦ ⟨hp.1, hp.2.append⟩⟩
  error := h.error

theorem Sound.only {tr : List ApiEvent} {tab : Tab} (h : Sound P network w₀ tr tab)
    {before after : List Flight} {x : Flight} (hx : tab.flights = before ++ x :: after) :
    before ++ after = [] := by
  have hlength := h.flights
  rw [hx, List.length_append, List.length_cons] at hlength
  split at hlength
  · rw [List.append_eq_nil_iff, List.eq_nil_iff_length_eq_zero, List.eq_nil_iff_length_eq_zero]
    omega
  · omega

theorem Sound.settled {tr : List ApiEvent} {tab : Tab} (h : Sound P network w₀ tr tab)
    {before after : List Flight} {x : Flight} (hx : tab.flights = before ++ x :: after)
    {fetched : Fetched} (hfetched : match fetched with
      | .answer status body => if isOk status then Opened P w₀ tr x.email x.password
        else errorText body ∈ refusals ∨ errorText body = loginFailed
      | .failed message => network message) :
    Sound P network w₀ tr
      { tab with page := tab.page.settled fetched, flights := before ++ after } := by
  have hnone := h.only hx
  have hsent : (x.email, x.password) ∈ tab.sent := h.sent x (by simp [hx])
  have hwaits : tab.page.loading = true := by
    have hlength := h.flights
    by_contra hloading
    rw [if_neg hloading, hx] at hlength
    simp at hlength
  have hnot : tab.page.signedIn ≠ true := fun hs ↦ by simp [(h.signedIn hs).1] at hwaits
  rw [hnone]
  cases fetched with
  | answer status body =>
    dsimp only at hfetched
    rw [Page.settled]
    split at hfetched
    · next hok =>
      rw [if_pos hok]
      exact ⟨rfl, by simp, by simp, fun _ ↦ ⟨rfl, _, hsent, hfetched⟩, h.error⟩
    · next hok =>
      rw [if_neg hok]
      refine ⟨rfl, by simp, by simp, fun hs ↦ absurd hs hnot, fun m hm ↦ ?_⟩
      exact (Option.some_inj.mp hm ▸ hfetched).imp_right Or.inl
  | failed message =>
    refine ⟨rfl, by simp, by simp, fun hs ↦ absurd hs hnot, fun m hm ↦ Or.inr (Or.inr ?_)⟩
    exact Option.some_inj.mp hm ▸ hfetched

/-- The API has come to where it is, and all tabs are sound. -/
structure AllSound (P : Platform) (network : JsString → Prop) (w₀ : World) (s : Site) : Prop where
  reachable : (api P).Reachable w₀ s.api
  tabs : ∀ t, Sound P network w₀ s.api.trace (s.tabs t)

theorem AllSound.setApi (h : AllSound P network w₀ s)
    {c : Config Op Op.Val Exn Request Response World} (hc : (api P).Step s.api c) :
    AllSound P network w₀ { s with api := c } := by
  refine ⟨h.reachable.tail hc, fun t ↦ ?_⟩
  rcases hc.event with ⟨htr, -⟩ | ⟨e, htr, -⟩
  · exact htr ▸ h.tabs t
  · exact htr ▸ (h.tabs t).append

theorem AllSound.setTab (h : AllSound P network w₀ s) {t : ℕ} {tab : Tab}
    (htab : Sound P network w₀ s.api.trace tab) : AllSound P network w₀ (s.setTab t tab) := by
  refine ⟨h.reachable, fun t' ↦ ?_⟩
  rw [Site.setTab_api, Site.setTab_tabs]
  split
  · exact htab
  · exact h.tabs t'

/-- **One step of the site.** -/
theorem AllSound.step (h : AllSound P network w₀ s) (hstep : Step P network s s') :
    AllSound P network w₀ s' := by
  cases hstep with
  | api c hc => exact h.setApi hc
  | changeEmail t value =>
    obtain ⟨hflights, hsent, harrived, hsigned, herror⟩ := h.tabs t
    exact h.setTab ⟨hflights, hsent, harrived, hsigned, herror⟩
  | changePassword t value =>
    obtain ⟨hflights, hsent, harrived, hsigned, herror⟩ := h.tabs t
    exact h.setTab ⟨hflights, hsent, harrived, hsigned, herror⟩
  | submit t hform hbutton =>
    have hnone : (s.tabs t).flights = [] := by
      have hlength := (h.tabs t).flights
      rw [hbutton] at hlength
      exact List.length_eq_zero_iff.mp hlength
    refine h.setTab ⟨?_, ?_, ?_, ?_, ?_⟩
    · rw [hnone]
      rfl
    · simp [hnone]
    · simp [hnone]
    · exact fun hs ↦ absurd (hform.symm.trans hs) Bool.false_ne_true
    · exact fun m hm ↦ by simp [Page.submitted] at hm
  | arrive t i r before after x hx hthread hr hi =>
    have happend := h.setApi (.start s.api i r hi)
    obtain ⟨hflights, hsent, harrived, hsigned, herror⟩ := happend.tabs t
    refine happend.setTab ⟨?_, ?_, ?_, hsigned, herror⟩
    · rw [← hflights, hx]
      simp
    · intro y hy
      rcases List.mem_append.mp hy with hy | hy
      · exact hsent y (by simp [hx, hy])
      · rcases List.mem_cons.mp hy with rfl | hy
        · exact hsent x (by simp [hx])
        · exact hsent y (by simp [hx, hy])
    · intro y hy j hj
      rcases List.mem_append.mp hy with hy | hy
      · exact harrived y (by simp [hx, hy]) j hj
      · rcases List.mem_cons.mp hy with rfl | hy
        · exact ⟨⟨i, r, s.api.store, .start, s.api.store⟩, by simp, Option.some_inj.mp hj, hr⟩
        · exact harrived y (by simp [hx, hy]) j hj
  | answer t i response before after x hx hthread f hf hi hret =>
    obtain ⟨start, hstart, hsthread, hcarries⟩ := (h.tabs t).arrived x (by simp [hx]) i hthread
    have htells := answer_tells h.reachable hf hret hstart (hi.trans hsthread.symm) hcarries
    refine h.setTab ((h.tabs t).settled hx ?_)
    dsimp only
    split
    · next hok => rwa [if_pos hok] at htells
    · next hok => exact Or.inl (by rwa [if_neg hok] at htells)
  | breakOff t i response before after x hx hthread f hf hi hret =>
    obtain ⟨start, hstart, hsthread, hcarries⟩ := (h.tabs t).arrived x (by simp [hx]) i hthread
    have htells := answer_tells h.reachable hf hret hstart (hi.trans hsthread.symm) hcarries
    refine h.setTab ((h.tabs t).settled hx ?_)
    dsimp only
    split
    · next hok => rwa [if_pos hok] at htells
    · exact Or.inr rfl
  | fail t message before after x hx hm => exact h.setTab ((h.tabs t).settled hx hm)

/-- **What a tab tells.** In every state of the site, whatever fails in it and whatever else goes on
at the API: a tab waits for one call while its button is disabled, and for none otherwise. Where it
says that somebody has signed in, the API has inserted a session, at the end of a login with an
address and a password that this tab has sent, and handed its token out. An error it shows is one of
the four texts of the API, the page's own, or one of the network. -/
theorem page_tells (P : Platform) (network : JsString → Prop) (w₀ : World) (s : Site)
    (hs : Reachable P network w₀ s) (t : ℕ) :
    ((s.tabs t).flights.length = if (s.tabs t).page.loading then 1 else 0) ∧
      ((s.tabs t).page.signedIn → ∃ p ∈ (s.tabs t).sent, Opened P w₀ s.api.trace p.1 p.2) ∧
      ∀ m, (s.tabs t).page.error = some m → m ∈ refusals ∨ m = loginFailed ∨ network m := by
  have hsound : AllSound P network w₀ s := by
    induction hs with
    | refl => exact ⟨.refl, fun _ ↦ sound_initial⟩
    | tail _ hstep ih => exact ih.step hstep
  exact ⟨(hsound.tabs t).flights, fun h ↦ ((hsound.tabs t).signedIn h).2, (hsound.tabs t).error⟩

theorem Reachable.steps (hs : Reachable P network w₀ s)
    {c : Config Op Op.Val Exn Request Response World}
    (hc : Relation.ReflTransGen (api P).Step s.api c) :
    Reachable P network w₀ { s with api := c } := by
  induction hc with
  | refl => exact hs
  | tail _ hstep ih => exact ih.tail (.api _ _ hstep)

end Site

/-! The administrator signs in. -/

/-- What the API does with the call, once it has arrived. -/
def loginSteps : List (Interaction.System.Label Exn Request Bytes) :=
  .replicate 7 (.next 0 [] .none) ++ [.next 0 (.replicate 22 1) .none, .next 0 [] .none,
    .next 0 [] .none, .next 0 [] .none, .next 0 (.replicate 32 0) .none, .next 0 [] .none,
    .next 0 (.replicate 22 0) .none, .next 0 [] .none, .next 0 (.replicate 24 2) .none,
    .next 0 [] .none]

/-- The API after it has answered the call. -/
def loginAnswered : Config Op Op.Val Exn Request Response World :=
  (api samplePlatform).run
    ([.start 0 (loginRequest (lit "admin@example.com") (lit "correct horse"))] ++ loginSteps)
    sampleWorld

theorem page_tells_loginAnswered : Opened samplePlatform sampleWorld loginAnswered.trace
    (lit "admin@example.com") (lit "correct horse") := by
  have htyped : Reachable samplePlatform (fun _ ↦ False) sampleWorld _ :=
    .tail (.single (.changeEmail (.initial sampleWorld) 0 (lit "admin@example.com") rfl))
      (.changePassword _ 0 (lit "correct horse") rfl)
  have hsent := htyped.tail (.submit _ 0 rfl rfl)
  have harrived := hsent.tail (.arrive _ 0 0
    (loginRequest (lit "admin@example.com") (lit "correct horse")) [] []
    ⟨lit "admin@example.com", lit "correct horse", none⟩ rfl rfl ⟨rfl, rfl, Or.inl rfl⟩ rfl)
  have hdone := Reachable.steps (c := loginAnswered) harrived
    (Interaction.System.steps_run [.start 0 (loginRequest (lit "admin@example.com")
      (lit "correct horse"))] loginSteps sampleWorld)
  have hanswered := hdone.tail (.answer _ 0 0 _ [] []
    ⟨lit "admin@example.com", lit "correct horse", some 0⟩ rfl rfl _
    (List.getElem_mem (n := 16) (by decide +kernel)) rfl rfl)
  obtain ⟨q, hq, hopened⟩ :=
    (page_tells samplePlatform (fun _ ↦ False) sampleWorld _ hanswered 0).2.1 rfl
  obtain rfl := List.mem_singleton.mp hq
  exact hopened

end NativeKiln.LoginPage
