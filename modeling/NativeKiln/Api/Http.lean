import NativeKiln.Api.World

/-!
# Requests and responses

What the router, the validation pipe and the exception filter do, none of which performs an
operation: `main.ts`, `zod-validation.pipe.ts`, `domain-exception.filter.ts` and the schema of the
login request.
-/

namespace NativeKiln

open JsString (lit)

/-! ## Requests -/

/-- A header as Node hands it over: one code unit for each byte. -/
structure HeaderText where
  text : JsString
  latin1 : ∀ u ∈ text, u.toNat < 0x100

/-- The type of `req.headers[name]`. -/
inductive HeaderValue
  | one (value : HeaderText)
  | many (values : List HeaderText)

/-- The body as the body parser leaves it. -/
inductive RequestBody
  | parsed (value : Option Json)
  /-- The parser gave up with a `SyntaxError`. -/
  | malformed (message : JsString)
  /-- The parser gave up with another error: the body is too large, or in an encoding it does not
  know. -/
  | rejected (message stack : JsString)

structure Request where
  method : JsString
  /-- Path and query. -/
  url : JsString
  /-- The cookies by name; `cookie-parser` parses those that start with `j:`. -/
  cookies : List (JsString × Json)
  csrfHeader : Option HeaderValue
  userAgent : Option HeaderText
  ip : Option JsString
  body : RequestBody

def Request.cookie (r : Request) (name : JsString) : Option Json := r.cookies.lookup name

/-- `Boolean(v)`. -/
def Json.truthy : Json → Bool
  | .null => false
  | .bool b => b
  | .num n => n ≠ 0
  | .str s => s ≠ []
  | .arr _ | .obj _ => true

/-! ## Responses -/

structure SetCookie where
  name : JsString
  value : JsString
  httpOnly : Bool
  secure : Bool
  sameSite : Option JsString
  path : JsString
  expires : Option ℕ
  maxAge : Option ℕ

/-- `res.clearCookie(name, { path: '/' })`: the cookie is set to expire in the past. -/
def clearCookie (name : JsString) : SetCookie :=
  { name, value := [], httpOnly := false, secure := false, sameSite := none, path := lit "/"
    expires := some 1, maxAge := none }

structure Response where
  status : ℕ
  cookies : List SetCookie
  body : Option Json

/-- A response without cookies. -/
def Response.json (status : ℕ) (body : Json) : Response := ⟨status, [], some body⟩

/-! ## Routing -/

/-- ASCII letters in lower case; the router does not distinguish cases. -/
def lowerCase (s : JsString) : JsString :=
  s.map fun u ↦ if 65 ≤ u.toNat ∧ u.toNat ≤ 90 then u + 32 else u

/-- The part of the URL before the query. -/
def pathname (url : JsString) : JsString := url.takeWhile fun u ↦ u ≠ 63 ∧ u ≠ 35

namespace Route

/-- The path of a route; the health probes lie outside the prefix. -/
def path : Route → JsString
  | login => lit "/api/v1/auth/login"
  | logout => lit "/api/v1/auth/logout"
  | me => lit "/api/v1/auth/me"
  | liveness => lit "/healthz"
  | readiness => lit "/readyz"

/-- `@Get` also answers `HEAD`. -/
def methods : Route → List JsString
  | login | logout => [lit "POST"]
  | me | liveness | readiness => [lit "GET", lit "HEAD"]

/-- `@Public()`. -/
def isPublic : Route → Bool
  | login | liveness | readiness => true
  | logout | me => false

/-- A trailing slash is allowed. -/
def matches? (route : Route) (r : Request) : Bool :=
  route.methods.contains r.method &&
    [route.path, route.path ++ lit "/"].contains (lowerCase (pathname r.url))

end Route

/-- The route of a request. -/
def Request.route? (r : Request) : Option Route :=
  [Route.login, .logout, .me, .liveness, .readiness].find? (·.matches? r)

theorem Request.method_mem {r : Request} {route : Route} (h : r.route? = some route) :
    r.method ∈ route.methods := by
  have hmatches : route.matches? r :=
    List.find?_some (p := fun route : Route ↦ route.matches? r) h
  rw [Route.matches?, Bool.and_eq_true] at hmatches
  exact List.contains_iff_mem.mp hmatches.1

/-- `NotFoundException`, for a request no route is for. -/
def notFound (r : Request) : Exn :=
  .http 404 (.object [(lit "message", .str (lit "Cannot " ++ r.method ++ lit " " ++ r.url)),
    (lit "error", .str (lit "Not Found")), (lit "statusCode", .num 404)])

/-- `BadRequestException`, for a body that is no JSON. -/
def badRequest (message : JsString) : Exn :=
  .http 400 (.object [(lit "message", .str message),
    (lit "error", .str (lit "Bad Request")), (lit "statusCode", .num 400)])

/-! ## The exception filter -/

/-- `{ ...base, ...fields }`. -/
def spread (base fields : List (JsString × Json)) : List (JsString × Json) :=
  base.map (fun p ↦ (p.1, (fields.lookup p.1).getD p.2)) ++
    fields.filter fun p ↦ !(base.map Prod.fst).contains p.1

namespace DomainExceptionFilter

/-- `catch`. -/
def handle : Exn → Response
  | .domain e => .json e.httpStatus e.toSafeResponse
  | .http status (.text body) =>
    .json status (.obj [(lit "error", .obj [(lit "code", .str (lit "HTTP")),
      (lit "message", .str body)])])
  | .http status (.object body) =>
    .json status (.obj [(lit "error", .obj (spread [(lit "code", .str (lit "HTTP"))] body))])
  | .error _ _ | .other _ =>
    -- never leak internal details
    .json 500 (.obj [(lit "error", .obj [(lit "code", .str (lit "INTERNAL")),
      (lit "message", .str (lit "Internal server error"))])])

end DomainExceptionFilter

/-- `err instanceof Error ? err.message : undefined`. -/
def Exn.message? : Exn → Option JsString
  | .domain e => some e.message
  | .http _ (.text body) => some body
  | .http _ (.object body) =>
    match body.lookup (lit "message") with
    | some (.str message) => some message
    | _ => some (lit "Http Exception")
  | .error message _ => some message
  | .other _ => none

/-! ## Validation of the login request -/

structure Issue where
  path : List JsString
  message : JsString

structure LoginDto where
  email : JsString
  password : JsString
  deriving DecidableEq

/-- The type of a value, as the schema library names it. -/
def Json.parsedType : Json → JsString
  | .null => lit "null"
  | .bool _ => lit "boolean"
  | .num _ => lit "number"
  | .str _ => lit "string"
  | .arr _ => lit "array"
  | .obj _ => lit "object"

/-- The issue of a value that is not of the expected type. -/
def invalidType (path : List JsString) (expected : JsString) : Option Json → Issue
  | none => ⟨path, lit "Required"⟩
  | some v => ⟨path, lit "Expected " ++ expected ++ lit ", received " ++ v.parsedType⟩

/-- A field of type string that satisfies `ok`. -/
def stringField (name message : JsString) (ok : JsString → Bool) (v : Option Json) :
    Except Issue JsString :=
  match v with
  | some (.str s) => if ok s then pure s else throw ⟨[name], message⟩
  | v => throw (invalidType [name] (lit "string") v)

/-- `loginSchema.safeParse`; both fields are looked at. -/
def loginSchema (P : Platform) (value : Option Json) : Except (List Issue) LoginDto :=
  match value with
  | some (.obj fields) =>
    let email := stringField (lit "email") (lit "Invalid email") P.emailOk
      (fields.lookup (lit "email"))
    let password := stringField (lit "password")
      (lit "String must contain at least 1 character(s)") (fun s ↦ 1 ≤ s.length)
      (fields.lookup (lit "password"))
    match email, password with
    | .ok email, .ok password => .ok ⟨email, password⟩
    | .error i, .error j => .error [i, j]
    | .error i, .ok _ => .error [i]
    | .ok _, .error j => .error [j]
  | value => .error [invalidType [] (lit "object") value]

/-- `ZodValidationPipe.transform`. -/
def transformLogin (P : Platform) (value : Option Json) : Except Exn LoginDto :=
  match loginSchema P value with
  | .ok body => .ok body
  | .error issues =>
    .error (.domain (ValidationError (lit "Invalid request payload")
      (some [(lit "issues", .arr (issues.map fun i ↦
        .obj [(lit "path", .str ((lit ".").intercalate i.path)),
          (lit "message", .str i.message)]))])))

end NativeKiln
