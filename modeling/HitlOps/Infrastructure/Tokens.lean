import HitlOps.Infrastructure.Identity

/-!
# Tokens

`validate_token` of `infrastructure/identity.py`. The signature, the issuer, the audience and the
time claims are checked by `jwt.decode`, which is a parameter: it gives the claims, or refuses.
-/

set_option autoImplicit false

namespace HitlOps.Infrastructure

open HitlOps.Python HitlOps.Domain

/-- `jwt.decode(token, secret, algorithms=["HS256"], issuer=…, audience=…, leeway=5, …)` at a time of
the wall clock; `none` is an exception. -/
abbrev TokenDecoder := (secret issuer audience token : String) → Time → Option Dict

/-- A white space character of `str.split()` and `str.strip()`. -/
def isPythonSpace (c : Char) : Bool :=
  let n := c.toNat
  (9 ≤ n && n ≤ 13) || (28 ≤ n && n ≤ 32) || n = 133 || n = 160 || n = 5760
    || (8192 ≤ n && n ≤ 8202) || n = 8232 || n = 8233 || n = 8239 || n = 8287 || n = 12288

/-- `text.split()`, with the word that is being read. -/
def splitSpaces (word : List Char) : List Char → List String
  | [] => if word = [] then [] else [String.ofList word]
  | c :: rest =>
      if isPythonSpace c then
        if word = [] then splitSpaces [] rest else String.ofList word :: splitSpaces [] rest
      else splitSpaces (word ++ [c]) rest

/-- `text.strip()`. -/
def strip (text : String) : String :=
  String.ofList (((text.toList.dropWhile isPythonSpace).reverse.dropWhile isPythonSpace).reverse)

/-- `bool(value)`. -/
def truthy : Json → Bool
  | .null => false
  | .bool b => b
  | .int n => n ≠ 0
  | .float text => text ≠ "0.0" && text ≠ "-0.0"
  | .str s => s ≠ ""
  | .list items => !items.isEmpty
  | .dict fields => !fields.isEmpty
  | .other _ => true

/-- `_parse_scopes`. -/
def parseScopes (rt : Runtime) : Json → List String
  | .str s => splitSpaces [] s.toList
  | .list items => (items.filter truthy).map (Json.toStr rt.isPrintable)
  | _ => []

/-- `validate_token`; `none` is an exception of any kind. -/
def validateToken (rt : Runtime) (decode : TokenDecoder) (secret issuer audience token : String)
    (now : Time) : Option AuthenticatedActor := do
  let claims ← decode secret issuer audience token now
  match claims.get? "tenant" with
  | some (.str tenant) =>
      let sub ← claims.get? "sub"
      let actorId := sub.toStr rt.isPrintable
      if h : actorId ≠ "" ∧ tenant ≠ "" then
        return {
          actorId
          tenantId := tenant
          correlationId := (claims.getD "correlation_id" (.str "")).toStr rt.isPrintable
          scopes := parseScopes rt (claims.getD "scope" (claims.getD "scopes" (.str "")))
          valid := h }
      else none
  | _ => none

end HitlOps.Infrastructure
