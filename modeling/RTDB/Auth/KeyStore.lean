import Mathlib.Data.List.Basic

/-!
# API keys

`auth/mod.rs` and `auth/middleware.rs`: the store of API keys, and the middleware in front of the
handlers.  The list of a store's entries is in the order in which its hash map iterates.
-/

namespace RTDB
namespace Auth

/-- An instant of the monotonic clock. -/
abbrev Instant := Nat

inductive Role where
  | admin
  | writer
  | reader
  deriving DecidableEq, Repr

structure ApiKey where
  key : String
  name : String
  role : Role
  expiresAt : Option Instant
  active : Bool
  deriving DecidableEq, Repr

def ApiKey.new (key name : String) (role : Role) : ApiKey :=
  { key, name, role, expiresAt := none, active := true }

def ApiKey.isExpired (apiKey : ApiKey) (now : Instant) : Bool :=
  (apiKey.expiresAt.map fun exp => decide (exp < now)).getD false

structure AuthContext where
  keyName : String
  role : Role
  authenticatedAt : Instant
  deriving DecidableEq, Repr

/-! ## The store -/

structure ApiKeyStore where
  keys : List (String × ApiKey)
  distinct : (keys.map Prod.fst).Nodup

/-- The entry of the first key with the name is made inactive. -/
def revokeEntries (keyName : String) :
    List (String × ApiKey) → List (String × ApiKey) × Bool
  | [] => ([], false)
  | (storedKey, key) :: rest =>
    if key.name = keyName then ((storedKey, { key with active := false }) :: rest, true)
    else ((storedKey, key) :: (revokeEntries keyName rest).1, (revokeEntries keyName rest).2)

theorem revokeEntries_map_fst (keyName : String) (keys : List (String × ApiKey)) :
    (revokeEntries keyName keys).1.map Prod.fst = keys.map Prod.fst := by
  induction keys with
  | nil => rfl
  | cons entry rest ih =>
    rw [revokeEntries]
    split
    · rfl
    · rw [List.map_cons, List.map_cons, ih]

namespace ApiKeyStore

def new : ApiKeyStore := { keys := [], distinct := List.nodup_nil }

def addKey (store : ApiKeyStore) (key : ApiKey) : ApiKeyStore where
  keys := (key.key, key) :: store.keys.filter (fun entry => entry.1 ≠ key.key)
  distinct := by
    rw [List.map_cons, List.nodup_cons]
    refine ⟨fun hmem => ?_, store.distinct.sublist (List.filter_sublist.map Prod.fst)⟩
    obtain ⟨entry, hentry, heq⟩ := List.mem_map.mp hmem
    exact of_decide_eq_true (List.mem_filter.mp hentry).2 heq

def validate (store : ApiKeyStore) (keyValue : String) (now authenticatedAt : Instant) :
    Option AuthContext :=
  match store.keys.find? (fun entry => entry.1 = keyValue) with
  | some (_, apiKey) =>
    if ¬ apiKey.active then none
    else if apiKey.isExpired now then none
    else some { keyName := apiKey.name, role := apiKey.role, authenticatedAt }
  | none => none

def revoke (store : ApiKeyStore) (keyName : String) : ApiKeyStore × Bool :=
  ({ keys := (revokeEntries keyName store.keys).1
     distinct := (revokeEntries_map_fst keyName store.keys).symm ▸ store.distinct },
    (revokeEntries keyName store.keys).2)

def isEmpty (store : ApiKeyStore) : Bool := store.keys.isEmpty

end ApiKeyStore

/-! ## The middleware -/

structure AuthConfig where
  publicPaths : List String
  apiKeyHeader : String
  acceptBearer : Bool
  deriving DecidableEq, Repr

def AuthConfig.default : AuthConfig where
  publicPaths := ["/health", "/health/live", "/health/ready", "/health/startup", "/metrics", "/"]
  apiKeyHeader := "X-API-Key"
  acceptBearer := true

def AuthConfig.isPublicPath (config : AuthConfig) (path : String) : Bool :=
  config.publicPaths.any fun p => path = p || (p ++ "/").toList.isPrefixOf path.toList

/-- Names, in lower case, with their values, in the order in which they came. -/
abbrev HeaderMap := List (String × List UInt8)

/-- The first value of a header. -/
def HeaderMap.get (headers : HeaderMap) (name : String) : Option (List UInt8) :=
  (headers.find? fun header => header.1 = name).map Prod.snd

/-- `HeaderValue::to_str`: the value as text if it is visible ASCII. -/
def toStr (value : List UInt8) : Option String :=
  if value.all (fun b => 32 ≤ b && b < 127 || b = 9) then
    some (String.ofList (value.map fun b => Char.ofNat b.toNat))
  else none

def extractApiKey (headers : HeaderMap) (config : AuthConfig) : Option String :=
  match (headers.get config.apiKeyHeader.toLower).bind toStr with
  | some key => some key
  | none =>
    if config.acceptBearer then
      match (headers.get "authorization").bind toStr with
      | some auth =>
        if "Bearer ".toList.isPrefixOf auth.toList then some (String.ofList (auth.toList.drop 7))
        else none
      | none => none
    else none

structure AuthError where
  message : String
  status : Nat
  deriving DecidableEq, Repr

def AuthError.unauthorized (message : String) : AuthError := { message, status := 401 }

/-- A request, as far as the middleware reads it, and its extension. -/
structure Request where
  path : String
  headers : HeaderMap
  authContext : Option AuthContext
  deriving DecidableEq, Repr

structure AuthState where
  config : AuthConfig
  keyStore : ApiKeyStore

def authMiddleware {ρ : Type} (state : AuthState) (now authenticatedAt : Instant)
    (request : Request) (next : Request → ρ) : Except AuthError ρ :=
  if state.config.isPublicPath request.path then .ok (next request)
  -- open mode
  else if state.keyStore.isEmpty then .ok (next request)
  else match extractApiKey request.headers state.config with
    | none => .error (.unauthorized
        "API key required. Provide X-API-Key header or Authorization: Bearer token")
    | some apiKey =>
      match state.keyStore.validate apiKey now authenticatedAt with
      | none => .error (.unauthorized "Invalid API key")
      | some authContext => .ok (next { request with authContext := some authContext })

/-! ## Histories -/

inductive Call where
  | addKey (key : ApiKey)
  | revoke (keyName : String)

/-- Calls on a store, one after the other; at any time the map may come to iterate in another
order. -/
inductive Calls : ApiKeyStore → List Call → ApiKeyStore → Prop where
  | nil (store : ApiKeyStore) : Calls store [] store
  | reorder {store store' last : ApiKeyStore} {calls : List Call} :
      store.keys.Perm store'.keys → Calls store' calls last → Calls store calls last
  | addKey {store last : ApiKeyStore} {calls : List Call} (key : ApiKey) :
      Calls (store.addKey key) calls last → Calls store (.addKey key :: calls) last
  | revoke {store last : ApiKeyStore} {calls : List Call} (keyName : String) :
      Calls (store.revoke keyName).1 calls last → Calls store (.revoke keyName :: calls) last

end Auth
end RTDB
