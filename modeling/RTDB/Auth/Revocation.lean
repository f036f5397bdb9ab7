import Mathlib.Data.List.Nodup
import RTDB.Auth.KeyStore

/-!
# What a revocation closes

`revoke` stops at the first key of the name, in whatever order the map iterates.
-/

namespace RTDB
namespace Auth

/-- Neither of the two lets a key pass. -/
def ApiKey.Spent (apiKey : ApiKey) (now : Instant) : Prop :=
  apiKey.active = false ∨ apiKey.isExpired now = true

instance (apiKey : ApiKey) (now : Instant) : Decidable (apiKey.Spent now) :=
  inferInstanceAs (Decidable (_ ∨ _))

/-- Time and a loss of `active` do not bring a key back. -/
theorem ApiKey.Spent.later {apiKey apiKey' : ApiKey} {now later : Instant}
    (hspent : apiKey.Spent now) (hexpires : apiKey'.expiresAt = apiKey.expiresAt)
    (hactive : apiKey'.active = true → apiKey.active = true) (hle : now ≤ later) :
    apiKey'.Spent later := by
  rcases hspent with hinactive | hexpired
  · refine Or.inl (Bool.eq_false_iff.mpr fun hon => ?_)
    rw [hactive hon] at hinactive
    exact Bool.noConfusion hinactive
  · refine Or.inr ?_
    rw [ApiKey.isExpired, hexpires]
    rw [ApiKey.isExpired] at hexpired
    cases hexp : apiKey.expiresAt with
    | none => rw [hexp] at hexpired; exact hexpired
    | some exp =>
      rw [hexp] at hexpired
      have hlt : exp < now := of_decide_eq_true hexpired
      exact decide_eq_true (Nat.lt_of_lt_of_le hlt hle)

/-! ## Entries of a store -/

namespace ApiKeyStore

theorem eq_of_mem {store : ApiKeyStore} {keyValue : String} {key key' : ApiKey}
    (hmem : (keyValue, key) ∈ store.keys) (hmem' : (keyValue, key') ∈ store.keys) : key = key' := by
  exact congrArg Prod.snd (List.inj_on_of_nodup_map store.distinct hmem hmem' rfl)

theorem find?_of_mem {store : ApiKeyStore} {keyValue : String} {key : ApiKey}
    (hmem : (keyValue, key) ∈ store.keys) :
    store.keys.find? (fun entry => entry.1 = keyValue) = some (keyValue, key) := by
  cases hfind : store.keys.find? (fun entry => entry.1 = keyValue) with
  | none => exact absurd (decide_eq_true rfl) (List.find?_eq_none.mp hfind _ hmem)
  | some entry =>
    obtain ⟨storedKey, stored⟩ := entry
    have hkey : storedKey = keyValue := by simpa using List.find?_some hfind
    subst hkey
    rw [eq_of_mem (List.mem_of_find?_eq_some hfind) hmem]

/-- The key a value validates is the entry of the value, active and unexpired. -/
theorem validate_isSome_iff {store : ApiKeyStore} {keyValue : String}
    {now authenticatedAt : Instant} :
    (store.validate keyValue now authenticatedAt).isSome ↔
      ∃ key, (keyValue, key) ∈ store.keys ∧ ¬ key.Spent now := by
  rw [validate]
  constructor
  · intro hsome
    split at hsome
    · rename_i storedKey key hfind
      have hkey : storedKey = keyValue := by simpa using List.find?_some hfind
      refine ⟨key, hkey ▸ List.mem_of_find?_eq_some hfind, ?_⟩
      rintro (hinactive | hexpired)
      · rw [if_pos (by rw [hinactive]; exact Bool.false_ne_true)] at hsome
        exact Bool.noConfusion hsome
      · rw [if_pos hexpired, ite_self] at hsome
        exact Bool.noConfusion hsome
    · exact Bool.noConfusion hsome
  · rintro ⟨key, hmem, hlive⟩
    rw [find?_of_mem hmem]
    have hactive : key.active = true := by
      rw [← Bool.not_eq_false]
      exact fun hoff => hlive (Or.inl hoff)
    show (if ¬ key.active then none else if key.isExpired now then none else some _).isSome
    rw [if_neg (not_not.mpr hactive), if_neg fun hexpired => hlive (Or.inr hexpired)]
    rfl

end ApiKeyStore

/-! ## What the calls do to an entry -/

theorem mem_revokeEntries {keyName keyValue : String} {key : ApiKey} {keys : List (String × ApiKey)}
    (hmem : (keyValue, key) ∈ (revokeEntries keyName keys).1) :
    ∃ old, (keyValue, old) ∈ keys ∧ key.expiresAt = old.expiresAt ∧
      (key.active = true → old.active = true) := by
  induction keys with
  | nil => exact absurd hmem List.not_mem_nil
  | cons entry rest ih =>
    obtain ⟨storedKey, stored⟩ := entry
    rw [revokeEntries] at hmem
    split at hmem
    · rcases List.mem_cons.mp hmem with hfirst | hrest
      · obtain ⟨rfl, rfl⟩ := Prod.mk.injEq _ _ _ _ ▸ hfirst
        exact ⟨stored, List.mem_cons_self, rfl, fun hoff => Bool.noConfusion hoff⟩
      · exact ⟨key, List.mem_cons_of_mem _ hrest, rfl, id⟩
    · rcases List.mem_cons.mp hmem with hfirst | hrest
      · exact ⟨key, hfirst ▸ List.mem_cons_self, rfl, id⟩
      · obtain ⟨old, hold, hkept⟩ := ih hrest
        exact ⟨old, List.mem_cons_of_mem _ hold, hkept⟩

def Call.Adds (keyValue : String) : Call → Prop
  | .addKey key => key.key = keyValue
  | .revoke _ => False

theorem Calls.entry {store last : ApiKeyStore} {calls : List Call} {keyValue : String}
    (hcalls : Calls store calls last) (hnot : ∀ call ∈ calls, ¬ call.Adds keyValue) {key : ApiKey}
    (hmem : (keyValue, key) ∈ last.keys) :
    ∃ old, (keyValue, old) ∈ store.keys ∧ key.expiresAt = old.expiresAt ∧
      (key.active = true → old.active = true) := by
  induction hcalls with
  | nil store => exact ⟨key, hmem, rfl, id⟩
  | reorder hperm _ ih =>
    obtain ⟨old, hold, hkept⟩ := ih hnot hmem
    exact ⟨old, hperm.symm.subset hold, hkept⟩
  | addKey added _ ih =>
    obtain ⟨old, hold, hkept⟩ := ih (fun call hcall => hnot call (List.mem_cons_of_mem _ hcall)) hmem
    rcases List.mem_cons.mp hold with hnew | hrest
    · exact absurd (congrArg Prod.fst hnew).symm (hnot _ List.mem_cons_self)
    · exact ⟨old, List.mem_of_mem_filter hrest, hkept⟩
  | revoke keyName _ ih =>
    obtain ⟨old, hold, hexpires, hactive⟩ :=
      ih (fun call hcall => hnot call (List.mem_cons_of_mem _ hcall)) hmem
    obtain ⟨older, holder, hexpires', hactive'⟩ := mem_revokeEntries hold
    exact ⟨older, holder, hexpires.trans hexpires', fun hon => hactive' (hactive hon)⟩

theorem revokeEntries_eq_nil_iff {keyName : String} {keys : List (String × ApiKey)} :
    (revokeEntries keyName keys).1 = [] ↔ keys = [] := by
  rw [← List.map_eq_nil_iff (f := Prod.fst), revokeEntries_map_fst, List.map_eq_nil_iff]

/-- A store does not lose its entries. -/
theorem Calls.keys_ne_nil {store last : ApiKeyStore} {calls : List Call}
    (hcalls : Calls store calls last) (hsome : store.keys ≠ [] ∨ ∃ key, Call.addKey key ∈ calls) :
    last.keys ≠ [] := by
  induction hcalls with
  | nil store => exact hsome.resolve_right fun ⟨_, hmem⟩ => absurd hmem List.not_mem_nil
  | reorder hperm _ ih =>
    refine ih (hsome.imp_left fun hkeys hnil => hkeys ?_)
    rw [hnil] at hperm
    exact hperm.eq_nil
  | addKey added _ ih => exact ih (Or.inl (List.cons_ne_nil _ _))
  | revoke keyName _ ih =>
    refine ih (hsome.imp (fun hkeys hnil => hkeys (revokeEntries_eq_nil_iff.mp hnil)) ?_)
    rintro ⟨key, hmem⟩
    exact ⟨key, (List.mem_cons.mp hmem).resolve_left Call.noConfusion⟩

/-! ## The revocation -/

theorem revokeEntries_eq (keyName : String) (keys : List (String × ApiKey)) :
    (keys.filter (fun entry => entry.2.name = keyName) = [] ∧ (revokeEntries keyName keys).2 = false) ∨
      ∃ before storedKey key after, keys = before ++ (storedKey, key) :: after ∧
        (∀ entry ∈ before, entry.2.name ≠ keyName) ∧
        keys.filter (fun entry => entry.2.name = keyName) =
          (storedKey, key) :: after.filter (fun entry => entry.2.name = keyName) ∧
        (revokeEntries keyName keys).2 = true ∧
        (revokeEntries keyName keys).1 =
          before ++ (storedKey, { key with active := false }) :: after := by
  induction keys with
  | nil => exact Or.inl ⟨rfl, rfl⟩
  | cons entry rest ih =>
    obtain ⟨storedKey, key⟩ := entry
    rw [revokeEntries]
    by_cases hname : key.name = keyName
    · rw [if_pos hname, List.filter_cons, if_pos (decide_eq_true hname)]
      exact Or.inr ⟨[], storedKey, key, rest, rfl,
        fun _ hmem => absurd hmem List.not_mem_nil, rfl, rfl, rfl⟩
    · rw [if_neg hname, List.filter_cons, if_neg (by rw [decide_eq_true_eq]; exact hname)]
      rcases ih with hnone | ⟨before, firstKey, first, after, hrest, hbefore, hfilter, hfound, hkeys⟩
      · exact Or.inl hnone
      · refine Or.inr
          ⟨(storedKey, key) :: before, firstKey, first, after, ?_, ?_, hfilter, hfound, ?_⟩
        · rw [hrest, List.cons_append]
        · intro entry hmem
          rcases List.mem_cons.mp hmem with rfl | hmem
          · exact hname
          · exact hbefore entry hmem
        · rw [List.cons_append, ← hkeys]

/-- After a revocation that found the name no key value under it validates until it is added
again. -/
def RevokedFor (store : ApiKeyStore) (keyName : String) (now : Instant) : Prop :=
  (store.revoke keyName).2 = true → ∀ keyValue key, (keyValue, key) ∈ store.keys →
    key.name = keyName → ∀ calls last, Calls (store.revoke keyName).1 calls last →
      (∀ call ∈ calls, ¬ call.Adds keyValue) → ∀ later authenticatedAt, now ≤ later →
        last.validate keyValue later authenticatedAt = none

/-- Every key of the name but the one that is met first. -/
def OthersSpent (store : ApiKeyStore) (keyName : String) (now : Instant) : Prop :=
  ∀ entry ∈ (store.keys.filter fun entry => entry.2.name = keyName).tail, entry.2.Spent now

instance (store : ApiKeyStore) (keyName : String) (now : Instant) :
    Decidable (OthersSpent store keyName now) :=
  inferInstanceAs (Decidable (∀ entry ∈ _, _))

theorem revokedFor_of_spent {store : ApiKeyStore} {keyName : String} {now : Instant}
    (hspent : ∀ keyValue key, (keyValue, key) ∈ store.keys → key.name = keyName →
      ∀ revoked, (keyValue, revoked) ∈ (store.revoke keyName).1.keys → revoked.Spent now) :
    RevokedFor store keyName now := by
  intro _ keyValue key hmem hname calls last hcalls hnot later authenticatedAt hle
  refine Option.not_isSome_iff_eq_none.mp fun hsome => ?_
  obtain ⟨live, hlive, hnotSpent⟩ := ApiKeyStore.validate_isSome_iff.mp hsome
  obtain ⟨old, hold, hexpires, hactive⟩ := hcalls.entry hnot hlive
  exact hnotSpent ((hspent keyValue key hmem hname old hold).later hexpires hactive hle)

theorem revokedFor_iff {store : ApiKeyStore} {keyName : String} {now : Instant} :
    RevokedFor store keyName now ↔ OthersSpent store keyName now := by
  rcases revokeEntries_eq keyName store.keys with
    ⟨hnone, hfound⟩ | ⟨before, storedKey, first, after, hkeys, hbefore, hfilter, hfound, hrevoked⟩
  · refine iff_of_true (fun hyes => ?_) (fun entry hmem => ?_)
    · exact Bool.noConfusion (hfound.symm.trans hyes)
    · rw [hnone] at hmem
      exact absurd hmem List.not_mem_nil
  · rw [OthersSpent, hfilter, List.tail_cons]
    constructor
    · rintro hclosed ⟨keyValue, key⟩ hmem
      obtain ⟨hafter, hname⟩ := List.mem_filter.mp hmem
      have hstays : (keyValue, key) ∈ (store.revoke keyName).1.keys := by
        show _ ∈ (revokeEntries keyName store.keys).1
        rw [hrevoked]
        exact List.mem_append_right _ (List.mem_cons_of_mem _ hafter)
      have hold : (keyValue, key) ∈ store.keys := by
        rw [hkeys]
        exact List.mem_append_right _ (List.mem_cons_of_mem _ hafter)
      have hnone := hclosed hfound keyValue key hold (of_decide_eq_true hname) [] _ (Calls.nil _)
        (fun _ hcall => absurd hcall List.not_mem_nil) now now (Nat.le_refl now)
      refine not_not.mp fun hlive => ?_
      have hsome : ((store.revoke keyName).1.validate keyValue now now).isSome :=
        ApiKeyStore.validate_isSome_iff.mpr ⟨key, hstays, hlive⟩
      rw [hnone] at hsome
      exact Bool.noConfusion hsome
    · intro hothers
      refine revokedFor_of_spent fun keyValue key hmem hname revoked hin => ?_
      rw [show (store.revoke keyName).1.keys = _ from hrevoked] at hin
      have hstored : (keyValue, revoked) ∈ before ∨ (keyValue, revoked) ∈ after → revoked = key := by
        refine fun hin => ApiKeyStore.eq_of_mem (hkeys ▸ ?_) hmem
        exact List.mem_append.mpr (hin.imp_right (List.mem_cons_of_mem _))
      rcases List.mem_append.mp hin with hin | hin
      · exact absurd (hstored (Or.inl hin) ▸ hname) (hbefore _ hin)
      · rcases List.mem_cons.mp hin with hfirst | hin
        · exact Or.inl (congrArg (fun entry => entry.2.active) hfirst)
        · refine hothers _ (List.mem_filter.mpr ⟨hin, decide_eq_true ?_⟩)
          exact hstored (Or.inr hin) ▸ hname

/-! ## The gate -/

/-- The request shows the key value in one of the headers that the configuration reads. -/
def Request.Carries (request : Request) (config : AuthConfig) (keyValue : String) : Prop :=
  (∃ value, (config.apiKeyHeader.toLower, value) ∈ request.headers ∧ toStr value = some keyValue) ∨
    (config.acceptBearer = true ∧ ∃ value, ("authorization", value) ∈ request.headers ∧
      toStr value = some ("Bearer " ++ keyValue))

theorem mem_of_get {headers : HeaderMap} {name : String} {value : List UInt8}
    (hget : headers.get name = some value) : (name, value) ∈ headers := by
  obtain ⟨⟨storedName, stored⟩, hfind, hvalue⟩ := Option.map_eq_some_iff.mp hget
  have hname : storedName = name := by simpa using List.find?_some hfind
  rw [← hname, ← show stored = value from hvalue]
  exact List.mem_of_find?_eq_some hfind

theorem append_drop_of_isPrefixOf {front text : String} (hfront : front.toList.isPrefixOf text.toList) :
    front ++ String.ofList (text.toList.drop front.toList.length) = text := by
  obtain ⟨rest, hrest⟩ := List.isPrefixOf_iff_prefix.mp hfront
  refine String.toList_inj.mp ?_
  rw [String.toList_append, String.toList_ofList, ← hrest, List.drop_left]

theorem carries_of_extract {request : Request} {config : AuthConfig} {keyValue : String}
    (hextract : extractApiKey request.headers config = some keyValue) :
    request.Carries config keyValue := by
  rw [extractApiKey] at hextract
  split at hextract
  · rename_i key hkey
    obtain ⟨value, hget, htext⟩ := Option.bind_eq_some_iff.mp hkey
    exact Or.inl ⟨value, mem_of_get hget, hextract ▸ htext⟩
  · split at hextract
    · rename_i hbearer
      split at hextract
      · rename_i auth hauth
        obtain ⟨value, hget, htext⟩ := Option.bind_eq_some_iff.mp hauth
        split at hextract
        · rename_i hfront
          refine Or.inr ⟨hbearer, value, mem_of_get hget, ?_⟩
          rw [htext, ← Option.some.inj hextract]
          exact congrArg some (append_drop_of_isPrefixOf hfront).symm
        · exact absurd hextract.symm (Option.some_ne_none _)
      · exact absurd hextract.symm (Option.some_ne_none _)
    · exact absurd hextract.symm (Option.some_ne_none _)

/-- Only a public path, or a key that is active and unexpired, comes to the handler. -/
def GateClosed (store : ApiKeyStore) : Prop :=
  ∀ (ρ : Type) (config : AuthConfig) (now authenticatedAt : Instant) (request : Request)
    (next : Request → ρ) (response : ρ),
    authMiddleware ⟨config, store⟩ now authenticatedAt request next = .ok response →
      config.isPublicPath request.path = true ∨
        ∃ keyValue key, request.Carries config keyValue ∧ (keyValue, key) ∈ store.keys ∧
          key.active = true ∧ key.isExpired now = false

theorem gateClosed_of_keys {store : ApiKeyStore} (hkeys : store.keys ≠ []) : GateClosed store := by
  intro ρ config now authenticatedAt request next response hpassed
  rw [authMiddleware] at hpassed
  split at hpassed
  · rename_i hpublic
    exact Or.inl hpublic
  · have hstore : ¬ store.isEmpty = true := fun hempty => hkeys (List.isEmpty_iff.mp hempty)
    rw [if_neg hstore] at hpassed
    split at hpassed
    · cases hpassed
    · rename_i keyValue hextract
      split at hpassed
      · cases hpassed
      · rename_i authContext hvalidate
        obtain ⟨key, hmem, hlive⟩ :=
          ApiKeyStore.validate_isSome_iff.mp (Option.isSome_of_eq_some hvalidate)
        rw [ApiKey.Spent, not_or, Bool.not_eq_false, Bool.not_eq_true] at hlive
        exact Or.inr ⟨keyValue, key, carries_of_extract hextract, hmem, hlive⟩

/-- Whatever calls came before, a revocation is complete exactly when only the key it met first was
still good; the gate is closed in any case once a key was added. -/
theorem revocation_complete_iff {calls : List Call} {store : ApiKeyStore}
    (hcalls : Calls ApiKeyStore.new calls store) (keyName : String) (now : Instant) :
    (RevokedFor store keyName now ∧ ((∃ key, Call.addKey key ∈ calls) → GateClosed store)) ↔
      OthersSpent store keyName now := by
  rw [revokedFor_iff, and_iff_left_iff_imp]
  exact fun _ hadded => gateClosed_of_keys (hcalls.keys_ne_nil (Or.inr hadded))

def soloStore : ApiKeyStore := ApiKeyStore.new.addKey (.new "old-key" "ci" .writer)

def rotatedStore : ApiKeyStore := soloStore.addKey (.new "new-key" "ci" .writer)

/-- The old key is revoked before the new one comes. -/
def renewedCalls : List Call :=
  [.addKey (.new "old-key" "ci" .writer), .revoke "ci", .addKey (.new "new-key" "ci" .writer),
    .addKey (.new "ops-key" "ops" .admin)]

def renewedStore : ApiKeyStore :=
  ((soloStore.revoke "ci").1.addKey (.new "new-key" "ci" .writer)).addKey
    (.new "ops-key" "ops" .admin)

theorem revocation_complete_renewed :
    RevokedFor renewedStore "ci" 0 ∧
      ((∃ key, Call.addKey key ∈ renewedCalls) → GateClosed renewedStore) :=
  (revocation_complete_iff
    (Calls.addKey _ (Calls.revoke _ (Calls.addKey _ (Calls.addKey _ (Calls.nil renewedStore)))))
    "ci" 0).mpr (by decide)

/-- Of two keys under one name the one that is met second outlives the revocation. -/
theorem not_revocation_complete_rotated :
    ¬ ∀ (calls : List Call) (store : ApiKeyStore), Calls ApiKeyStore.new calls store →
      ∀ (keyName : String) (now : Instant), RevokedFor store keyName now ∧
        ((∃ key, Call.addKey key ∈ calls) → GateClosed store) := by
  intro hall
  have hrotated := Calls.addKey _ (Calls.addKey _ (Calls.nil rotatedStore))
  exact absurd (revokedFor_iff.mp (hall _ _ hrotated "ci" 0).1) (by decide)

end Auth
end RTDB
