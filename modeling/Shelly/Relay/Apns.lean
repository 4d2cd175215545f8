import Shelly.Relay.Fcm

namespace Shelly.Relay

def apnsJwtTtlSeconds : Nat := 50 * 60

structure ApnsJwtHeader where
  alg : String
  kid : String
  typ : String
  deriving DecidableEq

structure ApnsClaims where
  iss : String
  iat : Nat
  deriving DecidableEq

structure CachedJwt where
  token : String
  generatedAtSecs : Nat
  deriving DecidableEq

structure ApnsJwtCache where
  teamId : String
  keyId : String
  cached : Option CachedJwt
  deriving DecidableEq

/-- What the client takes from elsewhere: the signed text of a header and its claims, and the
reader of the reason that Apple gives. -/
structure ApnsCodec where
  sign : ApnsJwtHeader → ApnsClaims → Except ErrorChain String
  errorResponse : String → Option (Option String)

/-- The cached token when it is young enough at this reading of the clock, or else a new one. -/
def ApnsJwtCache.token (codec : ApnsCodec) (cache : ApnsJwtCache) (nowSecs : Nat) :
    Except ErrorChain (String × ApnsJwtCache) :=
  let young (cached : CachedJwt) := decide (nowSecs - cached.generatedAtSecs < apnsJwtTtlSeconds)
  match cache.cached.filter young with
  | some cached => .ok (cached.token, cache)
  | none => do
    let token ← codec.sign ⟨"ES256", cache.keyId, "JWT"⟩ ⟨cache.teamId, nowSecs⟩
    return (token, { cache with cached := some ⟨token, nowSecs⟩ })

/-- The token of the cache is younger than fifty minutes at this reading of the clock, or the cache
has a new one in place of none or one that is not. -/
theorem ApnsJwtCache.token_cases {codec : ApnsCodec} {cache cache' : ApnsJwtCache} {nowSecs : Nat}
    {jwt : String} (h : cache.token codec nowSecs = .ok (jwt, cache')) :
    (cache' = cache ∧ ∃ generatedAtSecs, cache.cached = some ⟨jwt, generatedAtSecs⟩ ∧
      nowSecs < generatedAtSecs + apnsJwtTtlSeconds) ∨
    (cache' = { cache with cached := some ⟨jwt, nowSecs⟩ } ∧
      ∀ cached ∈ cache.cached, cached.generatedAtSecs + apnsJwtTtlSeconds ≤ nowSecs) := by
  have hpositive : 0 < apnsJwtTtlSeconds := by decide
  simp only [ApnsJwtCache.token] at h
  split at h
  · rename_i cached hyoung
    obtain ⟨hcached, hage⟩ := Option.filter_eq_some_iff.mp hyoung
    have hage : nowSecs - cached.generatedAtSecs < apnsJwtTtlSeconds := of_decide_eq_true hage
    cases h
    refine .inl ⟨rfl, cached.generatedAtSecs, hcached, ?_⟩
    omega
  · rename_i hold
    right
    cases hsign : codec.sign ⟨"ES256", cache.keyId, "JWT"⟩ ⟨cache.teamId, nowSecs⟩ with
    | error error =>
      rw [hsign] at h
      cases h
    | ok token =>
      rw [hsign] at h
      cases h
      refine ⟨rfl, fun cached hcached => ?_⟩
      have hage := Option.filter_eq_none_iff.mp hold cached hcached
      have hage : ¬ nowSecs - cached.generatedAtSecs < apnsJwtTtlSeconds :=
        fun hyoung => hage (decide_eq_true hyoung)
      omega

def apnsErrorReason (codec : ApnsCodec) (body : String) : Option String :=
  (codec.errorResponse body).join

def apnsErrorIsInvalidToken (status : Nat) (reason : Option String) : Bool :=
  reason = some "BadDeviceToken" || reason = some "DeviceTokenNotForTopic" ||
    (status = 410 && reason = some "Unregistered")

/-- What Apple's answer to a message comes to. -/
def apnsDelivery (codec : ApnsCodec) : HttpOutcome → Except ProviderDeliveryError Unit
  | .failed error => .error (.other "APNs" ("send APNs request" :: error))
  | .answered status body =>
    if status ≠ 200 then
      let body := body.getD ""
      let reason := apnsErrorReason codec body
      if apnsErrorIsInvalidToken status reason then
        .error (.invalidToken "APNs" (reason.getD "invalid_token"))
      else .error (.other "APNs" [s!"APNs rejected notification with {status}: {body}"])
    else .ok ()

end Shelly.Relay
