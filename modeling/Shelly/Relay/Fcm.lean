import Shelly.Framework.Json
import Shelly.Framework.Renewal
import Shelly.Framework.Word

namespace Shelly.Relay

def fcmScope : String := "https://www.googleapis.com/auth/firebase.messaging"

def accessTokenRefreshSkewSeconds : Nat := 5 * 60

/-- An error and what it was met in, the outermost first. -/
abbrev ErrorChain := List String

/-- What a provider's refusal amounts to. -/
inductive ProviderDeliveryError
  | invalidToken (provider reason : String)
  | other (provider : String) (error : ErrorChain)
  deriving DecidableEq

/-- What comes of a request: no answer, or one with its status and its body, which is `none` when
it cannot be read to its end. -/
inductive HttpOutcome
  | failed (error : ErrorChain)
  | answered (status : Nat) (body : Option String)
  deriving DecidableEq

structure GoogleJwtHeader where
  alg : String
  typ : String
  kid : Option String
  deriving DecidableEq

structure GoogleClaims where
  iss : String
  scope : String
  aud : String
  iat : Nat
  exp : Nat
  deriving DecidableEq

structure GoogleTokenResponse where
  accessToken : String
  expiresIn : Nat
  tokenType : String
  deriving DecidableEq

structure CachedAccessToken where
  token : String
  expiresAtSecs : Nat
  deriving DecidableEq

structure FcmTokenCache where
  clientEmail : String
  privateKeyId : Option String
  cached : Option CachedAccessToken
  deriving DecidableEq

/-- What the client takes from elsewhere: the signed text of a header and its claims, the reader of
Google's tokens, and the reader of JSON texts. -/
structure FcmCodec where
  sign : GoogleJwtHeader → GoogleClaims → Except ErrorChain String
  tokenResponse : String → Except ErrorChain GoogleTokenResponse
  parse : String → Option Json

namespace FcmTokenCache

def cachedToken (cache : FcmTokenCache) (nowSecs : Nat) : Option String :=
  cache.cached.bind fun cached =>
    if nowSecs < cached.expiresAtSecs then some cached.token else none

def jwt (codec : FcmCodec) (cache : FcmTokenCache) (tokenUri : String) (nowSecs : Nat) :
    Except ErrorChain String :=
  codec.sign ⟨"RS256", "JWT", cache.privateKeyId⟩
    ⟨cache.clientEmail, fcmScope, tokenUri, nowSecs, nowSecs + 60 * 60⟩

end FcmTokenCache

/-- For how long a token is used that Google gives for so many seconds. -/
def usableLifetime (expiresIn : Nat) : Nat :=
  let minimumUsableLifetime := min expiresIn 60
  max (expiresIn - accessTokenRefreshSkewSeconds) minimumUsableLifetime

def accessTokenRefreshAt (nowSecs expiresIn : Nat) : Nat :=
  saturatingAdd nowSecs (usableLifetime expiresIn)

/-- A token is given up five minutes before it runs out, or with a minute of it used. -/
theorem usableLifetime_margin (expiresIn : Nat) :
    usableLifetime expiresIn + min accessTokenRefreshSkewSeconds (expiresIn - 60) = expiresIn := by
  simp only [usableLifetime, accessTokenRefreshSkewSeconds]
  omega

theorem le_accessTokenRefreshAt {nowSecs : Nat} (h : nowSecs ≤ u64Max) (expiresIn : Nat) :
    nowSecs ≤ accessTokenRefreshAt nowSecs expiresIn := by
  simp only [accessTokenRefreshAt, saturatingAdd]
  omega

theorem accessTokenRefreshAt_le (nowSecs expiresIn : Nat) :
    accessTokenRefreshAt nowSecs expiresIn ≤ nowSecs + usableLifetime expiresIn :=
  Nat.min_le_left _ _

/-- The sum is not cut off at a moment that is not the last. -/
theorem add_usableLifetime_le {nowSecs expiresIn later : Nat} (hlater : later < u64Max)
    (h : accessTokenRefreshAt nowSecs expiresIn ≤ later) :
    nowSecs + usableLifetime expiresIn ≤ later := by
  simp only [accessTokenRefreshAt, saturatingAdd] at h
  omega

def eqIgnoreAsciiCase (a b : String) : Bool :=
  a.toList.map Char.toLower = b.toList.map Char.toLower

/-- What the exchange of a signed text for a token comes to. -/
def exchangeToken (codec : FcmCodec) : HttpOutcome → Except ErrorChain GoogleTokenResponse
  | .failed error => .error ("exchange FCM service-account JWT for OAuth token" :: error)
  | .answered status body =>
    if ¬ (200 ≤ status ∧ status < 300) then
      let body := body.getD ""
      .error [s!"Google OAuth rejected FCM service-account JWT with {status}: {body}"]
    else
      match body.map codec.tokenResponse with
      | none => .error ["decode FCM OAuth token response", "error decoding response body"]
      | some (.error error) => .error ("decode FCM OAuth token response" :: error)
      | some (.ok token) =>
        if ¬ eqIgnoreAsciiCase token.tokenType "bearer" then
          .error ["Google OAuth returned unsupported token_type"]
        else .ok token

def fcmErrorType : String := "type.googleapis.com/google.firebase.fcm.v1.FcmError"

/-- The code of a detail that says that the token is no longer one. -/
def staleTokenDetail (detail : JsonValue) : Option String :=
  let errorCode := (detail.get "errorCode").bind JsonValue.asStr
  if (detail.get "@type").bind JsonValue.asStr = some fcmErrorType ∧
      (errorCode = some "UNREGISTERED" ∨ errorCode = some "INVALID_ARGUMENT") then errorCode
  else none

def fcmInvalidTokenReason (codec : FcmCodec) (body : String) : Option String :=
  ((codec.parse body).bind (readValue jsonDepth)).bind fun value =>
    match (value.get "error").bind (·.get "details") with
    | some (.array details) => details.findSome? staleTokenDetail
    | _ => none

/-- What Google's answer to a message comes to. -/
def fcmDelivery (codec : FcmCodec) : HttpOutcome → Except ProviderDeliveryError Unit
  | .failed error => .error (.other "FCM" ("send FCM request" :: error))
  | .answered status body =>
    if status ≠ 200 then
      let body := body.getD ""
      match fcmInvalidTokenReason codec body with
      | some reason => .error (.invalidToken "FCM" reason)
      | none => .error (.other "FCM" [s!"FCM rejected notification with {status}: {body}"])
    else .ok ()

end Shelly.Relay
