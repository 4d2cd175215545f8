import Shelly.Framework.Machine
import Shelly.Framework.Table
import Shelly.Protocol.Messages
import Shelly.Relay.Apns

namespace Shelly.Relay

/-- What the two clients take from elsewhere, and where Google's tokens come from. -/
structure ProviderCodec where
  apns : ApnsCodec
  fcm : FcmCodec
  tokenUri : String

/-- How far a push has come with its provider. It keeps the reading of the clock with which it
asked for a token. -/
inductive DeliveryPc
  | signing (nowSecs : Nat)
  | pushing (nowSecs : Nat) (jwt : String)
  | locking (nowSecs : Nat)
  | exchanging (nowSecs sentAt : Nat) (assertion : String)
  | posting (nowSecs : Nat) (token : String)
  | done (result : Except ProviderDeliveryError Unit)
  deriving DecidableEq

/-- The clients that are configured, the pushes under way, and the clock. `holder` is the push that
has the lock of Google's token. -/
structure Providers where
  apns : Option ApnsJwtCache
  fcm : Option FcmTokenCache
  holder : Option Nat
  clock : Nat
  deliveries : Table Nat DeliveryPc

/-- What can happen next. A push asks its provider for a token, has Apple's signed or Google's
lock taken, hears from Google's token service or from its provider, or is given up. -/
inductive DeliveryAction
  | tick (seconds : Nat)
  | deliver (i : Nat) (platform : PushPlatform)
  | advance (i : Nat)
  | exchanged (i issuedAt : Nat) (outcome : HttpOutcome)
  | answered (i : Nat) (outcome : HttpOutcome)
  | drop (i : Nat)

namespace Providers

variable (codec : ProviderCodec)

def setPc (i : Nat) (pc : DeliveryPc) (s : Providers) : Providers :=
  { s with deliveries := s.deliveries.insert i pc }

@[simp] theorem setPc_apns (i : Nat) (pc : DeliveryPc) (s : Providers) :
    (s.setPc i pc).apns = s.apns := rfl

def deliver (platform : PushPlatform) (s : Providers) : DeliveryPc :=
  match platform, s.apns, s.fcm with
  | .apns, some _, _ => .signing s.clock
  | .fcm, _, some _ => .locking s.clock
  | _, _, _ => .done (.ok ())

/-- `ApnsClient::jwt`, in one critical section. -/
def jwt (i nowSecs : Nat) (s : Providers) : Option Providers :=
  s.apns.map fun cache =>
    match cache.token codec.apns nowSecs with
    | .ok (token, cache) => { s with apns := some cache }.setPc i (.pushing nowSecs token)
    | .error error => s.setPc i (.done (.error (.other "APNs" error)))

/-- `FcmClient::access_token` from the lock on, which a request to Google keeps. -/
def accessToken (i nowSecs : Nat) (s : Providers) : Option Providers :=
  s.fcm.map fun cache =>
    match cache.cachedToken nowSecs with
    | some token => s.setPc i (.posting nowSecs token)
    | none =>
      match cache.jwt codec.fcm codec.tokenUri nowSecs with
      | .ok assertion =>
        { s with holder := some i }.setPc i (.exchanging nowSecs s.clock assertion)
      | .error error => s.setPc i (.done (.error (.other "FCM" error)))

/-- `FcmClient::access_token` from Google's answer on. -/
def exchanged (i nowSecs : Nat) (outcome : HttpOutcome) (s : Providers) : Providers :=
  match exchangeToken codec.fcm outcome with
  | .ok response =>
    let expiresAtSecs := accessTokenRefreshAt nowSecs response.expiresIn
    { s with
      fcm := s.fcm.map fun (cache : FcmTokenCache) =>
        { cache with cached := some ⟨response.accessToken, expiresAtSecs⟩ }
      holder := none }.setPc i (.posting nowSecs response.accessToken)
  | .error error => { s with holder := none }.setPc i (.done (.error (.other "FCM" error)))

def step : DeliveryAction → Providers → Option Providers
  | .tick seconds, s =>
    if s.clock + seconds ≤ u64Max then some { s with clock := s.clock + seconds } else none
  | .deliver i platform, s =>
    if (s.deliveries.lookup i).isNone then some (s.setPc i (s.deliver platform)) else none
  | .advance i, s =>
    match s.deliveries.lookup i with
    | some (.signing nowSecs) => s.jwt codec i nowSecs
    | some (.locking nowSecs) => if s.holder.isNone then s.accessToken codec i nowSecs else none
    | _ => none
  | .exchanged i issuedAt outcome, s =>
    match s.deliveries.lookup i with
    | some (.exchanging nowSecs sentAt _) =>
      -- Google makes its token between the request and the answer.
      if sentAt ≤ issuedAt ∧ issuedAt ≤ s.clock then some (s.exchanged codec i nowSecs outcome)
      else none
    | _ => none
  | .answered i outcome, s =>
    match s.deliveries.lookup i with
    | some (.pushing _ _) => some (s.setPc i (.done (apnsDelivery codec.apns outcome)))
    | some (.posting _ _) => some (s.setPc i (.done (fcmDelivery codec.fcm outcome)))
    | _ => none
  | .drop i, s =>
    -- The guard of the lock goes with the push that holds it.
    some { s with
      deliveries := s.deliveries.erase i
      holder := if s.holder = some i then none else s.holder }

/-- The relay has started, and has no token yet. -/
def opened (apns : Option ApnsJwtCache) (fcm : Option FcmTokenCache) (clock : Nat) : Providers :=
  ⟨apns.map fun cache => { cache with cached := none },
    fcm.map fun cache => { cache with cached := none }, none, clock, .empty⟩

def machine : Machine Providers DeliveryAction where
  init s := s.clock ≤ u64Max ∧ s = opened s.apns s.fcm s.clock
  step := step codec

def isExchanging : DeliveryPc → Bool
  | .exchanging _ _ _ => true
  | _ => false

def exchanging (i : Nat) (s : Providers) : Bool := (s.deliveries.lookup i).any isExchanging

end Providers

/-- A token that Google has made. -/
structure Grant where
  token : String
  expiresIn : Nat
  issuedAt : Nat
  deriving DecidableEq

def Grant.validUntil (g : Grant) : Nat := g.issuedAt + g.expiresIn

/-- The tokens that have been put into the two caches, the newest first. -/
structure Issued where
  grants : List (Renewal Grant)
  jwts : List (Renewal String)

namespace Issued

def grant (nowSecs issuedAt : Nat) (response : GoogleTokenResponse) (w : Issued) : Issued :=
  { w with
    grants :=
      ⟨⟨response.accessToken, response.expiresIn, issuedAt⟩, nowSecs,
        accessTokenRefreshAt nowSecs response.expiresIn⟩ :: w.grants }

def sign (nowSecs : Nat) (jwt : String) (w : Issued) : Issued :=
  { w with jwts := ⟨jwt, nowSecs, nowSecs + apnsJwtTtlSeconds⟩ :: w.jwts }

def note (codec : ProviderCodec) (a : DeliveryAction) (s s' : Providers) (w : Issued) : Issued :=
  match a with
  | .exchanged i issuedAt outcome =>
    match s.deliveries.lookup i, exchangeToken codec.fcm outcome with
    | some (.exchanging nowSecs _ _), .ok response => w.grant nowSecs issuedAt response
    | _, _ => w
  | .advance _ =>
    match s.apns.bind (·.cached), s'.apns.bind (·.cached) with
    | old, some new => if old = some new then w else w.sign new.generatedAtSecs new.token
    | _, none => w
  | _ => w

end Issued

/-- Nothing is signed when the cache stays as it is. -/
theorem Issued.note_of_apns {codec : ProviderCodec} {i : Nat} {s s' : Providers} {w : Issued}
    (h : s'.apns = s.apns) : w.note codec (.advance i) s s' = w := by
  simp only [Issued.note, h]
  cases s.apns.bind (·.cached) with
  | none => rfl
  | some cached => exact if_pos rfl

/-- The token that takes the place of an older one, or of none, is a new one. -/
theorem Issued.note_of_signed {codec : ProviderCodec} {i nowSecs : Nat} {jwt : String}
    {s : Providers} {w : Issued} {cache : ApnsJwtCache} (hcache : s.apns = some cache)
    (hold : ∀ cached ∈ cache.cached, cached.generatedAtSecs + apnsJwtTtlSeconds ≤ nowSecs) :
    w.note codec (.advance i) s (Providers.setPc i (.pushing nowSecs jwt)
      { s with apns := some { cache with cached := some ⟨jwt, nowSecs⟩ } }) =
      w.sign nowSecs jwt := by
  have hpositive : 0 < apnsJwtTtlSeconds := by decide
  simp only [Issued.note, hcache, Option.bind_some, Providers.setPc]
  refine if_neg ?_
  intro hsame
  have hout := hold _ hsame
  dsimp only at hout
  omega

def watchedProviders (codec : ProviderCodec) : Machine (Providers × Issued) DeliveryAction :=
  (Providers.machine codec).watched (fun _ => ⟨[], []⟩) (Issued.note codec)

namespace DeliveryPc

/-- What holds of a push that has the lock or does not have it. A token that it takes from a cache
was good for use at its own reading of the clock. -/
def Sound (clock : Nat) (holds : Prop) (w : Issued) : DeliveryPc → Prop
  | .signing nowSecs | .locking nowSecs => ¬ holds ∧ nowSecs ≤ clock
  | .pushing nowSecs jwt => ¬ holds ∧ ∃ r ∈ w.jwts, r.value = jwt ∧ nowSecs < r.refreshAt
  | .exchanging nowSecs sentAt _ =>
    holds ∧ nowSecs ≤ sentAt ∧ sentAt ≤ clock ∧
      ∀ newest ∈ w.grants.head?, newest.refreshAt ≤ nowSecs
  | .posting nowSecs token =>
    ¬ holds ∧ ∃ r ∈ w.grants, r.value.token = token ∧
      (nowSecs < r.refreshAt ∨ nowSecs = r.takenAt)
  | .done _ => ¬ holds

/-- Tokens may be added, but none of Google's while this push has the lock. -/
theorem Sound.mono {pc : DeliveryPc} {clock clock' : Nat} {holds holds' : Prop} {w w' : Issued}
    (h : pc.Sound clock holds w) (hclock : clock ≤ clock') (hholds : holds' ↔ holds)
    (hgrants : w.grants ⊆ w'.grants) (hjwts : w.jwts ⊆ w'.jwts)
    (hlocked : holds → w'.grants = w.grants) : pc.Sound clock' holds' w' := by
  cases pc with
  | signing nowSecs => exact ⟨hholds.not.mpr h.1, h.2.trans hclock⟩
  | locking nowSecs => exact ⟨hholds.not.mpr h.1, h.2.trans hclock⟩
  | pushing nowSecs jwt =>
    obtain ⟨hfree, r, hr, hfresh⟩ := h
    exact ⟨hholds.not.mpr hfree, r, hjwts hr, hfresh⟩
  | posting nowSecs token =>
    obtain ⟨hfree, r, hr, hfresh⟩ := h
    exact ⟨hholds.not.mpr hfree, r, hgrants hr, hfresh⟩
  | exchanging nowSecs sentAt assertion =>
    obtain ⟨hheld, hread, hsent, hout⟩ := h
    refine ⟨hholds.mpr hheld, hread, hsent.trans hclock, ?_⟩
    rw [hlocked hheld]
    exact hout
  | done result => exact hholds.not.mpr h

end DeliveryPc

namespace Providers

/-- The caches hold the newest tokens, whoever has the lock is at work, and no token of either kind
was asked for before the one before it was due. -/
structure Sound (s : Providers) (w : Issued) : Prop where
  clock : s.clock ≤ u64Max
  deliveries : ∀ i pc, s.deliveries.lookup i = some pc →
    pc.Sound s.clock (s.holder = some i) w
  holder : ∀ i, s.holder = some i → ∃ pc, s.deliveries.lookup i = some pc
  cachedToken : ∀ cache ∈ s.fcm,
    cache.cached = w.grants.head?.map fun r => ⟨r.value.token, r.refreshAt⟩
  cachedJwt : ∀ cache ∈ s.apns, cache.cached = w.jwts.head?.map fun r => ⟨r.value, r.takenAt⟩
  grants : Renewed w.grants
  granted : ∀ r ∈ w.grants, r.takenAt ≤ r.value.issuedAt ∧
    r.refreshAt = accessTokenRefreshAt r.takenAt r.value.expiresIn
  jwts : Renewed w.jwts
  signed : ∀ r ∈ w.jwts, r.takenAt ≤ s.clock ∧ r.refreshAt = r.takenAt + apnsJwtTtlSeconds

variable {codec : ProviderCodec} {s s' : Providers} {w w' : Issued} {i nowSecs : Nat}
  {pc : DeliveryPc}

/-- One push moves on. The others keep the lock or stay without it. -/
theorem Sound.moved (h : s.Sound w) (hmoves : s'.deliveries = s.deliveries.insert i pc)
    (hclock : s'.clock = s.clock) (hpc : pc.Sound s.clock (s'.holder = some i) w')
    (hothers : ∀ j ≠ i, s'.holder = some j ↔ s.holder = some j)
    (hgrants : w.grants ⊆ w'.grants) (hjwts : w.jwts ⊆ w'.jwts)
    (hlocked : ∀ j ≠ i, s.holder = some j → w'.grants = w.grants) :
    ∀ j pc', s'.deliveries.lookup j = some pc' → pc'.Sound s'.clock (s'.holder = some j) w' := by
  intro j pc' hj
  rw [hmoves, Table.lookup_insert] at hj
  split_ifs at hj with hij
  · cases hj
    rw [hij, hclock]
    exact hpc
  · have hbefore := h.deliveries j pc' hj
    rw [hclock]
    exact hbefore.mono le_rfl (hothers j hij) hgrants hjwts (hlocked j hij)

/-- A push that has the lock is there whoever moves on. -/
theorem Sound.stays {j : Nat} (h : s.Sound w)
    (hmoves : s'.deliveries = s.deliveries.insert i pc) (hj : s.holder = some j) :
    ∃ pc', s'.deliveries.lookup j = some pc' := by
  obtain ⟨pc', hpc'⟩ := h.holder j hj
  rw [hmoves, Table.lookup_insert]
  split_ifs
  · exact ⟨pc, rfl⟩
  · exact ⟨pc', hpc'⟩

/-- A push moves on with nothing but its own place changed. -/
theorem Sound.setPc (h : s.Sound w) (hpc : pc.Sound s.clock (s.holder = some i) w) :
    (s.setPc i pc).Sound w where
  clock := h.clock
  deliveries :=
    h.moved rfl rfl hpc (fun _ _ => .rfl) (List.Subset.refl _) (List.Subset.refl _) fun _ _ _ => rfl
  holder _ hj := h.stays rfl hj
  cachedToken := h.cachedToken
  cachedJwt := h.cachedJwt
  grants := h.grants
  granted := h.granted
  jwts := h.jwts
  signed := h.signed

/-- Only a push in the middle of an exchange has the lock. -/
theorem Sound.holder_iff (h : s.Sound w) (i : Nat) :
    s.holder = some i ↔ s.exchanging i = true := by
  constructor
  · intro hheld
    obtain ⟨pc, hpc⟩ := h.holder i hheld
    have hsound := h.deliveries i pc hpc
    rw [exchanging, hpc, Option.any_some]
    cases pc with
    | exchanging => rfl
    | signing | locking | pushing | posting => exact absurd hheld hsound.1
    | done => exact absurd hheld hsound
  · intro hexchanging
    obtain ⟨pc, hpc, hkind⟩ := (Option.any_eq_true _ _).mp hexchanging
    have hsound := h.deliveries i pc hpc
    cases pc with
    | exchanging => exact hsound.1
    | signing | locking | pushing | posting | done => cases hkind

theorem Sound.not_holder (h : s.Sound w) (hi : s.deliveries.lookup i = none) :
    s.holder ≠ some i := by
  intro hheld
  obtain ⟨pc, hpc⟩ := h.holder i hheld
  cases hi.symm.trans hpc

theorem Sound.tick {seconds : Nat} (h : s.Sound w) (hclock : s.clock + seconds ≤ u64Max) :
    Sound { s with clock := s.clock + seconds } w where
  clock := hclock
  deliveries i pc hpc :=
    (h.deliveries i pc hpc).mono (Nat.le_add_right _ _) .rfl (List.Subset.refl _)
      (List.Subset.refl _) fun _ => rfl
  holder := h.holder
  cachedToken := h.cachedToken
  cachedJwt := h.cachedJwt
  grants := h.grants
  granted := h.granted
  jwts := h.jwts
  signed r hr := ⟨(h.signed r hr).1.trans (Nat.le_add_right _ _), (h.signed r hr).2⟩

theorem Sound.deliver (h : s.Sound w) (hi : s.deliveries.lookup i = none)
    (platform : PushPlatform) : (s.setPc i (s.deliver platform)).Sound w := by
  refine h.setPc ?_
  have hfree := h.not_holder hi
  unfold Providers.deliver
  split
  · exact ⟨hfree, le_rfl⟩
  · exact ⟨hfree, le_rfl⟩
  · exact hfree

/-- The guard of the lock falls with its push. -/
theorem Sound.drop (h : s.Sound w) (i : Nat) :
    Sound { s with
      deliveries := s.deliveries.erase i
      holder := if s.holder = some i then none else s.holder } w where
  clock := h.clock
  deliveries j pc hj := by
    rw [Table.lookup_erase] at hj
    split_ifs at hj with hij
    refine (h.deliveries j pc hj).mono le_rfl ?_ (List.Subset.refl _) (List.Subset.refl _)
      fun _ => rfl
    split_ifs with hheld
    · rw [hheld, Option.some.injEq]
      exact ⟨False.elim, fun hji => absurd hji.symm hij⟩
    · exact .rfl
  holder j hj := by
    split_ifs at hj with hheld
    obtain ⟨pc, hpc⟩ := h.holder j hj
    refine ⟨pc, (Table.lookup_erase_ne _ ?_).trans hpc⟩
    rintro rfl
    exact hheld hj
  cachedToken := h.cachedToken
  cachedJwt := h.cachedJwt
  grants := h.grants
  granted := h.granted
  jwts := h.jwts
  signed := h.signed

/-- Apple's token is taken from the cache, or signed because there is none that is young. -/
theorem Sound.jwt (h : s.Sound w) (hi : s.deliveries.lookup i = some (.signing nowSecs))
    (hs : s.jwt codec i nowSecs = some s') : s'.Sound (w.note codec (.advance i) s s') := by
  obtain ⟨cache, hcache, hs'⟩ := Option.map_eq_some_iff.mp hs
  obtain ⟨hfree, hread⟩ := h.deliveries i _ hi
  have hcached := h.cachedJwt cache hcache
  cases htoken : cache.token codec.apns nowSecs with
  | error error =>
    rw [htoken] at hs'
    dsimp only at hs'
    subst hs'
    rw [Issued.note_of_apns (setPc_apns i _ s)]
    exact h.setPc hfree
  | ok answer =>
    obtain ⟨token, cache'⟩ := answer
    rw [htoken] at hs'
    dsimp only at hs'
    subst hs'
    rcases ApnsJwtCache.token_cases htoken with ⟨rfl, made, hmade, hyoung⟩ | ⟨rfl, hold⟩
    · have hsame : { s with apns := some cache' } = s := by rw [← hcache]
      rw [hsame, Issued.note_of_apns (setPc_apns i _ s)]
      refine h.setPc ⟨hfree, ?_⟩
      rw [hcached] at hmade
      obtain ⟨r, hr, hvalue⟩ := Option.map_eq_some_iff.mp hmade
      have hmem : r ∈ w.jwts := List.mem_of_mem_head? hr
      cases hvalue
      refine ⟨r, hmem, rfl, ?_⟩
      rw [(h.signed r hmem).2]
      exact hyoung
    · have hout : ∀ newest ∈ w.jwts.head?, newest.refreshAt ≤ nowSecs := by
        intro newest hnewest
        have hmade : ⟨newest.value, newest.takenAt⟩ ∈ cache.cached := by
          rw [hcached, hnewest]
          rfl
        rw [(h.signed newest (List.mem_of_mem_head? hnewest)).2]
        exact hold _ hmade
      rw [Issued.note_of_signed hcache hold]
      exact {
        clock := h.clock
        deliveries := by
          refine h.moved rfl rfl ⟨hfree, _, List.mem_cons_self, rfl, ?_⟩ (fun _ _ => .rfl)
            (List.Subset.refl _) (List.subset_cons_self _ _) fun _ _ _ => rfl
          exact Nat.lt_add_of_pos_right (by decide)
        holder := fun j hj => h.stays rfl hj
        cachedToken := h.cachedToken
        cachedJwt := by
          rintro cache' ⟨⟩
          rfl
        grants := h.grants
        granted := h.granted
        jwts := h.jwts.renew (Nat.le_add_right _ _) hout
        signed := List.forall_mem_cons.mpr ⟨⟨hread, rfl⟩, h.signed⟩ }

/-- Google's token is taken from the cache, or asked for with the lock held because it is due. -/
theorem Sound.accessToken (h : s.Sound w) (hi : s.deliveries.lookup i = some (.locking nowSecs))
    (hunlocked : s.holder = none) (hs : s.accessToken codec i nowSecs = some s') :
    s'.Sound (w.note codec (.advance i) s s') := by
  obtain ⟨cache, hcache, hs'⟩ := Option.map_eq_some_iff.mp hs
  obtain ⟨hfree, hread⟩ := h.deliveries i _ hi
  have hcached := h.cachedToken cache hcache
  cases htoken : cache.cachedToken nowSecs with
  | some token =>
    rw [htoken] at hs'
    dsimp only at hs'
    subst hs'
    rw [Issued.note_of_apns (setPc_apns i _ s)]
    refine h.setPc ⟨hfree, ?_⟩
    obtain ⟨made, hmade, hchecked⟩ := Option.bind_eq_some_iff.mp htoken
    obtain ⟨hfresh, hsame⟩ := Option.ite_none_right_eq_some.mp hchecked
    cases hsame
    rw [hcached] at hmade
    obtain ⟨r, hr, rfl⟩ := Option.map_eq_some_iff.mp hmade
    exact ⟨r, List.mem_of_mem_head? hr, rfl, .inl hfresh⟩
  | none =>
    rw [htoken] at hs'
    dsimp only at hs'
    cases hjwt : cache.jwt codec.fcm codec.tokenUri nowSecs with
    | error error =>
      rw [hjwt] at hs'
      dsimp only at hs'
      subst hs'
      rw [Issued.note_of_apns (setPc_apns i _ s)]
      exact h.setPc hfree
    | ok assertion =>
      rw [hjwt] at hs'
      dsimp only at hs'
      subst hs'
      have hkept : (Providers.setPc i (.exchanging nowSecs s.clock assertion)
          { s with holder := some i }).apns = s.apns := rfl
      rw [Issued.note_of_apns hkept]
      have hout : ∀ newest ∈ w.grants.head?, newest.refreshAt ≤ nowSecs := by
        intro newest hnewest
        rw [FcmTokenCache.cachedToken, hcached, hnewest] at htoken
        simpa using htoken
      exact {
        clock := h.clock
        deliveries := by
          refine h.moved rfl rfl ⟨rfl, hread, le_rfl, hout⟩ ?_ (List.Subset.refl _)
            (List.Subset.refl _) fun _ _ _ => rfl
          intro j hj
          rw [hunlocked]
          exact ⟨fun hij => absurd (Option.some.inj hij).symm hj,
            fun hnone => absurd hnone (Option.some_ne_none j).symm⟩
        holder := by
          rintro j ⟨⟩
          exact ⟨_, Table.lookup_insert_self _ _ _⟩
        cachedToken := h.cachedToken
        cachedJwt := h.cachedJwt
        grants := h.grants
        granted := h.granted
        jwts := h.jwts
        signed := h.signed }

/-- Google's answer reaches the push that has the lock. -/
theorem Sound.exchanged {sentAt issuedAt : Nat} {assertion : String} {outcome : HttpOutcome}
    (h : s.Sound w) (hi : s.deliveries.lookup i = some (.exchanging nowSecs sentAt assertion))
    (hissued : sentAt ≤ issuedAt) :
    (s.exchanged codec i nowSecs outcome).Sound
      (w.note codec (.exchanged i issuedAt outcome) s (s.exchanged codec i nowSecs outcome)) := by
  obtain ⟨hheld, hread, hsent, hout⟩ := h.deliveries i _ hi
  have hothers (j : Nat) (hj : j ≠ i) : none = some j ↔ s.holder = some j := by
    rw [hheld, Option.some.injEq]
    exact ⟨fun hnone => absurd hnone (Option.some_ne_none j).symm, fun hij => absurd hij.symm hj⟩
  have halone (j : Nat) (hj : j ≠ i) : s.holder ≠ some j := fun hheld' =>
    hj (Option.some.inj (hheld'.symm.trans hheld))
  unfold Providers.exchanged
  cases hexchange : exchangeToken codec.fcm outcome with
  | error error =>
    simp only [Issued.note, hi, hexchange]
    exact {
      clock := h.clock
      deliveries :=
        h.moved rfl rfl (Option.some_ne_none i).symm hothers (List.Subset.refl _)
          (List.Subset.refl _) fun _ _ _ => rfl
      holder := fun j hj => absurd hj (Option.some_ne_none j).symm
      cachedToken := h.cachedToken
      cachedJwt := h.cachedJwt
      grants := h.grants
      granted := h.granted
      jwts := h.jwts
      signed := h.signed }
  | ok response =>
    simp only [Issued.note, hi, hexchange]
    exact {
      clock := h.clock
      deliveries :=
        h.moved rfl rfl ⟨(Option.some_ne_none i).symm, _, List.mem_cons_self, rfl, .inr rfl⟩
          hothers
          (List.subset_cons_self _ _) (List.Subset.refl _)
          fun j hj hheld' => absurd hheld' (halone j hj)
      holder := fun j hj => absurd hj (Option.some_ne_none j).symm
      cachedToken := by
        intro cache' hcache'
        obtain ⟨cache, -, rfl⟩ := Option.map_eq_some_iff.mp hcache'
        rfl
      cachedJwt := h.cachedJwt
      grants :=
        h.grants.renew (le_accessTokenRefreshAt (hread.trans (hsent.trans h.clock)) _) hout
      granted := List.forall_mem_cons.mpr ⟨⟨hread.trans hissued, rfl⟩, h.granted⟩
      jwts := h.jwts
      signed := h.signed }

theorem Sound.step {a : DeliveryAction} (h : s.Sound w) (hs : step codec a s = some s') :
    s'.Sound (w.note codec a s s') := by
  cases a with
  | tick seconds =>
    simp only [Providers.step, Option.ite_none_right_eq_some, Option.some.injEq] at hs
    obtain ⟨hclock, rfl⟩ := hs
    exact h.tick hclock
  | deliver i platform =>
    simp only [Providers.step, Option.ite_none_right_eq_some, Option.some.injEq,
      Option.isNone_iff_eq_none] at hs
    obtain ⟨hi, rfl⟩ := hs
    exact h.deliver hi platform
  | advance i =>
    simp only [Providers.step] at hs
    split at hs
    · exact h.jwt ‹_› hs
    · obtain ⟨hunlocked, hs⟩ := Option.ite_none_right_eq_some.mp hs
      exact h.accessToken ‹_› (Option.isNone_iff_eq_none.mp hunlocked) hs
    · cases hs
  | exchanged i issuedAt outcome =>
    simp only [Providers.step] at hs
    split at hs
    · obtain ⟨⟨hissued, -⟩, hs⟩ := Option.ite_none_right_eq_some.mp hs
      cases hs
      exact h.exchanged ‹_› hissued
    · cases hs
  | answered i outcome =>
    simp only [Providers.step] at hs
    split at hs
    · rename_i hi
      cases hs
      exact h.setPc (h.deliveries i _ hi).1
    · rename_i hi
      cases hs
      exact h.setPc (h.deliveries i _ hi).1
    · cases hs
  | drop i =>
    cases hs
    exact h.drop i

theorem sound_opened (h : (machine codec).init s) : s.Sound ⟨[], []⟩ where
  clock := h.1
  deliveries i pc hpc := by
    rw [h.2] at hpc
    cases (Table.lookup_empty i).symm.trans hpc
  holder i hi := by
    rw [h.2] at hi
    cases hi
  cachedToken cache hcache := by
    rw [h.2] at hcache
    obtain ⟨cache', -, rfl⟩ := Option.map_eq_some_iff.mp hcache
    rfl
  cachedJwt cache hcache := by
    rw [h.2] at hcache
    obtain ⟨cache', -, rfl⟩ := Option.map_eq_some_iff.mp hcache
    rfl
  grants := .nil
  granted := nofun
  jwts := .nil
  signed := nofun

theorem sound_of_reachable {p : Providers × Issued} (h : (watchedProviders codec).Reachable p) :
    p.1.Sound p.2 := by
  refine h.invariant (I := fun p => p.1.Sound p.2) ?_ ?_
  · rintro p ⟨hinit, hissued⟩
    rw [hissued]
    exact sound_opened hinit
  · intro p a q hp _ hstep
    obtain ⟨hmoved, hissued⟩ := Machine.watched_step hstep
    rw [hissued]
    exact hp.step hmoved

/-- How the pushes share their tokens. At most one of them asks Google for a token, only when the
last one was due at its reading of the clock, and the lock is free unless one does. Google's token
runs out no sooner than five minutes after the reading of the push that bears it, or as long as a
token that is given for less than six minutes leaves after its first one. Apple's is younger than
fifty minutes at the reading. And tokens are made only as often as the old ones fall due. -/
structure SharesTokens (s : Providers) (w : Issued) : Prop where
  single : ∀ i j, s.exchanging i = true → s.exchanging j = true → i = j
  locked : ∀ i, s.holder = some i ↔ s.exchanging i = true
  due : ∀ i nowSecs sentAt assertion,
    s.deliveries.lookup i = some (.exchanging nowSecs sentAt assertion) →
      ∀ newest ∈ w.grants.head?, newest.refreshAt ≤ nowSecs
  posted : ∀ i nowSecs token, s.deliveries.lookup i = some (.posting nowSecs token) →
    ∃ r ∈ w.grants, r.value.token = token ∧
      nowSecs + min (5 * 60) (r.value.expiresIn - 60) ≤ r.value.validUntil
  pushed : ∀ i nowSecs jwt, s.deliveries.lookup i = some (.pushing nowSecs jwt) →
    ∃ r ∈ w.jwts, r.value = jwt ∧ r.takenAt ≤ s.clock ∧ nowSecs < r.takenAt + 50 * 60
  exchanges : ∀ gap start stop, 0 < gap → stop < u64Max →
    (w.grants.filter fun r => decide (start ≤ r.takenAt ∧ r.takenAt ≤ stop ∧
      gap ≤ usableLifetime r.value.expiresIn)).length ≤ (stop - start) / gap + 1
  signatures : ∀ start stop,
    (w.jwts.filter fun r => decide (start ≤ r.takenAt ∧ r.takenAt ≤ stop)).length ≤
      (stop - start) / (50 * 60) + 1

theorem Sound.single (h : s.Sound w) (i j : Nat) (hi : s.exchanging i = true)
    (hj : s.exchanging j = true) : i = j := by
  have hheld : s.holder = some i := (h.holder_iff i).mpr hi
  have hheld' : s.holder = some j := (h.holder_iff j).mpr hj
  exact Option.some.inj (hheld.symm.trans hheld')

theorem Sound.posted {token : String} (h : s.Sound w)
    (hi : s.deliveries.lookup i = some (.posting nowSecs token)) :
    ∃ r ∈ w.grants, r.value.token = token ∧
      nowSecs + min (5 * 60) (r.value.expiresIn - 60) ≤ r.value.validUntil := by
  obtain ⟨-, r, hr, htoken, hfresh⟩ := h.deliveries i _ hi
  refine ⟨r, hr, htoken, ?_⟩
  obtain ⟨hissued, hrefresh⟩ := h.granted r hr
  have hmargin := usableLifetime_margin r.value.expiresIn
  have hlate := accessTokenRefreshAt_le r.takenAt r.value.expiresIn
  simp only [accessTokenRefreshSkewSeconds] at hmargin
  rw [Grant.validUntil]
  omega

theorem Sound.pushed {jwt : String} (h : s.Sound w)
    (hi : s.deliveries.lookup i = some (.pushing nowSecs jwt)) :
    ∃ r ∈ w.jwts, r.value = jwt ∧ r.takenAt ≤ s.clock ∧ nowSecs < r.takenAt + 50 * 60 := by
  obtain ⟨-, r, hr, hjwt, hyoung⟩ := h.deliveries i _ hi
  obtain ⟨hsigned, hrefresh⟩ := h.signed r hr
  rw [hrefresh, apnsJwtTtlSeconds] at hyoung
  exact ⟨r, hr, hjwt, hsigned, hyoung⟩

theorem Sound.exchanges (h : s.Sound w) {gap start stop : Nat} (hgap : 0 < gap)
    (hstop : stop < u64Max) :
    (w.grants.filter fun r => decide (start ≤ r.takenAt ∧ r.takenAt ≤ stop ∧
      gap ≤ usableLifetime r.value.expiresIn)).length ≤ (stop - start) / gap + 1 := by
  refine h.grants.length_filter_le _ hgap ?_ ?_
  · intro r _ hchosen
    obtain ⟨hstart, hend, -⟩ := of_decide_eq_true hchosen
    exact ⟨hstart, hend⟩
  · intro r hr hchosen t ht hdue
    obtain ⟨-, -, hlong⟩ := of_decide_eq_true hchosen
    rw [(h.granted r hr).2] at hdue
    have hend := add_usableLifetime_le (ht.trans_lt hstop) hdue
    omega

theorem Sound.signatures (h : s.Sound w) (start stop : Nat) :
    (w.jwts.filter fun r => decide (start ≤ r.takenAt ∧ r.takenAt ≤ stop)).length ≤
      (stop - start) / (50 * 60) + 1 := by
  refine h.jwts.length_filter_le _ (by decide) ?_ ?_
  · intro r _ hchosen
    exact of_decide_eq_true hchosen
  · intro r hr _ t _ hdue
    rwa [(h.signed r hr).2] at hdue

end Providers

/-- In every run of the relay's pushes to its providers, in whatever order they read the clock, take
the locks, hear from the providers or are given up, they share their tokens. -/
theorem providers_share_tokens (codec : ProviderCodec) {p : Providers × Issued}
    (h : (watchedProviders codec).Reachable p) : p.1.SharesTokens p.2 :=
  have hsound := Providers.sound_of_reachable h
  { single := hsound.single
    locked := hsound.holder_iff
    due := fun i _ _ _ hi => (hsound.deliveries i _ hi).2.2.2
    posted := fun _ _ _ hi => hsound.posted hi
    pushed := fun _ _ _ hi => hsound.pushed hi
    exchanges := fun _ _ _ hgap hstop => hsound.exchanges hgap hstop
    signatures := hsound.signatures }

section Traces

private def ready : ProviderCodec :=
  ⟨⟨fun _ _ => .ok "signed", fun _ => none⟩,
    ⟨fun _ _ => .ok "assertion", fun _ => .ok ⟨"ya29", 3600, "Bearer"⟩, fun _ => none⟩,
    "https://oauth2.googleapis.com/token"⟩

private def bothClients : Providers :=
  .opened (some ⟨"team", "key", none⟩) (some ⟨"relay@example", none, none⟩) 1000

/-- Two pushes through Google ask at once, and the second takes what the first was given; two
pushes through Apple are an hour apart. -/
theorem providers_share_tokens_four :
    ∃ p : Providers × Issued, (watchedProviders ready).Reachable p ∧
      p.1.deliveries.lookup 1 = some (.posting 1000 "ya29") ∧ p.2.grants.length = 1 ∧
      p.2.jwts.length = 2 ∧ p.1.SharesTokens p.2 := by
  obtain ⟨p, hreach, htoken, hgrants, hjwts⟩ :=
    (watchedProviders ready).exists_reachable_of_exec Machine.Any
      (fun p => p.1.deliveries.lookup 1 = some (.posting 1000 "ya29") ∧ p.2.grants.length = 1 ∧
        p.2.jwts.length = 2)
      [.deliver 0 .fcm, .deliver 1 .fcm, .advance 0, .exchanged 0 1000 (.answered 200 (some "")),
        .advance 1, .deliver 2 .apns, .advance 2, .tick 3600, .deliver 3 .apns, .advance 3]
      (Machine.watched_init (s := bothClients) ⟨by decide, by rfl⟩) (by decide)
  exact ⟨p, hreach, htoken, hgrants, hjwts, providers_share_tokens ready hreach⟩

end Traces

end Shelly.Relay
