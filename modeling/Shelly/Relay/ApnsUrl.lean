import Shelly.Framework.Url
import Shelly.Relay.Requests

namespace Shelly.Relay

def trimEndMatches (c : Char) (s : String) : String :=
  String.ofList (s.toList.reverse.dropWhile (· = c)).reverse

/-- What the requests to APNs begin with. -/
structure ApnsClient where
  endpoint : String

def ApnsClient.newWithHttp (endpoint : String) : ApnsClient := ⟨trimEndMatches '/' endpoint⟩

/-- Where `send` posts a delivery. -/
def ApnsClient.requestUrl (client : ApnsClient) (recipientToken : String) : String :=
  client.endpoint ++ "/3/device/" ++ recipientToken

/-- An `https` endpoint with an authority and an empty path. -/
structure Endpoint where
  authority : List Char
  nonempty : authority ≠ []
  clean : authority.all (fun c => !Url.endsAuthority c && !Url.isC0ControlOrSpace c) = true
  slashes : Nat

def Endpoint.text (e : Endpoint) : String :=
  String.ofList ("https://".toList ++ e.authority ++ List.replicate e.slashes '/')

/-- The URL is rejected, or it is the one of the device that has the token. -/
def Delivers {A : Type*} (authorityOf : List Char → Option A) (e : Endpoint) (token : String) :
    Prop :=
  ∀ url,
    Url.parse authorityOf ((ApnsClient.newWithHttp e.text).requestUrl token).toList = some url →
    authorityOf e.authority = some url.authority ∧
      (∃ segment, url.path = ["3".toList, "device".toList, segment] ∧
        Url.EncodedAs token.toList segment) ∧ url.query = none ∧ url.fragment = none

/-- No character of the token ends a part of a URL, and none is dropped. -/
def isOneSegment (token : String) : Bool :=
  token.toList.all (fun c => !Url.endsAuthority c && !Url.isTabOrNewline c) &&
    token.toList.getLast?.all fun c => !Url.isC0ControlOrSpace c

variable {A : Type*} {authorityOf : List Char → Option A} {token : String}

section Request

theorem trimEndMatches_replicate {c : Char} {front : List Char}
    (h : ∀ d, front.getLast? = some d → d ≠ c) (n : Nat) :
    trimEndMatches c (String.ofList (front ++ List.replicate n c)) = String.ofList front := by
  have hall : ∀ x ∈ List.replicate n c, decide (x = c) = true := by
    intro x hx
    simp [List.eq_of_mem_replicate hx]
  have hfront : front.reverse.dropWhile (· = c) = front.reverse := by
    cases hr : front.reverse with
    | nil => rfl
    | cons d rest =>
      have hlast : front.getLast? = some d := by rw [← List.head?_reverse, hr, List.head?_cons]
      rw [List.dropWhile_cons_of_neg (by simpa using h d hlast)]
  unfold trimEndMatches
  rw [String.toList_ofList, List.reverse_append, List.reverse_replicate,
    List.dropWhile_append_of_pos hall, hfront, List.reverse_reverse]

theorem Endpoint.clean_of_mem (e : Endpoint) {c : Char} (h : c ∈ e.authority) :
    Url.endsAuthority c = false ∧ Url.isC0ControlOrSpace c = false := by
  simpa using List.all_eq_true.mp e.clean c h

theorem isOneSegment_iff : isOneSegment token = true ↔
    (∀ c ∈ token.toList, Url.endsAuthority c = false ∧ Url.isTabOrNewline c = false) ∧
      ∀ c, token.toList.getLast? = some c → Url.isC0ControlOrSpace c = false := by
  simp [isOneSegment, Option.all_eq_true]

theorem toList_requestUrl (e : Endpoint) (token : String) :
    ((ApnsClient.newWithHttp e.text).requestUrl token).toList =
      "https://".toList ++ e.authority ++ '/' :: ("3/device/".toList ++ token.toList) := by
  have hlast : ∀ d, ("https://".toList ++ e.authority).getLast? = some d → d ≠ '/' := by
    intro d hd hslash
    have hmem : d ∈ e.authority := by
      rw [List.getLast?_append_of_ne_nil _ e.nonempty] at hd
      exact List.mem_of_getLast? hd
    have hclean := (e.clean_of_mem hmem).1
    rw [hslash] at hclean
    exact absurd hclean (by decide)
  have htrim : trimEndMatches '/' e.text = String.ofList ("https://".toList ++ e.authority) :=
    trimEndMatches_replicate hlast e.slashes
  have hdevice : "/3/device/".toList = '/' :: "3/device/".toList := by decide
  simp only [ApnsClient.requestUrl, ApnsClient.newWithHttp, htrim, String.toList_append,
    String.toList_ofList, hdevice, List.append_assoc, List.cons_append]

/-- What is left of the token after the parser has dropped what it drops. -/
theorem parse_requestUrl (e : Endpoint) (token : String) :
    Url.parse authorityOf ((ApnsClient.newWithHttp e.text).requestUrl token).toList =
      (authorityOf e.authority).map fun a =>
        let result := Url.pathState ["3".toList, "device".toList] []
          (Url.withoutNewlines (Url.stripEnd token.toList))
        ⟨a, result.1, result.2.1, result.2.2⟩ := by
  have hsplit : "3/device/".toList ++ token.toList = "3/device".toList ++ '/' :: token.toList := by
    have hslash : "3/device/".toList = "3/device".toList ++ ['/'] := by decide
    rw [hslash, List.append_assoc, List.singleton_append]
  have hdevice : Url.withoutNewlines "3/device".toList = "3/device".toList := by decide
  have hpath (input : List Char) : Url.pathState [] [] ("3/device".toList ++ '/' :: input) =
      Url.pathState ["3".toList, "device".toList] [] input := by
    rfl
  have hnewlines (input : List Char) :
      Url.withoutNewlines ('/' :: input) = '/' :: Url.withoutNewlines input :=
    List.filter_cons_of_pos (by decide)
  rw [toList_requestUrl, Url.parse_https e.nonempty fun _ => e.clean_of_mem, hsplit,
    Url.stripEnd_append (by decide), Url.withoutNewlines_append, hdevice, hnewlines, hpath]

theorem utf8ByteSize_le_cost (s : String) : s.utf8ByteSize ≤ (s.toList.map Url.cost).sum := by
  rw [← String.utf8Len_toList]
  induction s.toList with
  | nil => simp
  | cons c cs ih =>
    have hc := Url.utf8Size_le_cost c
    simp only [String.utf8Len_cons, List.map_cons, List.sum_cons]
    omega

end Request

section Segments

variable {segment text : List Char}

/-- Only the text itself can spell it in a segment that comes from what is left of it. -/
theorem oneSegment_of_encodedAs (hlong : 16 ≤ (token.toList.map Url.cost).sum)
    (hmem : segment ∈ (Url.pathState ["3".toList, "device".toList] []
      (Url.withoutNewlines (Url.stripEnd token.toList))).1)
    (h : Url.EncodedAs token.toList segment) : isOneSegment token = true := by
  have hstrip := Url.stripEnd_sublist token.toList
  have hnewlines : (Url.withoutNewlines (Url.stripEnd token.toList)).Sublist
      (Url.stripEnd token.toList) := List.filter_sublist
  have hnames : ["3".toList, "device".toList].all (fun name => decide (name.length ≤ 6) &&
      name.all fun x => !Url.pathSet x && !Url.isSlash x) = true := by decide
  have hnil : ∀ c ∈ ([] : List Char), Url.endsAuthority c = false := by simp
  rcases Url.mem_pathState hnil hmem with hname | rfl | ⟨part, hsub, hends, rfl⟩
  · have hplain := List.all_eq_true.mp hnames segment hname
    simp only [Bool.and_eq_true, decide_eq_true_eq, List.all_eq_true, Bool.not_eq_true'] at hplain
    have hcost := h.cost_le hplain.2
    omega
  · have hcost := h.cost_le (by simp)
    rw [List.length_nil] at hcost
    omega
  · rw [List.nil_append] at hsub
    have hslash : ∀ c ∈ part, Url.isSlash c = false := by
      intro c hc
      have hend := hends c hc
      simp only [Url.endsAuthority, Bool.or_eq_false_iff] at hend
      exact hend.1.1
    obtain rfl := Url.eq_of_encodedAs_flatMap h hslash (hsub.trans (hnewlines.trans hstrip))
    have hstripped : Url.stripEnd token.toList = token.toList :=
      hstrip.antisymm (hsub.trans hnewlines)
    have hkept : Url.withoutNewlines token.toList = token.toList := by
      rw [hstripped] at hsub hnewlines
      exact hnewlines.antisymm hsub
    refine isOneSegment_iff.mpr ⟨fun c hc => ?_, Url.stripEnd_eq_iff.mp hstripped⟩
    exact ⟨hends c hc, Url.withoutNewlines_eq_iff.mp hkept c hc⟩

end Segments

/-- The token of a registration reaches its device exactly when it is one segment of a path, or the
endpoint itself has no authority that a URL may have. -/
theorem delivers_iff (authorityOf : List Char → Option A) (e : Endpoint) (r : RegisterTokenRequest)
    (h : r.validate = true) :
    Delivers authorityOf e r.pushToken ↔
      authorityOf e.authority = none ∨ isOneSegment r.pushToken = true := by
  have hlong : 16 ≤ (r.pushToken.toList.map Url.cost).sum := by
    have hvalid : isPushToken r.pushToken = true := by
      simp only [RegisterTokenRequest.validate, Bool.and_eq_true] at h
      exact h.1.1.2
    have hsize := utf8ByteSize_le_cost r.pushToken
    simp only [isPushToken, lengthWithin, Bool.and_eq_true, decide_eq_true_eq] at hvalid
    omega
  unfold Delivers
  rw [parse_requestUrl]
  cases ha : authorityOf e.authority with
  | none => simp
  | some a =>
    simp only [Option.map_some, Option.some.injEq, reduceCtorEq, false_or]
    constructor
    · intro hall
      obtain ⟨-, ⟨segment, hpath, hencoded⟩, -, -⟩ := hall _ rfl
      refine oneSegment_of_encodedAs hlong ?_ hencoded
      dsimp only at hpath
      rw [hpath]
      simp
    · rintro hsegment url rfl
      obtain ⟨hclean, hlast⟩ := isOneSegment_iff.mp hsegment
      have hends : ∀ c ∈ r.pushToken.toList, Url.endsAuthority c = false :=
        fun c hc => (hclean c hc).1
      have hslash : ∀ c ∈ r.pushToken.toList, Url.isSlash c = false := by
        intro c hc
        have hend := hends c hc
        simp only [Url.endsAuthority, Bool.or_eq_false_iff] at hend
        exact hend.1.1
      have hkept : Url.withoutNewlines (Url.stripEnd r.pushToken.toList) = r.pushToken.toList := by
        rw [Url.stripEnd_eq_iff.mpr hlast]
        exact Url.withoutNewlines_eq_iff.mpr fun c hc => (hclean c hc).2
      have hlength : 6 < (r.pushToken.toList.flatMap (Url.percentEncode Url.pathSet)).length := by
        rw [Url.length_flatMap_percentEncode hslash]
        omega
      have hstate := Url.pathState_chunk ["3".toList, "device".toList] [] hends
      rw [List.nil_append, Url.closeSegment_of_long hlength] at hstate
      rw [hkept, hstate]
      exact ⟨rfl, ⟨_, rfl, Url.encodedAs_percentEncode Url.pathSet _⟩, rfl, rfl⟩

section Tokens

private def apple : Endpoint := ⟨"api.push.apple.com".toList, by decide, by decide, 0⟩

/-- The authority as it is written. -/
private def written (authority : List Char) : Option (List Char) := some authority

private def registration (pushToken : String) : RegisterTokenRequest :=
  ⟨"daemon-0123456789", .apns, pushToken, "nonce-0123456789", 1⟩

theorem delivers_hex : (registration "0123456789abcdef").validate = true ∧
    Delivers written apple "0123456789abcdef" := by
  have hvalid : (registration "0123456789abcdef").validate = true := by decide
  exact ⟨hvalid, (delivers_iff written apple _ hvalid).mpr (.inr (by decide))⟩

/-- A token that leaves the devices, with a query. -/
theorem delivers_elsewhere : (registration "../../0123456789?x").validate = true ∧
    (∃ url, Url.parse written
        ((ApnsClient.newWithHttp apple.text).requestUrl "../../0123456789?x").toList = some url ∧
      url.path = ["0123456789".toList] ∧ url.query = some "x".toList) ∧
    ¬ Delivers written apple "../../0123456789?x" := by
  have hparse : Url.parse written
      ((ApnsClient.newWithHttp apple.text).requestUrl "../../0123456789?x").toList = _ :=
    parse_requestUrl apple "../../0123456789?x"
  refine ⟨by decide, ⟨_, hparse, by decide, by decide⟩, fun h => ?_⟩
  obtain ⟨-, -, hquery, -⟩ := h _ hparse
  exact absurd hquery (by decide)

end Tokens

end Shelly.Relay
