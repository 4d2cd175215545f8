import Shelly.Framework.Codec
import Shelly.Protocol.Signing

namespace Shelly

/-- A field behind its length in eight bytes. -/
def fieldCodec : Codec (List UInt8) := .list (.uintBe 8) .byte

theorem u64ToBeBytes_eq (n : Nat) : u64ToBeBytes n = (leBytes 8 n).reverse := by
  simp [u64ToBeBytes, leBytes, List.range, List.range.loop, Nat.div_div_eq_div_mul]

theorem encode_u64 {n : Nat} (h : n < 2 ^ 64) :
    (Codec.uintBe 8).encode n = some (u64ToBeBytes n) := by
  rw [u64ToBeBytes_eq]
  exact if_pos h

theorem length_u64ToBeBytes (n : Nat) : (u64ToBeBytes n).length = 8 := by simp [u64ToBeBytes]

theorem encode_field {field : List UInt8} (h : field.length < 2 ^ 64) :
    fieldCodec.encode field = some (lengthPrefixed field) := by
  simp only [fieldCodec, Codec.list, encode_u64 h, Codec.encodeList_byte, Option.bind_some,
    Option.map_some, lengthPrefixed]

theorem encodeList_field {fields : List (List UInt8)}
    (h : ∀ field ∈ fields, field.length < 2 ^ 64) :
    fieldCodec.encodeList fields = some (fields.flatMap lengthPrefixed) := by
  induction fields with
  | nil => rfl
  | cons field fields ih =>
    have hfield := encode_field (h field List.mem_cons_self)
    have hfields := ih fun other hother => h other (List.mem_cons_of_mem field hother)
    simp only [Codec.encodeList, hfield, hfields, Option.bind_some, Option.map_some,
      List.flatMap_cons]

theorem u64ToBeBytes_inj {n m : Nat} (hn : n < 2 ^ 64) (hm : m < 2 ^ 64)
    (h : u64ToBeBytes n = u64ToBeBytes m) : n = m :=
  (Codec.encode_append_inj (encode_u64 hn) (encode_u64 hm)
    (congrArg (· ++ ([] : List UInt8)) h)).1

theorem bytesOf_inj {s t : String} (h : bytesOf s = bytesOf t) : s = t := by
  have hread := textOfUtf8_utf8Bytes s
  rw [show utf8Bytes s = utf8Bytes t from h, textOfUtf8_utf8Bytes t] at hread
  exact (Option.some.inj hread).symm

theorem length_bytesOf (s : String) : (bytesOf s).length = s.utf8ByteSize := length_utf8Bytes s

section

variable {sha256 : List UInt8 → List UInt8} {audience method path nonce : String}
  {audience' method' path' nonce' : String} {body body' : List UInt8} {tsMs tsMs' : Nat}

/-- Texts and times that fit the lengths of a canonical request. -/
def FitsV2 (audience method path nonce : String) (tsMs : Nat) : Prop :=
  audience.utf8ByteSize < 2 ^ 64 ∧ method.utf8ByteSize < 2 ^ 64 ∧ path.utf8ByteSize < 2 ^ 64 ∧
    nonce.utf8ByteSize < 2 ^ 64 ∧ tsMs < 2 ^ 64

variable (body) in
theorem encode_canonicalRequestV2 (hsha : ∀ body, (sha256 body).length = 32)
    (h : FitsV2 audience method path nonce tsMs) :
    fieldCodec.encodeList [bytesOf v2Domain, bytesOf audience, bytesOf method, bytesOf path,
      sha256 body, bytesOf nonce, u64ToBeBytes tsMs] =
      some (canonicalRequestV2 sha256 audience method path body nonce tsMs) := by
  obtain ⟨haudience, hmethod, hpath, hnonce, -⟩ := h
  have hdomain : v2Domain.utf8ByteSize < 2 ^ 64 := by decide
  apply encodeList_field
  intro field hfield
  simp only [List.mem_cons, List.not_mem_nil, or_false] at hfield
  rcases hfield with rfl | rfl | rfl | rfl | rfl | rfl | rfl
  all_goals simp only [length_bytesOf, hsha, length_u64ToBeBytes]
  all_goals omega

/-- Equal bytes are signed for equal requests only. -/
theorem canonicalRequestV2_injective (hsha : ∀ body, (sha256 body).length = 32)
    (h : FitsV2 audience method path nonce tsMs) (h' : FitsV2 audience' method' path' nonce' tsMs')
    (heq : canonicalRequestV2 sha256 audience method path body nonce tsMs =
      canonicalRequestV2 sha256 audience' method' path' body' nonce' tsMs') :
    audience = audience' ∧ method = method' ∧ path = path' ∧ sha256 body = sha256 body' ∧
      nonce = nonce' ∧ tsMs = tsMs' := by
  have hencode := encode_canonicalRequestV2 body hsha h
  have hencode' := encode_canonicalRequestV2 body' hsha h'
  rw [← heq] at hencode'
  have hfields := Codec.encodeList_inj hencode hencode' rfl
  simp only [List.cons.injEq, and_true, true_and] at hfields
  obtain ⟨haudience, hmethod, hpath, hbody, hnonce, hts⟩ := hfields
  exact ⟨bytesOf_inj haudience, bytesOf_inj hmethod, bytesOf_inj hpath, hbody, bytesOf_inj hnonce,
    u64ToBeBytes_inj h.2.2.2.2 h'.2.2.2.2 hts⟩

end

/-- The digest of the empty body. -/
def emptyDigest : List UInt8 :=
  [0xe3, 0xb0, 0xc4, 0x42, 0x98, 0xfc, 0x1c, 0x14, 0x9a, 0xfb, 0xf4, 0xc8, 0x99, 0x6f, 0xb9, 0x24,
    0x27, 0xae, 0x41, 0xe4, 0x64, 0x9b, 0x93, 0x4c, 0xa4, 0x95, 0x99, 0x1b, 0x78, 0x52, 0xb8, 0x55]

private theorem fits_push : FitsV2 "https://relay.shelly.sh" "POST" "/v1/push" "nonce" 42 := by
  refine ⟨?_, ?_, ?_, ?_, ?_⟩ <;> decide

theorem canonicalRequestV2_injective_push :
    FitsV2 "https://relay.shelly.sh" "POST" "/v1/push" "nonce" 42 ∧
      "https://relay.shelly.sh" = "https://relay.shelly.sh" ∧ "POST" = "POST" ∧
      "/v1/push" = "/v1/push" ∧ emptyDigest = emptyDigest ∧ "nonce" = "nonce" ∧ 42 = 42 :=
  ⟨fits_push, @canonicalRequestV2_injective (fun _ => emptyDigest) _ _ _ _ _ _ _ _ [] [] _ _
    (fun _ => by decide) fits_push fits_push rfl⟩

end Shelly
