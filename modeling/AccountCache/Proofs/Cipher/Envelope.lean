import AccountCache.MasterKey

namespace AccountCache

namespace Cipher.ChaCha20

variable {key nonce : Bytes}

theorem length_wordBytes (w : UInt32) : (wordBytes w).length = 4 :=
  rfl

-- Every word comes to four bytes, whatever the rounds make of it.
theorem length_flatMap_wordBytes (ws : List UInt32) :
    (ws.flatMap wordBytes).length = 4 * ws.length := by
  induction ws
  case nil => rfl
  case cons w ws ih =>
    rw [List.flatMap_cons, List.length_append, length_wordBytes, ih, List.length_cons]
    omega

theorem length_block (counter : UInt32) : (block key counter nonce).length = 64 := by
  rw [block, length_flatMap_wordBytes, Vector.length_toList]

theorem length_blocks (is : List Nat) (counter : Nat) :
    (is.flatMap fun i => block key (counter + i).toUInt32 nonce).length = 64 * is.length := by
  induction is
  case nil => rfl
  case cons i is ih =>
    rw [List.flatMap_cons, List.length_append, length_block, ih, List.length_cons]
    omega

theorem length_stream (counter length : Nat) :
    (stream key nonce counter length).length = length := by
  rw [stream, List.length_take, length_blocks, List.length_range]
  omega

end Cipher.ChaCha20

namespace Cipher.Poly1305

theorem length_numberBytes (length n : Nat) : (numberBytes length n).length = length := by
  induction length generalizing n
  case zero => rfl
  case succ _ ih => rw [numberBytes, List.length_cons, ih]

theorem length_tag (key message : Bytes) : (tag key message).length = 16 :=
  length_numberBytes ..

end Cipher.Poly1305

namespace Cipher.Envelope

variable {key nonce associated plain sealed sealed₁ sealed₂ : Bytes} {fault : Fault}

theorem length_tag (ciphertext : Bytes) :
    (tag key nonce associated ciphertext).length = tagLength :=
  Poly1305.length_tag ..

theorem length_combine (text : Bytes) : (combine key nonce text).length = text.length := by
  rw [combine, List.length_zipWith, ChaCha20.length_stream, Nat.min_self]

theorem zipWith_xor_cancel {stream text : Bytes} (h : text.length = stream.length) :
    List.zipWith (· ^^^ ·) (List.zipWith (· ^^^ ·) text stream) stream = text := by
  induction text generalizing stream
  case nil => rfl
  case cons b text ih =>
    cases stream
    case nil => contradiction
    case cons s stream =>
      have hb : b ^^^ s ^^^ s = b := by rw [UInt8.xor_assoc, UInt8.xor_self, UInt8.xor_zero]
      simp only [List.zipWith_cons_cons, hb, ih (Nat.succ.inj h)]

-- The stream depends on the length of a text alone, so it is the same both times.
theorem combine_combine (text : Bytes) : combine key nonce (combine key nonce text) = text := by
  rw [combine, length_combine]
  exact zipWith_xor_cancel (ChaCha20.length_stream ..).symm

theorem wrap_of_admits (h : admits plain.length) : wrap key nonce associated plain =
    .ok (nonce ++ combine key nonce plain ++
      tag key nonce associated (combine key nonce plain)) :=
  if_pos h

theorem admits_of_wrap (h : wrap key nonce associated plain = .ok sealed) :
    admits plain.length := by
  by_cases ha : admits plain.length
  case pos => exact ha
  case neg =>
    rw [wrap, if_neg ha] at h
    contradiction

theorem eq_of_wrap (h : wrap key nonce associated plain = .ok sealed) :
    sealed = nonce ++ (combine key nonce plain ++
      tag key nonce associated (combine key nonce plain)) := by
  rw [wrap_of_admits <| admits_of_wrap h] at h
  rw [← List.append_assoc]
  exact (Except.ok.inj h).symm

theorem length_of_wrap (h : wrap key nonce associated plain = .ok sealed) :
    sealed.length = nonce.length + plain.length + tagLength := by
  rw [eq_of_wrap h, List.length_append, List.length_append, length_tag, length_combine]
  omega

-- Opening: the parts of a sealed text, by its length.

def ciphertext (sealed : Bytes) : Bytes :=
  (sealed.drop nonceLength).take (sealed.length - nonceLength - tagLength)

def trailer (sealed : Bytes) : Bytes :=
  sealed.drop (sealed.length - tagLength)

theorem parts (h : nonceLength + tagLength ≤ sealed.length) :
    sealed.take nonceLength ++ (ciphertext sealed ++ trailer sealed) = sealed := by
  have ht : trailer sealed =
      (sealed.drop nonceLength).drop (sealed.length - nonceLength - tagLength) := by
    rw [trailer, List.drop_drop]
    congr 1
    omega
  rw [ht, ciphertext, List.take_append_drop, List.take_append_drop]

theorem unwrap_of_short (h : sealed.length < nonceLength) :
    unwrap key associated sealed = .error .tooShort :=
  if_pos h

theorem unwrap_of_untagged (h : ¬sealed.length < nonceLength)
    (ht : sealed.length < nonceLength + tagLength) :
    unwrap key associated sealed = .error .refused := by
  have hd : (sealed.drop nonceLength).length < tagLength := by
    rw [List.length_drop]
    omega
  rw [unwrap, if_neg h]
  exact if_pos hd

theorem unwrap_of_long (h : nonceLength + tagLength ≤ sealed.length) :
    unwrap key associated sealed =
      if admits (ciphertext sealed).length ∧ trailer sealed =
          tag key (sealed.take nonceLength) associated (ciphertext sealed)
      then .ok (combine key (sealed.take nonceLength) (ciphertext sealed))
      else .error .refused := by
  have hn : ¬sealed.length < nonceLength := by omega
  have hd : ¬(sealed.drop nonceLength).length < tagLength := by
    rw [List.length_drop]
    omega
  have ht : (sealed.drop nonceLength).drop ((sealed.drop nonceLength).length - tagLength) =
      trailer sealed := by
    rw [trailer, List.drop_drop, List.length_drop]
    congr 1
    omega
  rw [unwrap, if_neg hn]
  simp only [if_neg hd, ht]
  rw [List.length_drop]
  rfl

theorem unwrap_cases (key associated sealed : Bytes) :
    (sealed.length < nonceLength ∧ unwrap key associated sealed = .error .tooShort) ∨
    (nonceLength ≤ sealed.length ∧ unwrap key associated sealed = .error .refused) ∨
    (nonceLength + tagLength ≤ sealed.length ∧ admits (ciphertext sealed).length ∧
      trailer sealed = tag key (sealed.take nonceLength) associated (ciphertext sealed) ∧
      unwrap key associated sealed =
        .ok (combine key (sealed.take nonceLength) (ciphertext sealed))) := by
  by_cases hn : sealed.length < nonceLength
  case pos => exact .inl ⟨hn, unwrap_of_short hn⟩
  by_cases ht : sealed.length < nonceLength + tagLength
  case pos => exact .inr <| .inl ⟨Nat.not_lt.mp hn, unwrap_of_untagged hn ht⟩
  have hl := Nat.not_lt.mp ht
  by_cases hc : admits (ciphertext sealed).length ∧ trailer sealed =
      tag key (sealed.take nonceLength) associated (ciphertext sealed)
  case pos => exact .inr <| .inr ⟨hl, hc.1, hc.2, (unwrap_of_long hl).trans <| if_pos hc⟩
  case neg =>
    exact .inr <| .inl ⟨Nat.not_lt.mp hn, (unwrap_of_long hl).trans <| if_neg hc⟩

theorem wrap_of_unwrap (h : unwrap key associated sealed = .ok plain) :
    wrap key (sealed.take nonceLength) associated plain = .ok sealed := by
  obtain ⟨-, hu⟩ | ⟨-, hu⟩ | ⟨hl, ha, ht, hu⟩ := unwrap_cases key associated sealed
  case inl => rw [hu] at h; contradiction
  case inr.inl => rw [hu] at h; contradiction
  case inr.inr =>
    rw [hu] at h
    cases h
    rw [wrap_of_admits (by rwa [length_combine]), combine_combine, ← ht,
      List.append_assoc, parts hl]

theorem unwrap_of_wrap (hn : nonce.length = nonceLength)
    (h : wrap key nonce associated plain = .ok sealed) :
    unwrap key associated sealed = .ok plain := by
  have hl : sealed.length = nonceLength + plain.length + tagLength := by
    rw [length_of_wrap h, hn]
  have hs := eq_of_wrap h
  have hnonce : sealed.take nonceLength = nonce := by
    rw [hs, ← hn, List.take_left]
  have hc : ciphertext sealed = combine key nonce plain := by
    have hk : sealed.length - nonceLength - tagLength = (combine key nonce plain).length := by
      rw [hl, length_combine]
      omega
    rw [ciphertext, hk, hs, ← hn, List.drop_left, List.take_left]
  have ht : trailer sealed = tag key nonce associated (combine key nonce plain) := by
    have hp : sealed.take nonceLength ++ _ = sealed := parts (by omega)
    rw [hnonce, hc] at hp
    exact List.append_cancel_left (List.append_cancel_left (hp.trans hs))
  rw [unwrap_of_long (by omega), hnonce, hc, ht, length_combine, combine_combine]
  exact if_pos ⟨admits_of_wrap h, rfl⟩

theorem length_of_unwrap (h : unwrap key associated sealed = .ok plain) :
    nonceLength + tagLength ≤ sealed.length ∧
      plain.length = sealed.length - (nonceLength + tagLength) := by
  have hl := length_of_wrap <| wrap_of_unwrap h
  rw [List.length_take] at hl
  have ht : 0 < tagLength := by decide
  omega

theorem fault_of_unwrap (h : unwrap key associated sealed = .error fault) :
    fault = if sealed.length < nonceLength then .tooShort else .refused := by
  obtain ⟨hl, hu⟩ | ⟨hl, hu⟩ | ⟨-, -, -, hu⟩ := unwrap_cases key associated sealed
  case inl => rw [hu] at h; cases h; rw [if_pos hl]
  case inr.inl => rw [hu] at h; cases h; rw [if_neg <| Nat.not_lt.mpr hl]
  case inr.inr => rw [hu] at h; contradiction

theorem sealed_eq_of_unwrap (hn : sealed₁.take nonceLength = sealed₂.take nonceLength)
    (h₁ : unwrap key associated sealed₁ = .ok plain)
    (h₂ : unwrap key associated sealed₂ = .ok plain) : sealed₁ = sealed₂ := by
  have hw₁ := wrap_of_unwrap h₁
  rw [hn, wrap_of_unwrap h₂] at hw₁
  exact (Except.ok.inj hw₁).symm

end Cipher.Envelope

namespace MasterKey

open Cipher

variable {key nonce associated plain sealed : Bytes} {call : Nat}

theorem xchacha_wrap : (xchacha key).wrap call nonce associated plain =
    (Envelope.wrap key nonce associated plain).mapError (·.report) :=
  rfl

theorem xchacha_unwrap : (xchacha key).unwrap call associated sealed =
    (Envelope.unwrap key associated sealed).mapError (·.report) :=
  rfl

theorem mapError_eq_ok_iff {e : Except Envelope.Fault Bytes} {bs : Bytes} :
    e.mapError (·.report) = .ok bs ↔ e = .ok bs := by
  cases e
  case error => exact ⟨(nomatch ·), (nomatch ·)⟩
  case ok => exact ⟨fun h => congrArg _ <| Except.ok.inj h, fun h => congrArg _ <| Except.ok.inj h⟩

theorem xchacha_wrap_eq_ok_iff : (xchacha key).wrap call nonce associated plain = .ok sealed ↔
    Envelope.wrap key nonce associated plain = .ok sealed := by
  rw [xchacha_wrap, mapError_eq_ok_iff]

theorem xchacha_unwrap_eq_ok_iff : (xchacha key).unwrap call associated sealed = .ok plain ↔
    Envelope.unwrap key associated sealed = .ok plain := by
  rw [xchacha_unwrap, mapError_eq_ok_iff]

theorem xchacha_unwrap_total (key : Bytes) (call : Nat) (associated sealed : Bytes) :
    (∃ plain, (xchacha key).unwrap call associated sealed = .ok plain) ∨
      (xchacha key).unwrap call associated sealed = .error (.titled .crypto <|
        if sealed.length < 24 then "sealed key ciphertext too short" else "aead::Error") := by
  rw [xchacha_unwrap]
  cases hu : Envelope.unwrap key associated sealed
  case ok plain => exact .inl ⟨plain, rfl⟩
  case error fault =>
    rw [Envelope.fault_of_unwrap hu]
    exact .inr <| congrArg (fun text => Except.error (Report.titled .crypto text))
      (apply_ite Envelope.Fault.message ..)

-- Sealing and opening under one key and one associated data, whichever calls of the key they are:
-- what is sealed opens to the same text, nothing else opens, and what does not open says why.
theorem xchacha_exact (key associated : Bytes) :
    (xchacha key).nonceLength = 24 ∧
    (∀ n m nonce plain, nonce.length = 24 → Envelope.admits plain.length →
      let ciphertext := Envelope.combine key nonce plain
      let sealed := nonce ++ ciphertext ++ Envelope.tag key nonce associated ciphertext
      (xchacha key).wrap n nonce associated plain = .ok sealed ∧
        ciphertext.length = plain.length ∧ sealed.length = 24 + plain.length + 16 ∧
        (xchacha key).unwrap m associated sealed = .ok plain) ∧
    (∀ n m sealed plain, (xchacha key).unwrap m associated sealed = .ok plain →
      40 ≤ sealed.length ∧ plain.length = sealed.length - 40 ∧
        (xchacha key).wrap n (sealed.take 24) associated plain = .ok sealed) ∧
    (∀ m sealed, (∃ plain, (xchacha key).unwrap m associated sealed = .ok plain) ∨
      (xchacha key).unwrap m associated sealed = .error (.titled .crypto <|
        if sealed.length < 24 then "sealed key ciphertext too short" else "aead::Error")) ∧
    (∀ m₁ m₂ sealed₁ sealed₂ plain, sealed₁.take 24 = sealed₂.take 24 →
      (xchacha key).unwrap m₁ associated sealed₁ = .ok plain →
      (xchacha key).unwrap m₂ associated sealed₂ = .ok plain → sealed₁ = sealed₂) := by
  refine ⟨rfl, fun n m nonce plain hn ha => ?sealing, fun n m sealed plain h => ?opening,
    fun m sealed => xchacha_unwrap_total key m associated sealed,
    fun m₁ m₂ sealed₁ sealed₂ plain hn h₁ h₂ => ?injective⟩
  case sealing =>
    have hw : Envelope.wrap key nonce associated plain = _ := Envelope.wrap_of_admits ha
    have hl := Envelope.length_of_wrap hw
    rw [hn] at hl
    exact ⟨xchacha_wrap_eq_ok_iff.mpr hw, Envelope.length_combine plain, hl,
      xchacha_unwrap_eq_ok_iff.mpr <| Envelope.unwrap_of_wrap hn hw⟩
  case opening =>
    have hu := xchacha_unwrap_eq_ok_iff.mp h
    have hl := Envelope.length_of_unwrap hu
    exact ⟨hl.1, hl.2, xchacha_wrap_eq_ok_iff.mpr <| Envelope.wrap_of_unwrap hu⟩
  case injective =>
    have hu₁ := xchacha_unwrap_eq_ok_iff.mp h₁
    have hu₂ := xchacha_unwrap_eq_ok_iff.mp h₂
    exact Envelope.sealed_eq_of_unwrap hn hu₁ hu₂

theorem xchacha_exact_abc :
    let key : Bytes := List.replicate 32 0x42
    let nonce : Bytes := List.replicate 24 7
    let ciphertext := Envelope.combine key nonce [97, 98, 99]
    nonce.length = 24 ∧ Envelope.admits 3 ∧
      (xchacha key).unwrap 1 [1] (nonce ++ ciphertext ++ Envelope.tag key nonce [1] ciphertext) =
        .ok [97, 98, 99] := by
  intro key nonce ciphertext
  have hn : nonce.length = 24 := List.length_replicate
  have ha : Envelope.admits 3 := by decide
  have hs := (xchacha_exact key [1]).2.1 1 1 nonce [97, 98, 99] hn ha
  exact ⟨hn, ha, hs.2.2.2⟩

end MasterKey
end AccountCache
