import Butterfly.Crypto

/-!
# The padding of the encrypted envelope

`DecAes256CbcSha512` takes the length of the padding from the last byte of what it has
deciphered and cuts the message there.  It bounds that length from above only, and never
looks at the other bytes of the padding.
-/

namespace Butterfly.Crypto

open Foundation

variable {L : OpenSsl} {key c : List UInt8}

/-! ## The deciphered body -/

def vector (c : List UInt8) : Block := Vector.ofFn fun i => c.getD i 0

def body (L : OpenSsl) (key c : List UInt8) : List UInt8 :=
  ofBlocks ((L.aes256 key).cbcEnc (vector c) (toBlocks 16 (c.length / 16 - 1) (c.drop 16)))

def lastByte (bytes : List UInt8) : Nat := (bytes.getLast?.getD 0).toNat

def content (bytes : List UInt8) : List UInt8 :=
  (bytes.drop 64).take (bytes.length - 64 - lastByte bytes)

def padding (bytes : List UInt8) : List UInt8 := bytes.drop (bytes.length - lastByte bytes)

/-- Between one and sixteen bytes, all equal to their number. -/
def ValidPadding (p : List UInt8) : Prop :=
  1 ≤ p.length ∧ p.length ≤ 16 ∧ ∀ b ∈ p, b.toNat = p.length

/-- Whole blocks whose body is digest, message and padding. -/
structure Formatted (L : OpenSsl) (key c message : List UInt8) : Prop where
  blocks : c.length % 16 = 0
  long : 96 ≤ c.length
  padded : ∃ p, ValidPadding p ∧ body L key c = L.sha512 message ++ message ++ p

theorem length_body (L : OpenSsl) (key : List UInt8) (hblocks : c.length % 16 = 0)
    (hlong : 96 ≤ c.length) : (body L key c).length = c.length - 16 := by
  rw [body, length_ofBlocks, BlockCipher.length_cbcEnc, length_toBlocks]
  omega

/-! ## What decryption accepts -/

/-- What the function checks: the last byte and the digest. -/
structure LooksSealed (L : OpenSsl) (key c : List UInt8) : Prop where
  blocks : c.length % 16 = 0
  long : 96 ≤ c.length
  small : lastByte (body L key c) ≤ 16
  digest : (body L key c).take 64 = L.sha512 (content (body L key c))

theorem last_body (hguard : lengthGuard key c = true) :
    ∃ padLen : UInt8, (clearResult L key c).1[blocksLen c - 1]? = some padLen ∧
      lastByte (body L key c) = padLen.toNat ∧
      (padLen ≤ 16 → (clearPayloadLen c padLen).toNat =
        (body L key c).length - 64 - lastByte (body L key c)) := by
  obtain ⟨-, hlong, hblocks⟩ := lengthGuard_iff.mp hguard
  obtain ⟨padLen, hpad, hrange⟩ := payload_in_range L hguard
  have hlength := length_body L key hblocks hlong
  have hbody : (clearResult L key c).1 = body L key c := by
    rw [clearResult_eq L hguard]
    rfl
  have hlast : lastByte (body L key c) = padLen.toNat := by
    rw [hbody] at hpad
    have hindex : blocksLen c - 1 = (body L key c).length - 1 := by rw [hlength]; rfl
    rw [lastByte, List.getLast?_eq_getElem?, ← hindex, hpad, Option.getD_some]
  refine ⟨padLen, hpad, hlast, fun hsmall => ?_⟩
  rw [hlast, hlength, clearPayloadLen, blocksLen, aesIvSize, sha512Size]
  omega

theorem decAes256CbcSha512_looksSealed (hkey : key.length = 32) (h : LooksSealed L key c)
    (clear : List UInt8) :
    decAes256CbcSha512 L key c clear = some (true, content (body L key c) ++ clear) := by
  have hguard : lengthGuard key c = true := lengthGuard_iff.mpr ⟨hkey, h.long, h.blocks⟩
  obtain ⟨padLen, hpad, hlast, hpayload⟩ := last_body (L := L) hguard
  have hsmall : padLen ≤ 16 := UInt8.le_iff_toNat_le.mpr (hlast ▸ h.small)
  have hbody : (clearResult L key c).1 = body L key c := by
    rw [clearResult_eq L hguard]
    rfl
  rw [decAes256CbcSha512_eq L clear hguard hpad hsmall]
  simp only [hbody, hpayload hsmall, sha512Size]
  exact if_pos h.digest

theorem decAes256CbcSha512_refused (h : ¬LooksSealed L key c) (clear : List UInt8) :
    decAes256CbcSha512 L key c clear = some (false, clear) := by
  cases hguard : lengthGuard key c with
  | false => simp [decAes256CbcSha512, hguard]
  | true =>
      obtain ⟨-, hlong, hblocks⟩ := lengthGuard_iff.mp hguard
      obtain ⟨padLen, hpad, hlast, hpayload⟩ := last_body (L := L) hguard
      by_cases hsmall : padLen ≤ 16
      · have hbody : (clearResult L key c).1 = body L key c := by
          rw [clearResult_eq L hguard]
          rfl
        rw [decAes256CbcSha512_eq L clear hguard hpad hsmall]
        simp only [hbody, hpayload hsmall, sha512Size]
        refine if_neg fun hdigest => h ⟨hblocks, hlong, ?_, hdigest⟩
        rw [hlast]
        exact UInt8.le_iff_toNat_le.mp hsmall
      · have hbig : padLen > 16 := UInt8.not_le.mp hsmall
        simp [decAes256CbcSha512, hguard, length_clearResult L hguard,
          cipherFinal_clearResult L hguard, hpad, hbig]

theorem accepts_iff (hkey : key.length = 32) (message clear : List UInt8) :
    decAes256CbcSha512 L key c clear = some (true, message ++ clear) ↔
      LooksSealed L key c ∧ content (body L key c) = message := by
  by_cases h : LooksSealed L key c
  · rw [decAes256CbcSha512_looksSealed hkey h]
    simp [h]
  · rw [decAes256CbcSha512_refused h]
    simp [h]

/-! ## Digest, message and padding -/

theorem parts {sha message p : List UInt8} (hsha : sha.length = 64)
    (hlast : lastByte (sha ++ message ++ p) = p.length) :
    (sha ++ message ++ p).take 64 = sha ∧ content (sha ++ message ++ p) = message ∧
      padding (sha ++ message ++ p) = p := by
  have hlength : (sha ++ message ++ p).length = 64 + message.length + p.length := by
    simp [hsha, Nat.add_assoc]
  refine ⟨?_, ?_, ?_⟩
  · rw [List.append_assoc, List.take_left' hsha]
  · rw [content, hlast, hlength, List.append_assoc, List.drop_left' hsha]
    exact List.take_left' (by omega)
  · rw [padding, hlast, hlength]
    exact List.drop_left' (by simp [hsha])

theorem parts_append {bytes : List UInt8} (hlong : 80 ≤ bytes.length)
    (hsmall : lastByte bytes ≤ 16) :
    bytes = bytes.take 64 ++ content bytes ++ padding bytes ∧
      (padding bytes).length = lastByte bytes := by
  refine ⟨?_, ?_⟩
  · have hdrop : padding bytes = (bytes.drop 64).drop (bytes.length - 64 - lastByte bytes) := by
      rw [List.drop_drop, padding]
      congr 1
      omega
    rw [hdrop, content, List.append_assoc, List.take_append_drop, List.take_append_drop]
  · rw [padding, List.length_drop]
    omega

theorem ValidPadding.last {p : List UInt8} (h : ValidPadding p) (front : List UInt8) :
    lastByte (front ++ p) = p.length := by
  obtain ⟨hpos, -, hall⟩ := h
  have hne : p ≠ [] := List.ne_nil_of_length_pos hpos
  rw [lastByte, List.getLast?_append_of_ne_nil _ hne, List.getLast?_eq_some_getLast hne,
    Option.getD_some]
  exact hall _ (List.getLast_mem hne)

theorem Formatted.looksSealed {message : List UInt8} (h : Formatted L key c message) :
    LooksSealed L key c ∧ content (body L key c) = message ∧
      ValidPadding (padding (body L key c)) := by
  obtain ⟨hblocks, hlong, p, hvalid, hbody⟩ := h
  have hlast := hvalid.last (L.sha512 message ++ message)
  obtain ⟨hdigest, hcontent, hpadding⟩ := parts (L.length_sha512 message) hlast
  rw [← hbody] at hlast hdigest hcontent hpadding
  refine ⟨⟨hblocks, hlong, hlast ▸ hvalid.2.1, ?_⟩, hcontent, hpadding ▸ hvalid⟩
  rw [hdigest, hcontent]

theorem LooksSealed.formatted (h : LooksSealed L key c)
    (hvalid : ValidPadding (padding (body L key c))) :
    Formatted L key c (content (body L key c)) := by
  have hlength := length_body L key h.blocks h.long
  have hlong := h.long
  obtain ⟨hparts, -⟩ := parts_append (show 80 ≤ (body L key c).length by omega) h.small
  refine ⟨h.blocks, h.long, _, hvalid, ?_⟩
  rw [← h.digest]
  exact hparts

theorem decides_format_iff (hkey : key.length = 32) :
    (∀ message clear : List UInt8,
      decAes256CbcSha512 L key c clear = some (true, message ++ clear) ↔
        Formatted L key c message) ↔
      (LooksSealed L key c → ValidPadding (padding (body L key c))) := by
  constructor
  · intro hdecides hlooks
    have haccepts := (accepts_iff hkey (content (body L key c)) []).mpr ⟨hlooks, rfl⟩
    exact ((hdecides _ []).mp haccepts).looksSealed.2.2
  · intro hsound message clear
    rw [accepts_iff hkey]
    constructor
    · rintro ⟨hlooks, rfl⟩
      exact hlooks.formatted (hsound hlooks)
    · intro hformatted
      exact ⟨hformatted.looksSealed.1, hformatted.looksSealed.2.1⟩

/-! ## Ciphertexts of one message -/

theorem body_sealText (hkey : key.length = 32) (iv : Block) {count : Nat} {text : List UInt8}
    (htext : text.length = 16 * count) (hlong : 80 ≤ text.length) :
    body L key (sealText L key iv count text) = text := by
  have hlength := length_sealText L key iv count text
  have hguard : lengthGuard key (sealText L key iv count text) = true := by
    rw [lengthGuard_iff, hlength]
    exact ⟨hkey, by omega, by omega⟩
  have hclear := clearResult_sealText L iv htext hguard
  rwa [clearResult_eq L hguard] at hclear

theorem sealText_accepted (hkey : key.length = 32) (iv : Block) {message p : List UInt8}
    (hp : p.length = 16 - message.length % 16)
    (hlast : lastByte (L.sha512 message ++ message ++ p) = p.length) :
    let c := sealText L key iv (message.length / 16 + 5) (L.sha512 message ++ message ++ p)
    c.take 16 = iv.toList ∧ decAes256CbcSha512 L key c [] = some (true, message) ∧
      body L key c = L.sha512 message ++ message ++ p := by
  intro c
  have hsha := L.length_sha512 message
  have htext : (L.sha512 message ++ message ++ p).length =
      16 * (message.length / 16 + 5) := by
    simp only [List.length_append, hsha, sha512Size, hp]
    omega
  have hbody : body L key c = L.sha512 message ++ message ++ p :=
    body_sealText hkey iv htext (by omega)
  have hlength : c.length = 16 + 16 * (message.length / 16 + 5) := length_sealText ..
  obtain ⟨hdigest, hcontent, -⟩ := parts hsha hlast
  have hlooks : LooksSealed L key c := by
    refine ⟨by omega, by omega, ?_, ?_⟩
    · rw [hbody, hlast, hp]
      exact Nat.sub_le _ _
    · rw [hbody, hdigest, hcontent]
  refine ⟨List.take_left' (by simp), ?_, hbody⟩
  have haccepts := (accepts_iff hkey message []).mpr ⟨hlooks, hbody ▸ hcontent⟩
  rwa [List.append_nil] at haccepts

theorem eq_of_body {c' : List UInt8} (hc : c.length % 16 = 0) (hc' : c'.length % 16 = 0)
    (hlong : 96 ≤ c.length) (hlong' : 96 ≤ c'.length) (htake : c.take 16 = c'.take 16)
    (hbody : body L key c = body L key c') : c = c' := by
  have hlength : c.length = c'.length := by
    have hsame := congrArg List.length hbody
    rw [length_body L key hc hlong, length_body L key hc' hlong'] at hsame
    omega
  have hvector : vector c = vector c' := by
    rw [← Vector.toList_inj, vector, vector, toList_first _ (by omega), toList_first _ (by omega),
      htake]
  have hblocks : toBlocks 16 (c.length / 16 - 1) (c.drop 16) =
      toBlocks 16 (c'.length / 16 - 1) (c'.drop 16) := by
    have hsealed := ofBlocks_injective (by simp [hlength]) hbody
    have hopened := congrArg ((L.aes256 key).cbcDec (vector c)) hsealed
    rwa [BlockCipher.cbcDec_cbcEnc, hvector, BlockCipher.cbcDec_cbcEnc] at hopened
  have hdrop : c.drop 16 = c'.drop 16 := by
    have hbytes := congrArg ofBlocks hblocks
    rwa [ofBlocks_toBlocks (by rw [List.length_drop]; omega),
      ofBlocks_toBlocks (by rw [List.length_drop]; omega)] at hbytes
  rw [← List.take_append_drop 16 c, ← List.take_append_drop 16 c', htake, hdrop]

theorem validPadding_pkcs7 (message : List UInt8) : ValidPadding (pkcs7 message) := by
  have hlength := length_pkcs7 message
  refine ⟨by omega, by omega, fun b hb => ?_⟩
  rw [hlength, List.eq_of_mem_replicate hb, UInt8.toNat_ofNat']
  omega

/-- Zeros and the length: what no one looks at may be anything. -/
def zeroPadding (message : List UInt8) : List UInt8 :=
  List.replicate (15 - message.length % 16) 0 ++ [UInt8.ofNat (16 - message.length % 16)]

theorem last_zeroPadding (front message : List UInt8) :
    lastByte (front ++ zeroPadding message) = (zeroPadding message).length := by
  rw [lastByte, zeroPadding, ← List.append_assoc, List.getLast?_append_of_ne_nil _ (by simp),
    List.getLast?_singleton, Option.getD_some, UInt8.toNat_ofNat', List.length_append,
    List.length_replicate, List.length_singleton]
  omega

theorem pkcs7_ne_zeroPadding {message : List UInt8} (h : message.length % 16 ≠ 15) :
    pkcs7 message ≠ zeroPadding message := by
  intro heq
  have hmem : (0 : UInt8) ∈ pkcs7 message := by
    rw [heq, zeroPadding]
    exact List.mem_append_left _ (List.mem_replicate.mpr ⟨by omega, rfl⟩)
  have hzero := (validPadding_pkcs7 message).2.2 0 hmem
  have hlength := length_pkcs7 message
  rw [UInt8.toNat_zero] at hzero
  omega

theorem padding_of_full {message : List UInt8} (hkey : key.length = 32)
    (hfull : message.length % 16 = 15)
    (h : decAes256CbcSha512 L key c [] = some (true, message)) :
    LooksSealed L key c ∧ body L key c = L.sha512 message ++ message ++ [1] := by
  rw [← List.append_nil message] at h
  obtain ⟨hlooks, hcontent⟩ := (accepts_iff hkey message []).mp h
  have hblocks := hlooks.blocks
  have hlong := hlooks.long
  have hsmall := hlooks.small
  have hlength := length_body L key hblocks hlong
  obtain ⟨hparts, hpadding⟩ := parts_append (by omega) hsmall
  rw [hlooks.digest, hcontent] at hparts
  have hsum := congrArg List.length hparts
  simp only [List.length_append, L.length_sha512, sha512Size, hlength, hpadding] at hsum
  have hone : lastByte (body L key c) = 1 := by omega
  obtain ⟨b, hb⟩ := List.length_eq_one_iff.mp (hpadding.trans hone)
  refine ⟨hlooks, ?_⟩
  rw [hb] at hparts
  rw [hparts, lastByte, List.getLast?_append_of_ne_nil _ (by simp), List.getLast?_singleton,
    Option.getD_some] at hone
  have hbyte : b = 1 := UInt8.toNat_inj.mp hone
  rw [hparts, hbyte]

theorem one_ciphertext_iff (hkey : key.length = 32) (iv : Block) (message : List UInt8) :
    (∃ c, (c.take 16 = iv.toList ∧ decAes256CbcSha512 L key c [] = some (true, message)) ∧
      ∀ c', c'.take 16 = iv.toList → decAes256CbcSha512 L key c' [] = some (true, message) →
        c' = c) ↔ message.length % 16 = 15 := by
  have hvalid := validPadding_pkcs7 message
  obtain ⟨htake, hdec, hbody⟩ := sealText_accepted (L := L) hkey iv (length_pkcs7 message)
    (hvalid.last (L.sha512 message ++ message))
  constructor
  · rintro ⟨c, -, hunique⟩
    by_contra hfull
    have hzero : (zeroPadding message).length = 16 - message.length % 16 := by
      simp only [zeroPadding, List.length_append, List.length_replicate, List.length_singleton]
      omega
    obtain ⟨htake', hdec', hbody'⟩ := sealText_accepted (L := L) hkey iv hzero
      (last_zeroPadding (L.sha512 message ++ message) message)
    have hsame := (hunique _ htake hdec).trans (hunique _ htake' hdec').symm
    rw [hsame, hbody'] at hbody
    exact pkcs7_ne_zeroPadding hfull (List.append_cancel_left hbody).symm
  · intro hfull
    refine ⟨_, ⟨htake, hdec⟩, fun c' htake' hdec' => ?_⟩
    obtain ⟨hlooks, hone⟩ := padding_of_full hkey hfull hdec
    obtain ⟨hlooks', hone'⟩ := padding_of_full hkey hfull hdec'
    exact eq_of_body hlooks'.blocks hlooks.blocks hlooks'.long hlooks.long
      (htake'.trans htake.symm) (hone'.trans hone.symm)

/--
Decryption decides the documented format just at those ciphertexts whose padding is sound
if their digest is, and the ciphertext of a message is unique just if its padding is one
byte.
-/
theorem decryption_exact_iff (L : OpenSsl) {key : List UInt8} (hkey : key.length = 32) :
    (∀ c : List UInt8, (∀ message clear : List UInt8,
      decAes256CbcSha512 L key c clear = some (true, message ++ clear) ↔
        Formatted L key c message) ↔
      (LooksSealed L key c → ValidPadding (padding (body L key c)))) ∧
    ∀ (iv : Block) (message : List UInt8),
      (∃ c, (c.take 16 = iv.toList ∧ decAes256CbcSha512 L key c [] = some (true, message)) ∧
        ∀ c', c'.take 16 = iv.toList → decAes256CbcSha512 L key c' [] = some (true, message) →
          c' = c) ↔ message.length % 16 = 15 :=
  ⟨fun _ => decides_format_iff hkey, fun iv message => one_ciphertext_iff hkey iv message⟩

/-! ## A padding of zeros -/

theorem decryption_exact_iff_empty :
    sampleKey.length = 32 ∧
      ¬∃ c : List UInt8, (c.take 16 = (Vector.replicate 16 0 : Block).toList ∧
          decAes256CbcSha512 openSsl sampleKey c [] = some (true, [])) ∧
        ∀ c' : List UInt8, c'.take 16 = (Vector.replicate 16 0 : Block).toList →
          decAes256CbcSha512 openSsl sampleKey c' [] = some (true, []) → c' = c := by
  have hkey : sampleKey.length = 32 := by decide
  refine ⟨hkey, fun hone => ?_⟩
  exact absurd (((decryption_exact_iff openSsl hkey).2 _ []).mp hone) (by decide)

/-- The empty message, padded with zeros but for the last byte, is accepted. -/
theorem zero_padding_accepted :
    ¬∀ c message : List UInt8, decAes256CbcSha512 openSsl sampleKey c [] =
      some (true, message) ↔ Formatted openSsl sampleKey c message := by
  intro hexact
  have hlast := last_zeroPadding (openSsl.sha512 [] ++ []) []
  obtain ⟨-, hdec, hbody⟩ := sealText_accepted (L := openSsl)
    (show sampleKey.length = 32 by decide) (Vector.replicate 16 0) (by decide) hlast
  have hvalid := ((hexact _ _).mp hdec).looksSealed.2.2
  rw [hbody, (parts (openSsl.length_sha512 []) hlast).2.2] at hvalid
  exact absurd (hvalid.2.2 0 (by decide)) (by decide)

end Butterfly.Crypto
