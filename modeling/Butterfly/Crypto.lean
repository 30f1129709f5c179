import Butterfly.Foundation.Aes
import Butterfly.Foundation.Cbc
import Butterfly.Foundation.Sha512

/-!
# The encrypted envelope

`crypto.cc`: `EncAes256CbcSha512` and `DecAes256CbcSha512` over the parts of
OpenSSL they use.  The encrypting function initialises the cipher with `enc = 0`
and the decrypting one with `enc = 1`, so the chaining runs the other way round
than the names say.
-/

namespace Butterfly.Crypto

open Foundation

abbrev Block := Vector UInt8 16

def aesIvSize : Nat := 16
def aesBlockSize : Nat := 16
def aes256KeySize : Nat := 32
def sha512Size : Nat := 64

structure OpenSsl where
  aesEnc : List UInt8 → Block → Block
  aesDec : List UInt8 → Block → Block
  sha512 : List UInt8 → List UInt8
  dec_enc : ∀ key x, aesDec key (aesEnc key x) = x
  enc_dec : ∀ key x, aesEnc key (aesDec key x) = x
  length_sha512 : ∀ message, (sha512 message).length = sha512Size

def xorBlock (x y : Block) : Block := Vector.zipWith (· ^^^ ·) x y

theorem xorBlock_xorBlock (x y : Block) : xorBlock (xorBlock x y) y = x := by
  apply Vector.ext
  intro i hi
  simp [xorBlock]

theorem xorBlock_comm (x y : Block) : xorBlock x y = xorBlock y x := by
  apply Vector.ext
  intro i hi
  simp [xorBlock, UInt8.xor_comm]

namespace OpenSsl

variable (L : OpenSsl)

def aes256 (key : List UInt8) : BlockCipher Block where
  enc := L.aesEnc key
  dec := L.aesDec key
  mix := xorBlock
  dec_enc := L.dec_enc key
  enc_dec := L.enc_dec key
  mix_mix := xorBlock_xorBlock
  mix_comm := xorBlock_comm

end OpenSsl

/-! ## The cipher context -/

/-- `EVP_CIPHER_CTX` without padding; `buffer` has what is no full block yet. -/
structure CipherCtx where
  cipher : BlockCipher Block
  enc : Bool
  chain : Block
  buffer : List UInt8 := []

def cipherInit (L : OpenSsl) (key : List UInt8) (iv : Block) (enc : Bool) : CipherCtx :=
  { cipher := L.aes256 key, enc := enc, chain := iv }

/-- `EVP_CipherUpdate`: the bytes it writes and the context it leaves. -/
def cipherUpdate (aes : CipherCtx) (input : List UInt8) : List UInt8 × CipherCtx :=
  let bytes := aes.buffer ++ input
  let count := bytes.length / aesBlockSize
  let blocks := toBlocks 16 count bytes
  let output := if aes.enc then aes.cipher.cbcEnc aes.chain blocks
    else aes.cipher.cbcDec aes.chain blocks
  (ofBlocks output,
    { aes with
      chain := (if aes.enc then output else blocks).getLastD aes.chain
      buffer := bytes.drop (aesBlockSize * count) })

/-- `EVP_CipherFinal_ex`, which writes nothing and refuses a partial block. -/
def cipherFinal (aes : CipherCtx) : Bool := aes.buffer.isEmpty

theorem cipherUpdate_eq {aes : CipherCtx} {count : Nat} {input : List UInt8}
    (hbuffer : aes.buffer = []) (hinput : input.length = 16 * count) :
    cipherUpdate aes input =
      let blocks := toBlocks 16 count input
      let output := if aes.enc then aes.cipher.cbcEnc aes.chain blocks
        else aes.cipher.cbcDec aes.chain blocks
      (ofBlocks output,
        { aes with chain := (if aes.enc then output else blocks).getLastD aes.chain }) := by
  have hcount : input.length / aesBlockSize = count := by
    rw [hinput, aesBlockSize]
    omega
  have hdrop : input.drop (aesBlockSize * count) = [] := by
    rw [List.drop_eq_nil_iff, hinput, aesBlockSize]
  simp [cipherUpdate, hbuffer, hcount, hdrop]

/-! ## Encryption -/

def dataSize (clear : List UInt8) : Nat := (clear.length / aesBlockSize + 1) * aesBlockSize

def padLength (clear : List UInt8) : UInt8 := UInt8.ofNat (dataSize clear - clear.length)

def lastBlock (clear : List UInt8) : List UInt8 :=
  clear.drop (clear.length / aesBlockSize * aesBlockSize) ++
    List.replicate (padLength clear).toNat (padLength clear)

/--
The truth value is the one returned, the bytes are what `*encrypted` holds
afterwards.  `iv` is what `RAND_bytes` delivers, if it does.
-/
def encAes256CbcSha512 (L : OpenSsl) (iv : Option Block)
    (key clear encrypted : List UInt8) : Bool × List UInt8 :=
  if key.length ≠ aes256KeySize then (false, encrypted)
  else
    let computedSha := L.sha512 clear
    if computedSha.length ≠ sha512Size then (false, encrypted)
    else match iv with
      | none => (false, encrypted)
      | some iv =>
          let (sha, aes) := cipherUpdate (cipherInit L key iv false) computedSha
          if sha.length ≠ sha512Size then (false, encrypted)
          else
            -- All blocks but the last, if there are any.
            let (data, aes) := if clear.length ≥ aesBlockSize then
                cipherUpdate aes (clear.take (dataSize clear - aesBlockSize))
              else ([], aes)
            if clear.length ≥ aesBlockSize ∧
                data.length ≠ dataSize clear - aesBlockSize then (false, encrypted)
            else
              let (last, aes) := cipherUpdate aes (lastBlock clear)
              if last.length ≠ aesBlockSize then (false, encrypted)
              else if !cipherFinal aes then (false, encrypted)
              else (true, (iv.toList ++ sha ++ data ++ last) ++ encrypted)

/-! ## Decryption -/

/-- The bytes `DecAes256CbcSha512` is willing to look at. -/
def lengthGuard (key encrypted : List UInt8) : Bool :=
  !(key.length ≠ aes256KeySize || encrypted.length < aesIvSize + sha512Size + aesBlockSize ||
    encrypted.length % aesBlockSize ≠ 0)

def blocksLen (encrypted : List UInt8) : Nat := encrypted.length - aesIvSize

/-- `EVP_CipherUpdate` over all that follows the initialization vector. -/
def clearResult (L : OpenSsl) (key encrypted : List UInt8) : List UInt8 × CipherCtx :=
  cipherUpdate (cipherInit L key (Vector.ofFn fun i => encrypted.getD i 0) true)
    (encrypted.drop aesIvSize)

def clearPayloadLen (encrypted : List UInt8) (padLen : UInt8) : Int :=
  blocksLen encrypted - sha512Size - padLen.toNat

/-- `none` is a byte read out of range or a negative length. -/
def decAes256CbcSha512 (L : OpenSsl) (key encrypted clear : List UInt8) :
    Option (Bool × List UInt8) :=
  if !lengthGuard key encrypted then some (false, clear)
  else
    let (result, aes) := clearResult L key encrypted
    if result.length ≠ blocksLen encrypted then some (false, clear)
    else if !cipherFinal aes then some (false, clear)
    else do
      let padLen ← result[blocksLen encrypted - 1]?
      if padLen > 16 then some (false, clear)
      else if clearPayloadLen encrypted padLen < 0 then none
      else
        let payload := (result.drop sha512Size).take (clearPayloadLen encrypted padLen).toNat
        let computedSha := L.sha512 payload
        if computedSha.length ≠ sha512Size then some (false, clear)
        else if result.take sha512Size ≠ computedSha then some (false, clear)
        else some (true, payload ++ clear)

/-! ## What encryption writes -/

def pkcs7 (message : List UInt8) : List UInt8 :=
  List.replicate (16 - message.length % 16) (UInt8.ofNat (16 - message.length % 16))

/-- The clear text under the cipher: digest, message, padding. -/
def plain (L : OpenSsl) (message : List UInt8) : List UInt8 :=
  L.sha512 message ++ message ++ pkcs7 message

def plainBlocks (L : OpenSsl) (message : List UInt8) : List Block :=
  toBlocks 16 (4 + (message.length / 16 + 1)) (plain L message)

theorem padLength_eq (message : List UInt8) :
    padLength message = UInt8.ofNat (16 - message.length % 16) ∧
      (padLength message).toNat = 16 - message.length % 16 := by
  have hpad : dataSize message - message.length = 16 - message.length % 16 := by
    unfold dataSize aesBlockSize
    omega
  constructor
  · rw [padLength, hpad]
  · rw [padLength, hpad, UInt8.toNat_ofNat']
    omega

theorem lastBlock_eq (message : List UInt8) :
    lastBlock message = message.drop (message.length / 16 * 16) ++ pkcs7 message := by
  obtain ⟨hpad, hlength⟩ := padLength_eq message
  rw [lastBlock, hlength, hpad]
  rfl

theorem length_lastBlock (message : List UInt8) : (lastBlock message).length = 16 := by
  rw [lastBlock_eq, List.length_append, List.length_drop, pkcs7, List.length_replicate]
  omega

theorem length_plain (L : OpenSsl) (message : List UInt8) :
    (plain L message).length = 16 * (4 + (message.length / 16 + 1)) := by
  have hsha := L.length_sha512 message
  simp only [plain, List.length_append, hsha, sha512Size, pkcs7, List.length_replicate]
  omega

theorem plainBlocks_eq (L : OpenSsl) (message : List UInt8) :
    plainBlocks L message = toBlocks 16 4 (L.sha512 message) ++
      (toBlocks 16 (message.length / 16) (message.take (message.length / 16 * 16)) ++
        toBlocks 16 1 (lastBlock message)) := by
  have hsha : (L.sha512 message).length = 16 * 4 := L.length_sha512 message
  have hfull : (message.take (message.length / 16 * 16)).length =
      16 * (message.length / 16) := by
    rw [List.length_take]
    omega
  have hlast : (lastBlock message).length = 16 * 1 := length_lastBlock message
  have hsplit : plain L message = L.sha512 message ++
      (message.take (message.length / 16 * 16) ++ lastBlock message) := by
    rw [lastBlock_eq, ← List.append_assoc (message.take _), List.take_append_drop, plain,
      List.append_assoc]
  have hrest : (message.take (message.length / 16 * 16) ++ lastBlock message).length =
      16 * (message.length / 16 + 1) := by
    rw [List.length_append, hfull, hlast]
    ring
  rw [plainBlocks, hsplit, toBlocks_append hsha _ _ hrest, toBlocks_append hfull _ _ hlast]

theorem encAes256CbcSha512_eq (L : OpenSsl) (iv : Block) {key : List UInt8}
    (hkey : key.length = aes256KeySize) (message encrypted : List UInt8) :
    encAes256CbcSha512 L (some iv) key message encrypted =
      (true, iv.toList ++ ofBlocks ((L.aes256 key).cbcDec iv (plainBlocks L message)) ++
        encrypted) := by
  have hsha : (L.sha512 message).length = 16 * 4 := L.length_sha512 message
  have hsize : dataSize message - aesBlockSize = message.length / 16 * 16 := by
    unfold dataSize aesBlockSize
    omega
  have hfull : (message.take (message.length / 16 * 16)).length =
      16 * (message.length / 16) := by
    rw [List.length_take]
    omega
  have hlast : (lastBlock message).length = 16 * 1 := length_lastBlock message
  have hdata : ∀ aes : CipherCtx, aes.buffer = [] → aes.enc = false →
      (if message.length ≥ aesBlockSize then
        cipherUpdate aes (message.take (dataSize message - aesBlockSize)) else ([], aes)) =
        (ofBlocks (aes.cipher.cbcDec aes.chain (toBlocks 16 (message.length / 16)
            (message.take (message.length / 16 * 16)))),
          { aes with chain := (toBlocks 16 (message.length / 16)
            (message.take (message.length / 16 * 16))).getLastD aes.chain }) := by
    intro aes hbuffer henc
    split
    · rw [hsize, cipherUpdate_eq hbuffer hfull]
      simp [henc]
    · next hshort =>
        have hzero : message.length / 16 = 0 := by
          rw [aesBlockSize] at hshort
          omega
        simp [hzero, toBlocks, BlockCipher.cbcDec, ofBlocks]
  unfold encAes256CbcSha512
  simp only [hkey, L.length_sha512, ne_eq, not_true_eq_false, if_false]
  rw [cipherUpdate_eq (show (cipherInit L key iv false).buffer = [] from rfl) hsha]
  simp only [cipherInit, Bool.false_eq_true, if_false]
  rw [hdata _ rfl rfl]
  simp only
  rw [cipherUpdate_eq rfl hlast]
  rw [plainBlocks_eq, BlockCipher.cbcDec_append, BlockCipher.cbcDec_append]
  have hchunk : 16 * (message.length / 16) = dataSize message - 16 := by
    rw [Nat.mul_comm]
    exact hsize.symm
  simp [cipherFinal, sha512Size, aesBlockSize, hchunk]

/-! ## What decryption reads -/

theorem lengthGuard_iff {key encrypted : List UInt8} :
    lengthGuard key encrypted = true ↔
      key.length = 32 ∧ 96 ≤ encrypted.length ∧ encrypted.length % 16 = 0 := by
  rw [lengthGuard, Bool.not_eq_true', Bool.or_eq_false_iff, Bool.or_eq_false_iff,
    decide_eq_false_iff_not, decide_eq_false_iff_not, decide_eq_false_iff_not]
  unfold aes256KeySize aesIvSize sha512Size aesBlockSize
  omega

theorem clearResult_eq (L : OpenSsl) {key encrypted : List UInt8}
    (hguard : lengthGuard key encrypted = true) :
    clearResult L key encrypted =
      let blocks := toBlocks 16 (encrypted.length / 16 - 1) (encrypted.drop 16)
      let iv : Block := Vector.ofFn fun i => encrypted.getD i 0
      let output := (L.aes256 key).cbcEnc iv blocks
      (ofBlocks output, { cipherInit L key iv true with chain := output.getLastD iv }) := by
  obtain ⟨-, hlong, hmod⟩ := lengthGuard_iff.mp hguard
  have hlength : (encrypted.drop aesIvSize).length = 16 * (encrypted.length / 16 - 1) := by
    rw [List.length_drop, aesIvSize]
    omega
  rw [clearResult, cipherUpdate_eq rfl hlength]
  rfl

theorem length_clearResult (L : OpenSsl) {key encrypted : List UInt8}
    (hguard : lengthGuard key encrypted = true) :
    (clearResult L key encrypted).1.length = blocksLen encrypted := by
  obtain ⟨-, hlong, hmod⟩ := lengthGuard_iff.mp hguard
  rw [clearResult_eq L hguard, length_ofBlocks, BlockCipher.length_cbcEnc,
    length_toBlocks, blocksLen, aesIvSize]
  omega

theorem cipherFinal_clearResult (L : OpenSsl) {key encrypted : List UInt8}
    (hguard : lengthGuard key encrypted = true) :
    cipherFinal (clearResult L key encrypted).2 = true := by
  rw [clearResult_eq L hguard]
  rfl

theorem payload_in_range (L : OpenSsl) {key encrypted : List UInt8}
    (hguard : lengthGuard key encrypted = true) :
    ∃ padLen, (clearResult L key encrypted).1[blocksLen encrypted - 1]? = some padLen ∧
      (padLen ≤ 16 → 0 ≤ clearPayloadLen encrypted padLen ∧
        clearPayloadLen encrypted padLen ≤ encrypted.length - 80) := by
  obtain ⟨-, hlong, -⟩ := lengthGuard_iff.mp hguard
  have hlength := length_clearResult L hguard
  have hrange : blocksLen encrypted - 1 < (clearResult L key encrypted).1.length := by
    rw [hlength, blocksLen, aesIvSize]
    omega
  obtain ⟨padLen, hpadLen⟩ : ∃ padLen,
      (clearResult L key encrypted).1[blocksLen encrypted - 1]? = some padLen :=
    ⟨_, List.getElem?_eq_getElem hrange⟩
  refine ⟨padLen, hpadLen, fun hpad => ?_⟩
  have hsmall : padLen.toNat ≤ 16 := UInt8.le_iff_toNat_le.mp hpad
  simp only [clearPayloadLen, blocksLen, aesIvSize, sha512Size]
  omega

theorem decAes256CbcSha512_eq (L : OpenSsl) {key encrypted : List UInt8} {padLen : UInt8}
    (clear : List UInt8) (hguard : lengthGuard key encrypted = true)
    (hpad : (clearResult L key encrypted).1[blocksLen encrypted - 1]? = some padLen)
    (hsmall : padLen ≤ 16) :
    decAes256CbcSha512 L key encrypted clear =
      let result := (clearResult L key encrypted).1
      let payload := (result.drop sha512Size).take (clearPayloadLen encrypted padLen).toNat
      if result.take sha512Size = L.sha512 payload then some (true, payload ++ clear)
      else some (false, clear) := by
  obtain ⟨padLen', hpad', hrange⟩ := payload_in_range L hguard
  obtain rfl : padLen = padLen' := Option.some.inj (hpad.symm.trans hpad')
  have hnonneg := (hrange hsmall).1
  have hbig : ¬(padLen > 16) := UInt8.not_lt.mpr hsmall
  unfold decAes256CbcSha512
  simp only [hguard, length_clearResult L hguard, cipherFinal_clearResult L hguard, hpad,
    L.length_sha512, Bool.not_true, Bool.false_eq_true, if_false, ne_eq, not_true_eq_false,
    Option.bind_eq_bind, Option.bind_some, if_neg hbig, if_neg (Int.not_lt.mpr hnonneg)]
  rw [ite_not]

theorem decAes256CbcSha512_isSome (L : OpenSsl) (key encrypted clear : List UInt8) :
    (decAes256CbcSha512 L key encrypted clear).isSome := by
  cases hguard : lengthGuard key encrypted with
  | false => simp [decAes256CbcSha512, hguard]
  | true =>
      obtain ⟨padLen, hpad, -⟩ := payload_in_range L hguard
      by_cases hsmall : padLen ≤ 16
      · rw [decAes256CbcSha512_eq L clear hguard hpad hsmall]
        simp only
        split <;> rfl
      · have hbig : padLen > 16 := UInt8.not_le.mp hsmall
        simp [decAes256CbcSha512, hguard, length_clearResult L hguard,
          cipherFinal_clearResult L hguard, hpad, hbig]

/-! ## Decryption undoes encryption -/

theorem length_pkcs7 (message : List UInt8) :
    (pkcs7 message).length = 16 - message.length % 16 := by
  rw [pkcs7, List.length_replicate]

theorem plain_last (L : OpenSsl) (message : List UInt8) :
    (plain L message)[(plain L message).length - 1]? =
      some (UInt8.ofNat (16 - message.length % 16)) := by
  have hne : pkcs7 message ≠ [] := by
    rw [← List.length_pos_iff, length_pkcs7]
    omega
  rw [← List.getLast?_eq_getElem?, plain, List.getLast?_append_of_ne_nil _ hne, pkcs7,
    List.getLast?_replicate, if_neg (by omega)]

def sealText (L : OpenSsl) (key : List UInt8) (iv : Block) (count : Nat) (text : List UInt8) :
    List UInt8 :=
  iv.toList ++ ofBlocks ((L.aes256 key).cbcDec iv (toBlocks 16 count text))

theorem length_sealText (L : OpenSsl) (key : List UInt8) (iv : Block) (count : Nat)
    (text : List UInt8) : (sealText L key iv count text).length = 16 + 16 * count := by
  simp [sealText]

theorem clearResult_sealText (L : OpenSsl) {key : List UInt8} (iv : Block) {count : Nat}
    {text : List UInt8} (htext : text.length = 16 * count)
    (hguard : lengthGuard key (sealText L key iv count text) = true) :
    (clearResult L key (sealText L key iv count text)).1 = text := by
  have hiv : (Vector.ofFn fun i : Fin 16 => (sealText L key iv count text).getD i 0) = iv := by
    rw [← Vector.toList_inj, toList_first _ (by simp [sealText]), sealText,
      List.take_left' (by simp)]
  have hdrop : (sealText L key iv count text).drop 16 =
      ofBlocks ((L.aes256 key).cbcDec iv (toBlocks 16 count text)) :=
    List.drop_left' (by simp)
  have hcount : (sealText L key iv count text).length / 16 - 1 =
      ((L.aes256 key).cbcDec iv (toBlocks 16 count text)).length := by
    rw [length_sealText, BlockCipher.length_cbcDec, length_toBlocks]
    omega
  rw [clearResult_eq L hguard]
  simp only
  rw [hiv, hdrop, hcount, toBlocks_ofBlocks, BlockCipher.cbcEnc_cbcDec,
    ofBlocks_toBlocks htext]

theorem decAes256CbcSha512_envelope (L : OpenSsl) {key : List UInt8}
    (hkey : key.length = aes256KeySize) (iv : Block) (message : List UInt8) :
    decAes256CbcSha512 L key (iv.toList ++
      ofBlocks ((L.aes256 key).cbcDec iv (plainBlocks L message))) [] =
        some (true, message) := by
  have hlength : (iv.toList ++ ofBlocks ((L.aes256 key).cbcDec iv
      (plainBlocks L message))).length = 16 + (plain L message).length := by
    rw [List.length_append, length_ofBlocks, BlockCipher.length_cbcDec, length_plain]
    simp [plainBlocks]
  have hplain := length_plain L message
  have hguard : lengthGuard key (iv.toList ++
      ofBlocks ((L.aes256 key).cbcDec iv (plainBlocks L message))) = true := by
    rw [lengthGuard_iff, hlength, hplain]
    exact ⟨hkey, by omega, by omega⟩
  have hresult := clearResult_sealText L iv (length_plain L message) hguard
  rw [sealText, ← plainBlocks] at hresult
  generalize hc : iv.toList ++ ofBlocks ((L.aes256 key).cbcDec iv (plainBlocks L message)) =
    c at hlength hguard hresult ⊢
  have hblocks : blocksLen c = (plain L message).length := by
    rw [blocksLen, hlength, aesIvSize]
    omega
  have hpad : (clearResult L key c).1[blocksLen c - 1]? =
      some (UInt8.ofNat (16 - message.length % 16)) := by
    rw [hresult, hblocks, plain_last]
  have hpadNat : (UInt8.ofNat (16 - message.length % 16)).toNat =
      16 - message.length % 16 := by
    rw [UInt8.toNat_ofNat']
    omega
  have hsmall : UInt8.ofNat (16 - message.length % 16) ≤ 16 := by
    rw [UInt8.le_iff_toNat_le, hpadNat]
    exact Nat.sub_le _ _
  have hsha := L.length_sha512 message
  have hpayloadLen : (clearPayloadLen c
      (UInt8.ofNat (16 - message.length % 16))).toNat = message.length := by
    simp only [clearPayloadLen, hblocks, hplain, hpadNat, sha512Size]
    omega
  have hsplit : plain L message =
      L.sha512 message ++ (message ++ pkcs7 message) := by
    rw [plain, List.append_assoc]
  rw [decAes256CbcSha512_eq L [] hguard hpad hsmall, hresult, hpayloadLen, hsplit]
  have hdrop : (L.sha512 message ++ (message ++ pkcs7 message)).drop sha512Size =
      message ++ pkcs7 message := List.drop_left' hsha
  have htake : (L.sha512 message ++ (message ++ pkcs7 message)).take sha512Size =
      L.sha512 message := List.take_left' hsha
  simp [hdrop, htake]

theorem encAes256CbcSha512_opens (L : OpenSsl) {key : List UInt8} (hkey : key.length = 32)
    (iv : Block) (message : List UInt8) : ∃ c,
      encAes256CbcSha512 L (some iv) key message [] = (true, c) ∧
      decAes256CbcSha512 L key c [] = some (true, message) ∧
      c.length = 16 + 64 + 16 * (message.length / 16 + 1) := by
  have henc := encAes256CbcSha512_eq L iv hkey message []
  rw [List.append_nil] at henc
  refine ⟨_, henc, decAes256CbcSha512_envelope L hkey iv message, ?_⟩
  simp only [List.length_append, Vector.length_toList, length_ofBlocks,
    BlockCipher.length_cbcDec, plainBlocks, length_toBlocks]
  omega

/--
What is encrypted decrypts to itself, and no byte string that passes the length
guard leads to a read out of range or to a negative length.
-/
theorem decrypt_encrypt (L : OpenSsl) {key : List UInt8} (hkey : key.length = 32) :
    (∀ (iv : Block) (message : List UInt8), ∃ c,
      encAes256CbcSha512 L (some iv) key message [] = (true, c) ∧
      decAes256CbcSha512 L key c [] = some (true, message) ∧
      c.length = 16 + 64 + 16 * (message.length / 16 + 1)) ∧
    ∀ c : List UInt8, lengthGuard key c = true →
      (decAes256CbcSha512 L key c []).isSome ∧
      ∃ padLen, (clearResult L key c).1[blocksLen c - 1]? = some padLen ∧
        (padLen ≤ 16 →
          0 ≤ clearPayloadLen c padLen ∧ clearPayloadLen c padLen ≤ c.length - 80) := by
  exact ⟨encAes256CbcSha512_opens L hkey, fun c hguard =>
    ⟨decAes256CbcSha512_isSome L key c [], payload_in_range L hguard⟩⟩

/-! ## The documented format -/

/-- `encrypted.proto`: the vector, then everything else under AES-256 in CBC mode. -/
def documented (L : OpenSsl) (key : List UInt8) (iv : Block) (message : List UInt8) :
    List UInt8 :=
  iv.toList ++ ofBlocks ((L.aes256 key).cbcEnc iv
    (toBlocks 16 ((plain L message).length / 16) (plain L message)))

theorem documented_eq (L : OpenSsl) (key : List UInt8) (iv : Block) (message : List UInt8) :
    documented L key iv message =
      iv.toList ++ ofBlocks ((L.aes256 key).cbcEnc iv (plainBlocks L message)) := by
  have hcount : (plain L message).length / 16 = 4 + (message.length / 16 + 1) := by
    rw [length_plain]
    omega
  rw [documented, hcount, plainBlocks]

/-- AES run backwards looks like AES on the blocks of a message. -/
def Coincides (L : OpenSsl) (key : List UInt8) (iv : Block) (message : List UInt8) : Prop :=
  (∀ b, (plainBlocks L message)[0]? = some b →
    L.aesDec key (xorBlock (L.aesDec key b) iv) = xorBlock b iv) ∧
  (L.aes256 key).AllMeet (iv :: plainBlocks L message)

theorem plainBlocks_two (L : OpenSsl) (message : List UInt8) :
    ∃ b b' rest, plainBlocks L message = b :: b' :: rest := by
  have hlength : (plainBlocks L message).length = 4 + (message.length / 16 + 1) := by
    simp [plainBlocks]
  cases hblocks : plainBlocks L message with
  | nil => simp [hblocks] at hlength
  | cons b rest =>
      cases rest with
      | nil =>
          rw [hblocks, List.length_singleton] at hlength
          omega
      | cons b' rest => exact ⟨b, b', rest, rfl⟩

/--
The output is the documented one exactly when AES run backwards happens to
coincide with AES on the blocks at hand, which for no key and message is so with
two different initialization vectors.
-/
theorem documented_iff (L : OpenSsl) {key : List UInt8} (hkey : key.length = 32)
    (message : List UInt8) :
    (∀ iv : Block, encAes256CbcSha512 L (some iv) key message [] =
        (true, documented L key iv message) ↔ Coincides L key iv message) ∧
    ∀ iv iv' : Block, Coincides L key iv message → Coincides L key iv' message →
      iv = iv' := by
  obtain ⟨b, b', rest, hblocks⟩ := plainBlocks_two L message
  constructor
  · intro iv
    have henc := encAes256CbcSha512_eq L iv hkey message []
    rw [List.append_nil] at henc
    rw [henc, documented_eq, Prod.mk.injEq, List.append_cancel_left_eq]
    simp only [true_and]
    have hinjective : ofBlocks ((L.aes256 key).cbcDec iv (plainBlocks L message)) =
        ofBlocks ((L.aes256 key).cbcEnc iv (plainBlocks L message)) ↔
          (L.aes256 key).cbcDec iv (plainBlocks L message) =
            (L.aes256 key).cbcEnc iv (plainBlocks L message) :=
      ⟨ofBlocks_injective (by simp), fun h => by rw [h]⟩
    rw [hinjective, Coincides, hblocks, BlockCipher.cbcDec_eq_cbcEnc]
    simp only [List.getElem?_cons_zero, Option.some.injEq, forall_eq']
    rfl
  · rintro iv iv' ⟨-, hmeet⟩ ⟨-, hmeet'⟩
    rw [hblocks] at hmeet hmeet'
    exact (L.aes256 key).eq_of_meets hmeet.1 hmeet'.1

/-! ## The primitives -/

def openSsl : OpenSsl where
  aesEnc := Aes.encrypt
  aesDec := Aes.decrypt
  sha512 := Sha512.sha512
  dec_enc := Aes.dec_enc
  enc_dec := Aes.enc_dec
  length_sha512 := Sha512.length_sha512

def sampleKey : List UInt8 := (List.range 32).map UInt8.ofNat

/-- A message of one block and four bytes. -/
theorem decrypt_encrypt_twenty_bytes :
    let message := (List.range 20).map UInt8.ofNat
    ∃ c, encAes256CbcSha512 openSsl (some (Vector.replicate 16 1)) sampleKey message [] =
        (true, c) ∧
      decAes256CbcSha512 openSsl sampleKey c [] = some (true, message) ∧ c.length = 112 := by
  intro message
  obtain ⟨c, henc, hdec, hlength⟩ :=
    (decrypt_encrypt openSsl (show sampleKey.length = 32 by decide)).1 (Vector.replicate 16 1)
      message
  exact ⟨c, henc, hdec, hlength.trans (by decide)⟩

/-- The first block behind the vector is decrypted where it should be encrypted. -/
theorem envelope_not_documented :
    encAes256CbcSha512 openSsl (some (Vector.replicate 16 0)) sampleKey [] [] ≠
      (true, documented openSsl sampleKey (Vector.replicate 16 0) []) := by
  decide +kernel

theorem documented_iff_empty :
    sampleKey.length = 32 ∧
      (encAes256CbcSha512 openSsl (some (Vector.replicate 16 0)) sampleKey [] [] =
          (true, documented openSsl sampleKey (Vector.replicate 16 0) []) ↔
        Coincides openSsl sampleKey (Vector.replicate 16 0) []) := by
  have hkey : sampleKey.length = 32 := by decide
  exact ⟨hkey, (documented_iff openSsl hkey []).1 _⟩

end Butterfly.Crypto
