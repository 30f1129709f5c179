import Butterfly.Libc
import Butterfly.Responses

/-!
# The text of a MAC address

`ValidateMac` and `Mac::Set` measure the text and then leave it to `sscanf`, whose
conversions skip white space and are content with less than two digits.  The text that is
documented is a stricter thing.
-/

namespace Butterfly

open Std Foundation MessageV0

/-! ## Digits -/

theorem hexDigit?_bounds {c : Char} {v : Nat} (h : hexDigit? c = some v) :
    v < 16 ∧ c.toNat < 103 := by
  unfold hexDigit? at h
  split at h
  · next hdigit =>
      simp only [Char.isDigit, Bool.and_eq_true, decide_eq_true_eq, ge_iff_le,
        UInt32.le_iff_toNat_le, Char.reduceVal, UInt32.reduceToNat] at hdigit
      have hc : c.toNat = c.val.toNat := rfl
      simp only [Option.some.injEq, Char.reduceToNat] at h
      omega
  split at h
  · next hlower =>
      simp only [Char.le_def, UInt32.le_iff_toNat_le, Char.reduceVal, UInt32.reduceToNat] at hlower
      have hc : c.toNat = c.val.toNat := rfl
      simp only [Option.some.injEq, Char.reduceToNat] at h
      omega
  split at h
  · next hupper =>
      simp only [Char.le_def, UInt32.le_iff_toNat_le, Char.reduceVal, UInt32.reduceToNat] at hupper
      have hc : c.toNat = c.val.toNat := rfl
      simp only [Option.some.injEq, Char.reduceToNat] at h
      omega
  · cases h

theorem hexDigit?_plain {c : Char} {v : Nat} (h : hexDigit? c = some v) :
    isSpace c = false ∧ c ≠ '-' ∧ c ≠ '+' ∧ c ≠ ':' ∧ c ≠ 'x' ∧ c ≠ 'X' := by
  refine ⟨?_, ?_, ?_, ?_, ?_, ?_⟩
  · by_contra hspace
    simp only [isSpace, Bool.or_eq_true, decide_eq_true_eq, Bool.not_eq_false] at hspace
    rcases hspace with ((((rfl | rfl) | rfl) | rfl) | rfl) | rfl <;> cases h
  all_goals
    rintro rfl
    cases h

/-! ## One conversion -/

/-- A text that a conversion `%2x` takes for a byte. -/
inductive HexField : List Char → Prop
  | digit {d v} : hexDigit? d = some v → HexField [d]
  | pair {c d high low} : hexDigit? c = some high → hexDigit? d = some low → HexField [c, d]
  | mark {x} : x = 'x' ∨ x = 'X' → HexField ['0', x]
  | plus {d v} : hexDigit? d = some v → HexField ['+', d]
  | minus : HexField ['-', '0']
  | blank {c field} : isSpace c = true → HexField field → HexField (c :: field)

theorem scanHex2_blank {c : Char} (h : isSpace c = true) (cs : List Char) :
    scanHex2 (c :: cs) = scanHex2 cs := by
  simp [scanHex2, h]

theorem scanHex2_digit {d : Char} {v : Nat} (h : hexDigit? d = some v) (cs : List Char) :
    scanHex2 (d :: cs) = scanDigits 2 (d :: cs) := by
  obtain ⟨hspace, hminus, hplus, -⟩ := hexDigit?_plain h
  simp [scanHex2, hspace, hminus, hplus]

theorem scanHex2_pair {c d : Char} {high low : Nat} (hc : hexDigit? c = some high)
    (hd : hexDigit? d = some low) (cs : List Char) :
    scanHex2 (c :: d :: cs) = some (16 * high + low, cs) := by
  obtain ⟨-, -, -, -, hx, hX⟩ := hexDigit?_plain hd
  simp [scanHex2_digit hc, scanDigits, hc, hd, hx, hX]

theorem hexDigit?_zero {c : Char} (h : hexDigit? c = some 0) : c = '0' := by
  unfold hexDigit? at h
  split at h
  · next hdigit =>
      simp only [Char.isDigit, Bool.and_eq_true, decide_eq_true_eq, ge_iff_le,
        UInt32.le_iff_toNat_le, Char.reduceVal, UInt32.reduceToNat] at hdigit
      have hc : c.toNat = c.val.toNat := rfl
      simp only [Option.some.injEq, Char.reduceToNat] at h
      exact Char.toNat_inj.mp (by simp only [Char.reduceToNat]; omega)
  split at h
  · simp at h
  split at h
  · simp at h
  · cases h

theorem scanDigits_one {cs rest : List Char} {n : Nat} (h : scanDigits 1 cs = some (n, rest)) :
    ∃ d, hexDigit? d = some n ∧ cs = d :: rest := by
  cases cs with
  | nil => cases h
  | cons d cs =>
      cases hd : hexDigit? d with
      | none => simp [scanDigits, hd] at h
      | some v =>
          simp only [scanDigits, hd, Option.some.injEq, Prod.mk.injEq] at h
          obtain ⟨rfl, rfl⟩ := h
          exact ⟨d, hd, rfl⟩

theorem scanDigits_two {cs rest : List Char} {n : Nat} (h : scanDigits 2 cs = some (n, rest)) :
    ∃ field, HexField field ∧ cs = field ++ rest := by
  match cs with
  | [] => cases h
  | c :: cs =>
      cases hc : hexDigit? c with
      | none => simp [scanDigits, hc] at h
      | some high =>
          match cs with
          | [] =>
              simp only [scanDigits, hc, Option.some.injEq, Prod.mk.injEq] at h
              obtain ⟨-, rfl⟩ := h
              exact ⟨[c], .digit hc, rfl⟩
          | d :: cs =>
              simp only [scanDigits, hc] at h
              split at h
              · next hmark =>
                  obtain ⟨-, rfl⟩ := Prod.mk.inj (Option.some.inj h)
                  obtain ⟨rfl, hx⟩ := hmark
                  exact ⟨['0', d], .mark hx, rfl⟩
              · cases hd : hexDigit? d with
                | some low =>
                    rw [hd] at h
                    obtain ⟨-, rfl⟩ := Prod.mk.inj (Option.some.inj h)
                    exact ⟨[c, d], .pair hc hd, rfl⟩
                | none =>
                    rw [hd] at h
                    obtain ⟨-, rfl⟩ := Prod.mk.inj (Option.some.inj h)
                    exact ⟨[c], .digit hc, rfl⟩

theorem hexField_of_scan {cs rest : List Char} {n : Nat} (h : scanHex2 cs = some (n, rest))
    (hn : n ≤ 255) : ∃ field, HexField field ∧ cs = field ++ rest := by
  induction cs with
  | nil => cases h
  | cons c cs ih =>
      by_cases hspace : isSpace c = true
      · rw [scanHex2_blank hspace] at h
        obtain ⟨field, hfield, rfl⟩ := ih h
        exact ⟨c :: field, .blank hspace hfield, rfl⟩
      · rw [scanHex2, List.dropWhile_cons_of_neg hspace] at h
        split at h
        · next heq =>
            obtain ⟨rfl, rfl⟩ := List.cons.inj heq
            obtain ⟨⟨v, rest'⟩, hscan, hmap⟩ := Option.map_eq_some_iff.mp h
            obtain ⟨d, hd, rfl⟩ := scanDigits_one hscan
            obtain ⟨rfl, rfl⟩ := Prod.mk.inj hmap
            -- The negation is a byte for zero only.
            have hv := (hexDigit?_bounds hd).1
            have hzero : v = 0 := by omega
            rw [hzero] at hd
            rw [hexDigit?_zero hd]
            exact ⟨['-', '0'], .minus, rfl⟩
        · next heq =>
            obtain ⟨rfl, rfl⟩ := List.cons.inj heq
            obtain ⟨d, hd, rfl⟩ := scanDigits_one h
            exact ⟨['+', d], .plus hd, rfl⟩
        · exact scanDigits_two h

theorem HexField.scan {field : List Char} (h : HexField field) (rest : List Char) :
    ∃ n rest', scanHex2 (field ++ rest) = some (n, rest') ∧ n ≤ 255 ∧
      (∀ text, rest = ':' :: text → rest' = rest) := by
  induction h with
  | @digit d v hd =>
      have hv := (hexDigit?_bounds hd).1
      rw [List.singleton_append, scanHex2_digit hd]
      cases rest with
      | nil => exact ⟨v, [], by simp [scanDigits, hd], by omega, fun _ h => nomatch h⟩
      | cons x rest =>
          simp only [scanDigits, hd]
          split
          · next hmark =>
              refine ⟨0, rest, rfl, by omega, ?_⟩
              rintro text heq
              obtain ⟨rfl, -⟩ := List.cons.inj heq
              simp at hmark
          · cases hx : hexDigit? x with
            | none => exact ⟨v, x :: rest, rfl, by omega, fun _ _ => rfl⟩
            | some low =>
                have hlow := (hexDigit?_bounds hx).1
                refine ⟨16 * v + low, rest, rfl, by omega, ?_⟩
                rintro text heq
                obtain ⟨rfl, -⟩ := List.cons.inj heq
                cases hx
  | @pair c d high low hc hd =>
      have hhigh := (hexDigit?_bounds hc).1
      have hlow := (hexDigit?_bounds hd).1
      exact ⟨16 * high + low, rest, scanHex2_pair hc hd rest, by omega, fun _ _ => rfl⟩
  | @mark x hx =>
      have hzero : hexDigit? '0' = some 0 := by decide
      refine ⟨0, rest, ?_, by omega, fun _ _ => rfl⟩
      rw [List.cons_append, scanHex2_digit hzero]
      simp [scanDigits, hzero, hx]
  | @plus d v hd =>
      have hv := (hexDigit?_bounds hd).1
      have hplus : isSpace '+' = false := by decide
      exact ⟨v, rest, by simp [scanHex2, hplus, scanDigits, hd], by omega, fun _ _ => rfl⟩
  | minus =>
      have hminus : isSpace '-' = false := by decide
      have hzero : hexDigit? '0' = some 0 := by decide
      exact ⟨0, rest, by simp [scanHex2, hminus, scanDigits, hzero], by omega, fun _ _ => rfl⟩
  | @blank c field hc _ ih =>
      rw [List.cons_append, scanHex2_blank hc]
      exact ih

/-! ## Fields between colons -/

/-- A text with this many fields between colons, and anything behind the last. -/
inductive HexFields : Nat → List Char → Prop
  | last {field} (rest) : HexField field → HexFields 1 (field ++ rest)
  | cons {field count text} : HexField field → HexFields count text →
      HexFields (count + 1) (field ++ ':' :: text)

theorem HexFields.scan {count : Nat} {text : List Char} (h : HexFields count text) :
    ∃ addr, scanHexFields count text = some addr ∧ ∀ n ∈ addr, n ≤ 255 := by
  induction h with
  | last rest hfield =>
      obtain ⟨n, rest', hscan, hn, -⟩ := hfield.scan rest
      exact ⟨[n], by simp [scanHexFields, hscan], by simpa using hn⟩
  | @cons field count text hfield hfields ih =>
      obtain ⟨n, rest', hscan, hn, hcolon⟩ := hfield.scan (':' :: text)
      obtain ⟨addr, haddr, hbytes⟩ := ih
      have hcount : count ≠ 0 := by
        rintro rfl
        cases hfields
      rw [hcolon text rfl] at hscan
      refine ⟨n :: addr, by simp [scanHexFields, hscan, hcount, haddr], ?_⟩
      exact List.forall_mem_cons.mpr ⟨hn, hbytes⟩

theorem hexFields_of_scan {count : Nat} {text : List Char} {addr : List Nat}
    (h : scanHexFields (count + 1) text = some addr) (hbytes : ∀ n ∈ addr, n ≤ 255) :
    HexFields (count + 1) text := by
  induction count generalizing text addr with
  | zero =>
      cases hscan : scanHex2 text with
      | none => simp [scanHexFields, hscan] at h
      | some r =>
          simp only [scanHexFields, hscan, if_true, Option.some.injEq] at h
          obtain ⟨field, hfield, rfl⟩ := hexField_of_scan hscan (hbytes r.1 (by simp [← h]))
          exact .last _ hfield
  | succ count ih =>
      cases hscan : scanHex2 text with
      | none => simp [scanHexFields, hscan] at h
      | some r =>
          rw [scanHexFields, hscan] at h
          simp only [Nat.add_eq_zero_iff, one_ne_zero, and_false, if_false] at h
          split at h
          · next rest hrest =>
              obtain ⟨addr', haddr, rfl⟩ := Option.map_eq_some_iff.mp h
              obtain ⟨field, hfield, rfl⟩ := hexField_of_scan hscan (hbytes r.1 (by simp))
              rw [hrest]
              exact .cons hfield (ih haddr fun n hn => hbytes n (List.mem_cons_of_mem _ hn))
          · cases h

theorem validateMac_iff (a : String) :
    Api0.validateMac a = true ↔ a.utf8ByteSize = 17 ∧ HexFields 6 a.toList := by
  unfold Api0.validateMac scanMac
  by_cases hsize : a.utf8ByteSize = 17
  · rw [if_neg (not_not.mpr hsize)]
    constructor
    · intro h
      refine ⟨hsize, ?_⟩
      split at h
      · cases h
      · next addr haddr =>
          split at h
          · next hall => exact hexFields_of_scan haddr (by simpa using hall)
          · cases h
    · rintro ⟨-, hfields⟩
      obtain ⟨addr, haddr, hbytes⟩ := hfields.scan
      rw [haddr]
      simp only
      rw [if_pos (by simpa using hbytes)]
      rfl
  · simp [hsize]

/-! ## The documented text -/

inductive ColonHex : List Char → List UInt8 → Prop
  | last {c d high low} : hexDigit? c = some high → hexDigit? d = some low →
      ColonHex [c, d] [UInt8.ofNat (16 * high + low)]
  | cons {c d high low text bytes} : hexDigit? c = some high → hexDigit? d = some low →
      ColonHex text bytes →
      ColonHex (c :: d :: ':' :: text) (UInt8.ofNat (16 * high + low) :: bytes)

def MacDenotes (a : String) (bytes : List UInt8) : Prop :=
  bytes.length = 6 ∧ ColonHex a.toList bytes

def MacFormat (a : String) : Prop := ∃ bytes, MacDenotes a bytes

theorem pair_mod {c d : Char} {high low : Nat} (hc : hexDigit? c = some high)
    (hd : hexDigit? d = some low) : (16 * high + low) % 256 = 16 * high + low := by
  have hhigh := (hexDigit?_bounds hc).1
  have hlow := (hexDigit?_bounds hd).1
  exact Nat.mod_eq_of_lt (by omega)

theorem ColonHex.scan {text : List Char} {bytes : List UInt8} (h : ColonHex text bytes) :
    scanHexFields bytes.length text = some (bytes.map UInt8.toNat) := by
  induction h with
  | last hc hd =>
      have hpair := pair_mod hc hd
      simp [scanHexFields, scanHex2_pair hc hd, hpair]
  | @cons c d high low text bytes hc hd hrest ih =>
      have hpair := pair_mod hc hd
      have hsome : bytes ≠ [] := by
        rintro rfl
        cases hrest
      simp [scanHexFields, scanHex2_pair hc hd, hpair, hsome, ih]

theorem ColonHex.size {text : List Char} {bytes : List UInt8} (h : ColonHex text bytes) :
    (String.ofList text).utf8ByteSize + 1 = 3 * bytes.length := by
  have hone : ∀ {c : Char} {v : Nat}, hexDigit? c = some v → c.utf8Size = 1 := by
    intro c v hc
    have hlt := (hexDigit?_bounds hc).2
    have hval : c.toNat = c.val.toNat := rfl
    exact Char.utf8Size_eq_one_iff.mpr (by
      simp only [UInt32.le_iff_toNat_le, UInt32.reduceToNat]
      omega)
  have hcolon : (':' : Char).utf8Size = 1 := by decide
  induction h with
  | last hc hd =>
      simp [String.ofList_cons, String.utf8ByteSize_singleton, hone hc, hone hd]
  | cons hc hd _ ih =>
      simp only [String.ofList_cons, String.utf8ByteSize_append, String.utf8ByteSize_singleton,
        hone hc, hone hd, hcolon, List.length_cons]
      omega

theorem MacDenotes.scanMac {a : String} {bytes : List UInt8} (h : MacDenotes a bytes) :
    scanMac a = some bytes := by
  obtain ⟨hsix, hhex⟩ := h
  have hsize := hhex.size
  have hscan := hhex.scan
  rw [String.ofList_toList, hsix] at hsize
  rw [hsix] at hscan
  have hbytes : ∀ b : UInt8, b.toNat ≤ 255 := fun b => Nat.le_of_lt_succ b.toNat_lt
  unfold Butterfly.scanMac
  rw [if_neg (not_not.mpr (by omega)), hscan]
  simp [hbytes, Function.comp_def]

/-! ## What is stored -/

variable {P : Platform} {ambient : Ambient} {m : MessageV0.Nic} {nic : Butterfly.Nic}

theorem macDenotes_set {a : String} : MacDenotes a (({} : Mac).set a).data ↔ MacFormat a := by
  constructor
  · exact fun h => ⟨_, h⟩
  · rintro ⟨bytes, h⟩
    rwa [Mac.set_of_scanMac h.scanMac {} rfl]

/-- A bench NIC that sends, for which the request's `dmac` is used. -/
def MessageV0.Nic.Sends (m : MessageV0.Nic) : Prop :=
  m.type = some .bench ∧ m.btype = some "ICMP_SND_LIKE"

structure HoldsMacs (m : MessageV0.Nic) (nic : Butterfly.Nic) : Prop where
  mac : MacDenotes m.mac nic.mac.data
  dmac : m.Sends → ∃ text ∈ m.dmac, MacDenotes text nic.dmac.data

/-- The texts of the request are of the documented form. -/
structure MessageV0.Nic.MacFormats (m : MessageV0.Nic) : Prop where
  mac : MacFormat m.mac
  dmac : m.Sends → ∃ text ∈ m.dmac, MacFormat text

theorem convertNicType_macs {nic₀ : Butterfly.Nic}
    (h : Api0.convertNicType P m nic₀ = .ok nic) :
    nic.mac = nic₀.mac ∧ (m.Sends → ∃ text ∈ m.dmac, nic.dmac = nic₀.dmac.set text) := by
  unfold Api0.convertNicType at h
  split at h
  · next htype =>
      cases h
      exact ⟨rfl, fun hsends => absurd (htype.symm.trans hsends.1) (by simp)⟩
  · next htype =>
      split at h
      · cases h
      · next btype hbtype =>
          split at h
          · split at h
            · next dip dmac _ hdmac =>
                cases hdip : Api0.convertIp P dip with
                | error error =>
                    rw [hdip] at h
                    cases h
                | ok ip =>
                    rw [hdip] at h
                    cases h
                    exact ⟨rfl, fun _ => ⟨dmac, hdmac, rfl⟩⟩
            · cases h
          · next hother =>
              split at h
              · cases h
                refine ⟨rfl, fun hsends => absurd ?_ hother⟩
                exact Option.some.inj (hbtype.symm.trans hsends.2)
              · cases h
  · next type hother htype =>
      cases h
      exact ⟨rfl, fun hsends => absurd (Option.some.inj (htype.symm.trans hsends.1)) hother⟩

theorem holdsMacs_iff {trace : Bool} {pid : Nat}
    (h : Api0.convertNic P trace pid m = .ok nic) : HoldsMacs m nic ↔ m.MacFormats := by
  unfold Api0.convertNic at h
  cases hips : Api0.convertIps P m.ip [] with
  | error error =>
      rw [hips] at h
      cases h
  | ok ips =>
      rw [hips] at h
      obtain ⟨hmac, hdmac⟩ := convertNicType_macs h
      constructor
      · intro hholds
        refine ⟨⟨_, hholds.mac⟩, fun hsends => ?_⟩
        obtain ⟨text, htext, hdenotes⟩ := hholds.dmac hsends
        exact ⟨text, htext, _, hdenotes⟩
      · intro hformats
        refine ⟨?_, fun hsends => ?_⟩
        · rw [hmac]
          exact macDenotes_set.mpr hformats.mac
        · obtain ⟨text, htext, hset⟩ := hdmac hsends
          obtain ⟨text', htext', hformat⟩ := hformats.dmac hsends
          cases (Option.mem_def.mp htext).symm.trans (Option.mem_def.mp htext')
          rw [hset]
          exact ⟨text, htext, macDenotes_set.mpr hformat⟩

theorem stored_of_accepted {s s' : Server} {request : Option Request} {res : Response}
    (hs : Reachable P anything s) (hc : request.bind Api0.command = some (.nicAdd m))
    (h : Api0.respond P ambient request s = some (res, s')) (hok : Accepted res) :
    ∃ nic, Api0.convertNic P s.config.packetTrace s.pid m = .ok nic ∧
      s'.model.nics[m.id]? = some { nic with path := Graph.nicPath P nic } := by
  obtain ⟨hvalid, nic, -, -, hconvert, -⟩ := (hs.accepted_iff hc h).mp hok
  obtain ⟨s₁, hperform, hcore⟩ := hs.performed hc (.nicAdd hvalid hconvert) h hok
  have hnics := (perform_stored hs.sound.agree hperform).nics
  refine ⟨nic, hconvert, ?_⟩
  rw [hcore.model, hnics, nicsAfter, if_pos rfl, (convertNic_fields hconvert).1,
    lookup_insertIfNew, if_pos rfl, lookup_erase, if_pos rfl, Option.getD_none]

/--
The validator accepts just the documented texts, except for those it is too lenient with;
and the addresses of an accepted NIC are the ones denoted if the request's texts denote any.
-/
theorem mac_syntax_iff (P : Platform) :
    (∀ a : String, (Api0.validateMac a = true ↔ MacFormat a) ↔
      (a.utf8ByteSize = 17 → HexFields 6 a.toList → MacFormat a)) ∧
    ∀ {s : Server}, Reachable P anything s →
      ∀ {ambient : Ambient} {request : Option Request} {m : MessageV0.Nic} {res : Response}
        {s' : Server}, request.bind Api0.command = some (.nicAdd m) →
        Api0.respond P ambient request s = some (res, s') → Accepted res →
          ((∃ nic, s'.model.nics[m.id]? = some nic ∧ HoldsMacs m nic) ↔ m.MacFormats) := by
  refine ⟨fun a => ?_, fun hs _ _ m _ _ hc h hok => ?_⟩
  · have hformat : MacFormat a → Api0.validateMac a = true := by
      rintro ⟨bytes, hbytes⟩
      rw [Api0.validateMac, hbytes.scanMac]
      rfl
    constructor
    · exact fun hexact hsize hfields => hexact.mp ((validateMac_iff a).mpr ⟨hsize, hfields⟩)
    · intro hstrict
      refine ⟨fun hvalid => ?_, hformat⟩
      obtain ⟨hsize, hfields⟩ := (validateMac_iff a).mp hvalid
      exact hstrict hsize hfields
  · obtain ⟨nic, hconvert, hnic⟩ := stored_of_accepted hs hc h hok
    rw [← holdsMacs_iff hconvert, hnic]
    constructor
    · rintro ⟨nic', heq, hholds⟩
      cases heq
      exact ⟨hholds.mac, hholds.dmac⟩
    · exact fun hholds => ⟨_, rfl, hholds.mac, hholds.dmac⟩

def macNic : MessageV0.Nic :=
  { id := "nic-1", mac := "52:54:00:12:34:01", vni := 42, ip := ["42.0.0.1"] }

theorem macFormats_macNic : macNic.MacFormats := by
  refine ⟨⟨[UInt8.ofNat (16 * 5 + 2), UInt8.ofNat (16 * 5 + 4), UInt8.ofNat (16 * 0 + 0),
    UInt8.ofNat (16 * 1 + 2), UInt8.ofNat (16 * 3 + 4), UInt8.ofNat (16 * 0 + 1)], rfl, ?_⟩,
    fun hsends => nomatch hsends.1⟩
  rw [show macNic.mac.toList = ['5', '2', ':', '5', '4', ':', '0', '0', ':', '1', '2', ':',
    '3', '4', ':', '0', '1'] by decide +kernel]
  exact .cons rfl rfl (.cons rfl rfl (.cons rfl rfl (.cons rfl rfl (.cons rfl rfl
    (.last rfl rfl)))))

theorem mac_syntax_iff_one_nic :
    ∃ res s', Api0.respond Libc.platform {} (some { nicAdd := some macNic })
        (Server.start {} 1 0) = some (res, s') ∧
      ∃ nic, s'.model.nics["nic-1"]? = some nic ∧ HoldsMacs macNic nic := by
  obtain ⟨⟨res, s'⟩, hrespond, hok⟩ := (Option.any_eq_true _ _).mp
    (by decide +kernel : (Api0.respond Libc.platform {} (some { nicAdd := some macNic })
      (Server.start {} 1 0)).any (fun r => r.1.status.status = some true) = true)
  have haccepted : res.status.status = some true := of_decide_eq_true hok
  exact ⟨res, s', hrespond, ((mac_syntax_iff Libc.platform).2 (.start {} 1 0) rfl hrespond
    haccepted).mpr macFormats_macNic⟩

/-- Blanks in place of the high digits go unnoticed. -/
theorem blank_mac_accepted : ¬ ∀ a : String, Api0.validateMac a = true ↔ MacFormat a := by
  intro hexact
  have hvalid : Api0.validateMac " 1: 2: 3: 4: 5: 6" = true := by decide +kernel
  obtain ⟨bytes, -, hhex⟩ := (hexact _).mp hvalid
  have htext : (" 1: 2: 3: 4: 5: 6" : String).toList = ' ' :: '1' :: ':' ::
      [' ', '2', ':', ' ', '3', ':', ' ', '4', ':', ' ', '5', ':', ' ', '6'] := by
    decide +kernel
  rw [htext] at hhex
  cases hhex with
  | cons hblank => cases hblank

end Butterfly
