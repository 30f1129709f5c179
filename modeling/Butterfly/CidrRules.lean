import Butterfly.Foundation.PcapCompile
import Butterfly.Coherence
import Butterfly.MemberRules

/-!
# Rules with a CIDR

The filter of a rule with a CIDR, read back as in `MemberRules`.  The address of a
CIDR may have bits behind its mask: the validators let it pass and the filter compiler
does not.
-/

namespace Butterfly

open Std Foundation Foundation.Pcap

variable {P : Platform}

/-! ## Blocks of addresses -/

/-- An address of the family of the CIDR that agrees with it on the bits of the mask. -/
def Cidr.Contains (cidr : Cidr) (ip : Ip) : Prop :=
  ip.type = cidr.address.type ∧
    ∀ i < cidr.maskSize.toNat, bitAt cidr.address.data.toList i = bitAt ip.data.toList i

def Cidr.Aligned (cidr : Cidr) : Prop :=
  ∀ i, cidr.maskSize.toNat ≤ i → bitAt cidr.address.data.toList i = false

theorem bitAt_of_length_le {bytes : List UInt8} {i : Nat} (h : 8 * bytes.length ≤ i) :
    bitAt bytes i = false := by
  rw [bitAt, List.getElem?_eq_none (by omega)]
  simp

theorem bitAt_copy4 (a : Vector UInt8 4) (i : Nat) :
    bitAt (Ip.copy4 (Vector.replicate 16 0) a).toList i = bitAt a.toList i := by
  by_cases hi : i / 8 < 4
  · have hbyte : (Ip.copy4 (Vector.replicate 16 0) a).toList[i / 8]? = a.toList[i / 8]? := by
      rw [Vector.getElem?_toList, Vector.getElem?_toList,
        Vector.getElem?_eq_getElem (by omega : i / 8 < 16), Vector.getElem?_eq_getElem hi]
      simp [Ip.copy4, hi]
    rw [bitAt, hbyte, bitAt]
  · have hnone : bitAt a.toList i = false := by
      apply bitAt_of_length_le
      rw [Vector.length_toList]
      omega
    rw [hnone]
    by_cases hend : i / 8 < 16
    · rw [bitAt, Vector.getElem?_toList, Vector.getElem?_eq_getElem hend]
      simp [Ip.copy4, hi]
    · apply bitAt_of_length_le
      rw [Vector.length_toList]
      omega

theorem aligned_iff {size mask : Nat} (a : Vector UInt8 size) (hmask : mask ≤ 8 * size) :
    (∀ i, mask ≤ i → bitAt a.toList i = false) ↔ isNet mask a = true := by
  rw [isNet_iff hmask]
  constructor
  · exact fun h i hi _ => h i hi
  · intro h i hi
    by_cases hend : i < 8 * size
    · exact h i hi hend
    · apply bitAt_of_length_le
      rw [Vector.length_toList]
      omega

theorem aligned_v4_iff {mask : UInt32} (a : Vector UInt8 4) (hmask : mask.toNat ≤ 32) :
    Cidr.Aligned ⟨Ip.ofV4 P a, mask⟩ ↔ isNet mask.toNat a = true := by
  rw [← aligned_iff a hmask]
  simp only [Cidr.Aligned, Ip.ofV4, bitAt_copy4]

theorem aligned_v6_iff {mask : UInt32} (a : Vector UInt8 16) (hmask : mask.toNat ≤ 128) :
    Cidr.Aligned ⟨Ip.ofV6 P a, mask⟩ ↔ isNet mask.toNat a = true :=
  aligned_iff a hmask

/-! ## The filter -/

def cidrPrimitive (rule : Rule) : Primitive :=
  if rule.cidr.maskSize ≠ 0 then
    .net rule.peer rule.cidr.address.str.toList rule.cidr.maskSize.toNat
  else .family (decide (rule.cidr.address.type ≠ .v4))

def cidrFilter (rule : Rule) : Filter :=
  (tailFilterOf (decide (rule.cidr.address.type ≠ .v4)) rule).elim (.prim (cidrPrimitive rule))
    (Filter.and (.prim (cidrPrimitive rule)))

section Parse

variable {groups : ExtTreeMap String Sg} {rule : Rule}

theorem cidr_text (hname : rule.securityGroup = "") {ports : String}
    (hports : Graph.portsText rule = some ports) :
    Graph.fwBuildRule groups rule = String.ofList
      ((Graph.sourceText groups rule).toList ++
        ((Graph.protocolText rule).toList ++ ports.toList)) ∧
      Graph.fwBuildRule groups rule ≠ "" := by
  have hsource : Graph.sourceText groups rule ≠ "" := sourceText_ne_empty hname
  have htext : Graph.fwBuildRule groups rule =
      Graph.sourceText groups rule ++ Graph.protocolText rule ++ ports := by
    unfold Graph.fwBuildRule
    simp only [hports, if_neg hsource]
  refine ⟨?_, fwBuildRule_ne_empty hname hports⟩
  rw [htext, ← String.toList_inj]
  simp

theorem parse_cidrRule (hP : NumericTexts P) (hplain : PlainTexts P) (hrule : rule.WellFormed P)
    (hname : rule.securityGroup = "") (hcidr : rule.cidr.address.Genuine P) :
    Graph.fwBuildRule groups rule ≠ "" ∧
      parse (Graph.fwBuildRule groups rule) = some (cidrFilter rule) := by
  obtain ⟨ports, hports⟩ := Option.ne_none_iff_exists'.mp hrule.portsText_ne_none
  obtain ⟨htext, hne⟩ : _ ∧ Graph.fwBuildRule groups rule ≠ "" := cidr_text hname hports
  refine ⟨hne, ?_⟩
  have htail := tailOf_continues hrule
    (by simp : decide (rule.cidr.address.type ≠ .v4) = false ↔ rule.cidr.address.type = .v4)
    hports
  rw [htext, cidrFilter]
  refine htail.parse_prim fun rest hrest => ?_
  unfold Graph.sourceText cidrPrimitive
  rw [if_pos hname]
  split
  · -- A net on one side.
    have hlist : ((if rule.direction = .outbound then "dst" else "src") ++ " net " ++
        rule.cidr.address.str ++ "/" ++ toString rule.cidr.maskSize.toNat).toList =
        (if rule.direction = .outbound then "dst net" else "src net").toList ++
          ' ' :: netText rule.cidr.address.str.toList rule.cidr.maskSize.toNat := by
      split <;> simp [netText]
    rw [hlist]
    refine group_net ?_ (hcidr.numeric hP).2 (hcidr.plain hplain).2 rest
    unfold Rule.peer
    split
    · exact .inr ⟨rfl, rfl⟩
    · exact .inl ⟨rfl, rfl⟩
  · -- All of a family.
    split
    · next hv4 => exact group_family (.inl ⟨by simp [hv4], rfl⟩) rest hrest
    · next hv4 => exact group_family (.inr ⟨by simp [hv4], rfl⟩) rest hrest

end Parse

/-! ## The packets -/

theorem packet_isV6 (side : Pcap.Side) (packet : Packet) :
    (address P side packet).type = if packet.isV6 then .v6 else .v4 := by
  obtain ⟨ends, protocol, srcPort, dstPort⟩ := packet
  cases ends <;> cases side <;> rfl

theorem net_eval {cidr : Cidr} (hcidr : cidr.address.Genuine P)
    (hmask4 : cidr.address.type = .v4 → cidr.maskSize.toNat ≤ 32)
    (hmask6 : cidr.address.type = .v6 → cidr.maskSize.toNat ≤ 128) (side : Pcap.Side)
    (packet : Packet) :
    (Primitive.net side cidr.address.str.toList cidr.maskSize.toNat).eval P.resolver packet =
      true ↔ cidr.Contains (address P side packet) := by
  obtain ⟨ends, protocol, srcPort, dstPort⟩ := packet
  obtain ⟨ip, mask⟩ := cidr
  change ip.Genuine P at hcidr
  unfold Cidr.Contains
  cases hcidr with
  | v4 a =>
      have hle : mask.toNat ≤ 8 * 4 := hmask4 rfl
      cases ends with
      | v4 src dst =>
          cases side with
          | src =>
              simp only [Primitive.eval, String.ofList_toList, read4_ofV4, Option.any_some]
              simp only [samePrefix_iff hle, address, Ip.ofV4, bitAt_copy4, true_and]
          | dst =>
              simp only [Primitive.eval, String.ofList_toList, read4_ofV4, Option.any_some]
              simp only [samePrefix_iff hle, address, Ip.ofV4, bitAt_copy4, true_and]
      | v6 src dst =>
          have htype : ∀ b, (Ip.ofV6 P b).type ≠ (Ip.ofV4 P a).type := by
            intro b h
            cases h
          cases side <;> simp [Primitive.eval, read6_ofV4, address, htype]
  | v6 a =>
      have hle : mask.toNat ≤ 8 * 16 := hmask6 rfl
      cases ends with
      | v4 src dst =>
          have htype : ∀ b, (Ip.ofV4 P b).type ≠ (Ip.ofV6 P a).type := by
            intro b h
            cases h
          cases side <;> simp [Primitive.eval, read4_ofV6, address, htype]
      | v6 src dst =>
          cases side with
          | src =>
              simp only [Primitive.eval, String.ofList_toList, read6_ofV6, Option.any_some]
              simp only [samePrefix_iff hle, address, Ip.ofV6, true_and]
          | dst =>
              simp only [Primitive.eval, String.ofList_toList, read6_ofV6, Option.any_some]
              simp only [samePrefix_iff hle, address, Ip.ofV6, true_and]

theorem Ip.Genuine.type_cases {ip : Ip} (h : ip.Genuine P) : ip.type = .v4 ∨ ip.type = .v6 := by
  cases h with
  | v4 a => exact .inl rfl
  | v6 a => exact .inr rfl

theorem cidrPrimitive_eval {rule : Rule} (hrule : rule.WellFormed P)
    (hcidr : rule.cidr.address.Genuine P) (packet : Packet) :
    (cidrPrimitive rule).eval P.resolver packet = true ↔
      rule.cidr.Contains (address P rule.peer packet) := by
  unfold cidrPrimitive
  split
  · exact net_eval hcidr hrule.mask4 hrule.mask6 rule.peer packet
  · next hzero =>
      have hmask : rule.cidr.maskSize.toNat = 0 := by
        rw [not_not.mp hzero]
        rfl
      rw [Cidr.Contains, packet_isV6, hmask]
      rcases hcidr.type_cases with htype | htype
      · cases hv6 : packet.isV6 <;> simp [Primitive.eval, htype, hv6]
      · cases hv6 : packet.isV6 <;> simp [Primitive.eval, htype, hv6]

theorem tailFilterOf_eval {rule : Rule} {v6 : Bool} (hrule : rule.WellFormed P)
    (hicmp : rule.protocol = 1 → v6 = false) (hicmp6 : rule.protocol = 58 → v6 = true)
    {packet : Packet} (hpacket : packet.isV6 = v6) :
    (∀ g ∈ tailFilterOf v6 rule, g.eval P.resolver packet = true) ↔ rule.Covers packet := by
  have hlow := hrule.protocol.1
  have hnumber : ∀ n : Int16, rule.protocol = n → rule.protocol.toInt = n.toInt :=
    fun n h => by rw [h]
  unfold tailFilterOf Rule.Covers
  by_cases h1 : rule.protocol = 1
  · have hint := hnumber 1 h1
    have hv6 := hicmp h1
    simp [h1, Filter.eval, Primitive.eval, hpacket, hv6]
  rw [if_neg h1]
  by_cases h58 : rule.protocol = 58
  · have hint := hnumber 58 h58
    have hv6 := hicmp6 h58
    simp [h58, Filter.eval, Primitive.eval, hpacket, hv6]
    omega
  rw [if_neg h58]
  by_cases hused : rule.protocol = 6 ∨ rule.protocol = 17
  · obtain ⟨hstart, horder, -⟩ := hrule.ports hused
    have hall : rule.protocol ≠ -1 := by rcases hused with h | h <;> rw [h] <;> decide
    have hnonneg : 0 ≤ rule.protocol.toInt := by
      rcases hused with h | h <;> rw [h] <;> decide
    rw [if_pos hused]
    simp only [Option.mem_def, Option.some.injEq, forall_eq', Filter.eval, Primitive.eval,
      Bool.and_eq_true, beq_iff_eq, decide_eq_true_eq, hall, hused, false_or, true_implies]
    omega
  rw [if_neg hused]
  by_cases hall : rule.protocol = -1
  · simp [hall]
  · have hne : rule.protocol.toInt ≠ -1 := fun h => hall (Int16.toInt_inj.mp h)
    rw [if_neg hall]
    simp only [Option.mem_def, Option.some.injEq, forall_eq', Filter.eval, Primitive.eval,
      Bool.and_eq_true, beq_iff_eq, hpacket, true_and, hall, hused, false_or, false_implies,
      and_true]
    omega

theorem convertRule_cidr {m : MessageV0.Rule} {rule : Rule}
    (hvalid : Api0.validateSgRule P m = true) (hconvert : Api0.convertRule P m = .ok rule)
    (hcidr : m.cidr.isSome) : rule.securityGroup = "" ∧ rule.cidr.address.Genuine P := by
  have hnone : m.securityGroup = none := by
    unfold Api0.validateSgRule at hvalid
    simp only [hcidr, Bool.and_true] at hvalid
    split at hvalid
    · cases hvalid
    · split at hvalid
      · cases hvalid
      · split at hvalid
        · cases hvalid
        · next hsome => simpa using hsome
  rcases (convertRule_cases hconvert).source with ⟨hgroup, -⟩ | ⟨-, hname, c, hc, hconvert'⟩
  · rw [hnone] at hgroup
    cases hgroup
  · refine ⟨hname, (convertCidr_masks ?_ hconvert').1⟩
    exact (validateSgRule_cases hvalid).2.2 c hc

/-! ## What the compiler accepts -/

theorem net_valid {cidr : Cidr} (hcidr : cidr.address.Genuine P)
    (hmask4 : cidr.address.type = .v4 → cidr.maskSize.toNat ≤ 32)
    (hmask6 : cidr.address.type = .v6 → cidr.maskSize.toNat ≤ 128) (side : Pcap.Side) :
    (Primitive.net side cidr.address.str.toList cidr.maskSize.toNat).valid P.resolver = true ↔
      cidr.Aligned := by
  obtain ⟨ip, mask⟩ := cidr
  change ip.Genuine P at hcidr
  cases hcidr with
  | v4 a =>
      rw [aligned_v4_iff a (hmask4 rfl)]
      simp [Primitive.valid, read4_ofV4, read6_ofV4]
  | v6 a =>
      rw [aligned_v6_iff a (hmask6 rfl)]
      simp [Primitive.valid, read4_ofV6, read6_ofV6]

theorem tailFilterOf_valid (v6 : Bool) (rule : Rule) (R : Resolver) :
    ∀ g ∈ tailFilterOf v6 rule, g.valid R = true := by
  unfold tailFilterOf
  intro g hg
  split at hg
  · cases hg
    rfl
  · split at hg
    · cases hg
      rfl
    · split at hg
      · cases hg
        rfl
      · split at hg
        · cases hg
        · cases hg
          rfl

theorem cidrFilter_valid {rule : Rule} (hrule : rule.WellFormed P)
    (hcidr : rule.cidr.address.Genuine P) :
    (cidrFilter rule).valid P.resolver = true ↔
      rule.cidr.maskSize = 0 ∨ rule.cidr.Aligned := by
  have htail := tailFilterOf_valid (decide (rule.cidr.address.type ≠ .v4)) rule P.resolver
  have hsame : (cidrFilter rule).valid P.resolver = (cidrPrimitive rule).valid P.resolver := by
    unfold cidrFilter
    cases hfilter : tailFilterOf (decide (rule.cidr.address.type ≠ .v4)) rule with
    | none => rfl
    | some g => simp [Filter.valid, htail g hfilter]
  rw [hsame, cidrPrimitive]
  split
  · next hmask =>
      rw [net_valid hcidr hrule.mask4 hrule.mask6]
      simp [hmask]
  · next hmask => simp [not_not.mp hmask, Primitive.valid]

/-! ## Packets of a block -/

theorem cidrFilter_eval {rule : Rule} (hrule : rule.WellFormed P)
    (hcidr : rule.cidr.address.Genuine P)
    (hicmp : rule.protocol = 1 → rule.cidr.address.type = .v4)
    (hicmp6 : rule.protocol = 58 → rule.cidr.address.type = .v6) (packet : Packet) :
    (cidrFilter rule).eval P.resolver packet = true ↔
      rule.cidr.Contains (address P rule.peer packet) ∧ rule.Covers packet := by
  have hsplit : (cidrFilter rule).eval P.resolver packet = true ↔
      (cidrPrimitive rule).eval P.resolver packet = true ∧
        ∀ g ∈ tailFilterOf (decide (rule.cidr.address.type ≠ .v4)) rule,
          g.eval P.resolver packet = true := by
    unfold cidrFilter
    cases tailFilterOf (decide (rule.cidr.address.type ≠ .v4)) rule with
    | none => simp [Filter.eval]
    | some g => simp [Filter.eval]
  rw [hsplit, cidrPrimitive_eval hrule hcidr]
  refine and_congr_right fun hcontains => tailFilterOf_eval hrule ?_ ?_ ?_
  · intro h1
    simp [hicmp h1]
  · intro h58
    simp [hicmp6 h58]
  · -- The block is of the family of its addresses.
    have htype := hcontains.1
    rw [packet_isV6] at htype
    cases hv6 : packet.isV6 <;> simp [hv6] at htype <;> simp [← htype]

/--
A rule with a CIDR that has no bits behind its mask, of a message that passes
validation, compiles and matches the packets whose peer is in the block and that the
rule covers, and no others.
-/
theorem cidr_rule_exact (hP : NumericTexts P) (hplain : PlainTexts P)
    (groups : ExtTreeMap String Sg) {m : MessageV0.Rule} {rule : Rule}
    (hvalid : Api0.validateSgRule P m = true) (hconvert : Api0.convertRule P m = .ok rule)
    (hcidr : m.cidr.isSome)
    (hicmp : rule.protocol = 1 → rule.cidr.address.type = .v4)
    (hicmp6 : rule.protocol = 58 → rule.cidr.address.type = .v6)
    (haligned : rule.cidr.Aligned) :
    compiles P.resolver (Graph.fwBuildRule groups rule) = true ∧
      ∀ packet, Matched P (Graph.fwBuildRule groups rule) packet ↔
        rule.cidr.Contains (address P rule.peer packet) ∧ rule.Covers packet := by
  have hrule := convertRule_wellFormed hvalid hconvert
  obtain ⟨hname, hgenuine⟩ := convertRule_cidr hvalid hconvert hcidr
  obtain ⟨hne, hparse⟩ : Graph.fwBuildRule groups rule ≠ "" ∧ _ :=
    parse_cidrRule hP hplain hrule hname hgenuine
  constructor
  · rw [compiles, hparse]
    exact (cidrFilter_valid hrule hgenuine).mpr (.inr haligned)
  · intro packet
    rw [← cidrFilter_eval hrule hgenuine hicmp hicmp6, Matched, admits, hparse]
    simp [hne]

def blockRule : MessageV0.Rule :=
  { direction := .outbound, protocol := 6, portStart := some 80, portEnd := some 443
    cidr := some { address := "10.0.0.0", maskSize := 8 } }

theorem cidr_rule_exact_block_rule :
    ∃ rule, Api0.convertRule Libc.platform blockRule = .ok rule ∧
      compiles Libc.platform.resolver (Graph.fwBuildRule ∅ rule) = true ∧
      ∀ packet, Matched Libc.platform (Graph.fwBuildRule ∅ rule) packet ↔
        rule.cidr.Contains (address Libc.platform .dst packet) ∧ rule.Covers packet := by
  have hvalid : Api0.validateSgRule Libc.platform blockRule = true := by decide
  refine ⟨_, rfl, cidr_rule_exact libc_numericTexts libc_plainTexts ∅ hvalid rfl rfl ?_ ?_ ?_⟩
  · exact fun _ => rfl
  · exact fun h => absurd h (by decide)
  · exact (aligned_v4_iff #v[10, 0, 0, 0] (by decide)).mpr (by decide)

/-! ## Enforceable rules -/

/--
The compiler takes the filter of a rule, and the inbound filter of every NIC with the
rule, if there is no other rule that it does not take.
-/
structure Enforceable (P : Platform) (groups : ExtTreeMap String Sg) (rule : Rule) : Prop where
  alone : compiles P.resolver (Graph.fwBuildRule groups rule) = true
  together : ∀ nic : Nic,
    (∃ name ∈ nic.securityGroups, rule ∈ rulesOf groups name) →
    (∀ name ∈ nic.securityGroups, ∀ other ∈ rulesOf groups name, other ≠ rule →
      Graph.fwBuildRule groups other = "" ∨
        compiles P.resolver (Graph.fwBuildRule groups other) = true) →
    compiles P.resolver (Graph.inRules groups nic) = true

theorem compiles_orText {R : Resolver} {texts : List String} (hne : texts ≠ [])
    (h : ∀ text ∈ texts, compiles R text = true) : compiles R (orText texts) = true := by
  have hparse : ∀ text ∈ texts, (parse text).isSome := by
    intro text htext
    obtain ⟨f, hf, -⟩ := (Option.any_eq_true _ _).mp (h text htext)
    exact Option.isSome_iff_exists.mpr ⟨f, hf⟩
  obtain ⟨f, hf, hjoin⟩ := parse_orText (R := R) hne hparse
  rw [compiles, hf, Option.any_some, hjoin.valid]
  exact List.all_eq_true.mpr h

theorem inRules_ne_empty {groups : ExtTreeMap String Sg} {nic : Nic} {text : String}
    (htext : text ∈ admitted groups nic) : Graph.inRules groups nic ≠ "" := by
  rw [inRules_eq, Ne, orLoop_eq_empty_iff]
  intro hempty
  rw [admitted, List.mem_filter, List.mem_flatten] at htext
  obtain ⟨⟨texts, htexts, hmem⟩, hne⟩ := htext
  have hgroup := hempty _ (List.mem_map_of_mem htexts)
  rw [orLoop_eq_empty_iff] at hgroup
  exact of_decide_eq_true hne (hgroup text hmem)

theorem inRules_compiles {groups : ExtTreeMap String Sg} {nic : Nic}
    (hne : Graph.inRules groups nic ≠ "")
    (hall : ∀ text ∈ admitted groups nic, compiles P.resolver text = true) :
    compiles P.resolver (Graph.inRules groups nic) = true := by
  rw [inRules_eq] at hne ⊢
  obtain ⟨atoms, hjoins, hatoms⟩ := joins_orLoop_map hne
  refine (hjoins.holds (fun text => compiles P.resolver text = true) (fun _ => True)
    compiles_orText ?_ ?_).1
  · intro texts htexts _
    obtain ⟨text, htext⟩ := List.exists_mem_of_ne_nil _ htexts
    simpa using ⟨text, htext⟩
  · exact fun a ha => hall a ((hatoms a).mp ha)

/--
The compiler takes a rule with a CIDR, of a message that passes validation, if and only
if the mask is zero or the address has no bits behind it.
-/
theorem cidr_rule_enforceable_iff (hP : NumericTexts P) (hplain : PlainTexts P)
    (groups : ExtTreeMap String Sg) {m : MessageV0.Rule} {rule : Rule}
    (hvalid : Api0.validateSgRule P m = true) (hconvert : Api0.convertRule P m = .ok rule)
    (hcidr : m.cidr.isSome) :
    Enforceable P groups rule ↔ rule.cidr.maskSize = 0 ∨ rule.cidr.Aligned := by
  have hrule := convertRule_wellFormed hvalid hconvert
  obtain ⟨hname, hgenuine⟩ := convertRule_cidr hvalid hconvert hcidr
  obtain ⟨hne, hparse⟩ : Graph.fwBuildRule groups rule ≠ "" ∧ _ :=
    parse_cidrRule hP hplain hrule hname hgenuine
  have hcompiles : compiles P.resolver (Graph.fwBuildRule groups rule) = true ↔
      rule.cidr.maskSize = 0 ∨ rule.cidr.Aligned := by
    rw [← cidrFilter_valid hrule hgenuine, compiles, hparse, Option.any_some]
  constructor
  · exact fun h => hcompiles.mp h.alone
  · intro hmask
    refine ⟨hcompiles.mpr hmask, ?_⟩
    rintro nic ⟨name, hin, hmem⟩ hothers
    have hadmitted : Graph.fwBuildRule groups rule ∈ admitted groups nic :=
      mem_admitted.mpr ⟨hne, name, hin, rule, hmem, rfl⟩
    refine inRules_compiles (inRules_ne_empty hadmitted) ?_
    · intro text htext
      obtain ⟨hnonempty, name, hin, other, hother, rfl⟩ := mem_admitted.mp htext
      by_cases heq : other = rule
      · rw [heq]
        exact hcompiles.mpr hmask
      · exact (hothers name hin other hother heq).resolve_left hnonempty

theorem cidr_rule_enforceable_block_rule :
    ∃ rule, Api0.convertRule Libc.platform blockRule = .ok rule ∧
      Enforceable Libc.platform ∅ rule := by
  have hvalid : Api0.validateSgRule Libc.platform blockRule = true := by decide
  refine ⟨_, rfl, (cidr_rule_enforceable_iff libc_numericTexts libc_plainTexts ∅ hvalid rfl
    rfl).mpr (.inr ?_)⟩
  exact (aligned_v4_iff #v[10, 0, 0, 0] (by decide)).mpr (by decide)

def hostBitsRule : MessageV0.Rule :=
  { direction := .inbound, protocol := -1
    cidr := some { address := "10.0.0.1", maskSize := 8 } }

theorem host_bits_not_enforceable :
    ∃ rule, Api0.validateSgRule Libc.platform hostBitsRule = true ∧
      Api0.convertRule Libc.platform hostBitsRule = .ok rule ∧
      ¬Enforceable Libc.platform ∅ rule := by
  refine ⟨_, by decide, rfl, fun henforceable => ?_⟩
  have hcompiles := henforceable.alone
  revert hcompiles
  decide +kernel

end Butterfly
