import Butterfly.Foundation.Pcap
import Butterfly.RuleStore

/-!
# Rules that name a group

`FwBuildRule` writes the filter of a rule as a text.  This module reads the text
back: which packets the filter of a rule with a group name lets through, and when
all of them come from, or go to, members of the group.
-/

namespace Butterfly

open Std Foundation Foundation.Pcap

/-- What `inet_ntop` writes: digits, dots and colons. -/
structure NumericTexts (P : Platform) : Prop where
  four : ∀ address, P.inetNtop4 address ≠ "" ∧ ∀ c ∈ (P.inetNtop4 address).toList, IsNumeric c
  six : ∀ address, P.inetNtop6 address ≠ "" ∧ ∀ c ∈ (P.inetNtop6 address).toList, IsNumeric c

variable {P : Platform}

theorem Ip.Genuine.numeric (hP : NumericTexts P) {ip : Ip} (h : ip.Genuine P) :
    ip.str.toList ≠ [] ∧ ∀ c ∈ ip.str.toList, IsNumeric c := by
  rw [ne_eq, String.toList_eq_nil_iff]
  cases h with
  | v4 address => exact hP.four address
  | v6 address => exact hP.six address

/-! ## The members -/

theorem tokens_srcHost (cs : List Char) :
    tokens (" src host ".toList ++ cs) = .src :: .host :: tokens cs :=
  tokens_append_blank " src host".toList cs

def memberTokens : List Ip → List Token
  | [] => []
  | [ip] => [.src, .host, .word ip.str.toList]
  | ip :: ips => .src :: .host :: .word ip.str.toList :: .or :: memberTokens ips

theorem lex_membersText (ip : Ip) (ips : List Ip) (cs : List Char) :
    (lex ((Graph.membersText (ip :: ips)).toList ++ cs)).1 = [] := by
  cases ips with
  | nil =>
      rw [Graph.membersText, String.toList_append]
      rfl
  | cons ip' ips =>
      rw [Graph.membersText, String.toList_append, String.toList_append, String.toList_append]
      · rfl
      · exact List.cons_ne_nil _ _

theorem tokens_membersText (hP : NumericTexts P) {ips : List Ip}
    (hips : ∀ ip ∈ ips, ip.Genuine P) (cs : List Char) :
    tokens ((Graph.membersText ips).toList ++ ')' :: cs) =
      memberTokens ips ++ .rpar :: tokens cs := by
  fun_induction memberTokens ips with
  | case1 => rfl
  | case2 ip =>
      obtain ⟨hne, hchars⟩ := (hips ip List.mem_cons_self).numeric hP
      rw [Graph.membersText, String.toList_append, List.append_assoc, tokens_srcHost,
        tokens_numeric hne hchars (lex_delimiter (.inr (.inr rfl)) cs)]
      rfl
  | case3 ip ips hmore ih =>
      obtain ⟨hne, hchars⟩ := (hips ip List.mem_cons_self).numeric hP
      obtain ⟨ip', rest, rfl⟩ := List.exists_cons_of_ne_nil hmore
      have hblank : (lex (" or".toList ++ ((Graph.membersText (ip' :: rest)).toList ++
          ')' :: cs))).1 = [] := lex_delimiter (.inl rfl) _
      have hor : tokens (" or".toList ++ ((Graph.membersText (ip' :: rest)).toList ++ ')' :: cs)) =
          .or :: tokens ((Graph.membersText (ip' :: rest)).toList ++ ')' :: cs) :=
        tokens_append (lex_membersText ip' rest _) " or".toList
      rw [Graph.membersText, String.toList_append, String.toList_append,
        String.toList_append, List.append_assoc, List.append_assoc, List.append_assoc,
        tokens_srcHost, tokens_numeric hne hchars hblank, hor,
        ih fun ip hip => hips ip (List.mem_cons_of_mem _ hip)]
      · rfl
      · exact hmore

/-! ## Protocol and ports -/

theorem toString_toInt {n : Int} (hn : 0 ≤ n) : toString n = toString n.toNat := by
  obtain ⟨k, rfl⟩ := Int.eq_ofNat_of_zero_le hn
  rfl

def tailFilter (rule : Rule) : Option Filter :=
  if rule.protocol = 1 then some (.prim (.proto false 1))
  else if rule.protocol = 58 then some (.prim (.proto true 58))
  else if rule.protocol = 6 ∨ rule.protocol = 17 then
    some (.prim (.ports rule.protocol.toInt.toNat .dst rule.portStart.toInt.toNat
      rule.portEnd.toInt.toNat))
  else if rule.protocol = -1 then none
  else some (.prim (.proto true rule.protocol.toInt.toNat))

theorem portsText_cases {rule : Rule} {ports : String} (hrule : rule.WellFormed P)
    (hprotocol : rule.protocol = 6 ∨ rule.protocol = 17)
    (hports : Graph.portsText rule = some ports) :
    (rule.portStart.toInt.toNat = rule.portEnd.toInt.toNat ∧
      ports.toList = " dst port".toList ++ ' ' :: (toString rule.portEnd.toInt.toNat).toList) ∨
    ports.toList = " dst portrange".toList ++
      ' ' :: rangeText rule.portStart.toInt.toNat rule.portEnd.toInt.toNat := by
  obtain ⟨hlow, horder, hhigh⟩ := hrule.ports hprotocol
  unfold Graph.portsText at hports
  rw [if_pos hprotocol] at hports
  split at hports
  · split at hports
    · next heq =>
        cases hports
        refine .inl ⟨by rw [heq], ?_⟩
        rw [String.toList_append, toString_toInt (hlow.trans horder)]
        rfl
    · split at hports
      · cases hports
        right
        rw [String.toList_append, String.toList_append, String.toList_append,
          toString_toInt hlow, toString_toInt (hlow.trans horder), rangeText]
        simp
      · cases hports
  · cases hports

theorem ports_continue {rule : Rule} {ports : String} (hrule : rule.WellFormed P)
    (hprotocol : rule.protocol = 6 ∨ rule.protocol = 17)
    (hports : Graph.portsText rule = some ports) :
    Continues ((Graph.protocolText rule).toList ++ ports.toList)
      (some (.prim (.ports rule.protocol.toInt.toNat .dst rule.portStart.toInt.toNat
        rule.portEnd.toInt.toNat))) := by
  have htext : rule.protocol.toInt.toNat = 6 ∧ Graph.protocolText rule = " and tcp" ∨
      rule.protocol.toInt.toNat = 17 ∧ Graph.protocolText rule = " and udp" := by
    rcases hprotocol with h | h
    · exact .inl ⟨by rw [h]; rfl, by simp [Graph.protocolText, h]⟩
    · exact .inr ⟨by rw [h]; rfl, by simp [Graph.protocolText, h]⟩
  rcases portsText_cases hrule hprotocol hports with ⟨heq, hlist⟩ | hlist
  · rw [hlist, heq, ← List.append_assoc]
    refine .port (htext.imp (fun h => ⟨h.1, ?_⟩) fun h => ⟨h.1, ?_⟩)
    · rw [h.2]
      rfl
    · rw [h.2]
      rfl
  · rw [hlist, ← List.append_assoc]
    refine .portrange (htext.imp (fun h => ⟨h.1, ?_⟩) fun h => ⟨h.1, ?_⟩)
    · rw [h.2]
      rfl
    · rw [h.2]
      rfl

def tailFilterOf (v6 : Bool) (rule : Rule) : Option Filter :=
  if rule.protocol = 1 then some (.prim (.proto false 1))
  else if rule.protocol = 58 then some (.prim (.proto true 58))
  else if rule.protocol = 6 ∨ rule.protocol = 17 then
    some (.prim (.ports rule.protocol.toInt.toNat .dst rule.portStart.toInt.toNat
      rule.portEnd.toInt.toNat))
  else if rule.protocol = -1 then none
  else some (.prim (.proto v6 rule.protocol.toInt.toNat))

theorem tailOf_continues {rule : Rule} {ports : String} {v6 : Bool} (hrule : rule.WellFormed P)
    (hv6 : v6 = false ↔ rule.cidr.address.type = .v4)
    (hports : Graph.portsText rule = some ports) :
    Continues ((Graph.protocolText rule).toList ++ ports.toList) (tailFilterOf v6 rule) := by
  by_cases hused : rule.protocol = 6 ∨ rule.protocol = 17
  · have hfilter : tailFilterOf v6 rule = some (.prim (.ports rule.protocol.toInt.toNat .dst
        rule.portStart.toInt.toNat rule.portEnd.toInt.toNat)) := by
      rcases hused with h | h <;> simp [tailFilterOf, h]
    rw [hfilter]
    exact ports_continue hrule hused hports
  · rw [Graph.portsText, if_neg hused] at hports
    cases hports
    rw [String.toList_empty, List.append_nil]
    obtain ⟨h6, h17⟩ := not_or.mp hused
    unfold Graph.protocolText tailFilterOf
    rw [if_neg hused, if_neg h6, if_neg h17]
    split
    · exact .prim rfl rfl rfl
    · split
      · exact .prim rfl rfl rfl
      · split
        · exact .nil
        · next hall =>
            have hnonneg : 0 ≤ rule.protocol.toInt := by
              have hne : rule.protocol.toInt ≠ -1 :=
                fun h => hall (Int16.toInt_inj.mp h)
              have hlow := hrule.protocol.1
              omega
            rw [toString_toInt hnonneg]
            split
            · next hv4 =>
                rw [String.toList_append, String.toList_append]
                exact .proto (.inl ⟨hv6.mpr hv4, rfl⟩) rule.protocol.toInt.toNat
            · next hv4 =>
                rw [String.toList_append, String.toList_append]
                refine .proto (.inr ⟨?_, rfl⟩) rule.protocol.toInt.toNat
                exact Bool.eq_true_of_not_eq_false (mt hv6.mp hv4)

theorem tail_continues {rule : Rule} {ports : String} (hrule : rule.WellFormed P)
    (hcidr : rule.cidr = {}) (hports : Graph.portsText rule = some ports) :
    Continues ((Graph.protocolText rule).toList ++ ports.toList) (tailFilter rule) :=
  tailOf_continues hrule (by simp [hcidr]) hports

/-! ## The whole filter -/

def hostFilter (ip : Ip) : Filter := .prim (.host .src ip.str.toList)

def membersFilter (ip : Ip) (ips : List Ip) : Filter :=
  ips.foldl (fun f ip => f.or (hostFilter ip)) (hostFilter ip)

theorem run_memberTokens {ip : Ip} {ips : List Ip} {frame : Pcap.Frame} {f : Filter}
    (hframe : frame.operand (hostFilter ip) = some (.whole f)) (ts : List Token)
    (frames : List Pcap.Frame) :
    run (memberTokens (ip :: ips) ++ ts) (frame :: frames) =
      run ts (.whole (ips.foldl (fun f ip => f.or (hostFilter ip)) f) :: frames) := by
  induction ips generalizing ip frame f with
  | nil => exact run_prim rfl hframe
  | cons ip' ips ih =>
      have hfirst : run (memberTokens (ip :: ip' :: ips) ++ ts) (frame :: frames) =
          run (.or :: (memberTokens (ip' :: ips) ++ ts)) (.whole f :: frames) :=
        run_prim rfl hframe
      rw [hfirst, run_or, ih rfl]
      rfl

/-- The filter of a rule, as `FwBuildRule` means it. -/
def ruleFilter (source : Filter) (rule : Rule) : Filter :=
  (tailFilter rule).elim source source.and

theorem parse_memberRule (hP : NumericTexts P) {rule : Rule} {ports : String} {ip : Ip}
    {ips : List Ip} (hrule : rule.WellFormed P) (hcidr : rule.cidr = {})
    (hports : Graph.portsText rule = some ports) (hips : ∀ member ∈ ip :: ips, member.Genuine P) :
    parse (" (" ++ Graph.membersText (ip :: ips) ++ ")" ++ Graph.protocolText rule ++ ports) =
      some (ruleFilter (membersFilter ip ips) rule) := by
  have htail := tail_continues hrule hcidr hports
  have hlist : (" (" ++ Graph.membersText (ip :: ips) ++ ")" ++ Graph.protocolText rule ++
      ports).toList = ' ' :: '(' :: ((Graph.membersText (ip :: ips)).toList ++
        ')' :: ((Graph.protocolText rule).toList ++ ports.toList)) := by
    simp
  rw [parse, hlist, tokens_blank, tokens_lpar, tokens_membersText hP hips, run_lpar_start,
    run_memberTokens rfl, run_rpar _ rfl, htail.reads]
  rfl

theorem parse_unnamedRule {rule : Rule} {ports : String} (hrule : rule.WellFormed P)
    (hcidr : rule.cidr = {}) (hports : Graph.portsText rule = some ports) :
    parse ("ip6" ++ Graph.protocolText rule ++ ports) =
      some (ruleFilter (.prim (.family true)) rule) := by
  have htail := tail_continues hrule hcidr hports
  have htext : "ip6" ++ Graph.protocolText rule ++ ports =
      String.ofList ("ip6".toList ++ ((Graph.protocolText rule).toList ++ ports.toList)) := by
    rw [← String.toList_inj]
    simp
  rw [htext, htail.parse_prim (group_family (.inr ⟨rfl, rfl⟩))]
  rfl

/-! ## The packets it lets through -/

def Platform.resolver (P : Platform) : Resolver :=
  { read4 := P.inetPton4, read6 := P.inetPton6 }

def address (P : Platform) (side : Pcap.Side) (packet : Packet) : Ip :=
  match side, packet.ends with
  | .src, .v4 src _ => .ofV4 P src
  | .dst, .v4 _ dst => .ofV4 P dst
  | .src, .v6 src _ => .ofV6 P src
  | .dst, .v6 _ dst => .ofV6 P dst

theorem copy4_injective {a b : Vector UInt8 4} {data : Vector UInt8 16}
    (h : Ip.copy4 data a = Ip.copy4 data b) : a = b := by
  apply Vector.ext
  intro i hi
  have hget := congrArg (fun v : Vector UInt8 16 => v[i]) h
  simpa [Ip.copy4, hi] using hget

theorem ofV4_inj {a b : Vector UInt8 4} : Ip.ofV4 P a = Ip.ofV4 P b ↔ a = b := by
  refine ⟨fun h => copy4_injective (congrArg Ip.data h), fun h => by rw [h]⟩

theorem ofV6_inj {a b : Vector UInt8 16} : Ip.ofV6 P a = Ip.ofV6 P b ↔ a = b :=
  ⟨fun h => congrArg Ip.data h, fun h => by rw [h]⟩

theorem ofV4_ne_ofV6 {a : Vector UInt8 4} {b : Vector UInt8 16} :
    Ip.ofV4 P a ≠ Ip.ofV6 P b :=
  fun h => nomatch congrArg Ip.type h

/-! How the texts of the addresses of the model are read. -/

theorem read4_ofV4 (a : Vector UInt8 4) : P.resolver.read4 (Ip.ofV4 P a).str = some a :=
  P.pton4_ntop4 a

theorem read6_ofV6 (a : Vector UInt8 16) : P.resolver.read6 (Ip.ofV6 P a).str = some a :=
  P.pton6_ntop6 a

theorem read6_ofV4 (a : Vector UInt8 4) : P.resolver.read6 (Ip.ofV4 P a).str = none :=
  P.pton6_of_pton4 (P.pton4_ntop4 a)

theorem read4_ofV6 (a : Vector UInt8 16) : P.resolver.read4 (Ip.ofV6 P a).str = none := by
  cases h : P.resolver.read4 (Ip.ofV6 P a).str with
  | none => rfl
  | some b =>
      have hnone : P.resolver.read6 (Ip.ofV6 P a).str = none := P.pton6_of_pton4 h
      rw [read6_ofV6 a] at hnone
      cases hnone

theorem hostFilter_eval {ip : Ip} (hip : ip.Genuine P) (packet : Packet) :
    (hostFilter ip).eval P.resolver packet = true ↔ address P .src packet = ip := by
  obtain ⟨ends, protocol, srcPort, dstPort⟩ := packet
  cases hip with
  | v4 a =>
      cases ends with
      | v4 src dst =>
          simp only [hostFilter, Filter.eval, Primitive.eval, String.ofList_toList, address,
            read4_ofV4, beq_iff_eq, Option.some_inj, ofV4_inj]
          exact eq_comm
      | v6 src dst =>
          simp [hostFilter, Filter.eval, Primitive.eval, address, read6_ofV4, ofV4_ne_ofV6.symm]
  | v6 a =>
      cases ends with
      | v4 src dst =>
          simp [hostFilter, Filter.eval, Primitive.eval, address, read4_ofV6, ofV4_ne_ofV6]
      | v6 src dst =>
          simp only [hostFilter, Filter.eval, Primitive.eval, String.ofList_toList, address,
            read6_ofV6, beq_iff_eq, Option.some_inj, ofV6_inj]
          exact eq_comm

theorem foldl_or_eval {ips : List Ip} (hips : ∀ ip ∈ ips, ip.Genuine P) (f : Filter)
    (packet : Packet) :
    (ips.foldl (fun f ip => f.or (hostFilter ip)) f).eval P.resolver packet = true ↔
      f.eval P.resolver packet = true ∨ address P .src packet ∈ ips := by
  induction ips generalizing f with
  | nil => simp
  | cons ip ips ih =>
      rw [List.foldl_cons, ih fun ip hip => hips ip (List.mem_cons_of_mem _ hip), Filter.eval,
        Bool.or_eq_true, hostFilter_eval (hips ip List.mem_cons_self), List.mem_cons, or_assoc]

theorem membersFilter_eval {ip : Ip} {ips : List Ip}
    (hips : ∀ member ∈ ip :: ips, member.Genuine P) (packet : Packet) :
    (membersFilter ip ips).eval P.resolver packet = true ↔
      address P .src packet ∈ ip :: ips := by
  rw [membersFilter, foldl_or_eval fun ip hip => hips ip (List.mem_cons_of_mem _ hip),
    hostFilter_eval (hips ip List.mem_cons_self), List.mem_cons]

def Rule.tailAdmits (rule : Rule) (packet : Packet) : Prop :=
  if rule.protocol = 1 then packet.isV6 = false ∧ packet.protocol.toNat = 1
  else if rule.protocol = -1 then True
  else if rule.protocol = 6 ∨ rule.protocol = 17 then
    (packet.protocol.toNat : Int) = rule.protocol.toInt ∧
      rule.portStart.toInt ≤ packet.dstPort.toNat ∧ packet.dstPort.toNat ≤ rule.portEnd.toInt
  else packet.isV6 = true ∧ (packet.protocol.toNat : Int) = rule.protocol.toInt

theorem tailFilter_eval {rule : Rule} (hrule : rule.WellFormed P) (packet : Packet) :
    (∀ g ∈ tailFilter rule, g.eval P.resolver packet = true) ↔ rule.tailAdmits packet := by
  unfold tailFilter Rule.tailAdmits
  have hlow := hrule.protocol.1
  by_cases h1 : rule.protocol = 1
  · simp [h1, Filter.eval, Primitive.eval]
  rw [if_neg h1, if_neg h1]
  by_cases hused : rule.protocol = 6 ∨ rule.protocol = 17
  · obtain ⟨hstart, horder, -⟩ := hrule.ports hused
    have h58 : rule.protocol ≠ 58 := by rcases hused with h | h <;> rw [h] <;> decide
    have hall : rule.protocol ≠ -1 := by rcases hused with h | h <;> rw [h] <;> decide
    have hprotocol : 0 ≤ rule.protocol.toInt := by
      rcases hused with h | h <;> rw [h] <;> decide
    rw [if_neg h58, if_pos hused, if_neg hall, if_pos hused]
    simp only [Option.mem_def, Option.some.injEq, forall_eq', Filter.eval, Primitive.eval,
      Bool.and_eq_true, beq_iff_eq, decide_eq_true_eq]
    omega
  rw [if_neg hused, if_neg hused]
  by_cases h58 : rule.protocol = 58
  · have hint : rule.protocol.toInt = 58 := by
      rw [h58]
      rfl
    rw [if_pos h58, if_neg (by rw [h58]; decide), hint]
    simp only [Option.mem_def, Option.some.injEq, forall_eq', Filter.eval, Primitive.eval,
      Bool.and_eq_true, beq_iff_eq]
    refine and_congr_right fun _ => ?_
    omega
  rw [if_neg h58]
  by_cases hall : rule.protocol = -1
  · simp [hall]
  · have hne : rule.protocol.toInt ≠ -1 := fun h => hall (Int16.toInt_inj.mp h)
    rw [if_neg hall, if_neg hall]
    simp only [Option.mem_def, Option.some.injEq, forall_eq', Filter.eval, Primitive.eval,
      Bool.and_eq_true, beq_iff_eq]
    refine and_congr_right fun _ => ?_
    omega

theorem ruleFilter_eval {rule : Rule} (hrule : rule.WellFormed P) (source : Filter)
    (packet : Packet) :
    (ruleFilter source rule).eval P.resolver packet = true ↔
      source.eval P.resolver packet = true ∧ rule.tailAdmits packet := by
  rw [← tailFilter_eval hrule, ruleFilter]
  cases tailFilter rule with
  | none => simp
  | some g => simp [Filter.eval]

def Matched (P : Platform) (text : String) (packet : Packet) : Prop :=
  text ≠ "" ∧ admits P.resolver text packet = true

def Rule.sourceAdmits (P : Platform) (groups : ExtTreeMap String Sg) (rule : Rule)
    (packet : Packet) : Prop :=
  if rule.securityGroup = "" then packet.isV6 = true
  else ∃ sg, groups[rule.securityGroup]? = some sg ∧ address P .src packet ∈ sg.members

theorem matched_of_source {groups : ExtTreeMap String Sg} {rule : Rule} {source ports : String}
    {f : Filter} (hsource : Graph.sourceText groups rule = source) (hne : source ≠ "")
    (hports : Graph.portsText rule = some ports)
    (hparse : parse (source ++ Graph.protocolText rule ++ ports) = some f) (packet : Packet) :
    Matched P (Graph.fwBuildRule groups rule) packet ↔ f.eval P.resolver packet = true := by
  have htext : Graph.fwBuildRule groups rule = source ++ Graph.protocolText rule ++ ports := by
    unfold Graph.fwBuildRule
    simp only [hsource, hports, if_neg hne]
  rw [htext]
  unfold Matched admits
  rw [hparse]
  refine ⟨fun hm => hm.2, fun hf => ⟨fun hempty => hne ?_, hf⟩⟩
  rw [String.append_assoc, String.append_eq_empty_iff] at hempty
  exact hempty.1

theorem not_matched_of_source {groups : ExtTreeMap String Sg} {rule : Rule}
    (hsource : Graph.sourceText groups rule = "") (packet : Packet) :
    ¬Matched P (Graph.fwBuildRule groups rule) packet := by
  intro h
  unfold Graph.fwBuildRule at h
  simp only [hsource, if_pos] at h
  exact h.1 rfl

theorem fwBuildRule_matched_iff (hP : NumericTexts P) {groups : ExtTreeMap String Sg}
    (hgroups : ∀ (id : String) (sg : Sg), groups[id]? = some sg →
      ∀ ip ∈ sg.members, ip.Genuine P)
    {rule : Rule} (hrule : rule.WellFormed P) (hcidr : rule.cidr = {}) (packet : Packet) :
    Matched P (Graph.fwBuildRule groups rule) packet ↔
      rule.sourceAdmits P groups packet ∧ rule.tailAdmits packet := by
  obtain ⟨ports, hports⟩ := Option.ne_none_iff_exists'.mp hrule.portsText_ne_none
  unfold Rule.sourceAdmits
  by_cases hname : rule.securityGroup = ""
  · have hsource : Graph.sourceText groups rule = "ip6" := by
      simp [Graph.sourceText, hname, hcidr]
    rw [matched_of_source hsource (by decide) hports (parse_unnamedRule hrule hcidr hports),
      ruleFilter_eval hrule, if_pos hname]
    simp [Filter.eval, Primitive.eval]
  · rw [if_neg hname]
    cases hsg : groups[rule.securityGroup]? with
    | none =>
        have hsource : Graph.sourceText groups rule = "" := by
          simp [Graph.sourceText, hname, hsg]
        simp [not_matched_of_source hsource]
    | some sg =>
        have hips := hgroups _ _ hsg
        cases hmembers : sg.members with
        | nil =>
            have hsource : Graph.sourceText groups rule = "" := by
              simp [Graph.sourceText, hname, hsg, hmembers]
            simp [not_matched_of_source hsource, hmembers]
        | cons ip ips =>
            have hsource : Graph.sourceText groups rule =
                " (" ++ Graph.membersText (ip :: ips) ++ ")" := by
              simp [Graph.sourceText, hname, hsg, hmembers]
            have hne : " (" ++ Graph.membersText (ip :: ips) ++ ")" ≠ "" := by
              simp
            rw [hmembers] at hips
            rw [matched_of_source hsource hne hports (parse_memberRule hP hrule hcidr hports hips),
              ruleFilter_eval hrule, membersFilter_eval hips]
            simp [hmembers]

/-! ## Soundness -/

/-- The side of a packet that the group of a rule is about. -/
def Rule.peer (rule : Rule) : Pcap.Side :=
  if rule.direction = .outbound then .dst else .src

def Rule.Covers (rule : Rule) (packet : Packet) : Prop :=
  (rule.protocol = -1 ∨ (packet.protocol.toNat : Int) = rule.protocol.toInt) ∧
    (rule.protocol = 6 ∨ rule.protocol = 17 →
      rule.portStart.toInt ≤ packet.dstPort.toNat ∧ packet.dstPort.toNat ≤ rule.portEnd.toInt)

/-- The filter of a rule matches packets of members only. -/
def MemberSound (P : Platform) (groups : ExtTreeMap String Sg) (rule : Rule) : Prop :=
  ∀ packet, Matched P (Graph.fwBuildRule groups rule) packet →
    (∃ sg, groups[rule.securityGroup]? = some sg ∧ address P rule.peer packet ∈ sg.members) ∧
      rule.Covers packet

theorem Rule.tailAdmits.covers {rule : Rule} {packet : Packet} (h : rule.tailAdmits packet) :
    rule.Covers packet := by
  unfold Rule.tailAdmits at h
  unfold Rule.Covers
  split at h
  · next h1 =>
      refine ⟨.inr ?_, fun hused => ?_⟩
      · rw [h1, h.2]
        rfl
      · rw [h1] at hused
        exact absurd hused (by decide)
  · split at h
    · next hall =>
        refine ⟨.inl hall, fun hused => ?_⟩
        rw [hall] at hused
        exact absurd hused (by decide)
    · split at h
      · exact ⟨.inr h.1, fun _ => h.2⟩
      · next hports => exact ⟨.inr h.2, fun hused => absurd hused hports⟩

def Rule.AllowsV4 (rule : Rule) : Prop :=
  rule.protocol = -1 ∨ rule.protocol = 1 ∨ rule.protocol = 6 ∨ rule.protocol = 17

theorem Rule.tailAdmits.allowsV4 {rule : Rule} {packet : Packet} (h : rule.tailAdmits packet)
    (hv4 : packet.isV6 = false) : rule.AllowsV4 := by
  unfold Rule.tailAdmits at h
  split at h
  · next h1 => exact .inr (.inl h1)
  · split at h
    · next hall => exact .inl hall
    · split at h
      · next hused => exact .inr (.inr hused)
      · rw [hv4] at h
        exact absurd h.1 (by decide)

theorem Rule.tailAdmits.not_icmp {rule : Rule} {packet : Packet} (h : rule.tailAdmits packet)
    (hv6 : packet.isV6 = true) : rule.protocol ≠ 1 := by
  intro h1
  rw [Rule.tailAdmits, if_pos h1, hv6] at h
  exact absurd h.1 (by decide)

def Rule.samplePacket (rule : Rule) (ends : Endpoints) : Packet :=
  { ends := ends
    protocol := UInt8.ofNat rule.protocol.toInt.toNat
    srcPort := 0
    dstPort := UInt16.ofNat rule.portStart.toInt.toNat }

theorem samplePacket_covers {rule : Rule} (hrule : rule.WellFormed P) (ends : Endpoints) :
    rule.Covers (rule.samplePacket ends) := by
  have hprotocol := hrule.protocol
  refine ⟨?_, fun hused => ?_⟩
  · by_cases hall : rule.protocol = -1
    · exact .inl hall
    · have hne : rule.protocol.toInt ≠ -1 := fun h => hall (Int16.toInt_inj.mp h)
      right
      simp only [Rule.samplePacket, UInt8.toNat_ofNat']
      omega
  · have hports := hrule.ports hused
    simp only [Rule.samplePacket, UInt16.toNat_ofNat']
    omega

theorem Rule.Covers.tailAdmits {rule : Rule} {packet : Packet} (h : rule.Covers packet)
    (h4 : packet.isV6 = false → rule.AllowsV4) (h6 : packet.isV6 = true → rule.protocol ≠ 1) :
    rule.tailAdmits packet := by
  unfold Rule.tailAdmits
  split
  · next h1 =>
      refine ⟨?_, ?_⟩
      · cases hv6 : packet.isV6 with
        | false => rfl
        | true => exact absurd h1 (h6 hv6)
      · have hprotocol := h.1.resolve_left (by rw [h1]; decide)
        rw [h1] at hprotocol
        exact Int.ofNat_inj.mp hprotocol
  · next h1 =>
      split
      · trivial
      · next hall =>
          have hprotocol := h.1.resolve_left hall
          split
          · next hused => exact ⟨hprotocol, h.2 hused⟩
          · next hports =>
              refine ⟨?_, hprotocol⟩
              cases hv6 : packet.isV6 with
              | true => rfl
              | false =>
                  rcases h4 hv6 with h | h | h
                  · exact absurd h hall
                  · exact absurd h h1
                  · exact absurd h hports

def AllOrNone {size : Nat} (ofBytes : Vector UInt8 size → Ip) (members : List Ip) : Prop :=
  (∃ a, ofBytes a ∈ members) → ∀ a, ofBytes a ∈ members

/--
The rules whose filter stays among the members.  A rule whose group has the empty
name is read as a rule without one, for all of IPv6; and the members are looked for
among the sources, also for an outbound rule.
-/
def MembersOnly (P : Platform) (groups : ExtTreeMap String Sg) (rule : Rule) : Prop :=
  if rule.securityGroup = "" then
    rule.protocol = 1 ∨ ∃ sg, groups[""]? = some sg ∧ ∀ a, Ip.ofV6 P a ∈ sg.members
  else
    rule.direction = .inbound ∨ ∀ sg, groups[rule.securityGroup]? = some sg →
      (rule.AllowsV4 → AllOrNone (Ip.ofV4 P) sg.members) ∧
        (rule.protocol ≠ 1 → AllOrNone (Ip.ofV6 P) sg.members)

section Soundness

variable {groups : ExtTreeMap String Sg} {rule : Rule}

theorem unnamed_sound_iff (hrule : rule.WellFormed P) (hname : rule.securityGroup = "")
    (hmatched : ∀ packet, Matched P (Graph.fwBuildRule groups rule) packet ↔
      rule.sourceAdmits P groups packet ∧ rule.tailAdmits packet) :
    MemberSound P groups rule ↔ MembersOnly P groups rule := by
  unfold MembersOnly
  rw [if_pos hname]
  have hsource : ∀ packet, rule.sourceAdmits P groups packet ↔ packet.isV6 = true := by
    intro packet
    rw [Rule.sourceAdmits, if_pos hname]
  constructor
  · intro hsound
    by_cases h1 : rule.protocol = 1
    · exact .inl h1
    · -- Any two addresses will do for a packet.
      have hall : ∀ a, ∃ sg, groups[""]? = some sg ∧ Ip.ofV6 P a ∈ sg.members := by
        intro a
        have htail : rule.tailAdmits (rule.samplePacket (.v6 a a)) :=
          (samplePacket_covers hrule _).tailAdmits (fun h => nomatch h) fun _ => h1
        obtain ⟨⟨sg, hsg, hmem⟩, -⟩ :=
          hsound _ ((hmatched _).mpr ⟨(hsource _).mpr rfl, htail⟩)
        rw [hname] at hsg
        refine ⟨sg, hsg, ?_⟩
        cases hpeer : rule.peer <;> rw [hpeer] at hmem <;> exact hmem
      obtain ⟨sg, hsg, -⟩ := hall (Vector.replicate 16 0)
      refine .inr ⟨sg, hsg, fun a => ?_⟩
      obtain ⟨sg', hsg', hmem⟩ := hall a
      rw [hsg] at hsg'
      cases hsg'
      exact hmem
  · rintro hgood packet hpacket
    obtain ⟨hfamily, htail⟩ := (hmatched packet).mp hpacket
    rw [hsource] at hfamily
    refine ⟨?_, htail.covers⟩
    rcases hgood with h1 | ⟨sg, hsg, hall⟩
    · rw [Rule.tailAdmits, if_pos h1, hfamily] at htail
      exact absurd htail.1 (by decide)
    · refine ⟨sg, by rw [hname, hsg], ?_⟩
      obtain ⟨ends, protocol, srcPort, dstPort⟩ := packet
      cases ends with
      | v4 src dst => exact absurd hfamily (by simp [Packet.isV6])
      | v6 src dst => cases rule.peer <;> exact hall _

theorem named_sound_iff (hrule : rule.WellFormed P) (hname : rule.securityGroup ≠ "")
    (hmatched : ∀ packet, Matched P (Graph.fwBuildRule groups rule) packet ↔
      rule.sourceAdmits P groups packet ∧ rule.tailAdmits packet) :
    MemberSound P groups rule ↔ MembersOnly P groups rule := by
  unfold MembersOnly
  rw [if_neg hname]
  have hsource : ∀ packet, rule.sourceAdmits P groups packet ↔
      ∃ sg, groups[rule.securityGroup]? = some sg ∧ address P .src packet ∈ sg.members := by
    intro packet
    rw [Rule.sourceAdmits, if_neg hname]
  rcases hrule.direction with hin | hout
  · have hpeer : rule.peer = .src := by simp [Rule.peer, hin]
    refine ⟨fun _ => .inl hin, fun _ packet hpacket => ?_⟩
    obtain ⟨hmember, htail⟩ := (hmatched packet).mp hpacket
    rw [hpeer]
    exact ⟨(hsource packet).mp hmember, htail.covers⟩
  · have hpeer : rule.peer = .dst := by simp [Rule.peer, hout]
    have hnot : rule.direction ≠ .inbound := by
      rw [hout]
      decide
    constructor
    · intro hsound
      -- A packet from the member to any other address of its family.
      have hreach : ∀ sg, groups[rule.securityGroup]? = some sg → ∀ packet,
          address P .src packet ∈ sg.members → rule.tailAdmits packet →
          address P .dst packet ∈ sg.members := by
        intro sg hsg packet hmem htail
        obtain ⟨⟨sg', hsg', hmem'⟩, -⟩ :=
          hsound packet ((hmatched packet).mpr ⟨(hsource packet).mpr ⟨sg, hsg, hmem⟩, htail⟩)
        rw [hsg] at hsg'
        cases hsg'
        rwa [hpeer] at hmem'
      refine .inr fun sg hsg => ⟨fun hallows => ?_, fun hallows => ?_⟩
      · rintro ⟨a, ha⟩ b
        exact hreach sg hsg (rule.samplePacket (.v4 a b)) ha
          ((samplePacket_covers hrule _).tailAdmits (fun _ => hallows) fun h => nomatch h)
      · rintro ⟨a, ha⟩ b
        exact hreach sg hsg (rule.samplePacket (.v6 a b)) ha
          ((samplePacket_covers hrule _).tailAdmits (fun h => nomatch h) fun _ => hallows)
    · intro hgood packet hpacket
      obtain ⟨hmember, htail⟩ := (hmatched packet).mp hpacket
      obtain ⟨sg, hsg, hmem⟩ := (hsource packet).mp hmember
      refine ⟨⟨sg, hsg, ?_⟩, htail.covers⟩
      obtain ⟨h4, h6⟩ := (hgood.resolve_left hnot) sg hsg
      rw [hpeer]
      obtain ⟨ends, protocol, srcPort, dstPort⟩ := packet
      cases ends with
      | v4 src dst => exact h4 (htail.allowsV4 rfl) ⟨src, hmem⟩ dst
      | v6 src dst => exact h6 (htail.not_icmp rfl) ⟨src, hmem⟩ dst

end Soundness

theorem convertRule_group_cidr {m : MessageV0.Rule} {rule : Rule}
    (hconvert : Api0.convertRule P m = .ok rule) (hgroup : m.securityGroup.isSome) :
    rule.cidr = {} := by
  rcases (convertRule_cases hconvert).source with ⟨-, hnone⟩ | ⟨hnone, -⟩
  · exact hnone
  · rw [hnone] at hgroup
    cases hgroup

/--
A rule that names a group, of a message that passes validation, matches packets of
members only if and only if one of these holds: it names its group with the empty name
and is about ICMP; it has a name and is inbound; or the members leave no address of a
family that the rule lets through out.
-/
theorem member_rule_sound_iff (hP : NumericTexts P) {s : Server} (hs : Reachable P anything s)
    {m : MessageV0.Rule} {rule : Rule} (hvalid : Api0.validateSgRule P m = true)
    (hconvert : Api0.convertRule P m = .ok rule) (hgroup : m.securityGroup.isSome) :
    MemberSound P s.model.securityGroups rule ↔
      MembersOnly P s.model.securityGroups rule := by
  have hrule := convertRule_wellFormed hvalid hconvert
  have hcidr := convertRule_group_cidr hconvert hgroup
  have hmatched := fwBuildRule_matched_iff hP
    (fun id sg hsg => (hs.wellFormed.groups id sg hsg).members) hrule hcidr
  by_cases hname : rule.securityGroup = ""
  · exact unnamed_sound_iff hrule hname hmatched
  · exact named_sound_iff hrule hname hmatched

theorem libc_numericTexts : NumericTexts Libc.platform := by
  have hhex : ∀ c ∈ "0123456789abcdef".toList, IsNumeric c := by
    simp [IsNumeric]
  refine ⟨fun address => ⟨Libc.ntop4_ne_empty address, fun c hc => ?_⟩,
    fun address => ⟨Libc.ntop6_ne_empty address, fun c hc => ?_⟩⟩
  · rcases Libc.ntop4_chars hc with h | rfl
    · exact .inl h
    · exact .inr (by decide)
  · rcases Libc.ntop6_chars hc with h | rfl
    · exact hhex c h
    · exact .inr (by decide)

def oneMember : List MessageV0.Request :=
  [{ sgAdd := some { id := "sg-1", member := ["42.0.0.1"] } }]

def webRule : MessageV0.Rule :=
  { direction := .inbound, protocol := 6, portStart := some 80, portEnd := some 443
    securityGroup := some "sg-1" }

theorem member_rule_sound_web_rule :
    ∃ (s : Server) (rule : Rule), Reachable Libc.platform anything s ∧
      s.model.securityGroups.size = 1 ∧ Api0.convertRule Libc.platform webRule = .ok rule ∧
      MemberSound Libc.platform s.model.securityGroups rule := by
  have hserve : ∃ s, serve Libc.platform {} oneMember (Server.start {} 1 0) = some s ∧
      s.model.securityGroups.size = 1 := by
    refine ⟨(serve Libc.platform {} oneMember (Server.start {} 1 0)).get ?_, ?_, ?_⟩
    · decide +kernel
    · simp
    · decide +kernel
  obtain ⟨s, hs, hsize⟩ := hserve
  have hreachable : Reachable Libc.platform anything s :=
    (Reachable.start {} 1 0).serve (fun _ _ _ => trivial) hs
  have hvalid : Api0.validateSgRule Libc.platform webRule = true := by decide
  refine ⟨s, _, hreachable, hsize, rfl, ?_⟩
  exact (member_rule_sound_iff libc_numericTexts hreachable hvalid rfl rfl).mpr (.inl rfl)

def unnamedRule : MessageV0.Rule :=
  { direction := .inbound, protocol := -1, securityGroup := some "" }

/-- There is no group at all, and every IPv6 packet is let through. -/
theorem unnamed_rule_unsound :
    ∃ rule, Api0.validateSgRule Libc.platform unnamedRule = true ∧
      Api0.convertRule Libc.platform unnamedRule = .ok rule ∧
      Reachable Libc.platform anything (Server.start {} 1 0) ∧
      ¬MemberSound Libc.platform (Server.start {} 1 0).model.securityGroups rule := by
  have hvalid : Api0.validateSgRule Libc.platform unnamedRule = true := by decide
  refine ⟨_, hvalid, rfl, .start {} 1 0, fun hsound => ?_⟩
  have hrule := convertRule_wellFormed hvalid rfl
  have hgroups : ∀ (id : String) (sg : Sg),
      (Server.start {} 1 0).model.securityGroups[id]? = some sg →
      ∀ ip ∈ sg.members, ip.Genuine Libc.platform := fun id sg hsg => nomatch hsg
  have hmatched := fwBuildRule_matched_iff libc_numericTexts hgroups hrule rfl
    { ends := .v6 (Vector.replicate 16 0) (Vector.replicate 16 0), protocol := 0
      srcPort := 0, dstPort := 0 }
  obtain ⟨⟨sg, hsg, -⟩, -⟩ := hsound _ (hmatched.mpr ⟨rfl, trivial⟩)
  cases hsg

/-! ## Completeness -/

/-- Packets of members are matched; ICMP is taken with IPv4 and ICMPv6 with IPv6. -/
def MemberComplete (P : Platform) (groups : ExtTreeMap String Sg) (rule : Rule) : Prop :=
  ∀ sg, groups[rule.securityGroup]? = some sg → ∀ packet, address P .src packet ∈ sg.members →
    rule.Covers packet → (rule.protocol = 1 → packet.isV6 = false) →
    (rule.protocol = 58 → packet.isV6 = true) →
    Matched P (Graph.fwBuildRule groups rule) packet

/-- The rules whose filter has a place for IPv4 members, if there are any. -/
def ReachesV4 (P : Platform) (groups : ExtTreeMap String Sg) (rule : Rule) : Prop :=
  ∀ sg, groups[rule.securityGroup]? = some sg → (∃ a, Ip.ofV4 P a ∈ sg.members) →
    rule.protocol = 58 ∨ rule.securityGroup ≠ "" ∧ rule.AllowsV4

theorem address_src_v4 {packet : Packet} (h : packet.isV6 = false) :
    ∃ a, address P .src packet = .ofV4 P a := by
  obtain ⟨ends, protocol, srcPort, dstPort⟩ := packet
  cases ends with
  | v4 src dst => exact ⟨src, rfl⟩
  | v6 src dst => cases h

/--
A rule that names a group, of a message that passes validation, matches the packets of
all members that it covers if and only if the group has no IPv4 member, or the rule is
about ICMPv6, or it has a group name and is about ICMP, TCP, UDP or everything: the
other protocols are looked for in IPv6 packets only.
-/
theorem member_rule_complete_iff (hP : NumericTexts P) {s : Server}
    (hs : Reachable P anything s) {m : MessageV0.Rule} {rule : Rule}
    (hvalid : Api0.validateSgRule P m = true) (hconvert : Api0.convertRule P m = .ok rule)
    (hgroup : m.securityGroup.isSome) :
    MemberComplete P s.model.securityGroups rule ↔
      ReachesV4 P s.model.securityGroups rule := by
  have hrule := convertRule_wellFormed hvalid hconvert
  have hmatched := fwBuildRule_matched_iff hP
    (fun id sg hsg => (hs.wellFormed.groups id sg hsg).members) hrule
    (convertRule_group_cidr hconvert hgroup)
  constructor
  · intro hcomplete sg hsg ⟨a, ha⟩
    by_cases h58 : rule.protocol = 58
    · exact .inl h58
    · obtain ⟨hsource, htail⟩ := (hmatched _).mp (hcomplete sg hsg
        (rule.samplePacket (.v4 a a)) ha (samplePacket_covers hrule _) (fun _ => rfl)
        fun h => absurd h h58)
      refine .inr ⟨fun hname => ?_, htail.allowsV4 rfl⟩
      rw [Rule.sourceAdmits, if_pos hname] at hsource
      cases hsource
  · intro hreaches sg hsg packet hmem hcovers hicmp hicmp6
    have hv4 : packet.isV6 = false → rule.securityGroup ≠ "" ∧ rule.AllowsV4 := by
      intro hv4
      obtain ⟨a, ha⟩ := address_src_v4 (P := P) hv4
      rw [ha] at hmem
      refine (hreaches sg hsg ⟨a, hmem⟩).resolve_left fun h58 => ?_
      rw [hicmp6 h58] at hv4
      cases hv4
    refine (hmatched packet).mpr ⟨?_, hcovers.tailAdmits (fun h => (hv4 h).2) fun hv6 h1 => ?_⟩
    · unfold Rule.sourceAdmits
      split
      · next hname =>
          cases hv6 : packet.isV6 with
          | true => rfl
          | false => exact absurd hname (hv4 hv6).1
      · exact ⟨sg, hsg, hmem⟩
    · rw [hicmp h1] at hv6
      cases hv6

theorem member_rule_complete_web_rule :
    ∃ (s : Server) (rule : Rule), Reachable Libc.platform anything s ∧
      s.model.securityGroups.size = 1 ∧ Api0.convertRule Libc.platform webRule = .ok rule ∧
      MemberComplete Libc.platform s.model.securityGroups rule := by
  have hserve : ∃ s, serve Libc.platform {} oneMember (Server.start {} 1 0) = some s ∧
      s.model.securityGroups.size = 1 := by
    refine ⟨(serve Libc.platform {} oneMember (Server.start {} 1 0)).get ?_, ?_, ?_⟩
    · decide +kernel
    · simp
    · decide +kernel
  obtain ⟨s, hs, hsize⟩ := hserve
  have hreachable : Reachable Libc.platform anything s :=
    (Reachable.start {} 1 0).serve (fun _ _ _ => trivial) hs
  have hvalid : Api0.validateSgRule Libc.platform webRule = true := by decide
  refine ⟨s, _, hreachable, hsize, rfl, ?_⟩
  refine (member_rule_complete_iff libc_numericTexts hreachable hvalid rfl rfl).mpr ?_
  exact fun _ _ _ => .inr ⟨by decide, .inr (.inr (.inl rfl))⟩

def rule42 : MessageV0.Rule :=
  { direction := .inbound, protocol := 42, securityGroup := some "sg-1" }

/-- The one member, an IPv4 address, is not let through. -/
theorem rule42_incomplete :
    ∃ (s : Server) (rule : Rule), Reachable Libc.platform anything s ∧
      Api0.validateSgRule Libc.platform rule42 = true ∧
      Api0.convertRule Libc.platform rule42 = .ok rule ∧
      ¬MemberComplete Libc.platform s.model.securityGroups rule := by
  have hserve : ∃ s sg, serve Libc.platform {} oneMember (Server.start {} 1 0) = some s ∧
      s.model.securityGroups["sg-1"]? = some sg ∧
      Ip.ofV4 Libc.platform #v[42, 0, 0, 1] ∈ sg.members := by
    refine ⟨(serve Libc.platform {} oneMember (Server.start {} 1 0)).get ?_,
      (((serve Libc.platform {} oneMember (Server.start {} 1 0)).get
        ?_).model.securityGroups["sg-1"]?).get ?_, ?_, ?_, ?_⟩
    · decide +kernel
    · decide +kernel
    · decide +kernel
    · simp
    · simp
    · decide +kernel
  obtain ⟨s, sg, hs, hsg, hmem⟩ := hserve
  have hreachable : Reachable Libc.platform anything s :=
    (Reachable.start {} 1 0).serve (fun _ _ _ => trivial) hs
  have hvalid : Api0.validateSgRule Libc.platform rule42 = true := by decide
  refine ⟨s, _, hreachable, hvalid, rfl, fun hcomplete => ?_⟩
  have hrule := convertRule_wellFormed hvalid rfl
  have hmatched := fwBuildRule_matched_iff libc_numericTexts
    (fun id sg hsg => (hreachable.wellFormed.groups id sg hsg).members) hrule rfl
  obtain ⟨-, htail⟩ := (hmatched _).mp (hcomplete sg hsg
    (Rule.samplePacket _ (.v4 #v[42, 0, 0, 1] #v[42, 0, 0, 1])) hmem
    (samplePacket_covers hrule _) (fun _ => rfl) fun h => absurd h (by decide))
  exact absurd (htail.allowsV4 rfl) (by unfold Rule.AllowsV4; decide)

end Butterfly
