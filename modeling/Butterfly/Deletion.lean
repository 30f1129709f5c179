import Butterfly.NicSg
import Butterfly.RuleOptions
import Butterfly.RuleStore

/-!
# Deleting listed rules

`sg_rule_list` and `sg_details` turn the rules of a group into messages, and
`sg_rule_del` turns a message into a rule again and looks for its hash.  Ports are
listed for TCP and UDP only, while the hash is over the ports of every rule.
-/

namespace Butterfly

open Std Foundation MessageV0

/-- `inet_pton` does not read the empty text. -/
structure RefusesEmpty (P : Platform) : Prop where
  four : P.inetPton4 "" = none
  six : P.inetPton6 "" = none

variable {P : Platform} {ambient : Ambient}

namespace Rule

attribute [ext] Rule

def listing (r : Rule) : MessageV0.Rule :=
  { direction := if r.direction = .outbound then .outbound else .inbound
    protocol := r.protocol.toInt32
    portStart := if r.protocol = 6 ∨ r.protocol = 17 then some r.portStart.toUInt32 else none
    portEnd := if r.protocol = 6 ∨ r.protocol = 17 then some r.portEnd.toUInt32 else none
    securityGroup := Api0.nonEmpty (some r.securityGroup)
    cidr :=
      if r.securityGroup ≠ "" then none
      else some { address := r.cidr.address.str, maskSize := r.cidr.maskSize } }

def relisted (r : Rule) : Rule :=
  if r.protocol = 6 ∨ r.protocol = 17 then r else { r with portStart := 0, portEnd := 0 }

def HasPeer (r : Rule) : Prop := r.securityGroup ≠ "" ∨ r.cidr.address.type ≠ .none

theorem ruleToMessage_eq_listing {r : Rule} (h : r.WellFormed P) :
    Api0.ruleToMessage r = some r.listing := by
  obtain ⟨m, hm⟩ := Option.isSome_iff_exists.mp h.ruleToMessage_isSome
  rw [hm]
  unfold Api0.ruleToMessage at hm
  have hports : (r.protocol == 6 || r.protocol == 17) =
      decide (r.protocol = 6 ∨ r.protocol = 17) := by
    rw [Bool.eq_iff_iff]
    simp
  rcases h.direction with hdirection | hdirection
  · simp only [hdirection, hports, Option.bind_eq_bind, Option.bind_some] at hm
    split at hm
    · cases hm
    · cases hm
      simp [listing, hdirection]
  · simp only [hdirection, hports, Option.bind_eq_bind, Option.bind_some] at hm
    split at hm
    · cases hm
    · cases hm
      simp [listing, hdirection]

end Rule

theorem convertIp_str {ip : Ip} (h : ip.Genuine P) : Api0.convertIp P ip.str = .ok ip := by
  unfold Api0.convertIp Ip.set
  cases h with
  | v4 a =>
      have hread : P.inetPton4 (Ip.ofV4 P a).str = some a := P.pton4_ntop4 a
      rw [hread]
      rfl
  | v6 a =>
      have hread : P.inetPton6 (Ip.ofV6 P a).str = some a := P.pton6_ntop6 a
      have hnone : P.inetPton4 (Ip.ofV6 P a).str = none := by
        cases h4 : P.inetPton4 (Ip.ofV6 P a).str with
        | none => rfl
        | some b =>
            rw [P.pton6_of_pton4 h4] at hread
            cases hread
      rw [hnone, hread]
      rfl

section Roundtrip

variable {r : Rule}

theorem Rule.WellFormed.genuine (h : r.WellFormed P) (htype : r.cidr.address.type ≠ .none) :
    r.securityGroup = "" ∧ r.cidr.address.Genuine P := by
  cases h.source with
  | group hnone =>
      rw [hnone] at htype
      exact absurd rfl htype
  | cidr hname hgenuine => exact ⟨hname, hgenuine⟩

theorem Rule.WellFormed.cidr_of_group (h : r.WellFormed P) (hname : r.securityGroup ≠ "") :
    r.cidr = {} := by
  cases h.source with
  | group hnone => exact hnone
  | cidr hempty _ => exact absurd hempty hname

theorem nonEmpty_some {text : String} (h : text ≠ "") :
    Api0.nonEmpty (some text) = some text := by
  simp [Api0.nonEmpty, h]

theorem protocol_in_range (h : r.WellFormed P) :
    ¬(r.protocol.toInt32 < -1 || r.protocol.toInt32 > 255) = true := by
  have hint : r.protocol.toInt32.toInt = r.protocol.toInt := Int16.toInt_toInt32 _
  have hlow : (-1 : Int32).toInt = -1 := rfl
  have hhigh : (255 : Int32).toInt = 255 := rfl
  obtain ⟨h1, h2⟩ := h.protocol
  simp only [Bool.or_eq_true, decide_eq_true_eq, not_or, Int32.not_lt, gt_iff_lt,
    Int32.le_iff_toInt_le, hint, hlow, hhigh]
  exact ⟨h1, h2⟩

theorem toNat_port {p : Int32} (h : 0 ≤ p.toInt) : (p.toUInt32.toNat : Int) = p.toInt := by
  have hbits : p.toInt = p.toUInt32.toBitVec.toInt := rfl
  have hlt : p.toUInt32.toNat < 2 ^ 32 := p.toUInt32.toNat_lt
  rw [hbits, BitVec.toInt_eq_toNat_cond, UInt32.toNat_toBitVec] at h ⊢
  split at h
  · next hsmall => rw [if_pos hsmall]
  · omega

theorem validatePorts_listing (h : r.WellFormed P) (hused : r.protocol = 6 ∨ r.protocol = 17) :
    Api0.validatePorts r.listing = true := by
  obtain ⟨hlow, horder, hhigh⟩ := h.ports hused
  have hstart := toNat_port hlow
  have hend := toNat_port (hlow.trans horder)
  have hlimit : (65535 : UInt32).toNat = 65535 := rfl
  unfold Api0.validatePorts Rule.listing
  simp only [if_pos hused, Bool.and_eq_true, Bool.not_eq_true', Bool.or_eq_false_iff,
    decide_eq_false_iff_not, gt_iff_lt, UInt32.not_lt, UInt32.le_iff_toNat_le, hlimit]
  omega

theorem validateCidr_genuine {cidr : Cidr} (h : cidr.address.Genuine P)
    (hmask4 : cidr.address.type = .v4 → cidr.maskSize.toNat ≤ 32)
    (hmask6 : cidr.address.type = .v6 → cidr.maskSize.toNat ≤ 128) :
    Api0.validateCidr P { address := cidr.address.str, maskSize := cidr.maskSize } = true := by
  obtain ⟨ip, mask⟩ := cidr
  change ip.Genuine P at h
  unfold Api0.validateCidr
  cases h with
  | v4 a =>
      have hread : P.inetPton4 (Ip.ofV4 P a).str = some a := P.pton4_ntop4 a
      have hle : mask ≤ 32 := UInt32.le_iff_toNat_le.mpr (hmask4 rfl)
      simp [hread, P.pton6_of_pton4 hread, hle]
  | v6 a =>
      have hread : P.inetPton6 (Ip.ofV6 P a).str = some a := P.pton6_ntop6 a
      have hle : mask ≤ 128 := UInt32.le_iff_toNat_le.mpr (hmask6 rfl)
      simp [hread, hle]

theorem listing_protocol_iff (r : Rule) :
    (r.listing.protocol == 6 || r.listing.protocol == 17) = true ↔
      r.protocol = 6 ∨ r.protocol = 17 := by
  have hcast : ∀ n : Int16, r.protocol.toInt32 = n.toInt32 ↔ r.protocol = n := by
    intro n
    rw [← Int32.toInt_inj, Int16.toInt_toInt32, Int16.toInt_toInt32, Int16.toInt_inj]
  simp only [Bool.or_eq_true, beq_iff_eq]
  exact or_congr (hcast 6) (hcast 17)

theorem validate_listing (h : r.WellFormed P) (hpeer : r.HasPeer) :
    Api0.validateSgRule P r.listing = true := by
  have hports : ¬((r.listing.protocol == 6 || r.listing.protocol == 17) &&
      !Api0.validatePorts r.listing) = true := by
    intro hbad
    obtain ⟨hused, hports⟩ := Bool.and_eq_true_iff.mp hbad
    rw [validatePorts_listing h ((listing_protocol_iff r).mp hused)] at hports
    cases hports
  unfold Api0.validateSgRule
  refine (if_neg (protocol_in_range h)).trans ((if_neg hports).trans ?_)
  by_cases hname : r.securityGroup = ""
  · obtain ⟨-, hgenuine⟩ := h.genuine (hpeer.resolve_left (not_not.mpr hname))
    simpa [Rule.listing, hname, Api0.nonEmpty] using
      validateCidr_genuine hgenuine h.mask4 h.mask6
  · simp [Rule.listing, hname]

theorem convertRule_listing_source (h : r.WellFormed P) (hpeer : r.HasPeer) :
    ∃ rule, Api0.convertRule P r.listing = .ok rule ∧ rule.cidr = r.cidr ∧
      rule.securityGroup = r.securityGroup := by
  unfold Api0.convertRule
  by_cases hname : r.securityGroup = ""
  · obtain ⟨-, hgenuine⟩ := h.genuine (hpeer.resolve_left (not_not.mpr hname))
    have hgroup : r.listing.securityGroup = none := by simp [Rule.listing, hname, Api0.nonEmpty]
    have hcidr : r.listing.cidr = some ⟨r.cidr.address.str, r.cidr.maskSize⟩ := by
      simp [Rule.listing, hname]
    have hconvert : Api0.convertCidr P ⟨r.cidr.address.str, r.cidr.maskSize⟩ = .ok r.cidr := by
      simp only [Api0.convertCidr, convertIp_str hgenuine]
      rfl
    simp only [hgroup, hcidr, hconvert]
    exact ⟨_, rfl, rfl, hname.symm⟩
  · have hgroup : r.listing.securityGroup = some r.securityGroup := nonEmpty_some hname
    simp only [hgroup]
    exact ⟨_, rfl, (h.cidr_of_group hname).symm, rfl⟩

theorem convertRule_listing (h : r.WellFormed P) (hpeer : r.HasPeer) :
    Api0.convertRule P r.listing = .ok r.relisted := by
  obtain ⟨rule, hrule, hcidr, hgroup⟩ := convertRule_listing_source h hpeer
  obtain ⟨hdirection, hprotocol, hstart, hend, -⟩ := convertRule_cases hrule
  have hdirection' : rule.direction = r.direction := by
    rw [hdirection]
    rcases h.direction with hd | hd <;> simp [Rule.listing, hd]
  have hprotocol' : rule.protocol = r.protocol := by
    rw [hprotocol]
    simp [Rule.listing]
  rw [hrule]
  unfold Rule.relisted
  split
  · next hused =>
      refine congrArg Except.ok (Rule.ext hdirection' hprotocol' ?_ ?_ hcidr hgroup)
      · rw [hstart]
        simp [Rule.listing, hused]
      · rw [hend]
        simp [Rule.listing, hused]
  · next hused =>
      refine congrArg Except.ok (Rule.ext hdirection' hprotocol' ?_ ?_ hcidr hgroup)
      · rw [hstart]
        simp [Rule.listing, hused]
      · rw [hend]
        simp [Rule.listing, hused]

theorem validate_listing_of_no_peer (hP : RefusesEmpty P) (h : r.WellFormed P)
    (hpeer : ¬r.HasPeer) : Api0.validateSgRule P r.listing = false := by
  obtain ⟨hname, htype⟩ := not_or.mp hpeer
  have hempty : r.cidr.address.str = "" := by
    cases h.source with
    | group hnone =>
        rw [hnone]
        rfl
    | cidr _ hgenuine => exact absurd (not_not.mp htype) hgenuine.type_ne_none
  cases hvalid : Api0.validateSgRule P r.listing with
  | false => rfl
  | true =>
      have hcidr := (validateSgRule_cases hvalid).2.2 ⟨r.cidr.address.str, r.cidr.maskSize⟩
        (by simp [Rule.listing, not_not.mp hname])
      simp [Api0.validateCidr, hempty, hP.four, hP.six] at hcidr

end Roundtrip

/-! ## The answers with rules -/

theorem mapM_eq_map {α β : Type} {f : α → Option β} {g : α → β} {l : List α}
    (h : ∀ a ∈ l, f a = some (g a)) : l.mapM f = some (l.map g) := by
  induction l with
  | nil => rfl
  | cons a l ih =>
      rw [List.mapM_cons, h a List.mem_cons_self, ih fun b hb => h b (List.mem_cons_of_mem _ hb)]
      rfl

theorem Sg.WellFormed.listings {sg : Butterfly.Sg} (h : sg.WellFormed P) :
    (mapValues sg.rules).mapM Api0.ruleToMessage =
      some ((mapValues sg.rules).map Rule.listing) := by
  refine mapM_eq_map fun r hr => ?_
  obtain ⟨hash, hlookup⟩ := mem_mapValues.mp hr
  exact Rule.ruleToMessage_eq_listing (h.rules hash r hlookup).2

section Answers

variable {s : Server} {id : String} {sg : Butterfly.Sg}

theorem sgRuleList_eq (hsg : s.model.securityGroups[id]? = some sg) (h : sg.WellFormed P) :
    Api0.sgRuleList id s =
      (Api0.buildOkRes { sgRuleList := (mapValues sg.rules).map Rule.listing }, s) := by
  simp only [Api0.sgRuleList, hsg, h.listings]

theorem sgDetails_rules (hsg : s.model.securityGroups[id]? = some sg)
    (hgroups : ∀ (id : String) (sg : Butterfly.Sg), s.model.securityGroups[id]? = some sg →
      sg.WellFormed P) :
    ∃ d ∈ (Api0.sgDetails id s).1.sgDetails, d.rule = (mapValues sg.rules).map Rule.listing := by
  have hmessage : ∀ sg, sg.WellFormed P → Api0.sgToMessage sg = some
      { id := sg.id, member := sg.members.map Ip.str
        rule := (mapValues sg.rules).map Rule.listing } := by
    intro sg h
    simp only [Api0.sgToMessage, h.listings]
    rfl
  unfold Api0.sgDetails
  by_cases hid : id = ""
  · have hall := mapM_eq_map (l := mapValues s.model.securityGroups) fun sg hmem => by
      obtain ⟨id, hlookup⟩ := mem_mapValues.mp hmem
      exact hmessage sg (hgroups id sg hlookup)
    rw [if_neg (not_not.mpr hid)]
    simp only [hall]
    exact ⟨_, List.mem_map_of_mem (mem_mapValues.mpr ⟨id, hsg⟩), rfl⟩
  · rw [if_pos hid]
    simp only [hsg, hmessage sg (hgroups id sg hsg)]
    exact ⟨_, List.mem_singleton_self _, rfl⟩

end Answers

/-! ## The client -/

namespace Client

def sgRuleListText (revision : UInt32) (sg : String) : String :=
  "messages \x7b  revision: " ++ toString revision.toNat ++
    "  message_0 \x7b    request \x7b      sg_rule_list: " ++ quoted sg ++
    "    \x7d  \x7d\x7d"

def sgRuleDelHead (revision : UInt32) (sg : String) : String :=
  "messages \x7b  revision: " ++ toString revision.toNat ++
    "  message_0 \x7b    request \x7b      sg_rule_del \x7b        sg_id: " ++ quoted sg ++
    "        rule \x7b"

def sgRuleDelText (revision : UInt32) (sg rule : String) : String :=
  sgRuleDelHead revision sg ++ rule ++ "\x7d      \x7d    \x7d \x7d\x7d"

/-- `TextFormat` with `PrintToString` on a rule, which is read back as it was. -/
structure RuleTextFormat extends TextFormat where
  print : MessageV0.Rule → String
  parse_sgRuleList : ∀ {sg}, Unescaped sg → OneLine sg →
    parse (sgRuleListText revision sg) =
      some (requestMessage revision { sgRuleList := some sg })
  parse_sgRuleDel : ∀ {sg} (r), Unescaped sg → OneLine sg →
    parse (sgRuleDelText revision sg (print r)) =
      some (requestMessage revision { sgRuleDel := some { sgId := sg, rule := r } })

/-- The bits of a hash as the stream prints them: 16 hexadecimal digits. -/
def hashText (hash : UInt64) : String :=
  String.ofList ((Nat.toDigits 16 hash.toNat).leftpad 16 '0')

section Commands

variable (P : Platform) (T : RuleTextFormat)

def ruleHash (r : MessageV0.Rule) : String := hashText (P.hashString (T.print r))

def subSgHashedRuleDel (first second : Link) (sg hash : String) (s : Server) :
    Option (Nat × Server) := do
  let (res, s) ← request T.toTextFormat first (sgRuleListText T.revision sg) s
  match res with
  | none => some (1, s)
  | some res =>
      match (response0 res).sgRuleList.find? fun r => hash = ruleHash P T r with
      | none => some (1, s)
      | some r => do
          let (res, s) ← request T.toTextFormat second
            (sgRuleDelText T.revision sg (T.print r)) s
          some (if res.isSome then 0 else 1, s)

/-- The request of `SubSgParamRuleDel`, unless a number in it was not assigned. -/
def paramRuleDelText (revision : UInt32) (o : RuleAddOptions) : Option String := do
  let proto ← o.proto
  let ports ← if o.hasPortStart then do
      let portStart ← o.portStart
      let portEnd ← o.portEnd
      some ("   port_start: " ++ toString portStart.toNat ++
        "   port_end     : " ++ toString portEnd.toNat)
    else some ""
  let peer := if o.cidr ≠ "" then "   cidr \x7b " ++ o.cidr ++ " \x7d"
    else if o.sgMembers ≠ "" then "   security_group: " ++ quoted o.sgMembers
    else ""
  some (sgRuleDelHead revision o.sg ++ "          direction: " ++ o.direction ++
    "          protocol: " ++ toString proto ++ ports ++ peer ++
    "        \x7d      \x7d    \x7d  \x7d\x7d")

def subSgParamRuleDel (link : Link) (args : List String) (s : Server) :
    Option (Nat × Server) :=
  match RuleAddOptions.parse args with
  | .error (.returned _) => some (1, s)
  | .error (.crashed _) => none
  | .ok o => do
      let (res, s) ← request T.toTextFormat link (← paramRuleDelText T.revision o) s
      some (if res.isSome then 0 else 1, s)

/-- `args` is `argv` without the name of the program. -/
def subSgRuleDel (first second : Link) (args : List String) (s : Server) :
    Option (Nat × Server) :=
  match args.drop 3 with
  | sg :: param :: _ =>
      if sg = "help" then some (0, s)
      else if param.toList.head? = some '-' then subSgParamRuleDel T first args s
      else subSgHashedRuleDel P T first second sg param s
  | _ => some (0, s)

end Commands

theorem mem_toDigits_ne {n : Nat} {c : Char} (hc : c ∈ Nat.toDigits 16 n) : c ≠ '-' := by
  induction n using Nat.strongRecOn with
  | _ n ih =>
      have hdigit : ∀ k : Nat, k.digitChar ≠ '-' := fun k => Nat.digitChar_ne '-' (by decide)
      rw [Nat.toDigits_eq_if (by decide)] at hc
      split at hc
      · rw [List.mem_singleton.mp hc]
        exact hdigit n
      · next hle =>
          rcases List.mem_append.mp hc with hc | hc
          · exact ih (n / 16) (by omega) hc
          · rw [List.mem_singleton.mp hc]
            exact hdigit (n % 16)

/-- A hash is not taken for an option. -/
theorem head_hashText (hash : UInt64) : (hashText hash).toList.head? ≠ some '-' := by
  intro hhead
  have hmem := List.mem_of_head? hhead
  rw [hashText, String.toList_ofList, List.leftpad] at hmem
  rcases List.mem_append.mp hmem with hzero | hdigit
  · cases List.eq_of_mem_replicate hzero
  · exact mem_toDigits_ne hdigit rfl

end Client

/-! ## Deletion -/

def RuleGone (s s' : Server) (id : String) (sg : Butterfly.Sg) (h : UInt64) : Prop :=
  s'.model.securityGroups =
    s.model.securityGroups.insert id { sg with rules := sg.rules.erase h }

/-- The hash that the client prints tells a message from the others of the list. -/
def ToldApart (P : Platform) (T : Client.RuleTextFormat) (list : List MessageV0.Rule)
    (m : MessageV0.Rule) : Prop :=
  ∀ m' ∈ list, Client.ruleHash P T m' = Client.ruleHash P T m → m' = m

/--
A message deletes the rule with this hash, and so does the client with the printed hash
of the message, if the hash tells it from the other messages of the list.
-/
structure DeletesRule (P : Platform) (ambient : Ambient) (s : Server) (id : String)
    (sg : Butterfly.Sg) (h : UInt64) (m : MessageV0.Rule) : Prop where
  sent : ∃ res s', Api0.respond P ambient
    (some { sgRuleDel := some { sgId := id, rule := m } }) s = some (res, s') ∧
      RuleGone s s' id sg h
  client : ∀ (T : Client.RuleTextFormat) (first second : Client.Link) (options : List String)
    (s' : Server), Client.Unescaped id → Client.OneLine id →
    ToldApart P T (Api0.sgRuleList id s).1.sgRuleList m →
    first.context.P = P → second.context.P = P →
    Client.subSgRuleDel P T first second
      ("sg" :: "rule" :: "del" :: id :: Client.ruleHash P T m :: options) s = some (0, s') →
    RuleGone s s' id sg h

/-- The rule has a peer, and the hash does not see the ports that are not listed. -/
def Resendable (P : Platform) (r : Rule) : Prop :=
  r.HasPeer ∧ (r.protocol = 6 ∨ r.protocol = 17 ∨ (r.portStart = 0 ∧ r.portEnd = 0) ∨
    P.hashString { r with portStart := 0, portEnd := 0 }.hashText = P.hashString r.hashText)

theorem relisted_hash_iff (r : Rule) : r.relisted.hash P = r.hash P ↔
    (r.protocol = 6 ∨ r.protocol = 17 ∨ (r.portStart = 0 ∧ r.portEnd = 0) ∨
      P.hashString { r with portStart := 0, portEnd := 0 }.hashText =
        P.hashString r.hashText) := by
  rw [← or_assoc]
  by_cases hused : r.protocol = 6 ∨ r.protocol = 17
  · simp [Rule.relisted, hused]
  · have hzero : r.portStart = 0 ∧ r.portEnd = 0 →
        P.hashString { r with portStart := 0, portEnd := 0 }.hashText =
          P.hashString r.hashText := by
      rintro ⟨hstart, hend⟩
      have hsame : ({ r with portStart := 0, portEnd := 0 } : Rule) = r :=
        Rule.ext rfl rfl hstart.symm hend.symm rfl rfl
      rw [hsame]
    rw [Rule.relisted, if_neg hused]
    simp only [hused, false_or]
    exact ⟨.inr, fun h => h.elim hzero id⟩

section Deletion

variable {s s' : Server} {id : String} {sg : Butterfly.Sg} {h : UInt64} {r : Rule}

theorem not_ruleGone {sg' : Butterfly.Sg} (hsg : s'.model.securityGroups[id]? = some sg')
    (hr : sg'.rules[h]? = some r) : ¬RuleGone s s' id sg h := by
  intro hgone
  rw [hgone, ExtTreeMap.getElem?_insert_self] at hsg
  cases hsg
  rw [lookup_erase, if_pos rfl] at hr
  cases hr

theorem respond_sgRuleDel_listing (hr : r.WellFormed P) (hpeer : r.HasPeer) :
    Api0.respond P ambient (some { sgRuleDel := some { sgId := id, rule := r.listing } }) s =
      some (Api0.okRes, Api.actionSgRuleDel P ambient id r.relisted s) := by
  have hhandle : Api0.respond P ambient
      (some { sgRuleDel := some { sgId := id, rule := r.listing } }) s =
        some (Api0.sgRuleDel P ambient { sgId := id, rule := r.listing } s) := rfl
  rw [hhandle, Api0.sgRuleDel, Api0.withRule, validate_listing hr hpeer,
    convertRule_listing hr hpeer]
  rfl

theorem ruleGone_iff (hsg : s.model.securityGroups[id]? = some sg) (hr : sg.rules[h]? = some r)
    (hhash : h = r.hash P) :
    RuleGone s (Api.actionSgRuleDel P ambient id r.relisted s) id sg h ↔
      r.relisted.hash P = r.hash P := by
  have hstored : (Api.actionSgRuleDel P ambient id r.relisted s).model.securityGroups =
      s.model.securityGroups.insert id
        { sg with rules := sg.rules.erase (r.relisted.hash P) } := by
    have hgroups : Stored P (.sgRuleDel id r.relisted) true s.model
        (Api.actionSgRuleDel P ambient id r.relisted s).model := stored_sgRuleDel id r.relisted s
    rw [hgroups.groups, groupsAfter, hsg]
  constructor
  · intro hgone
    by_contra hne
    have hkept : (sg.rules.erase (r.relisted.hash P))[h]? = some r := by
      rw [lookup_erase, if_neg (by rw [hhash]; exact hne), hr]
    have hsg' : (Api.actionSgRuleDel P ambient id r.relisted s).model.securityGroups[id]? =
        some { sg with rules := sg.rules.erase (r.relisted.hash P) } := by
      rw [hstored, ExtTreeMap.getElem?_insert_self]
    exact not_ruleGone hsg' hkept hgone
  · intro heq
    rw [RuleGone, hstored, heq, hhash]

theorem find_ruleHash {T : Client.RuleTextFormat}
    (hr : sg.rules[h]? = some r)
    (hhash : ToldApart P T ((mapValues sg.rules).map Rule.listing) r.listing) :
    ((mapValues sg.rules).map Rule.listing).find? (fun m =>
      Client.ruleHash P T r.listing = Client.ruleHash P T m) = some r.listing := by
  have hmem : r.listing ∈ (mapValues sg.rules).map Rule.listing :=
    List.mem_map_of_mem (mem_mapValues.mpr ⟨h, hr⟩)
  cases hfound : ((mapValues sg.rules).map Rule.listing).find? (fun m =>
      Client.ruleHash P T r.listing = Client.ruleHash P T m) with
  | none => exact absurd (decide_eq_true rfl) (List.find?_eq_none.mp hfound _ hmem)
  | some m' =>
      have hsame := List.find?_some hfound
      rw [decide_eq_true_eq] at hsame
      rw [hhash m' (List.mem_of_find?_eq_some hfound) hsame.symm]

/-- A success of the client is a success of `sg_rule_del` with the message. -/
theorem subSgHashedRuleDel_success {T : Client.RuleTextFormat} {first second : Client.Link}
    (hfirst : first.context.P = P) (hsecond : second.context.P = P)
    (hsg : s.model.securityGroups[id]? = some sg) (hwell : sg.WellFormed P)
    (hr : sg.rules[h]? = some r) (hid : Client.Unescaped id) (hline : Client.OneLine id)
    (hhash : ToldApart P T ((mapValues sg.rules).map Rule.listing) r.listing)
    (hclient : Client.subSgHashedRuleDel P T first second id (Client.ruleHash P T r.listing) s =
      some (0, s')) :
    ∃ s₁ res, s₁.model = s.model ∧ Api0.respond P second.context.ambient
      (some { sgRuleDel := some { sgId := id, rule := r.listing } }) s₁ = some (res, s') := by
  subst hfirst
  obtain ⟨⟨res, t⟩, hlist, hclient⟩ := Option.bind_eq_some_iff.mp hclient
  cases res with
  | none => cases hclient
  | some res =>
      obtain ⟨hrespond, -⟩ := Client.request_accepted (T.parse_sgRuleList hid hline) hlist
      have hsg' : (Api.count s).model.securityGroups[id]? = some sg := hsg
      have hanswer : Api0.respond first.context.P first.context.ambient
          (some { sgRuleList := some id }) (Api.count s) = some _ :=
        congrArg some (sgRuleList_eq hsg' hwell)
      rw [hanswer] at hrespond
      simp only [Option.some.injEq, Prod.mk.injEq] at hrespond
      obtain ⟨hres, rfl⟩ := hrespond
      have hfind : (Client.response0 res).sgRuleList.find? (fun m =>
          Client.ruleHash first.context.P T r.listing = Client.ruleHash first.context.P T m) =
            some r.listing := by
        rw [← hres]
        exact find_ruleHash hr hhash
      simp only [hfind] at hclient
      obtain ⟨⟨res, t⟩, hdel, hclient⟩ := Option.bind_eq_some_iff.mp hclient
      cases res with
      | none => cases hclient
      | some res =>
          cases hclient
          obtain ⟨hrespond, -⟩ := Client.request_accepted
            (T.parse_sgRuleDel r.listing hid hline) hdel
          exact ⟨Api.count (Api.count s), _, rfl, hsecond ▸ hrespond⟩

/-- On a group named like the help argument the client succeeds and does nothing. -/
theorem subSgRuleDel_help (T : Client.RuleTextFormat) (first second : Client.Link)
    (args : List String) (s : Server) :
    Client.subSgRuleDel P T first second ("sg" :: "rule" :: "del" :: "help" :: args) s =
      some (0, s) := by
  cases args <;> rfl

theorem subSgRuleDel_hashed {T : Client.RuleTextFormat} {first second : Client.Link}
    {options : List String} (hid : id ≠ "help") (m : MessageV0.Rule) :
    Client.subSgRuleDel P T first second
        ("sg" :: "rule" :: "del" :: id :: Client.ruleHash P T m :: options) s =
      Client.subSgHashedRuleDel P T first second id (Client.ruleHash P T m) s :=
  (if_neg hid).trans (if_neg (Client.head_hashText _))

/--
In every reachable state the answers with rules are made from the stored rules, one by
one.  Sending a message back deletes the rule it was made from, and so does the client,
if and only if the rule has a peer and is about TCP or UDP or has both ports zero, or
its hash is by accident that of the same rule without ports; and if the group is not
named like the help argument of the client.
-/
theorem listed_rule_deleted_iff (hP : RefusesEmpty P) (hs : Reachable P anything s)
    (ambient : Ambient) (hsg : s.model.securityGroups[id]? = some sg)
    (hr : sg.rules[h]? = some r) {m : MessageV0.Rule} (hm : Api0.ruleToMessage r = some m) :
    ((Api0.sgRuleList id s).1.sgRuleList.map some = (mapValues sg.rules).map Api0.ruleToMessage ∧
      ∃ d ∈ (Api0.sgDetails id s).1.sgDetails, d.rule = (Api0.sgRuleList id s).1.sgRuleList) ∧
    (DeletesRule P ambient s id sg h m ↔ Resendable P r ∧
      (id = "help" → ∀ T : Client.RuleTextFormat,
        ¬ToldApart P T (Api0.sgRuleList id s).1.sgRuleList m)) := by
  have hgroups := hs.wellFormed.groups
  have hwell := hgroups id sg hsg
  obtain ⟨hhash, hrule⟩ := hwell.rules h r hr
  obtain rfl : r.listing = m := by
    rw [Rule.ruleToMessage_eq_listing hrule] at hm
    exact Option.some.inj hm
  refine ⟨⟨?_, ?_⟩, ?_, ?_⟩
  · rw [sgRuleList_eq hsg hwell]
    simp only [Api0.buildOkRes, List.map_map]
    refine List.map_congr_left fun r' hr' => ?_
    obtain ⟨h', hlookup⟩ := mem_mapValues.mp hr'
    exact (Rule.ruleToMessage_eq_listing (hwell.rules h' r' hlookup).2).symm
  · rw [sgRuleList_eq hsg hwell]
    exact sgDetails_rules hsg hgroups
  · rintro ⟨⟨res, s', hrespond, hgone⟩, hclient⟩
    refine ⟨?_, fun hname T htold => ?_⟩
    · by_cases hpeer : r.HasPeer
      · rw [respond_sgRuleDel_listing hrule hpeer] at hrespond
        cases hrespond
        exact ⟨hpeer, (relisted_hash_iff r).mp ((ruleGone_iff hsg hr hhash).mp hgone)⟩
      · -- The message is refused, and the rule is still there.
        have hrefused : Api0.respond P ambient
            (some { sgRuleDel := some { sgId := id, rule := r.listing } }) s =
              some (Api0.buildNokText {} "Bad Security Group rule format" s) := by
          have hhandle : Api0.respond P ambient
              (some { sgRuleDel := some { sgId := id, rule := r.listing } }) s =
                some (Api0.sgRuleDel P ambient { sgId := id, rule := r.listing } s) := rfl
          rw [hhandle, Api0.sgRuleDel, Api0.withRule, validate_listing_of_no_peer hP hrule hpeer]
          rfl
        rw [hrefused] at hrespond
        have hmodel : s'.model = s.model := by
          obtain ⟨-, rfl⟩ := Prod.mk.inj (Option.some.inj hrespond)
          rfl
        exact absurd hgone (not_ruleGone (by rw [hmodel]; exact hsg) hr)
    · subst hname
      have hgone := hclient T (Client.perfectLink P) (Client.perfectLink P) [] s (by decide)
        (by decide) htold rfl rfl (subSgRuleDel_help T _ _ _ s)
      exact not_ruleGone hsg hr hgone
  · rintro ⟨⟨hpeer, hports⟩, hhelp⟩
    have hsame := (relisted_hash_iff r).mpr hports
    refine ⟨⟨_, _, respond_sgRuleDel_listing hrule hpeer, (ruleGone_iff hsg hr hhash).mpr hsame⟩,
      ?_⟩
    intro T first second options s' hunescaped hline htold hfirst hsecond hclient
    have hname : id ≠ "help" := fun h => hhelp h T htold
    rw [subSgRuleDel_hashed hname] at hclient
    rw [sgRuleList_eq hsg hwell] at htold
    obtain ⟨s₁, res, hmodel, hrespond⟩ := subSgHashedRuleDel_success hfirst hsecond hsg hwell hr
      hunescaped hline htold hclient
    rw [respond_sgRuleDel_listing hrule hpeer] at hrespond
    cases hrespond
    have hsg₁ : s₁.model.securityGroups[id]? = some sg := by rw [hmodel, hsg]
    have hgone : RuleGone s₁ (Api.actionSgRuleDel P second.context.ambient id r.relisted s₁)
        id sg h := (ruleGone_iff hsg₁ hr hhash).mpr hsame
    rwa [RuleGone, hmodel] at hgone

end Deletion

theorem libc_refusesEmpty : RefusesEmpty Libc.platform := ⟨by decide, by decide⟩

def portRules : List MessageV0.Rule :=
  [{ direction := .inbound, protocol := 6, portStart := some 80, portEnd := some 443
     cidr := some { address := "10.0.0.0", maskSize := 8 } },
   { direction := .inbound, protocol := -1, portStart := some 0, portEnd := some 1024
     cidr := some { address := "10.0.0.0", maskSize := 8 } }]

def portServer : Server :=
  (serve Libc.platform {} [{ sgAdd := some { id := "sg-1", rule := portRules } }]
    (Server.start {} 1 0)).getD (Server.start {} 1 0)

theorem portServer_reachable : Reachable Libc.platform anything portServer := by
  have hsome : (serve Libc.platform {} [{ sgAdd := some { id := "sg-1", rule := portRules } }]
      (Server.start {} 1 0)).isSome = true := by
    decide +kernel
  obtain ⟨s, hs⟩ := Option.isSome_iff_exists.mp hsome
  rw [portServer, hs]
  exact (Reachable.start {} 1 0).serve (fun _ _ _ => trivial) hs

def portRule (protocol : Int16) (portStart portEnd : Int32) : Rule :=
  { direction := .inbound, protocol := protocol, portStart := portStart, portEnd := portEnd
    cidr := { address := Ip.ofV4 Libc.platform #v[10, 0, 0, 0], maskSize := 8 } }

theorem listed_rule_deleted_web_rule :
    ∃ sg h r m, portServer.model.securityGroups["sg-1"]? = some sg ∧ sg.rules[h]? = some r ∧
      Api0.ruleToMessage r = some m ∧ DeletesRule Libc.platform {} portServer "sg-1" sg h m := by
  refine ⟨(portServer.model.securityGroups["sg-1"]?).get (by decide +kernel),
    (portRule 6 80 443).hash Libc.platform, portRule 6 80 443, _, by simp, by decide +kernel,
    rfl, ?_⟩
  have hresendable : Resendable Libc.platform (portRule 6 80 443) :=
    ⟨.inr (by decide), .inl rfl⟩
  exact (listed_rule_deleted_iff libc_refusesEmpty portServer_reachable {} (by simp)
    (by decide +kernel) rfl).2.mpr ⟨hresendable, fun h => absurd h (by decide)⟩

/-- The other rule is listed without its ports, and stays when the message is sent back. -/
theorem listed_rule_survives :
    ∃ sg h r m, Reachable Libc.platform anything portServer ∧
      portServer.model.securityGroups["sg-1"]? = some sg ∧ sg.rules[h]? = some r ∧
      Api0.ruleToMessage r = some m ∧ ¬DeletesRule Libc.platform {} portServer "sg-1" sg h m := by
  have hsg : ∃ sg, portServer.model.securityGroups["sg-1"]? = some sg ∧
      sg.rules[(portRule (-1) 0 1024).hash Libc.platform]? = some (portRule (-1) 0 1024) :=
    ⟨(portServer.model.securityGroups["sg-1"]?).get (by decide +kernel), by simp,
      by decide +kernel⟩
  obtain ⟨sg, hsg, hr⟩ := hsg
  obtain ⟨hhash, hrule⟩ := (portServer_reachable.wellFormed.groups _ _ hsg).rules _ _ hr
  refine ⟨sg, _, _, _, portServer_reachable, hsg, hr, Rule.ruleToMessage_eq_listing hrule, ?_⟩
  rintro ⟨⟨res, s', hrespond, hgone⟩, -⟩
  rw [respond_sgRuleDel_listing hrule (.inr (by decide))] at hrespond
  cases hrespond
  exact absurd ((ruleGone_iff hsg hr hhash).mp hgone) (by decide +kernel)

end Butterfly
