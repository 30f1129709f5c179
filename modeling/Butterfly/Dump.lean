import Butterfly.Deletion
import Butterfly.Exchange
import Butterfly.Replay

/-!
# Dumping and restoring

`SubDump` of the client's `dump.cc` reads all NICs and groups and prints the requests that
add them again, which `butterfly request` sends to a server that was just started.  The
conversions of `api_0.cc` forget the type of a NIC and the ports of most rules, and print a
rule without an address as something that is refused.
-/

namespace Butterfly

open Std Foundation Butterfly.Graph

/-! ## The client -/

namespace Client

open MessageV0 Proto

def asMessage (revision : UInt32) (id : Option String) (rq : MessageV0.Request) : Message :=
  { revision := revision, message0 := some { request := some rq, messageId := id } }

def dumpQuestions (revision : UInt32) : Messages :=
  { messages := [asMessage revision (some "nics") { nicDetails := some "" },
      asMessage revision (some "sgs") { sgDetails := some "" }] }

/-- `mutable_response()` of the last message with this id. -/
def responseOf (id : String) (res : Messages) : Option Response :=
  ((res.messages.filterMap Message.message0).filter fun m => m.messageId = some id).getLast?.map
    fun m => m.response.getD {}

def dumpOf (revision : UInt32) (res : Messages) : Messages :=
  let nics := ((responseOf "nics" res).map Response.nicDetails).getD []
  let sgs := ((responseOf "sgs" res).map Response.sgDetails).getD []
  { messages := nics.map (fun n => asMessage revision none { nicAdd := some n }) ++
      sgs.map fun sg => asMessage revision none { sgAdd := some sg } }

/-- `SubDump`: what it prints, if its exit status is 0, and the server afterwards. -/
def subDump (X : Api.Context) (caller : Caller) (revision : UInt32) (s : Server) :
    Option (Option Messages × Server) :=
  (exchange X caller (dumpQuestions revision) s).map fun (res, s) =>
    (res.map (dumpOf revision), s)

end Client

/-! ## Lists that are read back -/

section Lists

variable {P : Platform}

theorem convertIps_str (acc : List Ip) {ips : List Ip} (hgenuine : ∀ ip ∈ ips, ip.Genuine P)
    (hapart : Apart (acc ++ ips)) :
    Api0.convertIps P (ips.map Ip.str) acc = .ok (acc ++ ips) := by
  induction ips generalizing acc with
  | nil => rw [List.append_nil]; rfl
  | cons ip rest ih =>
      have hnew : findIp acc ip = false := by
        rw [findIp, List.any_eq_false]
        intro known hknown
        simpa using (List.pairwise_append.mp hapart).2.2 known hknown ip List.mem_cons_self
      rw [List.append_cons] at hapart
      have hrest := ih _ (fun ip hip => hgenuine ip (List.mem_cons_of_mem _ hip)) hapart
      rw [List.map_cons, Api0.convertIps, convertIp_str (hgenuine ip List.mem_cons_self)]
      change (if findIp acc ip then _ else _) = _
      rw [hnew, if_neg Bool.false_ne_true, hrest, ← List.append_cons]

theorem addNames_of_nodup {acc names : List String} (h : (acc ++ names).Nodup) :
    Api0.addNames names acc = acc ++ names := by
  induction names generalizing acc with
  | nil => rw [List.append_nil]; rfl
  | cons name rest ih =>
      have hnew : name ∉ acc := fun hmem =>
        (List.nodup_append.mp h).2.2 name hmem name List.mem_cons_self rfl
      rw [List.append_cons] at h
      rw [Api0.addNames, if_neg hnew, ih h, ← List.append_cons]

end Lists

/-! ## NICs -/

section Nics

variable {P : Platform} {ambient : Ambient}

/-- What conversion and the actions make sure of beyond `Nic.WellFormed`. -/
structure Nic.Canonical (P : Platform) (nic : Nic) : Prop where
  mac : scanMac nic.mac.mac = some nic.mac.data
  ips : Apart nic.ipList
  tracePath : nic.packetTracePath ≠ ""
  path : nic.path = nicPath P nic
  plain : nic.type = .vhostUserServer → nic.btype = none ∧ nic.dip = {} ∧ nic.dmac = {}

theorem convertNicType_canonical {m : MessageV0.Nic} {nic nic' : Nic}
    (hplain : nic.btype = none ∧ nic.dip = {} ∧ nic.dmac = {})
    (h : Api0.convertNicType P m nic = .ok nic') :
    nic'.mac = nic.mac ∧ nic'.packetTracePath = nic.packetTracePath ∧
      (nic'.type = .vhostUserServer → nic'.btype = none ∧ nic'.dip = {} ∧ nic'.dmac = {}) := by
  unfold Api0.convertNicType at h
  split at h
  · cases h
    exact ⟨rfl, rfl, fun _ => hplain⟩
  · split at h
    · cases h
    · split at h
      · split at h
        · next dip dmac _ _ =>
            cases hdip : Api0.convertIp P dip with
            | error error =>
                rw [hdip] at h
                cases h
            | ok ip =>
                rw [hdip] at h
                cases h
                exact ⟨rfl, rfl, fun h => nomatch h⟩
        · cases h
      · split at h
        · cases h
          exact ⟨rfl, rfl, fun h => nomatch h⟩
        · cases h
  · cases h
    exact ⟨rfl, rfl, fun _ => hplain⟩

theorem convertNic_canonical {trace : Bool} {pid : Nat} {m : MessageV0.Nic} {nic : Nic}
    (hvalid : Api0.validateNic P m = true) (h : Api0.convertNic P trace pid m = .ok nic) :
    Nic.Canonical P { nic with path := nicPath P nic } := by
  have hips := (convertNic_fields h).2.2.1
  have hmac : (scanMac m.mac).isSome := by
    simp only [Api0.validateNic, Bool.and_eq_true] at hvalid
    exact hvalid.1.1
  obtain ⟨data, hdata⟩ := Option.isSome_iff_exists.mp hmac
  unfold Api0.convertNic at h
  rw [hips] at h
  obtain ⟨hmac', hpath, hplain⟩ := convertNicType_canonical ⟨rfl, rfl, rfl⟩ h
  refine ⟨?_, convertIps_apart hips List.Pairwise.nil, ?_, rfl, hplain⟩
  · change scanMac nic.mac.mac = some nic.mac.data
    rw [hmac', Mac.set_of_scanMac hdata {} rfl]
    exact hdata
  · change nic.packetTracePath ≠ ""
    rw [hpath]
    cases htext : Api0.nonEmpty m.packetTracePath with
    | none => exact defaultTracePath_ne_empty pid m.id
    | some text => exact nonEmpty_ne_empty htext

theorem updatedNic_canonical {update : NicUpdate} {old : Nic} (hold : old.Canonical P)
    (hips : Apart update.ip) : (updatedNic update old).Canonical P := by
  have hpath : ∀ {on : Prop} [Decidable on],
      (if on ∧ update.packetTracePath ≠ "" then update.packetTracePath
        else old.packetTracePath) ≠ "" := by
    intro on _
    split
    · next hnew => exact hnew.2
    · exact hold.tracePath
  rw [updatedNic_mk]
  refine ⟨hold.mac, ?_, hpath, hold.path, hold.plain⟩
  dsimp only
  split
  · exact hips
  · exact hold.ips

theorem nicsAfter_canonical {s : Server} {c : Api0.Command} {a : Action} {accepted : Bool}
    (hasks : Asks P ambient s c a) {nics : ExtTreeMap String Nic}
    (h : ∀ (id : String) (nic : Nic), nics[id]? = some nic → nic.Canonical P) :
    ∀ (id : String) (nic : Nic), (nicsAfter P a accepted nics)[id]? = some nic →
      nic.Canonical P := by
  have herase (key : String) : ∀ (id : String) (nic : Nic), (nics.erase key)[id]? = some nic →
      nic.Canonical P := by
    intro id nic hnic
    rw [lookup_erase] at hnic
    split at hnic
    · cases hnic
    · exact h id nic hnic
  intro id nic hnic
  cases hasks with
  | @nicAdd n new hvalid hconvert =>
      simp only [nicsAfter] at hnic
      split at hnic
      · rw [lookup_insertIfNew] at hnic
        split at hnic
        · simp only [lookup_erase, if_true, Option.getD_none, Option.some.injEq] at hnic
          subst hnic
          exact convertNic_canonical hvalid hconvert
        · exact herase _ id nic hnic
      · exact herase _ id nic hnic
  | @nicUpdate req update hvalid hconvert =>
      simp only [nicsAfter] at hnic
      split at hnic
      · exact h id nic hnic
      · next old hold =>
          rw [lookup_insert] at hnic
          split at hnic
          · cases hnic
            obtain ⟨-, -, hips, -⟩ := convertNicUpdate_fields hconvert
            exact updatedNic_canonical (h _ _ hold) (convertIps_apart hips List.Pairwise.nil)
          · exact h id nic hnic
  | nicDel key => exact herase _ id nic hnic
  | sgAdd _ _ => exact h id nic hnic
  | sgDel _ => exact h id nic hnic
  | sgRuleAdd _ _ => exact h id nic hnic
  | sgRuleDel _ _ => exact h id nic hnic
  | sgMemberAdd _ _ => exact h id nic hnic
  | sgMemberDel _ _ => exact h id nic hnic

theorem Reachable.canonical {allowed : Allowed} {s : Server} (h : Reachable P allowed s) :
    ∀ (id : String) (nic : Nic), s.model.nics[id]? = some nic → nic.Canonical P := by
  refine h.model_invariant (I := fun m => ∀ (id : String) (nic : Nic),
    m.nics[id]? = some nic → nic.Canonical P) ?_ ?_
  · intro id nic hnic
    rw [ExtTreeMap.getElem?_empty] at hnic
    cases hnic
  · intro s ambient request m' _ _ hcanonical htransition
    cases htransition with
    | quiet _ => exact hcanonical
    | act _ _ hasks hstored =>
        rw [hstored.nics]
        exact nicsAfter_canonical hasks hcanonical

/-! ### Their messages -/

def dumpedNic (P : Platform) (nic : Nic) : Nic :=
  { nic with dmac := {}, dip := {}, type := .vhostUserServer, btype := none
             path := P.vhostSocketPath ("vhost-" ++ nic.id) }

variable {nic : Nic}

theorem validate_nicToMessage (hnic : nic.WellFormed P) (hcanonical : nic.Canonical P) :
    Api0.validateNic P (Api0.nicToMessage nic) = true := by
  have hvni : nic.vni ≤ 16777215 := by
    have hsmall := hnic.vni
    have hlimit : (16777215 : UInt32).toNat = 16777215 := rfl
    rw [UInt32.le_iff_toNat_le, hlimit]
    omega
  have hips : ∀ ip ∈ nic.ipList, Api0.validateIp P ip.str = true := by
    intro ip hip
    rcases convertIp_cases (convertIp_str (hnic.ips ip hip)) with ⟨a, h4, -⟩ | ⟨-, a, h6, -⟩
    · simp [Api0.validateIp, h4]
    · simp [Api0.validateIp, h6]
  simp [Api0.validateNic, Api0.nicToMessage, Api0.validateMac, Mac.str, hcanonical.mac, hvni]
  exact hips

theorem nonEmpty_getD (text : String) : (Api0.nonEmpty (some text)).getD "" = text := by
  by_cases h : text = ""
  · rw [h]
    rfl
  · rw [nonEmpty_some h, Option.getD_some]

theorem convert_nicToMessage (hnic : nic.WellFormed P) (hcanonical : nic.Canonical P)
    (trace : Bool) (pid : Nat) :
    Api0.convertNic P trace pid (Api0.nicToMessage nic) =
      .ok { nic with dmac := {}, dip := {}, type := .vhostUserServer, btype := none } := by
  have hips := convertIps_str [] hnic.ips hcanonical.ips
  have hnames : Api0.addNames nic.securityGroups [] = nic.securityGroups :=
    addNames_of_nodup (by simpa using hnic.groups)
  have hmac : ({} : Mac).set nic.mac.mac = nic.mac := by
    rw [Mac.set_of_scanMac hcanonical.mac {} rfl]
  have hpath : Api0.nonEmpty (some nic.packetTracePath) = some nic.packetTracePath :=
    nonEmpty_some hcanonical.tracePath
  unfold Api0.convertNic
  rw [show (Api0.nicToMessage nic).ip = nic.ipList.map Ip.str from rfl, hips]
  change Api0.convertNicType P (Api0.nicToMessage nic) _ = _
  simp only [Api0.convertNicType, Api0.nicToMessage, Mac.str, hmac, hnames, hpath,
    nonEmpty_getD, Option.getD_some, List.nil_append]

theorem dumpedNic_eq_iff (hcanonical : nic.Canonical P) :
    dumpedNic P nic = nic ↔ nic.type = .vhostUserServer := by
  constructor
  · intro h
    rw [← h]
    rfl
  · intro htype
    obtain ⟨hbtype, hdip, hdmac⟩ := hcanonical.plain htype
    have hpath := hcanonical.path
    rw [nicPath, htype] at hpath
    obtain ⟨⟩ := nic
    simp only [dumpedNic] at *
    simp [*]

end Nics

/-! ## Groups -/

section Groups

variable {P : Platform} {sg : Sg}

def Sg.listing (sg : Sg) : MessageV0.Sg :=
  { id := sg.id, member := sg.members.map Ip.str
    rule := (mapValues sg.rules).map Rule.listing }

def Sg.HasPeers (sg : Sg) : Prop := ∀ r ∈ mapValues sg.rules, r.HasPeer

def gatherRules (P : Platform) (rules : List Rule) (acc : ExtTreeMap UInt64 Rule) :
    ExtTreeMap UInt64 Rule :=
  rules.foldl (fun acc r => acc.insertIfNew (r.hash P) r) acc

def dumpedSg (P : Platform) (sg : Sg) : Sg :=
  { sg with rules := gatherRules P ((mapValues sg.rules).map Rule.relisted) ∅ }

theorem Sg.WellFormed.rule (h : sg.WellFormed P) {r : Rule} (hr : r ∈ mapValues sg.rules) :
    r.WellFormed P := by
  obtain ⟨hash, hlookup⟩ := mem_mapValues.mp hr
  exact (h.rules hash r hlookup).2

theorem sgToMessage_eq_listing (h : sg.WellFormed P) :
    Api0.sgToMessage sg = some sg.listing := by
  rw [Api0.sgToMessage, h.listings]
  rfl

theorem validate_sgListing_iff (hP : RefusesEmpty P) (h : sg.WellFormed P) :
    Api0.validateSg P sg.listing = true ↔ sg.HasPeers := by
  have hmembers : ∀ ip ∈ sg.members, Api0.validateIp P ip.str = true := by
    intro ip hip
    rcases convertIp_cases (convertIp_str (h.members ip hip)) with ⟨a, h4, -⟩ | ⟨-, a, h6, -⟩
    · simp [Api0.validateIp, h4]
    · simp [Api0.validateIp, h6]
  have hall : sg.listing.member.all (Api0.validateIp P) = true := by
    simpa [Sg.listing] using hmembers
  rw [Api0.validateSg, hall, Bool.true_and, List.all_eq_true]
  constructor
  · intro hvalid r hr
    by_contra hpeer
    have hone := hvalid r.listing (List.mem_map_of_mem hr)
    rw [validate_listing_of_no_peer hP (h.rule hr) hpeer] at hone
    cases hone
  · intro hpeers m hm
    obtain ⟨r, hr, rfl⟩ := List.mem_map.mp hm
    exact validate_listing (h.rule hr) (hpeers r hr)

theorem convertRules_listings {rules : List Rule} (hrules : ∀ r ∈ rules, r.WellFormed P)
    (hpeers : ∀ r ∈ rules, r.HasPeer) (acc : ExtTreeMap UInt64 Rule) :
    Api0.convertRules P (rules.map Rule.listing) acc =
      .ok (gatherRules P (rules.map Rule.relisted) acc) := by
  induction rules generalizing acc with
  | nil => rfl
  | cons r rest ih =>
      rw [List.map_cons, Api0.convertRules,
        convertRule_listing (hrules r List.mem_cons_self) (hpeers r List.mem_cons_self)]
      exact ih (fun r hr => hrules r (List.mem_cons_of_mem _ hr))
        (fun r hr => hpeers r (List.mem_cons_of_mem _ hr)) _

theorem convert_sgListing (h : sg.WellFormed P) (hapart : Apart sg.members)
    (hpeers : sg.HasPeers) : Api0.convertSg P sg.listing = .ok (dumpedSg P sg) := by
  have hmembers := convertIps_str [] h.members hapart
  have hrules := convertRules_listings (fun r hr => h.rule hr) hpeers ∅
  unfold Api0.convertSg
  rw [show sg.listing.member = sg.members.map Ip.str from rfl,
    show sg.listing.rule = (mapValues sg.rules).map Rule.listing from rfl, hmembers, hrules,
    List.nil_append]
  rfl

/-! ### Rules gathered in a map -/

theorem mem_gathered {rules : List Rule} {acc : ExtTreeMap UInt64 Rule} {r : Rule}
    (h : r ∈ mapValues (gatherRules P rules acc)) :
    r ∈ rules ∨ r ∈ mapValues acc := by
  induction rules generalizing acc with
  | nil => exact .inr h
  | cons first rest ih =>
      rcases ih h with hrest | hacc
      · exact .inl (List.mem_cons_of_mem _ hrest)
      · obtain ⟨k, hk⟩ := mem_mapValues.mp hacc
        rw [lookup_insertIfNew] at hk
        split at hk
        · cases hold : acc[first.hash P]? with
          | none =>
              rw [hold] at hk
              cases hk
              exact .inl List.mem_cons_self
          | some old =>
              rw [hold] at hk
              cases hk
              exact .inr (mem_mapValues.mpr ⟨_, hold⟩)
        · exact .inr (mem_mapValues.mpr ⟨k, hk⟩)

/-- Rules of different hashes are all kept. -/
theorem lookup_gathered {rules : List Rule} {acc : ExtTreeMap UInt64 Rule}
    (hnodup : (rules.map (Rule.hash P)).Nodup)
    (hnew : ∀ r ∈ rules, acc[r.hash P]? = none) (k : UInt64) (r : Rule) :
    (gatherRules P rules acc)[k]? = some r ↔
      acc[k]? = some r ∨ r ∈ rules ∧ r.hash P = k := by
  induction rules generalizing acc with
  | nil => simp [gatherRules]
  | cons first rest ih =>
      obtain ⟨hfirst, hrest⟩ := List.nodup_cons.mp hnodup
      have hnone := hnew first List.mem_cons_self
      rw [gatherRules, List.foldl_cons, ← gatherRules, ih hrest]
      · rw [lookup_insertIfNew, hnone, Option.getD_none, List.mem_cons]
        by_cases hk : first.hash P = k
        · subst hk
          simp only [if_true, hnone, Option.some.injEq]
          constructor
          · rintro (rfl | ⟨hr, heq⟩)
            · exact .inr ⟨.inl rfl, rfl⟩
            · exact .inr ⟨.inr hr, heq⟩
          · rintro (h | ⟨rfl | hr, heq⟩)
            · cases h
            · exact .inl rfl
            · exact .inr ⟨hr, heq⟩
        · rw [if_neg hk]
          constructor
          · rintro (h | ⟨hr, heq⟩)
            · exact .inl h
            · exact .inr ⟨.inr hr, heq⟩
          · rintro (h | ⟨rfl | hr, heq⟩)
            · exact .inl h
            · exact absurd heq hk
            · exact .inr ⟨hr, heq⟩
      · intro r hr
        rw [lookup_insertIfNew, if_neg]
        · exact hnew r (List.mem_cons_of_mem _ hr)
        · intro heq
          exact hfirst (heq ▸ List.mem_map_of_mem hr)

theorem Rule.relisted_relisted (r : Rule) : r.relisted.relisted = r.relisted := by
  by_cases h : r.protocol = 6 ∨ r.protocol = 17 <;> simp [Rule.relisted, h]

theorem Rule.hasPeer_relisted (r : Rule) : r.relisted.HasPeer ↔ r.HasPeer := by
  unfold Rule.relisted
  split <;> rfl

theorem mem_dumpedSg {r : Rule} (h : r ∈ mapValues (dumpedSg P sg).rules) :
    ∃ r' ∈ mapValues sg.rules, r'.relisted = r := by
  rcases mem_gathered h with h | h
  · exact List.mem_map.mp h
  · simp at h

theorem dumpedSg_eq_iff (h : sg.WellFormed P) :
    dumpedSg P sg = sg ↔ ∀ r ∈ mapValues sg.rules, r.relisted = r := by
  constructor
  · intro heq r hr
    rw [← heq] at hr
    obtain ⟨r', -, rfl⟩ := mem_dumpedSg hr
    exact r'.relisted_relisted
  · intro hall
    have hmap : (mapValues sg.rules).map Rule.relisted = mapValues sg.rules :=
      (List.map_congr_left hall).trans (List.map_id _)
    have hnodup : ((mapValues sg.rules).map (Rule.hash P)).Nodup := by
      obtain ⟨entries, hvalues, hkeys, -, hlookup⟩ := exists_keys sg.rules
      have hhash : entries.map Prod.fst = (entries.map Prod.snd).map (Rule.hash P) := by
        rw [List.map_map]
        refine List.map_congr_left fun entry hentry => ?_
        exact (h.rules _ _ ((hlookup entry.1 entry.2).mp hentry)).1
      rw [hvalues, ← hhash]
      exact hkeys
    have hrules : gatherRules P (mapValues sg.rules) ∅ = sg.rules := by
      apply ExtTreeMap.ext_getElem?
      intro k
      refine Option.ext fun r => ?_
      rw [lookup_gathered hnodup fun _ _ => ExtTreeMap.getElem?_empty,
        ExtTreeMap.getElem?_empty]
      constructor
      · rintro (hnone | ⟨hr, rfl⟩)
        · cases hnone
        · obtain ⟨k, hk⟩ := mem_mapValues.mp hr
          rw [← (h.rules k r hk).1]
          exact hk
      · intro hk
        exact .inr ⟨mem_mapValues.mpr ⟨k, hk⟩, (h.rules k r hk).1.symm⟩
    rw [dumpedSg, hmap, hrules]

end Groups

/-! ## Models -/

section Models

variable {P : Platform} {m m' : Model}

structure Model.Kept (P : Platform) (m : Model) : Prop where
  nicIds : ∀ (id : String) (nic : Nic), m.nics[id]? = some nic → nic.id = id
  sgIds : ∀ (id : String) (sg : Sg), m.securityGroups[id]? = some sg → sg.id = id
  nics : ∀ (id : String) (nic : Nic), m.nics[id]? = some nic →
    nic.WellFormed P ∧ nic.Canonical P
  groups : ∀ (id : String) (sg : Sg), m.securityGroups[id]? = some sg →
    sg.WellFormed P ∧ Apart sg.members

theorem Reachable.kept {allowed : Allowed} {s : Server} (h : Reachable P allowed s) :
    s.model.Kept P :=
  ⟨fun _ _ hnic => h.sound.agree.nicIds hnic, fun _ _ hsg => h.sound.agree.sgIds hsg,
    fun id nic hnic => ⟨h.wellFormed.nics id nic hnic, h.canonical id nic hnic⟩,
    fun id sg hsg => ⟨h.wellFormed.groups id sg hsg, h.groupsApart id sg hsg⟩⟩

def Model.dump (m : Model) : List MessageV0.Request :=
  (mapValues m.nics).map (fun nic => { nicAdd := some (Api0.nicToMessage nic) }) ++
    (mapValues m.securityGroups).map fun sg => { sgAdd := some sg.listing }

/-- A model after a dump was restored: a group with a rule without a peer is lost. -/
structure Restored (P : Platform) (m m' : Model) : Prop where
  nics : ∀ (id : String) (nic' : Nic), m'.nics[id]? = some nic' ↔
    ∃ nic, m.nics[id]? = some nic ∧ nic' = dumpedNic P nic
  groups : ∀ (id : String) (sg' : Sg), m'.securityGroups[id]? = some sg' ↔
    ∃ sg, m.securityGroups[id]? = some sg ∧ sg.HasPeers ∧ sg' = dumpedSg P sg

/-- A dump says all there is. -/
structure Model.Dumpable (m : Model) : Prop where
  nics : ∀ nic ∈ mapValues m.nics, nic.type = .vhostUserServer
  rules : ∀ sg ∈ mapValues m.securityGroups, ∀ r ∈ mapValues sg.rules,
    r.HasPeer ∧ r.relisted = r

theorem Restored.dumpable (h : Restored P m m') : m'.Dumpable := by
  constructor
  · intro nic' hnic'
    obtain ⟨id, hnic'⟩ := mem_mapValues.mp hnic'
    obtain ⟨nic, -, rfl⟩ := (h.nics id nic').mp hnic'
    rfl
  · intro sg' hsg' r hr
    obtain ⟨id, hsg'⟩ := mem_mapValues.mp hsg'
    obtain ⟨sg, -, hpeers, rfl⟩ := (h.groups id sg').mp hsg'
    obtain ⟨r', hr', rfl⟩ := mem_dumpedSg hr
    exact ⟨r'.hasPeer_relisted.mpr (hpeers r' hr'), r'.relisted_relisted⟩

theorem Restored.eq_iff (h : Restored P m m') (hkept : m.Kept P) : m' = m ↔ m.Dumpable := by
  constructor
  · rintro rfl
    exact h.dumpable
  · intro hdumpable
    refine Model.eq_of_maps (ExtTreeMap.ext_getElem? fun id => Option.ext fun sg' => ?_)
      (ExtTreeMap.ext_getElem? fun id => Option.ext fun nic' => ?_)
    · have hsame : ∀ sg, m.securityGroups[id]? = some sg →
          sg.HasPeers ∧ dumpedSg P sg = sg := by
        intro sg hsg
        have hrules := hdumpable.rules sg (mem_mapValues.mpr ⟨id, hsg⟩)
        exact ⟨fun r hr => (hrules r hr).1,
          (dumpedSg_eq_iff (hkept.groups id sg hsg).1).mpr fun r hr => (hrules r hr).2⟩
      rw [h.groups]
      constructor
      · rintro ⟨sg, hsg, -, rfl⟩
        rw [(hsame sg hsg).2]
        exact hsg
      · intro hsg
        exact ⟨sg', hsg, (hsame sg' hsg).1, (hsame sg' hsg).2.symm⟩
    · have hsame : ∀ nic, m.nics[id]? = some nic → dumpedNic P nic = nic := by
        intro nic hnic
        exact (dumpedNic_eq_iff (hkept.nics id nic hnic).2).mpr
          (hdumpable.nics nic (mem_mapValues.mpr ⟨id, hnic⟩))
      rw [h.nics]
      constructor
      · rintro ⟨nic, hnic, rfl⟩
        rw [hsame nic hnic]
        exact hnic
      · intro hnic
        exact ⟨nic', hnic, (hsame nic' hnic).symm⟩

/-! ### Requests of a dump -/

theorem adds_dump : ∀ rq ∈ m.dump, Adds rq := by
  intro rq hrq
  rcases List.mem_append.mp hrq with hrq | hrq
  · obtain ⟨nic, -, rfl⟩ := List.mem_map.mp hrq
    exact .inl ⟨_, rfl⟩
  · obtain ⟨sg, -, rfl⟩ := List.mem_map.mp hrq
    exact .inr ⟨_, rfl⟩

theorem nicIds_dump : m.dump.filterMap nicId? = (mapValues m.nics).map Nic.id := by
  have hnics : ∀ nics : List Nic, (nics.map fun nic : Nic =>
      ({ nicAdd := some (Api0.nicToMessage nic) } : MessageV0.Request)).filterMap nicId? =
        nics.map Nic.id := by
    intro nics
    rw [List.filterMap_map]
    exact congrFun (List.filterMap_eq_map (f := Nic.id)) nics
  have hgroups : ∀ groups : List Sg, (groups.map fun sg : Sg =>
      ({ sgAdd := some sg.listing } : MessageV0.Request)).filterMap nicId? = [] := by
    intro groups
    rw [List.filterMap_map]
    exact List.filterMap_eq_nil_iff.mpr fun _ _ => rfl
  rw [Model.dump, List.filterMap_append, hnics, hgroups, List.append_nil]

theorem sgIds_dump : m.dump.filterMap sgId? = (mapValues m.securityGroups).map Sg.id := by
  have hnics : ∀ nics : List Nic, (nics.map fun nic : Nic =>
      ({ nicAdd := some (Api0.nicToMessage nic) } : MessageV0.Request)).filterMap sgId? = [] := by
    intro nics
    rw [List.filterMap_map]
    exact List.filterMap_eq_nil_iff.mpr fun _ _ => rfl
  have hgroups : ∀ groups : List Sg, (groups.map fun sg : Sg =>
      ({ sgAdd := some sg.listing } : MessageV0.Request)).filterMap sgId? = groups.map Sg.id := by
    intro groups
    rw [List.filterMap_map]
    exact congrFun (List.filterMap_eq_map (f := Sg.id)) groups
  rw [Model.dump, List.filterMap_append, hnics, hgroups, List.nil_append]

/-- Values that carry their keys do so each their own. -/
theorem nodup_ids {α : Type} {entries : ExtTreeMap String α} {id : α → String}
    (h : ∀ (key : String) (v : α), entries[key]? = some v → id v = key) :
    ((mapValues entries).map id).Nodup := by
  obtain ⟨pairs, hvalues, hkeys, -, hlookup⟩ := exists_keys entries
  have hfst : (pairs.map Prod.snd).map id = pairs.map Prod.fst := by
    rw [List.map_map]
    exact List.map_congr_left fun pair hpair => h _ _ ((hlookup pair.1 pair.2).mp hpair)
  rw [hvalues, hfst]
  exact hkeys

theorem distinct_dump (hkept : m.Kept P) : Distinct m.dump {} := by
  refine ⟨?_, ?_, fun _ _ => ExtTreeMap.getElem?_empty, fun _ _ => ExtTreeMap.getElem?_empty⟩
  · rw [nicIds_dump]
    exact nodup_ids hkept.nicIds
  · rw [sgIds_dump]
    exact nodup_ids hkept.sgIds

theorem bringsNic_dump (hkept : m.Kept P) {config : AppConfig} {pid : Nat} (id : String)
    (nic' : Nic) : (∃ rq ∈ m.dump, BringsNic P config pid rq id nic') ↔
      ∃ nic, m.nics[id]? = some nic ∧ nic' = dumpedNic P nic := by
  constructor
  · rintro ⟨rq, hrq, n, new, hc, -, hconvert, rfl, rfl⟩
    rcases List.mem_append.mp hrq with hrq | hrq
    · obtain ⟨nic, hnic, rfl⟩ := List.mem_map.mp hrq
      cases hc
      obtain ⟨key, hlookup⟩ := mem_mapValues.mp hnic
      obtain ⟨hwf, hcanonical⟩ := hkept.nics key nic hlookup
      rw [convert_nicToMessage hwf hcanonical] at hconvert
      cases hconvert
      exact ⟨nic, by rw [hkept.nicIds key nic hlookup]; exact hlookup, rfl⟩
    · obtain ⟨sg, -, rfl⟩ := List.mem_map.mp hrq
      cases hc
  · rintro ⟨nic, hlookup, rfl⟩
    obtain ⟨hwf, hcanonical⟩ := hkept.nics id nic hlookup
    refine ⟨_, List.mem_append_left _ (List.mem_map_of_mem (mem_mapValues.mpr ⟨id, hlookup⟩)),
      _, _, rfl, validate_nicToMessage hwf hcanonical, convert_nicToMessage hwf hcanonical _ _,
      hkept.nicIds id nic hlookup, rfl⟩

theorem bringsSg_dump (hP : RefusesEmpty P) (hkept : m.Kept P) (id : String) (sg' : Sg) :
    (∃ rq ∈ m.dump, BringsSg P rq id sg') ↔
      ∃ sg, m.securityGroups[id]? = some sg ∧ sg.HasPeers ∧ sg' = dumpedSg P sg := by
  constructor
  · rintro ⟨rq, hrq, msg, hc, hvalid, hconvert, rfl⟩
    rcases List.mem_append.mp hrq with hrq | hrq
    · obtain ⟨nic, -, rfl⟩ := List.mem_map.mp hrq
      cases hc
    · obtain ⟨sg, hsg, rfl⟩ := List.mem_map.mp hrq
      cases hc
      obtain ⟨key, hlookup⟩ := mem_mapValues.mp hsg
      obtain ⟨hwf, hapart⟩ := hkept.groups key sg hlookup
      have hpeers := (validate_sgListing_iff hP hwf).mp hvalid
      rw [convert_sgListing hwf hapart hpeers] at hconvert
      cases hconvert
      refine ⟨sg, ?_, hpeers, rfl⟩
      rw [show (dumpedSg P sg).id = sg.id from rfl, hkept.sgIds key sg hlookup]
      exact hlookup
  · rintro ⟨sg, hlookup, hpeers, rfl⟩
    obtain ⟨hwf, hapart⟩ := hkept.groups id sg hlookup
    refine ⟨_, List.mem_append_right _ (List.mem_map_of_mem (mem_mapValues.mpr ⟨id, hlookup⟩)),
      _, rfl, (validate_sgListing_iff hP hwf).mpr hpeers, convert_sgListing hwf hapart hpeers,
      hkept.sgIds id sg hlookup⟩

theorem harmless_dump (hkept : m.Kept P) {config : AppConfig} {pid : Nat} :
    ∀ rq ∈ m.dump, Harmless P config pid rq := by
  intro rq hrq n new hc _ hconvert
  rcases List.mem_append.mp hrq with hrq | hrq
  · obtain ⟨nic, hnic, rfl⟩ := List.mem_map.mp hrq
    cases hc
    obtain ⟨key, hlookup⟩ := mem_mapValues.mp hnic
    obtain ⟨hwf, hcanonical⟩ := hkept.nics key nic hlookup
    rw [convert_nicToMessage hwf hcanonical] at hconvert
    cases hconvert
    rintro ⟨htype, -⟩
    cases htype
  · obtain ⟨sg, -, rfl⟩ := List.mem_map.mp hrq
    cases hc

theorem Gathered.restored (hP : RefusesEmpty P) (hkept : m.Kept P) {config : AppConfig}
    {pid : Nat} (h : Gathered P config pid m.dump {} m') : Restored P m m' := by
  have hempty : ∀ {α : Type} (id : String) (v : α), (∅ : ExtTreeMap String α)[id]? ≠ some v := by
    intro α id v hv
    rw [ExtTreeMap.getElem?_empty] at hv
    cases hv
  constructor
  · intro id nic'
    rw [h.nics, bringsNic_dump hkept]
    exact or_iff_right (hempty id nic')
  · intro id sg'
    rw [h.groups, bringsSg_dump hP hkept]
    exact or_iff_right (hempty id sg')

end Models

/-! ## Through the wire -/

section Counting

variable {s : Server}

theorem Wired.count (h : Wired s) : Wired (Api.count s) :=
  ⟨⟨h.ok.started, h.ok.keyed, h.ok.ids, h.ok.switched, h.ok.bricks, h.ok.distinct⟩,
    h.paced, h.pristine, h.switches, h.nonempty, h.positive, h.bounded, h.apart, h.nodup, h.edges⟩

theorem Growing.count (h : Growing s) : Growing (Api.count s) :=
  ⟨⟨h.steady.agree.sameCore (Api.sameCore_count s), h.steady.wired.count, h.steady.marked,
    h.steady.idle, h.steady.fresh⟩, h.rebuilt, h.clean⟩

end Counting

section Answers

variable {P : Platform} {ambient : Ambient} {s s' : Server} {rq : MessageV0.Request}

def Brings (P : Platform) (config : AppConfig) (pid : Nat) (rq : MessageV0.Request) : Prop :=
  (∃ id nic, BringsNic P config pid rq id nic) ∨ ∃ id sg, BringsSg P rq id sg

theorem Nok.refused {r : MessageV0.Response × Server} (h : Nok s r) : ¬Accepted r.1 := by
  rw [Accepted, h.status]
  simp

theorem nicAdd_accepted_iff (hok : ∀ call, ambient.ok call = true) (h : Agree s)
    {n : MessageV0.Nic} (hc : Api0.command rq = some (.nicAdd n)) {res : MessageV0.Response}
    (hadd : Api0.nicAdd P ambient n s = some (res, s')) :
    Accepted res ↔ Brings P s.config s.pid rq := by
  have hsg : ∀ id sg, ¬BringsSg P rq id sg := by
    rintro id sg ⟨m, hm, -⟩
    rw [hc] at hm
    cases hm
  unfold Api0.nicAdd at hadd
  split at hadd
  · next hinvalid =>
      have hnok := buildNokText_nok "Bad NIC format" s
      rw [Option.some.inj hadd] at hnok
      refine iff_of_false hnok.refused ?_
      rintro (⟨id, nic, n', new, hn', hvalid, -⟩ | ⟨id, sg, hbrings⟩)
      · rw [hc] at hn'
        cases hn'
        simp [hvalid] at hinvalid
      · exact hsg id sg hbrings
  · next hvalid =>
      split at hadd
      · next error herror =>
          have hnok := internalError_nok error s
          rw [Option.some.inj hadd] at hnok
          refine iff_of_false hnok.refused ?_
          rintro (⟨id, nic, n', new, hn', -, hnew, -⟩ | ⟨id, sg, hbrings⟩)
          · rw [hc] at hn'
            cases hn'
            rw [herror] at hnew
            cases hnew
          · exact hsg id sg hbrings
      · next new hconvert =>
          obtain ⟨⟨added, t⟩, hact, hres⟩ := Option.bind_eq_some_iff.mp hadd
          obtain ⟨rfl, -⟩ := actionNicAdd_accepted hok h hact
          cases hres
          exact iff_of_true rfl
            (.inl ⟨_, _, n, new, hc, by simpa using hvalid, hconvert, rfl, rfl⟩)

theorem sgAdd_accepted_iff {m : MessageV0.Sg} (hc : Api0.command rq = some (.sgAdd m))
    {res : MessageV0.Response} (hadd : Api0.sgAdd P ambient m s = (res, s')) :
    Accepted res ↔ Brings P s.config s.pid rq := by
  have hnic : ∀ id nic, ¬BringsNic P s.config s.pid rq id nic := by
    rintro id nic ⟨n, -, hn, -⟩
    rw [hc] at hn
    cases hn
  unfold Api0.sgAdd at hadd
  split at hadd
  · next hinvalid =>
      have hnok := buildNokText_nok "Bad Security Group format" s
      rw [hadd] at hnok
      refine iff_of_false hnok.refused ?_
      rintro (⟨id, nic, hbrings⟩ | ⟨id, sg, m', hm', hvalid, -⟩)
      · exact hnic id nic hbrings
      · rw [hc] at hm'
        cases hm'
        simp [hvalid] at hinvalid
  · next hvalid =>
      split at hadd
      · next error herror =>
          have hnok := internalError_nok error s
          rw [hadd] at hnok
          refine iff_of_false hnok.refused ?_
          rintro (⟨id, nic, hbrings⟩ | ⟨id, sg, m', hm', -, hsg, -⟩)
          · exact hnic id nic hbrings
          · rw [hc] at hm'
            cases hm'
            rw [herror] at hsg
            cases hsg
      · next sg hconvert =>
          cases hadd
          exact iff_of_true rfl (.inr ⟨_, sg, m, hc, by simpa using hvalid, hconvert, rfl⟩)

theorem adds_accepted_iff (hok : ∀ call, ambient.ok call = true) (h : Agree s) (hadds : Adds rq)
    {res : MessageV0.Response}
    (hrespond : Api0.respond P ambient (some rq) s = some (res, s')) :
    Accepted res ↔ Brings P s.config s.pid rq := by
  rcases hadds with ⟨n, hc⟩ | ⟨m, hc⟩
  · simp only [Api0.respond, hc] at hrespond
    exact nicAdd_accepted_iff hok h hc hrespond
  · simp only [Api0.respond, hc] at hrespond
    exact sgAdd_accepted_iff hc (Option.some.inj hrespond)

end Answers

namespace Client

open MessageV0 Proto

variable {X : Api.Context} {caller : Caller} {s s' : Server}

theorem checkMessages_cons (m0 : MessageV0) (revision : UInt32) {response : Response}
    (hresponse : m0.response = some response) (rest : List Message) :
    checkMessages ({ revision := revision, message0 := some m0 } :: rest) = .ok ↔
      Accepted response ∧ checkMessages rest = .ok := by
  simp only [checkMessages, hresponse, Accepted]
  cases response.status.status with
  | none => simp
  | some value => cases value <;> simp

/-- A run of additions through `Dispatch`, with what the client makes of the responses. -/
theorem dispatchAll_adds (hquiet : ∀ m s, X.exception m s = none)
    (hok : ∀ call, X.ambient.ok call = true) {rqs : List MessageV0.Request}
    (h : Growing s) (hadds : ∀ rq ∈ rqs, Adds rq) (hdistinct : Distinct rqs s.model)
    (hserve : serve X.P X.ambient rqs s = some s') (revision : UInt32) :
    ∃ reps, Api.dispatchAll X (rqs.map (asMessage revision none)) s = (.ok reps, s') ∧
      reps.length = rqs.length ∧
      (checkMessages reps = .ok ↔ ∀ rq ∈ rqs, Brings X.P s.config s.pid rq) := by
  induction rqs generalizing s with
  | nil =>
      cases hserve
      exact ⟨[], rfl, rfl, by simp [checkMessages]⟩
  | cons rq rqs ih =>
      obtain ⟨⟨res, s₁⟩, hrespond, hserve⟩ := Option.bind_eq_some_iff.mp hserve
      have hrq := hadds rq List.mem_cons_self
      obtain ⟨hgrowing, hconfig, hpid, hone⟩ := grown_respond hok h hrq hdistinct hrespond
      obtain ⟨reps, hreps, hlength, hcheck⟩ := ih hgrowing
        (fun rq hrq => hadds rq (List.mem_cons_of_mem _ hrq)) (hdistinct.tail hone) hserve
      have hdispatch : Api.dispatch X (asMessage revision none rq) s =
          (.ok { revision := X.revision, message0 := some { response := some res } }, s₁) := by
        simp only [Api.dispatch, asMessage, hquiet, Api0.process, hrespond, Option.bind_eq_bind,
          Option.bind_some]
      refine ⟨{ revision := X.revision, message0 := some { response := some res } } :: reps,
        ?_, by simp [hlength], ?_⟩
      · rw [List.map_cons, Api.dispatchAll, hdispatch]
        simp only [hreps]
        rfl
      · rw [checkMessages_cons _ _ rfl, adds_accepted_iff hok h.steady.agree hrq hrespond, hcheck,
          hconfig, hpid, List.forall_mem_cons]

/-- A client and a server that understand each other and lose nothing. -/
structure Connected (X : Api.Context) (caller : Caller) (s : Server) : Prop where
  codec : X.codec.Lawful
  parse : X.parse = Messages.parse X.codec
  quiet : ∀ m s, X.exception m s = none
  sends : caller.Sends
  received : caller.received = true
  key : caller.encryptionKey = s.config.encryptionKey
  seals : caller.encryptionKey ≠ [] → X.iv.isSome

theorem asMessage_initialised {revision : UInt32} {id : Option String}
    {rq : MessageV0.Request} : ∀ m0 ∈ (asMessage revision id rq).message0, Initialised m0 := by
  rintro m0 ⟨⟩ r ⟨⟩

theorem Connected.exchange_eq (h : Connected X caller s) (hs : Sound s) (msgs : List Message)
    (hinit : ∀ msg ∈ msgs, ∀ m0 ∈ msg.message0, Initialised m0) :
    ∃ t, (t = Api.count s ∨ t = Api.count (Api.count s)) ∧
      exchange X caller { messages := msgs } s = meet X { messages := msgs } true t := by
  have hcount : ∀ {t : Server}, Sound t → Sound (Api.count t) := fun ht =>
    ⟨ht.agree.sameCore (Api.sameCore_count _), ht.clean⟩
  by_cases hkey : caller.encryptionKey = []
  · refine ⟨_, .inl rfl, ?_⟩
    rw [exchange_clear h.codec h.parse hinit (hcount hs) h.sends.sent hkey (h.key ▸ hkey),
      h.received]
  · refine ⟨_, .inr rfl, ?_⟩
    have hkeeps : KeepsConfig X := fun m s t hthrown => by
      rw [h.quiet] at hthrown
      cases hthrown
    rw [exchange_sealed h.codec h.parse hinit (hcount (hcount hs)) hkeeps rfl h.sends hkey h.key,
      h.received, h.seals hkey]
    rfl

theorem respond_sgDetails {P : Platform} (ambient : Ambient) (hkept : s.model.Kept P) :
    Api0.respond P ambient (some { sgDetails := some "" }) s =
      some (Api0.buildOkRes
        { sgDetails := (mapValues s.model.securityGroups).map Sg.listing }, s) := by
  have hall : (mapValues s.model.securityGroups).mapM Api0.sgToMessage =
      some ((mapValues s.model.securityGroups).map Sg.listing) := by
    refine mapM_eq_map fun sg hsg => ?_
    obtain ⟨id, hlookup⟩ := mem_mapValues.mp hsg
    exact sgToMessage_eq_listing (hkept.groups id sg hlookup).1
  change some (Api0.sgDetails "" s) = _
  simp only [Api0.sgDetails, ne_eq, not_true_eq_false, if_false, hall]

theorem meet_dumpQuestions (hquiet : ∀ m s, X.exception m s = none)
    (hkept : s.model.Kept X.P) (revision : UInt32) :
    ∃ res, meet X (dumpQuestions revision) true s = some (some res, s) ∧
      dumpOf revision res = { messages := s.model.dump.map (asMessage revision none) } := by
  have hnics : Api0.respond X.P X.ambient (some { nicDetails := some "" }) s =
      some (Api0.buildOkRes { nicDetails := (mapValues s.model.nics).map Api0.nicToMessage },
        s) := rfl
  have hgroups := respond_sgDetails X.ambient hkept
  refine ⟨{ messages := [
      { revision := X.revision
        message0 := some
          { response := some (Api0.buildOkRes
              { nicDetails := (mapValues s.model.nics).map Api0.nicToMessage })
            messageId := some "nics" } },
      { revision := X.revision
        message0 := some
          { response := some (Api0.buildOkRes
              { sgDetails := (mapValues s.model.securityGroups).map Sg.listing })
            messageId := some "sgs" } }] }, ?_, ?_⟩
  · simp only [meet, Api.dispatchMessages, Api.dispatchAll, Api.dispatch, dumpQuestions,
      asMessage, hquiet, Api0.process, hnics, hgroups, Option.bind_eq_bind, Option.bind_some]
    rfl
  · simp [dumpOf, responseOf, Model.dump, Api0.buildOkRes, Function.comp_def]

theorem meet_adds (hquiet : ∀ m s, X.exception m s = none)
    (hok : ∀ call, X.ambient.ok call = true) {rqs : List MessageV0.Request}
    (h : Growing s) (hadds : ∀ rq ∈ rqs, Adds rq) (hdistinct : Distinct rqs s.model)
    (hserve : serve X.P X.ambient rqs s = some s') (revision : UInt32) :
    ∃ res, meet X { messages := rqs.map (asMessage revision none) } true s = some (res, s') ∧
      (res.isSome ↔ rqs ≠ [] ∧ ∀ rq ∈ rqs, Brings X.P s.config s.pid rq) := by
  obtain ⟨reps, hreps, hlength, hcheck⟩ :=
    dispatchAll_adds hquiet hok h hadds hdistinct hserve revision
  refine ⟨checked { messages := reps }, ?_, ?_⟩
  · rw [meet, Api.dispatchMessages]
    simp only [hreps]
    rfl
  · have hempty : reps = [] ↔ rqs = [] := by
      rw [← List.length_eq_zero_iff, hlength, List.length_eq_zero_iff]
    rw [← hcheck, Ne, ← hempty]
    by_cases hnil : reps = []
    · simp [checked, checkRequestResult, hnil]
    · simp [checked, checkRequestResult, hnil]

end Client

theorem brings_dump_iff {P : Platform} {m : Model} (hP : RefusesEmpty P) (hkept : m.Kept P)
    {config : AppConfig} {pid : Nat} : (∀ rq ∈ m.dump, Brings P config pid rq) ↔
      ∀ sg ∈ mapValues m.securityGroups, sg.HasPeers := by
  constructor
  · intro hall sg hsg
    obtain ⟨key, hlookup⟩ := mem_mapValues.mp hsg
    rcases hall _ (List.mem_append_right _ (List.mem_map_of_mem hsg)) with
      ⟨id, nic, n, new, hc, -⟩ | ⟨id, sg', msg, hc, hvalid, -⟩
    · cases hc
    · cases hc
      exact (validate_sgListing_iff hP (hkept.groups key sg hlookup).1).mp hvalid
  · intro hpeers rq hrq
    rcases List.mem_append.mp hrq with hrq | hrq
    · obtain ⟨nic, hnic, rfl⟩ := List.mem_map.mp hrq
      obtain ⟨key, hlookup⟩ := mem_mapValues.mp hnic
      obtain ⟨hwf, hcanonical⟩ := hkept.nics key nic hlookup
      exact .inl ⟨_, _, _, _, rfl, validate_nicToMessage hwf hcanonical,
        convert_nicToMessage hwf hcanonical _ _, rfl, rfl⟩
    · obtain ⟨sg, hsg, rfl⟩ := List.mem_map.mp hrq
      obtain ⟨key, hlookup⟩ := mem_mapValues.mp hsg
      obtain ⟨hwf, hapart⟩ := hkept.groups key sg hlookup
      exact .inr ⟨_, _, _, rfl, (validate_sgListing_iff hP hwf).mpr (hpeers sg hsg),
        convert_sgListing hwf hapart (hpeers sg hsg), rfl⟩

theorem dump_eq_nil_iff {m : Model} : m.dump = [] ↔ m = {} := by
  constructor
  · intro h
    obtain ⟨hnics, hgroups⟩ := List.append_eq_nil_iff.mp h
    refine Model.eq_of_maps (ExtTreeMap.ext_getElem? fun id => ?_)
      (ExtTreeMap.ext_getElem? fun id => ?_)
    · rw [ExtTreeMap.getElem?_empty, Option.eq_none_iff_forall_ne_some]
      intro sg hsg
      exact absurd (mem_mapValues.mpr ⟨id, hsg⟩) (by simp [List.map_eq_nil_iff.mp hgroups])
    · rw [ExtTreeMap.getElem?_empty, Option.eq_none_iff_forall_ne_some]
      intro nic hnic
      exact absurd (mem_mapValues.mpr ⟨id, hnic⟩) (by simp [List.map_eq_nil_iff.mp hnics])
  · rintro rfl
    simp [Model.dump]

/--
What comes of a dump that is restored on a server that was just started, with or without
encryption on either side, if no call fails there.  The NICs come back as vhost NICs, and
so do the groups whose rules all name a group or an address, with the ports of TCP and UDP
rules only; the client reports a success exactly if there is anything to restore and no
group is lost.  So the model is the old one exactly if it was dumpable, which the restored
one always is, and the graph is the one that the restored model calls for.
-/
theorem dump_restores_iff {X X' : Api.Context} {caller caller' : Client.Caller} {s : Server}
    (hP : RefusesEmpty X.P) (hX : X'.P = X.P) (hok : ∀ call, X'.ambient.ok call = true)
    (hs : Reachable X.P anything s) (hold : Client.Connected X caller s)
    {config : AppConfig} {pid : Nat} {startDate : UInt64}
    (hnew : Client.Connected X' caller' (Server.start config pid startDate))
    (revision : UInt32) :
    ∃ dump s₁ res s', Client.subDump X caller revision s = some (some dump, s₁) ∧
      SameCore s s₁ ∧
      Client.exchange X' caller' dump (Server.start config pid startDate) = some (res, s') ∧
      Restored X.P s.model s'.model ∧ (s'.model = s.model ↔ s.model.Dumpable) ∧
      (res.isSome ↔ s.model ≠ {} ∧ ∀ sg ∈ mapValues s.model.securityGroups, sg.HasPeers) ∧
      ∀ pg, Drained s' pg →
        (∀ west east vnis, Attached s' pg west east vnis ↔
          Hangs s'.model.nics west east vnis) ∧
        ∀ {id : String} {nic : Nic}, s'.model.nics[id]? = some nic →
          ∃ gn, s'.findNic nic = some gn ∧ pg.firewalls.loaded gn.firewall =
            if nic.bypassFiltering then fun _ => []
            else builtRules (inRules s'.model.securityGroups nic) (outRules nic) := by
  have hkept := hs.kept
  have hstart : Growing (Server.start config pid startDate) := growing_start config pid startDate
  -- The dump says what the model says.
  obtain ⟨t, ht, hdump⟩ := hold.exchange_eq hs.sound
    (Client.dumpQuestions revision).messages (by
      intro msg hmsg
      simp only [Client.dumpQuestions, List.mem_cons, List.not_mem_nil, or_false] at hmsg
      rcases hmsg with rfl | rfl <;> exact Client.asMessage_initialised)
  have hcore : SameCore s t := by
    rcases ht with rfl | rfl
    · exact Api.sameCore_count s
    · exact (Api.sameCore_count s).trans (Api.sameCore_count _)
  have hmodel : t.model = s.model := hcore.model
  obtain ⟨answers, hanswers, hprinted⟩ := Client.meet_dumpQuestions (s := t) hold.quiet
    (by rw [hmodel]; exact hkept) revision
  rw [hmodel] at hprinted
  -- It is restored as a run of additions.
  obtain ⟨t', ht', hrestore⟩ := hnew.exchange_eq ⟨hstart.steady.agree, hstart.clean⟩
    (s.model.dump.map (Client.asMessage revision none)) (by
      intro msg hmsg
      obtain ⟨rq, -, rfl⟩ := List.mem_map.mp hmsg
      exact Client.asMessage_initialised)
  have hgrowing : Growing t' ∧ t'.model = {} := by
    rcases ht' with rfl | rfl
    · exact ⟨hstart.count, rfl⟩
    · exact ⟨hstart.count.count, rfl⟩
  have hdistinct : Distinct s.model.dump t'.model := by
    rw [hgrowing.2]
    exact distinct_dump hkept
  obtain ⟨hdefined, hrun⟩ := serve_adds (P := X'.P) hok hgrowing.1 adds_dump hdistinct
  obtain ⟨s', hserve⟩ := hdefined.mpr (harmless_dump (by rw [hX]; exact hkept))
  obtain ⟨hgrowing', hgathered⟩ := hrun s' hserve
  rw [hgrowing.2, hX] at hgathered
  have hrestored := hgathered.restored hP hkept
  obtain ⟨res, hmeet, hres⟩ := Client.meet_adds hnew.quiet hok hgrowing.1 adds_dump hdistinct
    hserve revision
  rw [hX, brings_dump_iff hP hkept, Ne, dump_eq_nil_iff] at hres
  refine ⟨_, t, res, s', ?_, hcore, hrestore.trans hmeet, hrestored, hrestored.eq_iff hkept,
    hres, fun pg hpg => ⟨fun west east vnis =>
      hgrowing'.steady.wired.attached_iff hgrowing'.steady.agree hpg, fun {id} {nic} hnic =>
        hgrowing'.loaded hpg hnic⟩⟩
  have hasked : Client.exchange X caller (Client.dumpQuestions revision) s =
      some (some answers, t) := hdump.trans hanswers
  simp only [Client.subDump, hasked, Option.map_some, hprinted]

/-- Two NICs and two groups move to a server with a key. -/
theorem dump_restores_iff_nics_then_groups :
    ∃ s dump s₁ res s', serve Libc.platform {} nicsThenGroups (Server.start {} 1 0) = some s ∧
      Client.subDump Api.sampleContext {} 0 s = some (some dump, s₁) ∧
      Client.exchange Api.sampleContext
        { encryptionKey := Crypto.sampleKey, iv := some (Vector.replicate 16 0) } dump
        (Server.start { encryptionKey := Crypto.sampleKey } 2 0) = some (some res, s') ∧
      s.model.nics.size = 2 ∧ s'.model = s.model := by
  obtain ⟨s, hs, hkey, hsize, hdumpable⟩ : ∃ s,
      serve Libc.platform {} nicsThenGroups (Server.start {} 1 0) = some s ∧
      s.config.encryptionKey = [] ∧ s.model.nics.size = 2 ∧
      (∀ nic ∈ mapValues s.model.nics, nic.type = .vhostUserServer) ∧
      ∀ sg ∈ mapValues s.model.securityGroups, ∀ r ∈ mapValues sg.rules,
        r.securityGroup ≠ "" ∧ r.relisted = r := by
    refine ⟨(serve Libc.platform {} nicsThenGroups (Server.start {} 1 0)).get ?_, ?_, ?_, ?_, ?_⟩
    · decide +kernel
    · simp
    · decide +kernel
    · decide +kernel
    · decide +kernel
  have hreachable : Reachable Libc.platform anything s :=
    Reachable.serve (.start {} 1 0) (fun _ _ _ => trivial) hs
  have hgroups : s.model.Dumpable :=
    ⟨hdumpable.1, fun sg hsg r hr =>
      ⟨.inl (hdumpable.2 sg hsg r hr).1, (hdumpable.2 sg hsg r hr).2⟩⟩
  obtain ⟨dump, s₁, res, s', hdump, -, hrestore, -, hmodel, hres, -⟩ :=
    @dump_restores_iff Api.sampleContext Api.sampleContext {}
      { encryptionKey := Crypto.sampleKey, iv := some (Vector.replicate 16 0) } s
      libc_refusesEmpty rfl (fun _ => rfl) hreachable
      ⟨Api.codec_lawful, rfl, fun _ _ => rfl, ⟨rfl, fun h => absurd rfl h⟩, rfl,
        hkey.symm, fun h => absurd rfl h⟩
      { encryptionKey := Crypto.sampleKey } 2 0
      ⟨Api.codec_lawful, rfl, fun _ _ => rfl, ⟨rfl, fun _ => ⟨by decide, rfl⟩⟩, rfl, rfl,
        fun _ => rfl⟩ 0
  have hne : s.model ≠ {} := by
    rintro h
    rw [h] at hsize
    cases hsize
  obtain ⟨res, rfl⟩ := Option.isSome_iff_exists.mp
    (hres.mpr ⟨hne, fun sg hsg r hr => (hgroups.rules sg hsg r hr).1⟩)
  exact ⟨s, dump, s₁, res, s', hs, hdump, hrestore, hsize, hmodel.mpr hgroups⟩

end Butterfly
