import Butterfly.Graph

/-!
# What the graph functions do

Each function of `graph.cc` changes a few fields of the server and appends a
list of operations to its log.  The lemmas of this file bring them to that form,
so that later files reason about the appended lists alone.
-/

namespace Butterfly

open Std Foundation

/-- The fields no action writes. -/
structure Frame (s s' : Server) : Prop where
  config : s'.config = s.config
  pid : s'.pid = s.pid
  started : s'.started = s.started
  api0Error : s'.api0Error = s.api0Error

theorem Frame.refl (s : Server) : Frame s s := ⟨rfl, rfl, rfl, rfl⟩

theorem Frame.trans {a b c : Server} (hab : Frame a b) (hbc : Frame b c) :
    Frame a c :=
  ⟨hbc.config.trans hab.config, hbc.pid.trans hab.pid,
    hbc.started.trans hab.started, hbc.api0Error.trans hab.api0Error⟩

namespace Graph

/-! ## Firewall operations -/

inductive FirewallOp (b : Brick) : Op Rpc Direct → Prop
  | flush : FirewallOp b (.direct (.ruleFlush b))
  | flushSide (side) : FirewallOp b (.direct (.ruleFlushSide b side))
  | add (filter side stateful) :
      FirewallOp b (.direct (.ruleAdd b filter side stateful))
  | reload : FirewallOp b (.push (.fwReload b))

def fwUpdateOps (ok : PgCall → Bool) (fw : Brick) (inText outText : String) :
    List (Op Rpc Direct) :=
  .direct (.ruleFlush fw) ::
    if inText ≠ "" ∧ !ok (.ruleAdd fw inText .west) then []
    else
      (if inText ≠ "" then [.direct (.ruleAdd fw inText .west false)] else []) ++
        if outText ≠ "" ∧ !ok (.ruleAdd fw outText .east) then []
        else
          (if outText ≠ "" then [.direct (.ruleAdd fw outText .east true)]
            else []) ++ [.push (.fwReload fw)]

def rebuildOps (fw : Brick) (inText outText : String) : List (Op Rpc Direct) :=
  .direct (.ruleFlush fw) ::
    (if inText = "" then [] else [.direct (.ruleAdd fw inText .west false)]) ++
      [.direct (.ruleAdd fw outText .east true), .push (.fwReload fw)]

theorem fwUpdateOps_firewallOp {ok : PgCall → Bool} {fw : Brick}
    {inText outText : String} {op : Op Rpc Direct}
    (h : op ∈ fwUpdateOps ok fw inText outText) : FirewallOp fw op := by
  simp only [fwUpdateOps, List.mem_cons] at h
  rcases h with rfl | h
  · exact .flush
  · split_ifs at h <;>
      simp only [List.mem_append, List.mem_cons, List.not_mem_nil, or_false,
        List.nil_append] at h
    all_goals rcases h with rfl | rfl | rfl <;> constructor

theorem outRules_ne_empty (nic : Nic) : outRules nic ≠ "" := by
  have hdhcp : dhcpRule.length ≠ 0 := by decide
  intro h
  have hlength := congrArg String.length h
  simp only [outRules, String.length_append, String.length_empty] at hlength
  omega

theorem fwUpdateOps_eq {ok : PgCall → Bool}
    (hok : ∀ b filter side, ok (.ruleAdd b filter side) = true) (fw : Brick)
    (inText : String) (nic : Nic) :
    fwUpdateOps ok fw inText (outRules nic) =
      rebuildOps fw inText (outRules nic) := by
  by_cases hin : inText = ""
  · simp [fwUpdateOps, rebuildOps, hok, hin, outRules_ne_empty]
  · simp [fwUpdateOps, rebuildOps, hok, hin, outRules_ne_empty]

theorem fwUpdate_eq {ok : PgCall → Bool} {nic : Nic} {s : Server} {gn : GraphNic}
    (hstarted : s.started = true) (hfilter : nic.bypassFiltering = false)
    (hfind : s.findNic nic = some gn) :
    fwUpdate ok nic s =
      (s.updateNic nic (setDefaultOutboundRule true)).emits
        (fwUpdateOps ok gn.firewall (inRules s.model.securityGroups nic)
          (outRules nic)) := by
  unfold fwUpdate fwUpdateOps
  simp only [hstarted, hfilter, hfind]
  split_ifs <;> simp_all

theorem fwUpdate_cases (ok : PgCall → Bool) (nic : Nic) (s : Server) :
    fwUpdate ok nic s = s ∨
      ∃ gn, s.started = true ∧ nic.bypassFiltering = false ∧
        s.findNic nic = some gn := by
  cases hstarted : s.started with
  | false => simp [fwUpdate, hstarted]
  | true =>
      cases hfilter : nic.bypassFiltering with
      | true => simp [fwUpdate, hfilter]
      | false =>
          cases hfind : s.findNic nic with
          | none => simp [fwUpdate, hfind]
          | some gn => exact .inr ⟨gn, rfl, rfl, rfl⟩

def addRuleOps (ok : PgCall → Bool) (gn : GraphNic) (rule : Rule) (r : String) :
    List (Op Rpc Direct) :=
  (if rule.direction = .outbound ∧ gn.defaultOutboundRule then
      [.direct (.ruleFlushSide gn.firewall .east)] else []) ++
    if !ok (.ruleAdd gn.firewall r (ruleSide rule)) then []
    else
      [.direct (.ruleAdd gn.firewall r (ruleSide rule) false),
        .push (.fwReload gn.firewall)]

theorem addRuleOps_firewallOp {ok : PgCall → Bool} {gn : GraphNic} {rule : Rule}
    {r : String} {op : Op Rpc Direct} (h : op ∈ addRuleOps ok gn rule r) :
    FirewallOp gn.firewall op := by
  unfold addRuleOps at h
  rcases List.mem_append.mp h with h | h
  · split at h
    · obtain rfl := List.mem_singleton.mp h
      exact .flushSide _
    · cases h
  · split at h
    · cases h
    · simp only [List.mem_cons, List.not_mem_nil, or_false] at h
      rcases h with rfl | rfl
      · exact .add _ _ _
      · exact .reload

def afterRule (gn : GraphNic) (rule : Rule) (n : GraphNic) : GraphNic :=
  if rule.direction = .outbound ∧ gn.defaultOutboundRule then
    setDefaultOutboundRule false n
  else n

theorem fwAddRule_eq {ok : PgCall → Bool} {nic : Nic} {rule : Rule} {s : Server}
    {gn : GraphNic} (hstarted : s.started = true)
    (hfilter : nic.bypassFiltering = false)
    (hrule : fwBuildRule s.model.securityGroups rule ≠ "")
    (hfind : s.findNic nic = some gn) :
    fwAddRule ok nic rule s =
      (s.updateNic nic (afterRule gn rule)).emits
        (addRuleOps ok gn rule (fwBuildRule s.model.securityGroups rule)) := by
  have hid : s.updateNic nic (fun n => n) = s := by
    have hmodify : ∀ (m : ExtTreeMap String GraphNic),
        m.modify nic.id (fun n => n) = m := by
      intro m
      apply ExtTreeMap.ext_getElem?
      intro k
      rw [lookup_modify]
      split
      · next h => simp [h]
      · rfl
    have hvnis : s.vnis.modify nic.vni (fun vni =>
        { vni with nics := vni.nics.modify nic.id fun n => n }) = s.vnis := by
      apply ExtTreeMap.ext_getElem?
      intro k
      rw [lookup_modify]
      split
      · next h => simp [h, hmodify]
      · rfl
    simp [Server.updateNic, Server.updateVni, hvnis]
  unfold fwAddRule addRuleOps afterRule
  simp only [hstarted, hfilter, hfind, hrule]
  split_ifs <;> simp_all

theorem fwAddRule_cases (ok : PgCall → Bool) (nic : Nic) (rule : Rule)
    (s : Server) :
    fwAddRule ok nic rule s = s ∨
      ∃ gn, s.started = true ∧ nic.bypassFiltering = false ∧
        fwBuildRule s.model.securityGroups rule ≠ "" ∧
        s.findNic nic = some gn := by
  cases hstarted : s.started with
  | false => simp [fwAddRule, hstarted]
  | true =>
      cases hfilter : nic.bypassFiltering with
      | true => simp [fwAddRule, hfilter]
      | false =>
          by_cases hrule : fwBuildRule s.model.securityGroups rule = ""
          · simp [fwAddRule, hrule]
          · cases hfind : s.findNic nic with
            | none => simp [fwAddRule, hfind]
            | some gn => exact .inr ⟨gn, rfl, rfl, hrule, rfl⟩

/-! ## The bricks of a new branch -/

def creates (ok : PgCall → Bool) (nic : Nic) (serial : Nat) : Bool :=
  ok (.firewallNew ("firewall-" ++ nic.id)) &&
    ok (.antispoofNew ("antispoof-" ++ nic.id)) && ok (vhostCall nic) &&
    (!nic.packetTrace ||
      ok (.printNew ("sniffer-" ++ nic.id) nic.packetTracePath)) &&
    if nic.bypassFiltering then
      !nic.packetTrace || ok (.brickLink ⟨.sniffer, serial⟩ ⟨.vhost, serial⟩)
    else ok (.brickLink ⟨.firewall, serial⟩ ⟨.antispoof, serial⟩)

def fwNewOps (ok : PgCall → Bool) (nic : Nic) (serial : Nat) :
    List (Op Rpc Direct) :=
  [.push (.fwNew ("firewall-" ++ nic.id)
      (if ok (.firewallNew ("firewall-" ++ nic.id)) then
        some ⟨.firewall, serial⟩ else none)),
    .push .nothing, .wait]

def innerLinks (ok : PgCall → Bool) (nic : Nic) (serial : Nat) (trace : Bool) :
    List (Brick × Brick) :=
  let firewall : Brick := ⟨.firewall, serial⟩
  let antispoof : Brick := ⟨.antispoof, serial⟩
  let vhost : Brick := ⟨.vhost, serial⟩
  let sniffer : Brick := ⟨.sniffer, serial⟩
  if nic.bypassFiltering then
    if nic.packetTrace then [(sniffer, vhost)] else []
  else
    (firewall, antispoof) ::
      if trace then
        if nic.packetTrace ∧ ok (.chainedLinks antispoof sniffer vhost) then
          [(antispoof, sniffer), (sniffer, vhost)]
        else []
      else if ok (.brickLink antispoof vhost) then [(antispoof, vhost)]
      else []

def linkOp (link : Brick × Brick) : Op Rpc Direct := .direct (.link link.1 link.2)

/-- An operation on ARP tables or on the file of a sniffer. -/
inductive CalmOp : Op Rpc Direct → Prop
  | arpAdd (b ip) : CalmOp (.direct (.arpAdd b ip))
  | arpDelAll (b) : CalmOp (.direct (.arpDelAll b))
  | arpEnable (b) : CalmOp (.direct (.arpEnable b))
  | arpDisable (b) : CalmOp (.direct (.arpDisable b))
  | printNew (b path) : CalmOp (.direct (.printNew b path))

inductive BranchKind : BrickKind → Prop
  | firewall : BranchKind .firewall
  | antispoof : BranchKind .antispoof
  | vhost : BranchKind .vhost
  | sniffer : BranchKind .sniffer

/-- What is left of a branch that is given up: its bricks are destroyed. -/
inductive ScrapOp (serial : Nat) : Op Rpc Direct → Prop
  | calm {op} : CalmOp op → ScrapOp serial op
  | destroy {kind} : BranchKind kind →
      ScrapOp serial (.direct (.destroy ⟨kind, serial⟩))

theorem arpAddAll_eq (P : Platform) (ok : PgCall → Bool) (b : Brick)
    (ips : List Ip) (s : Server) :
    ∃ ops, (∀ op ∈ ops, CalmOp op) ∧ arpAddAll P ok b ips s = s.emits ops := by
  induction ips generalizing s with
  | nil => exact ⟨[], by simp, by simp [arpAddAll]⟩
  | cons ip ips ih =>
      rw [arpAddAll, List.foldl_cons, ← arpAddAll]
      split
      · obtain ⟨ops, hops, heq⟩ := ih (s.direct (.arpAdd b (P.inetPton4 ip.str)))
        refine ⟨.direct (.arpAdd b (P.inetPton4 ip.str)) :: ops, ?_, ?_⟩
        · rintro op (_ | ⟨_, hop⟩)
          · exact .arpAdd _ _
          · exact hops op hop
        · rw [heq]
          simp
      · exact ih s

theorem setupAntispoof_eq (P : Platform) (ok : PgCall → Bool) (nic : Nic)
    (b : Brick) (s : Server) :
    ∃ ops, (∀ op ∈ ops, CalmOp op) ∧
      setupAntispoof P ok nic b s = s.emits ops := by
  unfold setupAntispoof
  split
  · obtain ⟨ops, hops, heq⟩ := arpAddAll_eq P ok b nic.ipList s
    refine ⟨ops ++ [.direct (.arpEnable b)], ?_, by simp [heq]⟩
    intro op hop
    rcases List.mem_append.mp hop with hop | hop
    · exact hops op hop
    · obtain rfl := List.mem_singleton.mp hop
      exact .arpEnable _
  · exact ⟨[], by simp, by simp⟩

theorem openTrace_eq (nic : Nic) (b : Brick) (s : Server) :
    ∃ ops, (∀ op ∈ ops, CalmOp op) ∧ openTrace nic b s = s.emits ops := by
  unfold openTrace
  split
  · exact ⟨[_], by simpa using .printNew _ _, Server.direct_eq _ _⟩
  · exact ⟨[], by simp, by simp⟩

theorem linkAndStalk_eq (ok : PgCall → Bool) (nic : Nic) (serial : Nat)
    (s : Server) (h : nic.bypassFiltering = false) :
    linkAndStalk ok ⟨.antispoof, serial⟩ ⟨.vhost, serial⟩
        (newBranch nic serial).sniffer
        (s.direct (.link ⟨.firewall, serial⟩ ⟨.antispoof, serial⟩)) =
      s.emits ((innerLinks ok nic serial s.config.packetTrace).map linkOp) := by
  unfold linkAndStalk innerLinks newBranch
  by_cases htrace : s.config.packetTrace = true
  · by_cases hpacket : nic.packetTrace = true
    · by_cases hok : ok (.chainedLinks ⟨.antispoof, serial⟩ ⟨.sniffer, serial⟩
          ⟨.vhost, serial⟩) = true
      · simp [h, htrace, hpacket, hok, linkOp]
      · simp [h, htrace, hpacket, hok, linkOp]
    · simp [h, htrace, hpacket, linkOp]
  · by_cases hok : ok (.brickLink ⟨.antispoof, serial⟩ ⟨.vhost, serial⟩) = true
    · simp [h, htrace, hok, linkOp]
    · simp [h, htrace, hok, linkOp]

def Abandoned (ok : PgCall → Bool) (nic : Nic) (s s' : Server) : Prop :=
  creates ok nic s.nextSerial = false ∧
    ∃ ops, (∀ op ∈ ops, ScrapOp s.nextSerial op) ∧
      s' = s.takeSerial.emits (fwNewOps ok nic s.nextSerial ++ ops)

def Created (ok : PgCall → Bool) (nic : Nic) (s s' : Server) : Prop :=
  creates ok nic s.nextSerial = true ∧ ¬(nic.type = .bench ∧ nic.ipList = []) ∧
    ∃ ops, (∀ op ∈ ops, CalmOp op) ∧
      s' = s.takeSerial.emits (fwNewOps ok nic s.nextSerial ++ ops ++
        (innerLinks ok nic s.nextSerial s.config.packetTrace).map linkOp)

theorem abandoned_release {ok : PgCall → Bool} {nic : Nic} {s s' : Server}
    (ops : List (Op Rpc Direct)) (bricks : List Brick)
    (hfail : creates ok nic s.nextSerial = false) (hops : ∀ op ∈ ops, CalmOp op)
    (hbricks : ∀ b ∈ bricks, BranchKind b.kind ∧ b.serial = s.nextSerial)
    (heq : s' = s.takeSerial.emits (fwNewOps ok nic s.nextSerial ++
      (ops ++ bricks.map fun b => .direct (.destroy b)))) :
    Abandoned ok nic s s' := by
  refine ⟨hfail, ops ++ bricks.map fun b => .direct (.destroy b), ?_, heq⟩
  intro op hop
  rcases List.mem_append.mp hop with hop | hop
  · exact .calm (hops op hop)
  · obtain ⟨b, hb, rfl⟩ := List.mem_map.mp hop
    obtain ⟨hkind, hserial⟩ := hbricks b hb
    rw [← hserial]
    exact .destroy hkind

theorem createBranch_cases {P : Platform} {ok : PgCall → Bool} {nic : Nic}
    {s s' : Server} {branch : Option GraphNic}
    (h : createBranch P ok nic s = some (branch, s')) :
    (branch = none ∧ Abandoned ok nic s s') ∨
    (branch = some (newBranch nic s.nextSerial) ∧ Created ok nic s s') := by
  obtain ⟨arp, harp, harpEq⟩ := setupAntispoof_eq P ok nic ⟨.antispoof, s.nextSerial⟩
    (s.takeSerial.emits (fwNewOps ok nic s.nextSerial))
  obtain ⟨trace, htrace, htraceEq⟩ := openTrace_eq nic ⟨.sniffer, s.nextSerial⟩
    ((s.takeSerial.emits (fwNewOps ok nic s.nextSerial)).emits arp)
  have hboth : ∀ op ∈ arp ++ trace, CalmOp op := by
    intro op hop
    rcases List.mem_append.mp hop with hop | hop
    · exact harp op hop
    · exact htrace op hop
  have hstart : Server.waitEmptyQueue (Server.push
      (.fwNew ("firewall-" ++ nic.id)
        (if ok (.firewallNew ("firewall-" ++ nic.id)) then
          some ⟨.firewall, s.nextSerial⟩ else none))
      s.takeSerial) =
        s.takeSerial.emits (fwNewOps ok nic s.nextSerial) := by
    simp [fwNewOps]
  simp only [createBranch, hstart, harpEq, htraceEq] at h
  -- One case for each early return, in the order of the source.
  split at h
  · next hfirewall =>
      cases h
      refine .inl ⟨rfl, abandoned_release [] [] ?_ (by simp) (by simp) (by simp)⟩
      simp_all [creates]
  split at h
  · next hantispoof =>
      cases h
      refine .inl ⟨rfl, abandoned_release [] [] ?_ (by simp) (by simp) (by simp)⟩
      simp_all [creates]
  split at h
  · cases h
  split at h
  · next hvhost =>
      cases h
      refine .inl ⟨rfl, abandoned_release arp [⟨.antispoof, s.nextSerial⟩] ?_ harp
        (by simpa using .antispoof) (by simp)⟩
      simp_all [creates]
  split at h
  · next hprint =>
      cases h
      refine .inl ⟨rfl, abandoned_release arp
        [⟨.vhost, s.nextSerial⟩, ⟨.antispoof, s.nextSerial⟩] ?_ harp
        (by simpa using ⟨.vhost, .antispoof⟩) (by simp)⟩
      simp_all [creates]
  split at h
  · next hbypass =>
      split at h
      · next htraced =>
          split at h
          · next hlink =>
              cases h
              refine .inl ⟨rfl, abandoned_release (arp ++ trace)
                [⟨.vhost, s.nextSerial⟩, ⟨.antispoof, s.nextSerial⟩,
                  ⟨.sniffer, s.nextSerial⟩] ?_ hboth
                (by simpa using ⟨.vhost, .antispoof, .sniffer⟩) (by simp)⟩
              simp_all [creates]
          · next hlink =>
              cases h
              refine .inr ⟨rfl, by simp_all [creates], ‹_›, arp ++ trace, hboth, ?_⟩
              simp [innerLinks, hbypass, htraced, linkOp]
      · next htraced =>
          cases h
          refine .inr ⟨rfl, by simp_all [creates], ‹_›, arp ++ trace, hboth, ?_⟩
          simp [innerLinks, hbypass, htraced]
  · next hbypass =>
      split at h
      · next hlink =>
          cases h
          refine .inl ⟨rfl, abandoned_release (arp ++ trace)
            ((newBranch nic s.nextSerial).sniffer.toList ++
              [⟨.vhost, s.nextSerial⟩, ⟨.antispoof, s.nextSerial⟩]) ?_ hboth ?_
            (by simp)⟩
          · simp_all [creates]
          · by_cases htraced : nic.packetTrace = true
            · simpa [newBranch, htraced] using ⟨.sniffer, .vhost, .antispoof⟩
            · simpa [newBranch, htraced] using ⟨.vhost, .antispoof⟩
      · next hlink =>
          cases h
          refine .inr ⟨rfl, ?_, ‹_›, arp ++ trace, hboth, ?_⟩
          · cases htraced : nic.packetTrace <;> simp_all [creates]
          rw [linkAndStalk_eq _ _ _ _ (by simpa using hbypass)]
          simp

/-! ## NIC insertion -/

/-- The VNI entry `NicAdd` works on. -/
def vniEntry (v : UInt32) (s : Server) : GraphVni := s.vnis[v]?.getD { vni := v }

theorem openVni_lookup (v : UInt32) (s : Server) :
    (openVni v s).vnis[v]? = some (vniEntry v s) := by
  rw [openVni]
  simp only [lookup_insertIfNew, if_true, vniEntry]

theorem vniEntry_of_size {v : UInt32} {s : Server}
    (h : (vniEntry v s).nics.size ≠ 0) :
    s.vnis[v]? = some (vniEntry v s) := by
  cases hvni : s.vnis[v]? with
  | none => simp [vniEntry, hvni] at h
  | some vni => simp [vniEntry, hvni]

def destroyOps (bricks : List Brick) : List (Op Rpc Direct) :=
  bricks.map fun b => .direct (.destroy b)

@[simp] theorem destroyOps_nil : destroyOps [] = [] := rfl

def withSwitch (sw : Option Brick) (vni : GraphVni) : GraphVni :=
  { vni with sw := sw }

theorem setSwitch_eq {v : UInt32} {vni : GraphVni} {s : Server}
    (sw : Option Brick) (h : s.vnis[v]? = some vni) :
    setSwitch v sw s =
      (s.updateVni v (withSwitch sw)).emits (destroyOps vni.sw.toList) := by
  simp [setSwitch, h, destroyOps]
  rfl

def withBranch (id : String) (gn : GraphNic) (vni : GraphVni) : GraphVni :=
  { vni with nics := vni.nics.insertIfNew id gn }

/-- The end of a successful `NicAdd`: keep the branch and fill its firewall. -/
def keepBranch (ok : PgCall → Bool) (nic : Nic) (gn : GraphNic) (s : Server) :
    Server :=
  let s' := fwUpdate ok nic (updatePoll (s.updateVni nic.vni (withBranch nic.id gn)))
  if (s.findNic nic).isSome then s'.release (branchBricks gn) else s'

def switchCall (v : UInt32) : PgCall := .switchNew ("switch-" ++ toString v.toNat)

/-- The outcomes of `NicAdd`, the truth value telling failure from success. -/
inductive NicAdded (ok : PgCall → Bool) (nic : Nic) (s : Server) :
    Bool → Server → Prop
  | abandoned {s'} : Abandoned ok nic (openVni nic.vni s) s' →
      NicAdded ok nic s false s'
  | first {s₁} : Created ok nic (openVni nic.vni s) s₁ →
      (vniEntry nic.vni s).nics.size = 0 →
      NicAdded ok nic s true (keepBranch ok nic (newBranch nic s.nextSerial)
        (s₁.emits
          [.push (.link vtepBrick (newBranch nic s.nextSerial).head),
            .push (.addVni vtepBrick (newBranch nic s.nextSerial).head nic.vni)]))
  | noSwitch {s₁} : Created ok nic (openVni nic.vni s) s₁ →
      (vniEntry nic.vni s).nics.size = 1 → ok (switchCall nic.vni) = false →
      NicAdded ok nic s false
        ((s₁.takeSerial.updateVni nic.vni (withSwitch none)).emits
          (destroyOps (vniEntry nic.vni s).sw.toList ++
            destroyOps (branchBricks (newBranch nic s.nextSerial))))
  | stuck {s₁ gn₁} : Created ok nic (openVni nic.vni s) s₁ →
      (vniEntry nic.vni s).nics.size = 1 → ok (switchCall nic.vni) = true →
      mapValues (vniEntry nic.vni s).nics = [gn₁] →
      ok (.unlinkEdge vtepBrick gn₁.head) = false →
      NicAdded ok nic s false
        ((s₁.takeSerial.updateVni nic.vni
            (withSwitch (some ⟨.switch, s.nextSerial + 1⟩))).emits
          (destroyOps (vniEntry nic.vni s).sw.toList ++
            destroyOps (branchBricks (newBranch nic s.nextSerial))))
  | second {s₁ gn₁} : Created ok nic (openVni nic.vni s) s₁ →
      (vniEntry nic.vni s).nics.size = 1 → ok (switchCall nic.vni) = true →
      mapValues (vniEntry nic.vni s).nics = [gn₁] →
      ok (.unlinkEdge vtepBrick gn₁.head) = true →
      NicAdded ok nic s true (keepBranch ok nic (newBranch nic s.nextSerial)
        ((s₁.takeSerial.updateVni nic.vni
            (withSwitch (some ⟨.switch, s.nextSerial + 1⟩))).emits
          (destroyOps (vniEntry nic.vni s).sw.toList ++
            [.direct (.unlinkEdge vtepBrick gn₁.head),
              .push (.link vtepBrick ⟨.switch, s.nextSerial + 1⟩),
              .push (.addVni vtepBrick ⟨.switch, s.nextSerial + 1⟩ nic.vni),
              .push (.link ⟨.switch, s.nextSerial + 1⟩ gn₁.head),
              .push (.link ⟨.switch, s.nextSerial + 1⟩
                (newBranch nic s.nextSerial).head)])))
  | further {s₁ sw} : Created ok nic (openVni nic.vni s) s₁ →
      2 ≤ (vniEntry nic.vni s).nics.size → (vniEntry nic.vni s).sw = some sw →
      NicAdded ok nic s true (keepBranch ok nic (newBranch nic s.nextSerial)
        (s₁.emits [.push (.link sw (newBranch nic s.nextSerial).head)]))

/-- What a refused NIC takes with it: the switch of before and its own bricks. -/
def scrapped (nic : Nic) (s : Server) : List (Op Rpc Direct) :=
  destroyOps (vniEntry nic.vni s).sw.toList ++
    destroyOps (branchBricks (newBranch nic s.nextSerial))

/-- The state that `noSwitch` and `stuck` end in, up to the switch `sw` they leave. -/
def refused (nic : Nic) (sw : Option Brick) (s s₁ : Server) : Server :=
  (s₁.takeSerial.updateVni nic.vni (withSwitch sw)).emits (scrapped nic s)

def newSwitch (s : Server) : Brick := ⟨.switch, s.nextSerial + 1⟩

def switchOps (nic : Nic) (gn₁ : GraphNic) (s : Server) : List (Op Rpc Direct) :=
  [.direct (.unlinkEdge vtepBrick gn₁.head),
    .push (.link vtepBrick (newSwitch s)),
    .push (.addVni vtepBrick (newSwitch s) nic.vni),
    .push (.link (newSwitch s) gn₁.head),
    .push (.link (newSwitch s) (newBranch nic s.nextSerial).head)]

/-- The state in which `second` keeps the branch: a switch stands before both NICs. -/
def switched (nic : Nic) (gn₁ : GraphNic) (s s₁ : Server) : Server :=
  (s₁.takeSerial.updateVni nic.vni (withSwitch (some (newSwitch s)))).emits
    (destroyOps (vniEntry nic.vni s).sw.toList ++ switchOps nic gn₁ s)

theorem Created.lookup {ok : PgCall → Bool} {nic : Nic} {s s₁ : Server}
    (h : Created ok nic (openVni nic.vni s) s₁) :
    s₁.vnis[nic.vni]? = some (vniEntry nic.vni s) := by
  obtain ⟨-, -, ops, -, rfl⟩ := h
  exact openVni_lookup nic.vni s

theorem Created.nextSerial {ok : PgCall → Bool} {nic : Nic} {s s₁ : Server}
    (h : Created ok nic (openVni nic.vni s) s₁) :
    s₁.nextSerial = s.nextSerial + 1 := by
  obtain ⟨-, -, ops, -, rfl⟩ := h
  rfl

theorem linkBranch_cases {ok : PgCall → Bool} {nic : Nic} {s s₁ s₂ : Server}
    {linked : Bool} (hs₁ : Created ok nic (openVni nic.vni s) s₁)
    (h : linkBranch ok nic (newBranch nic s.nextSerial) s₁ = some (linked, s₂)) :
    NicAdded ok nic s linked
      (if linked then keepBranch ok nic (newBranch nic s.nextSerial) s₂
        else s₂.release (branchBricks (newBranch nic s.nextSerial))) := by
  have hlookup := hs₁.lookup
  simp only [linkBranch, hlookup, Option.bind_eq_bind, Option.bind_some] at h
  split at h
  · next hsize =>
      cases h
      simpa using .first hs₁ hsize
  split at h
  · next hsize =>
      have hset : ∀ sw, setSwitch nic.vni sw s₁.takeSerial =
          (s₁.takeSerial.updateVni nic.vni (withSwitch sw)).emits
            (destroyOps (vniEntry nic.vni s).sw.toList) :=
        fun sw => setSwitch_eq sw hlookup
      simp only [hs₁.nextSerial, hset] at h
      split at h
      · next hsw =>
          cases h
          have hfail : ok (switchCall nic.vni) = false := by
            simpa [switchCall] using hsw
          simpa [destroyOps] using .noSwitch hs₁ hsize hfail
      · next hsw =>
          have hsucceed : ok (switchCall nic.vni) = true := by
            simpa [switchCall] using hsw
          obtain ⟨k, gn₁, hvalues, -⟩ := exists_of_size_one hsize
          simp only [hvalues, List.head?_cons, Option.map_some,
            Option.bind_some] at h
          split at h
          · next hedge =>
              cases h
              have hfail : ok (.unlinkEdge vtepBrick gn₁.head) = false := by
                simpa using hedge
              simpa [destroyOps] using
                .stuck hs₁ hsize hsucceed hvalues hfail
          · next hedge =>
              cases h
              have hdone : ok (.unlinkEdge vtepBrick gn₁.head) = true := by
                simpa using hedge
              simpa [destroyOps] using
                .second hs₁ hsize hsucceed hvalues hdone
  · next hzero hone =>
      cases hsw : (vniEntry nic.vni s).sw with
      | none => simp [hsw] at h
      | some sw =>
          simp only [hsw, Option.bind_some] at h
          cases h
          simpa using .further hs₁ (by omega) hsw

theorem nicAdd_cases {P : Platform} {ok : PgCall → Bool} {nic : Nic}
    {s s' : Server} {added : Option Nic} (hstarted : s.started = true)
    (h : nicAdd P ok nic s = some (added, s')) :
    (added = none ∧ NicAdded ok nic s false s') ∨
    (added = some { nic with path := nicPath P nic } ∧
      NicAdded ok nic s true s') := by
  simp only [nicAdd, hstarted, Bool.not_true, Bool.false_eq_true, if_false,
    Option.bind_eq_bind, Option.bind_eq_some_iff, Prod.exists] at h
  obtain ⟨branch, s₁, hcreate, h⟩ := h
  rcases createBranch_cases hcreate with ⟨rfl, hscrap⟩ | ⟨rfl, hcreated⟩
  · cases h
    exact .inl ⟨rfl, .abandoned hscrap⟩
  · simp only [Option.bind_eq_some_iff, Prod.exists] at h
    obtain ⟨linked, s₂, hlink, h⟩ := h
    have hadded := linkBranch_cases hcreated hlink
    cases linked with
    | false =>
        cases h
        exact .inl ⟨rfl, hadded⟩
    | true =>
        cases h
        exact .inr ⟨rfl, hadded⟩

/-- The branch as it is kept: `FwUpdate` has marked its default rule. -/
def filled (nic : Nic) (gn : GraphNic) : GraphNic :=
  if nic.bypassFiltering then gn else setDefaultOutboundRule true gn

theorem modify_insertIfNew {id : String} {m : ExtTreeMap String GraphNic}
    (gn : GraphNic) (g : GraphNic → GraphNic) (h : m[id]? = none) :
    (m.insertIfNew id gn).modify id g = m.insertIfNew id (g gn) := by
  apply ExtTreeMap.ext_getElem?
  intro a
  simp only [lookup_modify, lookup_insertIfNew, if_true, h, Option.getD_none,
    Option.map_some]
  split <;> rfl

theorem keepBranch_eq {ok : PgCall → Bool} {nic : Nic} {gn : GraphNic}
    {s : Server} {vni : GraphVni} (hstarted : s.started = true)
    (hvni : s.vnis[nic.vni]? = some vni) (hnew : vni.nics[nic.id]? = none) :
    keepBranch ok nic gn s =
      (s.updateVni nic.vni (withBranch nic.id (filled nic gn))).emits
        (.push (.updatePoll
            (pollables (s.updateVni nic.vni (withBranch nic.id gn)).vnis)) ::
          if nic.bypassFiltering then []
          else fwUpdateOps ok gn.firewall
            (inRules s.model.securityGroups nic) (outRules nic)) := by
  have hlookup : (s.updateVni nic.vni (withBranch nic.id gn)).vnis[nic.vni]? =
      some (withBranch nic.id gn vni) := by
    rw [Server.updateVni]
    simp only [lookup_modify, if_true, hvni, Option.map_some]
  have hunknown : s.findNic nic = none := by
    rw [Server.findNic_eq, Server.branch, hvni]
    exact hnew
  cases hfilter : nic.bypassFiltering with
  | true => simp [keepBranch, updatePoll, fwUpdate, hfilter, filled, hunknown]
  | false =>
      have hfind : (updatePoll (s.updateVni nic.vni
          (withBranch nic.id gn))).findNic nic = some gn := by
        rw [Server.findNic_eq, Server.branch_eq_some]
        refine ⟨_, hlookup, ?_⟩
        simp only [withBranch, lookup_insertIfNew, if_true, hnew, Option.getD_none]
      have hupdate : (s.updateVni nic.vni (withBranch nic.id gn)).updateNic nic
          (setDefaultOutboundRule true) =
            s.updateVni nic.vni (withBranch nic.id (filled nic gn)) := by
        rw [Server.updateNic, Server.updateVni_updateVni]
        apply Server.updateVni_congr
        intro entry hentry
        obtain rfl : vni = entry := by simpa [hvni] using hentry
        simp [withBranch, modify_insertIfNew _ _ hnew, filled, hfilter]
      rw [keepBranch, hunknown, fwUpdate_eq (by simpa [updatePoll] using hstarted) hfilter
        hfind]
      simp only [Option.isSome_none, Bool.false_eq_true, if_false, updatePoll,
        Server.push_eq, Server.emits_updateNic, hupdate, Server.emits_emits,
        Server.emits_model, Server.updateVni_model]
      simp

/-! ## NIC removal -/

def withoutBranch (id : String) (vni : GraphVni) : GraphVni :=
  { vni with nics := vni.nics.erase id }

def pollWithout (nic : Nic) (s : Server) : PollList :=
  pollables (s.updateNic nic disable).vnis

/-- Destroy the firewall in the poller and wait for it. -/
def destroyFirewallOps (n : GraphNic) : List (Op Rpc Direct) :=
  [.push (.brickDestroy n.firewall), .push .nothing, .wait]

inductive NicDeleted (nic : Nic) (s : Server) : Server → Prop
  | absent : s.branch nic.vni nic.id = none → NicDeleted nic s s
  | last {vni n} : s.vnis[nic.vni]? = some vni → vni.nics[nic.id]? = some n →
      vni.nics.size = 1 →
      NicDeleted nic s ((s.eraseVni nic.vni).emits
        (.push (.updatePoll (pollWithout nic s)) :: .push (.unlink n.head) ::
          (destroyFirewallOps n ++ destroyOps (branchBricks n) ++
            destroyOps vni.sw.toList)))
  | ofTwo {vni n other sw} : s.vnis[nic.vni]? = some vni →
      vni.nics[nic.id]? = some n → vni.nics.size = 2 →
      otherBranch vni nic.id = some other → vni.sw = some sw →
      NicDeleted nic s (Server.emits
        ([.push (.updatePoll (pollWithout nic s)), .push (.unlink sw),
            .push (.link vtepBrick other.head),
            .push (.addVni vtepBrick other.head nic.vni), .push .nothing, .wait,
            .direct (.destroy sw)] ++
          (destroyFirewallOps n ++ destroyOps (branchBricks n)))
        (s.updateVni nic.vni fun vni =>
          withoutBranch nic.id (withSwitch none vni)))
  | ofMany {vni n} : s.vnis[nic.vni]? = some vni → vni.nics[nic.id]? = some n →
      3 ≤ vni.nics.size →
      NicDeleted nic s (Server.emits
        (.push (.updatePoll (pollWithout nic s)) :: .push (.unlink n.head) ::
          (destroyFirewallOps n ++ destroyOps (branchBricks n)))
        (s.updateVni nic.vni (withoutBranch nic.id)))

def retireOps (n : GraphNic) : List (Op Rpc Direct) :=
  destroyFirewallOps n ++ destroyOps (branchBricks n)

/-- What `last` and `ofMany` have in common. -/
def leaveOps (nic : Nic) (n : GraphNic) (s : Server) : List (Op Rpc Direct) :=
  .push (.updatePoll (pollWithout nic s)) :: .push (.unlink n.head) :: retireOps n

def unswitchOps (nic : Nic) (other : GraphNic) (sw : Brick) (s : Server) :
    List (Op Rpc Direct) :=
  [.push (.updatePoll (pollWithout nic s)), .push (.unlink sw),
    .push (.link vtepBrick other.head), .push (.addVni vtepBrick other.head nic.vni)]

/-- The state that `ofTwo` ends in. -/
def unswitched (nic : Nic) (n other : GraphNic) (sw : Brick) (s : Server) : Server :=
  (s.updateVni nic.vni fun vni => withoutBranch nic.id (withSwitch none vni)).emits
    (unswitchOps nic other sw s ++ [.push .nothing, .wait, .direct (.destroy sw)] ++
      retireOps n)

theorem eraseBranch_eq {nic : Nic} {s : Server} {vni : GraphVni} {n : GraphNic}
    (hvni : s.vnis[nic.vni]? = some vni) (hn : vni.nics[nic.id]? = some n) :
    eraseBranch nic s =
      if vni.nics.size = 1 then
        (s.eraseVni vni.vni).emits
          (destroyOps (branchBricks n) ++ destroyOps vni.sw.toList)
      else
        (s.updateVni nic.vni (withoutBranch nic.id)).emits
          (destroyOps (branchBricks n)) := by
  have hsize := size_erase_of_lookup hn
  have hpos := size_pos_of_lookup hn
  have hempty : (vni.nics.erase nic.id).isEmpty = decide (vni.nics.size = 1) := by
    rw [ExtTreeMap.isEmpty_eq_size_beq_zero, hsize]
    by_cases hone : vni.nics.size = 1
    · simp [hone]
    · have : vni.nics.size - 1 ≠ 0 := by omega
      simp [hone, this]
  simp only [eraseBranch, hvni, hn, Option.map_some, Option.getD_some, hempty,
    decide_eq_true_eq]
  split
  · simp [destroyOps]
  · rw [Server.updateVni_congr (g := withoutBranch nic.id)]
    · simp [destroyOps]
    · intro entry hentry
      simp_all [withoutBranch]

theorem updateNic_lookup {nic : Nic} {s : Server} {vni : GraphVni}
    (g : GraphNic → GraphNic) (hvni : s.vnis[nic.vni]? = some vni) :
    (s.updateNic nic g).vnis[nic.vni]? =
      some { vni with nics := vni.nics.modify nic.id g } := by
  rw [Server.updateNic, Server.updateVni]
  simp only [lookup_modify, if_true, hvni, Option.map_some]

theorem unlinkBranch_cases {nic : Nic} {vni : GraphVni} {n : GraphNic}
    {s s' : Server} (h : unlinkBranch nic vni n s = some s') :
    (vni.nics.size ≠ 2 ∧ s' = s.emits [.push (.unlink n.head)]) ∨
    (vni.nics.size = 2 ∧ ∃ other sw, otherBranch vni nic.id = some other ∧
      vni.sw = some sw ∧
      s' = setSwitch nic.vni none (s.emits
        [.push (.unlink sw), .push (.link vtepBrick other.head),
          .push (.addVni vtepBrick other.head nic.vni), .push .nothing, .wait])) := by
  simp only [unlinkBranch] at h
  split at h
  · next hsize =>
      cases h
      exact .inl ⟨by omega, by simp⟩
  split at h
  · next hsize =>
      simp only [Option.bind_eq_bind, Option.bind_eq_some_iff] at h
      obtain ⟨other, hother, sw, hsw, h⟩ := h
      cases h
      exact .inr ⟨hsize, other, sw, hother, hsw, by simp⟩
  · next hsize =>
      cases h
      exact .inl ⟨hsize, by simp⟩

/-- An entry of `vnis_` stands under its own VNI. -/
def KeyedVnis (s : Server) : Prop :=
  ∀ (v : UInt32) vni, s.vnis[v]? = some vni → vni.vni = v

theorem eraseBranch_disabled {nic : Nic} {s : Server} {vni : GraphVni}
    {n : GraphNic} (hkeyed : KeyedVnis s) (hvni : s.vnis[nic.vni]? = some vni)
    (hn : vni.nics[nic.id]? = some n) (ops : List (Op Rpc Direct)) :
    eraseBranch nic ((s.updateNic nic disable).emits ops) =
      if vni.nics.size = 1 then
        (s.eraseVni nic.vni).emits
          (ops ++ (destroyOps (branchBricks n) ++ destroyOps vni.sw.toList))
      else
        (s.updateVni nic.vni (withoutBranch nic.id)).emits
          (ops ++ destroyOps (branchBricks n)) := by
  have hlookup : ((s.updateNic nic disable).emits ops).vnis[nic.vni]? =
      some { vni with nics := vni.nics.modify nic.id disable } :=
    updateNic_lookup disable hvni
  have hbranch : (vni.nics.modify nic.id disable)[nic.id]? = some (disable n) := by
    simp [hn]
  rw [eraseBranch_eq hlookup hbranch]
  simp only [ExtTreeMap.size_modify]
  split
  · rw [hkeyed _ _ hvni, Server.emits_eraseVni, Server.updateNic_eraseVni,
      Server.emits_emits]
    rfl
  · rw [Server.emits_updateVni, Server.updateNic_updateVni, Server.emits_emits]
    simp only [withoutBranch, modify_erase]
    rfl

theorem KeyedVnis.updateVni {s : Server} {v : UInt32} {f : GraphVni → GraphVni}
    (h : KeyedVnis s) (hf : ∀ vni, (f vni).vni = vni.vni) :
    KeyedVnis (s.updateVni v f) := by
  intro a entry hentry
  rw [Server.updateVni] at hentry
  simp only [lookup_modify] at hentry
  split at hentry
  · next heq =>
      obtain ⟨vni, hvni, rfl⟩ := Option.map_eq_some_iff.mp hentry
      rw [hf, ← heq]
      exact h v vni hvni
  · exact h a entry hentry

theorem setSwitch_disabled {nic : Nic} {s : Server} {vni : GraphVni} {sw : Brick}
    (hvni : s.vnis[nic.vni]? = some vni) (hsw : vni.sw = some sw)
    (ops : List (Op Rpc Direct)) :
    setSwitch nic.vni none ((s.updateNic nic disable).emits ops) =
      ((s.updateVni nic.vni (withSwitch none)).updateNic nic disable).emits
        (ops ++ [.direct (.destroy sw)]) := by
  have hlookup : ((s.updateNic nic disable).emits ops).vnis[nic.vni]? =
      some { vni with nics := vni.nics.modify nic.id disable } :=
    updateNic_lookup disable hvni
  rw [setSwitch_eq none hlookup, Server.emits_updateVni,
    Server.updateNic_updateVni, Server.updateNic, Server.updateVni_updateVni]
  simp [hsw, destroyOps, withSwitch]

theorem nicDel_cases {nic : Nic} {s s' : Server} (hstarted : s.started = true)
    (hkeyed : KeyedVnis s) (h : nicDel nic s = some s') : NicDeleted nic s s' := by
  simp only [nicDel, hstarted, Bool.not_true, Bool.false_eq_true, if_false] at h
  split at h
  · next hvni =>
      cases h
      exact .absent (by simp [Server.branch, hvni])
  · next vni hvni =>
      split at h
      · next hnic =>
          cases h
          exact .absent (by simp [Server.branch, hvni, hnic])
      · next n hn =>
          simp only [Option.bind_eq_bind, Option.bind_eq_some_iff] at h
          obtain ⟨s₂, hunlink, h⟩ := h
          cases h
          have hpos := size_pos_of_lookup hn
          rcases unlinkBranch_cases hunlink with ⟨htwo, rfl⟩ |
              ⟨htwo, other, sw, hother, hsw, rfl⟩
          · simp only [updatePoll, Server.push_eq, Server.waitEmptyQueue_eq,
              Server.emits_emits]
            rw [eraseBranch_disabled hkeyed hvni hn]
            split
            · next hone =>
                simpa [pollWithout, destroyFirewallOps] using .last hvni hn hone
            · next hone =>
                simpa [pollWithout, destroyFirewallOps] using
                  .ofMany hvni hn (by omega)
          · simp only [updatePoll, Server.push_eq, Server.waitEmptyQueue_eq,
              Server.emits_emits]
            rw [setSwitch_disabled hvni hsw, Server.emits_emits]
            have hentry : (s.updateVni nic.vni (withSwitch none)).vnis[nic.vni]? =
                some (withSwitch none vni) := by
              rw [Server.updateVni]
              simp only [lookup_modify, if_true, hvni, Option.map_some]
            have hkeyed' : KeyedVnis (s.updateVni nic.vni (withSwitch none)) :=
              hkeyed.updateVni fun _ => rfl
            rw [eraseBranch_disabled hkeyed' hentry hn,
              if_neg (by simp [withSwitch, htwo]), Server.updateVni_updateVni]
            simpa [pollWithout, destroyFirewallOps] using
              .ofTwo hvni hn htwo hother hsw

end Graph

end Butterfly
