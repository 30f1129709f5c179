import Butterfly.Api
import Butterfly.GraphSpec

/-!
# Operations that keep every branch in place

Tracing, antispoofing and firewall updates work on branches that exist: they may
move a head, attach a sniffer or change rules, but each VNI keeps its switch and
each NIC its firewall, antispoof and vhost bricks.
-/

namespace Butterfly

open Std Foundation

/-! ## What stays the same of a branch -/

def GraphNic.kin (n : GraphNic) : GraphNic :=
  { n with head := n.firewall, sniffer := none, defaultOutboundRule := false }

def GraphVni.kin (vni : GraphVni) : GraphVni :=
  { vni with nics := vni.nics.map fun _ n => n.kin }

def Server.kinVnis (s : Server) : ExtTreeMap UInt32 GraphVni :=
  s.vnis.map fun _ vni => vni.kin

def Appends (p : Op Rpc Direct → Prop) (s s' : Server) : Prop :=
  ∃ ops, s'.ops = s.ops ++ ops ∧ ∀ op ∈ ops, p op

theorem Appends.refl (p : Op Rpc Direct → Prop) (s : Server) : Appends p s s :=
  ⟨[], by simp, by simp⟩

theorem Appends.trans {p : Op Rpc Direct → Prop} {a b c : Server}
    (hab : Appends p a b) (hbc : Appends p b c) : Appends p a c := by
  obtain ⟨first, hb, hfirst⟩ := hab
  obtain ⟨second, hc, hsecond⟩ := hbc
  refine ⟨first ++ second, by simp [hc, hb], ?_⟩
  intro op hop
  rcases List.mem_append.mp hop with hop | hop
  · exact hfirst op hop
  · exact hsecond op hop

theorem Appends.mono {p q : Op Rpc Direct → Prop} {s s' : Server}
    (h : Appends p s s') (hpq : ∀ op, p op → q op) : Appends q s s' := by
  obtain ⟨ops, hops, hp⟩ := h
  exact ⟨ops, hops, fun op hop => hpq op (hp op hop)⟩

structure Tuned (p : Op Rpc Direct → Prop) (s s' : Server) : Prop where
  frame : Frame s s'
  model : s'.model = s.model
  kin : s'.kinVnis = s.kinVnis
  serial : s.nextSerial ≤ s'.nextSerial
  appends : Appends p s s'

namespace Tuned

variable {p q : Op Rpc Direct → Prop} {a b c s s' : Server}

theorem refl (p : Op Rpc Direct → Prop) (s : Server) : Tuned p s s :=
  ⟨.refl s, rfl, rfl, Nat.le_refl _, .refl p s⟩

theorem trans (hab : Tuned p a b) (hbc : Tuned p b c) : Tuned p a c :=
  ⟨hab.frame.trans hbc.frame, hbc.model.trans hab.model, hbc.kin.trans hab.kin,
    hab.serial.trans hbc.serial, hab.appends.trans hbc.appends⟩

theorem mono (h : Tuned p s s') (hpq : ∀ op, p op → q op) : Tuned q s s' :=
  ⟨h.frame, h.model, h.kin, h.serial, h.appends.mono hpq⟩

theorem emits {ops : List (Op Rpc Direct)} (h : ∀ op ∈ ops, p op) :
    Tuned p s (s.emits ops) :=
  ⟨⟨rfl, rfl, rfl, rfl⟩, rfl, rfl, Nat.le_refl _, ops, rfl, h⟩

theorem takeSerial : Tuned p s s.takeSerial :=
  ⟨⟨rfl, rfl, rfl, rfl⟩, rfl, rfl, by simp, .refl p s⟩

theorem updateNic (nic : Nic) (g : GraphNic → GraphNic)
    (hg : ∀ n, (g n).kin = n.kin) : Tuned p s (s.updateNic nic g) := by
  refine ⟨⟨rfl, rfl, rfl, rfl⟩, rfl, ?_, Nat.le_refl _, .refl p s⟩
  have hmap : ∀ m : ExtTreeMap String GraphNic,
      (m.modify nic.id g).map (fun _ n => n.kin) = m.map fun _ n => n.kin := by
    intro m
    apply ExtTreeMap.ext_getElem?
    intro id
    simp only [ExtTreeMap.getElem?_map, lookup_modify]
    split
    · next h =>
        subst h
        cases m[nic.id]? <;> simp [hg]
    · rfl
  apply ExtTreeMap.ext_getElem?
  intro v
  rw [Server.kinVnis, Server.kinVnis, Server.updateNic, Server.updateVni]
  simp only [ExtTreeMap.getElem?_map, lookup_modify]
  split
  · next h =>
      subst h
      cases s.vnis[nic.vni]? <;> simp [GraphVni.kin, hmap]
  · rfl

theorem vni (h : Tuned p s s') (v : UInt32) :
    (s'.vnis[v]?).map GraphVni.kin = (s.vnis[v]?).map GraphVni.kin := by
  have hlookup := congrArg (fun m : ExtTreeMap UInt32 GraphVni => m[v]?) h.kin
  simpa only [Server.kinVnis, ExtTreeMap.getElem?_map] using hlookup

theorem branch (h : Tuned p s s') (v : UInt32) (id : String) :
    (s'.branch v id).map GraphNic.kin = (s.branch v id).map GraphNic.kin := by
  have hvni := h.vni v
  unfold Server.branch
  cases hs : s.vnis[v]? with
  | none =>
      cases hs' : s'.vnis[v]? with
      | none => rfl
      | some vni' => simp [hs, hs'] at hvni
  | some vni =>
      cases hs' : s'.vnis[v]? with
      | none => simp [hs, hs'] at hvni
      | some vni' =>
          have hnics : vni'.nics.map (fun _ n => n.kin) =
              vni.nics.map fun _ n => n.kin := by
            simp only [hs, hs', Option.map_some, Option.some.injEq] at hvni
            exact congrArg GraphVni.nics hvni
          have hlookup := congrArg
            (fun m : ExtTreeMap String GraphNic => m[id]?) hnics
          simpa [ExtTreeMap.getElem?_map] using hlookup

theorem branch_isSome (h : Tuned p s s') (v : UInt32) (id : String) :
    (s'.branch v id).isSome = (s.branch v id).isSome := by
  have hbranch := congrArg Option.isSome (h.branch v id)
  simpa using hbranch

end Tuned

namespace Graph

/-! ## Firewall updates -/

def OwnFirewallOp (nic : Nic) (s : Server) (op : Op Rpc Direct) : Prop :=
  ∃ gn, s.findNic nic = some gn ∧ FirewallOp gn.firewall op

theorem fwUpdate_tunedOwn (ok : PgCall → Bool) (nic : Nic) (s : Server) :
    Tuned (OwnFirewallOp nic s) s (fwUpdate ok nic s) := by
  rcases fwUpdate_cases ok nic s with h | ⟨gn, hstarted, hfilter, hfind⟩
  · rw [h]
    exact .refl _ s
  · rw [fwUpdate_eq hstarted hfilter hfind]
    refine (Tuned.updateNic nic (setDefaultOutboundRule true) fun _ => rfl).trans ?_
    exact .emits fun op hop => ⟨gn, hfind, fwUpdateOps_firewallOp hop⟩

theorem fwAddRule_tunedOwn (ok : PgCall → Bool) (nic : Nic) (rule : Rule)
    (s : Server) : Tuned (OwnFirewallOp nic s) s (fwAddRule ok nic rule s) := by
  rcases fwAddRule_cases ok nic rule s with h | ⟨gn, hstarted, hfilter, hrule, hfind⟩
  · rw [h]
    exact .refl _ s
  · rw [fwAddRule_eq hstarted hfilter hrule hfind]
    refine (Tuned.updateNic nic (afterRule gn rule) fun n => ?_).trans
      (.emits fun op hop => ⟨gn, hfind, addRuleOps_firewallOp hop⟩)
    unfold afterRule
    split <;> rfl

theorem fwUpdate_tuned (ok : PgCall → Bool) (nic : Nic) (s : Server) :
    Tuned (fun op => ∃ b, FirewallOp b op) s (fwUpdate ok nic s) :=
  (fwUpdate_tunedOwn ok nic s).mono fun _ ⟨_, _, hop⟩ => ⟨_, hop⟩

theorem fwAddRule_tuned (ok : PgCall → Bool) (nic : Nic) (rule : Rule)
    (s : Server) :
    Tuned (fun op => ∃ b, FirewallOp b op) s (fwAddRule ok nic rule s) :=
  (fwAddRule_tunedOwn ok nic rule s).mono fun _ ⟨_, _, hop⟩ => ⟨_, hop⟩

/-! ## Tracing and antispoofing -/

def OffFirewall (op : Op Rpc Direct) : Prop := ∀ b, ¬FirewallOp b op

theorem offFirewall_of_calm {op : Op Rpc Direct} (h : CalmOp op) :
    OffFirewall op := by
  intro b hb
  cases h <;> cases hb

theorem offFirewall_destroyOps {bricks : List Brick} :
    ∀ op ∈ destroyOps bricks, OffFirewall op := by
  intro op hop b hb
  obtain ⟨c, -, rfl⟩ := List.mem_map.mp hop
  cases hb

theorem nicConfigAntiSpoof_tuned (P : Platform) (ok : PgCall → Bool) (nic : Nic)
    (enable : Bool) (s : Server) :
    Tuned OffFirewall s (nicConfigAntiSpoof P ok nic enable s) := by
  unfold nicConfigAntiSpoof
  split
  · exact .refl _ s
  · next gn hgn =>
      split
      · obtain ⟨ops, hops, heq⟩ := arpAddAll_eq P ok gn.antispoof nic.ipList
          (s.direct (.arpDelAll gn.antispoof))
        rw [heq]
        simp only [Server.direct_eq, Server.emits_emits]
        apply Tuned.emits
        intro op hop
        apply offFirewall_of_calm
        simp only [List.mem_append, List.mem_singleton] at hop
        rcases hop with (rfl | hop) | rfl
        · exact .arpDelAll _
        · exact hops op hop
        · exact .arpEnable _
      · rw [Server.direct_eq]
        apply Tuned.emits
        intro op hop
        obtain rfl := List.mem_singleton.mp hop
        exact offFirewall_of_calm (.arpDisable _)

inductive TraceOp : Op Rpc Direct → Prop
  | updatePoll (list) : TraceOp (.push (.updatePoll list))
  | link (w e) : TraceOp (.push (.link w e))
  | unlink (b) : TraceOp (.push (.unlink b))
  | unlinkEdge (w e) : TraceOp (.push (.unlinkEdge w e))
  | addVni (b neighbor vni) : TraceOp (.push (.addVni b neighbor vni))
  | destroy (b) : TraceOp (.direct (.destroy b))
  | printNew (b path) : TraceOp (.direct (.printNew b path))

theorem offFirewall_of_trace {op : Op Rpc Direct} (h : TraceOp op) : OffFirewall op := by
  intro b hb
  cases h <;> cases hb

theorem traceOp_destroyOps {bricks : List Brick} :
    ∀ op ∈ destroyOps bricks, TraceOp op := by
  intro op hop
  obtain ⟨b, -, rfl⟩ := List.mem_map.mp hop
  exact .destroy b

theorem updatePoll_tuned (s : Server) : Tuned TraceOp s (updatePoll s) := by
  rw [updatePoll, Server.push_eq]
  exact Tuned.emits (by simpa using .updatePoll _)

theorem setHead_tuned (nic : Nic) (gNic : GraphNic) (head : Brick) (s : Server) :
    Tuned TraceOp s (setHead nic gNic head s) := by
  rw [setHead, Server.release_eq]
  exact (Tuned.emits traceOp_destroyOps).trans (.updateNic nic _ fun _ => rfl)

theorem push_tuned {a : Rpc} (h : TraceOp (.push a)) (s : Server) :
    Tuned TraceOp s (s.push a) := by
  rw [Server.push_eq]
  exact Tuned.emits (by simpa using h)

theorem linkSniffer_tuned {nic : Nic} {b : Brick} {s s' : Server}
    (h : linkSniffer nic b s = some s') : Tuned TraceOp s s' := by
  simp only [linkSniffer, Option.bind_eq_bind, Option.bind_eq_some_iff] at h
  obtain ⟨gNic, hfind, h⟩ := h
  split at h
  · cases h
    exact (push_tuned (.unlink _) _).trans ((setHead_tuned _ _ _ _).trans
      ((push_tuned (.link _ _) _).trans ((push_tuned (.link _ _) _).trans
        (push_tuned (.addVni _ _ _) _))))
  · cases h
    exact (push_tuned (.unlinkEdge _ _) _).trans ((setHead_tuned _ _ _ _).trans
      ((push_tuned (.link _ _) _).trans (push_tuned (.link _ _) _)))

theorem direct_printNew_tuned (b : Brick) (path : String) (s : Server) :
    Tuned TraceOp s (s.direct (.printNew b path)) := by
  rw [Server.direct_eq]
  exact Tuned.emits (by simpa using .printNew _ _)

theorem enablePacketTrace_tuned {ok : PgCall → Bool} {nic : Nic} {s s' : Server}
    (h : enablePacketTrace ok nic s = some s') : Tuned TraceOp s s' := by
  simp only [enablePacketTrace] at h
  split at h
  · cases h
    exact .refl _ s
  · simp only [Option.bind_eq_bind, Option.bind_eq_some_iff] at h
    obtain ⟨gNic, hfind, h⟩ := h
    split at h
    · exact linkSniffer_tuned h
    · split at h
      · cases h
        exact .refl _ s
      · refine Tuned.trans ?_ (linkSniffer_tuned h)
        refine Tuned.trans ?_ (Tuned.updateNic nic _ fun _ => rfl)
        exact Tuned.takeSerial.trans (direct_printNew_tuned _ _ _)

theorem disablePacketTrace_tuned {nic : Nic} {s s' : Server}
    (h : disablePacketTrace nic s = some s') : Tuned TraceOp s s' := by
  simp only [disablePacketTrace] at h
  split at h
  · cases h
    exact .refl _ s
  · simp only [Option.bind_eq_bind, Option.bind_eq_some_iff] at h
    obtain ⟨gNic, hfind, h⟩ := h
    split at h
    · cases h
      exact .refl _ s
    · split at h
      · cases h
        exact (push_tuned (.unlink _) _).trans ((setHead_tuned _ _ _ _).trans
          ((push_tuned (.link _ _) _).trans (push_tuned (.addVni _ _ _) _)))
      · cases h
        exact (push_tuned (.unlink _) _).trans ((setHead_tuned _ _ _ _).trans
          (push_tuned (.link _ _) _))

theorem nicConfigPacketTrace_tuned {ok : PgCall → Bool} {nic : Nic}
    {isTraceSet : Bool} {s s' : Server}
    (h : nicConfigPacketTrace ok nic isTraceSet s = some s') :
    Tuned TraceOp s s' := by
  simp only [nicConfigPacketTrace] at h
  split at h
  · obtain ⟨s₁, hs₁, hs'⟩ := Option.bind_eq_some_iff.mp h
    cases hs'
    exact (enablePacketTrace_tuned hs₁).trans (updatePoll_tuned s₁)
  · obtain ⟨s₁, hs₁, hs'⟩ := Option.bind_eq_some_iff.mp h
    cases hs'
    exact (disablePacketTrace_tuned hs₁).trans (updatePoll_tuned s₁)

theorem nicConfigPacketTracePath_tuned {ok : PgCall → Bool} {nic : Nic}
    {path : String} {s s' : Server}
    (h : nicConfigPacketTracePath ok nic path s = some s') :
    Tuned TraceOp s s' := by
  simp only [nicConfigPacketTracePath] at h
  split at h
  · cases h
    exact .refl _ s
  · simp only [Option.bind_eq_bind, Option.bind_eq_some_iff] at h
    obtain ⟨s₁, hs₁, gNic, hfind, h⟩ := h
    refine (disablePacketTrace_tuned hs₁).trans ?_
    split at h
    · cases h
      exact .refl _ _
    · simp only [Option.bind_eq_some_iff] at h
      obtain ⟨s₂, hs₂, h⟩ := h
      cases h
      exact Tuned.takeSerial.trans ((direct_printNew_tuned _ _ _).trans
        ((linkSniffer_tuned hs₂).trans (updatePoll_tuned _)))

/-! ## Lookups that the trace functions do not check -/

section Lookups

variable (ok : PgCall → Bool) {nic : Nic} {s : Server}

theorem linkSniffer_isSome (b : Brick) (h : (s.findNic nic).isSome) :
    (linkSniffer nic b s).isSome := by
  obtain ⟨gNic, hfind⟩ := Option.isSome_iff_exists.mp h
  simp only [linkSniffer, hfind, Option.bind_eq_bind, Option.bind_some]
  split <;> rfl

theorem enablePacketTrace_isSome (h : (s.findNic nic).isSome) :
    (enablePacketTrace ok nic s).isSome := by
  obtain ⟨gNic, hfind⟩ := Option.isSome_iff_exists.mp h
  simp only [enablePacketTrace, hfind, Option.bind_eq_bind, Option.bind_some]
  split
  · rfl
  split
  · exact linkSniffer_isSome _ h
  split
  · rfl
  · apply linkSniffer_isSome
    rw [Server.findNic_eq, Server.branch_updateNic]
    simpa [Server.findNic_eq] using h

theorem disablePacketTrace_isSome (h : (s.findNic nic).isSome) :
    (disablePacketTrace nic s).isSome := by
  obtain ⟨gNic, hfind⟩ := Option.isSome_iff_exists.mp h
  simp only [disablePacketTrace, hfind, Option.bind_eq_bind, Option.bind_some]
  split
  · rfl
  split
  · rfl
  split <;> rfl

theorem nicConfigPacketTrace_isSome (isTraceSet : Bool)
    (h : (s.findNic nic).isSome) :
    (nicConfigPacketTrace ok nic isTraceSet s).isSome := by
  simp only [nicConfigPacketTrace, Option.bind_eq_bind]
  split
  · obtain ⟨s₁, hs₁⟩ := Option.isSome_iff_exists.mp
      (enablePacketTrace_isSome ok h)
    simp [hs₁]
  · obtain ⟨s₁, hs₁⟩ := Option.isSome_iff_exists.mp (disablePacketTrace_isSome h)
    simp [hs₁]

theorem nicConfigPacketTracePath_isSome (path : String)
    (h : (s.findNic nic).isSome) :
    (nicConfigPacketTracePath ok nic path s).isSome := by
  simp only [nicConfigPacketTracePath, Option.bind_eq_bind]
  split
  · rfl
  · obtain ⟨s₁, hs₁⟩ := Option.isSome_iff_exists.mp (disablePacketTrace_isSome h)
    have hfind : (s₁.findNic nic).isSome := by
      rw [Server.findNic_eq, (disablePacketTrace_tuned hs₁).branch_isSome]
      exact h
    obtain ⟨gNic, hgNic⟩ := Option.isSome_iff_exists.mp hfind
    simp only [hs₁, hgNic, Option.bind_some]
    split
    · rfl
    · obtain ⟨s₂, hs₂⟩ := Option.isSome_iff_exists.mp
        (linkSniffer_isSome ⟨.sniffer, s₁.nextSerial⟩
          (s := s₁.takeSerial.direct
            (.printNew ⟨.sniffer, s₁.nextSerial⟩ path)) hfind)
      rw [hs₂]
      rfl

end Lookups

end Graph

/-! ## Refreshing firewalls -/

namespace Api

section Loops

variable {I : Server → Prop} {s : Server}

theorem forGroup_invariant {refresh : Nic → Server → Server} {id : String}
    (h : ∀ nic ∈ mapValues s.model.nics, id ∈ nic.securityGroups →
      ∀ t, I t → I (refresh nic t)) (hs : I s) : I (forGroup id refresh s) := by
  unfold forGroup
  refine List.foldlRecOn _ _ hs fun t ht nic hnic => ?_
  refine List.foldlRecOn _ _ ht fun u hu name hname => ?_
  split
  · next heq => exact h nic hnic (heq ▸ hname) u hu
  · exact hu

variable (ambient : Ambient)

theorem sgUpdateRuleMembers_invariant {modifiedSg : Sg}
    (h : ∀ nic ∈ mapValues s.model.nics, ∀ sg ∈ mapValues s.model.securityGroups,
      sg.id ∈ nic.securityGroups →
      (∃ rule ∈ mapValues sg.rules, rule.securityGroup = modifiedSg.id) →
      ∀ t, I t → I (Graph.fwUpdate ambient.ok nic t))
    (hs : I s) : I (sgUpdateRuleMembers ambient modifiedSg s) := by
  -- The loops read the model, which no rebuild changes.
  let J := fun state : List String × Server => I state.2 ∧ state.2.model = s.model
  have hfold : J ((mapValues s.model.nics).foldl (fun state nic =>
      nic.securityGroups.foldl (updateReferring ambient modifiedSg) state) ([], s)) := by
    refine List.foldlRecOn (motive := J) _ _ ⟨hs, rfl⟩ fun state hstate nic _ => ?_
    refine List.foldlRecOn (motive := J) _ _ hstate fun state ⟨hI, hmodel⟩ name _ => ?_
    unfold updateReferring updateIfRefers
    split
    · exact ⟨hI, hmodel⟩
    · next sg hsg =>
        split
        · next hrefers =>
            obtain ⟨rule, hrule, hnamed⟩ := List.any_eq_true.mp hrefers.1
            refine forGroup_invariant (I := fun t => I t ∧ t.model = s.model)
              (fun nic hnic hlists t ht => ?_) ⟨hI, hmodel⟩
            rw [hmodel] at hnic hsg
            exact ⟨h nic hnic sg (mem_mapValues.mpr ⟨name, hsg⟩) hlists
              ⟨rule, hrule, by simpa using hnamed⟩ t ht.1,
              (Graph.fwUpdate_tuned ambient.ok nic t).model.trans ht.2⟩
        · exact ⟨hI, hmodel⟩
  exact hfold.1

end Loops

variable (ambient : Ambient)

theorem sgUpdate_tuned (sg : Sg) (s : Server) :
    Tuned (fun op => ∃ b, Graph.FirewallOp b op) s (sgUpdate ambient sg s) :=
  forGroup_invariant
    (fun nic _ _ t ht => ht.trans (Graph.fwUpdate_tuned ambient.ok nic t)) (.refl _ s)

theorem sgUpdateRule_tuned (sg : Sg) (rule : Rule) (s : Server) :
    Tuned (fun op => ∃ b, Graph.FirewallOp b op) s
      (sgUpdateRule ambient sg rule s) :=
  forGroup_invariant
    (fun nic _ _ t ht => ht.trans (Graph.fwAddRule_tuned ambient.ok nic rule t)) (.refl _ s)

theorem sgUpdateRuleMembers_tuned (modifiedSg : Sg) (s : Server) :
    Tuned (fun op => ∃ b, Graph.FirewallOp b op) s
      (sgUpdateRuleMembers ambient modifiedSg s) :=
  sgUpdateRuleMembers_invariant ambient
    (fun nic _ _ _ _ _ t ht => ht.trans (Graph.fwUpdate_tuned ambient.ok nic t)) (.refl _ s)

end Api

end Butterfly
