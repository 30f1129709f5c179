import Butterfly.Detachment
import Butterfly.Ownership

/-!
# Who is held, step by step

What the elementary steps do to the pointers in `vnis_`: one branch gets another head,
a branch comes, a branch goes.  Each step destroys what nobody points to any more, and
links bricks of one VNI only.
-/

namespace Butterfly

open Std Foundation Butterfly.Graph

/-! ## What is held -/

def Server.switch? (v : UInt32) (s : Server) : Option Brick := s.vnis[v]?.bind GraphVni.sw

theorem Server.switch?_eq_some {s : Server} {v : UInt32} {sw : Brick} :
    s.switch? v = some sw ↔ ∃ vni, s.vnis[v]? = some vni ∧ vni.sw = some sw := by
  simp [Server.switch?, Option.bind_eq_some_iff]

theorem Server.switch?_updateVni (s : Server) (v a : UInt32) (f : GraphVni → GraphVni) :
    (s.updateVni v f).switch? a =
      if v = a then s.vnis[v]?.bind fun vni => (f vni).sw else s.switch? a := by
  simp only [Server.switch?, Server.updateVni, lookup_modify]
  split
  · next h =>
      subst h
      cases s.vnis[v]? <;> rfl
  · rfl

theorem Server.switch?_updateNic (s : Server) (nic : Nic) (g : GraphNic → GraphNic)
    (a : UInt32) : (s.updateNic nic g).switch? a = s.switch? a := by
  rw [Server.updateNic, Server.switch?_updateVni]
  split
  · next h =>
      subst h
      rfl
  · rfl

@[simp] theorem Server.switch?_emits (s : Server) (ops : List (Op Rpc Direct)) (v : UInt32) :
    (s.emits ops).switch? v = s.switch? v := rfl

theorem Server.switch?_eraseVni (s : Server) (v a : UInt32) :
    (s.eraseVni v).switch? a = if v = a then none else s.switch? a := by
  simp only [Server.switch?, Server.eraseVni, lookup_erase]
  split <;> rfl

theorem vniEntry_sw (v : UInt32) (s : Server) : (vniEntry v s).sw = s.switch? v := by
  unfold vniEntry Server.switch?
  cases s.vnis[v]? <;> rfl

def Server.Holds (s : Server) (b : Brick) : Prop :=
  (∃ v id gn, s.branch v id = some gn ∧ b ∈ gn.bricks) ∨ ∃ v, s.switch? v = some b

def Server.InVni (s : Server) (v : UInt32) (b : Brick) : Prop :=
  (∃ id gn, s.branch v id = some gn ∧ b ∈ gn.bricks) ∨ s.switch? v = some b

def LinksOnly (inner outer : Brick → Prop) (v : UInt32) : Op Rpc Direct → Prop
  | .push (.link a b) | .direct (.link a b) =>
      (inner a ∧ inner b) ∨ ((a = vtepBrick ∨ outer a) ∧ outer b)
  | .push (.addVni w b u) => w = vtepBrick ∧ outer b ∧ u = v
  | _ => True

section Steps

variable {s s' : Server}

theorem Numbered.holds (h : Numbered s) {b : Brick} (hb : s.Holds b) :
    b.serial < s.nextSerial := by
  rcases hb with ⟨v, id, gn, hgn, hb⟩ | ⟨v, hsw⟩
  · exact h.branches hgn b hb
  · obtain ⟨vni, hvni, hsw⟩ := Server.switch?_eq_some.mp hsw
    exact h.switches hvni hsw

theorem findNic_updateNic {nic : Nic} {gn : GraphNic} (hgn : s.findNic nic = some gn)
    (f : GraphNic → GraphNic) (v : UInt32) (id : String) :
    (s.updateNic nic f).branch v id =
      if nic.vni = v ∧ nic.id = id then some (f gn) else s.branch v id := by
  rw [Server.branch_updateNic]
  split
  · next hkey =>
      obtain ⟨rfl, rfl⟩ := hkey
      rw [Server.findNic_eq] at hgn
      rw [hgn, Option.map_some]
  · rfl

/-! ## A branch with another head -/

structure Reshapes (nic : Nic) (gn gn' : GraphNic) (ops : List (Op Rpc Direct))
    (s s' : Server) : Prop where
  found : s.findNic nic = some gn
  log : s'.ops = s.ops ++ ops
  serial : s.nextSerial ≤ s'.nextSerial
  switches : ∀ v, s'.switch? v = s.switch? v
  branch : ∀ v id, s'.branch v id =
    if nic.vni = v ∧ nic.id = id then some gn' else s.branch v id
  bricks : ∀ b ∈ gn'.bricks, b ∈ gn.bricks ∨ s.nextSerial ≤ b.serial
  kept : ∀ b ∈ gn.bricks, b = gn.head ∨ b ∈ gn'.bricks
  gone : destroyed ops = if gn.head ∈ gn'.bricks then [] else [gn.head]
  firewall : gn'.firewall = gn.firewall
  vhost : gn'.vhost = gn.vhost
  model : s'.model = s.model
  links : ∀ op ∈ ops, LinksOnly (· ∈ gn'.bricks)
    (fun b => nic.bypassFiltering = true ∧ b ∈ gn'.bricks) nic.vni op

theorem links_calm {p q : Brick → Prop} {v : UInt32} {op : Op Rpc Direct} (h : CalmOp op) :
    LinksOnly p q v op := by
  cases h <;> trivial

theorem links_firewallOp {p q : Brick → Prop} {v : UInt32} {b : Brick} {op : Op Rpc Direct}
    (h : FirewallOp b op) : LinksOnly p q v op := by
  cases h <;> trivial

theorem links_destroyOps {p q : Brick → Prop} {v : UInt32} (bricks : List Brick) :
    ∀ op ∈ destroyOps bricks, LinksOnly p q v op := by
  intro op hop
  obtain ⟨b, -, rfl⟩ := List.mem_map.mp hop
  trivial

theorem fwUpdate_reshapes (ok : PgCall → Bool) (nic : Nic) (s : Server) :
    Graph.fwUpdate ok nic s = s ∨ (nic.bypassFiltering = false ∧
      ∃ gn gn' ops, Reshapes nic gn gn' ops s (Graph.fwUpdate ok nic s)) := by
  rcases fwUpdate_cases ok nic s with heq | ⟨gn, hstarted, hfilter, hgn⟩
  · exact .inl heq
  · rw [fwUpdate_eq hstarted hfilter hgn]
    refine .inr ⟨hfilter, gn, setDefaultOutboundRule true gn, _, hgn, rfl, le_rfl,
      Server.switch?_updateNic s nic _, findNic_updateNic hgn _, fun b hb => .inl hb,
      fun b hb => .inr hb, ?_, rfl, rfl, rfl,
      fun op hop => links_firewallOp (fwUpdateOps_firewallOp hop)⟩
    rw [destroyed_eq_nil fun op hop => firewallOp_destroys_nothing ⟨_, fwUpdateOps_firewallOp hop⟩,
      if_pos (by simp [GraphNic.bricks, setDefaultOutboundRule])]

theorem fwAddRule_reshapes (ok : PgCall → Bool) (nic : Nic) (rule : Rule) (s : Server) :
    Graph.fwAddRule ok nic rule s = s ∨ (nic.bypassFiltering = false ∧
      ∃ gn gn' ops, Reshapes nic gn gn' ops s (Graph.fwAddRule ok nic rule s)) := by
  rcases fwAddRule_cases ok nic rule s with heq | ⟨gn, hstarted, hfilter, hrule, hgn⟩
  · exact .inl heq
  · rw [fwAddRule_eq hstarted hfilter hrule hgn]
    have hsame : (afterRule gn rule gn).bricks = gn.bricks ∧
        (afterRule gn rule gn).firewall = gn.firewall ∧
        (afterRule gn rule gn).vhost = gn.vhost := by
      unfold afterRule
      split <;> exact ⟨rfl, rfl, rfl⟩
    refine .inr ⟨hfilter, gn, afterRule gn rule gn, _, hgn, rfl, le_rfl,
      Server.switch?_updateNic s nic _, findNic_updateNic hgn _, fun b hb => .inl (hsame.1 ▸ hb),
      fun b hb => .inr (hsame.1 ▸ hb), ?_, hsame.2.1, hsame.2.2, rfl,
      fun op hop => links_firewallOp (addRuleOps_firewallOp hop)⟩
    rw [destroyed_eq_nil fun op hop => firewallOp_destroys_nothing ⟨_, addRuleOps_firewallOp hop⟩,
      if_pos (by rw [hsame.1]; simp [GraphNic.bricks])]

theorem destroyed_linkOps (nic : Nic) (gn : GraphNic) (b : Brick) :
    destroyed (linkOps nic gn b) = dropped gn b := by
  unfold linkOps
  split
  · change destroyed (destroyOps _ ++ _) = _
    rw [destroyed_append, destroyed_destroyOps]
    exact List.append_nil _
  · change destroyed (destroyOps _ ++ _) = _
    rw [destroyed_append, destroyed_destroyOps]
    exact List.append_nil _

theorem destroyed_unlinkOps (nic : Nic) (gn : GraphNic) (b : Brick) :
    destroyed (unlinkOps nic gn b) = dropped gn (plainHead nic gn) := by
  change destroyed (destroyOps _ ++ _) = _
  rw [destroyed_append, destroyed_destroyOps]
  split <;> exact List.append_nil _

theorem dropped_eq (gn : GraphNic) (b : Brick) :
    dropped gn b = if gn.head ∈ (withHead b gn).bricks then [] else [gn.head] := by
  unfold dropped
  congr 1
  simp only [withHead, GraphNic.bricks, List.cons_append, List.nil_append, List.mem_cons]
  ac_rfl

theorem withHead_bricks (b : Brick) (gn : GraphNic) :
    ∀ c ∈ gn.bricks, c = gn.head ∨ c ∈ (withHead b gn).bricks := by
  intro c hc
  simp only [withHead, GraphNic.bricks, List.cons_append, List.mem_cons] at hc ⊢
  exact hc.imp_right .inr

theorem links_linkOps (nic : Nic) {gn : GraphNic} {b : Brick} {p : Brick → Prop}
    (hantispoof : p gn.antispoof) (hvhost : p gn.vhost) (hb : p b) :
    ∀ op ∈ linkOps nic gn b, LinksOnly p
      (fun b => nic.bypassFiltering = true ∧ p b) nic.vni op := by
  unfold linkOps
  split
  · next hbypass =>
      refine List.forall_mem_cons.mpr ⟨trivial, List.forall_mem_append.mpr
        ⟨links_destroyOps _, ?_⟩⟩
      simp [LinksOnly, hvhost, hb, hbypass]
  · refine List.forall_mem_cons.mpr ⟨trivial, List.forall_mem_append.mpr
      ⟨links_destroyOps _, ?_⟩⟩
    simp [LinksOnly, hantispoof, hvhost, hb]

theorem links_unlinkOps (nic : Nic) {gn : GraphNic} (b : Brick) {p : Brick → Prop}
    (hantispoof : p gn.antispoof) (hvhost : p gn.vhost) :
    ∀ op ∈ unlinkOps nic gn b, LinksOnly p
      (fun b => nic.bypassFiltering = true ∧ p b) nic.vni op := by
  refine List.forall_mem_cons.mpr ⟨trivial, List.forall_mem_append.mpr
    ⟨links_destroyOps _, ?_⟩⟩
  split
  · next hbypass => simp [LinksOnly, hvhost, hbypass]
  · simp [LinksOnly, hantispoof, hvhost]

theorem TraceStep.reshapes {nic : Nic} (h : TraceStep nic s s') :
    s' = updatePoll s ∨ ∃ gn gn' ops, Reshapes nic gn gn' ops s s' := by
  cases h with
  | poll => exact .inl rfl
  | @link gn b hgn hb =>
      refine .inr ⟨gn, withHead b gn, _, hgn, rfl, le_rfl, Server.switch?_updateNic s nic _,
        findNic_updateNic hgn _, fun c hc => .inl ?_, withHead_bricks b gn,
        (destroyed_linkOps nic gn b).trans (dropped_eq gn b), rfl, rfl, rfl,
        links_linkOps nic ?_ ?_ ?_⟩
      · simp only [withHead, GraphNic.bricks, List.cons_append, List.mem_cons] at hc ⊢
        rcases hc with rfl | hc
        · simp [hb]
        · exact .inr hc
      all_goals simp [withHead, GraphNic.bricks]
  | @linkNew gn path hgn hnone =>
      have hfind : (sniffed nic path s).findNic nic =
          some (withSniffer ⟨.sniffer, s.nextSerial⟩ gn) := sniffed_findNic hgn
      refine .inr ⟨gn, withHead ⟨.sniffer, s.nextSerial⟩
          (withSniffer ⟨.sniffer, s.nextSerial⟩ gn),
        .direct (.printNew ⟨.sniffer, s.nextSerial⟩ path) ::
          linkOps nic (withSniffer ⟨.sniffer, s.nextSerial⟩ gn) ⟨.sniffer, s.nextSerial⟩, hgn,
        by simp [linked, sniffed, printed], Nat.le_succ _, fun v => ?_, fun v id => ?_,
        fun c hc => ?_, fun c hc => ?_, (destroyed_linkOps nic _ _).trans (dropped_eq _ _), rfl,
        rfl, rfl, List.forall_mem_cons.mpr ⟨trivial, links_linkOps nic ?_ ?_ ?_⟩⟩
      · exact (Server.switch?_updateNic _ nic _ v).trans (Server.switch?_updateNic _ nic _ v)
      · rw [linked, Server.emits_branch, findNic_updateNic hfind]
        split
        · rfl
        · next hkey => rw [sniffed, Server.branch_updateNic, if_neg hkey]; rfl
      · simp only [withHead, withSniffer, GraphNic.bricks, List.mem_append, List.mem_cons,
          List.not_mem_nil, or_false, Option.toList_some] at hc ⊢
        rcases hc with (rfl | hc) | rfl
        · exact .inr le_rfl
        · exact .inl (.inl (.inr hc))
        · exact .inr le_rfl
      · refine (withHead_bricks ⟨.sniffer, s.nextSerial⟩ gn c hc).imp_right fun hmem => ?_
        simp only [withHead, withSniffer, GraphNic.bricks, hnone, Option.toList_none,
          List.append_nil] at hmem ⊢
        exact List.mem_append_left _ hmem
      all_goals simp [withHead, withSniffer, GraphNic.bricks]
  | @linkPath gn path hgn =>
      refine .inr ⟨gn, withHead ⟨.sniffer, s.nextSerial⟩ gn,
        .direct (.printNew ⟨.sniffer, s.nextSerial⟩ path) ::
          linkOps nic gn ⟨.sniffer, s.nextSerial⟩, hgn, by simp [linked, printed],
        Nat.le_succ _, fun v => Server.switch?_updateNic _ nic _ v, fun v id => ?_,
        fun c hc => ?_, withHead_bricks _ gn, (destroyed_linkOps nic gn _).trans (dropped_eq gn _),
        rfl, rfl, rfl, List.forall_mem_cons.mpr ⟨trivial, links_linkOps nic ?_ ?_ ?_⟩⟩
      · exact findNic_updateNic (s := printed path s) hgn _ v id
      · simp only [withHead, GraphNic.bricks, List.cons_append, List.mem_cons] at hc ⊢
        rcases hc with rfl | hc
        · exact .inr le_rfl
        · exact .inl (.inr hc)
      all_goals simp [withHead, GraphNic.bricks]
  | @unlink gn b hgn hb =>
      refine .inr ⟨gn, withHead (plainHead nic gn) gn, _, hgn, rfl, le_rfl,
        Server.switch?_updateNic s nic _, findNic_updateNic hgn _, fun c hc => .inl ?_,
        withHead_bricks _ gn, (destroyed_unlinkOps nic gn b).trans (dropped_eq gn _), rfl, rfl,
        rfl, links_unlinkOps nic b ?_ ?_⟩
      · have hplain : plainHead nic gn ∈ gn.bricks := by
          unfold plainHead
          split <;> simp [GraphNic.bricks]
        simp only [withHead, GraphNic.bricks, List.cons_append, List.mem_cons] at hc
        rcases hc with rfl | hc
        · exact hplain
        · simp only [GraphNic.bricks, List.cons_append, List.mem_cons]
          exact .inr hc
      all_goals simp [withHead, GraphNic.bricks]

/-! ## Deleting a NIC -/

/-- The bricks of a branch are four or five different ones. -/
theorem nodup_branchBricks (gn : GraphNic) (hfirewall : gn.firewall.kind = .firewall)
    (hantispoof : gn.antispoof.kind = .antispoof) (hvhost : gn.vhost.kind = .vhost)
    (hsniffer : ∀ b, gn.sniffer = some b → b.kind = .sniffer) :
    (gn.firewall :: branchBricks gn).Nodup := by
  have hne : ∀ {a b : Brick}, a.kind ≠ b.kind → a ≠ b := fun h heq => h (congrArg Brick.kind heq)
  have hinner : (gn.sniffer.toList ++ [gn.vhost, gn.antispoof]).Nodup := by
    have hpair : [gn.vhost, gn.antispoof].Nodup := by
      simpa using hne (by rw [hvhost, hantispoof]; decide)
    cases hsn : gn.sniffer with
    | none => exact hpair
    | some b =>
        have hkind := hsniffer b hsn
        have hvhost' : b ≠ gn.vhost := hne (by rw [hkind, hvhost]; decide)
        have hantispoof' : b ≠ gn.antispoof := hne (by rw [hkind, hantispoof]; decide)
        exact List.nodup_cons.mpr ⟨by simp [hvhost', hantispoof'], hpair⟩
  have hout : gn.firewall ∉ gn.sniffer.toList ++ [gn.vhost, gn.antispoof] := by
    intro hmem
    simp only [List.mem_append, Option.mem_toList, List.mem_cons, List.not_mem_nil,
      or_false] at hmem
    rcases hmem with hmem | hmem | hmem
    · have hkind := hsniffer _ hmem
      rw [hfirewall] at hkind
      cases hkind
    · exact hne (by rw [hfirewall, hvhost]; decide) hmem
    · exact hne (by rw [hfirewall, hantispoof]; decide) hmem
  refine List.nodup_cons.mpr ⟨fun hmem => ?_, ?_⟩
  · rcases List.mem_append.mp hmem with hmem | hmem
    · exact hout (List.mem_of_mem_filter hmem)
    · split at hmem
      · cases hmem
      · next hhead => exact hhead (List.mem_singleton.mp hmem).symm
  · refine List.nodup_append.mpr ⟨hinner.filter _, ?_, ?_⟩
    · split
      · exact List.nodup_nil
      · exact List.nodup_singleton _
    · rintro b hb b' hb' rfl
      split at hb'
      · cases hb'
      · simp [List.mem_singleton.mp hb'] at hb

theorem Owned.nodup (h : Owned s) (hok : GraphOk s) {v : UInt32} {id : String} {gn : GraphNic}
    (hgn : s.branch v id = some gn) : (gn.firewall :: branchBricks gn).Nodup := by
  obtain ⟨n, -, hfirewall, hantispoof, hvhost⟩ := hok.bricks hgn
  exact nodup_branchBricks gn (by rw [hfirewall]) (by rw [hantispoof]) (by rw [hvhost])
    fun b hb => h.sniffers hgn hb

/-- Everything that a branch has goes with it. -/
theorem bricks_subset (gn : GraphNic) : ∀ b ∈ gn.bricks, b ∈ gn.firewall :: branchBricks gn := by
  intro b hb
  have hsame : b ∈ gn.bricks ↔
      b = gn.head ∨ b = gn.firewall ∨ b ∈ gn.sniffer.toList ++ [gn.vhost, gn.antispoof] := by
    simp only [GraphNic.bricks, List.mem_append, List.mem_cons, List.not_mem_nil, or_false]
    tauto
  have hhead : gn.head ∈ gn.firewall :: branchBricks gn := by
    unfold branchBricks
    split
    · next heq => exact heq ▸ List.mem_cons_self
    · simp
  by_cases heq : b = gn.head
  · rw [heq]
    exact hhead
  · rcases hsame.mp hb with rfl | rfl | hmem
    · exact hhead
    · exact List.mem_cons_self
    · refine List.mem_cons_of_mem _ (List.mem_append_left _ (List.mem_filter.mpr ⟨hmem, ?_⟩))
      simpa using heq

structure Retires (nic : Nic) (gn : GraphNic) (sw : Option Brick) (ops : List (Op Rpc Direct))
    (s s' : Server) : Prop where
  found : s.branch nic.vni nic.id = some gn
  effect : DelEffect nic s s'
  log : s'.ops = s.ops ++ ops
  old : ∀ b ∈ sw, s.switch? nic.vni = some b
  kept : ∀ {v b}, s.switch? v = some b → s'.switch? v = some b ∨ b ∈ sw
  switches : ∀ {v b}, s'.switch? v = some b → s.switch? v = some b ∧
    (nic.vni = v → sw = none ∧ ∃ id, (s'.branch v id).isSome)
  gone : (destroyed ops).Perm (gn.firewall :: branchBricks gn ++ sw.toList)
  links : ∀ op ∈ ops, LinksOnly (fun _ => False) (fun b =>
    ∃ id other, nic.id ≠ id ∧ s.branch nic.vni id = some other ∧ b = other.head) nic.vni op

theorem links_retireOps {p q : Brick → Prop} {v : UInt32} (n : GraphNic) :
    ∀ op ∈ retireOps n, LinksOnly p q v op :=
  List.forall_mem_append.mpr ⟨by simp [destroyFirewallOps, LinksOnly], links_destroyOps _⟩

theorem Graph.NicDeleted.retires {nic : Nic} (h : NicDeleted nic s s') (hok : GraphOk s) :
    s' = s ∨ ∃ gn sw ops, Retires nic gn sw ops s s' := by
  have heffect := h.effect
  cases h with
  | absent => exact .inl rfl
  | @last vni n hvni hn hsize =>
      have hswitch : s.switch? nic.vni = vni.sw := by rw [Server.switch?, hvni]; rfl
      refine .inr ⟨n, vni.sw, _, Server.branch_eq_some.mpr ⟨vni, hvni, hn⟩, heffect, rfl,
        fun b hb => hswitch.trans hb, fun {v b} hb => ?_, fun {v b} hb => ?_, ?_, ?_⟩
      · rw [Server.switch?_emits, Server.switch?_eraseVni]
        split
        · next hkey => exact .inr (hswitch.symm.trans (hkey ▸ hb))
        · exact .inl hb
      · rw [Server.switch?_emits, Server.switch?_eraseVni] at hb
        split at hb
        · cases hb
        · next hkey => exact ⟨hb, fun heq => absurd heq hkey⟩
      · change (destroyed (retireOps n ++ destroyOps _)).Perm _
        rw [destroyed_append, destroyed_retireOps, destroyed_destroyOps]
      · refine List.forall_mem_cons.mpr ⟨trivial, List.forall_mem_cons.mpr ⟨trivial, ?_⟩⟩
        exact List.forall_mem_append.mpr ⟨links_retireOps n, links_destroyOps _⟩
  | @ofTwo vni n other sw hvni hn hsize hother hsw =>
      have hswitch : s.switch? nic.vni = some sw := by rw [Server.switch?, hvni, ← hsw]; rfl
      refine .inr ⟨n, some sw, _, Server.branch_eq_some.mpr ⟨vni, hvni, hn⟩, heffect, rfl,
        fun b hb => hswitch.trans hb, fun {v b} hb => ?_, fun {v b} hb => ?_, ?_, ?_⟩
      · rw [Server.switch?_emits, Server.switch?_updateVni]
        split
        · next hkey => exact .inr (hswitch.symm.trans (hkey ▸ hb))
        · exact .inl hb
      · rw [Server.switch?_emits, Server.switch?_updateVni] at hb
        split at hb
        · simp [hvni, withoutBranch, withSwitch] at hb
        · next hkey => exact ⟨hb, fun heq => absurd heq hkey⟩
      · change (sw :: destroyed (retireOps n)).Perm _
        rw [destroyed_retireOps]
        have hcomm : ([sw] ++ (n.firewall :: branchBricks n)).Perm _ := List.perm_append_comm
        exact hcomm
      · obtain ⟨k, hk, hotherLookup, -⟩ := otherBranch_spec hok hvni hn hsize hother
        have hother' : s.branch nic.vni k = some other :=
          Server.branch_eq_some.mpr ⟨vni, hvni, hotherLookup⟩
        refine List.forall_mem_append.mpr ⟨?_, links_retireOps n⟩
        simpa [LinksOnly] using ⟨k, hk, other, hother', rfl⟩
  | @ofMany vni n hvni hn hsize =>
      have hfull : ∃ id,
          ((s.updateVni nic.vni (withoutBranch nic.id)).branch nic.vni id).isSome := by
        by_contra hnone
        have hempty : (vni.nics.erase nic.id).size = 0 := by
          rw [size_eq_zero_iff]
          intro id
          have hid := not_exists.mp hnone id
          rw [Server.branch, lookup_updateVni _ hvni, if_pos rfl] at hid
          exact Option.not_isSome_iff_eq_none.mp hid
        rw [size_erase_of_lookup hn] at hempty
        omega
      have hsame : ∀ v, (s.updateVni nic.vni (withoutBranch nic.id)).switch? v = s.switch? v := by
        intro v
        rw [Server.switch?_updateVni]
        split
        · next hkey =>
            subst hkey
            rfl
        · rfl
      refine .inr ⟨n, none, _, Server.branch_eq_some.mpr ⟨vni, hvni, hn⟩, heffect, rfl, by simp,
        fun {v b} hb => .inl ((hsame v).trans hb),
        fun {v b} hb => ⟨(hsame v).symm.trans hb, fun hkey => ⟨rfl, ?_⟩⟩, ?_, ?_⟩
      · subst hkey
        exact hfull
      · change (destroyed (retireOps n)).Perm _
        rw [destroyed_retireOps]
        simp
      · refine List.forall_mem_cons.mpr ⟨trivial, List.forall_mem_cons.mpr ⟨trivial, ?_⟩⟩
        exact links_retireOps n

/-! ## Adding a NIC -/

theorem nodup_newBranch (nic : Nic) (n : Nat) :
    (branchBricks (newBranch nic n)).Nodup := by
  refine (List.nodup_cons.mp (nodup_branchBricks (newBranch nic n) rfl rfl rfl
    fun b hb => ?_)).2
  have hsniffer : (newBranch nic n).sniffer =
      if nic.packetTrace then some ⟨.sniffer, n⟩ else none := rfl
  rw [hsniffer] at hb
  split at hb
  · cases hb
    rfl
  · cases hb

theorem switch?_openVni (v a : UInt32) (s : Server) :
    (openVni v s).switch? a = s.switch? a := by
  rw [Server.switch?, lookup_openVni]
  split
  · next h =>
      subst h
      exact vniEntry_sw v s
  · rfl

section Created

variable {ok : PgCall → Bool} {nic : Nic} {s₁ : Server}

theorem Graph.Created.switch? (h : Created ok nic (openVni nic.vni s) s₁) (v : UInt32) :
    s₁.switch? v = s.switch? v := by
  obtain ⟨-, -, ops, -, rfl⟩ := h
  exact switch?_openVni nic.vni v s

theorem Graph.Created.switch?_withSwitch (h : Created ok nic (openVni nic.vni s) s₁)
    (sw : Option Brick) (v : UInt32) :
    (s₁.takeSerial.updateVni nic.vni (withSwitch sw)).switch? v =
      if nic.vni = v then sw else s.switch? v := by
  have hlookup : s₁.takeSerial.vnis[nic.vni]? = some (vniEntry nic.vni s) := h.lookup
  have hsame : s₁.takeSerial.switch? v = s.switch? v := h.switch? v
  rw [Server.switch?_updateVni, hlookup, hsame]
  rfl

theorem keepBranch_spares {gn : GraphNic} {t : Server} {vni : GraphVni}
    (hstarted : t.started = true) (hvni : t.vnis[nic.vni]? = some vni)
    (hnew : vni.nics[nic.id]? = none) :
    (∀ v, (keepBranch ok nic gn t).switch? v = t.switch? v) ∧
      ∃ ops, (keepBranch ok nic gn t).ops = t.ops ++ ops ∧ destroyed ops = [] ∧
        ∀ p q v, ∀ op ∈ ops, LinksOnly p q v op := by
  rw [keepBranch_eq hstarted hvni hnew]
  refine ⟨fun v => ?_, _, rfl, destroyed_eq_nil (List.forall_mem_cons.mpr ⟨rfl, ?_⟩),
    fun p q v => List.forall_mem_cons.mpr ⟨trivial, ?_⟩⟩
  · rw [Server.switch?_emits, Server.switch?_updateVni]
    split
    · next hv =>
        subst hv
        rfl
    · rfl
  · split
    · simp
    · exact fun op hop => firewallOp_destroys_nothing ⟨_, fwUpdateOps_firewallOp hop⟩
  · split
    · simp
    · exact fun op hop => links_firewallOp (fwUpdateOps_firewallOp hop)

end Created

def Joins (nic : Nic) (sw : Option Brick) (s : Server) (b : Brick) : Prop :=
  sw = some b ∨ b = (newBranch nic s.nextSerial).head ∨
    ∃ id gn, s.branch nic.vni id = some gn ∧ b = gn.head

/-- A branch comes or not, and its VNI has the switch `sw` afterwards. -/
structure Grows (nic : Nic) (accepted : Bool) (sw : Option Brick) (ops : List (Op Rpc Direct))
    (s s' : Server) : Prop where
  effect : AddEffect nic accepted s s'
  log : s'.ops = s.ops ++ ops
  switches : ∀ v, s'.switch? v = if nic.vni = v then sw else s.switch? v
  choice : sw = s.switch? nic.vni ∨ sw = none ∨
    sw = some ⟨.switch, s.nextSerial + 1⟩ ∧ ∃ id, (s.branch nic.vni id).isSome
  kept : ∀ b, s.switch? nic.vni = some b → sw = some b ∨ b ∈ destroyed ops
  nodup : (destroyed ops).Nodup
  gone : ∀ b ∈ destroyed ops, (s.switch? nic.vni = some b ∧ sw ≠ some b) ∨
    accepted = false ∧ BranchKind b.kind ∧ b.serial = s.nextSerial
  links : ∀ op ∈ ops,
    LinksOnly (· ∈ (newBranch nic s.nextSerial).bricks) (Joins nic sw s) nic.vni op

section Grows

variable {ok : PgCall → Bool} {nic : Nic} {accepted : Bool}

theorem links_fwNewOps {p q : Brick → Prop} {v : UInt32} (serial : Nat) :
    ∀ op ∈ fwNewOps ok nic serial, LinksOnly p q v op := by
  simp [fwNewOps, LinksOnly]

theorem Graph.Created.links {s₁ : Server} (h : Created ok nic (openVni nic.vni s) s₁)
    (q : Brick → Prop) (v : UInt32) :
    ∃ ops, s₁.ops = s.ops ++ ops ∧ destroyed ops = [] ∧
      ∀ op ∈ ops, LinksOnly (· ∈ (newBranch nic s.nextSerial).bricks) q v op := by
  obtain ⟨-, -, ops, hcalm, rfl⟩ := h
  refine ⟨_, rfl, ?_, List.forall_mem_append.mpr ⟨List.forall_mem_append.mpr
    ⟨links_fwNewOps _, fun op hop => links_calm (hcalm op hop)⟩, fun op hop => ?_⟩⟩
  · rw [destroyed_append, destroyed_append, destroyed_fwNewOps, destroyed_links,
      destroyed_eq_nil fun op hop => calm_destroys_nothing (hcalm op hop)]
    rfl
  · obtain ⟨link, hlink, rfl⟩ := List.mem_map.mp hop
    exact .inl (innerLinks_bricks ok nic s.nextSerial s.config.packetTrace link hlink)

/-- Keeping the branch destroys nothing and links nothing. -/
theorem Grows.keep {t : Server} {vni : GraphVni} {sw : Option Brick}
    {ops : List (Op Rpc Direct)} (hstarted : t.started = true)
    (hvni : t.vnis[nic.vni]? = some vni) (hentry : vni.nics[nic.id]? = none)
    (heffect : AddEffect nic true s (keepBranch ok nic (newBranch nic s.nextSerial) t))
    (hlog : t.ops = s.ops ++ ops)
    (hswitches : ∀ v, t.switch? v = if nic.vni = v then sw else s.switch? v)
    (hsw : sw = s.switch? nic.vni ∨ sw = none ∨
      sw = some ⟨.switch, s.nextSerial + 1⟩ ∧ ∃ id, (s.branch nic.vni id).isSome)
    (hkept : ∀ b, s.switch? nic.vni = some b → sw = some b ∨ b ∈ destroyed ops)
    (hnodup : (destroyed ops).Nodup)
    (hgone : ∀ b ∈ destroyed ops, s.switch? nic.vni = some b ∧ sw ≠ some b)
    (hlinks : ∀ op ∈ ops,
      LinksOnly (· ∈ (newBranch nic s.nextSerial).bricks) (Joins nic sw s) nic.vni op) :
    ∃ ops, Grows nic true sw ops s (keepBranch ok nic (newBranch nic s.nextSerial) t) := by
  obtain ⟨hsame, kept, hkeep, hnone, hfree⟩ := @keepBranch_spares ok nic
    (newBranch nic s.nextSerial) t vni hstarted hvni hentry
  have hdestroyed : destroyed (ops ++ kept) = destroyed ops := by
    rw [destroyed_append, hnone, List.append_nil]
  refine ⟨ops ++ kept, heffect, by rw [hkeep, hlog, List.append_assoc],
    fun v => (hsame v).trans (hswitches v), hsw, by rwa [hdestroyed], by rwa [hdestroyed],
    fun b hb => .inl ?_, List.forall_mem_append.mpr ⟨hlinks, hfree _ _ _⟩⟩
  rw [hdestroyed] at hb
  exact hgone b hb

theorem held_iff {b : Brick} :
    s.switch? nic.vni = some b ↔ b ∈ (vniEntry nic.vni s).sw.toList := by
  rw [vniEntry_sw]
  exact Option.mem_toList.symm

theorem nodup_held : (vniEntry nic.vni s).sw.toList.Nodup := by
  cases (vniEntry nic.vni s).sw with
  | none => exact List.nodup_nil
  | some b => exact List.nodup_singleton b

/-- The switch of before is not the new one. -/
theorem Numbered.newSwitch_ne (hnumbered : Numbered s) {v : UInt32} {b : Brick}
    (hb : s.switch? v = some b) : some (newSwitch s) ≠ some b := by
  rintro ⟨⟩
  have hlt := hnumbered.holds (.inr ⟨_, hb⟩)
  simp [newSwitch] at hlt

theorem entered_branch {gn : GraphNic} (hgn : gn ∈ mapValues (vniEntry nic.vni s).nics) :
    ∃ id, s.branch nic.vni id = some gn := by
  obtain ⟨id, hid⟩ := mem_mapValues.mp hgn
  exact ⟨id, by rw [← vniEntry_lookup, hid]⟩

theorem used_of_size_one (hsize : (vniEntry nic.vni s).nics.size = 1) :
    ∃ id, (s.branch nic.vni id).isSome := by
  obtain ⟨id, gn, -, honly⟩ := exists_of_size_one hsize
  exact ⟨id, by rw [← vniEntry_lookup, (honly id gn).mpr ⟨rfl, rfl⟩]; rfl⟩

theorem Graph.Created.switch?_own {s₁ : Server} (h : Created ok nic (openVni nic.vni s) s₁)
    (v : UInt32) :
    s₁.switch? v = if nic.vni = v then s.switch? nic.vni else s.switch? v := by
  rw [h.switch? v]
  split
  · next hv => rw [hv]
  · rfl

theorem destroyed_scrapped : destroyed (scrapped nic s) =
    (vniEntry nic.vni s).sw.toList ++ branchBricks (newBranch nic s.nextSerial) := by
  rw [scrapped, destroyed_append, destroyed_destroyOps, destroyed_destroyOps]

theorem links_scrapped {p q : Brick → Prop} {v : UInt32} :
    ∀ op ∈ scrapped nic s, LinksOnly p q v op :=
  List.forall_mem_append.mpr ⟨links_destroyOps _, links_destroyOps _⟩

theorem branchBricks_of_new {b : Brick} (hb : b ∈ branchBricks (newBranch nic s.nextSerial)) :
    BranchKind b.kind ∧ b.serial = s.nextSerial :=
  have hbricks := branchBricks_subset (newBranch nic s.nextSerial) hb
  ⟨Owned.newBranch_kinds nic _ b hbricks, newBranch_bricks nic _ b hbricks⟩

theorem nodup_scrapped (hkind : ∀ {v sw}, s.switch? v = some sw → sw.kind = .switch) :
    (destroyed (scrapped nic s)).Nodup := by
  rw [destroyed_scrapped]
  refine List.nodup_append.mpr ⟨nodup_held, nodup_newBranch nic _, ?_⟩
  rintro b hb b' hb' rfl
  have hbranch := (branchBricks_of_new hb').1
  rw [hkind (held_iff.mpr hb)] at hbranch
  cases hbranch

/-! One lemma for each way in which `NicAdd` ends. -/

theorem Graph.Abandoned.grows (h : Abandoned ok nic (openVni nic.vni s) s')
    (heffect : AddEffect nic false s s') (hback : GivesBack ok nic s s') :
    ∃ ops, Grows nic false (s.switch? nic.vni) ops s s' := by
  obtain ⟨hfail, scrap, hscrap, rfl⟩ := h
  obtain ⟨ops, hops, hnodup⟩ := hback hfail
  have hlog := List.append_cancel_left (hops.symm.trans
    (show _ = s.ops ++ (fwNewOps ok nic s.nextSerial ++ scrap) from rfl))
  refine ⟨ops, heffect, hops, fun v => ?_, .inl rfl, fun b hb => .inl hb, hnodup,
    fun b hb => .inr ⟨rfl, ?_⟩, ?_⟩
  · rw [Server.switch?_emits]
    change (openVni nic.vni s).switch? v = _
    rw [switch?_openVni]
    split
    · next hv => rw [hv]
    · rfl
  · rw [hlog, destroyed_append, destroyed_fwNewOps, List.nil_append] at hb
    obtain ⟨op, hop, hvictim⟩ := List.mem_filterMap.mp hb
    cases hscrap op hop with
    | calm hcalm =>
        rw [calm_destroys_nothing hcalm] at hvictim
        cases hvictim
    | destroy hkind =>
        cases hvictim
        exact ⟨hkind, rfl⟩
  · rw [hlog]
    refine List.forall_mem_append.mpr ⟨links_fwNewOps _, fun op hop => ?_⟩
    cases hscrap op hop with
    | calm hcalm => exact links_calm hcalm
    | destroy => trivial

/-- A branch that only its own head attaches leaves every switch where it is. -/
theorem Graph.Created.grows_linked {s₁ : Server} {links : List (Op Rpc Direct)}
    (hcreated : Created ok nic (openVni nic.vni s) s₁) (hstarted : s.started = true)
    (hentry : (vniEntry nic.vni s).nics[nic.id]? = none)
    (heffect : AddEffect nic true s
      (keepBranch ok nic (newBranch nic s.nextSerial) (s₁.emits links)))
    (hnone : destroyed links = [])
    (hlinks : ∀ op ∈ links, LinksOnly (· ∈ (newBranch nic s.nextSerial).bricks)
      (Joins nic (s.switch? nic.vni) s) nic.vni op) :
    ∃ ops, Grows nic true (s.switch? nic.vni) ops s
      (keepBranch ok nic (newBranch nic s.nextSerial) (s₁.emits links)) := by
  obtain ⟨ops, hops, hcalm, hinner⟩ := hcreated.links _ _
  have hfree : destroyed (ops ++ links) = [] := by
    rw [destroyed_append, hcalm, hnone]
    rfl
  refine Grows.keep ((Created.effect hcreated).1.started.trans hstarted) hcreated.lookup hentry
    heffect (by rw [Server.emits_ops, hops, List.append_assoc]) (fun v => ?_) (.inl rfl)
    (fun b hb => .inl hb) (by simp [hfree]) (by simp [hfree])
    (List.forall_mem_append.mpr ⟨hinner, hlinks⟩)
  rw [Server.switch?_emits]
  exact hcreated.switch?_own v

theorem Graph.Created.grows_refused {s₁ : Server} {sw : Option Brick}
    (hcreated : Created ok nic (openVni nic.vni s) s₁)
    (hkind : ∀ {v sw}, s.switch? v = some sw → sw.kind = .switch)
    (heffect : AddEffect nic false s (refused nic sw s s₁))
    (hchoice : sw = s.switch? nic.vni ∨ sw = none ∨
      sw = some ⟨.switch, s.nextSerial + 1⟩ ∧ ∃ id, (s.branch nic.vni id).isSome)
    (hother : ∀ b, s.switch? nic.vni = some b → sw ≠ some b) :
    ∃ ops, Grows nic false sw ops s (refused nic sw s s₁) := by
  obtain ⟨ops, hops, hnone, hlinks⟩ := hcreated.links _ _
  have hgone : destroyed (ops ++ scrapped nic s) =
      (vniEntry nic.vni s).sw.toList ++ branchBricks (newBranch nic s.nextSerial) := by
    rw [destroyed_append, hnone, List.nil_append, destroyed_scrapped]
  refine ⟨_, heffect, by rw [refused, Server.emits_ops, Server.updateVni_ops,
    Server.takeSerial_ops, hops, List.append_assoc], hcreated.switch?_withSwitch sw, hchoice,
    fun b hb => .inr ?_, ?_, fun b hb => ?_, List.forall_mem_append.mpr ⟨hlinks, links_scrapped⟩⟩
  · rw [hgone]
    exact List.mem_append_left _ (held_iff.mp hb)
  · rw [hgone, ← destroyed_scrapped]
    exact nodup_scrapped hkind
  · rw [hgone] at hb
    rcases List.mem_append.mp hb with hb | hb
    · exact .inl ⟨held_iff.mpr hb, hother b (held_iff.mpr hb)⟩
    · exact .inr ⟨rfl, branchBricks_of_new hb⟩

theorem Graph.Created.grows_switched {s₁ : Server} {gn₁ : GraphNic}
    (hcreated : Created ok nic (openVni nic.vni s) s₁) (hnumbered : Numbered s)
    (hstarted : s.started = true) (hentry : (vniEntry nic.vni s).nics[nic.id]? = none)
    (heffect : AddEffect nic true s
      (keepBranch ok nic (newBranch nic s.nextSerial) (switched nic gn₁ s s₁)))
    (hsize : (vniEntry nic.vni s).nics.size = 1)
    (hvalues : mapValues (vniEntry nic.vni s).nics = [gn₁]) :
    ∃ ops, Grows nic true (some (newSwitch s)) ops s
      (keepBranch ok nic (newBranch nic s.nextSerial) (switched nic gn₁ s s₁)) := by
  obtain ⟨ops, hops, hnone, hlinks⟩ := hcreated.links _ _
  have hlookup : s₁.takeSerial.vnis[nic.vni]? = some (vniEntry nic.vni s) := hcreated.lookup
  have hdropped : destroyed (ops ++ (destroyOps (vniEntry nic.vni s).sw.toList ++
      switchOps nic gn₁ s)) = (vniEntry nic.vni s).sw.toList := by
    rw [destroyed_append, destroyed_append, hnone, destroyed_destroyOps]
    exact List.append_nil _
  obtain ⟨id, hgn₁⟩ := entered_branch (hvalues ▸ List.mem_singleton_self gn₁)
  have hjoins : Joins nic (some (newSwitch s)) s gn₁.head := .inr (.inr ⟨id, gn₁, hgn₁, rfl⟩)
  refine Grows.keep ((Created.effect hcreated).1.started.trans hstarted)
    ((lookup_updateVni _ hlookup _).trans (if_pos rfl)) hentry heffect
    (by rw [switched, Server.emits_ops, Server.updateVni_ops, Server.takeSerial_ops, hops,
      List.append_assoc]) (hcreated.switch?_withSwitch _)
    (.inr (.inr ⟨rfl, used_of_size_one hsize⟩)) (fun b hb => .inr ?_) ?_ (fun b hb => ?_)
    (List.forall_mem_append.mpr ⟨hlinks, List.forall_mem_append.mpr ⟨links_destroyOps _, ?_⟩⟩)
  · rw [hdropped]
    exact held_iff.mp hb
  · rw [hdropped]
    exact nodup_held
  · rw [hdropped] at hb
    exact ⟨held_iff.mpr hb, hnumbered.newSwitch_ne (held_iff.mpr hb)⟩
  · simp only [switchOps, List.forall_mem_cons, List.not_mem_nil, false_implies, implies_true,
      and_true]
    exact ⟨trivial, .inr ⟨.inl rfl, .inl rfl⟩, ⟨rfl, .inl rfl, rfl⟩,
      .inr ⟨.inr (.inl rfl), hjoins⟩, .inr ⟨.inr (.inl rfl), .inr (.inl rfl)⟩⟩

theorem Graph.NicAdded.grows (h : NicAdded ok nic s accepted s') (hnumbered : Numbered s)
    (hkind : ∀ {v sw}, s.switch? v = some sw → sw.kind = .switch)
    (hstarted : s.started = true) (hnew : s.branch nic.vni nic.id = none)
    (hback : GivesBack ok nic s s') : ∃ sw ops, Grows nic accepted sw ops s s' := by
  have hentry : (vniEntry nic.vni s).nics[nic.id]? = none := by rw [vniEntry_lookup, hnew]
  have heffect := h.effect hstarted hentry
  cases h with
  | abandoned habandoned => exact ⟨_, habandoned.grows heffect hback⟩
  | first hcreated hsize =>
      exact ⟨_, hcreated.grows_linked hstarted hentry heffect rfl (by simp [LinksOnly, Joins])⟩
  | noSwitch hcreated hsize hfail =>
      exact ⟨_, hcreated.grows_refused hkind heffect (.inr (.inl rfl))
        fun b _ => by simp⟩
  | stuck hcreated hsize hok hvalues hfail =>
      exact ⟨_, hcreated.grows_refused hkind heffect
        (.inr (.inr ⟨rfl, used_of_size_one hsize⟩)) fun b hb => hnumbered.newSwitch_ne hb⟩
  | second hcreated hsize hok hvalues hdone =>
      exact ⟨_, hcreated.grows_switched hnumbered hstarted hentry heffect hsize hvalues⟩
  | @further s₁ sw hcreated hsize hsw =>
      have hheld : s.switch? nic.vni = some sw := by rw [← vniEntry_sw, hsw]
      exact ⟨_, hcreated.grows_linked hstarted hentry heffect rfl
        (by simp [LinksOnly, Joins, hheld])⟩

end Grows

end Steps

end Butterfly
