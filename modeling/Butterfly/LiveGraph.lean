import Butterfly.Admission
import Butterfly.WellFormed

/-!
# Edges under the poller

Runs in which the API thread touches no edge that the poller may be following.  A
second NIC in a VNI takes the edge of the first away by a direct call, and an update
of a trace destroys a head that nothing else holds; everything else goes through the
queue or works on branches that are cut off.
-/

namespace Butterfly

open Std Foundation MessageV0 Butterfly.Graph BrickGraph

/-! ## Updates -/

def TraceRelinks (ok : PgCall → Bool) (update : NicUpdate) (n : Butterfly.Nic)
    (gn : GraphNic) : Prop :=
  update.hasPacketTrace = true ∧
    ((update.packetTrace = true ∧ n.packetTrace = false ∧ (gn.sniffer.isSome ∨
        ok (.printNew ("sniffer-" ++ gn.id) n.packetTracePath) = true)) ∨
      (update.packetTrace = false ∧ n.packetTrace = true ∧ gn.sniffer.isSome))

def PathRelinks (ok : PgCall → Bool) (update : NicUpdate) (n : Butterfly.Nic)
    (gn : GraphNic) : Prop :=
  n.packetTrace = true ∧ update.packetTracePath ≠ "" ∧
    n.packetTracePath ≠ update.packetTracePath ∧ (gn.sniffer.isSome ∨
      ok (.printNew ("sniffer-" ++ gn.id) update.packetTracePath) = true)

def Relinks (ok : PgCall → Bool) (update : NicUpdate) (old : Butterfly.Nic)
    (gn : GraphNic) : Prop :=
  TraceRelinks ok update old gn ∨ PathRelinks ok update (tracedNic update old) gn

section Updates

variable {P : Platform} {ambient : Ambient} {s s' : Server} {id : String}
  {nic n n' : Butterfly.Nic} {gn : GraphNic}

theorem held_withHead {b : Brick} (hb : gn.sniffer = some b) : HeadHeld (withHead b gn) := by
  simp [HeadHeld, withHead, hb]

theorem held_plainHead (nic : Butterfly.Nic) (gn : GraphNic) :
    HeadHeld (withHead (plainHead nic gn) gn) := by
  unfold plainHead
  split <;> simp [HeadHeld, withHead]

theorem Tracing.traceStep (h : Tracing id nic gn s) (hstep : TraceStep nic s s')
    (hsecluded : Secluded s') {gn' : GraphNic} (hfind : s'.findNic nic = some gn')
    {p : Op Rpc Direct → Prop} (htuned : Tuned p s s') : Tracing id nic gn' s' :=
  ⟨hsecluded, h.agree.tuned htuned, h.numbered.traceStep hstep,
    h.owned.traceStep h.numbered hstep, htuned.model ▸ h.lookup, hfind⟩

theorem updatedNic_findNic (hgn : s.findNic nic = some gn) (f : GraphNic → GraphNic) :
    (s.updateNic nic f).findNic nic = some (f gn) := by
  rw [Server.findNic_eq, branch_updated hgn, if_pos ⟨rfl, rfl⟩]

/-- The trace is turned on, and its sniffer becomes the head. -/
theorem Tracing.enablePacketTrace (h : Tracing id nic gn s) {ok : PgCall → Bool}
    (hheld : nic.packetTrace = false → (gn.sniffer.isSome ∨
      ok (.printNew ("sniffer-" ++ gn.id) nic.packetTracePath) = true) → HeadHeld gn)
    (hs' : Graph.enablePacketTrace ok nic s = some s') :
    ∃ gn', Tracing id nic gn' s' ∧ (gn' = gn ∨ HeadHeld gn') := by
  have htuned := enablePacketTrace_tuned hs'
  rcases enablePacketTrace_cases h.find hs' with
    ⟨-, rfl⟩ | ⟨hoff, ⟨b, hb, rfl⟩ | ⟨⟨hnone, hprinted⟩, rfl⟩⟩
  · exact ⟨gn, h, .inl rfl⟩
  · have hgnHeld := hheld hoff (.inl (by rw [hb]; rfl))
    exact ⟨withHead b gn, h.traceStep (.link h.find hb) (h.link hgnHeld hb)
      (updatedNic_findNic h.find _) htuned, .inr (held_withHead hb)⟩
  · have hgnHeld := hheld hoff (.inr hprinted)
    exact ⟨_, h.traceStep (.linkNew h.find hnone) (h.linkNew hgnHeld hnone _)
      (updatedNic_findNic (sniffed_findNic h.find) _) htuned, .inr (held_withHead rfl)⟩

theorem Tracing.disablePacketTrace (h : Tracing id nic gn s)
    (hheld : nic.packetTrace = true → gn.sniffer.isSome → HeadHeld gn)
    (hs' : Graph.disablePacketTrace nic s = some s') :
    ∃ gn', Tracing id nic gn' s' ∧ gn'.id = gn.id ∧
      ((gn' = gn ∧ (nic.packetTrace = false ∨ gn.sniffer = none)) ∨
        (HeadHeld gn' ∧ gn'.head = plainHead nic gn' ∧ gn.sniffer.isSome)) := by
  have htuned := disablePacketTrace_tuned hs'
  rcases disablePacketTrace_cases h.find hs' with ⟨hsame, rfl⟩ | ⟨hon, b, hb, rfl⟩
  · exact ⟨gn, h, rfl, .inl ⟨rfl, hsame⟩⟩
  · have hsome : gn.sniffer.isSome := by rw [hb]; rfl
    refine ⟨withHead (plainHead nic gn) gn, h.traceStep (.unlink h.find hb)
      (h.unlink (hheld hon hsome) hb) (updatedNic_findNic h.find _) htuned, rfl,
      .inr ⟨held_plainHead nic gn, ?_, hsome⟩⟩
    unfold plainHead
    split <;> rfl

theorem Tracing.updatePoll (h : Tracing id nic gn s) : Tracing id nic gn (Graph.updatePoll s) :=
  ⟨h.secluded.undisturbed (undisturbed_updatePoll s), h.agree.tuned (updatePoll_tuned s),
    h.numbered.updatePoll, h.owned.same fun _ _ => rfl, h.lookup, h.find⟩

theorem Tracing.nicConfigPacketTracePath (h : Tracing id nic gn s) {ok : PgCall → Bool}
    {path : String} (hon : nic.packetTrace = true)
    (hheld : nic.packetTracePath ≠ path → (gn.sniffer.isSome ∨
      ok (.printNew ("sniffer-" ++ gn.id) path) = true) → HeadHeld gn)
    (hs' : Graph.nicConfigPacketTracePath ok nic path s = some s') :
    ∃ gn', Tracing id nic gn' s' := by
  rcases nicConfigPacketTracePath_cases hs' with ⟨-, rfl⟩ | ⟨hnew, t, gn₁, ht, hgn₁, hrest⟩
  · exact ⟨gn, h⟩
  · obtain ⟨gn₂, hdisabled, hid, hhead⟩ :=
      h.disablePacketTrace (fun _ hsome => hheld hnew (.inl hsome)) ht
    obtain rfl : gn₁ = gn₂ := Option.some.inj (hgn₁.symm.trans hdisabled.find)
    rcases hrest with ⟨-, rfl⟩ | ⟨hprinted, rfl⟩
    · exact ⟨gn₁, hdisabled⟩
    · have hplace : HeadHeld gn₁ ∧ (nic.bypassFiltering = true → gn₁.head = gn₁.vhost) := by
        rcases hhead with ⟨rfl, hoff⟩ | ⟨hgn₁HeadHeld, hplain, -⟩
        · have hnone : gn₁.sniffer = none := hoff.resolve_left (by simp [hon])
          have hgnHeld := hheld hnew (.inr hprinted)
          refine ⟨hgnHeld, fun hbypass => (hdisabled.place hgnHeld hbypass).resolve_right ?_⟩
          rw [hnone]
          simp
        · refine ⟨hgn₁HeadHeld, fun hbypass => ?_⟩
          rw [hplain, plainHead, if_pos hbypass]
      have hstep : TraceStep nic t
          (Graph.linked nic gn₁ ⟨.sniffer, t.nextSerial⟩ (printed path t)) := .linkPath hgn₁
      have htuned : Tuned TraceOp t
          (Graph.linked nic gn₁ ⟨.sniffer, t.nextSerial⟩ (printed path t)) :=
        Tuned.takeSerial.trans ((direct_printNew_tuned _ _ _).trans
          (linkSniffer_tuned (linkSniffer_eq (s := printed path t) hgn₁ _)))
      exact ⟨_, (hdisabled.traceStep hstep (hdisabled.linkPath hplace.1 hplace.2 path)
        (updatedNic_findNic (s := printed path t) hgn₁ _) htuned).updatePoll⟩

theorem Tracing.setNic (h : Tracing id nic gn s) (hid : n.id = nic.id) (hvni : n.vni = nic.vni)
    (hbypass : n.bypassFiltering = nic.bypassFiltering) :
    Tracing id n gn (Api.setNic id n s) := by
  have hgates : SameGates s.model (Api.setNic id n s).model := by
    intro a n' hn'
    simp only [Api.setNic, Server.modifyModel_model, lookup_insert] at hn'
    split at hn'
    · next ha =>
        subst ha
        cases hn'
        exact ⟨nic, h.lookup, hid, hvni, hbypass⟩
    · exact ⟨n', hn', rfl, rfl, rfl⟩
  refine ⟨h.secluded.undisturbed (undisturbed_model hgates), h.agree.setNic h.lookup hid hvni,
    h.numbered.modifyModel _, h.owned.same fun _ _ => rfl, by simp [Api.setNic], ?_⟩
  have hfind := h.find
  rw [Server.findNic_eq] at hfind ⊢
  rw [hid, hvni]
  exact hfind

theorem Tracing.refreshAntiSpoof (h : Tracing id nic gn s) (update : NicUpdate)
    (old : Butterfly.Nic) :
    Tracing id nic gn (Api.refreshAntiSpoof P ambient update old nic s) := by
  unfold Api.refreshAntiSpoof
  split
  · obtain ⟨ops, hops, heq⟩ := nicConfigAntiSpoof_eq P ambient.ok nic nic.ipAntiSpoof s
    have hagree := h.agree.tuned (nicConfigAntiSpoof_tuned P ambient.ok nic nic.ipAntiSpoof s)
    rw [heq] at hagree ⊢
    exact ⟨h.secluded.undisturbed (undisturbed_calm hops), hagree, h.numbered.calm hops,
      h.owned.same fun _ _ => rfl, h.lookup, h.find⟩
  · exact h

theorem Tracing.updateTrace (h : Tracing id nic gn s) {update : NicUpdate} (hid : update.id = id)
    (hheld : TraceRelinks ambient.ok update nic gn → HeadHeld gn)
    (hs' : Api.updateTrace ambient update nic s = some (n', s')) :
    n' = tracedNic update nic ∧ ∃ gn', Tracing id n' gn' s' ∧ (gn' = gn ∨ HeadHeld gn') := by
  unfold Api.updateTrace at hs'
  unfold tracedNic
  split at hs'
  · next hset =>
      obtain ⟨t, ht, heq⟩ := Option.bind_eq_some_iff.mp hs'
      cases heq
      subst hid
      refine ⟨by rw [if_pos hset], ?_⟩
      obtain ⟨u, rfl, henable, hdisable⟩ := nicConfigPacketTrace_cases ht
      cases hflag : update.packetTrace with
      | true =>
          obtain ⟨gn', htracing, hgn'⟩ := h.enablePacketTrace
            (fun hoff hsniffer => hheld ⟨hset, .inl ⟨hflag, hoff, hsniffer⟩⟩) (henable hflag)
          exact ⟨gn', htracing.updatePoll.setNic rfl rfl rfl, hgn'⟩
      | false =>
          obtain ⟨gn', htracing, -, hgn'⟩ := h.disablePacketTrace
            (fun hon hsniffer => hheld ⟨hset, .inr ⟨hflag, hon, hsniffer⟩⟩) (hdisable hflag)
          exact ⟨gn', htracing.updatePoll.setNic rfl rfl rfl,
            hgn'.imp (fun hsame => hsame.1) fun hhead => hhead.1⟩
  · next hunset =>
      cases hs'
      exact ⟨by rw [if_neg hunset], gn, h, .inl rfl⟩

theorem Tracing.updateTracePath (h : Tracing id nic gn s) {update : NicUpdate}
    (hid : update.id = id) (hheld : PathRelinks ambient.ok update nic gn → HeadHeld gn)
    (hs' : Api.updateTracePath ambient update nic s = some (n', s')) :
    ∃ gn', Tracing id n' gn' s' := by
  unfold Api.updateTracePath at hs'
  split at hs'
  · next hset =>
      obtain ⟨t, ht, heq⟩ := Option.bind_eq_some_iff.mp hs'
      cases heq
      subst hid
      obtain ⟨gn', htracing⟩ := h.nicConfigPacketTracePath hset.1
        (fun hnew hsniffer => hheld ⟨hset.1, hset.2, hnew, hsniffer⟩) ht
      exact ⟨gn', htracing.setNic rfl rfl rfl⟩
  · cases hs'
    exact ⟨gn, h⟩

theorem Secluded.actionNicUpdate (h : Secluded s) (hagree : Agree s) (hnumbered : Numbered s)
    (howned : Owned s) {update : NicUpdate} {error : Option String}
    (hheld : ∀ old gn, s.model.nics[update.id]? = some old → s.findNic old = some gn →
      Relinks ambient.ok update old gn → HeadHeld gn)
    (hupdate : Api.actionNicUpdate P ambient update s = some (error, s')) : Secluded s' := by
  rcases actionNicUpdate_cases hupdate with ⟨-, -, rfl⟩ |
      ⟨-, old, hold, n₂, n₃, s₁, s₂, s₃, hstages⟩
  · exact h
  obtain ⟨gn, hgn⟩ := Option.isSome_iff_exists.mp (hagree.findNic hold)
  have hzero : Tracing update.id old gn s := ⟨h, hagree, hnumbered, howned, hold, hgn⟩
  have hone : Tracing update.id (Api.revise update old) gn s₁ := by
    rw [hstages.antiSpoof]
    have hset : Tracing update.id (Api.revise update old) gn
        (Api.setNic update.id (Api.revise update old) s) := hzero.setNic rfl rfl rfl
    exact hset.refreshAntiSpoof update old
  obtain ⟨hn₂, gn₂, htwo, hgn₂⟩ := hone.updateTrace rfl
    (fun hrelinks => hheld old gn hold hgn (.inl hrelinks)) hstages.trace
  obtain ⟨gn₃, hthree⟩ := htwo.updateTracePath rfl (fun hrelinks => by
    rcases hgn₂ with rfl | hgn₂
    · refine hheld old gn₂ hold hgn (.inr ?_)
      have hsame : n₂.packetTrace = (tracedNic update old).packetTrace ∧
          n₂.packetTracePath = (tracedNic update old).packetTracePath := by
        rw [hn₂]
        unfold tracedNic
        split <;> exact ⟨rfl, rfl⟩
      simpa only [PathRelinks, hsame.1, hsame.2] using hrelinks
    · exact hgn₂) hstages.path
  rw [hstages.firewall]
  unfold Api.refreshFirewall
  split
  · exact hthree.secluded.undisturbed (undisturbed_fwUpdate _ _ _)
  · exact hthree.secluded

end Updates

/-! ## Actions -/

section Actions

variable {P : Platform} {ambient : Ambient} {s s' : Server} {id : String} {nic : Butterfly.Nic}

theorem Secluded.removeNic (h : Secluded s) (hagree : Agree s) (howned : Owned s)
    (hdel : Api.removeNic id s = some s') : Secluded s' := by
  unfold Api.removeNic at hdel
  split at hdel
  · cases hdel
    exact h
  · next nic hnic =>
      obtain ⟨s₁, hs₁, heq⟩ := Option.bind_eq_some_iff.mp hdel
      cases heq
      have hdeleted := nicDel_cases hagree.graph.started hagree.graph.keyed hs₁
      refine (h.deleted howned hnic hdeleted).undisturbed (undisturbed_model ?_)
      intro a n hn
      simp only [lookup_erase] at hn
      split at hn
      · cases hn
      · exact ⟨n, hn, rfl, rfl, rfl⟩

/-- The removal of the NIC with the same name takes nothing else from the VNI. -/
theorem splits_removed (hagree : Agree s) (hdel : Api.removeNic nic.id s = some s')
    {ok : PgCall → Bool} : Splits ok nic s' ↔ Splits ok nic s := by
  unfold Api.removeNic at hdel
  split at hdel
  · cases hdel
    exact Iff.rfl
  · next old hold =>
      obtain ⟨s₁, hs₁, heq⟩ := Option.bind_eq_some_iff.mp hdel
      cases heq
      have heffect := (nicDel_cases hagree.graph.started hagree.graph.keyed hs₁).effect
      have hentry : (vniEntry nic.vni s₁).nics.erase nic.id =
          (vniEntry nic.vni s).nics.erase nic.id := by
        apply ExtTreeMap.ext_getElem?
        intro a
        rw [lookup_erase, lookup_erase]
        split
        · rfl
        · next ha =>
            rw [vniEntry_lookup, vniEntry_lookup, heffect.branch, if_neg]
            rintro ⟨-, hid⟩
            exact ha (hagree.nicIds hold ▸ hid)
      change (∃ gn, mapValues ((vniEntry nic.vni s₁).nics.erase nic.id) = [gn] ∧
        creates ok nic s₁.nextSerial = true ∧ _) ↔ _
      rw [hentry, heffect.serial]
      rfl

theorem Secluded.insertNic (h : Secluded s) {gn : GraphNic} (hgn : s.findNic nic = some gn)
    (hhangs : HangsOnVtep nic gn s.wiring) (hhead : nic.bypassFiltering = true →
      gn.head.kind = .vhost ∨ gn.head.kind = .sniffer)
    (hnew : s.model.nics[nic.id]? = none) :
    Secluded (s.modifyModel fun m => { m with nics := m.nics.insertIfNew nic.id nic }) := by
  have hcases : ∀ {a : String} {n}, (s.model.nics.insertIfNew nic.id nic)[a]? = some n →
      n = nic ∨ s.model.nics[a]? = some n := by
    intro a n hn
    simp only [lookup_insertIfNew, hnew, Option.getD_none] at hn
    split at hn
    · exact .inl (Option.some.inj hn).symm
    · exact .inr hn
  refine ⟨h.hidden, h.alone, h.spare, fun {a n gn'} hn hgn' => ?_, fun {a n gn'} hn hgn' => ?_⟩
  · rcases hcases hn with rfl | hold
    · obtain rfl : gn = gn' := Option.some.inj (hgn.symm.trans hgn')
      exact hhangs
    · exact h.hangs hold hgn'
  · rcases hcases hn with rfl | hold
    · obtain rfl : gn = gn' := Option.some.inj (hgn.symm.trans hgn')
      exact hhead
    · exact h.heads hold hgn'

theorem Secluded.actionNicAdd (h : Secluded s) (hagree : Agree s)
    (hnumbered : Numbered s ∧ Owned s) (hsplits : ¬Splits ambient.ok nic s)
    {added : Option Butterfly.Nic}
    (hadd : Api.actionNicAdd P ambient nic s = some (added, s')) : Secluded s' := by
  simp only [Api.actionNicAdd, Option.bind_eq_bind] at hadd
  obtain ⟨s₀, hs₀, hadd⟩ := Option.bind_eq_some_iff.mp hadd
  obtain ⟨⟨result, s₁⟩, hs₁, hadd⟩ := Option.bind_eq_some_iff.mp hadd
  obtain ⟨hagree₀, -, hmodel⟩ := hagree.removeNic hs₀
  have hnew : s₀.branch nic.vni nic.id = none :=
    hagree₀.branch_eq_none (by simp [hmodel]) nic.vni
  obtain ⟨hnumbered₀, howned₀⟩ := (owned_kept ambient).removeNic hagree hnumbered hs₀
  have hadded := nicAdd_added hagree₀.graph.started hs₁
  have heffect := hadded.effect hagree₀.graph.started (by rw [vniEntry_lookup, hnew])
  obtain ⟨hsecluded, hplace⟩ := (h.removeNic hagree hnumbered.2 hs₀).added hagree₀ hnumbered₀
    howned₀ hnew (fun hsplit => hsplits ((splits_removed hagree hs₀).mp hsplit)) hadded
  cases result with
  | none =>
      cases hadd
      exact hsecluded
  | some nic' =>
      cases hadd
      have hnic' : nic' = { nic with path := nicPath P nic } := by
        rcases nicAdd_cases hagree₀.graph.started hs₁ with ⟨hnone, -⟩ | ⟨hsome, -⟩
        · cases hnone
        · exact Option.some.inj hsome
      subst hnic'
      have hgn : s₁.branch nic.vni nic.id = some (filled nic (newBranch nic s₀.nextSerial)) := by
        rw [heffect.branch hnew, if_pos ⟨rfl, rfl, rfl⟩]
      obtain ⟨hhangs, hhead⟩ := hplace _ (Server.findNic_eq nic s₁ ▸ hgn)
      exact hsecluded.insertNic
        (Server.findNic_eq nic s₁ ▸ hgn) ⟨hhangs.edges⟩ hhead
        (by rw [heffect.model, hmodel]; simp)

def Action.SparesEdges (ambient : Ambient) (s : Server) : Action → Prop
  | .nicAdd nic => ¬Splits ambient.ok nic s
  | .nicUpdate update => ∀ old gn, s.model.nics[update.id]? = some old →
      s.findNic old = some gn → Relinks ambient.ok update old gn → HeadHeld gn
  | _ => True

theorem Secluded.perform (h : Secluded s) (hagree : Agree s) (hnumbered : Numbered s ∧ Owned s)
    {a : Action} (ha : a.SparesEdges ambient s) {accepted : Bool}
    (hperform : perform P ambient a s = some (accepted, s')) : Secluded s' := by
  cases a with
  | nicAdd nic =>
      obtain ⟨⟨added, s₁⟩, hs₁, heq⟩ := Option.map_eq_some_iff.mp hperform
      cases heq
      exact h.actionNicAdd hagree hnumbered ha hs₁
  | nicUpdate update =>
      obtain ⟨⟨error, s₁⟩, hs₁, heq⟩ := Option.map_eq_some_iff.mp hperform
      cases heq
      exact h.actionNicUpdate hagree hnumbered.1 hnumbered.2 ha hs₁
  | nicDel id =>
      obtain ⟨s₁, hs₁, heq⟩ := Option.map_eq_some_iff.mp hperform
      cases heq
      exact h.removeNic hagree hnumbered.2 hs₁
  | sgAdd | sgDel | sgRuleAdd | sgRuleDel | sgMemberAdd | sgMemberDel =>
      exact perform_group_invariant
        (fun _ f hnics ht => ht.undisturbed (undisturbed_model (SameGates.of_nics (hnics _))))
        (fun t nic ht => ht.undisturbed (undisturbed_fwUpdate _ nic t))
        (fun t nic rule ht => ht.undisturbed (undisturbed_fwAddRule _ nic rule t))
        (by exact trivial) h hperform

theorem undisturbed_sameCore (hcore : SameCore s s') : Undisturbed s s' := by
  have hstart : s'.startGraph = s.startGraph := by
    simp only [Server.startGraph, hcore.config, hcore.pid]
  have hwiring : s'.wiring = s.wiring := by
    simp only [Server.wiring, hstart, hcore.ops]
  refine ⟨fun h => ?_, fun hjoined => hwiring ▸ hjoined, fun {v id gn'} hgn' => ⟨gn', ?_, rfl,
    rfl, rfl⟩, .of_vnis hcore.vnis, SameGates.of_nics (by rw [hcore.model])⟩
  · unfold Hidden
    rw [hstart, hcore.ops]
    exact h
  · rw [Server.branch, hcore.vnis] at hgn'
    exact hgn'

theorem entry_start (config : AppConfig) (pid : Nat) (startDate : UInt64) (v : UInt32) :
    vniEntry v (Server.start config pid startDate) = { vni := v } := by
  rw [vniEntry, Server.start_vnis, Option.getD_none]

theorem secluded_start (config : AppConfig) (pid : Nat) (startDate : UInt64) :
    Secluded (Server.start config pid startDate) := by
  have hentry := entry_start config pid startDate
  refine ⟨?_, fun v => ?_, fun {v sw} hsw => ?_, fun {id nic gn} hnic => ?_,
    fun {id nic gn} hnic => ?_⟩
  · refine hidden.checked_of_free (fun _ => trivial) (fun _ _ => trivial) fun d hd => ?_
    cases List.mem_singleton.mp hd
  · rw [hentry]
    simp
  · rw [hentry] at hsw
    cases hsw
  · simp at hnic
  · simp at hnic

end Actions

/-! ## Runs -/

/-- No request makes the API thread take away an edge that the poller may follow. -/
def edgesSpared (P : Platform) : Allowed := fun s ambient request =>
  ∀ rq c a, request = some rq → Api0.command rq = some c → Asks P ambient s c a →
    a.SparesEdges ambient s

theorem Reachable.secluded {P : Platform} {s : Server} (h : Reachable P (edgesSpared P) s) :
    Secluded s := by
  refine (h.invariant (I := fun t => Secluded t ∧ Numbered t ∧ Owned t) ?_ ?_ ?_).1
  · exact fun config pid startDate => ⟨secluded_start config pid startDate,
      numbered_start config pid startDate, owned_start config pid startDate⟩
  · rintro t t' hcore ⟨hsecluded, hnumbered, howned⟩
    refine ⟨hsecluded.undisturbed (undisturbed_sameCore hcore), hnumbered.sameCore hcore,
      howned.same fun v id => ?_⟩
    rw [Server.branch, hcore.vnis, Server.branch]
  · rintro ambient t t' rq c a accepted ht hallowed hc hasks ⟨hsecluded, hnumbered⟩ hperform
    have hagree := ht.sound.agree
    exact ⟨hsecluded.perform hagree hnumbered (hallowed rq c a rfl hc hasks) hperform,
      (owned_kept ambient).perform hagree hnumbered hperform⟩

/-- While the poller polls, no edge at a brick connected to the vtep changes. -/
def LeavesLiveGraph (s : Server) : Prop :=
  ∀ c c' : Config Packetgraph Rpc Direct,
    Packetgraph.machine.Reachable (Machine.start s.ops s.startGraph) c → c.polling = true →
      Packetgraph.machine.Step c c' → SameLive c.state.graph c'.state.graph

/--
As long as no NIC joins another one in its VNI and no update gives a branch another
head while nothing else holds the old one, the edges that the poller can reach change
only between the start and the end of an update, in every interleaving.
-/
theorem poller_sees_no_change {P : Platform} {s : Server} (h : Reachable P (edgesSpared P) s) :
    LeavesLiveGraph s :=
  fun _ _ hc hpolling hstep => h.secluded.hidden.sameLive hc hpolling hstep

def untracedNic : Request :=
  { nicAdd := some { id := "nic-1", mac := "52:54:00:12:34:01", vni := 42
                     ip := ["42.0.0.1"], securityGroup := ["sg-1"] } }

def traceLater : List Request :=
  [untracedNic, { nicUpdate := some { id := "nic-1", packetTrace := some true } }]

theorem edgesSpared_untracedNic :
    edgesSpared Libc.platform (Server.start {} 1 0) {} (some untracedNic) := by
  rintro _ _ _ ⟨⟩ ⟨⟩ hasks
  cases hasks with
  | nicAdd hconvert =>
      rintro ⟨gn, hvalues, -⟩
      rw [entry_start, erase_of_none (by simp)] at hvalues
      cases hvalues

theorem poller_sees_no_change_trace_later :
    ∃ s, Reachable Libc.platform (edgesSpared Libc.platform) s ∧
      s.settled.graph.edges.length = 5 ∧ LeavesLiveGraph s := by
  have hserve : ∃ s, serve Libc.platform {} traceLater (Server.start {} 1 0) = some s ∧
      s.settled.graph.edges.length = 5 := by
    refine ⟨(serve Libc.platform {} traceLater (Server.start {} 1 0)).get ?_, ?_, ?_⟩
    · decide +kernel
    · simp
    · decide +kernel
  have hheld : (Api0.respond Libc.platform {} (some untracedNic) (Server.start {} 1 0)).all
      (fun result => (result.2.model.nics["nic-1"]?).all fun old =>
        (result.2.findNic old).all fun gn => gn.head = gn.firewall) = true := by
    decide +kernel
  obtain ⟨s, hs, hedges⟩ := hserve
  rw [traceLater, serve] at hs
  obtain ⟨⟨response, s₁⟩, hfirst, hrest⟩ := Option.bind_eq_some_iff.mp hs
  change serve Libc.platform {} [_] s₁ = some s at hrest
  rw [serve] at hrest
  obtain ⟨⟨response', s₂⟩, hsecond, hdone⟩ := Option.bind_eq_some_iff.mp hrest
  cases hdone
  have hone : Reachable Libc.platform (edgesSpared Libc.platform) s₁ :=
    (Reachable.start {} 1 0).respond edgesSpared_untracedNic hfirst
  have hspared : edgesSpared Libc.platform s₁ {} (some
      { nicUpdate := some { id := "nic-1", packetTrace := some true } }) := by
    rintro _ _ _ ⟨⟩ ⟨⟩ hasks
    cases hasks with
    | @nicUpdate _ update _ hconvert =>
        intro old gn hold hgn _
        rw [(convertNicUpdate_fields hconvert).1] at hold
        have hhead : gn.head = gn.firewall := by
          simpa [hfirst, hold, hgn] using hheld
        simp [HeadHeld, hhead]
  have htwo : Reachable Libc.platform (edgesSpared Libc.platform) s :=
    hone.respond hspared hsecond
  exact ⟨s, htwo, hedges, poller_sees_no_change htwo⟩

theorem LeavesLiveGraph.direct {s : Server} (h : LeavesLiveGraph s)
    {done rest : List (Op Rpc Direct)} {d : Direct} (hops : s.ops = done ++ .direct d :: rest) :
    SameLive (Packetgraph.machine.sync done s.startGraph).graph
      (Packetgraph.machine.act d (Packetgraph.machine.sync done s.startGraph)).graph := by
  have hreachable := Packetgraph.machine.reachable_sync done (.direct d :: rest) s.startGraph
  rw [← hops] at hreachable
  exact h _ _ hreachable rfl (.inl (.direct d rest [] none true _))

/-- The second NIC of a VNI takes the edge of the first away while the poller polls. -/
theorem second_nic_cuts_the_first :
    ¬∀ s, Reachable Libc.platform anything s → LeavesLiveGraph s := by
  intro h
  have hserve : (serve Libc.platform {} twoNics (Server.start {} 1 0)).any (fun s =>
      decide (s.ops[17]? = some (.direct (.unlinkEdge vtepBrick ⟨.firewall, 1⟩))) &&
        decide ((Packetgraph.machine.sync (s.ops.take 17) s.startGraph).graph.edges.count
          ⟨vtepBrick, ⟨.firewall, 1⟩, [42]⟩ = 1) &&
        decide ((Packetgraph.machine.act (.unlinkEdge vtepBrick ⟨.firewall, 1⟩)
          (Packetgraph.machine.sync (s.ops.take 17) s.startGraph)).graph.edges.count
          ⟨vtepBrick, ⟨.firewall, 1⟩, [42]⟩ = 0)) = true := by
    decide +kernel
  obtain ⟨s, hs, hany⟩ := (Option.any_eq_true _ _).mp hserve
  simp only [Bool.and_eq_true, decide_eq_true_eq] at hany
  obtain ⟨⟨hop, hbefore⟩, hafter⟩ := hany
  have hreachable : Reachable Libc.platform anything s :=
    (Reachable.start {} 1 0).serve (fun _ _ _ => trivial) hs
  obtain ⟨hlt, hop⟩ := List.getElem?_eq_some_iff.mp hop
  have hops : s.ops = s.ops.take 17 ++ .direct (.unlinkEdge vtepBrick ⟨.firewall, 1⟩) ::
      s.ops.drop 18 := by
    rw [← hop, List.getElem_cons_drop, List.take_append_drop]
  have hsame := (h s hreachable).direct hops ⟨vtepBrick, ⟨.firewall, 1⟩, [42]⟩
    (.inl (.inl .refl))
  rw [hbefore, hafter] at hsame
  cases hsame

end Butterfly
