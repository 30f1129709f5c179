import Butterfly.Ownership

/-!
# Branches and the rest of the graph

As long as no VNI has a switch in use, one brick of each branch hangs on the vtep
and no other edge leaves the branch.  Then a branch that the poller has cut off can
be taken apart by the API thread.
-/

namespace Butterfly

open Std Foundation Butterfly.Graph BrickGraph

def gate (nic : Nic) (gn : GraphNic) : Brick :=
  if nic.bypassFiltering then gn.head else gn.firewall

structure HangsOnVtep (nic : Nic) (gn : GraphNic) (g : BrickGraph) : Prop where
  edges : ∀ {a b}, g.Joined a b →
    (a ∈ gn.bricks ↔ b ∈ gn.bricks) ∨ (a = vtepBrick ∧ b = gate nic gn)

/-- Something of the branch besides `head` holds on to the head. -/
def HeadHeld (gn : GraphNic) : Prop :=
  gn.head ∈ [gn.firewall, gn.antispoof, gn.vhost] ++ gn.sniffer.toList

/-- Every NIC is alone in its VNI, and hangs on the vtep by its gate. -/
structure Secluded (s : Server) : Prop where
  hidden : Hidden s
  alone : ∀ v, (vniEntry v s).nics.size ≤ 1
  spare : ∀ {v sw}, (vniEntry v s).sw = some sw →
    sw.kind = .switch ∧ ∀ {a b}, s.wiring.Joined a b → a ≠ sw ∧ b ≠ sw
  hangs : ∀ {id : String} {nic gn}, s.model.nics[id]? = some nic →
    s.findNic nic = some gn → HangsOnVtep nic gn s.wiring
  heads : ∀ {id : String} {nic gn}, s.model.nics[id]? = some nic → s.findNic nic = some gn →
    nic.bypassFiltering = true → gn.head.kind = .vhost ∨ gn.head.kind = .sniffer

/-! ## Quiet steps -/

def SameGates (m m' : Model) : Prop :=
  ∀ {id : String} {nic'}, m'.nics[id]? = some nic' → ∃ nic, m.nics[id]? = some nic ∧
    nic'.id = nic.id ∧ nic'.vni = nic.vni ∧ nic'.bypassFiltering = nic.bypassFiltering

theorem SameGates.of_nics {m m' : Model} (h : m'.nics = m.nics) : SameGates m m' :=
  fun {_ nic'} hnic' => ⟨nic', h ▸ hnic', rfl, rfl, rfl⟩

structure SameEntries (s s' : Server) : Prop where
  size : ∀ v, (vniEntry v s').nics.size ≤ (vniEntry v s).nics.size
  switch : ∀ {v sw}, (vniEntry v s').sw = some sw → (vniEntry v s).sw = some sw

structure Undisturbed (s s' : Server) : Prop where
  hidden : Hidden s → Hidden s'
  joined : ∀ {a b}, s'.wiring.Joined a b → s.wiring.Joined a b
  branch : ∀ {v id gn'}, s'.branch v id = some gn' → ∃ gn, s.branch v id = some gn ∧
    gn'.bricks = gn.bricks ∧ gn'.head = gn.head ∧ gn'.firewall = gn.firewall
  entries : SameEntries s s'
  gates : SameGates s.model s'.model

namespace SameEntries

variable {s s' s'' : Server}

theorem of_vnis (h : s'.vnis = s.vnis) : SameEntries s s' := by
  have hentry : ∀ v, vniEntry v s' = vniEntry v s := by simp [vniEntry, h]
  exact ⟨fun v => by rw [hentry], fun hsw => hentry _ ▸ hsw⟩

theorem trans (h : SameEntries s s') (h' : SameEntries s' s'') : SameEntries s s'' :=
  ⟨fun v => (h'.size v).trans (h.size v), fun hsw => h.switch (h'.switch hsw)⟩

theorem updateVni {v : UInt32} {f : GraphVni → GraphVni}
    (hsize : ∀ vni, (f vni).nics.size ≤ vni.nics.size)
    (hswitch : ∀ {vni sw}, (f vni).sw = some sw → vni.sw = some sw) :
    SameEntries s (s.updateVni v f) := by
  have hentry : ∀ a, vniEntry a (s.updateVni v f) = vniEntry a s ∨
      vniEntry a (s.updateVni v f) = f (vniEntry a s) := by
    intro a
    simp only [vniEntry, Server.updateVni, lookup_modify]
    split
    · next ha =>
        subst ha
        cases s.vnis[v]? with
        | none => exact .inl rfl
        | some vni => exact .inr rfl
    · exact .inl rfl
  refine ⟨fun a => ?_, fun {a sw} hsw => ?_⟩
  · rcases hentry a with heq | heq
    · rw [heq]
    · rw [heq]
      exact hsize _
  · rcases hentry a with heq | heq
    · exact heq ▸ hsw
    · exact hswitch (heq ▸ hsw)

theorem updateNic (nic : Nic) (f : GraphNic → GraphNic) : SameEntries s (s.updateNic nic f) :=
  updateVni (fun _ => ExtTreeMap.size_modify.le) fun hsw => hsw

theorem eraseVni (v : UInt32) : SameEntries s (s.eraseVni v) := by
  have hentry : ∀ a, vniEntry a (s.eraseVni v) =
      if v = a then { vni := a } else vniEntry a s := by
    intro a
    simp only [vniEntry, Server.eraseVni, lookup_erase]
    split
    · rfl
    · rfl
  refine ⟨fun a => ?_, fun {a sw} hsw => ?_⟩
  · rw [hentry]
    split
    · simp
    · exact le_rfl
  · rw [hentry] at hsw
    split at hsw
    · cases hsw
    · exact hsw

end SameEntries

section Quiet

variable {s s' : Server}

theorem undisturbed_emits {ops : List (Op Rpc Direct)} (hfree : ∀ op ∈ ops, EdgeFree op)
    (hdirect : ∀ d, .direct d ∈ ops → OffGraph d) : Undisturbed s (s.emits ops) where
  hidden h := h.emits ops hdirect
  joined hjoined := by
    rw [Server.wiring_emits] at hjoined
    exact (joined_of_edges (sync_edgeFree hfree _)).mp hjoined
  branch {_ _ gn'} h := ⟨gn', h, rfl, rfl, rfl⟩
  entries := .of_vnis rfl
  gates := SameGates.of_nics rfl

theorem undisturbed_calm {ops : List (Op Rpc Direct)} (h : ∀ op ∈ ops, CalmOp op) :
    Undisturbed s (s.emits ops) :=
  undisturbed_emits (fun op hop => edgeFree_of_calm (h op hop))
    fun _ hd => offGraph_of_calm (h _ hd)

theorem undisturbed_firewall {ops : List (Op Rpc Direct)} {b : Brick}
    (h : ∀ op ∈ ops, FirewallOp b op) : Undisturbed s (s.emits ops) :=
  undisturbed_emits (fun op hop => edgeFree_of_firewallOp (h op hop))
    fun _ hd => offGraph_of_firewallOp (h _ hd)

theorem undisturbed_updatePoll (s : Server) : Undisturbed s (updatePoll s) :=
  undisturbed_emits
    (fun op hop => by rw [List.mem_singleton.mp hop]; exact fun _ => rfl) (by simp)

theorem undisturbed_model {f : Model → Model} (h : SameGates s.model (f s.model)) :
    Undisturbed s (s.modifyModel f) where
  hidden h := h
  joined hjoined := hjoined
  branch {_ _ gn'} h := ⟨gn', h, rfl, rfl, rfl⟩
  entries := .of_vnis rfl
  gates := h

theorem undisturbed_updateNic {nic : Nic} {f : GraphNic → GraphNic}
    (hf : ∀ n, (f n).bricks = n.bricks ∧ (f n).head = n.head ∧ (f n).firewall = n.firewall) :
    Undisturbed s (s.updateNic nic f) where
  hidden h := h
  joined hjoined := hjoined
  branch {v id gn'} h := by
    rw [Server.branch_updateNic] at h
    split at h
    · obtain ⟨gn, hgn, rfl⟩ := Option.map_eq_some_iff.mp h
      exact ⟨gn, hgn, hf gn⟩
    · exact ⟨gn', h, rfl, rfl, rfl⟩
  entries := .updateNic nic f
  gates := SameGates.of_nics rfl

theorem Undisturbed.trans {s'' : Server} (h : Undisturbed s s') (h' : Undisturbed s' s'') :
    Undisturbed s s'' where
  hidden hs := h'.hidden (h.hidden hs)
  joined hjoined := h.joined (h'.joined hjoined)
  branch hgn := by
    obtain ⟨gn', hgn', hbricks', hhead', hfirewall'⟩ := h'.branch hgn
    obtain ⟨gn, hgn, hbricks, hhead, hfirewall⟩ := h.branch hgn'
    exact ⟨gn, hgn, hbricks'.trans hbricks, hhead'.trans hhead, hfirewall'.trans hfirewall⟩
  entries := h.entries.trans h'.entries
  gates hnic := by
    obtain ⟨nic', hnic', hid', hvni', hbypass'⟩ := h'.gates hnic
    obtain ⟨nic, hnic, hid, hvni, hbypass⟩ := h.gates hnic'
    exact ⟨nic, hnic, hid'.trans hid, hvni'.trans hvni, hbypass'.trans hbypass⟩

theorem undisturbed_refl (s : Server) : Undisturbed s s :=
  undisturbed_model (f := id) (SameGates.of_nics rfl)

theorem undisturbed_fwUpdate (ok : PgCall → Bool) (nic : Nic) (s : Server) :
    Undisturbed s (fwUpdate ok nic s) := by
  rcases fwUpdate_cases ok nic s with heq | ⟨gn, hstarted, hfilter, hgn⟩
  · rw [heq]
    exact undisturbed_refl s
  · rw [fwUpdate_eq hstarted hfilter hgn]
    exact (undisturbed_updateNic (f := setDefaultOutboundRule true)
      fun n => ⟨rfl, rfl, rfl⟩).trans
      (undisturbed_firewall fun op hop => fwUpdateOps_firewallOp hop)

theorem undisturbed_fwAddRule (ok : PgCall → Bool) (nic : Nic) (rule : Rule) (s : Server) :
    Undisturbed s (fwAddRule ok nic rule s) := by
  rcases fwAddRule_cases ok nic rule s with heq | ⟨gn, hstarted, hfilter, hrule, hgn⟩
  · rw [heq]
    exact undisturbed_refl s
  · rw [fwAddRule_eq hstarted hfilter hrule hgn]
    refine (undisturbed_updateNic fun n => ?_).trans
      (undisturbed_firewall fun op hop => addRuleOps_firewallOp hop)
    unfold afterRule
    split <;> exact ⟨rfl, rfl, rfl⟩

theorem Secluded.undisturbed (h : Secluded s) (hs' : Undisturbed s s') : Secluded s' := by
  have hback : ∀ {id : String} {nic' gn'}, s'.model.nics[id]? = some nic' →
      s'.findNic nic' = some gn' → ∃ nic gn, s.model.nics[id]? = some nic ∧
        s.findNic nic = some gn ∧ nic'.bypassFiltering = nic.bypassFiltering ∧
        gn'.bricks = gn.bricks ∧ gn'.head = gn.head ∧ gn'.firewall = gn.firewall := by
    intro id nic' gn' hnic' hgn'
    obtain ⟨nic, hnic, hid, hvni, hbypass⟩ := hs'.gates hnic'
    obtain ⟨gn, hgn, hbricks⟩ := hs'.branch (Server.findNic_eq nic' s' ▸ hgn')
    rw [hid, hvni] at hgn
    exact ⟨nic, gn, hnic, hgn, hbypass, hbricks⟩
  refine ⟨hs'.hidden h.hidden, fun v => (hs'.entries.size v).trans (h.alone v),
    fun hsw => ?_, fun hnic' hgn' => ?_, fun hnic' hgn' hbypass' => ?_⟩
  · obtain ⟨hkind, hspare⟩ := h.spare (hs'.entries.switch hsw)
    exact ⟨hkind, fun hjoined => hspare (hs'.joined hjoined)⟩
  · obtain ⟨nic, gn, hnic, hgn, hbypass, hbricks, hhead, hfirewall⟩ := hback hnic' hgn'
    refine ⟨fun hjoined => ?_⟩
    have hhangs := (h.hangs hnic hgn).edges (hs'.joined hjoined)
    simp only [gate, hbypass, hbricks, hhead, hfirewall]
    exact hhangs
  · obtain ⟨nic, gn, hnic, hgn, hbypass, -, hhead, -⟩ := hback hnic' hgn'
    rw [hhead]
    exact h.heads hnic hgn (hbypass ▸ hbypass')

end Quiet

/-! ## Trace steps -/

def relinkOps (nic : Nic) (gn : GraphNic) (b : Brick) : List (Op Rpc Direct) :=
  if nic.bypassFiltering then
    [.push (.unlink gn.vhost), .push (.link b gn.vhost), .push (.link vtepBrick b),
      .push (.addVni vtepBrick b nic.vni)]
  else
    [.push (.unlinkEdge gn.antispoof gn.vhost), .push (.link gn.antispoof b),
      .push (.link b gn.vhost)]

def plainOps (nic : Nic) (gn : GraphNic) (b : Brick) : List (Op Rpc Direct) :=
  if nic.bypassFiltering then
    [.push (.unlink b), .push (.link vtepBrick gn.vhost),
      .push (.addVni vtepBrick gn.vhost nic.vni)]
  else [.push (.unlink b), .push (.link gn.antispoof gn.vhost)]

theorem dropped_of_held {gn : GraphNic} (h : HeadHeld gn) (b : Brick) : dropped gn b = [] := by
  unfold HeadHeld at h
  unfold dropped
  rw [if_pos]
  simp only [List.mem_append, List.mem_cons, List.not_mem_nil, or_false] at h ⊢
  tauto

theorem linkOps_of_dropped {nic : Nic} {gn : GraphNic} {b : Brick} (h : dropped gn b = []) :
    linkOps nic gn b = relinkOps nic gn b := by
  simp [linkOps, relinkOps, h]

theorem unlinkOps_of_held {nic : Nic} {gn : GraphNic} {b : Brick} (h : HeadHeld gn) :
    unlinkOps nic gn b = plainOps nic gn b := by
  unfold unlinkOps plainOps
  rw [dropped_of_held h]
  split <;> rfl

section Rewiring

variable {nic : Nic} {gn gn' : GraphNic} {g : BrickGraph} {a b c : Brick}

theorem joined_relinkOps
    (h : (BrickGraph.machine.sync (relinkOps nic gn b) g).Joined a c) :
    (g.Joined a c ∧ (nic.bypassFiltering = true → a ≠ gn.vhost ∧ c ≠ gn.vhost)) ∨
      (a = b ∧ c = gn.vhost) ∨ (nic.bypassFiltering = true ∧ a = vtepBrick ∧ c = b) ∨
      (a = gn.antispoof ∧ c = b) := by
  unfold relinkOps at h
  split at h
  · next hbypass =>
      change ((((g.unlink gn.vhost).link b gn.vhost).link vtepBrick b).addVni vtepBrick b
        nic.vni).Joined a c at h
      rw [joined_addVni, joined_link, joined_link, joined_unlink] at h
      rcases h with (⟨hold, hends⟩ | hlink) | hlink
      · exact .inl ⟨hold, fun _ => hends⟩
      · exact .inr (.inl hlink)
      · exact .inr (.inr (.inl ⟨hbypass, hlink⟩))
  · next hfilter =>
      change (((g.unlinkEdge gn.antispoof gn.vhost).link gn.antispoof b).link b
        gn.vhost).Joined a c at h
      rw [joined_link, joined_link] at h
      rcases h with (hold | hlink) | hlink
      · exact .inl ⟨joined_of_unlinkEdge hold, fun hbypass => absurd hbypass hfilter⟩
      · exact .inr (.inr (.inr hlink))
      · exact .inr (.inl hlink)

theorem joined_plainOps
    (h : (BrickGraph.machine.sync (plainOps nic gn b) g).Joined a c) :
    (g.Joined a c ∧ a ≠ b ∧ c ≠ b) ∨
      (nic.bypassFiltering = true ∧ a = vtepBrick ∧ c = gn.vhost) ∨
      (a = gn.antispoof ∧ c = gn.vhost) := by
  unfold plainOps at h
  split at h
  · next hbypass =>
      change (((g.unlink b).link vtepBrick gn.vhost).addVni vtepBrick gn.vhost
        nic.vni).Joined a c at h
      rw [joined_addVni, joined_link, joined_unlink] at h
      exact h.imp_right fun hlink => .inl ⟨hbypass, hlink⟩
  · change ((g.unlink b).link gn.antispoof gn.vhost).Joined a c at h
    rw [joined_link, joined_unlink] at h
    exact h.imp_right .inr

theorem HangsOnVtep.relinked (h : HangsOnVtep nic gn g)
    (hmem : ∀ x, x ∈ gn'.bricks ↔ x ∈ gn.bricks ∨ x = b)
    (hnew : b ∈ gn.bricks ∨ ∀ {a c}, g.Joined a c → a ≠ b ∧ c ≠ b)
    (hplace : nic.bypassFiltering = true → gn.head = gn.vhost ∨ gn.head = b)
    (hgate : gate nic gn' = if nic.bypassFiltering then b else gn.firewall) :
    HangsOnVtep nic gn' (BrickGraph.machine.sync (relinkOps nic gn b) g) := by
  have hown : ∀ {x}, x ∈ [gn.antispoof, gn.vhost] → x ∈ gn'.bricks := by
    intro x hx
    rw [hmem]
    left
    simp only [List.mem_cons, List.not_mem_nil, or_false] at hx
    rcases hx with rfl | rfl <;> simp [GraphNic.bricks]
  have hb : b ∈ gn'.bricks := (hmem b).mpr (.inr rfl)
  refine ⟨fun {a c} hjoined => ?_⟩
  rcases joined_relinkOps hjoined with ⟨hold, hends⟩ | ⟨rfl, rfl⟩ | ⟨hbypass, rfl, rfl⟩ |
      ⟨rfl, rfl⟩
  · rcases h.edges hold with hboth | ⟨hvtep, hold'⟩
    · left
      rw [hmem, hmem]
      rcases hnew with hb | hnew
      · refine ⟨fun ha => .inl ?_, fun hc => .inl ?_⟩
        · exact ha.elim hboth.mp fun heq => hboth.mp (heq ▸ hb)
        · exact hc.elim hboth.mpr fun heq => hboth.mpr (heq ▸ hb)
      · simp [hboth, (hnew hold).1, (hnew hold).2]
    · right
      refine ⟨hvtep, ?_⟩
      rw [hgate, hold', gate]
      split
      · next hbypass =>
          refine (hplace hbypass).resolve_left fun heq => (hends hbypass).2 ?_
          rw [hold', gate, if_pos hbypass, heq]
      · rfl
  · exact .inl (iff_of_true hb (hown (by simp)))
  · right
    rw [hgate, if_pos hbypass]
    exact ⟨rfl, rfl⟩
  · exact .inl (iff_of_true (hown (by simp)) hb)

theorem HangsOnVtep.plain (h : HangsOnVtep nic gn g) (hmem : ∀ x, x ∈ gn'.bricks ↔ x ∈ gn.bricks)
    (hplace : nic.bypassFiltering = true → gn.head = gn.vhost ∨ gn.head = b)
    (hgate : gate nic gn' = if nic.bypassFiltering then gn.vhost else gn.firewall) :
    HangsOnVtep nic gn' (BrickGraph.machine.sync (plainOps nic gn b) g) := by
  refine ⟨fun {a c} hjoined => ?_⟩
  rcases joined_plainOps hjoined with ⟨hold, -, hc⟩ | ⟨hbypass, rfl, rfl⟩ | ⟨rfl, rfl⟩
  · rw [hmem, hmem]
    refine (h.edges hold).imp_right fun ⟨hvtep, hold'⟩ => ⟨hvtep, ?_⟩
    rw [hgate, hold', gate]
    split
    · next hbypass =>
        refine (hplace hbypass).resolve_right fun heq => hc ?_
        rw [hold', gate, if_pos hbypass, heq]
    · rfl
  · right
    rw [hgate, if_pos hbypass]
    exact ⟨rfl, rfl⟩
  · left
    rw [hmem, hmem]
    exact iff_of_true (by simp [GraphNic.bricks]) (by simp [GraphNic.bricks])

end Rewiring

structure Rewired (nic : Nic) (gn' : GraphNic) (s s' : Server) : Prop where
  hidden : Hidden s → Hidden s'
  model : s'.model = s.model
  branch : ∀ v id, s'.branch v id =
    if nic.vni = v ∧ nic.id = id then some gn' else s.branch v id
  entries : SameEntries s s'
  joined : ∀ {a c}, s'.wiring.Joined a c → s.wiring.Joined a c ∨
    ((a ∈ gn'.bricks ∨ a = vtepBrick) ∧ c ∈ gn'.bricks)

section Traces

variable {s s' : Server} {nic : Nic} {gn gn' : GraphNic} {b : Brick} {id : String}

theorem Secluded.rewired (h : Secluded s) (hagree : Agree s) (howned : Owned s')
    (hnic : s.model.nics[id]? = some nic) (hr : Rewired nic gn' s s')
    (hown : HangsOnVtep nic gn' s'.wiring)
    (hhead : nic.bypassFiltering = true → gn'.head.kind = .vhost ∨ gn'.head.kind = .sniffer) :
    Secluded s' := by
  have hgn' : s'.branch nic.vni nic.id = some gn' := by
    rw [hr.branch, if_pos ⟨rfl, rfl⟩]
  have hkinds := howned.kinds hgn'
  -- The branch at hand is the one that was rewired, or it was there before.
  have hcases : ∀ {id' : String} {nic' gn₁}, s'.model.nics[id']? = some nic' →
      s'.findNic nic' = some gn₁ → (nic' = nic ∧ gn₁ = gn') ∨
        (s.model.nics[id']? = some nic' ∧ s.findNic nic' = some gn₁ ∧
          ∀ x ∈ gn₁.bricks, x ∉ gn'.bricks) := by
    intro id' nic' gn₁ hnic' hgn₁
    rw [hr.model] at hnic'
    by_cases hkey : nic.vni = nic'.vni ∧ nic.id = nic'.id
    · left
      have hid : id = id' := by rw [← hagree.nicIds hnic, ← hagree.nicIds hnic', hkey.2]
      subst hid
      rw [Server.findNic_eq, hr.branch, if_pos hkey] at hgn₁
      exact ⟨(Option.some.inj (hnic.symm.trans hnic')).symm, (Option.some.inj hgn₁).symm⟩
    · right
      refine ⟨hnic', ?_, fun x hx hx' => ?_⟩
      · rw [Server.findNic_eq, hr.branch, if_neg hkey] at hgn₁
        exact hgn₁
      · exact hkey (howned.apart hgn' (Server.findNic_eq nic' s' ▸ hgn₁) hx' hx)
  refine ⟨hr.hidden h.hidden, fun v => (hr.entries.size v).trans (h.alone v),
    fun {v sw} hsw => ?_, fun hnic' hgn₁ => ?_, fun hnic' hgn₁ hbypass => ?_⟩
  · obtain ⟨hkind, hspare⟩ := h.spare (hr.entries.switch hsw)
    refine ⟨hkind, fun {a c} hjoined => ?_⟩
    have hne : ∀ x, x ∈ gn'.bricks ∨ x = vtepBrick → x ≠ sw := by
      rintro x hx rfl
      rcases hx with hx | rfl
      · exact (BranchKind.not_attached (hkinds _ hx)).2 hkind
      · cases hkind
    rcases hr.joined hjoined with hold | ⟨ha, hc⟩
    · exact hspare hold
    · exact ⟨hne a ha, hne c (.inl hc)⟩
  · rcases hcases hnic' hgn₁ with ⟨rfl, rfl⟩ | ⟨hold, hgnOld, happart⟩
    · exact hown
    · refine ⟨fun {a c} hjoined => ?_⟩
      rcases hr.joined hjoined with hjoined | ⟨ha, hc⟩
      · exact (h.hangs hold hgnOld).edges hjoined
      · refine .inl (iff_of_false (fun hmem => ?_) fun hmem => happart c hmem hc)
        rcases ha with ha | rfl
        · exact happart a hmem ha
        · have hkind := howned.kinds (Server.findNic_eq _ s' ▸ hgn₁) _ hmem
          exact (BranchKind.not_attached hkind).1 rfl
  · rcases hcases hnic' hgn₁ with ⟨rfl, rfl⟩ | ⟨hold, hgnOld, -⟩
    · exact hhead hbypass
    · exact h.heads hold hgnOld hbypass

theorem branch_updated {f : GraphNic → GraphNic} (hgn : s.findNic nic = some gn) (v : UInt32)
    (id : String) : (s.updateNic nic f).branch v id =
      if nic.vni = v ∧ nic.id = id then some (f gn) else s.branch v id := by
  rw [Server.branch_updateNic]
  split
  · next hkey =>
      obtain ⟨rfl, rfl⟩ := hkey
      rw [← Server.findNic_eq, hgn, Option.map_some]
  · rfl

theorem hidden_pushes {ops : List (Op Rpc Direct)} (h : Hidden s)
    (hops : ∀ op ∈ ops, ∃ c, op = .push c) : Hidden (s.emits ops) := by
  refine h.emits ops fun d hd => ?_
  obtain ⟨c, hc⟩ := hops _ hd
  cases hc

theorem relinkOps_push : ∀ op ∈ relinkOps nic gn b, ∃ c, op = .push c := by
  unfold relinkOps
  split <;> simp

theorem plainOps_push : ∀ op ∈ plainOps nic gn b, ∃ c, op = .push c := by
  unfold plainOps
  split <;> simp

theorem joined_relinked {g : BrickGraph} {a c : Brick} (hb : b ∈ gn'.bricks)
    (hvhost : gn.vhost ∈ gn'.bricks) (hantispoof : gn.antispoof ∈ gn'.bricks)
    (h : (BrickGraph.machine.sync (relinkOps nic gn b) g).Joined a c) :
    g.Joined a c ∨ ((a ∈ gn'.bricks ∨ a = vtepBrick) ∧ c ∈ gn'.bricks) := by
  rcases joined_relinkOps h with ⟨hold, -⟩ | ⟨rfl, rfl⟩ | ⟨-, rfl, rfl⟩ | ⟨rfl, rfl⟩
  · exact .inl hold
  · exact .inr ⟨.inl hb, hvhost⟩
  · exact .inr ⟨.inr rfl, hb⟩
  · exact .inr ⟨.inl hantispoof, hb⟩

theorem rewired_linked (hgn : s.findNic nic = some gn) (hheld : HeadHeld gn) :
    Rewired nic (withHead b gn) s (linked nic gn b s) ∧
      (linked nic gn b s).wiring = BrickGraph.machine.sync (relinkOps nic gn b) s.wiring := by
  have hops : linkOps nic gn b = relinkOps nic gn b :=
    linkOps_of_dropped (dropped_of_held hheld b)
  have hwiring : (linked nic gn b s).wiring =
      BrickGraph.machine.sync (relinkOps nic gn b) s.wiring := by
    rw [linked, hops, Server.wiring_emits]
    rfl
  refine ⟨⟨fun h => ?_, rfl, fun v id => branch_updated hgn v id,
    (SameEntries.updateNic nic _).trans (.of_vnis rfl), fun hjoined => ?_⟩, hwiring⟩
  · have hstart : Hidden (s.updateNic nic (withHead b)) := h
    rw [linked, hops]
    exact hidden_pushes hstart relinkOps_push
  · rw [hwiring] at hjoined
    exact joined_relinked (by simp [withHead, GraphNic.bricks])
      (by simp [withHead, GraphNic.bricks]) (by simp [withHead, GraphNic.bricks]) hjoined

theorem printed_wiring (path : String) (s : Server) : (printed path s).wiring = s.wiring := by
  rw [printed, Server.wiring_emits]
  rfl

theorem printed_hidden (path : String) (h : Hidden s) : Hidden (printed path s) := by
  have hstart : Hidden s.takeSerial := h
  refine hstart.emits _ fun d hd => ?_
  simp only [List.mem_singleton, Op.direct.injEq] at hd
  rw [hd]
  exact fun _ => rfl

theorem rewired_linkPath (path : String) (hgn : s.findNic nic = some gn) (hheld : HeadHeld gn) :
    Rewired nic (withHead b gn) s (linked nic gn b (printed path s)) ∧
      (linked nic gn b (printed path s)).wiring =
        BrickGraph.machine.sync (relinkOps nic gn b) s.wiring := by
  have hfind : (printed path s).findNic nic = some gn := hgn
  have hprinted : SameEntries s (printed path s) := .of_vnis rfl
  obtain ⟨hr, hwiring⟩ := rewired_linked (b := b) hfind hheld
  rw [printed_wiring] at hwiring
  refine ⟨⟨fun h => hr.hidden (printed_hidden path h), hr.model, hr.branch,
    hprinted.trans hr.entries, fun hjoined => ?_⟩, hwiring⟩
  have hold := hr.joined hjoined
  rw [printed_wiring] at hold
  exact hold

theorem rewired_linkNew (path : String) (hgn : s.findNic nic = some gn) (hheld : HeadHeld gn)
    (hnone : gn.sniffer = none) :
    Rewired nic (withHead ⟨.sniffer, s.nextSerial⟩ (withSniffer ⟨.sniffer, s.nextSerial⟩ gn)) s
        (linked nic (withSniffer ⟨.sniffer, s.nextSerial⟩ gn) ⟨.sniffer, s.nextSerial⟩
          (sniffed nic path s)) ∧
      (linked nic (withSniffer ⟨.sniffer, s.nextSerial⟩ gn) ⟨.sniffer, s.nextSerial⟩
          (sniffed nic path s)).wiring =
        BrickGraph.machine.sync (relinkOps nic gn ⟨.sniffer, s.nextSerial⟩) s.wiring := by
  have hheld' : HeadHeld (withSniffer ⟨.sniffer, s.nextSerial⟩ gn) := by
    simp only [HeadHeld, withSniffer, hnone, Option.toList_none, List.append_nil,
      List.mem_append] at hheld ⊢
    exact .inl hheld
  have hfind : (sniffed nic path s).findNic nic = _ := sniffed_findNic hgn
  obtain ⟨hr, hwiring⟩ := rewired_linked (b := ⟨.sniffer, s.nextSerial⟩) hfind hheld'
  have hsame : (sniffed nic path s).wiring = s.wiring := printed_wiring path s
  rw [hsame] at hwiring
  refine ⟨⟨fun h => hr.hidden (printed_hidden path h), hr.model, fun v id => ?_,
    SameEntries.trans ?_ hr.entries, fun hjoined => ?_⟩, hwiring⟩
  · rw [hr.branch]
    have hother : (sniffed nic path s).branch v id =
        if nic.vni = v ∧ nic.id = id then some (withSniffer ⟨.sniffer, s.nextSerial⟩ gn)
        else s.branch v id := branch_updated hgn v id
    rw [hother]
    split <;> rfl
  · exact (SameEntries.updateNic nic _).trans (.of_vnis rfl)
  · have hold := hr.joined hjoined
    rw [hsame] at hold
    exact hold

theorem rewired_unlinked (hgn : s.findNic nic = some gn) (hheld : HeadHeld gn) :
    Rewired nic (withHead (plainHead nic gn) gn) s (unlinked nic gn b s) ∧
      (unlinked nic gn b s).wiring =
        BrickGraph.machine.sync (plainOps nic gn b) s.wiring := by
  have hops : unlinkOps nic gn b = plainOps nic gn b := unlinkOps_of_held hheld
  have hwiring : (unlinked nic gn b s).wiring =
      BrickGraph.machine.sync (plainOps nic gn b) s.wiring := by
    rw [unlinked, hops, Server.wiring_emits]
    rfl
  refine ⟨⟨fun h => ?_, rfl, fun v id => branch_updated hgn v id,
    (SameEntries.updateNic nic _).trans (.of_vnis rfl), fun hjoined => ?_⟩, hwiring⟩
  · have hstart : Hidden (s.updateNic nic (withHead (plainHead nic gn))) := h
    rw [unlinked, hops]
    exact hidden_pushes hstart plainOps_push
  · rw [hwiring] at hjoined
    have hvhost : gn.vhost ∈ (withHead (plainHead nic gn) gn).bricks := by
      simp [withHead, GraphNic.bricks]
    rcases joined_plainOps hjoined with ⟨hold, -⟩ | ⟨-, rfl, rfl⟩ | ⟨rfl, rfl⟩
    · exact .inl hold
    · exact .inr ⟨.inr rfl, hvhost⟩
    · exact .inr ⟨.inl (by simp [withHead, GraphNic.bricks]), hvhost⟩

theorem mem_withHead (hheld : HeadHeld gn) (x : Brick) :
    x ∈ (withHead b gn).bricks ↔ x ∈ gn.bricks ∨ x = b := by
  have hhead : x = gn.head →
      x = gn.firewall ∨ x = gn.antispoof ∨ x = gn.vhost ∨ x ∈ gn.sniffer.toList := by
    rintro rfl
    simpa [HeadHeld, or_assoc] using hheld
  simp only [withHead, GraphNic.bricks, List.cons_append, List.nil_append, List.mem_cons]
  tauto

structure Tracing (id : String) (nic : Nic) (gn : GraphNic) (s : Server) : Prop where
  secluded : Secluded s
  agree : Agree s
  numbered : Numbered s
  owned : Owned s
  lookup : s.model.nics[id]? = some nic
  find : s.findNic nic = some gn

namespace Tracing

variable (h : Tracing id nic gn s)

include h

theorem place (hheld : HeadHeld gn) (hbypass : nic.bypassFiltering = true) :
    gn.head = gn.vhost ∨ gn.sniffer = some gn.head := by
  have hhead := h.secluded.heads h.lookup h.find hbypass
  obtain ⟨n, -, hfirewall, hantispoof, -⟩ :=
    h.agree.graph.bricks (Server.findNic_eq nic s ▸ h.find)
  simp only [HeadHeld, List.mem_append, List.mem_cons, List.not_mem_nil, or_false,
    Option.mem_toList] at hheld
  rcases hheld with (heq | heq | heq) | hsniffer
  · rw [heq, hfirewall] at hhead
    exact absurd hhead (by simp)
  · rw [heq, hantispoof] at hhead
    exact absurd hhead (by simp)
  · exact .inl heq
  · exact .inr hsniffer

theorem untouched {a c : Brick} (hjoined : s.wiring.Joined a c) :
    a ≠ ⟨.sniffer, s.nextSerial⟩ ∧ c ≠ ⟨.sniffer, s.nextSerial⟩ := by
  obtain ⟨ha, hc⟩ := h.numbered.joined hjoined
  constructor
  · rintro rfl
    exact Nat.lt_irrefl _ ha
  · rintro rfl
    exact Nat.lt_irrefl _ hc

theorem link (hheld : HeadHeld gn) (hb : gn.sniffer = some b) : Secluded (linked nic gn b s) := by
  obtain ⟨hr, hwiring⟩ := rewired_linked (b := b) h.find hheld
  refine h.secluded.rewired h.agree (h.owned.traceStep h.numbered (.link h.find hb)) h.lookup hr
    ?_ fun _ => .inr (h.owned.sniffers (Server.findNic_eq nic s ▸ h.find) hb)
  rw [hwiring]
  refine (h.secluded.hangs h.lookup h.find).relinked (mem_withHead hheld)
    (.inl (by simp [GraphNic.bricks, hb])) (fun hbypass => ?_) rfl
  refine (h.place hheld hbypass).imp_right fun hsome => ?_
  rw [hb] at hsome
  exact (Option.some.inj hsome).symm

theorem linkNew (hheld : HeadHeld gn) (hnone : gn.sniffer = none) (path : String) :
    Secluded (linked nic (withSniffer ⟨.sniffer, s.nextSerial⟩ gn) ⟨.sniffer, s.nextSerial⟩
      (sniffed nic path s)) := by
  obtain ⟨hr, hwiring⟩ := rewired_linkNew path h.find hheld hnone
  refine h.secluded.rewired h.agree
    (h.owned.traceStep h.numbered (.linkNew h.find hnone)) h.lookup hr ?_ fun _ => .inr rfl
  rw [hwiring]
  refine (h.secluded.hangs h.lookup h.find).relinked (fun x => ?_) (.inr h.untouched)
    (fun hbypass => ?_) rfl
  · rw [← mem_withHead hheld]
    simp only [withHead, withSniffer, GraphNic.bricks, hnone, List.mem_append, List.mem_cons,
      Option.toList_some, Option.toList_none, List.not_mem_nil, or_false]
    tauto
  · refine .inl ((h.place hheld hbypass).resolve_right ?_)
    rw [hnone]
    simp

theorem linkPath (hheld : HeadHeld gn) (hplace : nic.bypassFiltering = true → gn.head = gn.vhost)
    (path : String) :
    Secluded (linked nic gn ⟨.sniffer, s.nextSerial⟩ (printed path s)) := by
  obtain ⟨hr, hwiring⟩ :=
    rewired_linkPath (b := ⟨.sniffer, s.nextSerial⟩) path h.find hheld
  refine h.secluded.rewired h.agree
    (h.owned.traceStep h.numbered (.linkPath h.find)) h.lookup hr ?_ fun _ => .inr rfl
  rw [hwiring]
  exact (h.secluded.hangs h.lookup h.find).relinked (mem_withHead hheld) (.inr h.untouched)
    (fun hbypass => .inl (hplace hbypass)) rfl

theorem unlink (hheld : HeadHeld gn) (hb : gn.sniffer = some b) :
    Secluded (unlinked nic gn b s) := by
  have hplain : plainHead nic gn ∈ gn.bricks := by
    unfold plainHead
    split <;> simp [GraphNic.bricks]
  obtain ⟨n, -, -, -, hvhost⟩ := h.agree.graph.bricks (Server.findNic_eq nic s ▸ h.find)
  obtain ⟨hr, hwiring⟩ := rewired_unlinked (b := b) h.find hheld
  refine h.secluded.rewired h.agree (h.owned.traceStep h.numbered (.unlink h.find hb)) h.lookup
    hr ?_ fun hbypass => .inl ?_
  · rw [hwiring]
    refine (h.secluded.hangs h.lookup h.find).plain (fun x => ?_) (fun hbypass => ?_) ?_
    · rw [mem_withHead hheld]
      exact or_iff_left_of_imp fun heq => heq ▸ hplain
    · refine (h.place hheld hbypass).imp_right fun hsome => ?_
      rw [hb] at hsome
      exact (Option.some.inj hsome).symm
    · unfold gate plainHead
      split <;> rfl
  · change (plainHead nic gn).kind = .vhost
    rw [plainHead, if_pos hbypass, hvhost]

end Tracing

end Traces

end Butterfly
