import Butterfly.Seclusion

/-!
# NICs that come and go under the poller

The branch of a new NIC is an island until it is linked to the vtep, and the branch
of a deleted NIC is one as soon as its head is unlinked.
-/

namespace Butterfly

open Std Foundation Butterfly.Graph BrickGraph

/-! ## Entries -/

theorem entry_of_lookup {s s' : Server} {v : UInt32} {entry : GraphVni}
    (h : ∀ a : UInt32, s'.vnis[a]? = if v = a then some entry else s.vnis[a]?) (a : UInt32) :
    vniEntry a s' = if v = a then entry else vniEntry a s := by
  rw [vniEntry, h]
  split
  · rfl
  · rfl

theorem destroyOps_eq (bricks : List Brick) :
    destroyOps bricks = (bricks.map Direct.destroy).map .direct := by
  rw [List.map_map]
  rfl

/-! ## New branches -/

/-- A brick that nothing is linked to: of the next branch, or a switch out of use. -/
def Idle (v : UInt32) (s : Server) (b : Brick) : Prop :=
  b.serial = s.nextSerial ∨ (vniEntry v s).sw = some b

section Added

variable {ok : PgCall → Bool} {nic : Nic} {s s' s₁ : Server}

theorem Secluded.island (h : Secluded s) (hnumbered : Numbered s) (v : UInt32) :
    Island (Idle v s) s.wiring := by
  refine ⟨?_, fun {a b} hjoined => ?_⟩
  · rintro (hserial | hsw)
    · exact (Nat.ne_of_lt hnumbered.positive) hserial
    · exact absurd (h.spare hsw).1 (by simp [vtepBrick])
  · obtain ⟨ha, hb⟩ := hnumbered.joined hjoined
    refine iff_of_false ?_ ?_
    · rintro (hserial | hsw)
      · exact Nat.ne_of_lt ha hserial
      · exact ((h.spare hsw).2 hjoined).1 rfl
    · rintro (hserial | hsw)
      · exact Nat.ne_of_lt hb hserial
      · exact ((h.spare hsw).2 hjoined).2 rfl

theorem Secluded.fenced (h : Secluded s) (hnumbered : Numbered s) (v : UInt32) :
    HiddenClean ((openVni v s).takeSerial.emits (fwNewOps ok nic s.nextSerial)) ∧
      Island (Idle v s)
        ((openVni v s).takeSerial.emits (fwNewOps ok nic s.nextSerial)).wiring := by
  have hstart : Hidden (openVni v s).takeSerial := h.hidden
  refine ⟨hstart.fence [_] (by simp), (h.island hnumbered v).vtep, fun hjoined => ?_⟩
  rw [Server.wiring_emits] at hjoined
  exact (h.island hnumbered v).closed hjoined

theorem Secluded.created (h : Secluded s) (hnumbered : Numbered s)
    (hcreated : Created ok nic (openVni nic.vni s) s₁) :
    HiddenClean s₁ ∧ Island (Idle nic.vni s) s₁.wiring ∧
      ∀ {a c}, s₁.wiring.Joined a c → s.wiring.Joined a c ∨
        (a ∈ (newBranch nic s.nextSerial).bricks ∧
          c ∈ (newBranch nic s.nextSerial).bricks) := by
  obtain ⟨-, -, ops, hops, rfl⟩ := hcreated
  obtain ⟨ds, rfl⟩ := directs_of_calm hops
  have hlinks := innerLinks_bricks ok nic s.nextSerial s.config.packetTrace
  have hfenced : HiddenClean
      ((openVni nic.vni s).takeSerial.emits (fwNewOps ok nic s.nextSerial)) ∧ _ :=
    h.fenced hnumbered nic.vni
  obtain ⟨hclean, hisland⟩ := hfenced
  have hall : ∀ d ∈ ds ++ (innerLinks ok nic s.nextSerial s.config.packetTrace).map
      (fun link => Direct.link link.1 link.2), d.Within (Idle nic.vni s) := by
    intro d hd
    rcases List.mem_append.mp hd with hd | hd
    · have hcalm := hops _ (List.mem_map_of_mem hd)
      cases hcalm <;> trivial
    · obtain ⟨link, hlink, rfl⟩ := List.mem_map.mp hd
      obtain ⟨hwest, heast⟩ := hlinks link hlink
      exact ⟨.inl (newBranch_bricks nic _ _ hwest), .inl (newBranch_bricks nic _ _ heast)⟩
  have heq : (openVni nic.vni s).takeSerial.emits
      (fwNewOps ok nic (openVni nic.vni s).nextSerial ++ ds.map .direct ++
        (innerLinks ok nic (openVni nic.vni s).nextSerial
          (openVni nic.vni s).config.packetTrace).map linkOp) =
      ((openVni nic.vni s).takeSerial.emits (fwNewOps ok nic s.nextSerial)).emits
        ((ds ++ (innerLinks ok nic s.nextSerial s.config.packetTrace).map
          (fun link => Direct.link link.1 link.2)).map .direct) := by
    rw [Server.emits_emits, List.map_append, List.map_map, List.append_assoc]
    rfl
  rw [heq]
  refine ⟨hclean.directs hisland _ hall, ?_, fun {a c} hjoined => ?_⟩
  · rw [Server.wiring_emits]
    exact hisland.mono hall
  · rw [Server.wiring_emits] at hjoined
    rcases joined_sync hjoined with hold | hpush | hdirect
    · rw [Server.wiring_emits] at hold
      exact .inl hold
    · simp at hpush
    · right
      obtain ⟨d, hd, heq⟩ := List.mem_map.mp hdirect
      cases heq
      rcases List.mem_append.mp hd with hd | hd
      · have hcalm := hops _ (List.mem_map_of_mem hd)
        cases hcalm
      · obtain ⟨link, hlink, heq⟩ := List.mem_map.mp hd
        cases heq
        exact hlinks link hlink

structure Sprouted (nic : Nic) (s s' : Server) : Prop where
  hidden : Hidden s'
  model : s'.model = s.model
  branch : ∀ {v id gn}, s'.branch v id = some gn →
    s.branch v id = some gn ∨ (nic.vni = v ∧ nic.id = id)
  size : ∀ v, (vniEntry v s').nics.size ≤ 1
  switch : ∀ {v sw}, (vniEntry v s').sw = some sw →
    (vniEntry v s).sw = some sw ∨ sw = ⟨.switch, s.nextSerial + 1⟩
  joined : ∀ {a c}, s'.wiring.Joined a c → s.wiring.Joined a c ∨
    ((a ∈ (newBranch nic s.nextSerial).bricks ∨ a = vtepBrick) ∧
      c ∈ (newBranch nic s.nextSerial).bricks)

theorem Secluded.grown (h : Secluded s) (hagree : Agree s) (hnumbered : Numbered s)
    (howned : Owned s) (hnew : s.branch nic.vni nic.id = none) (hs' : Sprouted nic s s') :
    Secluded s' := by
  have hfresh := newBranch_bricks nic s.nextSerial
  have hkinds := Owned.newBranch_kinds nic s.nextSerial
  have hback : ∀ {id : String} {m gn}, s'.model.nics[id]? = some m →
      s'.findNic m = some gn → s.model.nics[id]? = some m ∧ s.findNic m = some gn := by
    intro id m gn hm hgn
    rw [hs'.model] at hm
    refine ⟨hm, ?_⟩
    rcases hs'.branch (Server.findNic_eq m s' ▸ hgn) with hold | ⟨hvni, hid⟩
    · exact hold
    · have hfind := hagree.findNic hm
      rw [Server.findNic_eq, ← hvni, ← hid, hnew] at hfind
      cases hfind
  refine ⟨hs'.hidden, hs'.size, fun {v sw} hsw => ?_, fun {id m gn} hm hgn => ⟨fun hjoined => ?_⟩,
    fun hm hgn => ?_⟩
  · have hkind : sw.kind = .switch := by
      rcases hs'.switch hsw with hold | rfl
      · exact (h.spare hold).1
      · rfl
    have hnone : ∀ x, x ∈ (newBranch nic s.nextSerial).bricks ∨ x = vtepBrick → x ≠ sw := by
      rintro x hx rfl
      rcases hx with hx | rfl
      · exact (BranchKind.not_attached (hkinds _ hx)).2 hkind
      · cases hkind
    refine ⟨hkind, fun {a c} hjoined => ?_⟩
    rcases hs'.joined hjoined with hold | ⟨ha, hc⟩
    · rcases hs'.switch hsw with hsw | rfl
      · exact (h.spare hsw).2 hold
      · obtain ⟨ha, hc⟩ := hnumbered.joined hold
        constructor
        · rintro rfl
          exact absurd ha (Nat.not_lt.mpr (Nat.le_succ _))
        · rintro rfl
          exact absurd hc (Nat.not_lt.mpr (Nat.le_succ _))
    · exact ⟨hnone a ha, hnone c (.inl hc)⟩
  · obtain ⟨hm, hgn⟩ := hback hm hgn
    have hold := Server.findNic_eq m s ▸ hgn
    rcases hs'.joined hjoined with hjoined | ⟨ha, hc⟩
    · exact (h.hangs hm hgn).edges hjoined
    · have hnone : ∀ x ∈ (newBranch nic s.nextSerial).bricks, x ∉ gn.bricks := by
        intro x hx hmem
        exact absurd (hnumbered.branches hold x hmem) (by rw [hfresh x hx]; exact lt_irrefl _)
      refine .inl (iff_of_false (fun hmem => ?_) (hnone _ hc))
      rcases ha with ha | rfl
      · exact hnone _ ha hmem
      · exact (BranchKind.not_attached (howned.kinds hold _ hmem)).1 rfl
  · obtain ⟨hm, hgn⟩ := hback hm hgn
    exact h.heads hm hgn

theorem grown_of_effect {accepted : Bool} (h : AddEffect nic accepted s s')
    (halone : ∀ v, (vniEntry v s).nics.size ≤ 1) (hnew : s.branch nic.vni nic.id = none)
    (hfirst : accepted = true → (vniEntry nic.vni s).nics.size = 0) (hidden : Hidden s')
    (hswitch : ∀ {sw}, (vniEntry nic.vni s').sw = some sw →
      (vniEntry nic.vni s).sw = some sw ∨ sw = ⟨.switch, s.nextSerial + 1⟩)
    (hjoined : ∀ {a c}, s'.wiring.Joined a c → s.wiring.Joined a c ∨
      ((a ∈ (newBranch nic s.nextSerial).bricks ∨ a = vtepBrick) ∧
        c ∈ (newBranch nic s.nextSerial).bricks)) : Sprouted nic s s' := by
  obtain ⟨entry, hvnis, -, hnics, -⟩ := h.entry
  have hentry := entry_of_lookup hvnis
  refine ⟨hidden, h.model, fun {v id gn} hgn => ?_, fun v => ?_, fun {v sw} hsw => ?_, hjoined⟩
  · rw [h.branch hnew] at hgn
    split at hgn
    · next hkey => exact .inr hkey.2
    · exact .inl hgn
  · rw [hentry]
    split
    · rw [hnics]
      split
      · next haccepted =>
          refine ExtTreeMap.size_insertIfNew_le.trans ?_
          rw [hfirst haccepted]
      · exact halone nic.vni
    · exact halone v
  · by_cases hv : nic.vni = v
    · subst hv
      exact hswitch hsw
    · rw [hentry, if_neg hv] at hsw
      exact .inl hsw

/-- A branch that is given up was an island all along. -/
theorem Secluded.discarded (h : Secluded s) (hnumbered : Numbered s)
    (hnew : s.branch nic.vni nic.id = none) (hcreated : Created ok nic (openVni nic.vni s) s₁)
    {sw : Option Brick} (hsw : ∀ {b}, sw = some b → b = ⟨.switch, s.nextSerial + 1⟩) :
    Sprouted nic s ((s₁.takeSerial.updateVni nic.vni (withSwitch sw)).emits
      (destroyOps (vniEntry nic.vni s).sw.toList ++
        destroyOps (branchBricks (newBranch nic s.nextSerial)))) := by
  obtain ⟨hclean, hisland, hjoined⟩ := h.created hnumbered hcreated
  have hswitched : HiddenClean (s₁.takeSerial.updateVni nic.vni (withSwitch sw)) :=
    ⟨hclean.kept, hclean.clean⟩
  have hsize := h.alone nic.vni
  refine grown_of_effect (addEffect_withSwitch hcreated (by omega) sw fun hb => ?_) h.alone hnew
    (by simp) ?_ (fun {b} hb => ?_) fun {a c} hac => ?_
  · rw [hsw hb]
    exact Nat.le_succ _
  · rw [destroyOps_eq, destroyOps_eq, ← List.map_append]
    refine (hswitched.directs hisland _ fun d hd => ?_).kept
    rw [← List.map_append] at hd
    obtain ⟨b, hb, rfl⟩ := List.mem_map.mp hd
    rcases List.mem_append.mp hb with hb | hb
    · exact .inr (Option.mem_toList.mp hb)
    · exact .inl (newBranch_bricks nic _ _ (branchBricks_subset _ hb))
  · have hlookup : s₁.takeSerial.vnis[nic.vni]? = some (vniEntry nic.vni s) := hcreated.lookup
    rw [vniEntry, Server.emits_vnis, lookup_updateVni _ hlookup, if_pos rfl] at hb
    exact .inr (hsw hb)
  · rw [Server.wiring_emits] at hac
    rcases joined_sync hac with hold | hpush | hdirect
    · exact (hjoined hold).imp_right fun hboth => ⟨.inl hboth.1, hboth.2⟩
    · simp [destroyOps] at hpush
    · simp [destroyOps] at hdirect

theorem Secluded.abandoned (h : Secluded s) (hnumbered : Numbered s)
    (hstarted : s.started = true) (hnew : s.branch nic.vni nic.id = none)
    (habandoned : Abandoned ok nic (openVni nic.vni s) s') : Sprouted nic s s' := by
  have heffect : AddEffect nic false s s' :=
    (NicAdded.abandoned habandoned).effect hstarted (by rw [vniEntry_lookup, hnew])
  obtain ⟨-, ops, hops, rfl⟩ := habandoned
  have hfenced : HiddenClean
      ((openVni nic.vni s).takeSerial.emits (fwNewOps ok nic s.nextSerial)) ∧ _ :=
    h.fenced hnumbered nic.vni
  obtain ⟨hclean, hisland⟩ := hfenced
  obtain ⟨ds, rfl⟩ : ops ∈ Set.range (List.map Op.direct) := by
    rw [Set.range_list_map]
    intro op hop
    cases hops op hop with
    | calm hcalm => cases hcalm <;> exact ⟨_, rfl⟩
    | destroy => exact ⟨_, rfl⟩
  refine grown_of_effect heffect h.alone hnew (by simp) ?_ (fun {b} hb => ?_) fun {a c} hac => ?_
  · rw [← Server.emits_emits]
    refine (hclean.directs hisland ds fun d hd => ?_).kept
    cases hops _ (List.mem_map_of_mem hd) with
    | calm hcalm => cases hcalm <;> trivial
    | destroy => exact .inl rfl
  · rw [vniEntry, Server.emits_vnis, Server.takeSerial_vnis, openVni_lookup] at hb
    exact .inl hb
  · rw [Server.wiring_emits] at hac
    rcases joined_sync hac with hold | hpush | hdirect
    · exact .inl hold
    · simp [fwNewOps] at hpush
    · have hscrap := hops (.direct (.link a c)) (by simpa [fwNewOps] using hdirect)
      cases hscrap with
      | calm hcalm => cases hcalm

theorem newBranch_gate (nic : Nic) (n : Nat) :
    gate nic (filled nic (newBranch nic n)) = (newBranch nic n).head := by
  unfold gate filled
  split
  · rfl
  · next hfilter => simp [newBranch, hfilter, setDefaultOutboundRule]

theorem keepBranch_hidden {vni : GraphVni} (gn : GraphNic) (hstarted : s.started = true)
    (hvni : s.vnis[nic.vni]? = some vni) (hnew : vni.nics[nic.id]? = none) :
    (Hidden s → Hidden (keepBranch ok nic gn s)) ∧
      ∀ {a c}, (keepBranch ok nic gn s).wiring.Joined a c → s.wiring.Joined a c := by
  have hrules : ∀ op ∈ (if nic.bypassFiltering then [] else fwUpdateOps ok gn.firewall
      (inRules s.model.securityGroups nic) (outRules nic)), FirewallOp gn.firewall op := by
    intro op hop
    split at hop
    · cases hop
    · exact fwUpdateOps_firewallOp hop
  rw [keepBranch_eq hstarted hvni hnew]
  refine ⟨fun h => ?_, fun hjoined => ?_⟩
  · have hstart : Hidden (s.updateVni nic.vni (withBranch nic.id (filled nic gn))) := h
    refine hstart.emits _ fun d hd => ?_
    rcases List.mem_cons.mp hd with hd | hd
    · cases hd
    · exact offGraph_of_firewallOp (hrules _ hd)
  · rw [Server.wiring_emits] at hjoined
    refine (joined_of_edges (sync_edgeFree ?_ _)).mp hjoined
    rw [List.forall_mem_cons]
    exact ⟨fun _ => rfl, fun op hop => edgeFree_of_firewallOp (hrules op hop)⟩

/-- The first NIC of its VNI: its branch hangs on the vtep. -/
theorem Secluded.first (h : Secluded s) (hnumbered : Numbered s) (hstarted : s.started = true)
    (hnew : s.branch nic.vni nic.id = none) (hcreated : Created ok nic (openVni nic.vni s) s₁)
    (hsize : (vniEntry nic.vni s).nics.size = 0) {s₂ : Server}
    (hs₂ : s₂ = s₁.emits [.push (.link vtepBrick (newBranch nic s.nextSerial).head),
      .push (.addVni vtepBrick (newBranch nic s.nextSerial).head nic.vni)]) :
    Sprouted nic s (keepBranch ok nic (newBranch nic s.nextSerial) s₂) ∧
      HangsOnVtep nic (filled nic (newBranch nic s.nextSerial))
        (keepBranch ok nic (newBranch nic s.nextSerial) s₂).wiring := by
  have heffect := (NicAdded.first hcreated hsize).effect hstarted (by rw [vniEntry_lookup, hnew])
  rw [← hs₂] at heffect
  obtain ⟨hclean, -, hjoined⟩ := h.created hnumbered hcreated
  have hbricks := newBranch_bricks nic s.nextSerial
  have hhead : (newBranch nic s.nextSerial).head ∈ (newBranch nic s.nextSerial).bricks := by
    simp [GraphNic.bricks]
  have hhidden : Hidden s₂ := hs₂ ▸ hclean.kept.emits _ (by simp)
  have hlookup : s₂.vnis[nic.vni]? = some (vniEntry nic.vni s) := hs₂ ▸ hcreated.lookup
  have hwiring : s₂.wiring = (s₁.wiring.link vtepBrick (newBranch nic s.nextSerial).head).addVni
      vtepBrick (newBranch nic s.nextSerial).head nic.vni := by
    rw [hs₂, Server.wiring_emits]
    rfl
  have hkept : (Hidden s₂ → Hidden (keepBranch ok nic (newBranch nic s.nextSerial) s₂)) ∧ _ :=
    keepBranch_hidden (newBranch nic s.nextSerial)
      (by rw [hs₂]; exact (Created.effect hcreated).1.started.trans hstarted) hlookup
      (by rw [vniEntry_lookup, hnew])
  obtain ⟨hkeptHidden, hkeptJoined⟩ := hkept
  have hedges : ∀ {a c}, (keepBranch ok nic (newBranch nic s.nextSerial) s₂).wiring.Joined a c →
      s.wiring.Joined a c ∨
      (a ∈ (newBranch nic s.nextSerial).bricks ∧ c ∈ (newBranch nic s.nextSerial).bricks) ∨
      (a = vtepBrick ∧ c = (newBranch nic s.nextSerial).head) := by
    intro a c hac
    have hlinked := hkeptJoined hac
    rw [hwiring, joined_addVni, joined_link] at hlinked
    rcases hlinked with hold | hlink
    · exact (hjoined hold).imp_right .inl
    · exact .inr (.inr hlink)
  refine ⟨grown_of_effect heffect h.alone hnew (fun _ => hsize) (hkeptHidden hhidden)
    (fun {b} hb => .inl ?_) fun hac => ?_, ⟨fun {a c} hac => ?_⟩⟩
  · have hentry : (vniEntry nic.vni (keepBranch ok nic (newBranch nic s.nextSerial) s₂)).sw =
        (vniEntry nic.vni s).sw := by
      rw [keepBranch_eq (by rw [hs₂]; exact (Created.effect hcreated).1.started.trans hstarted)
        hlookup (by rw [vniEntry_lookup, hnew]), vniEntry, Server.emits_vnis,
        lookup_updateVni _ hlookup, if_pos rfl]
      rfl
    rw [← hentry]
    exact hb
  · rcases hedges hac with hold | hboth | ⟨rfl, rfl⟩
    · exact .inl hold
    · exact .inr ⟨.inl hboth.1, hboth.2⟩
    · exact .inr ⟨.inr rfl, hhead⟩
  · rw [filled_bricks, newBranch_gate]
    rcases hedges hac with hold | hboth | hlink
    · obtain ⟨ha, hc⟩ := hnumbered.joined hold
      refine .inl (iff_of_false (fun hmem => ?_) fun hmem => ?_)
      · exact Nat.ne_of_lt ha (hbricks a hmem)
      · exact Nat.ne_of_lt hc (hbricks c hmem)
    · exact .inl (iff_of_true hboth.1 hboth.2)
    · exact .inr hlink

def Splits (ok : PgCall → Bool) (nic : Nic) (s : Server) : Prop :=
  ∃ gn, mapValues ((vniEntry nic.vni s).nics.erase nic.id) = [gn] ∧
    creates ok nic s.nextSerial = true ∧ ok (switchCall nic.vni) = true ∧
    ok (.unlinkEdge vtepBrick gn.head) = true

theorem newBranch_head_kind (hbypass : nic.bypassFiltering = true) (n : Nat) :
    (filled nic (newBranch nic n)).head.kind = .vhost ∨
      (filled nic (newBranch nic n)).head.kind = .sniffer := by
  rw [filled, if_pos hbypass]
  cases htrace : nic.packetTrace <;> simp [newBranch, hbypass, htrace]

theorem Secluded.added (h : Secluded s) (hagree : Agree s) (hnumbered : Numbered s)
    (howned : Owned s) (hnew : s.branch nic.vni nic.id = none) (hsplits : ¬Splits ok nic s)
    {accepted : Bool} (hadded : NicAdded ok nic s accepted s') :
    Secluded s' ∧ ∀ gn, s'.findNic nic = some gn → HangsOnVtep nic gn s'.wiring ∧
      (nic.bypassFiltering = true → gn.head.kind = .vhost ∨ gn.head.kind = .sniffer) := by
  have hstarted := hagree.graph.started
  have hbranch := (hadded.effect hstarted (by rw [vniEntry_lookup, hnew])).branch hnew
  have hgrown : Sprouted nic s s' → Secluded s' := h.grown hagree hnumbered howned hnew
  -- Nothing is found under the NIC if it was refused.
  have hrefused : accepted = false → ∀ gn, s'.findNic nic ≠ some gn := by
    rintro rfl gn hgn
    rw [Server.findNic_eq, hbranch, if_neg (by simp), hnew] at hgn
    cases hgn
  cases hadded with
  | abandoned habandoned =>
      exact ⟨hgrown (h.abandoned hnumbered hstarted hnew habandoned),
        fun gn hgn => absurd hgn (hrefused rfl gn)⟩
  | noSwitch hcreated _ _ =>
      exact ⟨hgrown (h.discarded hnumbered hnew hcreated (by simp)),
        fun gn hgn => absurd hgn (hrefused rfl gn)⟩
  | stuck hcreated _ _ _ _ =>
      exact ⟨hgrown (h.discarded hnumbered hnew hcreated (by simp)),
        fun gn hgn => absurd hgn (hrefused rfl gn)⟩
  | first hcreated hsize =>
      obtain ⟨hfirst, hhangs⟩ := h.first hnumbered hstarted hnew hcreated hsize rfl
      refine ⟨hgrown hfirst, fun gn hgn => ?_⟩
      rw [Server.findNic_eq, hbranch, if_pos ⟨rfl, rfl, rfl⟩] at hgn
      cases hgn
      exact ⟨hhangs, fun hbypass => newBranch_head_kind hbypass _⟩
  | @second s₁ gn₁ hcreated _ hswitch hvalues hedge =>
      refine absurd ⟨gn₁, ?_, hcreated.1, hswitch, hedge⟩ hsplits
      rw [erase_of_none (by rw [vniEntry_lookup, hnew]), hvalues]
  | further _ htwo _ =>
      have hone := h.alone nic.vni
      omega

end Added

/-! ## Removal -/

section Deleted

variable {nic : Nic} {s s' : Server} {id : String}

/-- Without its head and its firewall, a branch is an island. -/
theorem Secluded.cut (h : Secluded s) (howned : Owned s) {n : GraphNic} {v : UInt32}
    (hgn : s.branch nic.vni nic.id = some n) (hhangs : HangsOnVtep nic n s.wiring) :
    Island (fun b => b ∈ n.bricks ∨ (vniEntry v s).sw = some b)
      (BrickGraph.destroy n.firewall (BrickGraph.unlink n.head s.wiring)) := by
  refine ⟨?_, fun {a b} hjoined => ?_⟩
  · rintro (hmem | hsw)
    · exact (BranchKind.not_attached (howned.kinds hgn _ hmem)).1 rfl
    · exact absurd (h.spare hsw).1 (by simp [vtepBrick])
  · rw [joined_destroy, joined_unlink] at hjoined
    obtain ⟨⟨hold, -, hhead⟩, -, hfirewall⟩ := hjoined
    have hspare : (vniEntry v s).sw ≠ some a ∧ (vniEntry v s).sw ≠ some b :=
      ⟨fun hsw => ((h.spare hsw).2 hold).1 rfl, fun hsw => ((h.spare hsw).2 hold).2 rfl⟩
    rcases hhangs.edges hold with hboth | ⟨-, hgate⟩
    · simp [hboth, hspare]
    · unfold gate at hgate
      split at hgate
      · exact absurd hgate hhead
      · exact absurd hgate hfirewall

theorem Secluded.deleted (h : Secluded s) (howned : Owned s)
    (hnic : s.model.nics[id]? = some nic) (hdeleted : NicDeleted nic s s') : Secluded s' := by
  have heffect := hdeleted.effect
  cases hdeleted with
  | absent => exact h
  | @last vni n hvni hn hsize =>
      have hentry : vniEntry nic.vni s = vni := by rw [vniEntry, hvni, Option.getD_some]
      have hgn : s.branch nic.vni nic.id = some n := Server.branch_eq_some.mpr ⟨vni, hvni, hn⟩
      have hisland := h.cut (v := nic.vni) howned hgn (h.hangs hnic (Server.findNic_eq nic s ▸ hgn))
      have herased : Hidden (s.eraseVni nic.vni) := h.hidden
      have hfenced := herased.fence [.push (.updatePoll (pollWithout nic s)),
        .push (.unlink n.head), .push (.brickDestroy n.firewall)] (by simp)
      have hops : (.push (.updatePoll (pollWithout nic s)) :: .push (.unlink n.head) ::
          (destroyFirewallOps n ++ destroyOps (branchBricks n) ++ destroyOps vni.sw.toList) :
            List (Op Rpc Direct)) =
          ([.push (.updatePoll (pollWithout nic s)), .push (.unlink n.head),
            .push (.brickDestroy n.firewall)] ++ [.push .nothing, .wait]) ++
          ((branchBricks n ++ vni.sw.toList).map Direct.destroy).map .direct := by
        simp [destroyFirewallOps, destroyOps, Function.comp_def]
      refine h.undisturbed ⟨fun _ => ?_, fun {a b} hjoined => ?_, fun {v a gn'} hgn' => ?_, ?_,
        SameGates.of_nics rfl⟩
      · rw [hops, ← Server.emits_emits]
        have hcut : Island (fun b => b ∈ n.bricks ∨ (vniEntry nic.vni s).sw = some b)
            ((s.eraseVni nic.vni).emits ([.push (.updatePoll (pollWithout nic s)),
              .push (.unlink n.head), .push (.brickDestroy n.firewall)] ++
                [.push .nothing, .wait])).wiring := by
          rw [Server.wiring_emits]
          exact ⟨hisland.vtep, fun hjoined => hisland.closed hjoined⟩
        refine (hfenced.directs hcut _ fun d hd => ?_).kept
        · obtain ⟨b, hb, rfl⟩ := List.mem_map.mp hd
          rcases List.mem_append.mp hb with hb | hb
          · exact .inl (branchBricks_subset n hb)
          · exact .inr (hentry ▸ Option.mem_toList.mp hb)
      · rw [Server.wiring_emits] at hjoined
        rcases joined_sync hjoined with hold | hpush | hdirect
        · exact hold
        · simp [destroyFirewallOps, destroyOps] at hpush
        · simp [destroyFirewallOps, destroyOps] at hdirect
      · rw [heffect.branch] at hgn'
        split at hgn'
        · cases hgn'
        · exact ⟨gn', hgn', rfl, rfl, rfl⟩
      · exact (SameEntries.eraseVni nic.vni).trans (.of_vnis rfl)
  | @ofTwo vni n other sw hvni hn hsize =>
      have hone := h.alone nic.vni
      rw [vniEntry, hvni, Option.getD_some] at hone
      omega
  | @ofMany vni n hvni hn hsize =>
      have hone := h.alone nic.vni
      rw [vniEntry, hvni, Option.getD_some] at hone
      omega

end Deleted

end Butterfly
