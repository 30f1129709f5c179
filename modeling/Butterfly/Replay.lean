import Butterfly.Detachment
import Butterfly.Idempotence

/-!
# Replaying additions

NICs and groups can be added in any order, the NICs before the groups they are in
and the rules before the members they name.  What the graph looks like is a
function of the model in the end, and the model one of the set of requests.
-/

namespace Butterfly

open Std Foundation Butterfly.Graph

/-! ## Who hangs where -/

/-- A place in the graph, whatever the address of the brick there. -/
inductive Spot where
  | vtep
  | switch (v : UInt32)
  | nic (id : String)

/-- The brick in a place: for a NIC the head of its branch. -/
def Server.brickAt (s : Server) : Spot → Option Brick
  | .vtep => some vtepBrick
  | .switch v => s.vnis[v]?.bind GraphVni.sw
  | .nic id => s.model.nics[id]?.bind fun nic => (s.findNic nic).map GraphNic.head

/-- There is an edge at the vtep or at a switch, with these VNIs recorded on it. -/
def Attached (s : Server) (pg : Packetgraph) (west east : Spot) (vnis : List UInt32) : Prop :=
  ∃ e ∈ pg.graph.attachments, s.brickAt west = some e.west ∧ s.brickAt east = some e.east ∧
    e.vnis = vnis

def Shared (nics : ExtTreeMap String Nic) (v : UInt32) : Prop :=
  ∃ (id id' : String) (nic nic' : Nic), id ≠ id' ∧ nics[id]? = some nic ∧
    nics[id']? = some nic' ∧ nic.vni = v ∧ nic'.vni = v

inductive Hangs (nics : ExtTreeMap String Nic) : Spot → Spot → List UInt32 → Prop
  | single {id : String} {nic} : nics[id]? = some nic → ¬Shared nics nic.vni →
      Hangs nics .vtep (.nic id) [nic.vni]
  | uplink {v} : Shared nics v → Hangs nics .vtep (.switch v) [v]
  | port {id : String} {nic} : nics[id]? = some nic → Shared nics nic.vni →
      Hangs nics (.switch nic.vni) (.nic id) []

section Spots

variable {s : Server}

theorem Agree.entry_of_nic (h : Agree s) {id : String} {nic : Nic}
    (hnic : s.model.nics[id]? = some nic) :
    ∃ vni gn, s.vnis[nic.vni]? = some vni ∧ vni.nics[id]? = some gn ∧
      s.brickAt (.nic id) = some gn.head := by
  obtain ⟨gn, hgn⟩ := Option.isSome_iff_exists.mp (h.findNic hnic)
  obtain ⟨vni, hvni, hlookup⟩ := Server.branch_eq_some.mp (Server.findNic_eq nic s ▸ hgn)
  rw [h.nicIds hnic] at hlookup
  exact ⟨vni, gn, hvni, hlookup, by simp [Server.brickAt, hnic, hgn]⟩

theorem Agree.nic_of_entry (h : Agree s) {v : UInt32} {vni : GraphVni} {id : String}
    {gn : GraphNic} (hvni : s.vnis[v]? = some vni) (hgn : vni.nics[id]? = some gn) :
    ∃ nic, s.model.nics[id]? = some nic ∧ nic.vni = v ∧
      s.brickAt (.nic id) = some gn.head := by
  have hbranch : s.branch v id = some gn := Server.branch_eq_some.mpr ⟨vni, hvni, hgn⟩
  obtain ⟨nic, hnic, rfl⟩ := (h.branches v id).mp (by rw [hbranch]; rfl)
  refine ⟨nic, hnic, rfl, ?_⟩
  simp [Server.brickAt, hnic, Server.findNic_eq, h.nicIds hnic, hbranch]

theorem Agree.shared_iff (h : Agree s) {v : UInt32} {vni : GraphVni}
    (hvni : s.vnis[v]? = some vni) : Shared s.model.nics v ↔ 2 ≤ vni.nics.size := by
  have hentry : ∀ id : String, (∃ gn, vni.nics[id]? = some gn) ↔
      ∃ nic, s.model.nics[id]? = some nic ∧ nic.vni = v := by
    intro id
    rw [← h.branches v id, Server.branch, hvni, Option.bind_some, Option.isSome_iff_exists]
  rw [two_le_size_iff]
  constructor
  · rintro ⟨id, id', nic, nic', hne, hnic, hnic', hv, hv'⟩
    exact ⟨id, id', hne, (hentry id).mpr ⟨nic, hnic, hv⟩, (hentry id').mpr ⟨nic', hnic', hv'⟩⟩
  · rintro ⟨id, id', hne, hid, hid'⟩
    obtain ⟨nic, hnic, hv⟩ := (hentry id).mp hid
    obtain ⟨nic', hnic', hv'⟩ := (hentry id').mp hid'
    exact ⟨id, id', nic, nic', hne, hnic, hnic', hv, hv'⟩

theorem Wired.spot_unique (h : Wired s) (hagree : Agree s) {x y : Spot} {b : Brick}
    (hx : s.brickAt x = some b) (hy : s.brickAt y = some b) : x = y := by
  -- Every place but the vtep has a part of the graph of its own.
  have hpart : ∀ {z : Spot}, s.brickAt z = some b → z = .vtep ∧ b.kind = .vtep ∨
      b.kind ≠ .vtep ∧ ∃ p, s.serial? p = some b.serial ∧
        ((∃ v, z = .switch v ∧ p = .switch v) ∨ ∃ v id, z = .nic id ∧ p = .nic v id) := by
    intro z hz
    cases z with
    | vtep =>
        cases hz
        exact .inl ⟨rfl, rfl⟩
    | switch v =>
        obtain ⟨vni, hvni, hsw⟩ := Option.bind_eq_some_iff.mp hz
        refine .inr ⟨?_, .switch v, serial?_switch hvni hsw, .inl ⟨v, rfl, rfl⟩⟩
        rw [(h.switches hvni hsw).1]
        decide
    | nic id =>
        obtain ⟨nic, hnic, -⟩ := Option.bind_eq_some_iff.mp hz
        obtain ⟨vni, gn, hvni, hgn, hhead⟩ := hagree.entry_of_nic hnic
        obtain rfl : gn.head = b := Option.some.inj (hhead.symm.trans hz)
        have hpristine := (h.pristine (Server.branch_eq_some.mpr ⟨vni, hvni, hgn⟩)).head
        refine .inr ⟨(BranchKind.not_attached hpristine.1).1, .nic nic.vni id, ?_,
          .inr ⟨nic.vni, id, rfl, rfl⟩⟩
        rw [serial?_nic hvni hgn, hpristine.2]
  rcases hpart hx with ⟨rfl, hkind⟩ | ⟨hkind, p, hp, hplace⟩
  · rcases hpart hy with ⟨rfl, -⟩ | ⟨hkind', -⟩
    · rfl
    · exact absurd hkind hkind'
  · rcases hpart hy with ⟨rfl, hkind'⟩ | ⟨-, p', hp', hplace'⟩
    · exact absurd hkind' hkind
    · obtain rfl := h.apart hp hp'
      rcases hplace with ⟨v, rfl, rfl⟩ | ⟨v, id, rfl, rfl⟩
      · rcases hplace' with ⟨v', rfl, heq⟩ | ⟨v', id', -, heq⟩
        · cases heq
          rfl
        · cases heq
      · rcases hplace' with ⟨v', -, heq⟩ | ⟨v', id', rfl, heq⟩
        · cases heq
        · cases heq
          rfl

theorem Wired.attached_iff (h : Wired s) (hagree : Agree s) {pg : Packetgraph}
    (hdrained : Drained s pg) {west east : Spot} {vnis : List UInt32} :
    Attached s pg west east vnis ↔ Hangs s.model.nics west east vnis := by
  unfold Attached
  rw [hdrained.graph h.paced]
  constructor
  · rintro ⟨e, he, hwest, heast, rfl⟩
    obtain ⟨v, vni, hvni, hentry⟩ := (h.edges e).mp he
    have hshared := hagree.shared_iff hvni
    cases hentry with
    | single hone hgn =>
        obtain ⟨nic, hnic, rfl, hspot⟩ := hagree.nic_of_entry hvni hgn
        obtain rfl : west = .vtep := h.spot_unique hagree hwest rfl
        obtain rfl := h.spot_unique hagree heast hspot
        exact .single hnic (by rw [hshared]; omega)
    | uplink htwo hsw =>
        obtain rfl : west = .vtep := h.spot_unique hagree hwest rfl
        obtain rfl : east = .switch v := h.spot_unique hagree heast (by
          simp [Server.brickAt, hvni, hsw])
        exact .uplink (hshared.mpr htwo)
    | port htwo hsw hgn =>
        obtain ⟨nic, hnic, rfl, hspot⟩ := hagree.nic_of_entry hvni hgn
        obtain rfl : west = .switch nic.vni := h.spot_unique hagree hwest (by
          simp [Server.brickAt, hvni, hsw])
        obtain rfl := h.spot_unique hagree heast hspot
        exact .port hnic (hshared.mpr htwo)
  · intro hhangs
    cases hhangs with
    | @single id nic hnic hnot =>
        obtain ⟨vni, gn, hvni, hgn, hspot⟩ := hagree.entry_of_nic hnic
        rw [hagree.shared_iff hvni] at hnot
        have hpos := size_pos_of_lookup hgn
        refine ⟨_, (h.edges _).mpr ⟨nic.vni, vni, hvni, .single (by omega) hgn⟩, rfl, hspot, rfl⟩
    | @uplink v hshared =>
        obtain ⟨_, _, nic, _, _, hnic, _, rfl, _⟩ := id hshared
        obtain ⟨vni, -, hvni, -⟩ := hagree.entry_of_nic hnic
        have htwo := (hagree.shared_iff hvni).mp hshared
        obtain ⟨sw, hsw⟩ := Option.isSome_iff_exists.mp (h.ok.switched hvni htwo)
        exact ⟨_, (h.edges _).mpr ⟨nic.vni, vni, hvni, .uplink htwo hsw⟩, rfl, by
          simp [Server.brickAt, hvni, hsw], rfl⟩
    | @port id nic hnic hshared =>
        obtain ⟨vni, gn, hvni, hgn, hspot⟩ := hagree.entry_of_nic hnic
        have htwo := (hagree.shared_iff hvni).mp hshared
        obtain ⟨sw, hsw⟩ := Option.isSome_iff_exists.mp (h.ok.switched hvni htwo)
        exact ⟨_, (h.edges _).mpr ⟨nic.vni, vni, hvni, .port htwo hsw hgn⟩, by
          simp [Server.brickAt, hvni, hsw], hspot, rfl⟩

end Spots

/-! ## What stays the same under additions -/

theorem Server.updateNic_of_fixed {s : Server} {nic : Nic} {gn : GraphNic}
    {f : GraphNic → GraphNic} (hgn : s.findNic nic = some gn) (hf : f gn = gn) :
    s.updateNic nic f = s := by
  obtain ⟨vni, hvni, hlookup⟩ := Server.branch_eq_some.mp (Server.findNic_eq nic s ▸ hgn)
  have hnics : vni.nics.modify nic.id f = vni.nics := by
    apply ExtTreeMap.ext_getElem?
    intro a
    rw [lookup_modify]
    split
    · next ha => rw [← ha, hlookup, Option.map_some, hf]
    · rfl
  have hvnis : s.vnis.modify nic.vni (fun vni => { vni with nics := vni.nics.modify nic.id f }) =
      s.vnis := by
    apply ExtTreeMap.ext_getElem?
    intro a
    rw [lookup_modify]
    split
    · next ha => rw [← ha, hvni, Option.map_some, hnics]
    · rfl
  rw [Server.updateNic, Server.updateVni, hvnis]

theorem Wired.emits {s : Server} (h : Wired s) {ops : List (Op Rpc Direct)}
    (hops : ∀ op ∈ ops, ∃ b, FirewallOp b op) : Wired (s.emits ops) := by
  have hwiring : (s.emits ops).wiring = s.wiring := by
    rw [Server.wiring_emits, sync_firewallOps hops]
  have hpaced : Paced (s.emits ops) := by
    refine h.paced.emits ops fun d hd => ?_
    obtain ⟨b, hb⟩ := hops _ hd
    exact offGraph_of_firewallOp hb
  refine ⟨⟨h.ok.started, h.ok.keyed, h.ok.ids, h.ok.switched, h.ok.bricks, h.ok.distinct⟩,
    hpaced, h.pristine, h.switches, h.nonempty, h.positive, h.bounded, h.apart, ?_, ?_⟩
  · rw [hwiring]
    exact h.nodup
  · rw [hwiring]
    exact h.edges

/-- What holds as long as NICs and groups are only added. -/
structure Steady (s : Server) : Prop where
  agree : Agree s
  wired : Wired s
  /-- The default filter is never lifted. -/
  marked : ∀ (id : String) (nic : Nic) (gn : GraphNic), s.model.nics[id]? = some nic →
    nic.bypassFiltering = false → s.findNic nic = some gn → gn.defaultOutboundRule = true
  idle : ∀ (id : String) (nic : Nic), s.model.nics[id]? = some nic →
    nic.bypassFiltering = true → viewOf nic s = some FwView.empty
  fresh : ∀ op ∈ s.ops, ∀ b, FirewallOp b op → b.serial < s.nextSerial

namespace Steady

variable {P : Platform} {ambient : Ambient} {s s' : Server}

theorem modifyGroups (h : Steady s) (f : Model → Model) (hagree : Agree (s.modifyModel f))
    (hnics : (f s.model).nics = s.model.nics) : Steady (s.modifyModel f) := by
  refine ⟨hagree, h.wired.modifyModel f, fun id nic gn hnic => ?_, fun id nic hnic => ?_, h.fresh⟩
  · rw [Server.modifyModel_model, hnics] at hnic
    exact h.marked id nic gn hnic
  · rw [Server.modifyModel_model, hnics] at hnic
    exact h.idle id nic hnic

theorem fwUpdate (h : Steady s) (ok : PgCall → Bool) {nic : Nic}
    (hnic : nic ∈ mapValues s.model.nics) : Steady (Graph.fwUpdate ok nic s) := by
  obtain ⟨id, hnic⟩ := mem_mapValues.mp hnic
  rcases fwUpdate_cases ok nic s with heq | ⟨gn, hstarted, hfilter, hgn⟩
  · rw [heq]
    exact h
  have hfixed : s.updateNic nic (setDefaultOutboundRule true) = s := by
    refine Server.updateNic_of_fixed hgn ?_
    have hmark := h.marked id nic gn hnic hfilter hgn
    rw [setDefaultOutboundRule, ← hmark]
  have hown := fwUpdate_tunedOwn ok nic s
  have hagree := h.agree.tuned hown
  rw [fwUpdate_eq hstarted hfilter hgn, hfixed] at hagree hown ⊢
  refine ⟨hagree, h.wired.emits fun op hop => ⟨_, fwUpdateOps_firewallOp hop⟩, h.marked, ?_, ?_⟩
  · intro id' other hother hbypass
    rw [viewOf_tuned hown (h.agree.off_other hnic hother ?_)]
    · exact h.idle id' other hother hbypass
    · rintro rfl
      rw [Server.emits_model, hnic] at hother
      cases hother
      rw [hfilter] at hbypass
      cases hbypass
  · intro op hop b hb
    rcases List.mem_append.mp hop with hop | hop
    · exact h.fresh op hop b hb
    · obtain ⟨n, hn, hfw, -⟩ := h.agree.graph.bricks (Server.findNic_eq nic s ▸ hgn)
      rw [hb.unique (fwUpdateOps_firewallOp hop), hfw]
      exact hn

theorem sgAdd (h : Steady s) (sg : Sg) : Steady (Api.actionSgAdd ambient sg s) := by
  have hset : Steady (Api.setSg sg.id sg s) :=
    h.modifyGroups _ (h.agree.setSg sg rfl) rfl
  have hrefreshed : Steady (Api.sgUpdateRuleMembers ambient sg
      (Api.sgUpdate ambient sg (Api.setSg sg.id sg s))) := by
    have hnics : ∀ {t : Server}, t.model.nics = s.model.nics → ∀ nic ∈ mapValues s.model.nics,
        nic ∈ mapValues t.model.nics := by
      intro t ht nic hnic
      rwa [ht]
    have hfirst : Steady (Api.sgUpdate ambient sg (Api.setSg sg.id sg s)) ∧
        (Api.sgUpdate ambient sg (Api.setSg sg.id sg s)).model.nics = s.model.nics := by
      refine Api.forGroup_invariant (I := fun t => Steady t ∧ t.model.nics = s.model.nics)
        (fun nic hnic _ t ht => ?_) ⟨hset, rfl⟩
      refine ⟨ht.1.fwUpdate ambient.ok (hnics ht.2 nic hnic), ?_⟩
      rw [(fwUpdate_tuned ambient.ok nic t).model, ht.2]
    refine (Api.sgUpdateRuleMembers_invariant ambient
      (I := fun t => Steady t ∧ t.model.nics = s.model.nics)
      (fun nic hnic _ _ _ _ t ht => ?_) hfirst).1
    rw [hfirst.2] at hnic
    refine ⟨ht.1.fwUpdate ambient.ok (hnics ht.2 nic hnic), ?_⟩
    rw [(fwUpdate_tuned ambient.ok nic t).model, ht.2]
  unfold Api.actionSgAdd
  split
  · split
    · exact h
    · exact hrefreshed
  · exact hrefreshed

theorem nicAdd (h : Steady s) {nic : Nic} {added : Option Nic}
    (hok : ∀ call, ambient.ok call = true) (hnew : s.model.nics[nic.id]? = none)
    (hadd : Api.actionNicAdd P ambient nic s = some (added, s')) : Steady s' := by
  have hagree := (h.agree.actionNicAdd hadd).1
  obtain ⟨-, hothers, -⟩ := actionNicAdd_views h.agree hadd
  simp only [Api.actionNicAdd, Api.removeNic, hnew, Option.bind_eq_bind, Option.bind_some] at hadd
  obtain ⟨⟨result, s₁⟩, hs₁, hadd⟩ := Option.bind_eq_some_iff.mp hadd
  have hbranch := h.agree.branch_eq_none hnew nic.vni
  have hentry : (vniEntry nic.vni s).nics[nic.id]? = none := by
    rw [vniEntry_lookup, hbranch]
  rcases nicAdd_cases h.agree.graph.started hs₁ with ⟨rfl, hadded⟩ | ⟨rfl, hadded⟩
  · exact absurd (hadded.accepted hok).1 (by simp)
  cases hadd
  have heffect := hadded.effect h.agree.graph.started hentry
  obtain ⟨ops, hoff, hops⟩ := hadded.log h.agree.graph.started hentry
  have hlookup : ∀ id : String, (s₁.modifyModel fun m => { m with
      nics := m.nics.insertIfNew nic.id { nic with path := nicPath P nic } }).model.nics[id]? =
        if nic.id = id then some { nic with path := nicPath P nic } else s.model.nics[id]? := by
    intro id
    simp only [Server.modifyModel_model, heffect.model, lookup_insertIfNew, hnew, Option.getD_none]
  have hown : s₁.findNic nic = some (filled nic (newBranch nic s.nextSerial)) := by
    rw [Server.findNic_eq, heffect.branch hbranch, if_pos ⟨rfl, rfl, rfl⟩]
  refine ⟨hagree, (h.wired.added hbranch hadded).modifyModel _, ?_, ?_, ?_⟩
  · intro id other gn hother hfilter hgn
    rw [hlookup] at hother
    split at hother
    · cases hother
      obtain rfl := Option.some.inj (hown.symm.trans hgn)
      have hfilter' : nic.bypassFiltering = false := hfilter
      simp [filled, hfilter', setDefaultOutboundRule]
    · next hne =>
        rw [Server.modifyModel_findNic, Server.findNic_eq, heffect.branch hbranch, if_neg,
          ← Server.findNic_eq] at hgn
        · exact h.marked id other gn hother hfilter hgn
        · rintro ⟨-, -, heq⟩
          exact hne (heq.trans (h.agree.nicIds hother))
  · intro id other hother hbypass
    by_cases hid : id = nic.id
    · subst hid
      rw [hlookup, if_pos rfl] at hother
      cases hother
      have hbypass' : nic.bypassFiltering = true := hbypass
      have hview : viewOf nic s₁ = some FwView.empty := by
        rw [viewOf, hown, Option.map_some, hops, addedRules, if_neg (by simp [hbypass'])]
        have hfw : (filled nic (newBranch nic s.nextSerial)).firewall =
            ⟨.firewall, s.nextSerial⟩ := by
          simp [filled, hbypass', newBranch]
        rw [hfw, List.append_nil, fwView_append, FwView.after_of_off fun op hop => hoff op hop _,
          fwView, FwView.after_of_off]
        -- The firewall is newer than anything the log speaks of.
        intro op hop hb
        exact absurd (h.fresh op hop _ hb) (Nat.lt_irrefl _)
      exact hview
    · obtain ⟨hold, hview⟩ := hothers hid hother
      rw [hview]
      exact h.idle id other hold hbypass
  · intro op hop b hb
    have hlt : s.nextSerial < s₁.nextSerial := heffect.serial
    have hop' : op ∈ s₁.ops := hop
    rw [hops, List.mem_append, List.mem_append] at hop'
    rcases hop' with hop | hop | hop
    · exact Nat.lt_trans (h.fresh op hop b hb) hlt
    · exact absurd hb (hoff op hop b)
    · unfold addedRules at hop
      split at hop
      · rw [hb.unique (fwUpdateOps_firewallOp hop)]
        exact hlt
      · cases hop

end Steady

/-! ## Requests that add -/

section Adds

variable {P : Platform} {ambient : Ambient} {s s' : Server}

def Adds (rq : MessageV0.Request) : Prop :=
  (∃ n, Api0.command rq = some (.nicAdd n)) ∨ ∃ m, Api0.command rq = some (.sgAdd m)

def nicId? (rq : MessageV0.Request) : Option String :=
  match Api0.command rq with
  | some (.nicAdd n) => some n.id
  | _ => none

def sgId? (rq : MessageV0.Request) : Option String :=
  match Api0.command rq with
  | some (.sgAdd m) => some m.id
  | _ => none

def BringsNic (P : Platform) (config : AppConfig) (pid : Nat) (rq : MessageV0.Request)
    (id : String) (nic : Nic) : Prop :=
  ∃ n new, Api0.command rq = some (.nicAdd n) ∧ Api0.validateNic P n = true ∧
    Api0.convertNic P config.packetTrace pid n = .ok new ∧ new.id = id ∧
      nic = { new with path := nicPath P new }

def BringsSg (P : Platform) (rq : MessageV0.Request) (id : String) (sg : Sg) : Prop :=
  ∃ m, Api0.command rq = some (.sgAdd m) ∧ Api0.validateSg P m = true ∧
    Api0.convertSg P m = .ok sg ∧ sg.id = id

structure Gathered (P : Platform) (config : AppConfig) (pid : Nat)
    (rqs : List MessageV0.Request) (m m' : Model) : Prop where
  nics : ∀ (id : String) (nic : Nic), m'.nics[id]? = some nic ↔
    m.nics[id]? = some nic ∨ ∃ rq ∈ rqs, BringsNic P config pid rq id nic
  groups : ∀ (id : String) (sg : Sg), m'.securityGroups[id]? = some sg ↔
    m.securityGroups[id]? = some sg ∨ ∃ rq ∈ rqs, BringsSg P rq id sg

theorem Gathered.cons {config : AppConfig} {pid : Nat} {rq : MessageV0.Request}
    {rqs : List MessageV0.Request} {m m₁ m' : Model}
    (hone : Gathered P config pid [rq] m m₁) (hrest : Gathered P config pid rqs m₁ m') :
    Gathered P config pid (rq :: rqs) m m' := by
  constructor
  · intro id nic
    rw [hrest.nics, hone.nics]
    simp [or_assoc]
  · intro id sg
    rw [hrest.groups, hone.groups]
    simp [or_assoc]

theorem Gathered.unique {config : AppConfig} {pid : Nat} {rqs rqs' : List MessageV0.Request}
    {m m₁ m₂ : Model} (h₁ : Gathered P config pid rqs m m₁)
    (h₂ : Gathered P config pid rqs' m m₂) (hperm : rqs.Perm rqs') : m₂ = m₁ := by
  refine Model.eq_of_maps (ExtTreeMap.ext_getElem? fun id => ?_)
    (ExtTreeMap.ext_getElem? fun id => ?_)
  · refine Option.ext fun sg => ?_
    rw [h₁.groups, h₂.groups]
    simp only [hperm.mem_iff]
  · refine Option.ext fun nic => ?_
    rw [h₁.nics, h₂.nics]
    simp only [hperm.mem_iff]

def AllRebuilt (s : Server) : Prop :=
  ∀ (id : String) (nic : Nic), s.model.nics[id]? = some nic → nic.bypassFiltering = false →
    Rebuilt nic s

theorem AllRebuilt.settles (h : AllRebuilt s) (hs : Settles s s') : AllRebuilt s' := by
  intro id nic hnic hfilter
  rcases hs.nics hnic hfilter with hrebuilt | hkept
  · exact hrebuilt
  · obtain ⟨old, hold, hview, hsame⟩ := hkept.old
    have hbuilt := h id old hold (hsame.bypass.symm.trans hfilter)
    have htexts : ruleTexts s'.model.securityGroups nic =
        ruleTexts s.model.securityGroups old := by
      rw [hkept.texts, ruleTexts, ruleTexts, hsame.groups]
    rw [Rebuilt, hview, hbuilt, builtView, builtView, inRules_eq, inRules_eq, htexts,
      hsame.outRules]

structure Growing (s : Server) : Prop where
  steady : Steady s
  rebuilt : AllRebuilt s
  clean : s.api0Error = ""

structure Grown (P : Platform) (rq : MessageV0.Request) (s s' : Server) : Prop where
  growing : Growing s'
  config : s'.config = s.config
  pid : s'.pid = s.pid
  gathered : Gathered P s.config s.pid [rq] s.model s'.model

theorem Grown.refused (h : Growing s) {rq : MessageV0.Request}
    (hnic : ∀ id nic, ¬BringsNic P s.config s.pid rq id nic)
    (hsg : ∀ id sg, ¬BringsSg P rq id sg) : Grown P rq s s :=
  ⟨h, rfl, rfl, fun id nic => by simp [hnic], fun id sg => by simp [hsg]⟩

theorem grown_nicAdd (hok : ∀ call, ambient.ok call = true) (h : Growing s)
    {rq : MessageV0.Request} {n : MessageV0.Nic} (hc : Api0.command rq = some (.nicAdd n))
    (hnew : s.model.nics[n.id]? = none) {res : MessageV0.Response}
    (hadd : Api0.nicAdd P ambient n s = some (res, s')) : Grown P rq s s' := by
  have hsg : ∀ id sg, ¬BringsSg P rq id sg := by
    rintro id sg ⟨m, hm, -⟩
    rw [hc] at hm
    cases hm
  unfold Api0.nicAdd at hadd
  split at hadd
  · next hinvalid =>
      obtain rfl : s' = s := by
        cases hadd
        exact buildNokText_clean "Bad NIC format" h.clean
      refine .refused h ?_ hsg
      rintro id nic ⟨n', new, hn', hvalid, -⟩
      rw [hc] at hn'
      cases hn'
      simp [hvalid] at hinvalid
  · next hvalid =>
      split at hadd
      · next error herror =>
          obtain rfl : s' = s := by
            cases hadd
            exact internalError_clean error h.clean
          refine .refused h ?_ hsg
          rintro id nic ⟨n', new, hn', -, hnew, -⟩
          rw [hc] at hn'
          cases hn'
          rw [herror] at hnew
          cases hnew
      · next new hconvert =>
          obtain ⟨⟨added, t⟩, hact, hres⟩ := Option.bind_eq_some_iff.mp hadd
          obtain ⟨rfl, -⟩ := actionNicAdd_accepted hok h.steady.agree hact
          cases hres
          have hid := (convertNic_fields hconvert).1
          rw [← hid] at hnew
          have hframe := (h.steady.agree.actionNicAdd hact).2
          have hstored := stored_nicAdd h.steady.agree hact
          refine ⟨⟨h.steady.nicAdd hok hnew hact,
            h.rebuilt.settles (actionNicAdd_settles (fun _ _ _ => hok _) h.steady.agree hact),
            hframe.api0Error.trans h.clean⟩, hframe.config, hframe.pid, fun id nic => ?_,
            fun id sg => ?_⟩
          · have hbrings : BringsNic P s.config s.pid rq id nic ↔
                new.id = id ∧ nic = { new with path := nicPath P new } := by
              constructor
              · rintro ⟨n', new', hn', -, hnew', rfl, rfl⟩
                rw [hc] at hn'
                cases hn'
                rw [hconvert] at hnew'
                cases hnew'
                exact ⟨rfl, rfl⟩
              · rintro ⟨rfl, rfl⟩
                exact ⟨n, new, hc, by simpa using hvalid, hconvert, rfl, rfl⟩
            rw [hstored.nics]
            simp only [nicsAfter, Option.isSome_some, if_true, lookup_insertIfNew, lookup_erase,
              Option.getD_none, List.mem_singleton, exists_eq_left, hbrings]
            by_cases heq : new.id = id
            · subst heq
              simp [hnew, eq_comm]
            · simp [heq]
          · rw [hstored.groups]
            simp [groupsAfter, hsg]

theorem grown_sgAdd (hok : ∀ call, ambient.ok call = true) (h : Growing s)
    {rq : MessageV0.Request} {m : MessageV0.Sg} (hc : Api0.command rq = some (.sgAdd m))
    (hnew : s.model.securityGroups[m.id]? = none) {res : MessageV0.Response}
    (hadd : Api0.sgAdd P ambient m s = (res, s')) : Grown P rq s s' := by
  have hnic : ∀ id nic, ¬BringsNic P s.config s.pid rq id nic := by
    rintro id nic ⟨n, -, hn, -⟩
    rw [hc] at hn
    cases hn
  unfold Api0.sgAdd at hadd
  split at hadd
  · next hinvalid =>
      obtain rfl : s' = s := by
        cases hadd
        exact buildNokText_clean "Bad Security Group format" h.clean
      refine .refused h hnic ?_
      rintro id sg ⟨m', hm', hvalid, -⟩
      rw [hc] at hm'
      cases hm'
      simp [hvalid] at hinvalid
  · next hvalid =>
      split at hadd
      · next error herror =>
          obtain rfl : s' = s := by
            cases hadd
            exact internalError_clean error h.clean
          refine .refused h hnic ?_
          rintro id sg ⟨m', hm', -, hsg, -⟩
          rw [hc] at hm'
          cases hm'
          rw [herror] at hsg
          cases hsg
      · next sg hconvert =>
          cases hadd
          obtain ⟨hid, -⟩ := convertSg_cases hconvert
          rw [← hid] at hnew
          have hperform : perform P ambient (.sgAdd sg) s =
            some (true, Api.actionSgAdd ambient sg s) := rfl
          have hframe := (h.steady.agree.perform hperform).2
          have hstored : Stored P (.sgAdd sg) true s.model
            (Api.actionSgAdd ambient sg s).model := stored_sgAdd sg s
          refine ⟨⟨h.steady.sgAdd sg,
            h.rebuilt.settles (actionSgAdd_settles (fun _ _ _ => hok _) h.steady.agree sg),
            hframe.api0Error.trans h.clean⟩, hframe.config, hframe.pid, fun id nic => ?_,
            fun id sg' => ?_⟩
          · rw [hstored.nics]
            simp [nicsAfter, hnic]
          · have hbrings : BringsSg P rq id sg' ↔ sg.id = id ∧ sg' = sg := by
              constructor
              · rintro ⟨m', hm', -, hsg', rfl⟩
                rw [hc] at hm'
                cases hm'
                rw [hconvert] at hsg'
                cases hsg'
                exact ⟨rfl, rfl⟩
              · rintro ⟨rfl, rfl⟩
                exact ⟨m, hc, by simpa using hvalid, hconvert, rfl⟩
            rw [hstored.groups]
            simp only [groupsAfter, hnew, lookup_insert, List.mem_singleton, exists_eq_left,
              hbrings]
            by_cases heq : sg.id = id
            · subst heq
              simp [hnew, eq_comm]
            · simp [heq]

end Adds

/-! ## Runs -/

section Runs

variable {P : Platform} {ambient ambient' : Ambient} {s s' : Server}

structure Distinct (rqs : List MessageV0.Request) (m : Model) : Prop where
  nics : (rqs.filterMap nicId?).Nodup
  groups : (rqs.filterMap sgId?).Nodup
  newNics : ∀ id ∈ rqs.filterMap nicId?, m.nics[id]? = none
  newGroups : ∀ id ∈ rqs.filterMap sgId?, m.securityGroups[id]? = none

theorem BringsNic.id? {config : AppConfig} {pid : Nat} {rq : MessageV0.Request} {id : String}
    {nic : Nic} (h : BringsNic P config pid rq id nic) : nicId? rq = some id := by
  obtain ⟨n, new, hc, -, hconvert, rfl, -⟩ := h
  rw [nicId?, hc, (convertNic_fields hconvert).1]

theorem BringsSg.id? {rq : MessageV0.Request} {id : String} {sg : Sg}
    (h : BringsSg P rq id sg) : sgId? rq = some id := by
  obtain ⟨m, hc, -, hconvert, rfl⟩ := h
  rw [sgId?, hc, (convertSg_cases hconvert).1]

theorem Distinct.tail {config : AppConfig} {pid : Nat} {rq : MessageV0.Request}
    {rqs : List MessageV0.Request} {m m₁ : Model} (h : Distinct (rq :: rqs) m)
    (hone : Gathered P config pid [rq] m m₁) : Distinct rqs m₁ := by
  have hnics := h.nics
  have hgroups := h.groups
  rw [List.filterMap_cons] at hnics hgroups
  refine ⟨?_, ?_, fun id hid => ?_, fun id hid => ?_⟩
  · split at hnics
    · exact hnics
    · exact hnics.of_cons
  · split at hgroups
    · exact hgroups
    · exact hgroups.of_cons
  · rw [Option.eq_none_iff_forall_ne_some]
    intro nic hnic
    rcases (hone.nics id nic).mp hnic with hold | ⟨rq', hrq', hbrings⟩
    · rw [h.newNics id (List.mem_filterMap.mpr ?_)] at hold
      · cases hold
      · obtain ⟨rq', hrq', heq⟩ := List.mem_filterMap.mp hid
        exact ⟨rq', List.mem_cons_of_mem _ hrq', heq⟩
    · obtain rfl := List.mem_singleton.mp hrq'
      rw [hbrings.id?] at hnics
      exact (List.nodup_cons.mp hnics).1 hid
  · rw [Option.eq_none_iff_forall_ne_some]
    intro sg hsg
    rcases (hone.groups id sg).mp hsg with hold | ⟨rq', hrq', hbrings⟩
    · rw [h.newGroups id (List.mem_filterMap.mpr ?_)] at hold
      · cases hold
      · obtain ⟨rq', hrq', heq⟩ := List.mem_filterMap.mp hid
        exact ⟨rq', List.mem_cons_of_mem _ hrq', heq⟩
    · obtain rfl := List.mem_singleton.mp hrq'
      rw [hbrings.id?] at hgroups
      exact (List.nodup_cons.mp hgroups).1 hid

theorem grown_respond (hok : ∀ call, ambient.ok call = true) (h : Growing s)
    {rq : MessageV0.Request} {rqs : List MessageV0.Request} (hadds : Adds rq)
    (hdistinct : Distinct (rq :: rqs) s.model) {res : MessageV0.Response}
    (hrespond : Api0.respond P ambient (some rq) s = some (res, s')) : Grown P rq s s' := by
  rcases hadds with ⟨n, hc⟩ | ⟨m, hc⟩
  · simp only [Api0.respond, hc] at hrespond
    refine grown_nicAdd hok h hc (hdistinct.newNics n.id ?_) hrespond
    exact List.mem_filterMap.mpr ⟨rq, List.mem_cons_self, by rw [nicId?, hc]⟩
  · simp only [Api0.respond, hc] at hrespond
    refine grown_sgAdd hok h hc (hdistinct.newGroups m.id ?_) (Option.some.inj hrespond)
    exact List.mem_filterMap.mpr ⟨rq, List.mem_cons_self, by rw [sgId?, hc]⟩

def Harmless (P : Platform) (config : AppConfig) (pid : Nat) (rq : MessageV0.Request) : Prop :=
  ∀ n new, Api0.command rq = some (.nicAdd n) → Api0.validateNic P n = true →
    Api0.convertNic P config.packetTrace pid n = .ok new →
      ¬(new.type = .bench ∧ new.ipList = [])

theorem respond_defined_iff (hok : ∀ call, ambient.ok call = true) (h : Agree s)
    {rq : MessageV0.Request} (hadds : Adds rq) :
    (∃ r, Api0.respond P ambient (some rq) s = some r) ↔ Harmless P s.config s.pid rq := by
  rcases hadds with ⟨n, hc⟩ | ⟨m, hc⟩
  · simp only [Api0.respond, hc]
    constructor
    · rintro ⟨r, hr⟩ n' new hn' hvalid hconvert
      rw [hc] at hn'
      cases hn'
      simp only [Api0.handle, Api0.nicAdd, hvalid, Bool.not_true, Bool.false_eq_true, if_false,
        hconvert] at hr
      obtain ⟨⟨added, t⟩, hact, -⟩ := Option.bind_eq_some_iff.mp hr
      exact (actionNicAdd_accepted hok h hact).2
    · intro hharmless
      simp only [Api0.handle, Api0.nicAdd]
      split
      · exact ⟨_, rfl⟩
      · next hvalid =>
          split
          · exact ⟨_, rfl⟩
          · next new hconvert =>
              obtain ⟨t, ht⟩ := actionNicAdd_accepts P hok h
                (hharmless n new hc (by simpa using hvalid) hconvert)
              rw [ht]
              exact ⟨_, rfl⟩
  · simp only [Api0.respond, hc]
    refine ⟨fun _ n new hn => ?_, fun _ => ⟨_, rfl⟩⟩
    rw [hc] at hn
    cases hn

theorem serve_adds (hok : ∀ call, ambient.ok call = true) {rqs : List MessageV0.Request}
    (h : Growing s) (hadds : ∀ rq ∈ rqs, Adds rq) (hdistinct : Distinct rqs s.model) :
    ((∃ s', serve P ambient rqs s = some s') ↔ ∀ rq ∈ rqs, Harmless P s.config s.pid rq) ∧
    ∀ s', serve P ambient rqs s = some s' →
      Growing s' ∧ Gathered P s.config s.pid rqs s.model s'.model := by
  induction rqs generalizing s with
  | nil =>
      refine ⟨by simp [serve], fun s' hs' => ?_⟩
      cases hs'
      exact ⟨h, fun id nic => by simp, fun id sg => by simp⟩
  | cons rq rqs ih =>
      have hrq := hadds rq List.mem_cons_self
      have hrest : ∀ rq ∈ rqs, Adds rq := fun rq hrq => hadds rq (List.mem_cons_of_mem _ hrq)
      have hdefined := respond_defined_iff (P := P) hok h.steady.agree hrq
      have hstep : ∀ {res s₁}, Api0.respond P ambient (some rq) s = some (res, s₁) →
          Grown P rq s s₁ := fun hrespond => grown_respond hok h hrq hdistinct hrespond
      refine ⟨?_, fun s' hs' => ?_⟩
      · rw [List.forall_mem_cons, ← hdefined]
        constructor
        · rintro ⟨s', hs'⟩
          obtain ⟨⟨res, s₁⟩, hrespond, hserve⟩ := Option.bind_eq_some_iff.mp hs'
          obtain ⟨hgrowing, hconfig, hpid, hone⟩ := hstep hrespond
          refine ⟨⟨_, hrespond⟩, ?_⟩
          rw [← hconfig, ← hpid]
          exact (ih hgrowing hrest (hdistinct.tail hone)).1.mp ⟨s', hserve⟩
        · rintro ⟨⟨⟨res, s₁⟩, hrespond⟩, hharmless⟩
          obtain ⟨hgrowing, hconfig, hpid, hone⟩ := hstep hrespond
          rw [← hconfig, ← hpid] at hharmless
          obtain ⟨s', hs'⟩ := (ih hgrowing hrest (hdistinct.tail hone)).1.mpr hharmless
          refine ⟨s', ?_⟩
          simp only [serve, hrespond, Option.bind_eq_bind, Option.bind_some, hs']
      · obtain ⟨⟨res, s₁⟩, hrespond, hserve⟩ := Option.bind_eq_some_iff.mp hs'
        obtain ⟨hgrowing, hconfig, hpid, hone⟩ := hstep hrespond
        obtain ⟨hgrowing', hgathered⟩ := (ih hgrowing hrest (hdistinct.tail hone)).2 s' hserve
        rw [hconfig, hpid] at hgathered
        exact ⟨hgrowing', hone.cons hgathered⟩

theorem growing_start (config : AppConfig) (pid : Nat) (startDate : UInt64) :
    Growing (Server.start config pid startDate) := by
  refine ⟨⟨agree_start config pid startDate, wired_start config pid startDate, ?_, ?_, ?_⟩, ?_, rfl⟩
  · intro id nic gn hnic
    simp at hnic
  · intro id nic hnic
    simp at hnic
  · intro op hop b hb
    have hops : (Server.start config pid startDate).ops = [.push .vhostStart] := rfl
    rw [hops] at hop
    rw [List.mem_singleton.mp hop] at hb
    cases hb
  · intro id nic hnic
    simp at hnic

theorem Growing.loaded (h : Growing s) {pg : Packetgraph} (hdrained : Drained s pg)
    {id : String} {nic : Nic} (hnic : s.model.nics[id]? = some nic) :
    ∃ gn, s.findNic nic = some gn ∧ pg.firewalls.loaded gn.firewall =
      if nic.bypassFiltering then fun _ => []
      else builtRules (inRules s.model.securityGroups nic) (outRules nic) := by
  cases hbypass : nic.bypassFiltering with
  | true =>
      obtain ⟨gn, hgn, hview⟩ := Option.map_eq_some_iff.mp (h.steady.idle id nic hnic hbypass)
      refine ⟨gn, hgn, ?_⟩
      rw [hdrained.loaded (by rw [hview]; rfl), hview]
      rfl
  | false =>
      obtain ⟨gn, hgn, hview⟩ := Option.map_eq_some_iff.mp (h.rebuilt id nic hnic hbypass)
      refine ⟨gn, hgn, ?_⟩
      rw [hdrained.loaded (by rw [hview]; rfl), hview]
      rfl

/--
Requests that add NICs and groups of different ids, in two orders on a fresh
server with no call failing: the models are equal, the same places of the graph
are joined by edges with the same VNIs, and the firewall of every NIC has the same
rules on both sides, in any interleaving with the poller.
-/
theorem additions_commute (hok : ∀ call, ambient.ok call = true)
    (hok' : ∀ call, ambient'.ok call = true) {config : AppConfig} {pid : Nat}
    {startDate startDate' : UInt64} {rqs rqs' : List MessageV0.Request}
    (hadds : ∀ rq ∈ rqs, Adds rq) (hnics : (rqs.filterMap nicId?).Nodup)
    (hgroups : (rqs.filterMap sgId?).Nodup) (hperm : rqs.Perm rqs')
    (hs : serve P ambient rqs (Server.start config pid startDate) = some s) :
    ∃ s', serve P ambient' rqs' (Server.start config pid startDate') = some s' ∧
      s'.model = s.model ∧
      ∀ {pg pg' : Packetgraph}, Drained s pg → Drained s' pg' →
        (∀ west east vnis, Attached s' pg' west east vnis ↔ Attached s pg west east vnis) ∧
        ∀ {id : String} {nic : Nic}, s.model.nics[id]? = some nic →
          ∃ gn gn', s.findNic nic = some gn ∧ s'.findNic nic = some gn' ∧
            pg'.firewalls.loaded gn'.firewall = pg.firewalls.loaded gn.firewall := by
  have hempty : ∀ {rqs : List MessageV0.Request}, (rqs.filterMap nicId?).Nodup →
      (rqs.filterMap sgId?).Nodup → Distinct rqs {} := fun hn hg =>
    ⟨hn, hg, fun _ _ => ExtTreeMap.getElem?_empty, fun _ _ => ExtTreeMap.getElem?_empty⟩
  have hadds' : ∀ rq ∈ rqs', Adds rq := fun rq hrq => hadds rq (hperm.mem_iff.mpr hrq)
  obtain ⟨hdefined, hrun⟩ := serve_adds (P := P) hok (growing_start config pid startDate) hadds
    (hempty hnics hgroups)
  obtain ⟨hdefined', hrun'⟩ := serve_adds (P := P) hok' (growing_start config pid startDate')
    hadds' (hempty ((hperm.filterMap nicId?).nodup_iff.mp hnics)
      ((hperm.filterMap sgId?).nodup_iff.mp hgroups))
  have hharmless := hdefined.mp ⟨s, hs⟩
  obtain ⟨s', hs'⟩ := hdefined'.mpr fun rq hrq => hharmless rq (hperm.mem_iff.mpr hrq)
  obtain ⟨hgrowing, hgathered⟩ := hrun s hs
  obtain ⟨hgrowing', hgathered'⟩ := hrun' s' hs'
  have hmodel : s'.model = s.model := hgathered.unique hgathered' hperm
  refine ⟨s', hs', hmodel, fun {pg} {pg'} hpg hpg' =>
    ⟨fun west east vnis => ?_, fun {id} {nic} hnic => ?_⟩⟩
  · rw [hgrowing'.steady.wired.attached_iff hgrowing'.steady.agree hpg',
      hgrowing.steady.wired.attached_iff hgrowing.steady.agree hpg, hmodel]
  · have hnic' : s'.model.nics[id]? = some nic := by
      rw [hmodel]
      exact hnic
    obtain ⟨gn, hgn, hloaded⟩ := hgrowing.loaded hpg hnic
    obtain ⟨gn', hgn', hloaded'⟩ := hgrowing'.loaded hpg' hnic'
    rw [hmodel] at hloaded'
    exact ⟨gn, gn', hgn, hgn', hloaded'.trans hloaded.symm⟩

def nicsThenGroups : List MessageV0.Request :=
  [{ nicAdd := some { id := "nic-1", mac := "52:54:00:12:34:01", vni := 42
                      ip := ["42.0.0.1"], securityGroup := ["sg-1"] } },
   { nicAdd := some { id := "nic-2", mac := "52:54:00:12:34:02", vni := 42
                      ip := ["42.0.0.2"], bypassFiltering := some true } },
   { sgAdd := some { id := "sg-1", rule := [{ direction := .inbound, protocol := -1
                                              securityGroup := some "sg-2" }] } },
   { sgAdd := some { id := "sg-2", member := ["42.0.0.3"] } }]

theorem additions_commute_reverse :
    ∃ s s', serve Libc.platform {} nicsThenGroups (Server.start {} 1 0) = some s ∧
      serve Libc.platform {} nicsThenGroups.reverse (Server.start {} 1 0) = some s' ∧
      s.model.nics.size = 2 ∧ s'.model = s.model ∧
      ∀ west east vnis, Attached s' s'.settled west east vnis ↔
        Attached s s.settled west east vnis := by
  obtain ⟨s, hs, hsize⟩ : ∃ s, serve Libc.platform {} nicsThenGroups (Server.start {} 1 0) =
      some s ∧ s.model.nics.size = 2 := by
    refine ⟨(serve Libc.platform {} nicsThenGroups (Server.start {} 1 0)).get ?_, ?_, ?_⟩
    · decide +kernel
    · simp
    · decide +kernel
  have hok : ∀ call, ({} : Ambient).ok call = true := fun _ => rfl
  have hadds : ∀ rq ∈ nicsThenGroups, Adds rq := by
    simp only [nicsThenGroups, List.forall_mem_cons]
    exact ⟨.inl ⟨_, rfl⟩, .inl ⟨_, rfl⟩, .inr ⟨_, rfl⟩, .inr ⟨_, rfl⟩, by simp⟩
  obtain ⟨s', hs', hmodel, hsame⟩ := additions_commute hok hok hadds (by decide) (by decide)
    (List.reverse_perm nicsThenGroups).symm hs
  exact ⟨s, s', hs, hs', hsize, hmodel, (hsame (drained_settled s) (drained_settled s')).1⟩

end Runs

end Butterfly
