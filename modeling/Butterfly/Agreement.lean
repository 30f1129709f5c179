import Butterfly.Action

/-!
# The model and the graph agree

`app::model.nics` is keyed by NIC id, `vnis_` by VNI and then by NIC id.  The two
are kept in step by adding, replacing and deleting NICs, whatever packetgraph
calls fail on the way.
-/

namespace Butterfly

open Std Foundation Butterfly.Graph

/-! ## Well-formed branches -/

/-- The bricks of a branch carry one serial. -/
structure GraphOk (s : Server) : Prop where
  started : s.started = true
  keyed : KeyedVnis s
  ids : ∀ {v id gn}, s.branch v id = some gn → gn.id = id
  switched : ∀ {v : UInt32} {vni}, s.vnis[v]? = some vni → 2 ≤ vni.nics.size →
    vni.sw.isSome
  bricks : ∀ {v id gn}, s.branch v id = some gn → ∃ n < s.nextSerial,
    gn.firewall = ⟨.firewall, n⟩ ∧ gn.antispoof = ⟨.antispoof, n⟩ ∧
      gn.vhost = ⟨.vhost, n⟩
  distinct : ∀ {v id gn v' id' gn'}, s.branch v id = some gn →
    s.branch v' id' = some gn' → gn.firewall = gn'.firewall → v = v' ∧ id = id'

theorem GraphOk.tuned {p : Op Rpc Direct → Prop} {s s' : Server} (h : GraphOk s)
    (ht : Tuned p s s') : GraphOk s' := by
  -- Every branch after the change has one before it with the same bricks.
  have hback : ∀ {v id gn'}, s'.branch v id = some gn' →
      ∃ gn, s.branch v id = some gn ∧ gn.kin = gn'.kin := by
    intro v id gn' hgn'
    have hbranch := ht.branch v id
    rw [hgn', Option.map_some] at hbranch
    obtain ⟨gn, hgn, hkin⟩ := Option.map_eq_some_iff.mp hbranch.symm
    exact ⟨gn, hgn, hkin⟩
  have hfirewall : ∀ {a b : GraphNic}, a.kin = b.kin → a.firewall = b.firewall := by
    intro a b hkin
    have hfw : a.kin.firewall = b.kin.firewall := congrArg GraphNic.firewall hkin
    exact hfw
  have hvni : ∀ {v : UInt32} {vni'}, s'.vnis[v]? = some vni' →
      ∃ vni, s.vnis[v]? = some vni ∧ vni.kin = vni'.kin := by
    intro v vni' hvni'
    have hentry := ht.vni v
    rw [hvni', Option.map_some] at hentry
    exact Option.map_eq_some_iff.mp hentry.symm
  constructor
  · rw [ht.frame.started]
    exact h.started
  · intro v vni' hvni'
    obtain ⟨vni, hlookup, hkin⟩ := hvni hvni'
    rw [← h.keyed v vni hlookup]
    exact (congrArg GraphVni.vni hkin).symm
  · intro v id gn' hgn'
    obtain ⟨gn, hgn, hkin⟩ := hback hgn'
    rw [← h.ids hgn]
    exact (congrArg GraphNic.id hkin).symm
  · intro v vni' hvni' hsize
    obtain ⟨vni, hlookup, hkin⟩ := hvni hvni'
    have hnics : vni.nics.size = vni'.nics.size := by
      have hmap := congrArg (fun e : GraphVni => e.nics.size) hkin
      simpa [GraphVni.kin] using hmap
    have hsw : vni.kin.sw = vni'.kin.sw := congrArg GraphVni.sw hkin
    change vni.sw = vni'.sw at hsw
    rw [← hsw]
    exact h.switched hlookup (by omega)
  · intro v id gn' hgn'
    obtain ⟨gn, hgn, hkin⟩ := hback hgn'
    obtain ⟨n, hn, hfw, has, hvh⟩ := h.bricks hgn
    refine ⟨n, Nat.lt_of_lt_of_le hn ht.serial, ?_, ?_, ?_⟩
    · rw [← hfw]
      exact (hfirewall hkin).symm
    · rw [← has]
      exact (congrArg GraphNic.antispoof hkin).symm
    · rw [← hvh]
      exact (congrArg GraphNic.vhost hkin).symm
  · intro v id gn v' id' gn' hgn hgn' heq
    obtain ⟨a, ha, hakin⟩ := hback hgn
    obtain ⟨b, hb, hbkin⟩ := hback hgn'
    apply h.distinct ha hb
    rw [hfirewall hakin, hfirewall hbkin, heq]

/-! ## Adding a branch -/

/-- How an attempt to add a NIC leaves the server. -/
structure AddEffect (nic : Nic) (accepted : Bool) (s s' : Server) : Prop where
  frame : Frame s s'
  model : s'.model = s.model
  serial : s.nextSerial < s'.nextSerial
  switch : ∀ {v : UInt32} {vni' sw}, s'.vnis[v]? = some vni' → vni'.sw = some sw →
    (∃ vni, s.vnis[v]? = some vni ∧ vni.sw = some sw) ∨ s.nextSerial ≤ sw.serial
  entry : ∃ entry, (∀ v : UInt32, s'.vnis[v]? =
      if nic.vni = v then some entry else s.vnis[v]?) ∧
    entry.vni = (vniEntry nic.vni s).vni ∧
    entry.nics = (if accepted then (vniEntry nic.vni s).nics.insertIfNew nic.id
        (filled nic (newBranch nic s.nextSerial))
      else (vniEntry nic.vni s).nics) ∧
    (2 ≤ entry.nics.size →
      (2 ≤ (vniEntry nic.vni s).nics.size ∧ entry.sw = (vniEntry nic.vni s).sw) ∨
        entry.sw.isSome)

theorem lookup_openVni (v a : UInt32) (s : Server) :
    (openVni v s).vnis[a]? =
      if v = a then some (vniEntry v s) else s.vnis[a]? := by
  rw [openVni]
  simp only [lookup_insertIfNew, vniEntry]

theorem lookup_updateVni {s : Server} {v : UInt32} {vni : GraphVni}
    (f : GraphVni → GraphVni) (h : s.vnis[v]? = some vni) (a : UInt32) :
    (s.updateVni v f).vnis[a]? = if v = a then some (f vni) else s.vnis[a]? := by
  rw [Server.updateVni]
  simp only [lookup_modify, h, Option.map_some]

theorem switch_of_entry {s s' : Server} {v₀ : UInt32} {entry : GraphVni}
    (hvnis : ∀ v : UInt32, s'.vnis[v]? = if v₀ = v then some entry else s.vnis[v]?)
    (hentry : ∀ {sw}, entry.sw = some sw →
      (vniEntry v₀ s).sw = some sw ∨ s.nextSerial ≤ sw.serial)
    {v : UInt32} {vni' : GraphVni} {sw : Brick} (hvni' : s'.vnis[v]? = some vni')
    (hsw : vni'.sw = some sw) :
    (∃ vni, s.vnis[v]? = some vni ∧ vni.sw = some sw) ∨ s.nextSerial ≤ sw.serial := by
  rw [hvnis] at hvni'
  split at hvni'
  · next hv =>
      cases hvni'
      subst hv
      refine (hentry hsw).imp_left fun hold => ?_
      unfold vniEntry at hold
      cases hvni : s.vnis[v₀]? with
      | none => simp [hvni] at hold
      | some vni => exact ⟨vni, rfl, by simpa [hvni] using hold⟩
  · exact .inl ⟨vni', hvni', hsw⟩

theorem addEffect_keepBranch {ok : PgCall → Bool} {nic : Nic} {s s₂ : Server}
    (entry : GraphVni) (hstarted : s.started = true)
    (hnew : (vniEntry nic.vni s).nics[nic.id]? = none) (hframe : Frame s s₂)
    (hmodel : s₂.model = s.model) (hserial : s.nextSerial < s₂.nextSerial)
    (hvnis : ∀ v : UInt32, s₂.vnis[v]? =
      if nic.vni = v then some entry else s.vnis[v]?)
    (hkey : entry.vni = (vniEntry nic.vni s).vni)
    (hnics : entry.nics = (vniEntry nic.vni s).nics)
    (hsw : 1 ≤ (vniEntry nic.vni s).nics.size →
      (2 ≤ (vniEntry nic.vni s).nics.size ∧ entry.sw = (vniEntry nic.vni s).sw) ∨
        entry.sw.isSome)
    (hswitch : ∀ {sw}, entry.sw = some sw →
      (vniEntry nic.vni s).sw = some sw ∨ s.nextSerial ≤ sw.serial) :
    AddEffect nic true s (keepBranch ok nic (newBranch nic s.nextSerial) s₂) := by
  have hlookup : s₂.vnis[nic.vni]? = some entry := by simpa using hvnis nic.vni
  have hbranch : entry.nics[nic.id]? = none := by rw [hnics, hnew]
  have hsize := size_insertIfNew_of_none
    (v := filled nic (newBranch nic s.nextSerial)) hnew
  have hafter : ∀ v : UInt32,
      (keepBranch ok nic (newBranch nic s.nextSerial) s₂).vnis[v]? =
        if nic.vni = v then some (withBranch nic.id
          (filled nic (newBranch nic s.nextSerial)) entry) else s.vnis[v]? := by
    intro v
    rw [keepBranch_eq (hframe.started.trans hstarted) hlookup hbranch,
      Server.emits_vnis, lookup_updateVni _ hlookup, hvnis v]
    split <;> rfl
  rw [keepBranch_eq (hframe.started.trans hstarted) hlookup hbranch] at hafter ⊢
  refine ⟨⟨hframe.config, hframe.pid, hframe.started, hframe.api0Error⟩, hmodel,
    hserial, fun hvni' hsw' => switch_of_entry hafter hswitch hvni' hsw',
    withBranch nic.id (filled nic (newBranch nic s.nextSerial)) entry,
    hafter, hkey, ?_, ?_⟩
  · simp [withBranch, hnics]
  · intro htwo
    simp only [withBranch, hnics, hsize] at htwo
    exact hsw (by omega)

theorem Graph.Created.effect {ok : PgCall → Bool} {nic : Nic} {s s₁ : Server}
    (h : Created ok nic (openVni nic.vni s) s₁) :
    Frame s s₁ ∧ s₁.model = s.model ∧ s.nextSerial < s₁.nextSerial ∧
      ∀ v : UInt32, s₁.vnis[v]? =
        if nic.vni = v then some (vniEntry nic.vni s) else s.vnis[v]? := by
  obtain ⟨-, -, ops, -, rfl⟩ := h
  exact ⟨⟨rfl, rfl, rfl, rfl⟩, rfl, Nat.lt_succ_self _, fun v => lookup_openVni nic.vni v s⟩

theorem addEffect_withSwitch {ok : PgCall → Bool} {nic : Nic} {s s₁ : Server}
    (h : Created ok nic (openVni nic.vni s) s₁)
    (hsize : (vniEntry nic.vni s).nics.size < 2) (sw : Option Brick)
    (hswitch : ∀ {b}, sw = some b → s.nextSerial ≤ b.serial)
    {ops : List (Op Rpc Direct)} :
    AddEffect nic false s
      ((s₁.takeSerial.updateVni nic.vni (withSwitch sw)).emits ops) := by
  obtain ⟨hframe, hmodel, hserial, hvnis⟩ := Created.effect h
  have hafter : ∀ v : UInt32,
      ((s₁.takeSerial.updateVni nic.vni (withSwitch sw)).emits ops).vnis[v]? =
        if nic.vni = v then some (withSwitch sw (vniEntry nic.vni s))
        else s.vnis[v]? := by
    intro v
    have hlookup : s₁.takeSerial.vnis[nic.vni]? = some (vniEntry nic.vni s) :=
      h.lookup
    rw [Server.emits_vnis, lookup_updateVni _ hlookup, Server.takeSerial_vnis,
      hvnis v]
    split <;> rfl
  refine ⟨⟨hframe.config, hframe.pid, hframe.started, hframe.api0Error⟩, hmodel,
    Nat.lt_succ_of_lt hserial,
    fun hvni' hsw' => switch_of_entry hafter (fun hsome => .inr (hswitch hsome)) hvni' hsw',
    withSwitch sw (vniEntry nic.vni s), hafter, rfl, rfl, ?_⟩
  · intro htwo
    simp only [withSwitch] at htwo
    omega

theorem Graph.NicAdded.effect {ok : PgCall → Bool} {nic : Nic} {s s' : Server}
    {accepted : Bool} (hstarted : s.started = true)
    (hnew : (vniEntry nic.vni s).nics[nic.id]? = none)
    (h : NicAdded ok nic s accepted s') : AddEffect nic accepted s s' := by
  cases h with
  | abandoned h =>
      obtain ⟨-, ops, -, rfl⟩ := h
      have hafter := fun v => lookup_openVni nic.vni v s
      exact ⟨⟨rfl, rfl, rfl, rfl⟩, rfl, Nat.lt_succ_self _,
        fun hvni' hsw' => switch_of_entry hafter (fun hsome => .inl hsome) hvni' hsw',
        vniEntry nic.vni s, hafter, rfl, rfl, fun h => .inl ⟨h, rfl⟩⟩
  | @first s₁ hcreated hsize =>
      obtain ⟨hframe, hmodel, hserial, hvnis⟩ := Created.effect hcreated
      refine addEffect_keepBranch _ hstarted hnew
        ⟨hframe.config, hframe.pid, hframe.started, hframe.api0Error⟩ hmodel
        hserial hvnis rfl rfl (fun h => ?_) fun hsome => .inl hsome
      omega
  | @noSwitch s₁ hcreated hsize =>
      exact addEffect_withSwitch hcreated (by omega) none (by simp)
  | @stuck s₁ gn₁ hcreated hsize =>
      refine addEffect_withSwitch hcreated (by omega) _ fun hsome => ?_
      cases hsome
      exact Nat.le_succ _
  | @second s₁ gn₁ hcreated hsize =>
      obtain ⟨hframe, hmodel, hserial, hvnis⟩ := Created.effect hcreated
      refine addEffect_keepBranch (withSwitch
          (some ⟨.switch, s.nextSerial + 1⟩) (vniEntry nic.vni s)) hstarted hnew
        ⟨hframe.config, hframe.pid, hframe.started, hframe.api0Error⟩ hmodel
        (Nat.lt_succ_of_lt hserial) ?_ rfl rfl (fun _ => .inr rfl) fun hsome => ?_
      rotate_left
      · cases hsome
        exact .inr (Nat.le_succ _)
      intro v
      have hlookup : s₁.takeSerial.vnis[nic.vni]? = some (vniEntry nic.vni s) :=
        hcreated.lookup
      rw [Server.emits_vnis, lookup_updateVni _ hlookup, Server.takeSerial_vnis,
        hvnis v]
      split <;> rfl
  | @further s₁ sw hcreated hsize hsw =>
      obtain ⟨hframe, hmodel, hserial, hvnis⟩ := Created.effect hcreated
      refine addEffect_keepBranch _ hstarted hnew
        ⟨hframe.config, hframe.pid, hframe.started, hframe.api0Error⟩ hmodel
        hserial hvnis rfl rfl (fun _ => .inl ⟨hsize, rfl⟩) fun hsome => .inl hsome

theorem vniEntry_lookup (v : UInt32) (id : String) (s : Server) :
    (vniEntry v s).nics[id]? = s.branch v id := by
  unfold vniEntry Server.branch
  cases s.vnis[v]? <;> simp

theorem AddEffect.branch {nic : Nic} {accepted : Bool} {s s' : Server}
    (h : AddEffect nic accepted s s') (hnew : s.branch nic.vni nic.id = none)
    (v : UInt32) (id : String) :
    s'.branch v id =
      if accepted = true ∧ nic.vni = v ∧ nic.id = id then
        some (filled nic (newBranch nic s.nextSerial))
      else s.branch v id := by
  obtain ⟨entry, hvnis, -, hnics, -⟩ := h.entry
  have hnew' : (vniEntry nic.vni s).nics[nic.id]? = none := by
    rw [vniEntry_lookup, hnew]
  rw [Server.branch, hvnis v]
  by_cases hv : nic.vni = v
  · subst hv
    cases accepted with
    | false => simp [hnics, vniEntry_lookup]
    | true =>
        simp only [if_true, Option.bind_some, hnics, lookup_insertIfNew, hnew',
          vniEntry_lookup, Option.getD_none, true_and]
  · simp [hv, Server.branch]

theorem GraphOk.added {nic : Nic} {accepted : Bool} {s s' : Server}
    (hok : GraphOk s) (hnew : s.branch nic.vni nic.id = none)
    (h : AddEffect nic accepted s s') : GraphOk s' := by
  have hbranch := h.branch hnew
  have hfilled : ∀ n, (filled nic (newBranch nic n)).id = nic.id ∧
      (filled nic (newBranch nic n)).firewall = ⟨.firewall, n⟩ ∧
      (filled nic (newBranch nic n)).antispoof = ⟨.antispoof, n⟩ ∧
      (filled nic (newBranch nic n)).vhost = ⟨.vhost, n⟩ := by
    intro n
    unfold filled
    split <;> exact ⟨rfl, rfl, rfl, rfl⟩
  obtain ⟨entry, hvnis, hkey, hnics, hsw⟩ := h.entry
  constructor
  · rw [h.frame.started]
    exact hok.started
  · intro v vni hvni
    rw [hvnis v] at hvni
    split at hvni
    · next hv =>
        cases hvni
        subst hv
        rw [hkey, vniEntry]
        cases hold : s.vnis[nic.vni]? with
        | none => rfl
        | some old => simpa using hok.keyed _ _ hold
    · exact hok.keyed v vni hvni
  · intro v id gn hgn
    rw [hbranch] at hgn
    split at hgn
    · next hnic =>
        cases hgn
        rw [(hfilled _).1]
        exact hnic.2.2
    · exact hok.ids hgn
  · intro v vni hvni hsize
    rw [hvnis v] at hvni
    split at hvni
    · next hv =>
        cases hvni
        rcases hsw hsize with ⟨htwo, hsame⟩ | hsome
        · rw [hsame]
          unfold vniEntry at htwo ⊢
          cases hold : s.vnis[nic.vni]? with
          | none => simp [hold] at htwo
          | some old =>
              simp only [hold, Option.getD_some] at htwo ⊢
              exact hok.switched hold htwo
        · exact hsome
    · exact hok.switched hvni hsize
  · intro v id gn hgn
    rw [hbranch] at hgn
    split at hgn
    · cases hgn
      exact ⟨s.nextSerial, h.serial, (hfilled _).2⟩
    · obtain ⟨n, hn, hbricks⟩ := hok.bricks hgn
      exact ⟨n, Nat.lt_trans hn h.serial, hbricks⟩
  · -- A firewall that exists has an older serial than the new one.
    have hfresh : ∀ {v id gn}, s.branch v id = some gn →
        gn.firewall ≠ ⟨.firewall, s.nextSerial⟩ := by
      intro v id gn hgn heq
      obtain ⟨n, hn, hfw, -⟩ := hok.bricks hgn
      rw [hfw] at heq
      simp only [Brick.mk.injEq, true_and] at heq
      omega
    intro v id gn v' id' gn' hgn hgn' heq
    rw [hbranch] at hgn hgn'
    split at hgn <;> split at hgn'
    · next ha hb => exact ⟨ha.2.1.symm.trans hb.2.1, ha.2.2.symm.trans hb.2.2⟩
    · cases hgn
      rw [(hfilled _).2.1] at heq
      exact absurd heq.symm (hfresh hgn')
    · cases hgn'
      rw [(hfilled _).2.1] at heq
      exact absurd heq (hfresh hgn)
    · exact hok.distinct hgn hgn' heq

/-! ## Removing a branch -/

structure DelEffect (nic : Nic) (s s' : Server) : Prop where
  frame : Frame s s'
  model : s'.model = s.model
  serial : s'.nextSerial = s.nextSerial
  branch : ∀ v id, s'.branch v id =
    if nic.vni = v ∧ nic.id = id then none else s.branch v id
  entries : ∀ {v : UInt32} {vni'}, s'.vnis[v]? = some vni' →
    ∃ vni, s.vnis[v]? = some vni ∧ vni'.vni = vni.vni ∧
      (vni'.sw = vni.sw ∨ vni'.sw = none) ∧
      (2 ≤ vni'.nics.size → 2 ≤ vni.nics.size ∧ vni'.sw = vni.sw)

theorem branch_of_erased {nic : Nic} {s s' : Server} {vni vni' : GraphVni}
    (hvni : s.vnis[nic.vni]? = some vni)
    (hvnis : ∀ v : UInt32, s'.vnis[v]? =
      if nic.vni = v then some vni' else s.vnis[v]?)
    (hnics : vni'.nics = vni.nics.erase nic.id) (v : UInt32) (id : String) :
    s'.branch v id =
      if nic.vni = v ∧ nic.id = id then none else s.branch v id := by
  rw [Server.branch, hvnis v]
  by_cases hv : nic.vni = v
  · subst hv
    simp only [if_true, Option.bind_some, hnics, lookup_erase, true_and,
      Server.branch, hvni]
  · simp [hv, Server.branch]

theorem Graph.NicDeleted.effect {nic : Nic} {s s' : Server} (h : NicDeleted nic s s') :
    DelEffect nic s s' := by
  cases h with
  | absent hnone =>
      refine ⟨.refl s, rfl, rfl, ?_, fun h => ⟨_, h, rfl, .inl rfl, fun h => ⟨h, rfl⟩⟩⟩
      intro v id
      split
      · next hnic => rw [← hnic.1, ← hnic.2, hnone]
      · rfl
  | @last vni n hvni hn hsize =>
      refine ⟨⟨rfl, rfl, rfl, rfl⟩, rfl, rfl, ?_, ?_⟩
      · intro v id
        obtain ⟨k, gn, -, honly⟩ := exists_of_size_one hsize
        have hk : nic.id = k := ((honly nic.id n).mp hn).1
        rw [Server.branch, Server.emits_vnis, Server.eraseVni]
        simp only [lookup_erase]
        by_cases hv : nic.vni = v
        · subst hv
          by_cases hid : nic.id = id
          · simp [hid]
          · have hother : vni.nics[id]? = none := by
              cases hlookup : vni.nics[id]? with
              | none => rfl
              | some other =>
                  exact absurd (hk.trans ((honly id other).mp hlookup).1.symm) hid
            simp [hid, Server.branch, hvni, hother]
        · simp [hv, Server.branch]
      · intro v vni' hvni'
        rw [Server.emits_vnis, Server.eraseVni] at hvni'
        simp only [lookup_erase] at hvni'
        split at hvni'
        · cases hvni'
        · exact ⟨vni', hvni', rfl, .inl rfl, fun h => ⟨h, rfl⟩⟩
  | @ofTwo vni n other sw hvni hn hsize =>
      have hvnis := lookup_updateVni
        (fun vni => withoutBranch nic.id (withSwitch none vni)) hvni
      refine ⟨⟨rfl, rfl, rfl, rfl⟩, rfl, rfl,
        branch_of_erased hvni hvnis rfl, ?_⟩
      intro v vni' hvni'
      rw [Server.emits_vnis, hvnis v] at hvni'
      split at hvni'
      · next hv =>
          cases hvni'
          subst hv
          refine ⟨vni, hvni, rfl, .inr rfl, fun htwo => ?_⟩
          have herase := size_erase_of_lookup hn
          simp only [withoutBranch, withSwitch] at htwo
          omega
      · exact ⟨vni', hvni', rfl, .inl rfl, fun h => ⟨h, rfl⟩⟩
  | @ofMany vni n hvni hn hsize =>
      have hvnis := lookup_updateVni (withoutBranch nic.id) hvni
      refine ⟨⟨rfl, rfl, rfl, rfl⟩, rfl, rfl,
        branch_of_erased hvni hvnis rfl, ?_⟩
      intro v vni' hvni'
      rw [Server.emits_vnis, hvnis v] at hvni'
      split at hvni'
      · next hv =>
          cases hvni'
          subst hv
          exact ⟨vni, hvni, rfl, .inl rfl, fun _ => ⟨by omega, rfl⟩⟩
      · exact ⟨vni', hvni', rfl, .inl rfl, fun h => ⟨h, rfl⟩⟩

theorem GraphOk.deleted {nic : Nic} {s s' : Server} (hok : GraphOk s)
    (h : DelEffect nic s s') : GraphOk s' := by
  have hback : ∀ {v id gn}, s'.branch v id = some gn → s.branch v id = some gn := by
    intro v id gn hgn
    rw [h.branch] at hgn
    split at hgn
    · cases hgn
    · exact hgn
  constructor
  · rw [h.frame.started]
    exact hok.started
  · intro v vni' hvni'
    obtain ⟨vni, hvni, hkey, -⟩ := h.entries hvni'
    rw [hkey]
    exact hok.keyed v vni hvni
  · exact fun hgn => hok.ids (hback hgn)
  · intro v vni' hvni' hsize
    obtain ⟨vni, hvni, -, -, hsw⟩ := h.entries hvni'
    obtain ⟨htwo, hsame⟩ := hsw hsize
    rw [hsame]
    exact hok.switched hvni htwo
  · intro v id gn hgn
    rw [h.serial]
    exact hok.bricks (hback hgn)
  · exact fun hgn hgn' => hok.distinct (hback hgn) (hback hgn')

theorem nicDel_isSome (nic : Nic) {s : Server} (hok : GraphOk s) :
    (nicDel nic s).isSome := by
  simp only [nicDel, hok.started, Bool.not_true, Bool.false_eq_true, if_false]
  split
  · rfl
  · next vni hvni =>
      split
      · rfl
      · next n hn =>
          suffices h : (unlinkBranch nic vni n
              (updatePoll (s.updateNic nic disable))).isSome by
            obtain ⟨s₂, hs₂⟩ := Option.isSome_iff_exists.mp h
            rw [hs₂]
            rfl
          simp only [unlinkBranch]
          split
          · rfl
          split
          · next htwo =>
              obtain ⟨k, gn, k', gn', hvalues, -, -⟩ := exists_of_size_two htwo
              obtain ⟨sw, hsw⟩ := Option.isSome_iff_exists.mp
                (hok.switched hvni (by omega))
              have hother : (otherBranch vni nic.id).isSome := by
                simp only [otherBranch, hvalues]
                split <;> rfl
              obtain ⟨other, hother⟩ := Option.isSome_iff_exists.mp hother
              simp only [hsw, hother, Option.bind_eq_bind, Option.bind_some]
              rfl
          · rfl

/-! ## The invariant -/

structure Agree (s : Server) : Prop where
  graph : GraphOk s
  nicIds : ∀ {id : String} {nic}, s.model.nics[id]? = some nic → nic.id = id
  sgIds : ∀ {id : String} {sg}, s.model.securityGroups[id]? = some sg → sg.id = id
  branches : ∀ v id, (s.branch v id).isSome ↔
    ∃ nic, s.model.nics[id]? = some nic ∧ nic.vni = v

namespace Agree

variable {s s' : Server}

theorem tuned {p : Op Rpc Direct → Prop} (h : Agree s) (ht : Tuned p s s') :
    Agree s' := by
  refine ⟨h.graph.tuned ht, ?_, ?_, ?_⟩
  · rw [ht.model]
    exact h.nicIds
  · rw [ht.model]
    exact h.sgIds
  · intro v id
    rw [ht.branch_isSome, ht.model]
    exact h.branches v id

theorem findNic (h : Agree s) {id : String} {nic : Nic}
    (hnic : s.model.nics[id]? = some nic) : (s.findNic nic).isSome := by
  rw [Server.findNic_eq, h.branches, h.nicIds hnic]
  exact ⟨nic, hnic, rfl⟩

theorem unique (h : Agree s) {v v' : UInt32} {id : String}
    (hv : (s.branch v id).isSome) (hv' : (s.branch v' id).isSome) : v = v' := by
  obtain ⟨nic, hnic, rfl⟩ := (h.branches v id).mp hv
  obtain ⟨nic', hnic', rfl⟩ := (h.branches v' id).mp hv'
  rw [hnic] at hnic'
  cases hnic'
  rfl

theorem branch_eq_none (h : Agree s) {id : String} (hid : s.model.nics[id]? = none)
    (v : UInt32) : s.branch v id = none := by
  rw [← Option.not_isSome_iff_eq_none, h.branches]
  rintro ⟨nic, hnic, -⟩
  rw [hid] at hnic
  cases hnic

theorem modifyModel {f : Model → Model} (h : Agree s)
    (hnics : ∀ id : String, ((f s.model).nics[id]?).map (fun nic => (nic.id, nic.vni)) =
      (s.model.nics[id]?).map fun nic => (nic.id, nic.vni))
    (hsgs : ∀ {id : String} {sg}, (f s.model).securityGroups[id]? = some sg →
      sg.id = id) :
    Agree (s.modifyModel f) := by
  refine ⟨⟨h.graph.started, h.graph.keyed, h.graph.ids, h.graph.switched,
    h.graph.bricks, h.graph.distinct⟩, ?_, hsgs, ?_⟩
  · intro id nic hnic
    have hid := hnics id
    rw [Server.modifyModel_model] at hnic
    rw [hnic, Option.map_some] at hid
    obtain ⟨old, hold, heq⟩ := Option.map_eq_some_iff.mp hid.symm
    exact (Prod.ext_iff.mp heq).1.symm.trans (h.nicIds hold)
  · intro v id
    rw [Server.modifyModel_branch, h.branches v id, Server.modifyModel_model]
    have hid := hnics id
    constructor
    · rintro ⟨old, hold, rfl⟩
      rw [hold, Option.map_some] at hid
      obtain ⟨nic, hnic, heq⟩ := Option.map_eq_some_iff.mp hid
      exact ⟨nic, hnic, (Prod.ext_iff.mp heq).2⟩
    · rintro ⟨nic, hnic, rfl⟩
      rw [hnic, Option.map_some] at hid
      obtain ⟨old, hold, heq⟩ := Option.map_eq_some_iff.mp hid.symm
      exact ⟨old, hold, (Prod.ext_iff.mp heq).2⟩

theorem setNic (h : Agree s) {id : String} {old n : Nic}
    (hold : s.model.nics[id]? = some old) (hid : n.id = old.id)
    (hvni : n.vni = old.vni) : Agree (Api.setNic id n s) := by
  refine h.modifyModel ?_ h.sgIds
  intro a
  simp only [lookup_insert]
  split
  · next ha =>
      subst ha
      rw [hold]
      simp [hid, hvni]
  · rfl

theorem setSg (h : Agree s) {id : String} (sg : Sg) (hid : sg.id = id) :
    Agree (Api.setSg id sg s) := by
  refine h.modifyModel (fun _ => rfl) ?_
  intro a sg' hsg'
  simp only [lookup_insert] at hsg'
  split at hsg'
  · next ha =>
      cases hsg'
      rw [hid, ha]
  · exact h.sgIds hsg'

theorem eraseSg (h : Agree s) (id : String) :
    Agree (s.modifyModel fun m =>
      { m with securityGroups := m.securityGroups.erase id }) := by
  refine h.modifyModel (fun _ => rfl) ?_
  intro a sg hsg
  simp only [lookup_erase] at hsg
  split at hsg
  · cases hsg
  · exact h.sgIds hsg

end Agree

/-! ## Actions keep the invariant -/

section Actions

variable {P : Platform} {ambient : Ambient} {s s' : Server}

theorem Agree.removeNic (h : Agree s) {id : String}
    (hdel : Api.removeNic id s = some s') :
    Agree s' ∧ Frame s s' ∧ s'.model = { s.model with nics := s.model.nics.erase id } := by
  unfold Api.removeNic at hdel
  split at hdel
  · next hnone =>
      cases hdel
      refine ⟨h, .refl s, ?_⟩
      rw [erase_of_none hnone]
  · next nic hnic =>
      obtain ⟨s₁, hs₁, heq⟩ := Option.bind_eq_some_iff.mp hdel
      cases heq
      have heffect := (nicDel_cases h.graph.started h.graph.keyed hs₁).effect
      have hgraph := h.graph.deleted heffect
      refine ⟨⟨⟨hgraph.started, hgraph.keyed, hgraph.ids, hgraph.switched,
        hgraph.bricks, hgraph.distinct⟩, ?_, ?_, ?_⟩, ⟨heffect.frame.config,
          heffect.frame.pid, heffect.frame.started, heffect.frame.api0Error⟩,
        by rw [Server.modifyModel_model, heffect.model]⟩
      · intro a n hn
        simp only [Server.modifyModel_model, lookup_erase, heffect.model] at hn
        split at hn
        · cases hn
        · exact h.nicIds hn
      · intro a sg hsg
        simp only [Server.modifyModel_model, heffect.model] at hsg
        exact h.sgIds hsg
      · intro v a
        rw [Server.modifyModel_branch, heffect.branch]
        simp only [Server.modifyModel_model, heffect.model, lookup_erase,
          h.nicIds hnic]
        by_cases ha : id = a
        · subst ha
          by_cases hv : nic.vni = v
          · simp [hv]
          · have hother : ¬(s.branch v id).isSome := by
              rw [h.branches]
              rintro ⟨n, hn, rfl⟩
              rw [hnic] at hn
              cases hn
              exact hv rfl
            simpa [hv] using hother
        · simp only [ha, and_false, if_false]
          exact h.branches v a

theorem Agree.insertNic (h : Agree s) {nic : Nic} {added : Option Nic}
    (hnew : s.model.nics[nic.id]? = none)
    (hadd : Graph.nicAdd P ambient.ok nic s = some (added, s')) :
    Frame s s' ∧
      ((added = none ∧ Agree s') ∨
        (added = some { nic with path := nicPath P nic } ∧
          Agree (s'.modifyModel fun m => { m with
            nics := m.nics.insertIfNew nic.id
              { nic with path := nicPath P nic } }))) := by
  have hbranch := h.branch_eq_none hnew nic.vni
  have hentry : (vniEntry nic.vni s).nics[nic.id]? = none := by
    rw [vniEntry_lookup, hbranch]
  rcases nicAdd_cases h.graph.started hadd with ⟨rfl, hadded⟩ | ⟨rfl, hadded⟩
  · have heffect := hadded.effect h.graph.started hentry
    refine ⟨heffect.frame, .inl ⟨rfl, h.graph.added hbranch heffect, ?_, ?_, ?_⟩⟩
    · rw [heffect.model]
      exact h.nicIds
    · rw [heffect.model]
      exact h.sgIds
    · intro v id
      rw [heffect.branch hbranch, heffect.model]
      simpa using h.branches v id
  · have heffect := hadded.effect h.graph.started hentry
    have hgraph := h.graph.added hbranch heffect
    refine ⟨heffect.frame, .inr ⟨rfl, ⟨hgraph.started, hgraph.keyed, hgraph.ids,
      hgraph.switched, hgraph.bricks, hgraph.distinct⟩, ?_, ?_, ?_⟩⟩
    · intro id n hn
      simp only [Server.modifyModel_model, heffect.model, lookup_insertIfNew,
        hnew, Option.getD_none] at hn
      split at hn
      · next hid =>
          cases hn
          exact hid
      · exact h.nicIds hn
    · intro id sg hsg
      simp only [Server.modifyModel_model, heffect.model] at hsg
      exact h.sgIds hsg
    · intro v id
      rw [Server.modifyModel_branch, heffect.branch hbranch]
      simp only [Server.modifyModel_model, heffect.model, lookup_insertIfNew,
        hnew, Option.getD_none, true_and]
      by_cases hid : nic.id = id
      · subst hid
        have hnone := h.branch_eq_none hnew v
        by_cases hv : nic.vni = v
        · simp [hv]
        · simp [hv, hnone]
      · simp only [hid, and_false, if_false]
        exact h.branches v id

theorem Agree.actionNicAdd (h : Agree s) {nic : Nic} {added : Option Nic}
    (hadd : Api.actionNicAdd P ambient nic s = some (added, s')) :
    Agree s' ∧ Frame s s' := by
  simp only [Api.actionNicAdd, Option.bind_eq_bind] at hadd
  obtain ⟨s₀, hs₀, hadd⟩ := Option.bind_eq_some_iff.mp hadd
  obtain ⟨⟨result, s₁⟩, hs₁, hadd⟩ := Option.bind_eq_some_iff.mp hadd
  obtain ⟨hagree, hframe, hmodel⟩ := h.removeNic hs₀
  have hnew : s₀.model.nics[nic.id]? = none := by
    simp [hmodel]
  obtain ⟨hframe', hresult⟩ := hagree.insertNic hnew hs₁
  rcases hresult with ⟨rfl, hs'⟩ | ⟨rfl, hs'⟩
  · cases hadd
    exact ⟨hs', hframe.trans hframe'⟩
  · cases hadd
    exact ⟨hs', hframe.trans ⟨hframe'.config, hframe'.pid, hframe'.started,
      hframe'.api0Error⟩⟩

/-! ### Updates of a NIC -/

/-- The states an accepted `nic_update` goes through. -/
structure UpdateStages (P : Platform) (ambient : Ambient) (update : NicUpdate)
    (old : Nic) (s s' : Server) (n₂ n₃ : Nic) (s₁ s₂ s₃ : Server) : Prop where
  antiSpoof : s₁ = Api.refreshAntiSpoof P ambient update old
    (Api.revise update old) (Api.setNic update.id (Api.revise update old) s)
  trace : Api.updateTrace ambient update (Api.revise update old) s₁ = some (n₂, s₂)
  path : Api.updateTracePath ambient update n₂ s₂ = some (n₃, s₃)
  firewall : s' = Api.refreshFirewall ambient update old n₃ s₃

theorem actionNicUpdate_cases {update : NicUpdate} {error : Option String}
    (h : Api.actionNicUpdate P ambient update s = some (error, s')) :
    (s.model.nics[update.id]? = none ∧ error.isSome ∧ s' = s) ∨
    (error = none ∧ ∃ old, s.model.nics[update.id]? = some old ∧
      ∃ n₂ n₃ s₁ s₂ s₃, UpdateStages P ambient update old s s' n₂ n₃ s₁ s₂ s₃) := by
  unfold Api.actionNicUpdate at h
  split at h
  · next hnone =>
      cases h
      exact .inl ⟨hnone, rfl, rfl⟩
  · next old hold =>
      simp only [Option.bind_eq_bind, Option.bind_eq_some_iff, Prod.exists] at h
      obtain ⟨n₂, s₂, htrace, n₃, s₃, hpath, h⟩ := h
      cases h
      exact .inr ⟨rfl, old, hold, n₂, n₃, _, s₂, s₃, rfl, htrace, hpath, rfl⟩

structure SameFiltering (n n' : Nic) : Prop where
  bypass : n'.bypassFiltering = n.bypassFiltering
  ips : n'.ipList = n.ipList
  groups : n'.securityGroups = n.securityGroups

theorem SameFiltering.refl (n : Nic) : SameFiltering n n := ⟨rfl, rfl, rfl⟩

theorem SameFiltering.trans {a b c : Nic} (hab : SameFiltering a b)
    (hbc : SameFiltering b c) : SameFiltering a c :=
  ⟨hbc.bypass.trans hab.bypass, hbc.ips.trans hab.ips, hbc.groups.trans hab.groups⟩

structure Stage (key : String) (n n' : Nic) (s s' : Server) : Prop where
  id : n'.id = n.id
  vni : n'.vni = n.vni
  filtering : SameFiltering n n'
  server : s' = s ∧ n' = n ∨
    ∃ t, Tuned OffFirewall s t ∧ s' = Api.setNic key n' t

theorem updateTrace_stage {update : NicUpdate} {n n' : Nic}
    (h : Api.updateTrace ambient update n s = some (n', s')) :
    Stage update.id n n' s s' := by
  unfold Api.updateTrace at h
  split at h
  · obtain ⟨t, ht, heq⟩ := Option.bind_eq_some_iff.mp h
    cases heq
    exact ⟨rfl, rfl, ⟨rfl, rfl, rfl⟩,
      .inr ⟨t, (nicConfigPacketTrace_tuned ht).mono fun _ => offFirewall_of_trace, rfl⟩⟩
  · cases h
    exact ⟨rfl, rfl, .refl n, .inl ⟨rfl, rfl⟩⟩

theorem updateTracePath_stage {update : NicUpdate} {n n' : Nic}
    (h : Api.updateTracePath ambient update n s = some (n', s')) :
    Stage update.id n n' s s' := by
  unfold Api.updateTracePath at h
  split at h
  · obtain ⟨t, ht, heq⟩ := Option.bind_eq_some_iff.mp h
    cases heq
    exact ⟨rfl, rfl, ⟨rfl, rfl, rfl⟩,
      .inr ⟨t, (nicConfigPacketTracePath_tuned ht).mono fun _ => offFirewall_of_trace, rfl⟩⟩
  · cases h
    exact ⟨rfl, rfl, .refl n, .inl ⟨rfl, rfl⟩⟩

theorem refreshAntiSpoof_tuned (update : NicUpdate) (old n : Nic) (s : Server) :
    Tuned OffFirewall s (Api.refreshAntiSpoof P ambient update old n s) := by
  unfold Api.refreshAntiSpoof
  split
  · exact nicConfigAntiSpoof_tuned _ _ _ _ _
  · exact .refl _ s

theorem refreshFirewall_tuned (update : NicUpdate) (old n : Nic) (s : Server) :
    Tuned (fun op => ∃ b, FirewallOp b op) s
      (Api.refreshFirewall ambient update old n s) := by
  unfold Api.refreshFirewall
  split
  · exact fwUpdate_tuned _ _ _
  · exact .refl _ s

structure Holds (id : String) (n : Nic) (s : Server) : Prop where
  agree : Agree s
  lookup : s.model.nics[id]? = some n

theorem Holds.tuned {p : Op Rpc Direct → Prop} {id : String} {n : Nic}
    (h : Holds id n s) (ht : Tuned p s s') : Holds id n s' :=
  ⟨h.agree.tuned ht, by rw [ht.model]; exact h.lookup⟩

theorem Holds.setNic {id : String} {n n' : Nic} (h : Holds id n s)
    (hid : n'.id = n.id) (hvni : n'.vni = n.vni) :
    Holds id n' (Api.setNic id n' s) :=
  ⟨h.agree.setNic h.lookup hid hvni, by simp [Api.setNic]⟩

theorem Holds.stage {id : String} {n n' : Nic} (h : Holds id n s)
    (hstage : Stage id n n' s s') : Holds id n' s' := by
  rcases hstage.server with ⟨rfl, rfl⟩ | ⟨t, ht, rfl⟩
  · exact h
  · exact (h.tuned ht).setNic hstage.id hstage.vni

theorem Holds.findNic {id : String} {n : Nic} (h : Holds id n s) :
    (s.findNic n).isSome := h.agree.findNic h.lookup

theorem UpdateStages.holds {update : NicUpdate} {old n₂ n₃ : Nic}
    {s₁ s₂ s₃ : Server} (hagree : Agree s)
    (hold : s.model.nics[update.id]? = some old)
    (h : UpdateStages P ambient update old s s' n₂ n₃ s₁ s₂ s₃) :
    Holds update.id (Api.revise update old) s₁ ∧ Holds update.id n₂ s₂ ∧
      Holds update.id n₃ s₃ ∧ Holds update.id n₃ s' := by
  have hzero : Holds update.id old s := ⟨hagree, hold⟩
  have hone : Holds update.id (Api.revise update old) s₁ := by
    have hset : Holds update.id (Api.revise update old)
        (Api.setNic update.id (Api.revise update old) s) := hzero.setNic rfl rfl
    rw [h.antiSpoof]
    exact hset.tuned (refreshAntiSpoof_tuned _ _ _ _)
  have htwo := hone.stage (updateTrace_stage h.trace)
  have hthree := htwo.stage (updateTracePath_stage h.path)
  refine ⟨hone, htwo, hthree, ?_⟩
  rw [h.firewall]
  exact hthree.tuned (refreshFirewall_tuned _ _ _ _)

theorem setNic_frame (id : String) (n : Nic) (s : Server) :
    Frame s (Api.setNic id n s) := ⟨rfl, rfl, rfl, rfl⟩

theorem Stage.frame {id : String} {n n' : Nic} (h : Stage id n n' s s') :
    Frame s s' := by
  rcases h.server with ⟨rfl, -⟩ | ⟨t, ht, rfl⟩
  · exact .refl s'
  · exact ht.frame.trans (setNic_frame _ _ _)

theorem UpdateStages.frame {update : NicUpdate} {old n₂ n₃ : Nic}
    {s₁ s₂ s₃ : Server}
    (h : UpdateStages P ambient update old s s' n₂ n₃ s₁ s₂ s₃) : Frame s s' := by
  have hone : Frame s s₁ := by
    rw [h.antiSpoof]
    exact (setNic_frame _ _ _).trans (refreshAntiSpoof_tuned _ _ _ _).frame
  have htwo := (updateTrace_stage h.trace).frame
  have hthree := (updateTracePath_stage h.path).frame
  rw [h.firewall]
  exact hone.trans (htwo.trans (hthree.trans (refreshFirewall_tuned _ _ _ _).frame))

theorem Agree.actionNicUpdate (h : Agree s) {update : NicUpdate}
    {error : Option String}
    (hupdate : Api.actionNicUpdate P ambient update s = some (error, s')) :
    Agree s' ∧ Frame s s' := by
  rcases actionNicUpdate_cases hupdate with ⟨-, -, rfl⟩ |
      ⟨-, old, hold, n₂, n₃, s₁, s₂, s₃, hstages⟩
  · exact ⟨h, .refl s'⟩
  · exact ⟨(hstages.holds h hold).2.2.2.agree, hstages.frame⟩

/-! ### Security groups -/

theorem setSg_frame (id : String) (sg : Sg) (s : Server) :
    Frame s (Api.setSg id sg s) := ⟨rfl, rfl, rfl, rfl⟩

theorem Agree.ensureSg (h : Agree s) (id : String) :
    Agree (Api.ensureSg id s).2 ∧ Frame s (Api.ensureSg id s).2 ∧
      (Api.ensureSg id s).1.id = id := by
  unfold Api.ensureSg
  split
  · next sg hsg => exact ⟨h, .refl s, h.sgIds hsg⟩
  · exact ⟨h.setSg _ rfl, setSg_frame _ _ _, rfl⟩

theorem Agree.setSgTuned {p : Op Rpc Direct → Prop} (h : Agree s) {id : String}
    (sg : Sg) (hid : sg.id = id) (ht : Tuned p (Api.setSg id sg s) s') :
    Agree s' ∧ Frame s s' :=
  ⟨(h.setSg sg hid).tuned ht, (setSg_frame _ _ _).trans ht.frame⟩

theorem Agree.actionSgAdd (h : Agree s) (sg : Sg) :
    Agree (Api.actionSgAdd ambient sg s) ∧
      Frame s (Api.actionSgAdd ambient sg s) := by
  have hset := h.setSgTuned sg rfl ((Api.sgUpdate_tuned ambient sg _).trans
    (Api.sgUpdateRuleMembers_tuned ambient sg _))
  unfold Api.actionSgAdd
  split
  · split
    · exact ⟨h, .refl s⟩
    · exact hset
  · exact hset

theorem Agree.actionSgDel (h : Agree s) (id : String) :
    Agree (Api.actionSgDel ambient id s) ∧
      Frame s (Api.actionSgDel ambient id s) := by
  unfold Api.actionSgDel
  split
  · exact ⟨h, .refl s⟩
  · next sg hsg =>
      have ht := (Api.sgUpdate_tuned ambient sg (s.modifyModel fun m =>
        { m with securityGroups := m.securityGroups.erase id })).trans
          (Api.sgUpdateRuleMembers_tuned ambient sg _)
      have hframe : Frame s (s.modifyModel fun m =>
        { m with securityGroups := m.securityGroups.erase id }) :=
          ⟨rfl, rfl, rfl, rfl⟩
      exact ⟨(h.eraseSg id).tuned ht, hframe.trans ht.frame⟩

theorem Agree.actionSgRuleAdd (h : Agree s) (sgId : String) (rule : Rule) :
    Agree (Api.actionSgRuleAdd P ambient sgId rule s) ∧
      Frame s (Api.actionSgRuleAdd P ambient sgId rule s) := by
  obtain ⟨hagree, hframe, hid⟩ := h.ensureSg sgId
  unfold Api.actionSgRuleAdd
  split
  next sg s₁ heq =>
    rw [heq] at hagree hframe hid
    split
    · exact ⟨hagree, hframe⟩
    · obtain ⟨hagree', hframe'⟩ := hagree.setSgTuned
        { sg with rules := sg.rules.insertIfNew (rule.hash P) rule } hid
        (Api.sgUpdateRule_tuned ambient _ rule _)
      exact ⟨hagree', hframe.trans hframe'⟩

theorem Agree.actionSgRuleDel (h : Agree s) (sgId : String) (rule : Rule) :
    Agree (Api.actionSgRuleDel P ambient sgId rule s) ∧
      Frame s (Api.actionSgRuleDel P ambient sgId rule s) := by
  unfold Api.actionSgRuleDel
  split
  · exact ⟨h, .refl s⟩
  · next sg hsg =>
      split
      · exact ⟨h, .refl s⟩
      · have hid : sg.id = sgId := h.sgIds hsg
        exact h.setSgTuned { sg with rules := sg.rules.erase (rule.hash P) } hid
          (Api.sgUpdate_tuned ambient _ _)

theorem Agree.actionSgMemberAdd (h : Agree s) (sgId : String) (ip : Ip) :
    Agree (Api.actionSgMemberAdd ambient sgId ip s) ∧
      Frame s (Api.actionSgMemberAdd ambient sgId ip s) := by
  obtain ⟨hagree, hframe, hid⟩ := h.ensureSg sgId
  unfold Api.actionSgMemberAdd
  split
  next sg s₁ heq =>
    rw [heq] at hagree hframe hid
    split
    · exact ⟨hagree, hframe⟩
    · obtain ⟨hagree', hframe'⟩ := hagree.setSgTuned
        { sg with members := sg.members ++ [ip] } hid
        (Api.sgUpdateRuleMembers_tuned ambient _ _)
      exact ⟨hagree', hframe.trans hframe'⟩

theorem Agree.actionSgMemberDel (h : Agree s) (sgId : String) (ip : Ip) :
    Agree (Api.actionSgMemberDel ambient sgId ip s) ∧
      Frame s (Api.actionSgMemberDel ambient sgId ip s) := by
  unfold Api.actionSgMemberDel
  split
  · exact ⟨h, .refl s⟩
  · next sg hsg =>
      split
      · exact ⟨h, .refl s⟩
      · have hid : sg.id = sgId := h.sgIds hsg
        exact h.setSgTuned
          { sg with members := sg.members.eraseP fun known => known.eq ip } hid
          (Api.sgUpdateRuleMembers_tuned ambient _ _)

theorem Agree.perform (h : Agree s) {a : Action} {accepted : Bool}
    (ha : perform P ambient a s = some (accepted, s')) : Agree s' ∧ Frame s s' := by
  cases a with
  | nicAdd nic =>
      obtain ⟨⟨added, t⟩, hadd, heq⟩ := Option.map_eq_some_iff.mp ha
      cases heq
      exact h.actionNicAdd hadd
  | nicUpdate update =>
      obtain ⟨⟨error, t⟩, hupdate, heq⟩ := Option.map_eq_some_iff.mp ha
      cases heq
      exact h.actionNicUpdate hupdate
  | nicDel id =>
      obtain ⟨t, hdel, heq⟩ := Option.map_eq_some_iff.mp ha
      cases heq
      obtain ⟨hagree, hframe, -⟩ := h.removeNic hdel
      exact ⟨hagree, hframe⟩
  | sgAdd sg =>
      cases ha
      exact h.actionSgAdd sg
  | sgDel id =>
      cases ha
      exact h.actionSgDel id
  | sgRuleAdd sgId rule =>
      cases ha
      exact h.actionSgRuleAdd sgId rule
  | sgRuleDel sgId rule =>
      cases ha
      exact h.actionSgRuleDel sgId rule
  | sgMemberAdd sgId ip =>
      cases ha
      exact h.actionSgMemberAdd sgId ip
  | sgMemberDel sgId ip =>
      cases ha
      exact h.actionSgMemberDel sgId ip

end Actions

theorem Agree.sameCore {s s' : Server} (h : Agree s) (hcore : SameCore s s') :
    Agree s' := by
  have hbranch : ∀ v id, s'.branch v id = s.branch v id := by
    intro v id
    rw [Server.branch, hcore.vnis, Server.branch]
  refine ⟨⟨?_, ?_, ?_, ?_, ?_, ?_⟩, ?_, ?_, ?_⟩
  · rw [hcore.started]
    exact h.graph.started
  · intro v
    rw [hcore.vnis]
    exact h.graph.keyed v
  · intro v id gn
    rw [hbranch]
    exact h.graph.ids
  · intro v vni
    rw [hcore.vnis]
    exact h.graph.switched
  · intro v id gn
    rw [hbranch, hcore.nextSerial]
    exact h.graph.bricks
  · intro v id gn v' id' gn'
    rw [hbranch, hbranch]
    exact h.graph.distinct
  · rw [hcore.model]
    exact h.nicIds
  · rw [hcore.model]
    exact h.sgIds
  · intro v id
    rw [hbranch, hcore.model]
    exact h.branches v id

theorem agree_start (config : AppConfig) (pid : Nat) (startDate : UInt64) :
    Agree (Server.start config pid startDate) := by
  refine ⟨⟨rfl, fun v vni hvni => ?_, fun hgn => ?_, fun hvni => ?_, fun hgn => ?_,
    fun hgn => ?_⟩, fun hnic => ?_, fun hsg => ?_, fun v id => ?_⟩
  · simp at hvni
  · simp at hgn
  · simp at hvni
  · simp at hgn
  · simp at hgn
  · simp at hnic
  · simp at hsg
  · simp

end Butterfly
