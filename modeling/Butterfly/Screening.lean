import Butterfly.Tenancy

/-!
# No way around a firewall

Every path that leaves the branch of a filtering NIC goes through the firewall of that
branch, at every moment of every interleaving.  What is linked when NICs come and go are
the heads of branches, and the trace functions give a branch another head than its
firewall: the result is about runs in which no such head is linked.
-/

namespace Butterfly

open Std Foundation MessageV0 Butterfly.Graph BrickGraph

/-! ## Screens -/

/-- One of the two bricks is the firewall that screens the other, or the same screens both. -/
def Adjoins (screen : Brick → Option Brick) (a b : Brick) : Prop :=
  screen a = screen b ∨ (screen a = none ∧ screen b = some a) ∨
    (screen b = none ∧ screen a = some b)

def LinksScreened (screen : Brick → Option Brick) : Op Rpc Direct → Prop
  | .push (.link a b) | .direct (.link a b) => Adjoins screen a b
  | _ => True

/-- Either the firewall of the branch screens the other bricks of it, or nothing does. -/
structure Behind (screen : Brick → Option Brick) (gn : GraphNic) : Prop where
  firewall : screen gn.firewall = none
  vhost : screen gn.vhost = none ∨ screen gn.vhost = some gn.firewall
  bricks : ∀ b ∈ gn.bricks, b = gn.firewall ∨ screen b = screen gn.vhost

section Screens

variable {screen : Brick → Option Brick} {g : BrickGraph} {gn : GraphNic}

theorem screened_kept : BrickGraph.machine.Keeps (LinksScreened screen)
    fun g => ∀ e ∈ g.edges, Adjoins screen e.west e.east :=
  edges_kept (fun hends => hends) (fun hends => hends) fun _ h => h

theorem Behind.adjoins (h : Behind screen gn) {a b : Brick} (ha : a ∈ gn.bricks)
    (hb : b ∈ gn.bricks) : Adjoins screen a b := by
  rcases h.bricks a ha with rfl | ha
  · rcases h.bricks b hb with rfl | hb
    · exact .inl rfl
    · rcases h.vhost with hopen | hclosed
      · exact .inl (h.firewall.trans (hb.trans hopen).symm)
      · exact .inr (.inl ⟨h.firewall, hb.trans hclosed⟩)
  · rcases h.bricks b hb with rfl | hb
    · rcases h.vhost with hopen | hclosed
      · exact .inl ((ha.trans hopen).trans h.firewall.symm)
      · exact .inr (.inr ⟨h.firewall, ha.trans hclosed⟩)
    · exact .inl (ha.trans hb.symm)

/-- Nothing is screened in the branch of a NIC without filtering. -/
theorem Behind.open (h : Behind screen gn) (hopen : screen gn.vhost = none) {b : Brick}
    (hb : b ∈ gn.bricks) : screen b = none := by
  rcases h.bricks b hb with rfl | hb
  · exact h.firewall
  · exact hb.trans hopen

theorem LinksOnly.screened {p q : Brick → Prop} {v : UInt32} {op : Op Rpc Direct}
    (h : LinksOnly p q v op) (hp : ∀ a b, p a → p b → Adjoins screen a b)
    (hvtep : screen vtepBrick = none) (hq : ∀ b, q b → screen b = none) :
    LinksScreened screen op := by
  have hends : ∀ {a b : Brick}, (p a ∧ p b) ∨ ((a = vtepBrick ∨ q a) ∧ q b) →
      Adjoins screen a b := by
    rintro a b (⟨ha, hb⟩ | ⟨rfl | ha, hb⟩)
    · exact hp a b ha hb
    · exact .inl (hvtep.trans (hq b hb).symm)
    · exact .inl ((hq a ha).trans (hq b hb).symm)
  cases op with
  | push c =>
      cases c with
      | link a b => exact hends h
      | _ => trivial
  | wait => trivial
  | direct d =>
      cases d with
      | link a b => exact hends h
      | _ => trivial

theorem Behind.congr {screen' : Brick → Option Brick} (h : Behind screen gn)
    (hsame : ∀ b ∈ gn.bricks, screen' b = screen b) : Behind screen' gn := by
  have hfirewall : screen' gn.firewall = screen gn.firewall :=
    hsame _ (by simp [GraphNic.bricks])
  have hvhost : screen' gn.vhost = screen gn.vhost := hsame _ (by simp [GraphNic.bricks])
  refine ⟨hfirewall.trans h.firewall, by rw [hvhost]; exact h.vhost, fun b hb => ?_⟩
  rw [hvhost, hsame b hb]
  exact h.bricks b hb

theorem Behind.filled (h : Behind screen gn) (nic : Butterfly.Nic) :
    Behind screen (Graph.filled nic gn) := by
  unfold Graph.filled
  split
  · exact h
  · exact ⟨h.firewall, h.vhost, h.bricks⟩

/-! ### A new branch -/

def newScreen (nic : Butterfly.Nic) (n : Nat) (b : Brick) : Option Brick :=
  if nic.bypassFiltering = false ∧ b.serial = n ∧ b.kind ≠ .firewall then some ⟨.firewall, n⟩
  else none

theorem behind_newBranch (screen : Brick → Option Brick) (nic : Butterfly.Nic) (n : Nat) :
    Behind (remark n (newScreen nic n) screen) (newBranch nic n) := by
  have hnew : ∀ kind, remark n (newScreen nic n) screen ⟨kind, n⟩ =
      newScreen nic n ⟨kind, n⟩ := fun kind => remark_of_le le_rfl
  constructor
  · simp [newBranch, hnew, newScreen]
  · cases hbypass : nic.bypassFiltering <;> simp [newBranch, hnew, newScreen, hbypass]
  · cases hbypass : nic.bypassFiltering <;> cases htrace : nic.packetTrace <;>
      simp [newBranch, GraphNic.bricks, hnew, newScreen, hbypass, htrace]

theorem screen_newHead (screen : Brick → Option Brick) (nic : Butterfly.Nic) (n : Nat) :
    remark n (newScreen nic n) screen (newBranch nic n).head = none := by
  have hserial : (newBranch nic n).head.serial = n :=
    newBranch_bricks nic n _ (by simp [GraphNic.bricks])
  rw [remark_of_le hserial.ge]
  cases hbypass : nic.bypassFiltering <;> simp [newScreen, newBranch, hbypass]

theorem open_newBranch (screen : Brick → Option Brick) (nic : Butterfly.Nic) (n : Nat) :
    remark n (newScreen nic n) screen (newBranch nic n).vhost = none ↔
      nic.bypassFiltering = true := by
  have hserial : n ≤ (newBranch nic n).vhost.serial := le_rfl
  rw [remark_of_le hserial]
  simp [newScreen, newBranch]

end Screens

/-! ## Every brick has one screen -/

/-- The NICs of the VNI, but for one, have their firewalls for heads if they filter. -/
def HeadsFiltered (s : Server) (v : UInt32) (id : String) : Prop :=
  ∀ other nic gn, other ≠ id → s.model.nics[other]? = some nic → nic.vni = v →
    nic.bypassFiltering = false → s.findNic nic = some gn → gn.head = gn.firewall

/-- The firewall that each brick has been created behind. -/
structure Screened (screen : Brick → Option Brick) (s : Server) : Prop where
  shared : ∀ b, b.serial = 0 → screen b = none
  switches : ∀ {v b}, s.switch? v = some b → screen b = none
  branches : ∀ {v id gn}, s.branch v id = some gn → Behind screen gn
  filters : ∀ {id : String} {nic gn}, s.model.nics[id]? = some nic → s.findNic nic = some gn →
    (screen gn.vhost = none ↔ nic.bypassFiltering = true)
  links : ∀ op ∈ s.ops, LinksScreened screen op

namespace Screened

variable {screen screen' : Brick → Option Brick} {s s' : Server} {ok : PgCall → Bool}
  {nic : Butterfly.Nic} {gn gn' : GraphNic} {sw : Option Brick} {accepted : Bool}
  {ops : List (Op Rpc Direct)}

theorem step (h : Screened screen s) (hnumbered : Numbered s) {p q : Brick → Prop} {v : UInt32}
    (hsame : ∀ b, b.serial < s.nextSerial → screen' b = screen b) (hlog : s'.ops = s.ops ++ ops)
    (hswitches : ∀ {u b}, s'.switch? u = some b → screen' b = none)
    (hbranches : ∀ {u id gn}, s'.branch u id = some gn → Behind screen' gn)
    (hfilters : ∀ {id : String} {nic gn}, s'.model.nics[id]? = some nic →
      s'.findNic nic = some gn → (screen' gn.vhost = none ↔ nic.bypassFiltering = true))
    (hlinks : ∀ op ∈ ops, LinksOnly p q v op) (hp : ∀ a b, p a → p b → Adjoins screen' a b)
    (hq : ∀ b, q b → screen' b = none) : Screened screen' s' := by
  have hshared : ∀ b, b.serial = 0 → screen' b = none := fun b hb =>
    (hsame b (hb ▸ hnumbered.positive)).trans (h.shared b hb)
  have hadjoins : ∀ {a b}, Adjoins screen a b →
      a.serial < s.nextSerial ∧ b.serial < s.nextSerial → Adjoins screen' a b := by
    intro a b hab hlt
    unfold Adjoins
    rwa [hsame a hlt.1, hsame b hlt.2]
  have hold : ∀ op, LinksScreened screen op → Below s.nextSerial op →
      LinksScreened screen' op := by
    intro op hop hbelow
    cases op with
    | push c =>
        cases c with
        | link a b => exact hadjoins hop hbelow
        | _ => trivial
    | wait => trivial
    | direct d =>
        cases d with
        | link a b => exact hadjoins hop hbelow
        | _ => trivial
  refine ⟨hshared, hswitches, hbranches, hfilters, ?_⟩
  rw [hlog]
  exact List.forall_mem_append.mpr
    ⟨fun op hop => hold op (h.links op hop) (hnumbered.links op hop),
      fun op hop => (hlinks op hop).screened hp (hshared vtepBrick rfl) hq⟩

/-- The head of a branch can be linked if it is the firewall, or if there is none. -/
theorem head (h : Screened screen s) (hagree : Agree s) {v : UInt32} {id : String}
    (hgn : s.branch v id = some gn)
    (hhead : ∀ nic, s.model.nics[id]? = some nic → nic.vni = v →
      nic.bypassFiltering = false → gn.head = gn.firewall) : screen gn.head = none := by
  obtain ⟨nic, hnic, rfl⟩ := (hagree.branches v id).mp (by rw [hgn]; rfl)
  have hbehind := h.branches hgn
  cases hbypass : nic.bypassFiltering with
  | true =>
      have hfind : s.findNic nic = some gn := by rw [Server.findNic_eq, hagree.nicIds hnic, hgn]
      exact hbehind.open ((h.filters hnic hfind).mpr hbypass) (by simp [GraphNic.bricks])
  | false => exact (congrArg screen (hhead nic hnic rfl hbypass)).trans hbehind.firewall

theorem emits (h : Screened screen s)
    (hlinks : ∀ op ∈ ops, LinksOnly (fun _ => False) (fun _ => False) 0 op) :
    Screened screen (s.emits ops) := by
  refine ⟨h.shared, h.switches, h.branches, h.filters, List.forall_mem_append.mpr
    ⟨h.links, fun op hop => ?_⟩⟩
  exact (hlinks op hop).screened (fun _ _ hfalse => hfalse.elim) (h.shared vtepBrick rfl)
    fun _ hfalse => hfalse.elim

/-- The new bricks of the branch get the screen of the old ones. -/
theorem reshape (h : Screened screen s) (hnumbered : Numbered s)
    (hr : Reshapes nic gn gn' ops s s')
    (hopen : nic.bypassFiltering = true → screen gn.vhost = none) :
    Screened (remark s.nextSerial (fun _ => screen gn.vhost) screen) s' := by
  have hgn : s.branch nic.vni nic.id = some gn := (Server.findNic_eq nic s).symm.trans hr.found
  have hbehind := h.branches hgn
  have hold : ∀ b ∈ gn.bricks,
      remark s.nextSerial (fun _ => screen gn.vhost) screen b = screen b :=
    fun b hb => remark_of_lt (hnumbered.branches hgn b hb)
  have hfirewall := hold gn.firewall (by simp [GraphNic.bricks])
  have hvhost := hold gn.vhost (by simp [GraphNic.bricks])
  have hbehind' : Behind (remark s.nextSerial (fun _ => screen gn.vhost) screen) gn' := by
    refine ⟨?_, ?_, fun b hb => ?_⟩
    · rw [hr.firewall, hfirewall]
      exact hbehind.firewall
    · rw [hr.firewall, hr.vhost, hvhost]
      exact hbehind.vhost
    · rw [hr.firewall, hr.vhost, hvhost]
      rcases hr.bricks b hb with hmem | hfresh
      · rw [hold b hmem]
        exact hbehind.bricks b hmem
      · exact .inr (remark_of_le hfresh)
  refine h.step hnumbered (fun b hb => remark_of_lt hb) hr.log (fun hb => ?_) (fun hg => ?_)
    (fun {id n g} hn hg => ?_) hr.links (fun a b ha hb => hbehind'.adjoins ha hb) fun b hb => ?_
  · rw [hr.switches] at hb
    rw [remark_of_lt (hnumbered.holds (.inr ⟨_, hb⟩))]
    exact h.switches hb
  · rw [hr.branch] at hg
    split at hg
    · cases hg
      exact hbehind'
    · exact (h.branches hg).congr fun b hb => remark_of_lt (hnumbered.branches hg b hb)
  · rw [hr.model] at hn
    rw [Server.findNic_eq, hr.branch] at hg
    split at hg
    · next hkey =>
        cases hg
        rw [hr.vhost, hvhost]
        exact h.filters hn (by rw [Server.findNic_eq, ← hkey.1, ← hkey.2, hgn])
    · have hvhost' := hnumbered.branches hg g.vhost (by simp [GraphNic.bricks])
      rw [remark_of_lt hvhost']
      exact h.filters hn (Server.findNic_eq n s ▸ hg)
  · refine hbehind'.open ?_ hb.2
    rw [hr.vhost, hvhost]
    exact hopen hb.1

theorem retire (h : Screened screen s) (hnumbered : Numbered s)
    (hr : Retires nic gn sw ops s s')
    (hheads : ∀ id other, nic.id ≠ id → s.branch nic.vni id = some other →
      screen other.head = none) : Screened screen s' := by
  have hback : ∀ {u id g}, s'.branch u id = some g → s.branch u id = some g := by
    intro u id g hg
    rw [hr.effect.branch] at hg
    split at hg
    · cases hg
    · exact hg
  refine h.step hnumbered (fun _ _ => rfl) hr.log (fun hb => h.switches (hr.switches hb).1)
    (fun hg => h.branches (hback hg)) (fun {id n g} hn hg => ?_) hr.links
    (fun _ _ hfalse => hfalse.elim) ?_
  · rw [hr.effect.model] at hn
    rw [Server.findNic_eq] at hg
    exact h.filters hn (Server.findNic_eq n s ▸ hback hg)
  · rintro b ⟨id, other, hne, hother, rfl⟩
    exact hheads id other hne hother

theorem modifyModel (h : Screened screen s) {f : Model → Model}
    (hnics : ∀ {id : String} {nic}, (f s.model).nics[id]? = some nic →
      ∃ old, s.model.nics[id]? = some old ∧ SameBranch old nic) :
    Screened screen (s.modifyModel f) := by
  refine ⟨h.shared, h.switches, h.branches, fun {id nic gn} hnic hgn => ?_, h.links⟩
  obtain ⟨old, hold, hsame⟩ := hnics hnic
  rw [Server.findNic_eq, hsame.id, hsame.vni] at hgn
  rw [hsame.bypass]
  exact h.filters hold (Server.findNic_eq old s ▸ hgn)

theorem grow (h : Screened screen s) (hagree : Agree s) (hnumbered : Numbered s)
    (hg : Grows nic accepted sw ops s s') (hnew : s.branch nic.vni nic.id = none)
    (hheads : HeadsFiltered s nic.vni nic.id) :
    Screened (remark s.nextSerial (newScreen nic s.nextSerial) screen) s' := by
  have hbranch := hg.effect.branch hnew
  have hold : ∀ {v id gn}, s.branch v id = some gn → ∀ b ∈ gn.bricks,
      remark s.nextSerial (newScreen nic s.nextSerial) screen b = screen b :=
    fun hgn b hb => remark_of_lt (hnumbered.branches hgn b hb)
  have hfresh : remark s.nextSerial (newScreen nic s.nextSerial) screen
      ⟨.switch, s.nextSerial + 1⟩ = none := by
    rw [remark_of_le (Nat.le_succ _)]
    simp [newScreen]
  have hswitch : ∀ b, sw = some b →
      remark s.nextSerial (newScreen nic s.nextSerial) screen b = none := by
    rintro b rfl
    rcases hg.choice with hsame | hnone | ⟨hsome, -⟩
    · rw [remark_of_lt (hnumbered.holds (.inr ⟨_, hsame.symm⟩))]
      exact h.switches hsame.symm
    · cases hnone
    · cases hsome
      exact hfresh
  refine h.step hnumbered (fun b hb => remark_of_lt hb) hg.log (fun {u b} hb => ?_)
    (fun {u id gn} hgn => ?_) (fun {id n gn} hn hgn => ?_) hg.links
    (fun a b ha hb => (behind_newBranch screen nic s.nextSerial).adjoins ha hb) fun b hb => ?_
  · rw [hg.switches] at hb
    split at hb
    · exact hswitch b hb
    · rw [remark_of_lt (hnumbered.holds (.inr ⟨_, hb⟩))]
      exact h.switches hb
  · rw [hbranch] at hgn
    split at hgn
    · cases hgn
      exact (behind_newBranch screen nic s.nextSerial).filled nic
    · exact (h.branches hgn).congr (hold hgn)
  · rw [hg.effect.model] at hn
    rw [Server.findNic_eq, hbranch, if_neg, ← Server.findNic_eq] at hgn
    · rw [hold (Server.findNic_eq n s ▸ hgn) gn.vhost (by simp [GraphNic.bricks])]
      exact h.filters hn hgn
    · rintro ⟨-, hvni, hid⟩
      have hsome := (hagree.branches n.vni id).mpr ⟨n, hn, rfl⟩
      rw [← hvni, ← hagree.nicIds hn, ← hid, hnew] at hsome
      cases hsome
  · rcases hb with hsw | rfl | ⟨id, gn, hgn, rfl⟩
    · exact hswitch b hsw
    · exact screen_newHead screen nic s.nextSerial
    · rw [hold hgn gn.head (by simp [GraphNic.bricks])]
      refine h.head hagree hgn fun n hn hvni hfilter => ?_
      refine hheads id n gn ?_ hn hvni hfilter ?_
      · rintro rfl
        rw [hnew] at hgn
        cases hgn
      · rw [Server.findNic_eq, hagree.nicIds hn, hvni, hgn]

end Screened

/-! ## Actions -/

section Actions

variable {P : Platform} {ambient : Ambient} {s s' : Server} {id : String} {nic : Butterfly.Nic}
  {screen : Brick → Option Brick} {n : Nat} {old : Brick → Option Brick}

theorem HeadsFiltered.removed {v : UInt32} (h : HeadsFiltered s v id) (hagree : Agree s)
    (hdel : Api.removeNic id s = some s') : HeadsFiltered s' v id := by
  intro other nic gn hne hnic hvni hfilter hgn
  obtain ⟨-, -, hmodel⟩ := hagree.removeNic hdel
  rw [hmodel, lookup_erase, if_neg hne.symm] at hnic
  refine h other nic gn hne hnic hvni hfilter ?_
  unfold Api.removeNic at hdel
  split at hdel
  · cases hdel
    exact hgn
  · next gone hgone =>
      obtain ⟨s₁, hs₁, heq⟩ := Option.bind_eq_some_iff.mp hdel
      cases heq
      have heffect := (nicDel_cases hagree.graph.started hagree.graph.keyed hs₁).effect
      rw [Server.findNic_eq] at hgn ⊢
      change s₁.branch nic.vni nic.id = some gn at hgn
      rw [heffect.branch, if_neg] at hgn
      · exact hgn
      · rintro ⟨-, hid⟩
        exact hne (by rw [← hagree.nicIds hnic, ← hid, hagree.nicIds hgone])

theorem Marked.removeNic (h : Marked Screened n old s) (hagree : Agree s)
    (hheads : ∀ gone, s.model.nics[id]? = some gone → HeadsFiltered s gone.vni id)
    (hdel : Api.removeNic id s = some s') : Marked Screened n old s' := by
  have htidy := (tidy_kept {} ∅).removeNic hagree h.tidy hdel
  unfold Api.removeNic at hdel
  split at hdel
  · cases hdel
    exact h
  · next gone hgone =>
      obtain ⟨s₁, hs₁, heq⟩ := Option.bind_eq_some_iff.mp hdel
      cases heq
      have hdeleted := nicDel_cases hagree.graph.started hagree.graph.keyed hs₁
      refine h.same htidy hdeleted.effect.serial fun {screen} hscreened => ?_
      have hretired : Screened screen s₁ := by
        rcases hdeleted.retires hagree.graph with rfl | ⟨gn, sw, ops, hr⟩
        · exact hscreened
        · refine hscreened.retire h.tidy.numbered hr fun other gn' hne hgn' => ?_
          refine hscreened.head hagree hgn' fun nic hnic hvni hfilter => ?_
          refine hheads gone hgone other nic gn' ?_ hnic hvni hfilter ?_
          · rintro rfl
            exact hne (hagree.nicIds hgone)
          · rw [Server.findNic_eq, hagree.nicIds hnic, hvni, hgn']
      refine hretired.modifyModel fun {a nic} hnic => ?_
      simp only [lookup_erase] at hnic
      split at hnic
      · cases hnic
      · exact ⟨nic, hnic, rfl, rfl, rfl⟩

theorem Screened.insertNic (h : Screened screen s) (hnew : s.model.nics[nic.id]? = none)
    (hopen : ∀ gn, s.findNic nic = some gn →
      (screen gn.vhost = none ↔ nic.bypassFiltering = true)) :
    Screened screen
      (s.modifyModel fun m => { m with nics := m.nics.insertIfNew nic.id nic }) := by
  refine ⟨h.shared, h.switches, h.branches, fun {id n gn} hn hgn => ?_, h.links⟩
  simp only [Server.modifyModel_model, lookup_insertIfNew, hnew, Option.getD_none] at hn
  split at hn
  · cases hn
    exact hopen gn hgn
  · exact h.filters hn hgn

theorem Marked.actionNicAdd (h : Marked Screened n old s) (hagree : Agree s)
    (hheads : HeadsFiltered s nic.vni nic.id)
    (hgone : ∀ gone, s.model.nics[nic.id]? = some gone → HeadsFiltered s gone.vni nic.id)
    {added : Option Butterfly.Nic} (hadd : Api.actionNicAdd P ambient nic s = some (added, s')) :
    Marked Screened n old s' := by
  have htidy := (tidy_kept ambient ∅).actionNicAdd hagree h.tidy hadd
  simp only [Api.actionNicAdd, Option.bind_eq_bind] at hadd
  obtain ⟨s₀, hs₀, hadd⟩ := Option.bind_eq_some_iff.mp hadd
  obtain ⟨⟨result, s₁⟩, hs₁, hadd⟩ := Option.bind_eq_some_iff.mp hadd
  obtain ⟨hagree₀, -, hmodel⟩ := hagree.removeNic hs₀
  have hnew : s₀.branch nic.vni nic.id = none :=
    hagree₀.branch_eq_none (by simp [hmodel]) nic.vni
  have h₀ : Marked Screened n old s₀ := h.removeNic hagree hgone hs₀
  have hstarted := hagree₀.graph.started
  obtain ⟨sw, ops, hg⟩ := (nicAdd_added hstarted hs₁).grows h₀.tidy.numbered
    h₀.tidy.switched.kind hstarted hnew (nicAdd_givesBack hstarted hs₁)
  have hgrown : ∀ {screen}, Screened screen s₀ →
      Screened (Butterfly.remark s₀.nextSerial (newScreen nic s₀.nextSerial) screen) s₁ :=
    fun hscreened =>
      hscreened.grow hagree₀ h₀.tidy.numbered hg hnew (hheads.removed hagree hs₀)
  cases result with
  | none =>
      cases hadd
      exact h₀.remark htidy hg.effect.serial.le fun hscreened => ⟨_, hgrown hscreened⟩
  | some nic' =>
      cases hadd
      have hnic' : nic' = { nic with path := nicPath P nic } := by
        rcases nicAdd_cases hstarted hs₁ with ⟨hnone, -⟩ | ⟨hsome, -⟩
        · cases hnone
        · exact Option.some.inj hsome
      subst hnic'
      refine h₀.remark htidy hg.effect.serial.le fun {screen} hscreened =>
        ⟨_, (hgrown hscreened).insertNic (by rw [hg.effect.model, hmodel]; simp) fun gn hgn => ?_⟩
      have hbranch := hg.effect.branch hnew nic.vni nic.id
      rw [if_pos ⟨rfl, rfl, rfl⟩] at hbranch
      obtain rfl : _ = gn := Option.some.inj (hbranch.symm.trans (Server.findNic_eq _ s₁ ▸ hgn))
      rw [(filled_ends nic _).1]
      exact open_newBranch screen nic s₀.nextSerial

theorem Marked.reshape (h : Marked Screened n old s) (htidy : Tidy ∅ s') {gn gn' : GraphNic}
    {ops : List (Op Rpc Direct)} (hr : Reshapes nic gn gn' ops s s')
    (hopen : ∀ {screen}, Screened screen s → nic.bypassFiltering = true →
      screen gn.vhost = none) : Marked Screened n old s' :=
  h.remark htidy hr.serial fun hscreened =>
    ⟨_, hscreened.reshape h.tidy.numbered hr (hopen hscreened)⟩

theorem Marked.fwUpdate (h : Marked Screened n old s) (ok : PgCall → Bool)
    (nic : Butterfly.Nic) : Marked Screened n old (Graph.fwUpdate ok nic s) := by
  rcases fwUpdate_reshapes ok nic s with heq | ⟨hfilter, gn, gn', ops, hr⟩
  · rwa [heq]
  · exact h.reshape (h.tidy.fwUpdate ok nic) hr fun _ hbypass => by
      rw [hfilter] at hbypass
      cases hbypass

theorem Marked.fwAddRule (h : Marked Screened n old s) (ok : PgCall → Bool)
    (nic : Butterfly.Nic) (rule : Rule) :
    Marked Screened n old (Graph.fwAddRule ok nic rule s) := by
  rcases fwAddRule_reshapes ok nic rule s with heq | ⟨hfilter, gn, gn', ops, hr⟩
  · rwa [heq]
  · exact h.reshape (h.tidy.fwAddRule ok nic rule) hr fun _ hbypass => by
      rw [hfilter] at hbypass
      cases hbypass

theorem Marked.updateStep (h : Marked Screened n old s) {nic₀ : Butterfly.Nic}
    (hnic : ∃ nic, s.model.nics[nic₀.id]? = some nic ∧ SameBranch nic₀ nic)
    (hstep : UpdateStep ambient nic₀ s s') :
    Marked Screened n old s' ∧
      ∃ nic, s'.model.nics[nic₀.id]? = some nic ∧ SameBranch nic₀ nic := by
  obtain ⟨nic, hlookup, hsame⟩ := hnic
  cases hstep with
  | @set nic' hsame' =>
      refine ⟨h.same (h.tidy.modifyModel _) rfl fun hscreened => hscreened.modifyModel ?_,
        nic', by simp [Api.setNic], hsame'⟩
      intro a m hm
      simp only [lookup_insert] at hm
      split at hm
      · next ha =>
          cases hm
          exact ⟨nic, ha ▸ hlookup, hsame'.id.trans hsame.id.symm, hsame'.vni.trans hsame.vni.symm,
            hsame'.bypass.trans hsame.bypass.symm⟩
      · exact ⟨m, hm, rfl, rfl, rfl⟩
  | calm hops =>
      exact ⟨h.same ((tidy_kept ambient ∅).calm h.tidy hops) rfl fun hscreened =>
        hscreened.emits fun op hop => links_calm (hops op hop), nic, hlookup, hsame⟩
  | @trace _ nic' hsame' htrace =>
      have htidy := h.tidy.traceStep htrace
      rcases htrace.reshapes with rfl | ⟨gn, gn', ops, hr⟩
      · exact ⟨h.same htidy rfl fun hscreened => hscreened.emits (by simp [LinksOnly]), nic,
          hlookup, hsame⟩
      · refine ⟨h.reshape htidy hr fun hscreened hbypass => ?_, nic, by rwa [hr.model], hsame⟩
        have hfind := hr.found
        rw [Server.findNic_eq, hsame'.id, hsame'.vni, ← hsame.id, ← hsame.vni,
          ← Server.findNic_eq] at hfind
        refine (hscreened.filters hlookup hfind).mpr ?_
        rw [hsame.bypass, ← hsame'.bypass, hbypass]
  | update nic' =>
      have hmodel : (Graph.fwUpdate ambient.ok nic' s).model = s.model := by
        rcases fwUpdate_reshapes ambient.ok nic' s with heq | ⟨-, _, _, _, hr⟩
        · rw [heq]
        · exact hr.model
      exact ⟨h.fwUpdate ambient.ok nic', nic, by rwa [hmodel], hsame⟩

theorem Marked.actionNicUpdate (h : Marked Screened n old s) (hagree : Agree s)
    {update : NicUpdate} {error : Option String}
    (hupdate : Api.actionNicUpdate P ambient update s = some (error, s')) :
    Marked Screened n old s' := by
  rcases actionNicUpdate_steps hagree hupdate with rfl | ⟨nic₀, hnic₀, hsteps⟩
  · exact h
  clear hupdate
  have hall : Marked Screened n old s' ∧
      ∃ nic, s'.model.nics[nic₀.id]? = some nic ∧ SameBranch nic₀ nic := by
    induction hsteps with
    | refl => exact ⟨h, nic₀, hnic₀, rfl, rfl, rfl⟩
    | tail _ hstep ih => exact ih.1.updateStep ih.2 hstep
  exact hall.1

def Action.LinksFiltered (s : Server) : Action → Prop
  | .nicAdd nic => HeadsFiltered s nic.vni nic.id ∧
      ∀ gone, s.model.nics[nic.id]? = some gone → HeadsFiltered s gone.vni nic.id
  | .nicDel id => ∀ gone, s.model.nics[id]? = some gone → HeadsFiltered s gone.vni id
  | _ => True

theorem Marked.perform (h : Marked Screened n old s) (hagree : Agree s) {a : Action}
    (ha : a.LinksFiltered s) {accepted : Bool}
    (hperform : Butterfly.perform P ambient a s = some (accepted, s')) :
    Marked Screened n old s' := by
  cases a with
  | nicAdd nic =>
      obtain ⟨⟨added, s₁⟩, hs₁, heq⟩ := Option.map_eq_some_iff.mp hperform
      cases heq
      exact h.actionNicAdd hagree ha.1 ha.2 hs₁
  | nicUpdate update =>
      obtain ⟨⟨error, s₁⟩, hs₁, heq⟩ := Option.map_eq_some_iff.mp hperform
      cases heq
      exact h.actionNicUpdate hagree hs₁
  | nicDel id =>
      obtain ⟨s₁, hs₁, heq⟩ := Option.map_eq_some_iff.mp hperform
      cases heq
      exact h.removeNic hagree ha hs₁
  | sgAdd | sgDel | sgRuleAdd | sgRuleDel | sgMemberAdd | sgMemberDel =>
      exact perform_group_invariant
        (fun t f hnics ht => ht.same (ht.tidy.modifyModel f) rfl fun hscreened =>
          hscreened.modifyModel fun hnic => ⟨_, hnics _ ▸ hnic, rfl, rfl, rfl⟩)
        (fun _ nic ht => ht.fwUpdate ambient.ok nic)
        (fun _ nic rule ht => ht.fwAddRule ambient.ok nic rule)
        (by exact trivial) h hperform

end Actions

/-! ## Runs -/

section Runs

variable {P : Platform} {s s' t : Server} {screen : Brick → Option Brick}

/-- When a NIC comes or goes, the other ones of its VNI have their firewalls for heads. -/
def headsFiltered (P : Platform) : Allowed := fun s ambient request =>
  ∀ rq c a, request = some rq → Api0.command rq = some c → Asks P ambient s c a →
    a.LinksFiltered s

theorem Screened.sameCore (h : Screened screen s) (hcore : SameCore s s') :
    Screened screen s' := by
  have hbranch : ∀ v id, s'.branch v id = s.branch v id := fun v id => by
    rw [Server.branch, hcore.vnis, Server.branch]
  refine ⟨h.shared, fun {v b} hb => h.switches (v := v) ?_, fun {v id gn} hgn => ?_,
    fun {id nic gn} hnic hgn => ?_, hcore.ops ▸ h.links⟩
  · rwa [Server.switch?, hcore.vnis] at hb
  · exact h.branches (hbranch v id ▸ hgn)
  · rw [hcore.model] at hnic
    rw [Server.findNic_eq, hbranch, ← Server.findNic_eq] at hgn
    exact h.filters hnic hgn

theorem screened_start (config : AppConfig) (pid : Nat) (startDate : UInt64) :
    Screened (fun _ => none) (Server.start config pid startDate) := by
  refine ⟨fun _ _ => rfl, fun _ => rfl, fun {v id gn} hgn => ?_, fun {id nic gn} hnic => ?_,
    fun op hop => ?_⟩
  · simp at hgn
  · simp at hnic
  · obtain rfl : op = .push .vhostStart := List.mem_singleton.mp hop
    trivial

theorem Reachable.screened (h : Reachable P (headsFiltered P) s) : ∃ screen, Screened screen s := by
  have hmarked : Marked Screened 0 (fun _ => none) s := h.invariant
    (fun config pid startDate => ⟨tidy_start config pid startDate, Nat.zero_le _, _,
      screened_start config pid startDate, fun _ _ => rfl⟩)
    (fun hcore h => h.same (h.tidy.sameCore hcore) hcore.nextSerial fun hscreened =>
      hscreened.sameCore hcore)
    fun hs hallowed hc hasks h hperform =>
      h.perform hs.sound.agree (hallowed _ _ _ rfl hc hasks) hperform
  obtain ⟨screen, hscreened, -⟩ := hmarked.marks
  exact ⟨screen, hscreened⟩

/-- Bricks stay behind their firewalls. -/
theorem Later.screened (h : Later P (headsFiltered P) t s) (ht : Reachable P (headsFiltered P) t)
    (hscreened : Screened screen t) : Marked Screened t.nextSerial screen s :=
  h.invariant ht
    (fun hcore h => h.same (h.tidy.sameCore hcore) hcore.nextSerial fun hscreened =>
      hscreened.sameCore hcore)
    (fun hs hallowed hc hasks h hperform =>
      h.perform hs.sound.agree (hallowed _ _ _ rfl hc hasks) hperform)
    ⟨ht.tidy, le_rfl, screen, hscreened, fun _ _ => rfl⟩

/-! ## Interleavings -/

theorem Screened.adjoins (h : Screened screen s) {c : Config Packetgraph Rpc Direct}
    (hc : Packetgraph.machine.Reachable (Machine.start s.ops s.startGraph) c) :
    ∀ e ∈ c.state.graph.edges, Adjoins screen e.west e.east := by
  refine screened_kept.of_reachable ?_ h.links (reachable_graph hc)
  have hshared : ∀ a b : Brick, a.serial = 0 → b.serial = 0 → Adjoins screen a b :=
    fun a b ha hb => .inl ((h.shared a ha).trans (h.shared b hb).symm)
  unfold Server.startGraph
  split
  · simp only [List.forall_mem_cons, List.not_mem_nil, false_implies, implies_true, and_true]
    exact ⟨hshared _ _ rfl rfl, hshared _ _ rfl rfl⟩
  · simp only [List.forall_mem_cons, List.not_mem_nil, false_implies, implies_true, and_true]
    exact hshared _ _ rfl rfl

def tracedNeighbour : List Request :=
  twoNics ++ [{ nicUpdate := some { id := "nic-1", packetTrace := some true } },
    { nicDel := some "nic-2" }]

/--
The condition is needed: when the other NIC of the VNI goes, a sniffer that has become the
head of its branch is linked to the vtep, and so is the vhost behind it.
-/
theorem traced_head_leads_around :
    ∃ s gn, Reachable Libc.platform anything s ∧ s.branch 42 "nic-1" = some gn ∧
      (s.model.nics["nic-1"]?).any (fun nic => !nic.bypassFiltering) = true ∧
      s.settled.graph.Around gn.firewall gn.vhost vtepBrick := by
  have hserve : (serve Libc.platform {} tracedNeighbour (Server.start {} 1 0)).any (fun s =>
      (s.model.nics["nic-1"]?).any (fun nic => !nic.bypassFiltering) &&
        (s.branch 42 "nic-1").any fun gn => gn.head ≠ gn.firewall ∧ gn.vhost ≠ gn.firewall ∧
          gn.firewall ≠ vtepBrick ∧
          (s.settled.graph.edges.any fun e => e.west = gn.head ∧ e.east = gn.vhost) ∧
            s.settled.graph.edges.any fun e => e.west = vtepBrick ∧ e.east = gn.head) = true := by
    decide +kernel
  obtain ⟨s, hs, hany⟩ := (Option.any_eq_true _ _).mp hserve
  obtain ⟨hfilter, hany⟩ := Bool.and_eq_true_iff.mp hany
  obtain ⟨gn, hgn, hany⟩ := (Option.any_eq_true _ _).mp hany
  obtain ⟨hhead, hvhost, hvtep, hinner, houter⟩ := of_decide_eq_true hany
  obtain ⟨e, he, hends⟩ := List.any_eq_true.mp hinner
  obtain ⟨e', he', hends'⟩ := List.any_eq_true.mp houter
  have hreachable : Reachable Libc.platform anything s :=
    (Reachable.start {} 1 0).serve (fun _ _ _ => trivial) hs
  refine ⟨s, gn, hreachable, hgn, hfilter, ?_⟩
  refine .tail (.single (b := gn.head) ⟨.inr ⟨e, he, ?_⟩, hvhost, hhead⟩)
    ⟨.inr ⟨e', he', ?_⟩, hhead, hvtep.symm⟩
  · exact of_decide_eq_true hends
  · exact of_decide_eq_true hends'

end Runs

end Butterfly
