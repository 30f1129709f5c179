import Butterfly.Release
import Butterfly.Run
import Butterfly.Tracing

/-!
# Invariants of runs

An action is a series of elementary steps on the model, on a branch or on the log.
What each of them keeps, every action keeps, and what every action that is allowed
keeps, every run keeps.
-/

namespace Butterfly

open Std Foundation MessageV0 Butterfly.Graph

/-! ## Elementary steps of the trace functions -/

/-- What the trace functions do to the branch of a NIC at one time. -/
inductive TraceStep (nic : Butterfly.Nic) : Server → Server → Prop
  | poll (s) : TraceStep nic s (updatePoll s)
  | link {s gn b} : s.findNic nic = some gn → gn.sniffer = some b →
      TraceStep nic s (linked nic gn b s)
  | linkNew {s gn path} : s.findNic nic = some gn → gn.sniffer = none →
      TraceStep nic s (linked nic (withSniffer ⟨.sniffer, s.nextSerial⟩ gn)
        ⟨.sniffer, s.nextSerial⟩ (sniffed nic path s))
  | linkPath {s gn path} : s.findNic nic = some gn →
      TraceStep nic s (linked nic gn ⟨.sniffer, s.nextSerial⟩ (printed path s))
  | unlink {s gn b} : s.findNic nic = some gn → gn.sniffer = some b →
      TraceStep nic s (unlinked nic gn b s)

section TraceSteps

variable {ok : PgCall → Bool} {nic : Butterfly.Nic} {s s' : Server}

theorem Graph.sniffed_findNic {gn : GraphNic} {path : String} (hgn : s.findNic nic = some gn) :
    (sniffed nic path s).findNic nic = some (withSniffer ⟨.sniffer, s.nextSerial⟩ gn) := by
  rw [sniffed, Server.findNic_eq, Server.branch_updateNic, if_pos ⟨rfl, rfl⟩]
  change Option.map _ (s.findNic nic) = _
  rw [hgn]
  rfl

theorem disablePacketTrace_steps (hfind : (s.findNic nic).isSome)
    (h : disablePacketTrace nic s = some s') :
    Relation.ReflTransGen (TraceStep nic) s s' := by
  obtain ⟨gn, hgn⟩ := Option.isSome_iff_exists.mp hfind
  rcases disablePacketTrace_cases hgn h with ⟨-, rfl⟩ | ⟨-, b, hb, rfl⟩
  · exact .refl
  · exact .single (.unlink hgn hb)

theorem enablePacketTrace_steps (hfind : (s.findNic nic).isSome)
    (h : enablePacketTrace ok nic s = some s') :
    Relation.ReflTransGen (TraceStep nic) s s' := by
  obtain ⟨gn, hgn⟩ := Option.isSome_iff_exists.mp hfind
  rcases enablePacketTrace_cases hgn h with ⟨-, rfl⟩ | ⟨-, ⟨b, hb, rfl⟩ | ⟨⟨hnone, -⟩, rfl⟩⟩
  · exact .refl
  · exact .single (.link hgn hb)
  · exact .single (.linkNew hgn hnone)

theorem nicConfigPacketTrace_steps {isTraceSet : Bool} (hfind : (s.findNic nic).isSome)
    (h : nicConfigPacketTrace ok nic isTraceSet s = some s') :
    Relation.ReflTransGen (TraceStep nic) s s' := by
  obtain ⟨t, rfl, henable, hdisable⟩ := nicConfigPacketTrace_cases h
  refine Relation.ReflTransGen.tail ?_ (.poll t)
  cases isTraceSet with
  | true => exact enablePacketTrace_steps hfind (henable rfl)
  | false => exact disablePacketTrace_steps hfind (hdisable rfl)

theorem nicConfigPacketTracePath_steps {path : String} (hfind : (s.findNic nic).isSome)
    (h : nicConfigPacketTracePath ok nic path s = some s') :
    Relation.ReflTransGen (TraceStep nic) s s' := by
  rcases nicConfigPacketTracePath_cases h with ⟨-, rfl⟩ | ⟨-, t, gn', ht, hgn', hrest⟩
  · exact .refl
  · refine (disablePacketTrace_steps hfind ht).trans ?_
    rcases hrest with ⟨-, rfl⟩ | ⟨-, rfl⟩
    · exact .refl
    · exact .tail (.single (.linkPath hgn')) (.poll _)

end TraceSteps

theorem Graph.nicConfigAntiSpoof_eq (P : Platform) (ok : PgCall → Bool) (nic : Butterfly.Nic)
    (enable : Bool) (s : Server) :
    ∃ ops, (∀ op ∈ ops, CalmOp op) ∧ nicConfigAntiSpoof P ok nic enable s = s.emits ops := by
  unfold nicConfigAntiSpoof
  split
  · exact ⟨[], by simp, by simp⟩
  · next gn hgn =>
      split
      · obtain ⟨ops, hops, heq⟩ := arpAddAll_eq P ok gn.antispoof nic.ipList
          (s.direct (.arpDelAll gn.antispoof))
        refine ⟨.direct (.arpDelAll gn.antispoof) :: (ops ++
          [.direct (.arpEnable gn.antispoof)]), ?_, by rw [heq]; simp⟩
        simp only [List.forall_mem_cons, List.forall_mem_append, List.not_mem_nil,
          false_implies, implies_true, and_true]
        exact ⟨.arpDelAll _, hops, .arpEnable _⟩
      · exact ⟨[_], by simpa using .arpDisable _, Server.direct_eq _ _⟩

/-! ## Actions -/

def Action.OnGroup : Action → Prop
  | .nicAdd _ | .nicUpdate _ | .nicDel _ => False
  | _ => True

section Perform

variable {P : Platform} {ambient : Ambient} {s s' : Server}

theorem perform_group_invariant {I : Server → Prop}
    (hmodel : ∀ t f, (∀ m, (f m).nics = m.nics) → I t → I (Server.modifyModel f t))
    (hupdate : ∀ t nic, I t → I (Graph.fwUpdate ambient.ok nic t))
    (hrule : ∀ t nic rule, I t → I (Graph.fwAddRule ambient.ok nic rule t)) {a : Action}
    (ha : a.OnGroup) {accepted : Bool} (hs : I s)
    (hperform : perform P ambient a s = some (accepted, s')) : I s' := by
  have hsg : ∀ {t} sg, I t → I (Api.sgUpdate ambient sg t) := fun sg ht =>
    Api.forGroup_invariant (fun nic _ _ u hu => hupdate u nic hu) ht
  have hmembers : ∀ {t} sg, I t → I (Api.sgUpdateRuleMembers ambient sg t) := fun sg ht =>
    Api.sgUpdateRuleMembers_invariant ambient (fun nic _ _ _ _ _ u hu => hupdate u nic hu) ht
  have hensure : ∀ id, I (Api.ensureSg id s).2 := by
    intro id
    have hset : I (Api.setSg id { id := id } s) := hmodel s _ (fun _ => rfl) hs
    unfold Api.ensureSg
    split
    · exact hs
    · exact hset
  cases a with
  | nicAdd | nicUpdate | nicDel => exact ha.elim
  | sgAdd sg =>
      cases hperform
      have hset : I (Api.sgUpdateRuleMembers ambient sg
          (Api.sgUpdate ambient sg (Api.setSg sg.id sg s))) :=
        hmembers sg (hsg sg (hmodel _ _ (fun _ => rfl) hs))
      unfold Api.actionSgAdd
      split
      · split
        · exact hs
        · exact hset
      · exact hset
  | sgDel id =>
      cases hperform
      unfold Api.actionSgDel
      split
      · exact hs
      · exact hmembers _ (hsg _ (hmodel _ _ (fun _ => rfl) hs))
  | sgRuleAdd sgId rule =>
      cases hperform
      unfold Api.actionSgRuleAdd
      split
      next sg s₁ heq =>
        have hs₁ := hensure sgId
        rw [heq] at hs₁
        split
        · exact hs₁
        · exact Api.forGroup_invariant (fun nic _ _ u hu => hrule u nic rule hu)
            (hmodel _ _ (fun _ => rfl) hs₁)
  | sgRuleDel sgId rule =>
      cases hperform
      unfold Api.actionSgRuleDel
      split
      · exact hs
      · split
        · exact hs
        · exact hsg _ (hmodel _ _ (fun _ => rfl) hs)
  | sgMemberAdd sgId ip =>
      cases hperform
      unfold Api.actionSgMemberAdd
      split
      next sg s₁ heq =>
        have hs₁ := hensure sgId
        rw [heq] at hs₁
        split
        · exact hs₁
        · exact hmembers _ (hmodel _ _ (fun _ => rfl) hs₁)
  | sgMemberDel sgId ip =>
      cases hperform
      unfold Api.actionSgMemberDel
      split
      · exact hs
      · split
        · exact hs
        · exact hmembers _ (hmodel _ _ (fun _ => rfl) hs)

structure SameBranch (n n' : Butterfly.Nic) : Prop where
  id : n'.id = n.id
  vni : n'.vni = n.vni
  bypass : n'.bypassFiltering = n.bypassFiltering

inductive UpdateStep (ambient : Ambient) (old : Butterfly.Nic) : Server → Server → Prop
  | set {t n} : SameBranch old n → UpdateStep ambient old t (Api.setNic old.id n t)
  | calm {t ops} : (∀ op ∈ ops, CalmOp op) → UpdateStep ambient old t (Server.emits ops t)
  | trace {t t' nic} : SameBranch old nic → TraceStep nic t t' → UpdateStep ambient old t t'
  | update {t} (nic) : UpdateStep ambient old t (Graph.fwUpdate ambient.ok nic t)

theorem SameBranch.stage {key : String} {old n n' : Butterfly.Nic} {t t' : Server}
    (h : SameBranch old n) (hstage : Stage key n n' t t') : SameBranch old n' :=
  ⟨hstage.id.trans h.id, hstage.vni.trans h.vni, hstage.filtering.bypass.trans h.bypass⟩

theorem actionNicUpdate_steps (hagree : Agree s) {update : NicUpdate} {error : Option String}
    (hupdate : Api.actionNicUpdate P ambient update s = some (error, s')) :
    s' = s ∨ ∃ old, s.model.nics[old.id]? = some old ∧
      Relation.ReflTransGen (UpdateStep ambient old) s s' := by
  rcases actionNicUpdate_cases hupdate with ⟨-, -, rfl⟩ |
      ⟨-, old, hold, n₂, n₃, s₁, s₂, s₃, hstages⟩
  · exact .inl rfl
  have hid := hagree.nicIds hold
  have htrace : ∀ {t t' nic}, SameBranch old nic → Relation.ReflTransGen (TraceStep nic) t t' →
      Relation.ReflTransGen (UpdateStep ambient old) t t' := fun hsame h =>
    Relation.ReflTransGen.mono (fun _ _ hstep => .trace hsame hstep) _ _ h
  have hset : ∀ {t n}, SameBranch old n →
      UpdateStep ambient old t (Api.setNic update.id n t) := by
    intro t n hsame
    rw [← hid]
    exact .set hsame
  obtain ⟨hone, htwo, -, -⟩ := hstages.holds hagree hold
  have hrevised : SameBranch old (Api.revise update old) := ⟨rfl, rfl, rfl⟩
  have hn₂ := hrevised.stage (updateTrace_stage hstages.trace)
  have hn₃ := hn₂.stage (updateTracePath_stage hstages.path)
  have hs₁ : Relation.ReflTransGen (UpdateStep ambient old) s s₁ := by
    rw [hstages.antiSpoof]
    unfold Api.refreshAntiSpoof
    split
    · obtain ⟨ops, hops, heq⟩ := nicConfigAntiSpoof_eq P ambient.ok
        (Api.revise update old) (Api.revise update old).ipAntiSpoof
        (Api.setNic update.id (Api.revise update old) s)
      rw [heq]
      exact .tail (.single (hset hrevised)) (.calm hops)
    · exact .single (hset hrevised)
  have hs₂ : Relation.ReflTransGen (UpdateStep ambient old) s₁ s₂ := by
    have hstage := hstages.trace
    unfold Api.updateTrace at hstage
    split at hstage
    · obtain ⟨t, ht, heq⟩ := Option.bind_eq_some_iff.mp hstage
      cases heq
      exact (htrace hrevised (nicConfigPacketTrace_steps hone.findNic ht)).tail (hset hn₂)
    · cases hstage
      exact .refl
  have hs₃ : Relation.ReflTransGen (UpdateStep ambient old) s₂ s₃ := by
    have hstage := hstages.path
    unfold Api.updateTracePath at hstage
    split at hstage
    · obtain ⟨t, ht, heq⟩ := Option.bind_eq_some_iff.mp hstage
      cases heq
      exact (htrace hn₂ (nicConfigPacketTracePath_steps htwo.findNic ht)).tail (hset hn₃)
    · cases hstage
      exact .refl
  refine .inr ⟨old, hid ▸ hold, (hs₁.trans hs₂).trans (hs₃.trans ?_)⟩
  rw [hstages.firewall]
  unfold Api.refreshFirewall
  split
  · exact .single (.update _)
  · exact .refl

structure KeptByStep (ambient : Ambient) (I : Server → Prop) : Prop where
  model : ∀ {t} f, I t → I (Server.modifyModel f t)
  calm : ∀ {t ops}, I t → (∀ op ∈ ops, CalmOp op) → I (t.emits ops)
  trace : ∀ {t t' nic}, I t → TraceStep nic t t' → I t'
  update : ∀ {t} nic, I t → I (Graph.fwUpdate ambient.ok nic t)
  rule : ∀ {t} nic rule, I t → I (Graph.fwAddRule ambient.ok nic rule t)
  added : ∀ {t t' nic accepted}, I t → t.started = true → t.branch nic.vni nic.id = none →
    NicAdded ambient.ok nic t accepted t' → GivesBack ambient.ok nic t t' → I t'
  deleted : ∀ {t t' nic}, I t → GraphOk t → NicDeleted nic t t' → I t'

theorem nicAdd_added {nic : Butterfly.Nic} {added : Option Butterfly.Nic}
    (hstarted : s.started = true) (h : nicAdd P ambient.ok nic s = some (added, s')) :
    NicAdded ambient.ok nic s added.isSome s' := by
  rcases nicAdd_cases hstarted h with ⟨rfl, hadded⟩ | ⟨rfl, hadded⟩
  · exact hadded
  · exact hadded

namespace KeptByStep

variable {I : Server → Prop}

theorem removeNic (h : KeptByStep ambient I) (hagree : Agree s) (hs : I s) {id : String}
    (hdel : Api.removeNic id s = some s') : I s' := by
  unfold Api.removeNic at hdel
  split at hdel
  · cases hdel
    exact hs
  · obtain ⟨s₁, hs₁, heq⟩ := Option.bind_eq_some_iff.mp hdel
    cases heq
    exact h.model _ (h.deleted hs hagree.graph
      (nicDel_cases hagree.graph.started hagree.graph.keyed hs₁))

theorem actionNicAdd (h : KeptByStep ambient I) (hagree : Agree s) (hs : I s)
    {nic : Butterfly.Nic} {added : Option Butterfly.Nic}
    (hadd : Api.actionNicAdd P ambient nic s = some (added, s')) : I s' := by
  simp only [Api.actionNicAdd, Option.bind_eq_bind] at hadd
  obtain ⟨s₀, hs₀, hadd⟩ := Option.bind_eq_some_iff.mp hadd
  obtain ⟨⟨result, s₁⟩, hs₁, hadd⟩ := Option.bind_eq_some_iff.mp hadd
  obtain ⟨hagree₀, -, hmodel⟩ := hagree.removeNic hs₀
  have hnew : s₀.branch nic.vni nic.id = none :=
    hagree₀.branch_eq_none (by simp [hmodel]) nic.vni
  have hadded : I s₁ := h.added (h.removeNic hagree hs hs₀) hagree₀.graph.started hnew
    (nicAdd_added hagree₀.graph.started hs₁) (nicAdd_givesBack hagree₀.graph.started hs₁)
  cases result with
  | none =>
      cases hadd
      exact hadded
  | some nic' =>
      cases hadd
      exact h.model _ hadded

theorem actionNicUpdate (h : KeptByStep ambient I) (hagree : Agree s) (hs : I s)
    {update : NicUpdate} {error : Option String}
    (hupdate : Api.actionNicUpdate P ambient update s = some (error, s')) : I s' := by
  rcases actionNicUpdate_steps hagree hupdate with rfl | ⟨old, -, hsteps⟩
  · exact hs
  clear hupdate
  induction hsteps with
  | refl => exact hs
  | tail _ hstep ih =>
      cases hstep with
      | set => exact h.model _ ih
      | calm hops => exact h.calm ih hops
      | trace _ htrace => exact h.trace ih htrace
      | update nic => exact h.update nic ih

theorem perform (h : KeptByStep ambient I) (hagree : Agree s) (hs : I s) {a : Action}
    {accepted : Bool} (hperform : perform P ambient a s = some (accepted, s')) : I s' := by
  cases a with
  | nicAdd nic =>
      obtain ⟨⟨added, s₁⟩, hs₁, heq⟩ := Option.map_eq_some_iff.mp hperform
      cases heq
      exact h.actionNicAdd hagree hs hs₁
  | nicUpdate update =>
      obtain ⟨⟨error, s₁⟩, hs₁, heq⟩ := Option.map_eq_some_iff.mp hperform
      cases heq
      exact h.actionNicUpdate hagree hs hs₁
  | nicDel id =>
      obtain ⟨s₁, hs₁, heq⟩ := Option.map_eq_some_iff.mp hperform
      cases heq
      exact h.removeNic hagree hs hs₁
  | sgAdd | sgDel | sgRuleAdd | sgRuleDel | sgMemberAdd | sgMemberDel =>
      exact perform_group_invariant (fun _ f _ ht => h.model f ht)
        (fun _ nic ht => h.update nic ht) (fun _ nic rule ht => h.rule nic rule ht)
        (by exact trivial) hs hperform

end KeptByStep

/-! ## Runs -/

/-- What the action of a request keeps, its answer keeps. -/
theorem respond_invariant {I : Server → Prop} (hcore : ∀ {t t'}, SameCore t t' → I t → I t')
    (hagree : Agree s) (hclean : s.api0Error = "") (hs : I s) {request : Option Request}
    {response : Response}
    (hact : ∀ {rq c a accepted t}, request = some rq → Api0.command rq = some c →
      Asks P ambient s c a → Butterfly.perform P ambient a s = some (accepted, t) → I t)
    (hrespond : Api0.respond P ambient request s = some (response, s')) : I s' := by
  rcases respond_outcome hagree hclean hrespond with hnok | ⟨rq, c, rfl, hc, houtcome⟩
  · exact hcore hnok.core hs
  · cases houtcome with
    | nok _ hnok => exact hcore hnok.core hs
    | read _ hsame _ _ => exact hcore hsame hs
    | act hasks hperform hsame _ _ => exact hcore hsame (hact rfl hc hasks hperform)

/-- What holds at the start and is kept by all that is allowed, holds in every run. -/
theorem Reachable.invariant {allowed : Allowed} {I : Server → Prop} (h : Reachable P allowed s)
    (hstart : ∀ config pid startDate, I (Server.start config pid startDate))
    (hcore : ∀ {t t'}, SameCore t t' → I t → I t')
    (hact : ∀ {ambient t t' rq c a accepted}, Reachable P allowed t →
      allowed t ambient (some rq) → Api0.command rq = some c → Asks P ambient t c a → I t →
      Butterfly.perform P ambient a t = some (accepted, t') → I t') : I s := by
  induction h with
  | start config pid startDate => exact hstart config pid startDate
  | @count s _ ih =>
      have hsame : SameCore s { s with requestCounter := s.requestCounter + 1 } :=
        ⟨rfl, rfl, rfl, rfl, rfl, rfl, rfl⟩
      exact hcore hsame ih
  | respond hs hallowed hrespond ih =>
      obtain ⟨hagree, hclean⟩ := hs.sound
      refine respond_invariant hcore hagree hclean ih ?_ hrespond
      rintro rq c a accepted t rfl hc hasks hperform
      exact hact hs hallowed hc hasks ih hperform

/-- What the server becomes in the rest of a run. -/
inductive Later (P : Platform) (allowed : Allowed) (s : Server) : Server → Prop where
  | refl : Later P allowed s s
  | count {t : Server} : Later P allowed s t →
      Later P allowed s { t with requestCounter := t.requestCounter + 1 }
  | respond {t t' : Server} {ambient : Ambient} {request : Option Request}
      {response : Response} : Later P allowed s t → allowed t ambient request →
      Api0.respond P ambient request t = some (response, t') → Later P allowed s t'

theorem Later.reachable {allowed : Allowed} (h : Later P allowed s s')
    (hs : Reachable P allowed s) : Reachable P allowed s' := by
  induction h with
  | refl => exact hs
  | count _ ih => exact .count ih
  | respond _ hallowed hrespond ih => exact .respond ih hallowed hrespond

/-- What holds in a reachable state and is kept by all that is allowed, holds later. -/
theorem Later.invariant {allowed : Allowed} {I : Server → Prop} (h : Later P allowed s s')
    (hs : Reachable P allowed s) (hcore : ∀ {t t'}, SameCore t t' → I t → I t')
    (hact : ∀ {ambient t t' rq c a accepted}, Reachable P allowed t →
      allowed t ambient (some rq) → Api0.command rq = some c → Asks P ambient t c a → I t →
      Butterfly.perform P ambient a t = some (accepted, t') → I t') (hstart : I s) : I s' := by
  induction h with
  | refl => exact hstart
  | @count t _ ih =>
      have hsame : SameCore t { t with requestCounter := t.requestCounter + 1 } :=
        ⟨rfl, rfl, rfl, rfl, rfl, rfl, rfl⟩
      exact hcore hsame ih
  | respond hlater hallowed hrespond ih =>
      have ht := hlater.reachable hs
      obtain ⟨hagree, hclean⟩ := ht.sound
      refine respond_invariant hcore hagree hclean ih ?_ hrespond
      rintro rq c a accepted t rfl hc hasks hperform
      exact hact ht hallowed hc hasks ih hperform

end Perform

end Butterfly
