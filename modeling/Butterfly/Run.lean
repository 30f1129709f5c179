import Butterfly.Agreement
import Butterfly.Libc

/-!
# Runs of requests

A request either leaves the model and the graph alone or performs the one action
it asks for.  Invariants of the server are proved action by action and carried to
every reachable state here.
-/

namespace Butterfly

open Std Foundation MessageV0

variable {P : Platform} {ambient : Ambient}

/-! ## Responses that refuse -/

def Accepted (res : Response) : Prop := res.status.status = some true

/-- `status` is false or there is an error in the response. -/
def Refused (res : Response) : Prop :=
  res.status.status = some false ∨ res.status.error.isSome

structure Nok (s : Server) (r : Response × Server) : Prop where
  core : SameCore s r.2
  status : r.1.status.status = some false
  clean : r.2.api0Error = ""

theorem buildNokText_nok (text : String) (s : Server) :
    Nok s (Api0.buildNokText {} text s) := by
  constructor
  · simpa [Api0.buildNokText, Api0.buildNokRes] using ⟨rfl, rfl, rfl, rfl, rfl, rfl, rfl⟩
  · simp [Api0.buildNokText, Api0.buildNokRes]
  · simp [Api0.buildNokText, Api0.buildNokRes]

theorem internalError_nok (error : Api0.ConvertError) (s : Server) :
    Nok s (Api0.internalError error s) := by
  obtain ⟨hcore, hstatus, hclean⟩ := buildNokText_nok "Internal error"
    { s with api0Error := error.getD s.api0Error }
  exact ⟨⟨hcore.config, hcore.pid, hcore.model, hcore.started, hcore.vnis,
    hcore.nextSerial, hcore.ops⟩, hstatus, hclean⟩

theorem buildNokError_nok (text : String) {s : Server} (h : s.api0Error = "") :
    Nok s (Api0.buildNokError {} text s) := by
  simp only [Api0.buildNokError, Api0.buildNokRes, h]
  exact ⟨.refl s, rfl, h⟩

/-! ## What a command does -/

/--
A command either leaves the core alone or performs the action it asks for, and
then its status says whether the action was accepted.
-/
inductive Outcome (P : Platform) (ambient : Ambient) (s : Server)
    (c : Api0.Command) (r : Response × Server) : Prop
  | nok : (∀ a, ¬Asks P ambient s c a) → Nok s r → Outcome P ambient s c r
  | read : (∀ a, ¬Asks P ambient s c a) → SameCore s r.2 → Accepted r.1 →
      r.2.api0Error = "" → Outcome P ambient s c r
  | act {a accepted s₁} : Asks P ambient s c a →
      perform P ambient a s = some (accepted, s₁) → SameCore s₁ r.2 →
      r.1.status.status = some accepted → r.2.api0Error = "" →
      Outcome P ambient s c r

section Handlers

variable {s : Server} {r : Response × Server}

theorem outcome_nicAdd (hagree : Agree s) (hclean : s.api0Error = "")
    {n : MessageV0.Nic} (h : Api0.nicAdd P ambient n s = some r) :
    Outcome P ambient s (.nicAdd n) r := by
  unfold Api0.nicAdd at h
  split at h
  · next hinvalid =>
      cases h
      refine .nok ?_ (buildNokText_nok _ _)
      intro a ha
      cases ha with
      | nicAdd hvalid hok => simp [hvalid] at hinvalid
  · next hvalid =>
      split at h
      · next error herror =>
          cases h
          refine .nok ?_ (internalError_nok _ _)
          intro a ha
          cases ha with
          | nicAdd hvalid hok => simp [herror] at hok
      · next nic hnic =>
          have hasks : Asks P ambient s (.nicAdd n) (.nicAdd nic) :=
            .nicAdd (by simpa using hvalid) hnic
          obtain ⟨⟨added, s₁⟩, hadd, hres⟩ := Option.bind_eq_some_iff.mp h
          have hframe := (hagree.actionNicAdd hadd).2
          have hs₁ : s₁.api0Error = "" := hframe.api0Error.trans hclean
          cases added with
          | none =>
              cases hres
              obtain ⟨hcore, hstatus, herror⟩ := buildNokError_nok "" hs₁
              exact .act hasks (by simp [perform, hadd]) hcore hstatus herror
          | some nic' =>
              cases hres
              exact .act hasks (by simp [perform, hadd]) (.refl s₁) rfl hs₁

theorem outcome_nicUpdate (hagree : Agree s) (hclean : s.api0Error = "")
    {n : NicUpdateReq} (h : Api0.nicUpdate P ambient n s = some r) :
    Outcome P ambient s (.nicUpdate n) r := by
  unfold Api0.nicUpdate at h
  split at h
  · next hinvalid =>
      cases h
      refine .nok ?_ (buildNokText_nok _ _)
      intro a ha
      cases ha with
      | nicUpdate hvalid hok => simp [hvalid] at hinvalid
  · next hvalid =>
      split at h
      · next error herror =>
          cases h
          refine .nok ?_ (internalError_nok _ _)
          intro a ha
          cases ha with
          | nicUpdate hvalid hok => simp [herror] at hok
      · next update hupdate =>
          have hasks : Asks P ambient s (.nicUpdate n) (.nicUpdate update) :=
            .nicUpdate (by simpa using hvalid) hupdate
          obtain ⟨⟨error, s₁⟩, hadd, hres⟩ := Option.bind_eq_some_iff.mp h
          have hframe := (hagree.actionNicUpdate hadd).2
          have hs₁ : s₁.api0Error = "" := hframe.api0Error.trans hclean
          cases error with
          | none =>
              cases hres
              exact .act hasks (by simp [perform, hadd]) (.refl s₁) rfl hs₁
          | some text =>
              cases hres
              obtain ⟨hcore, hstatus, herror⟩ := buildNokError_nok text hs₁
              exact .act hasks (by simp [perform, hadd]) hcore hstatus herror

theorem outcome_action {c : Api0.Command} {a : Action} {s₁ : Server}
    (hagree : Agree s) (hclean : s.api0Error = "") (hasks : Asks P ambient s c a)
    (ha : perform P ambient a s = some (true, s₁)) :
    Outcome P ambient s c (Api0.okRes, s₁) :=
  .act hasks ha (.refl s₁) rfl ((hagree.perform ha).2.api0Error.trans hclean)

theorem outcome_sgAdd (hagree : Agree s) (hclean : s.api0Error = "")
    (m : MessageV0.Sg) :
    Outcome P ambient s (.sgAdd m) (Api0.sgAdd P ambient m s) := by
  unfold Api0.sgAdd
  split
  · next hinvalid =>
      refine .nok ?_ (buildNokText_nok _ _)
      intro a ha
      cases ha with
      | sgAdd hvalid hok => simp [hvalid] at hinvalid
  · next hvalid =>
      split
      · next error herror =>
          refine .nok ?_ (internalError_nok _ _)
          intro a ha
          cases ha with
          | sgAdd hvalid hok => simp [herror] at hok
      · next sg hsg =>
          exact outcome_action hagree hclean (.sgAdd (by simpa using hvalid) hsg) rfl

theorem outcome_withRule {action : String → Butterfly.Rule → Server → Server}
    {command : SgRuleReq → Api0.Command} (act : String → Butterfly.Rule → Action)
    (hasks : ∀ {req : SgRuleReq} {a}, Asks P ambient s (command req) a ↔
      ∃ rule, Api0.validateSgRule P req.rule = true ∧
        Api0.convertRule P req.rule = .ok rule ∧ a = act req.sgId rule)
    (hact : ∀ sgId rule,
      perform P ambient (act sgId rule) s = some (true, action sgId rule s))
    (hagree : Agree s) (hclean : s.api0Error = "") (req : SgRuleReq) :
    Outcome P ambient s (command req) (Api0.withRule P action req s) := by
  unfold Api0.withRule
  split
  · next hinvalid =>
      refine .nok ?_ (buildNokText_nok _ _)
      intro a ha
      obtain ⟨rule, hvalid, -⟩ := hasks.mp ha
      simp [hvalid] at hinvalid
  · next hvalid =>
      split
      · next error herror =>
          refine .nok ?_ (internalError_nok _ _)
          intro a ha
          obtain ⟨rule, -, hok, -⟩ := hasks.mp ha
          rw [herror] at hok
          cases hok
      · next rule hrule =>
          exact outcome_action hagree hclean
            (hasks.mpr ⟨rule, by simpa using hvalid, hrule, rfl⟩) (hact _ _)

theorem outcome_withMember {action : String → Ip → Server → Server}
    {command : SgMemberReq → Api0.Command} (act : String → Ip → Action)
    (hasks : ∀ {req : SgMemberReq} {a}, Asks P ambient s (command req) a ↔
      ∃ ip, Api0.validateIp P req.member = true ∧
        Api0.convertIp P req.member = .ok ip ∧ a = act req.sgId ip)
    (hact : ∀ sgId ip,
      perform P ambient (act sgId ip) s = some (true, action sgId ip s))
    (hagree : Agree s) (hclean : s.api0Error = "") (req : SgMemberReq) :
    Outcome P ambient s (command req) (Api0.withMember P action req s) := by
  unfold Api0.withMember
  split
  · next hinvalid =>
      refine .nok ?_ (buildNokText_nok _ _)
      intro a ha
      obtain ⟨ip, hvalid, -⟩ := hasks.mp ha
      simp [hvalid] at hinvalid
  · next hvalid =>
      split
      · next error herror =>
          refine .nok ?_ (internalError_nok _ _)
          intro a ha
          obtain ⟨ip, -, hok, -⟩ := hasks.mp ha
          rw [herror] at hok
          cases hok
      · next ip hip =>
          exact outcome_action hagree hclean
            (hasks.mpr ⟨ip, by simpa using hvalid, hip, rfl⟩) (hact _ _)

inductive ReadOutcome (s : Server) (r : Response × Server) : Prop
  | nok : Nok s r → ReadOutcome s r
  | ok : Accepted r.1 → SameCore s r.2 → r.2.api0Error = s.api0Error →
      ReadOutcome s r

theorem ReadOutcome.outcome {c : Api0.Command} (h : ReadOutcome s r)
    (hclean : s.api0Error = "") (hasks : ∀ a, ¬Asks P ambient s c a) :
    Outcome P ambient s c r := by
  cases h with
  | nok h => exact .nok hasks h
  | ok haccepted hcore herror => exact .read hasks hcore haccepted (herror.trans hclean)

theorem read_ok {s : Server} (res : Response) :
    ReadOutcome s (Api0.buildOkRes res, s) := .ok rfl (.refl s) rfl

theorem read_nok {s : Server} (text : String) :
    ReadOutcome s (Api0.buildNokText {} text s) := .nok (buildNokText_nok text s)

theorem read_nicDetails (id : String) : ReadOutcome s (Api0.nicDetails id s) := by
  unfold Api0.nicDetails
  split
  · split
    · exact read_nok _
    · exact read_ok _
  · exact read_ok _

theorem read_sgRuleList (id : String) : ReadOutcome s (Api0.sgRuleList id s) := by
  unfold Api0.sgRuleList
  split
  · exact read_nok _
  · split
    · exact read_nok _
    · exact read_ok _

theorem read_sgMemberList (id : String) :
    ReadOutcome s (Api0.sgMemberList id s) := by
  unfold Api0.sgMemberList
  split
  · exact read_nok _
  · exact read_ok _

theorem read_sgDetails (id : String) : ReadOutcome s (Api0.sgDetails id s) := by
  unfold Api0.sgDetails
  split
  · split
    · exact read_nok _
    · split
      · exact read_nok _
      · exact read_ok _
  · split
    · exact read_nok _
    · exact read_ok _

theorem read_nicExport (hclean : s.api0Error = "") (id : String) :
    ReadOutcome s (Api0.nicExport id s) := by
  unfold Api0.nicExport
  split
  · exact .nok (buildNokError_nok _ hclean)
  · exact read_ok _

theorem read_nicStats (hclean : s.api0Error = "") (id : String) :
    ReadOutcome s (Api0.nicStats ambient id s) := by
  unfold Api0.nicStats
  split
  · exact .nok (buildNokError_nok _ hclean)
  · exact read_ok _

theorem read_appConfig (config : AppConfigReq) :
    ReadOutcome s (Api0.appConfig config s) := by
  unfold Api0.appConfig
  split
  · exact read_ok _
  · split
    · next t ht =>
        unfold Api0.setLogLevel at ht
        split at ht
        · cases ht
          exact .ok rfl ⟨rfl, rfl, rfl, rfl, rfl, rfl, rfl⟩ rfl
        · cases ht
    · exact read_nok _

end Handlers

theorem handle_outcome {c : Api0.Command} {s : Server} {r : Response × Server}
    (hagree : Agree s) (hclean : s.api0Error = "")
    (h : Api0.handle P ambient c s = some r) : Outcome P ambient s c r := by
  cases c with
  | nicAdd n => exact outcome_nicAdd hagree hclean h
  | nicUpdate n => exact outcome_nicUpdate hagree hclean h
  | nicDel id =>
      obtain ⟨s₁, hdel, heq⟩ := Option.bind_eq_some_iff.mp h
      cases heq
      exact outcome_action hagree hclean (.nicDel id)
        (by rw [perform, hdel, Option.map_some])
  | sgAdd m =>
      cases h
      exact outcome_sgAdd hagree hclean m
  | sgDel id =>
      cases h
      exact outcome_action hagree hclean (.sgDel id) rfl
  | sgRuleAdd req =>
      cases h
      refine outcome_withRule .sgRuleAdd ?_ (fun _ _ => rfl) hagree hclean req
      intro req a
      constructor
      · intro ha
        cases ha with
        | sgRuleAdd hvalid hok => exact ⟨_, hvalid, hok, rfl⟩
      · rintro ⟨_, hvalid, hok, rfl⟩
        exact .sgRuleAdd hvalid hok
  | sgRuleDel req =>
      cases h
      refine outcome_withRule .sgRuleDel ?_ (fun _ _ => rfl) hagree hclean req
      intro req a
      constructor
      · intro ha
        cases ha with
        | sgRuleDel hvalid hok => exact ⟨_, hvalid, hok, rfl⟩
      · rintro ⟨_, hvalid, hok, rfl⟩
        exact .sgRuleDel hvalid hok
  | sgMemberAdd req =>
      cases h
      refine outcome_withMember .sgMemberAdd ?_ (fun _ _ => rfl) hagree hclean req
      intro req a
      constructor
      · intro ha
        cases ha with
        | sgMemberAdd hvalid hok => exact ⟨_, hvalid, hok, rfl⟩
      · rintro ⟨_, hvalid, hok, rfl⟩
        exact .sgMemberAdd hvalid hok
  | sgMemberDel req =>
      cases h
      refine outcome_withMember .sgMemberDel ?_ (fun _ _ => rfl) hagree hclean req
      intro req a
      constructor
      · intro ha
        cases ha with
        | sgMemberDel hvalid hok => exact ⟨_, hvalid, hok, rfl⟩
      · rintro ⟨_, hvalid, hok, rfl⟩
        exact .sgMemberDel hvalid hok
  | nicList =>
      cases h
      exact (read_ok _).outcome hclean (by rintro a ⟨⟩)
  | nicDetails id =>
      cases h
      exact (read_nicDetails id).outcome hclean (by rintro a ⟨⟩)
  | nicExport id =>
      cases h
      exact (read_nicExport hclean id).outcome hclean (by rintro a ⟨⟩)
  | nicStats id =>
      cases h
      exact (read_nicStats hclean id).outcome hclean (by rintro a ⟨⟩)
  | sgList =>
      cases h
      exact (read_ok _).outcome hclean (by rintro a ⟨⟩)
  | sgRuleList id =>
      cases h
      exact (read_sgRuleList id).outcome hclean (by rintro a ⟨⟩)
  | sgMemberList id =>
      cases h
      exact (read_sgMemberList id).outcome hclean (by rintro a ⟨⟩)
  | appStatus =>
      cases h
      exact (read_ok _).outcome hclean (by rintro a ⟨⟩)
  | appQuit =>
      cases h
      exact .read (by rintro a ⟨⟩) ⟨rfl, rfl, rfl, rfl, rfl, rfl, rfl⟩ rfl hclean
  | appConfig config =>
      cases h
      exact (read_appConfig config).outcome hclean (by rintro a ⟨⟩)
  | sgDetails id =>
      cases h
      exact (read_sgDetails id).outcome hclean (by rintro a ⟨⟩)

theorem respond_outcome {request : Option Request} {s : Server}
    {r : Response × Server} (hagree : Agree s) (hclean : s.api0Error = "")
    (h : Api0.respond P ambient request s = some r) :
    Nok s r ∨ ∃ rq c, request = some rq ∧ Api0.command rq = some c ∧
      Outcome P ambient s c r := by
  unfold Api0.respond at h
  split at h
  · cases h
    exact .inl (buildNokText_nok _ _)
  · next rq =>
      split at h
      · cases h
        exact .inl (buildNokText_nok _ _)
      · next c hc => exact .inr ⟨rq, c, rfl, hc, handle_outcome hagree hclean h⟩

/-! ## Reachable states -/

/-- A condition on what happens during one request. -/
abbrev Allowed := Server → Ambient → Option Request → Prop

def anything : Allowed := fun _ _ _ => True

/--
The states of the server between two requests, in runs whose requests all meet a
condition.  `ProcessRequest` counts every request.
-/
inductive Reachable (P : Platform) (allowed : Allowed) : Server → Prop where
  | start (config : AppConfig) (pid : Nat) (startDate : UInt64) :
      Reachable P allowed (Server.start config pid startDate)
  | count {s : Server} : Reachable P allowed s →
      Reachable P allowed { s with requestCounter := s.requestCounter + 1 }
  | respond {s s' : Server} {ambient : Ambient} {request : Option Request}
      {response : Response} : Reachable P allowed s → allowed s ambient request →
      Api0.respond P ambient request s = some (response, s') →
      Reachable P allowed s'

/-- The invariant every run keeps, whatever happens during its requests. -/
structure Sound (s : Server) : Prop where
  agree : Agree s
  clean : s.api0Error = ""

theorem Sound.respond {request : Option Request} {s s' : Server}
    {response : Response} (h : Sound s)
    (hrespond : Api0.respond P ambient request s = some (response, s')) :
    Sound s' := by
  rcases respond_outcome h.agree h.clean hrespond with hnok | ⟨rq, c, -, -, houtcome⟩
  · exact ⟨h.agree.sameCore hnok.core, hnok.clean⟩
  · cases houtcome with
    | nok _ hnok => exact ⟨h.agree.sameCore hnok.core, hnok.clean⟩
    | read _ hcore _ hclean => exact ⟨h.agree.sameCore hcore, hclean⟩
    | act _ hperform hcore _ hclean =>
        exact ⟨(h.agree.perform hperform).1.sameCore hcore, hclean⟩

theorem Reachable.sound {allowed : Allowed} {s : Server}
    (h : Reachable P allowed s) : Sound s := by
  induction h with
  | start config pid startDate => exact ⟨agree_start config pid startDate, rfl⟩
  | count _ ih => exact ⟨ih.agree.sameCore ⟨rfl, rfl, rfl, rfl, rfl, rfl, rfl⟩, ih.clean⟩
  | respond _ _ hrespond ih => exact ih.respond hrespond

def serve (P : Platform) (ambient : Ambient) : List Request → Server → Option Server
  | [], s => some s
  | rq :: rest, s => do
      let (_, s) ← Api0.respond P ambient (some rq) s
      serve P ambient rest s

theorem Reachable.serve {allowed : Allowed} {requests : List Request}
    {s s' : Server} (h : Reachable P allowed s)
    (hallowed : ∀ rq ∈ requests, ∀ s, allowed s ambient (some rq))
    (hserve : serve P ambient requests s = some s') : Reachable P allowed s' := by
  induction requests generalizing s with
  | nil =>
      cases hserve
      exact h
  | cons rq rest ih =>
      obtain ⟨⟨response, s₁⟩, hrespond, hrest⟩ := Option.bind_eq_some_iff.mp hserve
      have hs₁ := h.respond (hallowed rq List.mem_cons_self s) hrespond
      exact ih hs₁ (fun rq hrq => hallowed rq (List.mem_cons_of_mem _ hrq)) hrest

/-! ## Model and graph in every reachable state -/

theorem actionNicUpdate_finds (P : Platform) (ambient : Ambient) {update : NicUpdate}
    {old : Butterfly.Nic} {s : Server}
    (h : Agree s) (hold : s.model.nics[update.id]? = some old) :
    ∃ s' n₂ n₃ s₁ s₂ s₃,
      Api.actionNicUpdate P ambient update s = some (none, s') ∧
      UpdateStages P ambient update old s s' n₂ n₃ s₁ s₂ s₃ ∧
      (s₁.findNic (Api.revise update old)).isSome ∧
      (s₂.findNic n₂).isSome ∧ (s₃.findNic n₃).isSome := by
  have hset : Holds update.id (Api.revise update old)
      (Api.setNic update.id (Api.revise update old) s) :=
    (Holds.mk h hold).setNic rfl rfl
  obtain ⟨s₁, hs₁⟩ : ∃ s₁, s₁ = Api.refreshAntiSpoof P ambient update old
      (Api.revise update old) (Api.setNic update.id (Api.revise update old) s) :=
    ⟨_, rfl⟩
  have hone : Holds update.id (Api.revise update old) s₁ := by
    rw [hs₁]
    exact hset.tuned (refreshAntiSpoof_tuned _ _ _ _)
  have htrace : (Api.updateTrace ambient update (Api.revise update old) s₁).isSome := by
    unfold Api.updateTrace
    split
    · obtain ⟨t, ht⟩ := Option.isSome_iff_exists.mp
        (Graph.nicConfigPacketTrace_isSome ambient.ok update.packetTrace hone.findNic)
      rw [ht]
      rfl
    · rfl
  obtain ⟨⟨n₂, s₂⟩, hs₂⟩ := Option.isSome_iff_exists.mp htrace
  have htwo := hone.stage (updateTrace_stage hs₂)
  have hpath : (Api.updateTracePath ambient update n₂ s₂).isSome := by
    unfold Api.updateTracePath
    split
    · obtain ⟨t, ht⟩ := Option.isSome_iff_exists.mp
        (Graph.nicConfigPacketTracePath_isSome ambient.ok update.packetTracePath
          htwo.findNic)
      rw [ht]
      rfl
    · rfl
  obtain ⟨⟨n₃, s₃⟩, hs₃⟩ := Option.isSome_iff_exists.mp hpath
  have hthree := htwo.stage (updateTracePath_stage hs₃)
  refine ⟨Api.refreshFirewall ambient update old n₃ s₃, n₂, n₃, s₁, s₂, s₃, ?_,
    ⟨hs₁, hs₂, hs₃, rfl⟩, hone.findNic, htwo.findNic, hthree.findNic⟩
  simp [Api.actionNicUpdate, hold, ← hs₁, hs₂, hs₃]

theorem removeNic_isSome {s : Server} (h : Agree s) (id : String) :
    (Api.removeNic id s).isSome := by
  unfold Api.removeNic
  split
  · rfl
  · next nic hnic =>
      obtain ⟨t, ht⟩ := Option.isSome_iff_exists.mp (nicDel_isSome nic h.graph)
      rw [ht]
      rfl

theorem actionNicUpdate_isSome (P : Platform) (ambient : Ambient) {s : Server} (h : Agree s)
    (update : NicUpdate) :
    (Api.actionNicUpdate P ambient update s).isSome := by
  cases hold : s.model.nics[update.id]? with
  | none => simp [Api.actionNicUpdate, hold]
  | some old =>
      obtain ⟨s', -, -, -, -, -, hupdate, -⟩ :=
        actionNicUpdate_finds P ambient h hold
      rw [hupdate]
      rfl

/-- A command that follows the branch of an existing NIC. -/
inductive OnNic : Api0.Command → Prop
  | nicUpdate (req) : OnNic (.nicUpdate req)
  | nicStats (id) : OnNic (.nicStats id)
  | nicDel (id) : OnNic (.nicDel id)

theorem handle_isSome {s : Server} {c : Api0.Command} (h : Agree s) (hc : OnNic c) :
    (Api0.handle P ambient c s).isSome := by
  cases hc with
  | nicUpdate req =>
      simp only [Api0.handle, Api0.nicUpdate]
      split
      · rfl
      · split
        · rfl
        · next update hupdate =>
            obtain ⟨⟨error, s'⟩, hs'⟩ := Option.isSome_iff_exists.mp
              (actionNicUpdate_isSome P ambient h update)
            rw [hs']
            cases error <;> rfl
  | nicStats id => rfl
  | nicDel id =>
      obtain ⟨s', hs'⟩ := Option.isSome_iff_exists.mp (removeNic_isSome h id)
      simp [Api0.handle, Api0.nicDel, Api.actionNicDel, hs']

/--
The model and `vnis_` name the same NICs under the same VNIs, no id stands under
two VNIs, and no request on a NIC of the model misses its branch.
-/
theorem model_and_graph_agree {s : Server} (h : Reachable P anything s) :
    (∀ (id : String) (v : UInt32),
      (∃ nic, s.model.nics[id]? = some nic ∧ nic.vni = v) ↔
        ∃ vni, s.vnis[v]? = some vni ∧ id ∈ vni.nics) ∧
    (∀ (id : String) (v v' : UInt32) (vni vni' : GraphVni),
      s.vnis[v]? = some vni → s.vnis[v']? = some vni' → id ∈ vni.nics →
        id ∈ vni'.nics → v = v') ∧
    (∀ (id : String) (nic : Butterfly.Nic), s.model.nics[id]? = some nic →
      (∃ gn, s.findNic nic = some gn ∧ ∀ ambient,
        Api.actionNicStats ambient id s =
          .ok (ambient.rxBytes gn.vhost, ambient.txBytes gn.vhost)) ∧
      (∃ s', Api.actionNicDel id s = some s' ∧ s'.branch nic.vni id = none) ∧
      ∀ (ambient : Ambient) (update : NicUpdate), update.id = id →
        ∃ s' n₂ n₃ s₁ s₂ s₃,
          Api.actionNicUpdate P ambient update s = some (none, s') ∧
          UpdateStages P ambient update nic s s' n₂ n₃ s₁ s₂ s₃ ∧
          (s₁.findNic (Api.revise update nic)).isSome ∧
          (s₂.findNic n₂).isSome ∧ (s₃.findNic n₃).isSome) ∧
    ∀ (ambient : Ambient) (c : Api0.Command), OnNic c →
      (Api0.handle P ambient c s).isSome := by
  have hagree := h.sound.agree
  refine ⟨?_, ?_, ?_, fun ambient c hc => handle_isSome hagree hc⟩
  · intro id v
    rw [← hagree.branches v id, Server.branch]
    cases s.vnis[v]? with
    | none => simp
    | some vni => simp
  · intro id v v' vni vni' hvni hvni' hid hid'
    rw [ExtTreeMap.mem_iff_isSome_getElem?] at hid hid'
    apply hagree.unique
    · simpa [Server.branch, hvni] using hid
    · simpa [Server.branch, hvni'] using hid'
  · intro id nic hnic
    refine ⟨?_, ?_, ?_⟩
    · obtain ⟨gn, hgn⟩ := Option.isSome_iff_exists.mp (hagree.findNic hnic)
      refine ⟨gn, hgn, fun ambient => ?_⟩
      simp [Api.actionNicStats, hnic, Graph.nicGetStats, hgn]
    · obtain ⟨s', hs'⟩ := Option.isSome_iff_exists.mp (removeNic_isSome hagree id)
      obtain ⟨hagree', -, hmodel⟩ := hagree.removeNic hs'
      refine ⟨s', hs', hagree'.branch_eq_none ?_ nic.vni⟩
      simp [hmodel]
    · rintro ambient update rfl
      exact actionNicUpdate_finds P ambient hagree hnic

def twoNics : List Request :=
  [{ nicAdd := some { id := "nic-1", mac := "52:54:00:12:34:01", vni := 42
                      ip := ["42.0.0.1"], securityGroup := ["sg-1"] } },
   { nicAdd := some { id := "nic-2", mac := "52:54:00:12:34:02", vni := 42
                      ip := ["42.0.0.2"], securityGroup := ["sg-1"] } }]

theorem model_and_graph_agree_two_nics :
    ∃ s, Reachable Libc.platform anything s ∧ s.model.nics.size = 2 ∧
      ∀ (id : String) (v : UInt32),
        (∃ nic, s.model.nics[id]? = some nic ∧ nic.vni = v) ↔
          ∃ vni, s.vnis[v]? = some vni ∧ id ∈ vni.nics := by
  have hserve : ∃ s, serve Libc.platform {} twoNics (Server.start {} 1 0) = some s ∧
      s.model.nics.size = 2 := by
    refine ⟨(serve Libc.platform {} twoNics (Server.start {} 1 0)).get ?_, ?_, ?_⟩
    · decide +kernel
    · simp
    · decide +kernel
  obtain ⟨s, hs, hsize⟩ := hserve
  have hreachable : Reachable Libc.platform anything s :=
    (Reachable.start {} 1 0).serve (fun _ _ _ => trivial) hs
  exact ⟨s, hreachable, hsize, (model_and_graph_agree hreachable).1⟩

end Butterfly
