import Butterfly.WellFormed

/-!
# Responses

Each handler answers with one of `BuildOkRes` and the `BuildNokRes` family.  The latter
look at `api_0_error`, which a converter may have left behind, and one of them does not
set the status when it finds a text there.
-/

namespace Butterfly

open Std Foundation MessageV0

variable {P : Platform} {ambient : Ambient}

/-! ## Success -/

def Succeeds (P : Platform) (ambient : Ambient) (s : Server) : Api0.Command → Prop
  | .nicAdd n => Api0.validateNic P n = true ∧ ∃ nic added s',
      Api0.convertNic P s.config.packetTrace s.pid n = .ok nic ∧
        Api.actionNicAdd P ambient nic s = some (some added, s')
  | .nicUpdate n => Api0.validateNicUpdate P n = true ∧ ∃ update s',
      Api0.convertNicUpdate P s.pid ambient.garbage n = .ok update ∧
        Api.actionNicUpdate P ambient update s = some (none, s')
  | .nicDel id => ∃ s', Api.actionNicDel id s = some s'
  | .nicDetails id => id = "" ∨ ∃ nic, s.model.nics[id]? = some nic
  | .nicExport id => ∃ nic, s.model.nics[id]? = some nic
  | .nicStats id => ∃ nic, s.model.nics[id]? = some nic
  | .sgAdd m => Api0.validateSg P m = true ∧ ∃ sg, Api0.convertSg P m = .ok sg
  | .sgRuleAdd req => Api0.validateSgRule P req.rule = true ∧
      ∃ rule, Api0.convertRule P req.rule = .ok rule
  | .sgRuleDel req => Api0.validateSgRule P req.rule = true ∧
      ∃ rule, Api0.convertRule P req.rule = .ok rule
  | .sgRuleList id => ∃ sg, s.model.securityGroups[id]? = some sg
  | .sgMemberAdd req => Api0.validateIp P req.member = true ∧
      ∃ ip, Api0.convertIp P req.member = .ok ip
  | .sgMemberDel req => Api0.validateIp P req.member = true ∧
      ∃ ip, Api0.convertIp P req.member = .ok ip
  | .sgMemberList id => ∃ sg, s.model.securityGroups[id]? = some sg
  | .appConfig config => ∀ level ∈ config.logLevel,
      level ∈ ["none", "error", "warning", "info", "debug"]
  | .sgDetails id => id = "" ∨ ∃ sg, s.model.securityGroups[id]? = some sg
  | .nicList | .sgDel _ | .sgList | .appStatus | .appQuit => True

def RequestSucceeds (P : Platform) (ambient : Ambient) (s : Server)
    (request : Option Request) : Prop :=
  ∃ c ∈ request.bind Api0.command, Succeeds P ambient s c

/-- The status is set to whether there was success, with an error if not. -/
structure Answers (success : Prop) (res : Response) : Prop where
  ok : success → res.status = { status := some true }
  nok : ¬success → res.status.status = some false ∧ res.status.error.isSome

section Builders

variable {success : Prop} {s : Server}

theorem answers_ok {res : Response} (h : success) (hres : res.status = {}) :
    Answers success (Api0.buildOkRes res) :=
  ⟨fun _ => by simp [Api0.buildOkRes, hres], fun hno => absurd h hno⟩

theorem answers_nokText (h : ¬success) (text : String) :
    Answers success (Api0.buildNokText {} text s).1 :=
  ⟨fun hyes => absurd hyes h, fun _ => by simp [Api0.buildNokText, Api0.buildNokRes]⟩

theorem answers_internalError (h : ¬success) (error : Api0.ConvertError) :
    Answers success (Api0.internalError error s).1 :=
  answers_nokText h _

theorem answers_nokError (h : ¬success) (text : String) (hclean : s.api0Error = "") :
    Answers success (Api0.buildNokError {} text s).1 :=
  ⟨fun hyes => absurd hyes h, fun _ => by simp [Api0.buildNokError, Api0.buildNokRes, hclean]⟩

end Builders

/-! ## Handlers -/

section Handlers

variable {s : Server} {r : Response × Server}

theorem answers_nicAdd (hagree : Agree s) (hclean : s.api0Error = "") {n : MessageV0.Nic}
    (h : Api0.nicAdd P ambient n s = some r) : Answers (Succeeds P ambient s (.nicAdd n)) r.1 := by
  unfold Api0.nicAdd at h
  split at h
  · next hinvalid =>
      cases h
      refine answers_nokText ?_ _
      rintro ⟨hvalid, -⟩
      simp [hvalid] at hinvalid
  · next hvalid =>
      split at h
      · next error herror =>
          cases h
          refine answers_internalError ?_ _
          rintro ⟨-, nic, added, s', hok, -⟩
          rw [herror] at hok
          cases hok
      · next nic hnic =>
          obtain ⟨⟨added, s₁⟩, hadd, hres⟩ := Option.bind_eq_some_iff.mp h
          have hs₁ : s₁.api0Error = "" := (hagree.actionNicAdd hadd).2.api0Error.trans hclean
          cases added with
          | none =>
              cases hres
              refine answers_nokError ?_ _ hs₁
              rintro ⟨-, nic', added, s', hok, hsome⟩
              cases hnic.symm.trans hok
              cases hadd.symm.trans hsome
          | some added =>
              cases hres
              exact answers_ok ⟨by simpa using hvalid, nic, added, s₁, hnic, hadd⟩ rfl

theorem answers_nicUpdate (hagree : Agree s) (hclean : s.api0Error = "") {n : NicUpdateReq}
    (h : Api0.nicUpdate P ambient n s = some r) :
    Answers (Succeeds P ambient s (.nicUpdate n)) r.1 := by
  unfold Api0.nicUpdate at h
  split at h
  · next hinvalid =>
      cases h
      refine answers_nokText ?_ _
      rintro ⟨hvalid, -⟩
      simp [hvalid] at hinvalid
  · next hvalid =>
      split at h
      · next error herror =>
          cases h
          refine answers_internalError ?_ _
          rintro ⟨-, update, s', hok, -⟩
          rw [herror] at hok
          cases hok
      · next update hupdate =>
          obtain ⟨⟨error, s₁⟩, hact, hres⟩ := Option.bind_eq_some_iff.mp h
          have hs₁ : s₁.api0Error = "" := (hagree.actionNicUpdate hact).2.api0Error.trans hclean
          cases error with
          | none =>
              cases hres
              exact answers_ok ⟨by simpa using hvalid, update, s₁, hupdate, hact⟩ rfl
          | some text =>
              cases hres
              refine answers_nokError ?_ _ hs₁
              rintro ⟨-, update', s', hok, hnone⟩
              cases hupdate.symm.trans hok
              cases hact.symm.trans hnone

theorem answers_sgAdd (m : MessageV0.Sg) :
    Answers (Succeeds P ambient s (.sgAdd m)) (Api0.sgAdd P ambient m s).1 := by
  unfold Api0.sgAdd
  split
  · next hinvalid =>
      refine answers_nokText ?_ _
      rintro ⟨hvalid, -⟩
      simp [hvalid] at hinvalid
  · next hvalid =>
      split
      · next error herror =>
          refine answers_internalError ?_ _
          rintro ⟨-, sg, hok⟩
          rw [herror] at hok
          cases hok
      · next sg hsg => exact answers_ok ⟨by simpa using hvalid, sg, hsg⟩ rfl

theorem answers_withRule (action : String → Butterfly.Rule → Server → Server) (req : SgRuleReq) :
    Answers (Api0.validateSgRule P req.rule = true ∧ ∃ rule, Api0.convertRule P req.rule = .ok rule)
      (Api0.withRule P action req s).1 := by
  unfold Api0.withRule
  split
  · next hinvalid =>
      refine answers_nokText ?_ _
      rintro ⟨hvalid, -⟩
      simp [hvalid] at hinvalid
  · next hvalid =>
      split
      · next error herror =>
          refine answers_internalError ?_ _
          rintro ⟨-, rule, hok⟩
          rw [herror] at hok
          cases hok
      · next rule hrule => exact answers_ok ⟨by simpa using hvalid, rule, hrule⟩ rfl

theorem answers_withMember (action : String → Ip → Server → Server) (req : SgMemberReq) :
    Answers (Api0.validateIp P req.member = true ∧ ∃ ip, Api0.convertIp P req.member = .ok ip)
      (Api0.withMember P action req s).1 := by
  unfold Api0.withMember
  split
  · next hinvalid =>
      refine answers_nokText ?_ _
      rintro ⟨hvalid, -⟩
      simp [hvalid] at hinvalid
  · next hvalid =>
      split
      · next error herror =>
          refine answers_internalError ?_ _
          rintro ⟨-, ip, hok⟩
          rw [herror] at hok
          cases hok
      · next ip hip => exact answers_ok ⟨by simpa using hvalid, ip, hip⟩ rfl

theorem answers_sgRuleList (hgroups : s.model.WellFormed P) (id : String) :
    Answers (Succeeds P ambient s (.sgRuleList id)) (Api0.sgRuleList id s).1 := by
  unfold Api0.sgRuleList
  split
  · next hnone =>
      refine answers_nokText ?_ _
      rintro ⟨sg, hsg⟩
      cases hnone.symm.trans hsg
  · next sg hsg =>
      split
      · next hfail =>
          have hsome := (hgroups.groups id sg hsg).rules_convert
          rw [hfail] at hsome
          cases hsome
      · exact answers_ok ⟨sg, hsg⟩ rfl

theorem answers_sgMemberList (id : String) :
    Answers (Succeeds P ambient s (.sgMemberList id)) (Api0.sgMemberList id s).1 := by
  unfold Api0.sgMemberList
  split
  · next hnone =>
      refine answers_nokText ?_ _
      rintro ⟨sg, hsg⟩
      cases hnone.symm.trans hsg
  · next sg hsg => exact answers_ok ⟨sg, hsg⟩ rfl

theorem answers_sgDetails (hgroups : s.model.WellFormed P) (id : String) :
    Answers (Succeeds P ambient s (.sgDetails id)) (Api0.sgDetails id s).1 := by
  unfold Api0.sgDetails
  split
  · next hid =>
      split
      · next hnone =>
          refine answers_nokText ?_ _
          rintro (hempty | ⟨sg, hsg⟩)
          · exact hid hempty
          · cases hnone.symm.trans hsg
      · next sg hsg =>
          split
          · next hfail =>
              have hsome := (hgroups.groups id sg hsg).sgToMessage_isSome
              rw [hfail] at hsome
              cases hsome
          · exact answers_ok (.inr ⟨sg, hsg⟩) rfl
  · next hid =>
      split
      · next hfail =>
          have hsome : ((mapValues s.model.securityGroups).mapM Api0.sgToMessage).isSome := by
            refine mapM_isSome fun sg hsg => ?_
            obtain ⟨id, hlookup⟩ := mem_mapValues.mp hsg
            exact (hgroups.groups id sg hlookup).sgToMessage_isSome
          rw [hfail] at hsome
          cases hsome
      · exact answers_ok (.inl (not_not.mp hid)) rfl

theorem answers_nicDetails (id : String) :
    Answers (Succeeds P ambient s (.nicDetails id)) (Api0.nicDetails id s).1 := by
  unfold Api0.nicDetails
  split
  · next hid =>
      split
      · next hnone =>
          refine answers_nokText ?_ _
          rintro (hempty | ⟨nic, hnic⟩)
          · exact hid hempty
          · cases hnone.symm.trans hnic
      · next nic hnic => exact answers_ok (.inr ⟨nic, hnic⟩) rfl
  · next hid => exact answers_ok (.inl (not_not.mp hid)) rfl

theorem answers_nicExport (hclean : s.api0Error = "") (id : String) :
    Answers (Succeeds P ambient s (.nicExport id)) (Api0.nicExport id s).1 := by
  unfold Api0.nicExport Api.actionNicExport
  cases hnic : s.model.nics[id]? with
  | none =>
      refine answers_nokError ?_ _ hclean
      rintro ⟨nic, hsome⟩
      cases hnic.symm.trans hsome
  | some nic => exact answers_ok ⟨nic, hnic⟩ rfl

theorem answers_nicStats (hclean : s.api0Error = "") (id : String) :
    Answers (Succeeds P ambient s (.nicStats id)) (Api0.nicStats ambient id s).1 := by
  unfold Api0.nicStats Api.actionNicStats
  cases hnic : s.model.nics[id]? with
  | none =>
      refine answers_nokError ?_ _ hclean
      rintro ⟨nic, hsome⟩
      cases hnic.symm.trans hsome
  | some nic => exact answers_ok ⟨nic, hnic⟩ rfl

theorem answers_appConfig (config : AppConfigReq) :
    Answers (Succeeds P ambient s (.appConfig config)) (Api0.appConfig config s).1 := by
  obtain ⟨logLevel⟩ := config
  unfold Api0.appConfig Api0.setLogLevel Succeeds
  cases logLevel with
  | none => exact answers_ok (fun level hlevel => nomatch hlevel) rfl
  | some level =>
      by_cases hlevel : level ∈ ["none", "error", "warning", "info", "debug"]
      · simp only [if_pos hlevel]
        refine answers_ok ?_ rfl
        rintro _ ⟨⟩
        exact hlevel
      · simp only [if_neg hlevel]
        exact answers_nokText (fun h => hlevel (h level rfl)) _

end Handlers

theorem handle_answers {s : Server} {c : Api0.Command} {r : Response × Server} (hagree : Agree s)
    (hclean : s.api0Error = "") (hmodel : s.model.WellFormed P)
    (h : Api0.handle P ambient c s = some r) : Answers (Succeeds P ambient s c) r.1 := by
  cases c with
  | nicAdd n => exact answers_nicAdd hagree hclean h
  | nicUpdate n => exact answers_nicUpdate hagree hclean h
  | nicDel id =>
      obtain ⟨s₁, hdel, heq⟩ := Option.bind_eq_some_iff.mp h
      cases heq
      exact answers_ok ⟨s₁, hdel⟩ rfl
  | nicDetails id =>
      cases h
      exact answers_nicDetails id
  | nicExport id =>
      cases h
      exact answers_nicExport hclean id
  | nicStats id =>
      cases h
      exact answers_nicStats hclean id
  | sgAdd m =>
      cases h
      exact answers_sgAdd m
  | sgRuleAdd req =>
      cases h
      exact answers_withRule _ req
  | sgRuleDel req =>
      cases h
      exact answers_withRule _ req
  | sgRuleList id =>
      cases h
      exact answers_sgRuleList hmodel id
  | sgMemberAdd req =>
      cases h
      exact answers_withMember _ req
  | sgMemberDel req =>
      cases h
      exact answers_withMember _ req
  | sgMemberList id =>
      cases h
      exact answers_sgMemberList id
  | appConfig config =>
      cases h
      exact answers_appConfig config
  | sgDetails id =>
      cases h
      exact answers_sgDetails hmodel id
  | nicList | sgDel _ | sgList | appStatus | appQuit =>
      cases h
      exact answers_ok trivial rfl

/-! ## Runs -/

section Runs

variable {s s' : Server} {request : Option Request} {res : Response}

theorem Reachable.answers (hs : Reachable P anything s)
    (h : Api0.respond P ambient request s = some (res, s')) :
    Answers (RequestSucceeds P ambient s request) res := by
  obtain ⟨hagree, hclean⟩ := hs.sound
  unfold Api0.respond at h
  split at h
  · cases h
    exact answers_nokText (fun ⟨c, hc, _⟩ => nomatch hc) _
  · next rq =>
      split at h
      · next hnone =>
          cases h
          refine answers_nokText ?_ _
          rintro ⟨c, hc, -⟩
          cases hnone.symm.trans hc
      · next c hc =>
          have hanswers := handle_answers hagree hclean hs.wellFormed h
          refine ⟨fun ⟨c', hc', hsucceeds⟩ => hanswers.ok ?_, fun hfails => hanswers.nok ?_⟩
          · cases hc.symm.trans hc'
            exact hsucceeds
          · exact fun hsucceeds => hfails ⟨c, hc, hsucceeds⟩

theorem Reachable.accepted_iff (hs : Reachable P anything s) {c : Api0.Command}
    (hc : request.bind Api0.command = some c)
    (h : Api0.respond P ambient request s = some (res, s')) :
    Accepted res ↔ Succeeds P ambient s c := by
  have hanswers := hs.answers h
  constructor
  · intro hok
    by_contra hfails
    have hnok := (hanswers.nok fun ⟨c', hc', hsucceeds⟩ => hfails (by
      cases hc.symm.trans hc'
      exact hsucceeds)).1
    cases hok.symm.trans hnok
  · intro hsucceeds
    rw [Accepted, hanswers.ok ⟨c, hc, hsucceeds⟩]

theorem Reachable.outcome (hs : Reachable P anything s) {c : Api0.Command}
    (hc : request.bind Api0.command = some c)
    (h : Api0.respond P ambient request s = some (res, s')) :
    Outcome P ambient s c (res, s') := by
  obtain ⟨rq, rfl, hcommand⟩ := Option.bind_eq_some_iff.mp hc
  rw [Api0.respond] at h
  simp only [hcommand] at h
  exact handle_outcome hs.sound.agree hs.sound.clean h

theorem Asks.unique {c : Api0.Command} {a a' : Action} (h : Asks P ambient s c a)
    (h' : Asks P ambient s c a') : a = a' := by
  cases h with
  | nicAdd _ hconvert =>
      cases h' with
      | nicAdd _ hconvert' =>
          cases hconvert.symm.trans hconvert'
          rfl
  | nicUpdate _ hconvert =>
      cases h' with
      | nicUpdate _ hconvert' =>
          cases hconvert.symm.trans hconvert'
          rfl
  | sgAdd _ hconvert =>
      cases h' with
      | sgAdd _ hconvert' =>
          cases hconvert.symm.trans hconvert'
          rfl
  | sgRuleAdd _ hconvert =>
      cases h' with
      | sgRuleAdd _ hconvert' =>
          cases hconvert.symm.trans hconvert'
          rfl
  | sgRuleDel _ hconvert =>
      cases h' with
      | sgRuleDel _ hconvert' =>
          cases hconvert.symm.trans hconvert'
          rfl
  | sgMemberAdd _ hconvert =>
      cases h' with
      | sgMemberAdd _ hconvert' =>
          cases hconvert.symm.trans hconvert'
          rfl
  | sgMemberDel _ hconvert =>
      cases h' with
      | sgMemberDel _ hconvert' =>
          cases hconvert.symm.trans hconvert'
          rfl
  | nicDel id | sgDel id =>
      cases h'
      rfl

theorem Reachable.performed (hs : Reachable P anything s) {c : Api0.Command} {a : Action}
    (hc : request.bind Api0.command = some c) (hasks : Asks P ambient s c a)
    (h : Api0.respond P ambient request s = some (res, s')) (hok : Accepted res) :
    ∃ s₁, perform P ambient a s = some (true, s₁) ∧ SameCore s₁ s' := by
  cases hs.outcome hc h with
  | nok hnone => exact absurd hasks (hnone a)
  | read hnone => exact absurd hasks (hnone a)
  | act hasks' hperform hcore hstatus =>
      cases hasks.unique hasks'
      cases hok.symm.trans hstatus
      exact ⟨_, hperform, hcore⟩

end Runs

/--
Whatever was requested before, no text is pending when a request comes in.  The answer
is the one of every state that differs in nothing but a pending text, and its status
says whether the request succeeded.
-/
theorem errors_do_not_leak {s : Server} (hs : Reachable P anything s) :
    s.api0Error = "" ∧
    (∀ (ambient : Ambient) (request : Option Request) (s₂ : Server), Reachable P anything s₂ →
      { s₂ with api0Error := s.api0Error } = s →
        Api0.respond P ambient request s₂ = Api0.respond P ambient request s) ∧
    ∀ (ambient : Ambient) (request : Option Request) (res : Response) (s' : Server),
      Api0.respond P ambient request s = some (res, s') →
        Answers (RequestSucceeds P ambient s request) res ∧ s'.api0Error = "" := by
  have hclean := hs.sound.clean
  refine ⟨hclean, fun ambient request s₂ hs₂ hsame => ?_, fun ambient request res s' h => ?_⟩
  · have hclean₂ := hs₂.sound.clean
    rw [← hsame, hclean, ← hclean₂]
  · exact ⟨hs.answers h, (hs.sound.respond h).clean⟩

def badNic : Request :=
  { nicAdd := some { id := "nic-1", mac := "52:54:00:12:34:01", vni := 42, ip := ["42.0.0"] } }

theorem errors_do_not_leak_bad_nic :
    ∃ s res s', serve Libc.platform {} [badNic] (Server.start {} 1 0) = some s ∧
      Api0.respond Libc.platform {} (some { nicList := some true }) s = some (res, s') ∧
      s.api0Error = "" ∧ res.status = { status := some true } := by
  refine ⟨(serve Libc.platform {} [badNic] (Server.start {} 1 0)).get (by decide +kernel), _, _,
    by simp, rfl, ?_⟩
  have hleak := errors_do_not_leak ((Reachable.start {} 1 0).serve (fun _ _ _ => trivial)
    (Option.some_get (by decide +kernel : (serve Libc.platform {} [badNic]
      (Server.start {} 1 0)).isSome = true)).symm)
  exact ⟨hleak.1, (hleak.2.2 {} (some { nicList := some true }) _ _ rfl).1.ok ⟨_, rfl, trivial⟩⟩

end Butterfly
