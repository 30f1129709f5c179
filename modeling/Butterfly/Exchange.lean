import Butterfly.NicSg

/-!
# Exchanges with the server

`Request` of the client's `request.cc`, from the message it is given to the response it
returns, with both ZMQ messages and the encryption in between.  It comes to what `request`
says, where serialisation and encryption are left out: the messages are dispatched, once,
by a server with the same key, and by no other.
-/

namespace Butterfly.Client

open Std Foundation Proto Crypto

/-- Whatever the vector, an envelope opens under its key. -/
theorem decAes256CbcSha512_of_enc (L : OpenSsl) {key : Bytes} (hkey : key.length = 32)
    {iv : Option Block} {clear encrypted : Bytes}
    (henc : encAes256CbcSha512 L iv key clear [] = (true, encrypted)) :
    decAes256CbcSha512 L key encrypted [] = some (true, clear) := by
  cases iv with
  | none => simp [encAes256CbcSha512, hkey, aes256KeySize, L.length_sha512] at henc
  | some iv =>
      obtain ⟨c, hc, hdec, -⟩ := encAes256CbcSha512_opens L hkey iv clear
      rw [hc] at henc
      cases henc
      exact hdec

/-! ## The client -/

/-- The key of the client, what `RAND_bytes` delivers, and the luck of the two ZMQ calls. -/
structure Caller where
  encryptionKey : Bytes := []
  iv : Option Block := none
  sent : Bool := true
  received : Bool := true

section Definitions

variable (X : Api.Context) (caller : Caller)

def envelope (encrypted : Bytes) : Messages :=
  { encrypted := some { aes256cbcSha512 := some encrypted } }

/-- The bytes that `Request` sends, unless it cannot encrypt them. -/
def strRequest (req : Messages) : Option Bytes :=
  let clear := req.serialize X.codec
  if caller.encryptionKey = [] then some clear
  else match encAes256CbcSha512 X.ssl caller.iv caller.encryptionKey clear [] with
    | (false, _) => none
    | (true, encrypted) => some ((envelope encrypted).serialize X.codec)

def checked (res : Messages) : Option Messages :=
  if checkRequestResult res = .ok then some res else none

def openResponse (strResponse : Bytes) : Option Messages := do
  let response ← Messages.parse X.codec strResponse
  match response.encrypted with
  | none => checked response
  | some e =>
      if checkRequestResult response ≠ .ok then none
      else
        let encrypted := e.aes256cbcSha512.getD []
        match decAes256CbcSha512 X.ssl caller.encryptionKey encrypted [] with
        | some (true, decrypted) => (Messages.parse X.codec decrypted).bind checked
        | _ => none

/-- The second half of `Request`.  A server that met undefined behaviour has no answer. -/
def receive (answer : Api.Answer Bytes) : Option (Option Messages × Server) :=
  match answer with
  | (.error _, _) => none
  | (.ok strResponse, s) =>
      some (if caller.received then openResponse X caller strResponse else none, s)

/-- `Request`: the response, if the exit status is 0, and the server afterwards. -/
def exchange (req : Messages) (s : Server) : Option (Option Messages × Server) :=
  match strRequest X caller req with
  | none => some (none, s)
  | some str =>
      if caller.sent then receive X caller (Api.serverProcess X str s) else some (none, s)

/-- An exchange without its bytes: what is dispatched is checked where it arrives. -/
def meet (req : Messages) (arrives : Bool) (s : Server) : Option (Option Messages × Server) :=
  match Api.dispatchMessages X req s with
  | (.error .undefined, _) => none
  | (.error _, s) => some (none, s)
  | (.ok res, s) => some (if arrives then checked res else none, s)

end Definitions

/-- The client gets as far as sending. -/
structure Caller.Sends (caller : Caller) : Prop where
  sent : caller.sent = true
  key : caller.encryptionKey ≠ [] →
    caller.encryptionKey.length = aes256KeySize ∧ caller.iv.isSome

/-- `request` is `meet` once its text is parsed. -/
theorem request_eq_meet (T : TextFormat) (link : Link) (text : String) (s : Server) :
    request T link text s = match T.parse text with
      | none => some (none, s)
      | some req => meet link.context req link.received (Api.count s) := by
  cases hparse : T.parse text with
  | none => simp only [request, hparse]
  | some req =>
      simp only [request, meet, hparse, checked]
      rcases Api.dispatchMessages link.context req (Api.count s) with ⟨fault | res, t⟩
      · cases fault <;> rfl
      · cases link.received <;> simp
        split <;> rfl

/-! ## What the client reads -/

section Reading

variable {X : Api.Context} {caller : Caller}

theorem openResponse_clear (hcodec : X.codec.Lawful) {res : Messages}
    (hinit : ∀ msg ∈ res.messages, ∀ m0 ∈ msg.message0, Initialised m0)
    (hclear : res.encrypted = none) :
    openResponse X caller (res.serialize X.codec) = checked res := by
  rw [openResponse, Messages.parse_serialize hcodec hinit]
  simp only [Option.bind_eq_bind, Option.bind_some, hclear]

theorem checked_error (code : ErrorCode) :
    (Messages.parse X.codec ((Api.errorMessage X code).serialize X.codec)).bind checked =
      none := by
  rw [Api.errorMessage, Messages.parse_error]
  rfl

theorem openResponse_internalError :
    openResponse X caller (Api.buildInternalError X) = none := by
  rw [openResponse, Api.buildInternalError, Api.errorMessage, Messages.parse_error]
  rfl

theorem openResponse_rejected (hcodec : X.codec.Lawful) :
    openResponse X caller ((Api.rejected X).serialize X.codec) = none := by
  rw [openResponse_clear hcodec _ rfl]
  · rfl
  · intro msg hmsg m0 hm0
    cases List.mem_singleton.mp hmsg
    cases hm0

theorem openResponse_err (hcodec : X.codec.Lawful) (code : EncryptedErrorCode) :
    openResponse X caller
      (Messages.serialize X.codec { encrypted := some (Api.buildErr code) }) = none := by
  rw [openResponse, Messages.parse_serialize hcodec (by rintro msg ⟨⟩)]
  rfl

theorem openResponse_envelope (hcodec : X.codec.Lawful)
    (hkey : caller.encryptionKey.length = 32) {iv : Option Block} {clear encrypted : Bytes}
    (henc : encAes256CbcSha512 X.ssl iv caller.encryptionKey clear [] = (true, encrypted)) :
    openResponse X caller ((envelope encrypted).serialize X.codec) =
      (Messages.parse X.codec clear).bind checked := by
  have hdec : decAes256CbcSha512 X.ssl caller.encryptionKey encrypted [] =
      some (true, clear) := decAes256CbcSha512_of_enc X.ssl hkey henc
  rw [openResponse, Messages.parse_serialize hcodec (by rintro msg ⟨⟩)]
  simp only [Option.bind_eq_bind, Option.bind_some, envelope, Option.getD_some, hdec]
  rfl

end Reading

/-! ## What the server does -/

section Serving

variable {X : Api.Context} {caller : Caller} {req : Messages} {s t : Server}

theorem respond_config {P : Platform} {ambient : Ambient} {request : Option MessageV0.Request}
    {s' : Server} {response : MessageV0.Response} (hs : Sound s)
    (h : Api0.respond P ambient request s = some (response, s')) : s'.config = s.config := by
  rcases respond_outcome hs.agree hs.clean h with hnok | ⟨rq, c, -, -, houtcome⟩
  · exact hnok.core.config
  · cases houtcome with
    | nok _ hnok => exact hnok.core.config
    | read _ hcore _ _ => exact hcore.config
    | act _ hperform hcore _ _ =>
        exact hcore.config.trans (hs.agree.perform hperform).2.config

/-- An exception leaves the configuration alone. -/
def KeepsConfig (X : Api.Context) : Prop :=
  ∀ m s s', X.exception m s = some s' → s'.config = s.config

theorem dispatch_config (hkeeps : KeepsConfig X) (hs : Sound s) (msg : Message) :
    (Api.dispatch X msg s).2.config = s.config := by
  unfold Api.dispatch
  split
  · next req0 _ =>
      split
      · next s₁ hthrown => exact hkeeps req0 s s₁ hthrown
      · split
        · rfl
        · next rep0 s₁ hprocess =>
            obtain ⟨⟨response, s₂⟩, hrespond, heq⟩ := Option.bind_eq_some_iff.mp hprocess
            cases heq
            exact respond_config hs hrespond
  · rfl

theorem dispatchAll_config (hkeeps : KeepsConfig X) (hs : Sound s) (msgs : List Message) :
    (Api.dispatchAll X msgs s).2.config = s.config := by
  induction msgs generalizing s with
  | nil => rfl
  | cons msg rest ih =>
      have hconfig := dispatch_config hkeeps hs msg
      unfold Api.dispatchAll
      split
      · next heq =>
          rw [heq] at hconfig
          exact hconfig
      · next rep s₁ heq =>
          rw [heq] at hconfig
          have hs₁ : Sound s₁ := (Api.dispatch_replies hs heq).1
          exact (ih hs₁).trans hconfig

theorem dispatchMessages_depth (req : Messages) (s : Server) :
    (Api.dispatchMessages X req s).1 ≠ .error .depth :=
  Api.Answer.map_depth (Api.dispatchAll_depth X req.messages s)

theorem dispatchMessages_ok {res : Messages} {s' : Server}
    (h : Api.dispatchMessages X req s = (.ok res, s')) :
    ∃ reps, Api.dispatchAll X req.messages s = (.ok reps, s') ∧ res = { messages := reps } := by
  unfold Api.dispatchMessages at h
  cases hall : Api.dispatchAll X req.messages s with
  | mk result s₁ =>
      rw [hall] at h
      cases result with
      | error fault => cases h
      | ok reps =>
          cases h
          exact ⟨reps, rfl, rfl⟩

theorem receive_dispatched (hcodec : X.codec.Lawful) (hs : Sound t) :
    receive X caller (Api.catchThrown X ((Api.dispatchMessages X req t).map fun reps =>
      reps.serialize X.codec)) = meet X req caller.received t := by
  unfold meet
  cases hall : Api.dispatchMessages X req t with
  | mk result t' =>
      rcases result with fault | res
      · cases fault with
        | thrown =>
            change some (if caller.received then
              openResponse X caller (Api.buildInternalError X) else none, t') = _
            rw [openResponse_internalError, ite_self]
        | undefined => rfl
        | depth =>
            have hdepth := dispatchMessages_depth (X := X) req t
            rw [hall] at hdepth
            exact absurd rfl hdepth
      · obtain ⟨reps, hreps, rfl⟩ := dispatchMessages_ok hall
        have hproper := Api.dispatchAll_replies hs hreps
        change some (if caller.received then
          openResponse X caller (Messages.serialize X.codec { messages := reps }) else none, t') = _
        rw [openResponse_clear hcodec hproper.initialised rfl]

/-- A sealed text is read as if it had come in clear, if it was sealed at all. -/
theorem receive_sealAnswer (hcodec : X.codec.Lawful) {answer : Api.Answer Bytes} {text : Bytes}
    (hanswer : Api.catchThrown X answer = (.ok text, t))
    (hlength : caller.encryptionKey.length = 32)
    (hkey : t.config.encryptionKey = caller.encryptionKey) :
    receive X caller (Api.sealAnswer X answer) =
      some (if caller.received && X.iv.isSome then
        (Messages.parse X.codec text).bind checked else none, t) := by
  unfold Api.sealAnswer
  rw [hanswer]
  simp only [receive, hkey]
  cases hiv : X.iv with
  | none =>
      have henc : encAes256CbcSha512 X.ssl none caller.encryptionKey text [] = (false, []) := by
        simp [encAes256CbcSha512, hlength, aes256KeySize, X.ssl.length_sha512]
      simp [henc, openResponse_err hcodec]
  | some iv =>
      obtain ⟨c, henc, -⟩ := encAes256CbcSha512_opens X.ssl hlength iv text
      have hopen := openResponse_envelope hcodec hlength henc
      rw [envelope] at hopen
      simp [henc, hopen]

theorem receive_sealed (hcodec : X.codec.Lawful) (hkeeps : KeepsConfig X) (hs : Sound t)
    (hlength : caller.encryptionKey.length = 32)
    (hkey : caller.encryptionKey = t.config.encryptionKey) :
    receive X caller (Api.sealAnswer X ((Api.dispatchMessages X req t).map fun reps =>
      reps.serialize X.codec)) = meet X req (caller.received && X.iv.isSome) t := by
  have hconfig := dispatchAll_config hkeeps hs req.messages
  unfold meet
  cases hall : Api.dispatchMessages X req t with
  | mk result t' =>
      have hkey' : t'.config.encryptionKey = caller.encryptionKey := by
        rw [hkey, ← hconfig, show t' = (Api.dispatchMessages X req t).2 by rw [hall]]
        rfl
      rcases result with fault | res
      · cases fault with
        | thrown =>
            have hcaught : Api.catchThrown X ((.error .thrown, t') : Api.Answer Bytes) =
                (.ok (Api.buildInternalError X), t') := rfl
            refine (receive_sealAnswer hcodec hcaught hlength hkey').trans ?_
            rw [Api.buildInternalError, checked_error, ite_self]
        | undefined => rfl
        | depth =>
            have hdepth := dispatchMessages_depth (X := X) req t
            rw [hall] at hdepth
            exact absurd rfl hdepth
      · obtain ⟨reps, hreps, rfl⟩ := dispatchMessages_ok hall
        have hproper := Api.dispatchAll_replies hs hreps
        have hcaught : Api.catchThrown X
            ((.ok (Messages.serialize X.codec { messages := reps }), t') : Api.Answer Bytes) =
              (.ok (Messages.serialize X.codec { messages := reps }), t') := rfl
        refine (receive_sealAnswer hcodec hcaught hlength hkey').trans ?_
        rw [Messages.parse_serialize hcodec hproper.initialised, Option.bind_some]

end Serving

/-! ## Whole exchanges -/

section Exchanges

variable {X : Api.Context} {caller : Caller} {req : Messages} {s : Server}

theorem catchThrown_sealAnswer (answer : Api.Answer Bytes) :
    Api.catchThrown X (Api.sealAnswer X answer) = Api.sealAnswer X answer := by
  obtain ⟨fault | text, t⟩ := answer
  · cases fault <;> rfl
  · rfl

theorem serverProcess_parsed {str : Bytes} (hparse : X.parse str = some req) :
    Api.serverProcess X str s = Api.catchThrown X ((Api.reply X
      (fun request s => Api.processRequest X 1 request true s) req false (Api.count s)).map
        fun reps => reps.serialize X.codec) := by
  rw [Api.serverProcess, Api.processRequest_parsed X 1 hparse]

theorem receive_rejected (hcodec : X.codec.Lawful) {str : Bytes} (hparse : X.parse str = some req)
    (hreply : Api.reply X (fun request s => Api.processRequest X 1 request true s) req false
      (Api.count s) = (.ok (Api.rejected X), Api.count s)) :
    receive X caller (Api.serverProcess X str s) = some (none, Api.count s) := by
  rw [serverProcess_parsed hparse, hreply]
  change some (if caller.received then
    openResponse X caller ((Api.rejected X).serialize X.codec) else none, Api.count s) = _
  rw [openResponse_rejected hcodec, ite_self]

theorem exchange_unsent (h : ¬caller.Sends) : exchange X caller req s = some (none, s) := by
  cases hstr : strRequest X caller req with
  | none => rw [exchange, hstr]
  | some str =>
      have hsent : caller.sent = false := by
        rw [Bool.eq_false_iff]
        refine fun hsent => h ⟨hsent, fun hkey => ?_⟩
        by_contra hbad
        rw [strRequest, if_neg hkey] at hstr
        by_cases hlength : caller.encryptionKey.length = aes256KeySize
        · have hiv : caller.iv = none := by simpa [hlength] using hbad
          simp [encAes256CbcSha512, hiv, hlength, X.ssl.length_sha512] at hstr
        · simp [encAes256CbcSha512, hlength] at hstr
      simp [exchange, hstr, hsent]

variable (hcodec : X.codec.Lawful) (hparse : X.parse = Messages.parse X.codec)
  (hinit : ∀ msg ∈ req.messages, ∀ m0 ∈ msg.message0, Initialised m0)

include hcodec hparse hinit

theorem parse_request : X.parse (req.serialize X.codec) = some req := by
  rw [hparse, Messages.parse_serialize hcodec hinit]

omit hinit in
theorem parse_envelope (encrypted : Bytes) :
    X.parse ((envelope encrypted).serialize X.codec) = some (envelope encrypted) := by
  rw [hparse, Messages.parse_serialize hcodec (by rintro msg ⟨⟩)]

theorem exchange_clear (hs : Sound (Api.count s)) (hsent : caller.sent = true)
    (hkey : caller.encryptionKey = []) (hserver : s.config.encryptionKey = []) :
    exchange X caller req s = meet X req caller.received (Api.count s) := by
  have hread := parse_request hcodec hparse hinit
  simp only [exchange, strRequest, hkey, if_true, hsent]
  by_cases hmessages : req.messages = []
  · -- The server turns the request away, and the client would find no message in the response.
    rw [receive_rejected hcodec hread (by simp [Api.reply, Api.count, hserver, hmessages])]
    simp [meet, Api.dispatchMessages, hmessages, Api.dispatchAll, Api.Answer.map, Except.map,
      checked, checkRequestResult]
  have hreply : Api.reply X (fun request s => Api.processRequest X 1 request true s) req false
      (Api.count s) = Api.dispatchMessages X req (Api.count s) := by
    simp [Api.reply, Api.count, hserver, hmessages]
  rw [serverProcess_parsed hread, hreply]
  exact receive_dispatched hcodec hs

theorem exchange_sealed (hs : Sound (Api.count (Api.count s))) (hkeeps : KeepsConfig X)
    (hclear : req.encrypted = none) (hsends : caller.Sends) (hkey : caller.encryptionKey ≠ [])
    (hserver : caller.encryptionKey = s.config.encryptionKey) :
    exchange X caller req s =
      meet X req (caller.received && X.iv.isSome) (Api.count (Api.count s)) := by
  obtain ⟨hlength, hiv⟩ := hsends.key hkey
  obtain ⟨iv, hiv⟩ := Option.isSome_iff_exists.mp hiv
  obtain ⟨c, henc, hdec, -⟩ := encAes256CbcSha512_opens X.ssl hlength iv (req.serialize X.codec)
  have hopens : Api.Opens X s.config.encryptionKey ((envelope c).serialize X.codec)
      (req.serialize X.codec) :=
    ⟨_, _, c, parse_envelope hcodec hparse c, rfl, rfl, by rw [← hserver]; exact hdec⟩
  have hne : s.config.encryptionKey ≠ [] := hserver ▸ hkey
  simp only [exchange, strRequest, if_neg hkey, hiv, henc, hsends.sent, if_true]
  rw [Api.serverProcess, Api.processRequest_opens X 0 hne hopens,
    Api.processRequest_sub_open (s := Api.count s) X hne (parse_request hcodec hparse hinit) hclear,
    catchThrown_sealAnswer]
  exact receive_sealed hcodec hkeeps hs hlength hserver

theorem exchange_refused (hclear : req.encrypted = none) (hsends : caller.Sends)
    (hserver : caller.encryptionKey ≠ s.config.encryptionKey)
    (hclosed : ∀ str payload, strRequest X caller req = some str →
      ¬Api.Opens X s.config.encryptionKey str payload) :
    exchange X caller req s = some (none, Api.count s) := by
  by_cases hkey : caller.encryptionKey = []
  · have hne : s.config.encryptionKey ≠ [] := fun h => hserver (hkey.trans h.symm)
    simp only [exchange, strRequest, hkey, if_true, hsends.sent]
    refine receive_rejected hcodec (parse_request hcodec hparse hinit) ?_
    simp only [Api.reply, show (Api.count s).config = s.config from rfl, ne_eq, hne,
      not_false_eq_true, if_true, hclear]
  · obtain ⟨hlength, hiv⟩ := hsends.key hkey
    obtain ⟨iv, hiv⟩ := Option.isSome_iff_exists.mp hiv
    obtain ⟨c, henc, -⟩ := encAes256CbcSha512_opens X.ssl hlength iv (req.serialize X.codec)
    have hstr : strRequest X caller req = some ((envelope c).serialize X.codec) := by
      simp only [strRequest, if_neg hkey, hiv, henc]
    have hread := parse_envelope hcodec hparse c
    simp only [exchange, hstr, hsends.sent, if_true]
    by_cases hnone : s.config.encryptionKey = []
    · refine receive_rejected hcodec hread ?_
      simp only [Api.reply, show (Api.count s).config = s.config from rfl, hnone, ne_eq,
        not_true_eq_false, if_false]
      rfl
    · obtain ⟨⟨opened, payload⟩, hdec⟩ := Option.isSome_iff_exists.mp
        (decAes256CbcSha512_isSome X.ssl s.config.encryptionKey c [])
      cases opened with
      | true => exact absurd ⟨_, _, c, hread, rfl, rfl, hdec⟩ (hclosed _ payload hstr)
      | false =>
          rw [serverProcess_parsed hread]
          simp only [Api.reply, show (Api.count s).config = s.config from rfl, ne_eq, hnone,
            not_false_eq_true, if_true, envelope, Api.encryptedProcess, hdec, if_false]
          change some (if caller.received then openResponse X caller
            (Messages.serialize X.codec { encrypted := some (Api.buildErr .rejected) }) else none,
              Api.count s) = _
          rw [openResponse_err hcodec, ite_self]

/--
What an exchange comes to.  A client that cannot encrypt or send changes nothing.  One with
the key of the server, or without a key where the server has none, has its messages
dispatched once and gets the checked response, which is lost as well where the server cannot
encrypt it.  Any other is turned away with exit status 1, unless its envelope happens to open
under the key of the server.
-/
theorem exchange_exact (hs : Reachable X.P anything s) (hkeeps : KeepsConfig X)
    (hclear : req.encrypted = none) :
    (¬caller.Sends → exchange X caller req s = some (none, s)) ∧
    (caller.Sends → caller.encryptionKey = s.config.encryptionKey →
      (caller.encryptionKey = [] →
        exchange X caller req s = meet X req caller.received (Api.count s)) ∧
      (caller.encryptionKey ≠ [] → exchange X caller req s =
        meet X req (caller.received && X.iv.isSome) (Api.count (Api.count s)))) ∧
    (caller.Sends → caller.encryptionKey ≠ s.config.encryptionKey →
      (∀ str payload, strRequest X caller req = some str →
        ¬Api.Opens X s.config.encryptionKey str payload) →
      exchange X caller req s = some (none, Api.count s)) := by
  have hone := (Reachable.count hs).sound
  have htwo := (Reachable.count (Reachable.count hs)).sound
  refine ⟨fun hsends => exchange_unsent hsends, fun hsends hkey => ⟨fun hnone => ?_, fun hne => ?_⟩,
    exchange_refused hcodec hparse hinit hclear⟩
  · exact exchange_clear hcodec hparse hinit hone hsends.sent hnone (hkey ▸ hnone)
  · exact exchange_sealed hcodec hparse hinit htwo hkeeps hclear hsends hne hkey

end Exchanges

/-- A client without the key and one with it ask a server with a key for its NICs. -/
theorem exchange_exact_nic_list :
    let s := Server.start { encryptionKey := sampleKey } 1 0
    let req := requestMessage 0 { nicList := some true }
    exchange Api.sampleContext {} req s = some (none, Api.count s) ∧
      exchange Api.sampleContext
        { encryptionKey := sampleKey, iv := some (Vector.replicate 16 0) } req s =
          some (some { messages := [{
            revision := 0
            message0 := some { response := some (Api0.buildOkRes {}) } }] },
            Api.count (Api.count s)) := by
  intro s req
  have hinit : ∀ msg ∈ req.messages, ∀ m0 ∈ msg.message0, Initialised m0 := by
    intro msg hmsg m0 hm0 r hr
    cases List.mem_singleton.mp hmsg
    cases hm0
    cases hr
  have hexact := fun caller : Caller => @exchange_exact Api.sampleContext caller req s
    Api.codec_lawful rfl hinit (Reachable.start { encryptionKey := sampleKey } 1 0)
    (fun _ _ _ h => nomatch h) rfl
  constructor
  · refine (hexact {}).2.2 ⟨rfl, fun h => absurd rfl h⟩ (by decide) fun str payload hstr => ?_
    rintro ⟨reqs, e, c, hreqs, he, -⟩
    cases hstr
    rw [parse_request (X := Api.sampleContext) Api.codec_lawful rfl hinit] at hreqs
    cases hreqs
    cases he
  · rw [((hexact { encryptionKey := sampleKey, iv := some (Vector.replicate 16 0) }).2.1
      ⟨rfl, fun _ => ⟨by decide, rfl⟩⟩ rfl).2 (by decide)]
    rfl

end Butterfly.Client
