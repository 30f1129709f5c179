import Butterfly.Envelope

/-!
# Responses at the client

What `proto::Messages::ParseFromString` and `CheckRequestResult` of the client make
of the bytes that the server wrote.
-/

namespace Butterfly

open Std Foundation

namespace Proto

/-! ## What the client parses -/

def Initialised (m : MessageV0) : Prop := ∀ r ∈ m.response, r.status.status.isSome

/-- What the generated code for `MessageV0` promises. -/
structure Codec.Lawful (C : Codec) : Prop where
  numbers : ∀ m, ∀ f ∈ C.write m, f.number ≠ 0
  read_write : ∀ m, Initialised m → C.read (C.write m) = some m

theorem Error.ofFields_fields (e : Error) : Error.ofFields e.fields = e := by
  rcases e with ⟨_ | code⟩
  · rfl
  · cases code <;> rfl

theorem EncryptedError.ofFields_fields (e : EncryptedError) :
    EncryptedError.ofFields e.fields = e := by
  rcases e with ⟨_ | code⟩
  · rfl
  · cases code <;> rfl

theorem numbers_fieldOf {number : Nat} (hnumber : number ≠ 0) (value : Option WireValue) :
    ∀ f ∈ fieldOf number value, f.number ≠ 0 := by
  intro f hf
  obtain ⟨v, -, rfl⟩ := List.mem_map.mp hf
  exact hnumber

theorem lens_fieldOf_self (number : Nat) (value : Option Bytes) :
    lens number (fieldOf number (value.map .len)) = value.toList := by
  cases value with
  | none => rfl
  | some bytes => simp [lens, fieldOf]

theorem lens_fieldOf_ne {number number' : Nat} (h : number' ≠ number)
    (value : Option WireValue) : lens number (fieldOf number' value) = [] := by
  rcases value with _ | value
  · rfl
  · cases value <;> simp [lens, fieldOf, h]

theorem submessage_fieldOf {α : Type} {number : Nat} {toFields : α → List Field}
    (before after : List Field) (hbefore : lens number before = [])
    (hafter : lens number after = []) (value : Option α)
    (hnumbers : ∀ v ∈ value, ∀ f ∈ toFields v, f.number ≠ 0) :
    submessage number (before ++
        fieldOf number (value.map fun v => .len (writeFields (toFields v))) ++ after) =
      some (value.map toFields) := by
  have hmap : (value.map fun v => WireValue.len (writeFields (toFields v))) =
      (value.map fun v => writeFields (toFields v)).map .len := by
    cases value <;> rfl
  unfold submessage
  rw [lens_append, lens_append, hbefore, hafter, hmap, lens_fieldOf_self]
  cases value with
  | none => rfl
  | some v =>
      have hread : readFields (writeFields (toFields v)) = some (toFields v) :=
        readFields_writeFields (hnumbers v rfl)
      simp [hread]

theorem map_ofFields {α : Type} {toFields : α → List Field} {ofFields : List Field → α}
    (h : ∀ v, ofFields (toFields v) = v) (value : Option α) :
    (value.map toFields).map ofFields = value := by
  cases value with
  | none => rfl
  | some v => exact congrArg some (h v)

theorem mapM_ofFields {α : Type} {toFields : α → List Field}
    {ofFields : List Field → Option α} {value : Option α}
    (h : ∀ v ∈ value, ofFields (toFields v) = some v) :
    (value.map toFields).mapM ofFields = some value := by
  cases value with
  | none => rfl
  | some v => simp [h v rfl]

theorem Encrypted.numbers_fields (e : Encrypted) : ∀ f ∈ e.fields, f.number ≠ 0 := by
  intro f hf
  rcases List.mem_append.mp hf with hf | hf
  · exact numbers_fieldOf (by decide) _ f hf
  · exact numbers_fieldOf (by decide) _ f hf

theorem Encrypted.ofFields_fields (e : Encrypted) : Encrypted.ofFields e.fields = some e := by
  have herror : submessage 1 e.fields = some (e.error.map EncryptedError.fields) :=
    submessage_fieldOf [] _ rfl (lens_fieldOf_ne (by decide) _) e.error
      fun v _ => numbers_fieldOf (by decide) _
  have hbytes : lens 2 e.fields = e.aes256cbcSha512.toList := by
    rw [Encrypted.fields, lens_append, lens_fieldOf_ne (by decide : 1 ≠ 2), List.nil_append,
      lens_fieldOf_self]
  rw [Encrypted.ofFields, herror, hbytes]
  simp only [Option.bind_eq_bind, Option.bind_some,
    map_ofFields EncryptedError.ofFields_fields e.error]
  rcases e with ⟨error, _ | bytes⟩ <;> rfl

theorem mapM_map_eq_some {α β : Type} {f : α → β} {g : β → Option α} {l : List α}
    (h : ∀ x ∈ l, g (f x) = some x) : (l.map f).mapM g = some l := by
  induction l with
  | nil => rfl
  | cons x rest ih =>
      rw [List.map_cons, List.mapM_cons, h x List.mem_cons_self,
        ih fun y hy => h y (List.mem_cons_of_mem _ hy)]
      rfl

section Parse

variable {C : Codec}

theorem Message.numbers_fields (C : Codec) (m : Message) : ∀ f ∈ m.fields C, f.number ≠ 0 := by
  intro f hf
  rcases List.mem_cons.mp hf with rfl | hf
  · exact Nat.one_ne_zero
  · rcases List.mem_append.mp hf with hf | hf
    · exact numbers_fieldOf (by decide) _ f hf
    · exact numbers_fieldOf (by decide) _ f hf

theorem Message.ofFields_fields (hC : C.Lawful) {m : Message}
    (hm : ∀ m0 ∈ m.message0, Initialised m0) : Message.ofFields C (m.fields C) = some m := by
  have hrevision : varints 1 (m.fields C) = [m.revision.toNat] := by
    rcases m with ⟨revision, _ | error, _ | m0⟩ <;> rfl
  have herror : submessage 2 (m.fields C) = some (m.error.map Error.fields) :=
    submessage_fieldOf [⟨1, .varint m.revision.toNat⟩] _ rfl
      (lens_fieldOf_ne (by decide) _) m.error fun v _ => numbers_fieldOf (by decide) _
  have hmessage0 : submessage 3 (m.fields C) = some (m.message0.map C.write) := by
    have hlast : m.fields C = (⟨1, .varint m.revision.toNat⟩ ::
        fieldOf 2 (m.error.map fun e => .len (writeFields e.fields))) ++
          fieldOf 3 (m.message0.map fun m => .len (writeFields (C.write m))) ++ [] := by
      rw [List.append_nil]
      rfl
    rw [hlast]
    exact submessage_fieldOf _ [] (lens_fieldOf_ne (by decide : 2 ≠ 3) _) rfl m.message0
      fun v _ => hC.numbers v
  have hread : (m.message0.map C.write).mapM C.read = some m.message0 :=
    mapM_ofFields fun m0 hm0 => hC.read_write m0 (hm m0 hm0)
  rw [Message.ofFields, hrevision, herror, hmessage0]
  simp [hread, -Option.map_map, map_ofFields Error.ofFields_fields m.error]

theorem Messages.parse_serialize (hC : C.Lawful) {m : Messages}
    (hm : ∀ msg ∈ m.messages, ∀ m0 ∈ msg.message0, Initialised m0) :
    Messages.parse C (m.serialize C) = some m := by
  have hnumbers : ∀ f ∈ m.fields C, f.number ≠ 0 := by
    intro f hf
    rcases List.mem_append.mp hf with hf | hf
    · obtain ⟨msg, -, rfl⟩ := List.mem_map.mp hf
      exact Nat.one_ne_zero
    · exact numbers_fieldOf (by decide) _ f hf
  have hmessages : lens 1 (m.fields C) = m.messages.map fun msg => writeFields (msg.fields C) := by
    rw [Messages.fields, lens_append, lens_fieldOf_ne (by decide : 2 ≠ 1), List.append_nil,
      lens, List.filterMap_map]
    simp
  have hencrypted : submessage 2 (m.fields C) = some (m.encrypted.map Encrypted.fields) := by
    have hclear : lens 2 (m.messages.map fun msg =>
        (⟨1, .len (writeFields (msg.fields C))⟩ : Field)) = [] := by
      rw [lens, List.filterMap_map]
      simp
    rw [← List.append_nil (m.fields C)]
    exact submessage_fieldOf _ [] hclear rfl m.encrypted fun e _ => e.numbers_fields
  have hread : ((m.messages.map fun msg => writeFields (msg.fields C)).mapM fun bytes => do
      let fields ← readFields bytes
      Message.ofFields C fields) = some m.messages := by
    apply mapM_map_eq_some
    intro msg hmsg
    rw [readFields_writeFields (msg.numbers_fields C)]
    exact Message.ofFields_fields hC (hm msg hmsg)
  rw [Messages.parse, Messages.serialize, readFields_writeFields hnumbers]
  simp only [Option.bind_eq_bind, Option.bind_some] at hread ⊢
  rw [hmessages, hread, hencrypted]
  simp only [Option.bind_some, mapM_ofFields fun e _ => Encrypted.ofFields_fields e]

theorem Messages.parse_error (C : Codec) (revision : UInt32) (code : ErrorCode) :
    Messages.parse C (Message.serialize C
        { revision := revision, error := some { code := some code } }) =
      some { encrypted := some {} } := by
  have hfields := readFields_writeFields (Message.numbers_fields C
    { revision := revision, error := some { code := some code } })
  have hencrypted : submessage 2 (Message.fields C
      { revision := revision, error := some { code := some code } }) =
        some (some (Error.fields { code := some code })) :=
    submessage_fieldOf [⟨1, .varint revision.toNat⟩] [] rfl rfl
      (some (⟨some code⟩ : Error)) fun v _ => numbers_fieldOf (by decide) _
  rw [Messages.parse, Message.serialize, hfields]
  simp only [Option.bind_eq_bind, Option.bind_some, hencrypted]
  rfl

end Parse

end Proto

/-! ## What the client reports -/

namespace Client

open Proto

inductive Report where
  | encryptedError (code : EncryptedErrorCode)
  | nothingRecognized
  | noMessage
  | error (code : Option ErrorCode)
  | noResponse
  | errorInResponse
  | noMessageRecognized
  | ok
  deriving DecidableEq

def checkMessages : List Message → Report
  | [] => .ok
  | m :: rest =>
      match m.error, m.message0 with
      | some e, _ => .error e.code
      | none, none => .noMessageRecognized
      | none, some m0 =>
          match m0.response with
          | none => .noResponse
          | some response =>
              if response.status.status.getD false then checkMessages rest
              else .errorInResponse

def checkRequestResult (res : Messages) : Report :=
  match res.encrypted with
  | some e =>
      match e.error, e.aes256cbcSha512 with
      -- The first code of the enumeration stands for a code that is not set.
      | some error, _ => .encryptedError (error.code.getD .notSupported)
      | none, none => .nothingRecognized
      | none, some _ => .ok
  | none => if res.messages = [] then .noMessage else checkMessages res.messages

end Client

/-! ## Replies and requests -/

namespace Api

open Proto Client

variable (X : Context)

/-- The reply to a message: it carries the id of the request, or says what is wrong. -/
inductive Replies (req rep : Message) : Prop
  | message0 {req0 rep0 : MessageV0} : req.message0 = some req0 → rep.message0 = some rep0 →
      rep.error = none → rep0.response.isSome → rep0.messageId = req0.messageId →
      Replies req rep
  | version : req.message0 = none → rep = errorMessage X .versionNotManaged → Replies req rep

def dispatched (key : Bytes) (reqs : Messages) (sub : Bool) : List Message :=
  if key = [] ∨ (reqs.encrypted = none ∧ sub) then reqs.messages else []

def Throws (request : Bytes) (sub : Bool) (s : Server) : Prop :=
  ∃ reqs, X.parse request = some reqs ∧
    (dispatchAll X (dispatched s.config.encryptionKey reqs sub) (count s)).1 = .error .thrown

structure Delivered (request : Bytes) (sub : Bool) (s : Server) (response : Bytes) : Prop where
  decodes : ∃ reps, Messages.parse X.codec response = some reps ∧
    ((∃ reqs, X.parse request = some reqs ∧ reps.encrypted = none ∧
        List.Forall₂ (Replies X) reqs.messages reps.messages) ∨
      (∃ code, reps = { messages := [errorMessage X code] }) ∨
      ∃ e, reps = { encrypted := some e } ∧
        (e.error.isSome ∨ e.aes256cbcSha512.isSome))
  undecodable : X.parse request = none →
    (Messages.parse X.codec response).map checkRequestResult = some (.error (some .parseError))
  internal : Throws X request sub s →
    (Messages.parse X.codec response).map checkRequestResult =
      some (.error (some .internalError))

structure Proper (reqs reps : List Message) : Prop where
  replies : List.Forall₂ (Replies X) reqs reps
  initialised : ∀ rep ∈ reps, ∀ m0 ∈ rep.message0, Initialised m0

inductive Shape (reqs reps : Messages) : Prop
  | aligned : reps.encrypted = none → Proper X reqs.messages reps.messages →
      Shape reqs reps
  | rejected : reps = rejected X → Shape reqs reps
  | envelope {e} : reps = { encrypted := some e } →
      (e.error.isSome ∨ e.aes256cbcSha512.isSome) → Shape reqs reps

section Replies

variable {X}

theorem status_isSome {request : Option MessageV0.Request} {s : Server}
    {r : MessageV0.Response × Server} (hs : Sound s)
    (h : Api0.respond X.P X.ambient request s = some r) : r.1.status.status.isSome := by
  rcases respond_outcome hs.agree hs.clean h with hnok | ⟨rq, c, -, -, houtcome⟩
  · rw [hnok.status]
    rfl
  · cases houtcome with
    | nok _ hnok =>
        rw [hnok.status]
        rfl
    | read _ _ haccepted _ =>
        rw [show r.1.status.status = some true from haccepted]
        rfl
    | act _ _ _ hstatus _ =>
        rw [hstatus]
        rfl

theorem dispatch_replies {req rep : Message} {s s' : Server} (hs : Sound s)
    (h : dispatch X req s = (.ok rep, s')) :
    Sound s' ∧ Replies X req rep ∧ ∀ m0 ∈ rep.message0, Initialised m0 := by
  unfold dispatch at h
  split at h
  · next req0 hreq0 =>
      split at h
      · cases h
      · split at h
        · cases h
        · next rep0 s₁ hprocess =>
            cases h
            obtain ⟨⟨response, s₂⟩, hrespond, heq⟩ := Option.bind_eq_some_iff.mp hprocess
            cases heq
            refine ⟨hs.respond hrespond, .message0 hreq0 rfl rfl rfl rfl, ?_⟩
            rintro m0 ⟨⟩ r ⟨⟩
            exact status_isSome hs hrespond
  · next hnone =>
      cases h
      exact ⟨hs, .version hnone rfl, fun m0 hm0 => nomatch hm0⟩

theorem dispatchAll_replies {reqs reps : List Message} {s s' : Server} (hs : Sound s)
    (h : dispatchAll X reqs s = (.ok reps, s')) : Proper X reqs reps := by
  induction reqs generalizing s reps with
  | nil =>
      cases h
      exact ⟨.nil, fun rep hrep => nomatch hrep⟩
  | cons req rest ih =>
      unfold dispatchAll at h
      split at h
      · cases h
      · next rep s₁ hreq =>
          obtain ⟨hs₁, hreplies, hinit⟩ := dispatch_replies hs hreq
          cases hrest : dispatchAll X rest s₁ with
          | mk result s₂ =>
              rw [hrest] at h
              cases result with
              | error fault => cases h
              | ok reps' =>
                  cases h
                  obtain ⟨htail, hinits⟩ := ih hs₁ hrest
                  refine ⟨.cons hreplies htail, ?_⟩
                  intro rep' hrep'
                  rcases List.mem_cons.mp hrep' with rfl | hrep'
                  · exact hinit
                  · exact hinits rep' hrep'

theorem dispatchMessages_shape {reqs reps : Messages} {s s' : Server} (hs : Sound s)
    (h : dispatchMessages X reqs s = (.ok reps, s')) : Shape X reqs reps := by
  unfold dispatchMessages at h
  cases hall : dispatchAll X reqs.messages s with
  | mk result s₁ =>
      rw [hall] at h
      cases result with
      | error fault => cases h
      | ok reps' =>
          cases h
          exact .aligned rfl (dispatchAll_replies hs hall)

theorem encryptedProcess_ok {process : Bytes → Server → Answer Bytes} {req e : Encrypted}
    {s s' : Server} (h : encryptedProcess X process req s = (.ok e, s')) :
    e.error.isSome ∨ e.aes256cbcSha512.isSome := by
  unfold encryptedProcess at h
  split at h
  · cases h
    exact .inl rfl
  split at h
  · cases h
    exact .inl rfl
  split at h
  · cases h
  · cases h
    exact .inl rfl
  split at h
  · cases h
  split at h
  · cases h
    exact .inl rfl
  · cases h
    exact .inr rfl

theorem reply_shape {process : Bytes → Server → Answer Bytes} {reqs reps : Messages}
    {sub : Bool} {s s' : Server} (hs : Sound s)
    (h : reply X process reqs sub s = (.ok reps, s')) : Shape X reqs reps := by
  unfold reply at h
  split at h
  · split at h
    · cases h
      exact .rejected rfl
    · next req _ =>
        cases he : encryptedProcess X process req s with
        | mk result s₁ =>
            rw [he] at h
            cases result with
            | error fault => cases h
            | ok e =>
                cases h
                exact .envelope rfl (encryptedProcess_ok he)
    · exact dispatchMessages_shape hs h
    · cases h
      exact .rejected rfl
  · split at h
    · exact dispatchMessages_shape hs h
    · cases h
      exact .rejected rfl

/-! ## Exceptions -/

theorem encryptedProcess_thrown (process : Bytes → Server → Answer Bytes) (req : Encrypted)
    (s : Server) : (encryptedProcess X process req s).1 ≠ .error .thrown := by
  have hcatch : ∀ answer : Answer Bytes, (catchThrown X answer).1 ≠ .error .thrown := by
    rintro ⟨fault | response, t⟩
    · cases fault <;> simp [catchThrown]
    · simp [catchThrown]
  unfold encryptedProcess
  split
  · simp
  split
  · simp
  split
  · simp
  · simp
  · next payload _ =>
      have hanswer := hcatch (process payload s)
      split
      · next hfault =>
          rw [hfault] at hanswer
          simpa using hanswer
      · split <;> simp

theorem Answer.map_thrown {α β : Type} (f : α → β) (answer : Answer α) :
    (answer.map f).1 = .error .thrown ↔ answer.1 = .error .thrown := by
  obtain ⟨result, s⟩ := answer
  cases result <;> simp [Answer.map, Except.map]

theorem reply_thrown (process : Bytes → Server → Answer Bytes) (reqs : Messages) (sub : Bool)
    (s : Server) :
    (reply X process reqs sub s).1 = .error .thrown ↔
      (dispatchAll X (dispatched s.config.encryptionKey reqs sub) s).1 = .error .thrown := by
  have hclear : dispatchAll X [] s = (.ok [], s) := rfl
  by_cases hkey : s.config.encryptionKey = []
  · have hall : dispatched s.config.encryptionKey reqs sub = reqs.messages := by
      simp [dispatched, hkey]
    rw [hall]
    by_cases hempty : reqs.messages = []
    · simp [reply, hkey, hempty, hclear]
    · simp only [reply, hkey, ne_eq, not_true_eq_false, if_false, hempty, not_false_eq_true,
        if_true]
      exact Answer.map_thrown _ _
  · cases henvelope : reqs.encrypted with
    | some req =>
        have hnone : dispatched s.config.encryptionKey reqs sub = [] := by
          simp [dispatched, hkey, henvelope]
        rw [hnone, hclear]
        cases sub with
        | true => simp [reply, hkey, henvelope]
        | false =>
            simp only [reply, hkey, ne_eq, not_false_eq_true, if_true, henvelope,
              Answer.map_thrown, encryptedProcess_thrown, false_iff]
            intro h
            cases h
    | none =>
        cases sub with
        | true =>
            have hall : dispatched s.config.encryptionKey reqs true = reqs.messages := by
              simp [dispatched, henvelope]
            rw [hall]
            simp only [reply, hkey, ne_eq, not_false_eq_true, if_true, henvelope]
            exact Answer.map_thrown _ _
        | false =>
            have hnone : dispatched s.config.encryptionKey reqs false = [] := by
              simp [dispatched, hkey]
            rw [hnone, hclear]
            simp [reply, hkey, henvelope]

end Replies

/-! ## Delivery -/

theorem Shape.initialised {reqs reps : Messages} (h : Shape X reqs reps) :
    ∀ msg ∈ reps.messages, ∀ m0 ∈ msg.message0, Initialised m0 := by
  cases h with
  | aligned _ hproper => exact hproper.initialised
  | rejected h =>
      subst h
      intro msg hmsg m0 hm0
      cases List.mem_singleton.mp hmsg
      cases hm0
  | envelope h _ =>
      subst h
      exact fun msg hmsg => nomatch hmsg

theorem bare_error_unread (code : ErrorCode) :
    (Messages.parse X.codec ((errorMessage X code).serialize X.codec)).map checkRequestResult =
      some .nothingRecognized := by
  rw [errorMessage, Messages.parse_error]
  rfl

theorem catchThrown_ok {answer : Answer Bytes} {response : Bytes} {s' : Server}
    (h : catchThrown X answer = (.ok response, s')) :
    answer = (.ok response, s') ∨
      answer = (.error .thrown, s') ∧ response = buildInternalError X := by
  unfold catchThrown at h
  split at h
  · cases h
    exact .inr ⟨rfl, rfl⟩
  · exact .inl h

theorem processRequest_parsed (depth : Nat) {request : Bytes} {reqs : Messages}
    (hparse : X.parse request = some reqs) (sub : Bool) (s : Server) :
    processRequest X (depth + 1) request sub s =
      (reply X (fun request s => processRequest X depth request true s) reqs sub
        (count s)).map fun reps => reps.serialize X.codec := by
  rw [processRequest, hparse]

theorem processRequest_thrown_iff {request : Bytes} {reqs : Messages}
    (hparse : X.parse request = some reqs) (sub : Bool) (s : Server) :
    (processRequest X 2 request sub s).1 = .error .thrown ↔ Throws X request sub s := by
  rw [processRequest_parsed X 1 hparse, Answer.map_thrown, reply_thrown]
  constructor
  · exact fun h => ⟨reqs, hparse, h⟩
  · rintro ⟨reqs', hparse', h⟩
    cases hparse.symm.trans hparse'
    exact h

theorem not_delivered {request : Bytes} {sub : Bool} {s s' : Server} {response : Bytes}
    (h : catchThrown X (processRequest X 2 request sub s) = (.ok response, s'))
    (hbad : X.parse request = none ∨ Throws X request sub s) :
    ¬Delivered X request sub s response := by
  intro hdelivered
  rcases hbad with hparse | hthrows
  · have hreport := hdelivered.undecodable hparse
    rw [processRequest, hparse] at h
    cases h
    rw [bare_error_unread] at hreport
    cases hreport
  · have hreport := hdelivered.internal hthrows
    obtain ⟨reqs, hparse, hraised⟩ := hthrows
    have hanswer := (processRequest_thrown_iff X hparse sub s).mpr ⟨reqs, hparse, hraised⟩
    rcases catchThrown_ok X h with hok | ⟨-, rfl⟩
    · rw [hok] at hanswer
      cases hanswer
    · rw [buildInternalError, bare_error_unread] at hreport
      cases hreport

theorem delivered {request : Bytes} {reqs : Messages} {sub : Bool} {s s' : Server}
    {response : Bytes} (hcodec : X.codec.Lawful) (hs : Sound (count s))
    (hparse : X.parse request = some reqs) (hthrows : ¬Throws X request sub s)
    (h : catchThrown X (processRequest X 2 request sub s) = (.ok response, s')) :
    Delivered X request sub s response := by
  have hanswer : processRequest X 2 request sub s = (.ok response, s') := by
    rcases catchThrown_ok X h with hok | ⟨hthrown, -⟩
    · exact hok
    · exact absurd ((processRequest_thrown_iff X hparse sub s).mp (by rw [hthrown])) hthrows
  rw [processRequest_parsed X 1 hparse] at hanswer
  cases hreply : reply X (fun request s => processRequest X 1 request true s) reqs sub
      (count s) with
  | mk result t =>
      rw [hreply] at hanswer
      cases result with
      | error fault => cases hanswer
      | ok reps =>
          cases hanswer
          have hshape : Shape X reqs reps := reply_shape hs hreply
          have hread := Messages.parse_serialize hcodec (hshape.initialised X)
          refine ⟨⟨reps, hread, ?_⟩, fun hnone => ?_, fun hthrown => absurd hthrown hthrows⟩
          · cases hshape with
            | aligned hclear hproper => exact .inl ⟨reqs, hparse, hclear, hproper.replies⟩
            | rejected h => exact .inr (.inl ⟨.rejected, h⟩)
            | envelope h hsome => exact .inr (.inr ⟨_, h, hsome⟩)
          · rw [hparse] at hnone
            cases hnone

theorem catchThrown_defined {request : Bytes} {sub : Bool} {s : Server}
    (hdefined : (catchThrown X (processRequest X 2 request sub s)).1 ≠ .error .undefined) :
    ∃ response s', catchThrown X (processRequest X 2 request sub s) = (.ok response, s') := by
  have hdepth := processRequest_depth X request sub s
  cases hanswer : processRequest X 2 request sub s with
  | mk result t =>
      rw [hanswer] at hdepth hdefined
      rcases result with fault | response
      · cases fault with
        | thrown => exact ⟨_, _, rfl⟩
        | undefined => simp [catchThrown] at hdefined
        | depth => simp at hdepth
      · exact ⟨_, _, rfl⟩

/--
What a response of the server tells the client: aligned replies, one error or an
envelope, and in particular parse errors and internal errors.  The client gets
them unless the request cannot be parsed or an exception is thrown: then the
server writes a message of its own where the client reads `Messages`.
-/
theorem delivered_iff (hcodec : X.codec.Lawful) {s : Server} (hs : Reachable X.P anything s)
    (depth : Nat) (request : Bytes) (sub : Bool)
    (hdefined : (catchThrown X (processRequest X (depth + 2) request sub s)).1 ≠
      .error .undefined) :
    ∃ response s',
      catchThrown X (processRequest X (depth + 2) request sub s) = (.ok response, s') ∧
      (Delivered X request sub s response ↔
        X.parse request ≠ none ∧ ¬Throws X request sub s) := by
  have hcount : Sound (count s) := (Reachable.count hs).sound
  rw [processRequest_two] at hdefined ⊢
  obtain ⟨response, s', h⟩ := catchThrown_defined X hdefined
  refine ⟨response, s', h, fun hdelivered => ⟨fun hparse => ?_, fun hthrows => ?_⟩, ?_⟩
  · exact not_delivered X h (.inl hparse) hdelivered
  · exact not_delivered X h (.inr hthrows) hdelivered
  · rintro ⟨hparse, hthrows⟩
    obtain ⟨reqs, hparse⟩ := Option.ne_none_iff_exists'.mp hparse
    exact delivered X hcodec hcount hparse hthrows h

/-! ## The generated code -/

theorem codec_lawful : codec.Lawful where
  numbers := MessageV0.schema.numbered
  read_write m hm := MessageV0.schema.read_write m hm

/-- A message of no version is answered. -/
theorem delivered_iff_no_version :
    ∃ response s', catchThrown sampleContext (processRequest sampleContext 2 [10, 2, 8, 0] false
        (Server.start {} 1 0)) = (.ok response, s') ∧
      Delivered sampleContext [10, 2, 8, 0] false (Server.start {} 1 0) response := by
  have hparse : sampleContext.parse [10, 2, 8, 0] = some { messages := [{ revision := 0 }] } := by
    rfl
  have hthrows : ¬Throws sampleContext [10, 2, 8, 0] false (Server.start {} 1 0) := by
    rintro ⟨reqs, hreqs, hthrown⟩
    cases hparse.symm.trans hreqs
    cases hthrown
  obtain ⟨response, s', h, hiff⟩ := delivered_iff sampleContext codec_lawful
    (Reachable.start {} 1 0) 0 [10, 2, 8, 0] false (fun h => nomatch h)
  exact ⟨response, s', h, hiff.mpr ⟨by rw [hparse]; simp, hthrows⟩⟩

/-- The parse error of a request of one stray byte does not reach the client. -/
theorem parse_error_undelivered :
    ∃ response s', catchThrown sampleContext (processRequest sampleContext 2 [255] false
        (Server.start {} 1 0)) = (.ok response, s') ∧
      Reachable sampleContext.P anything (Server.start {} 1 0) ∧
      Messages.parse sampleContext.codec response = some { encrypted := some {} } ∧
      ¬Delivered sampleContext [255] false (Server.start {} 1 0) response := by
  have hparse : sampleContext.parse [255] = none := rfl
  have hanswer : processRequest sampleContext 2 [255] false (Server.start {} 1 0) =
      (.ok ((errorMessage sampleContext .parseError).serialize sampleContext.codec),
        count (Server.start {} 1 0)) := by
    rw [processRequest, hparse]
  refine ⟨_, _, by rw [hanswer]; rfl, .start {} 1 0, Messages.parse_error _ _ _, ?_⟩
  exact not_delivered sampleContext (by rw [hanswer]; rfl) (.inl hparse)

end Api

end Butterfly
