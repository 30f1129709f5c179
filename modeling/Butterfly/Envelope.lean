import Butterfly.Crypto
import Butterfly.Foundation.Wire
import Butterfly.MessageTypes
import Butterfly.Run

/-!
# Requests as byte strings

`Api::ProcessRequest`, `Api::Dispatch` and `ApiEncrypted::Process`: from the
bytes of a request to the bytes of its response.  The parser of requests and the
codec of `MessageV0` come with the protocol buffers library and are parameters;
the messages of `message.proto` and `encrypted.proto` are written field by field.
-/

namespace Butterfly

open Std Foundation

namespace Proto

/-! ## Messages -/

inductive ErrorCode where
  | parseError
  | internalError
  | versionNotManaged
  | emptyRequest
  | rejected
  deriving DecidableEq, Repr

def ErrorCode.toNat : ErrorCode → Nat
  | .parseError => 0
  | .internalError => 1
  | .versionNotManaged => 2
  | .emptyRequest => 3
  | .rejected => 4

def ErrorCode.ofNumber : Nat → Option ErrorCode
  | 0 => some .parseError
  | 1 => some .internalError
  | 2 => some .versionNotManaged
  | 3 => some .emptyRequest
  | 4 => some .rejected
  | _ => none

structure Error where
  code : Option ErrorCode := none
  deriving DecidableEq

structure Message where
  revision : UInt32
  error : Option Error := none
  message0 : Option MessageV0 := none
  deriving DecidableEq

inductive EncryptedErrorCode where
  | notSupported
  | rejected
  | internalError
  deriving DecidableEq, Repr

def EncryptedErrorCode.toNat : EncryptedErrorCode → Nat
  | .notSupported => 0
  | .rejected => 1
  | .internalError => 2

def EncryptedErrorCode.ofNumber : Nat → Option EncryptedErrorCode
  | 0 => some .notSupported
  | 1 => some .rejected
  | 2 => some .internalError
  | _ => none

structure EncryptedError where
  code : Option EncryptedErrorCode := none
  deriving DecidableEq

structure Encrypted where
  error : Option EncryptedError := none
  aes256cbcSha512 : Option Bytes := none
  deriving DecidableEq

structure Messages where
  messages : List Message := []
  encrypted : Option Encrypted := none
  deriving DecidableEq

/-! ## Serialisation -/

/-- The generated code for `MessageV0`. -/
structure Codec where
  write : MessageV0 → List Field
  read : List Field → Option MessageV0

def codec : Codec where
  write := MessageV0.schema.write
  read := MessageV0.schema.read

def fieldOf (number : Nat) (value : Option WireValue) : List Field :=
  value.toList.map fun v => ⟨number, v⟩

def Error.fields (e : Error) : List Field :=
  fieldOf 1 (e.code.map fun c => .varint c.toNat)

def EncryptedError.fields (e : EncryptedError) : List Field :=
  fieldOf 1 (e.code.map fun c => .varint c.toNat)

def Encrypted.fields (e : Encrypted) : List Field :=
  fieldOf 1 (e.error.map fun error => .len (writeFields error.fields)) ++
    fieldOf 2 (e.aes256cbcSha512.map .len)

section Write

variable (C : Codec)

def Message.fields (m : Message) : List Field :=
  ⟨1, .varint m.revision.toNat⟩ ::
    (fieldOf 2 (m.error.map fun e => .len (writeFields e.fields)) ++
      fieldOf 3 (m.message0.map fun m => .len (writeFields (C.write m))))

def Messages.fields (m : Messages) : List Field :=
  m.messages.map (fun m => ⟨1, .len (writeFields (m.fields C))⟩) ++
    fieldOf 2 (m.encrypted.map fun e => .len (writeFields e.fields))

def Message.serialize (m : Message) : Bytes := writeFields (m.fields C)

def Messages.serialize (m : Messages) : Bytes := writeFields (m.fields C)

end Write

/-! ## Parsing -/

def Error.ofFields (fields : List Field) : Error :=
  { code := ((varints 1 fields).filterMap fun n => ErrorCode.ofNumber (n % 2 ^ 32)).getLast? }

def EncryptedError.ofFields (fields : List Field) : EncryptedError :=
  { code := ((varints 1 fields).filterMap fun n =>
      EncryptedErrorCode.ofNumber (n % 2 ^ 32)).getLast? }

def Encrypted.ofFields (fields : List Field) : Option Encrypted := do
  let error ← submessage 1 fields
  some { error := error.map EncryptedError.ofFields
         aes256cbcSha512 := (lens 2 fields).getLast? }

section Read

variable (C : Codec)

def Message.ofFields (fields : List Field) : Option Message := do
  let revision ← (varints 1 fields).getLast?
  let error ← submessage 2 fields
  let message0 ← submessage 3 fields
  let message0 ← message0.mapM C.read
  some { revision := UInt32.ofNat revision, error := error.map Error.ofFields
         message0 := message0 }

def Messages.parse (bytes : Bytes) : Option Messages := do
  let fields ← readFields bytes
  let messages ← (lens 1 fields).mapM fun bytes => do
    let fields ← readFields bytes
    Message.ofFields C fields
  let encrypted ← submessage 2 fields
  let encrypted ← encrypted.mapM Encrypted.ofFields
  some { messages := messages, encrypted := encrypted }

end Read

end Proto

/-! ## Processing -/

namespace Api

open Proto Crypto

inductive Fault where
  /-- A `std::exception`. -/
  | thrown
  | undefined
  /-- The recursion is deeper than allowed. -/
  | depth
  deriving DecidableEq

structure Context where
  P : Platform
  ambient : Ambient
  /-- `ParseFromString` and `IsInitialized` of `proto::Messages`. -/
  parse : Bytes → Option Messages
  codec : Codec
  ssl : OpenSsl
  /-- What `RAND_bytes` delivers. -/
  iv : Option Block
  revision : UInt32
  /-- The state an exception leaves, if one is thrown while a message is processed. -/
  exception : MessageV0 → Server → Option Server

variable (X : Context)

abbrev Answer (α : Type) := Except Fault α × Server

def Answer.map {α β : Type} (f : α → β) (answer : Answer α) : Answer β :=
  (answer.1.map f, answer.2)

def errorMessage (code : ErrorCode) : Message :=
  { revision := X.revision, error := some { code := some code } }

def rejected : Messages := { messages := [errorMessage X .rejected] }

def dispatch (req : Message) (s : Server) : Answer Message :=
  match req.message0 with
  | some req0 =>
      match X.exception req0 s with
      | some s => (.error .thrown, s)
      | none =>
          match Api0.process X.P X.ambient req0 s with
          | none => (.error .undefined, s)
          | some (rep0, s) =>
              (.ok { revision := X.revision, message0 := some rep0 }, s)
  | none => (.ok (errorMessage X .versionNotManaged), s)

def dispatchAll : List Message → Server → Answer (List Message)
  | [], s => (.ok [], s)
  | req :: rest, s =>
      match dispatch X req s with
      | (.error fault, s) => (.error fault, s)
      | (.ok rep, s) => (dispatchAll rest s).map (rep :: ·)

def dispatchMessages (reqs : Messages) (s : Server) : Answer Messages :=
  (dispatchAll X reqs.messages s).map fun reps => { messages := reps }

def buildInternalError : Bytes := (errorMessage X .internalError).serialize X.codec

/-- The `catch` around `ProcessRequest`. -/
def catchThrown (answer : Answer Bytes) : Answer Bytes :=
  match answer with
  | (.error .thrown, s) => (.ok (buildInternalError X), s)
  | answer => answer

def buildErr (code : EncryptedErrorCode) : Encrypted := { error := some { code := some code } }

/-- `ApiEncrypted::Process`, given what processes the decrypted request. -/
def encryptedProcess (process : Bytes → Server → Answer Bytes) (req : Encrypted)
    (s : Server) : Answer Encrypted :=
  match req.aes256cbcSha512 with
  | none => (.ok (buildErr .notSupported), s)
  | some cipher =>
      if s.config.encryptionKey = [] then (.ok (buildErr .notSupported), s)
      else match decAes256CbcSha512 X.ssl s.config.encryptionKey cipher [] with
        | none => (.error .undefined, s)
        | some (false, _) => (.ok (buildErr .rejected), s)
        | some (true, requestString) =>
            match catchThrown X (process requestString s) with
            | (.error fault, s) => (.error fault, s)
            | (.ok responseString, s) =>
                match encAes256CbcSha512 X.ssl X.iv s.config.encryptionKey
                    responseString [] with
                | (false, _) => (.ok (buildErr .internalError), s)
                | (true, encrypted) => (.ok { aes256cbcSha512 := some encrypted }, s)

def count (s : Server) : Server := { s with requestCounter := s.requestCounter + 1 }

def reply (process : Bytes → Server → Answer Bytes) (reqs : Messages) (sub : Bool)
    (s : Server) : Answer Messages :=
  if s.config.encryptionKey ≠ [] then
    match reqs.encrypted, sub with
    | some _, true => (.ok (rejected X), s)
    | some req, false =>
        (encryptedProcess X process req s).map fun e => { encrypted := some e }
    | none, true => dispatchMessages X reqs s
    | none, false => (.ok (rejected X), s)
  else if reqs.messages ≠ [] then dispatchMessages X reqs s
  else (.ok (rejected X), s)

/-- `depth` bounds the recursion through `ApiEncrypted::Process`. -/
def processRequest : Nat → Bytes → Bool → Server → Answer Bytes
  | 0, _, _, s => (.error .depth, s)
  | depth + 1, request, sub, s =>
      match X.parse request with
      | none => (.ok ((errorMessage X .parseError).serialize X.codec), count s)
      | some reqs =>
          (reply X (fun request s => processRequest depth request true s) reqs sub
            (count s)).map fun reps => reps.serialize X.codec

/-- `ApiServer::Process` between the two ZMQ messages. -/
def serverProcess (request : Bytes) (s : Server) : Answer Bytes :=
  catchThrown X (processRequest X 2 request false s)

/-! ## The encryption gate -/

/-- The request carries an envelope that decrypts to this payload. -/
def Opens (key : Bytes) (request payload : Bytes) : Prop :=
  ∃ reqs req cipher, X.parse request = some reqs ∧ reqs.encrypted = some req ∧
    req.aes256cbcSha512 = some cipher ∧
    decAes256CbcSha512 X.ssl key cipher [] = some (true, payload)

theorem sameCore_count (s : Server) : SameCore s (count s) := ⟨rfl, rfl, rfl, rfl, rfl, rfl, rfl⟩

theorem reply_sub (process process' : Bytes → Server → Answer Bytes) (reqs : Messages)
    (s : Server) : reply X process reqs true s = reply X process' reqs true s := by
  unfold reply
  split
  · cases reqs.encrypted <;> rfl
  · rfl

theorem processRequest_sub (depth : Nat) (request : Bytes) (s : Server) :
    processRequest X (depth + 1) request true s = processRequest X 1 request true s := by
  unfold processRequest
  split
  · rfl
  · rw [reply_sub]

theorem processRequest_two (depth : Nat) (request : Bytes) (sub : Bool) (s : Server) :
    processRequest X (depth + 2) request sub s = processRequest X 2 request sub s := by
  unfold processRequest
  split
  · rfl
  · simp only [processRequest_sub X depth]

theorem dispatch_depth (req : Message) (s : Server) :
    (dispatch X req s).1 ≠ .error .depth := by
  unfold dispatch
  split
  · split
    · simp
    · split <;> simp
  · simp

theorem Answer.map_depth {α β : Type} {f : α → β} {answer : Answer α}
    (h : answer.1 ≠ .error .depth) : (answer.map f).1 ≠ .error .depth := by
  obtain ⟨result, s⟩ := answer
  cases result with
  | error fault => simpa [Answer.map, Except.map] using h
  | ok value => simp [Answer.map, Except.map]

theorem dispatchAll_depth (reqs : List Message) (s : Server) :
    (dispatchAll X reqs s).1 ≠ .error .depth := by
  induction reqs generalizing s with
  | nil => simp [dispatchAll]
  | cons req rest ih =>
      have hreq := dispatch_depth X req s
      unfold dispatchAll
      split
      · next hfault =>
          rw [hfault] at hreq
          simpa using hreq
      · exact Answer.map_depth (ih _)

theorem encryptedProcess_depth {process : Bytes → Server → Answer Bytes}
    (hprocess : ∀ request s, (process request s).1 ≠ .error .depth) (req : Encrypted)
    (s : Server) : (encryptedProcess X process req s).1 ≠ .error .depth := by
  have hcatch : ∀ request s, (catchThrown X (process request s)).1 ≠ .error .depth := by
    intro request s
    unfold catchThrown
    split
    · simp
    · exact hprocess request s
  unfold encryptedProcess
  split
  · simp
  split
  · simp
  split
  · simp
  · simp
  · next payload _ =>
      have hanswer := hcatch payload s
      split
      · next hfault =>
          rw [hfault] at hanswer
          simpa using hanswer
      · split <;> simp

theorem reply_depth {process : Bytes → Server → Answer Bytes}
    (hprocess : ∀ request s, (process request s).1 ≠ .error .depth) (reqs : Messages)
    (sub : Bool) (s : Server) : (reply X process reqs sub s).1 ≠ .error .depth := by
  have hdispatch : (dispatchMessages X reqs s).1 ≠ .error .depth :=
    Answer.map_depth (dispatchAll_depth X reqs.messages s)
  unfold reply
  split
  · split
    · simp
    · exact Answer.map_depth (encryptedProcess_depth X hprocess _ s)
    · exact hdispatch
    · simp
  · split
    · exact hdispatch
    · simp

theorem processRequest_one_depth (request : Bytes) (s : Server) :
    (processRequest X 1 request true s).1 ≠ .error .depth := by
  unfold processRequest
  split
  · simp
  · next reqs _ =>
      rw [reply_sub X _ fun _ s => (.ok [], s)]
      exact Answer.map_depth (reply_depth X (by simp) reqs true _)

theorem processRequest_depth (request : Bytes) (sub : Bool) (s : Server) :
    (processRequest X 2 request sub s).1 ≠ .error .depth := by
  unfold processRequest
  split
  · simp
  · next reqs _ =>
      exact Answer.map_depth (reply_depth X (processRequest_one_depth X) reqs sub _)

/-- What becomes of the answer to a decrypted request. -/
def sealAnswer (answer : Answer Bytes) : Answer Bytes :=
  match catchThrown X answer with
  | (.error fault, s) => (.error fault, s)
  | (.ok responseString, s) =>
      let encrypted : Encrypted :=
        match encAes256CbcSha512 X.ssl X.iv s.config.encryptionKey responseString [] with
        | (false, _) => buildErr .internalError
        | (true, encrypted) => { aes256cbcSha512 := some encrypted }
      (.ok (Messages.serialize X.codec { encrypted := some encrypted }), s)

theorem encryptedProcess_opens {process : Bytes → Server → Answer Bytes} {req : Encrypted}
    {cipher payload : Bytes} {s : Server} (hkey : s.config.encryptionKey ≠ [])
    (hreq : req.aes256cbcSha512 = some cipher)
    (hopen : decAes256CbcSha512 X.ssl s.config.encryptionKey cipher [] =
      some (true, payload)) :
    ((encryptedProcess X process req s).map fun e =>
        Messages.serialize X.codec { encrypted := some e }) =
      sealAnswer X (process payload s) := by
  unfold encryptedProcess sealAnswer
  simp only [hreq, if_neg hkey, hopen]
  rcases catchThrown X (process payload s) with ⟨fault | response, t⟩
  · rfl
  · dsimp only
    split <;> rfl

theorem Answer.map_map {α β γ : Type} (f : α → β) (g : β → γ) (answer : Answer α) :
    (answer.map f).map g = answer.map (g ∘ f) := by
  obtain ⟨result, s⟩ := answer
  cases result <;> rfl

theorem processRequest_opens (depth : Nat) {request payload : Bytes} {s : Server}
    (hkey : s.config.encryptionKey ≠ [])
    (hopens : Opens X s.config.encryptionKey request payload) :
    processRequest X (depth + 2) request false s =
      sealAnswer X (processRequest X 1 payload true (count s)) := by
  obtain ⟨reqs, req, cipher, hparse, henvelope, hreq, hdec⟩ := hopens
  rw [processRequest_two, processRequest]
  simp only [hparse, reply, show (count s).config = s.config from rfl, ne_eq, hkey,
    not_false_eq_true, if_true, henvelope]
  rw [Answer.map_map]
  exact encryptedProcess_opens (s := count s) X hkey hreq hdec

theorem processRequest_closed {request key : Bytes} (hkey : key ≠ [])
    (hclosed : ∀ payload, ¬Opens X key request payload) :
    ∃ response, ∀ (depth : Nat) (s : Server), s.config.encryptionKey = key →
      processRequest X (depth + 2) request false s = (.ok response, count s) := by
  cases hparse : X.parse request with
  | none => exact ⟨_, fun depth s _ => by rw [processRequest, hparse]⟩
  | some reqs =>
      cases henvelope : reqs.encrypted with
      | none =>
          refine ⟨(rejected X).serialize X.codec, fun depth s hs => ?_⟩
          rw [processRequest, hparse]
          simp only [reply, show (count s).config = s.config from rfl, hs, ne_eq, hkey,
            not_false_eq_true, if_true, henvelope]
          rfl
      | some req =>
          -- The envelope has no ciphertext, or one that does not decrypt.
          suffices h : ∃ e, ∀ process s, s.config.encryptionKey = key →
              encryptedProcess X process req s = (.ok e, s) by
            obtain ⟨e, he⟩ := h
            refine ⟨Messages.serialize X.codec { encrypted := some e }, fun depth s hs => ?_⟩
            rw [processRequest, hparse]
            simp only [reply, show (count s).config = s.config from rfl, hs, ne_eq, hkey,
              not_false_eq_true, if_true, henvelope, he _ (count s) hs]
            rfl
          cases hreq : req.aes256cbcSha512 with
          | none =>
              exact ⟨_, fun process s _ => by unfold encryptedProcess; rw [hreq]⟩
          | some cipher =>
              obtain ⟨⟨opened, payload⟩, hdec⟩ := Option.isSome_iff_exists.mp
                (decAes256CbcSha512_isSome X.ssl key cipher [])
              cases opened with
              | false =>
                  refine ⟨buildErr .rejected, fun process s hs => ?_⟩
                  unfold encryptedProcess
                  simp only [hreq, hs, if_neg hkey, hdec]
              | true =>
                  exact absurd ⟨reqs, req, cipher, hparse, henvelope, hreq, hdec⟩
                    (hclosed payload)

theorem processRequest_sub_closed {payload key : Bytes} (hkey : key ≠ [])
    (hpayload : ∀ inner, X.parse payload = some inner → inner.encrypted ≠ none) :
    ∃ response, ∀ s : Server, s.config.encryptionKey = key →
      processRequest X 1 payload true s = (.ok response, count s) := by
  cases hparse : X.parse payload with
  | none => exact ⟨_, fun s _ => by rw [processRequest, hparse]⟩
  | some inner =>
      obtain ⟨e, he⟩ := Option.ne_none_iff_exists'.mp (hpayload inner hparse)
      refine ⟨(rejected X).serialize X.codec, fun s hs => ?_⟩
      rw [processRequest, hparse]
      simp only [reply, show (count s).config = s.config from rfl, hs, ne_eq, hkey,
        not_false_eq_true, if_true, he]
      rfl

theorem processRequest_sub_open {payload : Bytes} {inner : Messages} {s : Server}
    (hkey : s.config.encryptionKey ≠ []) (hparse : X.parse payload = some inner)
    (hinner : inner.encrypted = none) :
    processRequest X 1 payload true s =
      (dispatchMessages X inner (count s)).map fun reps => reps.serialize X.codec := by
  rw [processRequest, hparse]
  simp only [reply, show (count s).config = s.config from rfl, ne_eq, hkey,
    not_false_eq_true, if_true, hinner]

/--
The encryption gate.  A request that carries no envelope that opens changes
nothing but the counter, and its response does not depend on the state.  Where the
envelope opens, the messages of the payload are dispatched and nothing else.  Two
levels of recursion are always enough.
-/
theorem encryption_gate (key : Bytes) (hkey : key ≠ []) (request : Bytes) :
    ((∀ payload, ¬Opens X key request payload) →
      ∃ response, ∀ (depth : Nat) (s : Server), s.config.encryptionKey = key →
        processRequest X (depth + 2) request false s = (.ok response, count s) ∧
          SameCore s (count s)) ∧
    (∀ payload, Opens X key request payload →
      (∀ inner, X.parse payload = some inner → inner.encrypted = none →
        ∀ (depth : Nat) (s : Server), s.config.encryptionKey = key →
          processRequest X (depth + 2) request false s =
            sealAnswer X ((dispatchMessages X inner (count (count s))).map fun reps =>
              reps.serialize X.codec)) ∧
      ((∀ inner, X.parse payload = some inner → inner.encrypted ≠ none) →
        ∃ response, ∀ (depth : Nat) (s : Server), s.config.encryptionKey = key →
          processRequest X (depth + 2) request false s =
            (.ok response, count (count s)) ∧ SameCore s (count (count s)))) ∧
    (∀ (depth : Nat) (sub : Bool) (s : Server),
      processRequest X (depth + 2) request sub s = processRequest X 2 request sub s ∧
        (processRequest X 2 request sub s).1 ≠ .error .depth) := by
  refine ⟨fun hclosed => ?_, fun payload hopens => ⟨?_, fun hpayload => ?_⟩,
    fun depth sub s => ⟨processRequest_two X depth request sub s,
      processRequest_depth X request sub s⟩⟩
  · obtain ⟨response, hresponse⟩ := processRequest_closed X hkey hclosed
    exact ⟨response, fun depth s hs => ⟨hresponse depth s hs, sameCore_count s⟩⟩
  · intro inner hparse hinner depth s hs
    subst hs
    rw [processRequest_opens X depth hkey hopens,
      processRequest_sub_open (s := count s) X hkey hparse hinner]
  · obtain ⟨response, hresponse⟩ := processRequest_sub_closed X hkey hpayload
    let encrypted : Encrypted :=
      match encAes256CbcSha512 X.ssl X.iv key response [] with
      | (false, _) => buildErr .internalError
      | (true, encrypted) => { aes256cbcSha512 := some encrypted }
    refine ⟨Messages.serialize X.codec { encrypted := some encrypted }, fun depth s hs =>
      ⟨?_, (sameCore_count s).trans (sameCore_count (count s))⟩⟩
    subst hs
    rw [processRequest_opens X depth hkey hopens, hresponse (count s) rfl]
    rfl

def sampleContext : Context where
  P := Libc.platform
  ambient := {}
  parse := Messages.parse codec
  codec := codec
  ssl := openSsl
  iv := some (Vector.replicate 16 0)
  revision := 0
  exception _ _ := none

theorem parse_envelope_bytes (cipher : Bytes) :
    sampleContext.parse (Messages.serialize codec
        { encrypted := some { aes256cbcSha512 := some cipher } }) =
      some { encrypted := some { aes256cbcSha512 := some cipher } } := by
  have hinner : readFields (writeFields [⟨2, .len cipher⟩]) = some [⟨2, .len cipher⟩] :=
    readFields_writeFields (by simp)
  have houter : readFields (writeFields [⟨2, .len (writeFields [⟨2, .len cipher⟩])⟩]) =
      some [⟨2, .len (writeFields [⟨2, .len cipher⟩])⟩] :=
    readFields_writeFields (by simp)
  change Messages.parse codec (writeFields [⟨2, .len (writeFields [⟨2, .len cipher⟩])⟩]) = _
  simp [Messages.parse, houter, lens, submessage, hinner, Encrypted.ofFields]

/-- A request for the list of the NICs is rejected in the clear, and answered in an envelope. -/
theorem encryption_gate_nic_list :
    let clear : Bytes := [10, 8, 8, 0, 26, 4, 10, 2, 32, 1]
    let inner : Messages :=
      { messages := [
          { revision := 0, message0 := some { request := some { nicList := some true } } }] }
    (∃ response, ∀ s : Server, s.config.encryptionKey = sampleKey →
      processRequest sampleContext 2 clear false s = (.ok response, count s)) ∧
    ∃ request, Opens sampleContext sampleKey request clear ∧
      ∀ s : Server, s.config.encryptionKey = sampleKey →
        processRequest sampleContext 2 request false s =
          sealAnswer sampleContext ((dispatchMessages sampleContext inner (count (count s))).map
            fun reps => reps.serialize codec) := by
  intro clear inner
  have hparse : sampleContext.parse clear = some inner := rfl
  have hkey : sampleKey ≠ [] := by decide
  have hlength : sampleKey.length = 32 := by decide
  obtain ⟨cipher, -, hdec, -⟩ :=
    encAes256CbcSha512_opens openSsl hlength (Vector.replicate 16 0) clear
  have hopens : Opens sampleContext sampleKey
      (Messages.serialize codec { encrypted := some { aes256cbcSha512 := some cipher } }) clear :=
    ⟨_, _, cipher, parse_envelope_bytes cipher, rfl, rfl, hdec⟩
  constructor
  · have hclosed : ∀ payload, ¬Opens sampleContext sampleKey clear payload := by
      rintro payload ⟨reqs, req, cipher, hreqs, henvelope, -⟩
      cases hparse.symm.trans hreqs
      cases henvelope
    obtain ⟨response, hresponse⟩ :=
      (encryption_gate sampleContext sampleKey hkey clear).1 hclosed
    exact ⟨response, fun s hs => (hresponse 0 s hs).1⟩
  · exact ⟨_, hopens, ((encryption_gate sampleContext sampleKey hkey _).2.1 clear hopens).1 inner
      hparse rfl 0⟩

end Api

end Butterfly
