import Butterfly.Arguments
import Butterfly.Libc

/-!
# Options of the client

The loops of `GlobalOptions::Parse`, `NicAddOptions::Parse` and `NicUpdateOptions::Parse`
look at every argument and, for most options, at the one behind it.  What is behind the last
argument of a command is the separator of the next one, or nothing.  The global options are
read from all arguments, the separators among them, and the file of a key at once.
-/

namespace Butterfly.Client

inductive Crash where
  /-- A text or a number is made of the null pointer. -/
  | nullArgument
  | rethrow
  /-- The library throws, and nothing catches it. -/
  | exception
  deriving DecidableEq

/-! ## A loop over the arguments -/

inductive OptionKind where
  | flag
  /-- A value is looked for only if `i + 1 < argc`. -/
  | guarded
  | unguarded
  deriving DecidableEq

/-- A branch of the loop: the names of the option and what is done with its value. -/
structure OptionCase (σ : Type) where
  names : List String
  kind : OptionKind
  set : String → σ → σ

structure Scan (σ : Type) where
  options : σ
  /-- What belongs to another command was read. -/
  strayed : Bool := false

section Loop

variable {σ : Type}

/-- The branch is taken for `token` with the arguments `rest` behind it. -/
def OptionCase.Fires (c : OptionCase σ) (token : String) (rest : List String) : Prop :=
  token ∈ c.names ∧ (c.kind = .guarded → rest ≠ [])

instance (c : OptionCase σ) (token : String) (rest : List String) :
    Decidable (c.Fires token rest) := inferInstanceAs (Decidable (_ ∧ _))

/-- `behind` is `argv[argc]`. -/
def OptionCase.run (c : OptionCase σ) (behind : Option String) (rest : List String)
    (s : Scan σ) : Except Crash (Scan σ) :=
  match c.kind, rest, behind with
  | .flag, _, _ => .ok { s with options := c.set "" s.options }
  | _, value :: _, _ => .ok { s with options := c.set value s.options }
  | _, [], some value => .ok ⟨c.set value s.options, true⟩
  | _, [], none => .error .nullArgument

def runCases (cases : List (OptionCase σ)) (behind : Option String) (token : String)
    (rest : List String) (s : Scan σ) : Except Crash (Scan σ) :=
  match cases.find? fun c => c.Fires token rest with
  | some c => c.run behind rest s
  | none => .ok s

def scanArguments (cases : List (OptionCase σ)) (behind : Option String) :
    List String → Scan σ → Except Crash (Scan σ)
  | [], s => .ok s
  | token :: rest, s =>
      (runCases cases behind token rest s).bind (scanArguments cases behind rest)

/-- `token` is the name of an option that looks for its value in any case. -/
def Unguarded (cases : List (OptionCase σ)) (token : String) : Prop :=
  ∃ c, cases.find? (fun c => c.Fires token []) = some c ∧ c.kind = .unguarded

/-- The loop came to its end within the arguments. -/
def Within (result : Except Crash (Scan σ)) : Prop := ∃ o, result = .ok ⟨o, false⟩

variable {cases : List (OptionCase σ)} {behind : Option String} {token : String}

theorem runCases_inside (cases : List (OptionCase σ)) (behind : Option String)
    (token value : String) (rest : List String) (s : Scan σ) :
    ∃ o, runCases cases behind token (value :: rest) s = .ok ⟨o, s.strayed⟩ := by
  unfold runCases
  split
  · next c _ =>
      unfold OptionCase.run
      cases c.kind <;> exact ⟨_, rfl⟩
  · exact ⟨s.options, rfl⟩

theorem runCases_last (behind : Option String) (o : σ) :
    Within (runCases cases behind token [] ⟨o, false⟩) ↔ ¬Unguarded cases token := by
  unfold runCases Unguarded
  cases hfind : cases.find? (fun c => c.Fires token []) with
  | none => exact iff_of_true ⟨o, rfl⟩ (by simp)
  | some c =>
      have hfires := List.find?_some hfind
      rw [decide_eq_true_eq] at hfires
      simp only [Option.some.injEq, exists_eq_left', OptionCase.run]
      cases hkind : c.kind with
      | flag => exact iff_of_true ⟨c.set "" o, rfl⟩ (by decide)
      | guarded => exact absurd rfl (hfires.2 hkind)
      | unguarded =>
          refine iff_of_false ?_ (fun h => h rfl)
          cases behind with
          | none =>
              rintro ⟨_, h⟩
              cases h
          | some value =>
              exact fun ⟨_, h⟩ => Bool.noConfusion (congrArg Scan.strayed (Except.ok.inj h))

theorem scanArguments_within (args : List String) (o : σ) :
    Within (scanArguments cases behind args ⟨o, false⟩) ↔
      ∀ token ∈ args.getLast?, ¬Unguarded cases token := by
  induction args generalizing o with
  | nil => exact iff_of_true ⟨o, rfl⟩ (by simp)
  | cons token rest ih =>
      unfold scanArguments
      cases rest with
      | nil =>
          simp only [List.getLast?_singleton, Option.mem_some_iff, forall_eq']
          rw [← runCases_last behind o]
          cases runCases cases behind token [] ⟨o, false⟩ with
          | error crash => exact Iff.rfl
          | ok s => exact Iff.rfl
      | cons value rest =>
          obtain ⟨o', ho'⟩ := runCases_inside cases behind token value rest ⟨o, false⟩
          rw [ho', List.getLast?_cons_cons]
          exact ih o'

end Loop

/-! ## The file of a key -/

structure File where
  /-- What `tellg` says at the end; none of a pipe, which has no position. -/
  size : Option Nat
  bytes : List UInt8

structure Host where
  /-- The files that can be opened. -/
  file : String → Option File
  /-- The longest file that there is memory for. -/
  memory : Nat
  /-- What `BIO_read` makes of a text in base64, unless it returns a number below zero. -/
  bioRead : List UInt8 → Option (List UInt8)

def File.content (file : File) (len : Nat) : List UInt8 := file.bytes.takeD len 0

def unbase64 (host : Host) (text : List UInt8) : Except Crash (List UInt8) :=
  match host.bioRead text with
  | some bytes => .ok bytes
  -- `out->insert` is given the length that a number below zero becomes.
  | none => .error .exception

def keyFromPath (host : Host) (path : String) : Except Crash (Option (List UInt8)) :=
  match host.file path with
  | none => .ok none
  | some file =>
      -- The vector has the length that was told, -1 among them.
      match file.size with
      | none => .error .exception
      | some len =>
          if host.memory < len then .error .exception
          else (unbase64 host (file.content len)).map fun key =>
            if key.length = 32 then some key else none

/-- The file has a length, there is room for it, and its content can be decoded. -/
def KeyLoads (host : Host) (path : String) : Prop :=
  ∀ file ∈ host.file path, ∃ len ∈ file.size,
    len ≤ host.memory ∧ (host.bioRead (file.content len)).isSome

theorem keyFromPath_ok_iff {host : Host} {path : String} :
    (∃ key, keyFromPath host path = .ok key) ↔ KeyLoads host path := by
  unfold keyFromPath KeyLoads
  cases host.file path with
  | none => simp
  | some file =>
      simp only [Option.mem_some_iff, forall_eq']
      cases file.size with
      | none => simp
      | some len =>
          simp only [Option.mem_some_iff, exists_eq_left', ← Nat.not_lt, unbase64]
          split
          · next hlong => simp [hlong]
          · next hroom =>
              cases host.bioRead (file.content len) with
              | none => simp [Except.map]
              | some bytes => simp [Except.map, hroom]

/-! ## The global options -/

structure GlobalOptions where
  endpoint : String := "tcp://127.0.0.1:9999"
  version : Bool := false
  verbose : Bool := false
  help : Bool := false
  timeout : Int := 0
  encryptionKey : List UInt8 := []

def leadingNumber (text : String) : Option Int :=
  let text := text.toList.dropWhile fun c => c = ' ' || ('\t' ≤ c && c ≤ '\r')
  let digits := fun text : List Char =>
    match text.takeWhile Char.isDigit with
    | [] => none
    | ds => some (Libc.decimal ds : Int)
  match text with
  | '-' :: text => (digits text).map fun n => -n
  | '+' :: text => digits text
  | text => digits text

/-- Of a number that an `int` has no room for nothing is known. -/
def atoi (text : String) : Int := (leadingNumber text).getD 0

/-- A value is stored; a separator in its place is that of the next command. -/
def Scan.take {σ : Type} (s : Scan σ) (value : String) (options : σ) : Scan σ :=
  ⟨options, s.strayed || value = "+"⟩

/-- The first chain of branches; `value` is `argv[i + 1]`. -/
def GlobalOptions.readOption (token : String) (value : Option String)
    (s : Scan GlobalOptions) : Except Crash (Scan GlobalOptions) :=
  if value.isSome ∧ (token = "--endpoint" ∨ token = "-e") then
    .ok (s.take (value.getD "") { s.options with endpoint := value.getD "" })
  else if token = "-v" ∨ token = "--verbose" then
    .ok { s with options := { s.options with verbose := true } }
  else if token = "-V" ∨ token = "--version" then
    .ok { s with options := { s.options with version := true } }
  else if token = "-h" ∨ token = "--help" then
    .ok { s with options := { s.options with help := true } }
  else if token = "-t" ∨ token = "--timeout" then
    match value with
    | none => .error .nullArgument
    | some v => .ok (s.take v { s.options with timeout := atoi v })
  else .ok s

def GlobalOptions.readKey (host : Host) (token : String) (value : Option String)
    (s : Scan GlobalOptions) : Except Crash (Scan GlobalOptions) :=
  if value.isSome ∧ (token = "--key" ∨ token = "-k") then
    (keyFromPath host (value.getD "")).map fun key =>
      s.take (value.getD "") { s.options with encryptionKey := key.getD s.options.encryptionKey }
  else .ok s

def GlobalOptions.round (host : Host) (token : String) (value : Option String)
    (s : Scan GlobalOptions) : Except Crash (Scan GlobalOptions) :=
  (GlobalOptions.readOption token value s).bind (GlobalOptions.readKey host token value)

def GlobalOptions.scan (host : Host) :
    List String → Scan GlobalOptions → Except Crash (Scan GlobalOptions)
  | [], s => .ok s
  | token :: rest, s =>
      (GlobalOptions.round host token rest.head? s).bind (GlobalOptions.scan host rest)

/-- `args` is `argv` without the name of the program. -/
def GlobalOptions.parse (host : Host) (args : List String) : Except Crash (Scan GlobalOptions) :=
  GlobalOptions.scan host args { options := {} }

/-! ## The options of a NIC -/

def mkOptOption (f opt : String) : String := f ++ ": \"" ++ opt ++ "\""

structure NicAddOptions where
  ips : List String := []
  sgs : List String := []
  mac : String := ""
  enableAntispoof : String := "false"
  id : String := ""
  vni : String := ""
  type : String := "VHOST_USER_SERVER"
  packetTrace : String := ""
  packetTracePath : String := ""
  bypassFiltering : String := "false"
  btype : String := ""
  dip : String := ""
  dmac : String := ""

def NicAddOptions.cases : List (OptionCase NicAddOptions) :=
  [⟨["--ip"], .guarded, fun v o => { o with ips := o.ips ++ [v] }⟩,
   ⟨["--dip"], .guarded, fun v o => { o with dip := mkOptOption "dip" v }⟩,
   ⟨["--sg"], .guarded, fun v o => { o with sgs := o.sgs ++ [v] }⟩,
   ⟨["--mac"], .guarded, fun v o => { o with mac := v }⟩,
   ⟨["--dmac"], .guarded, fun v o => { o with dmac := mkOptOption "dmac" v }⟩,
   ⟨["--enable-antispoof"], .flag, fun _ o => { o with enableAntispoof := "true" }⟩,
   ⟨["--id"], .guarded, fun v o => { o with id := v }⟩,
   ⟨["--type"], .guarded, fun v o => { o with type := v }⟩,
   ⟨["--btype"], .guarded, fun v o => { o with btype := mkOptOption "btype" v }⟩,
   ⟨["--vni"], .guarded, fun v o => { o with vni := v }⟩,
   ⟨["--bypass-filtering"], .flag, fun _ o => { o with bypassFiltering := "true" }⟩,
   ⟨["--packet-trace"], .unguarded, fun v o => { o with packetTrace := "packet_trace: " ++ v }⟩,
   ⟨["--trace-path"], .unguarded, fun v o =>
    { o with packetTracePath := mkOptOption "packet_trace_path" v }⟩]

def pathWithoutTrace (packetTrace packetTracePath : String) : Prop :=
  packetTracePath ≠ "" ∧ (packetTrace = "" ∨ packetTrace = "packet_trace: false")

instance (packetTrace packetTracePath : String) :
    Decidable (pathWithoutTrace packetTrace packetTracePath) :=
  inferInstanceAs (Decidable (_ ∧ _))

def NicAddOptions.status (o : NicAddOptions) : Int :=
  if pathWithoutTrace o.packetTrace o.packetTracePath then 1
  else if o.type ≠ "VHOST_USER_SERVER" ∧ o.type ≠ "TAP" ∧ o.type ≠ "BENCH" then 1
  else if o.mac.length = 0 ∨ o.id.length = 0 ∨ o.vni.length = 0 then 1
  else 0

def NicAddOptions.parse (args : List String) (behind : Option String) :
    Except Crash (Scan NicAddOptions × Int) :=
  (scanArguments NicAddOptions.cases behind args { options := {} }).map fun s =>
    (s, s.options.status)

structure NicUpdateOptions where
  ips : List String := []
  id : String := ""
  enableAntispoof : String := ""
  packetTrace : String := ""
  packetTracePath : String := ""

def NicUpdateOptions.cases : List (OptionCase NicUpdateOptions) :=
  [⟨["--ip"], .guarded, fun v o => { o with ips := o.ips ++ [v] }⟩,
   ⟨["--enable-antispoof"], .unguarded, fun v o =>
    { o with enableAntispoof := "ip_anti_spoof: " ++ v }⟩,
   ⟨["--id"], .guarded, fun v o => { o with id := v }⟩,
   ⟨["--packet-trace"], .unguarded, fun v o => { o with packetTrace := "packet_trace: " ++ v }⟩,
   ⟨["--trace-path"], .unguarded, fun v o =>
    { o with packetTracePath := mkOptOption "packet_trace_path" v }⟩]

def NicUpdateOptions.status (o : NicUpdateOptions) : Int :=
  if o.id = "" then 1
  else if pathWithoutTrace o.packetTrace o.packetTracePath then 1
  else 0

def NicUpdateOptions.parse (args : List String) (behind : Option String) :
    Except Crash (Scan NicUpdateOptions × Int) :=
  (scanArguments NicUpdateOptions.cases behind args { options := {} }).map fun s =>
    (s, s.options.status)

/-! ### The options that look behind the command -/

section Unguarded

variable {σ : Type} {cases : List (OptionCase σ)} {token : String}

def Unambiguous (cases : List (OptionCase σ)) : Prop :=
  ∀ c ∈ cases, c.kind = .flag → ∀ c' ∈ cases, c'.kind = .unguarded →
    ∀ name ∈ c'.names, name ∉ c.names

instance : Decidable (Unambiguous cases) :=
  inferInstanceAs (Decidable (∀ c ∈ cases, c.kind = .flag → ∀ c' ∈ cases, c'.kind = .unguarded →
    ∀ name ∈ c'.names, name ∉ c.names))

theorem unguarded_iff_mem (hnames : Unambiguous cases) :
    Unguarded cases token ↔ ∃ c ∈ cases, c.kind = .unguarded ∧ token ∈ c.names := by
  constructor
  · rintro ⟨c, hfind, hkind⟩
    have hfires := List.find?_some hfind
    rw [decide_eq_true_eq] at hfires
    exact ⟨c, List.mem_of_find?_eq_some hfind, hkind, hfires.1⟩
  · rintro ⟨c, hc, hkind, hname⟩
    have hfires : c.Fires token [] := ⟨hname, fun hguarded => by
      rw [hkind] at hguarded
      cases hguarded⟩
    cases hfind : cases.find? (fun c => c.Fires token []) with
    | none =>
        exact absurd (decide_eq_true hfires) (List.find?_eq_none.mp hfind c hc)
    | some first =>
        refine ⟨first, hfind, ?_⟩
        have hfirst := List.find?_some hfind
        rw [decide_eq_true_eq] at hfirst
        cases hkind' : first.kind with
        | flag =>
            exact absurd hfirst.1 (hnames first (List.mem_of_find?_eq_some hfind) hkind' c hc
              hkind token hname)
        | guarded => exact absurd rfl (hfirst.2 hkind')
        | unguarded => rfl

theorem NicAddOptions.unguarded_iff :
    Unguarded NicAddOptions.cases token ↔ token = "--packet-trace" ∨ token = "--trace-path" := by
  rw [unguarded_iff_mem (by decide +kernel)]
  simp [NicAddOptions.cases]

theorem NicUpdateOptions.unguarded_iff :
    Unguarded NicUpdateOptions.cases token ↔
      token = "--enable-antispoof" ∨ token = "--packet-trace" ∨ token = "--trace-path" := by
  rw [unguarded_iff_mem (by decide +kernel)]
  simp [NicUpdateOptions.cases]

end Unguarded

/-! ### What the global options need -/

section Global

variable {host : Host} {token : String} {value : Option String} {args : List String}
  {s s' : Scan GlobalOptions}

def TakesValue (token : String) : Prop :=
  token = "--endpoint" ∨ token = "-e" ∨ token = "-t" ∨ token = "--timeout" ∨
    token = "--key" ∨ token = "-k"

structure GlobalFine (host : Host) (token : String) (value : Option String) : Prop where
  timeout : token = "-t" ∨ token = "--timeout" → value.isSome
  separator : TakesValue token → value ≠ some "+"
  key : token = "--key" ∨ token = "-k" → ∀ path ∈ value, KeyLoads host path

theorem readOption_ok_iff :
    (∃ s', GlobalOptions.readOption token value s = .ok s') ↔
      (token = "-t" ∨ token = "--timeout" → value.isSome) := by
  unfold GlobalOptions.readOption
  split_ifs with hendpoint hverbose hversion hhelp htimeout
  · simp [hendpoint.1]
  · rcases hverbose with rfl | rfl <;> simp
  · rcases hversion with rfl | rfl <;> simp
  · rcases hhelp with rfl | rfl <;> simp
  · cases value <;> simp [htimeout]
  · simp [htimeout]

theorem readOption_strayed (h : GlobalOptions.readOption token value s = .ok s') :
    s'.strayed = true ↔ s.strayed = true ∨
      (token = "--endpoint" ∨ token = "-e" ∨ token = "-t" ∨ token = "--timeout") ∧
        value = some "+" := by
  unfold GlobalOptions.readOption at h
  split_ifs at h with hendpoint hverbose hversion hhelp htimeout
  · cases h
    obtain ⟨v, rfl⟩ := Option.isSome_iff_exists.mp hendpoint.1
    rcases hendpoint.2 with rfl | rfl <;> simp [Scan.take]
  · cases h
    rcases hverbose with rfl | rfl <;> simp
  · cases h
    rcases hversion with rfl | rfl <;> simp
  · cases h
    rcases hhelp with rfl | rfl <;> simp
  · cases value with
    | none => cases h
    | some v =>
        cases h
        rcases htimeout with rfl | rfl <;> simp [Scan.take]
  · cases h
    cases value with
    | none => simp
    | some v =>
        simp only [Option.isSome_some, true_and, not_or] at hendpoint
        simp only [not_or] at htimeout
        simp [hendpoint, htimeout]

theorem readKey_ok_iff :
    (∃ s', GlobalOptions.readKey host token value s = .ok s') ↔
      (token = "--key" ∨ token = "-k" → ∀ path ∈ value, KeyLoads host path) := by
  unfold GlobalOptions.readKey
  cases value with
  | none => simp
  | some path =>
      simp only [Option.isSome_some, true_and, Option.mem_some_iff, forall_eq',
        Option.getD_some, ← keyFromPath_ok_iff]
      split_ifs with hkey
      · cases keyFromPath host path <;> simp [hkey, Except.map]
      · simp [hkey]

theorem readKey_strayed (h : GlobalOptions.readKey host token value s = .ok s') :
    s'.strayed = true ↔ s.strayed = true ∨
      (token = "--key" ∨ token = "-k") ∧ value = some "+" := by
  unfold GlobalOptions.readKey at h
  split_ifs at h with hkey
  · obtain ⟨v, rfl⟩ := Option.isSome_iff_exists.mp hkey.1
    rw [Option.getD_some] at h
    cases hfile : keyFromPath host v with
    | error crash =>
        rw [hfile] at h
        cases h
    | ok key =>
        rw [hfile] at h
        cases h
        simp [Scan.take, hkey.2]
  · cases h
    cases value with
    | none => simp
    | some v =>
        simp only [Option.isSome_some, true_and] at hkey
        simp [hkey]

theorem round_ok (h : GlobalOptions.round host token value s = .ok s') :
    ∃ s₁, GlobalOptions.readOption token value s = .ok s₁ ∧
      GlobalOptions.readKey host token value s₁ = .ok s' := by
  unfold GlobalOptions.round at h
  cases hoption : GlobalOptions.readOption token value s with
  | error crash =>
      rw [hoption] at h
      cases h
  | ok s₁ =>
      rw [hoption] at h
      exact ⟨s₁, rfl, h⟩

theorem round_within (hs : s.strayed = false) :
    Within (GlobalOptions.round host token value s) ↔ GlobalFine host token value := by
  constructor
  · rintro ⟨o, h⟩
    obtain ⟨s₁, hoption, hkey⟩ := round_ok h
    have hoption' := readOption_strayed hoption
    have hkey' := readKey_strayed hkey
    simp only [Bool.false_eq_true, false_iff, not_or] at hkey'
    rw [hs] at hoption'
    simp only [hkey'.1, Bool.false_eq_true, false_or, false_iff] at hoption'
    refine ⟨readOption_ok_iff.mp ⟨_, hoption⟩, fun htakes hvalue => ?_,
      readKey_ok_iff.mp ⟨_, hkey⟩⟩
    rcases htakes with htakes | htakes | htakes | htakes | htakes | htakes
    all_goals simp [htakes, hvalue] at hoption' hkey'
  · rintro ⟨htimeout, hseparator, hkey⟩
    obtain ⟨s₁, hs₁⟩ := (readOption_ok_iff (s := s)).mpr htimeout
    obtain ⟨s', hs'⟩ := (readKey_ok_iff (s := s₁)).mpr hkey
    have hstrayed : s'.strayed = false := by
      rw [Bool.eq_false_iff, Ne, readKey_strayed hs', readOption_strayed hs₁, hs]
      simp only [Bool.false_eq_true, false_or, not_or, not_and]
      refine ⟨fun htakes => hseparator ?_, fun htakes => hseparator ?_⟩
      · unfold TakesValue
        tauto
      · unfold TakesValue
        tauto
    refine ⟨s'.options, ?_⟩
    rw [GlobalOptions.round, hs₁]
    change GlobalOptions.readKey host token value s₁ = _
    rw [hs', ← hstrayed]

theorem round_strayed (hs : s.strayed = true)
    (h : GlobalOptions.round host token value s = .ok s') : s'.strayed = true := by
  obtain ⟨s₁, hoption, hkey⟩ := round_ok h
  exact (readKey_strayed hkey).mpr (.inl ((readOption_strayed hoption).mpr (.inl hs)))

theorem scan_strayed (hs : s.strayed = true)
    (h : GlobalOptions.scan host args s = .ok s') : s'.strayed = true := by
  induction args generalizing s with
  | nil =>
      cases h
      exact hs
  | cons token rest ih =>
      unfold GlobalOptions.scan at h
      cases hround : GlobalOptions.round host token rest.head? s with
      | error crash =>
          rw [hround] at h
          cases h
      | ok s₁ =>
          rw [hround] at h
          exact ih (round_strayed hs hround) h

/-- The loop keeps to its own if each argument is fine with the one behind it. -/
theorem scan_within (hs : s.strayed = false) :
    Within (GlobalOptions.scan host args s) ↔
      ∀ token rest, token :: rest <:+ args → GlobalFine host token rest.head? := by
  induction args generalizing s with
  | nil => exact iff_of_true ⟨s.options, by rw [← hs]; rfl⟩ (by simp)
  | cons token rest ih =>
      have hsplit : (∀ token' rest', token' :: rest' <:+ token :: rest →
          GlobalFine host token' rest'.head?) ↔ GlobalFine host token rest.head? ∧
            ∀ token' rest', token' :: rest' <:+ rest → GlobalFine host token' rest'.head? := by
        simp only [List.suffix_cons_iff, List.cons.injEq, or_imp, forall_and, and_imp]
        simp
      rw [hsplit, ← round_within hs]
      unfold GlobalOptions.scan
      cases hround : GlobalOptions.round host token rest.head? s with
      | error crash => exact iff_of_false (by simp [Within, Except.bind]) (by simp [Within])
      | ok s₁ =>
          cases hstrayed : s₁.strayed with
          | false =>
              rw [← ih hstrayed]
              exact (and_iff_right ⟨s₁.options, by rw [← hstrayed]⟩).symm
          | true =>
              refine iff_of_false ?_ ?_
              · rintro ⟨o, h⟩
                have hfalse := scan_strayed hstrayed h
                cases hfalse
              · rintro ⟨⟨o, h⟩, -⟩
                rw [Except.ok.inj h] at hstrayed
                cases hstrayed

end Global

end Butterfly.Client
