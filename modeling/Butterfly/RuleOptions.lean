import Butterfly.Options

/-!
# Options of a rule

`RuleAddOptions::Parse` reads the options of `sg rule add`, and those of `sg rule del` when
the rule is not named by its hash.
-/

namespace Butterfly.Client

inductive RuleOption where
  | dir
  | ipProto
  | port
  | portStart
  | portEnd
  | cidr
  | sgMembers
  deriving DecidableEq

def RuleOption.ofToken : String → Option RuleOption
  | "--dir" => some .dir
  | "--ip-proto" => some .ipProto
  | "--port" => some .port
  | "--port-start" => some .portStart
  | "--port-end" => some .portEnd
  | "--cidr" => some .cidr
  | "--sg-members" => some .sgMembers
  | _ => none

def ruleOptions (args : List String) : List (RuleOption × String) :=
  (args.zip args.tail).filterMap fun (token, value) =>
    (RuleOption.ofToken token).map fun option => (option, value)

/-- `none` stands for the exceptions of `std::stoi`. -/
def stoi (text : String) : Option Int :=
  (leadingNumber text).filter fun n => -2147483648 ≤ n ∧ n ≤ 2147483647

/-- A number without a value was not assigned. -/
structure RuleAddOptions where
  sg : String
  direction : String := "INBOUND"
  hasProto : Bool := false
  proto : Option Int := none
  hasPortStart : Bool := false
  portStart : Option UInt16 := none
  hasPortEnd : Bool := false
  portEnd : Option UInt16 := none
  cidr : String := ""
  sgMembers : String := ""

inductive RuleStop where
  /-- The exit status 1, with what is printed. -/
  | returned (message : Option String)
  | crashed (crash : Crash)

def protocolOf (p : String) : Option Int :=
  if p = "tcp" then some 6
  else if p = "udp" then some 17
  else if p = "icmp" then some 1
  else if p = "all" then some (-1)
  else stoi p

def NoPort (pi : Int) : Prop := pi < 0 ∨ pi > 65535

instance (pi : Int) : Decidable (NoPort pi) := inferInstanceAs (Decidable (_ ∨ _))

def RuleAddOptions.read (o : RuleAddOptions) :
    RuleOption × String → Except RuleStop RuleAddOptions
  | (.dir, value) =>
      if value = "in" then .ok { o with direction := "INBOUND" }
      else if value = "out" then .ok { o with direction := "OUTBOUND" }
      else .error (.returned (some "--dir argument not recognized"))
  | (.ipProto, p) =>
      match protocolOf p with
      | none => .error (.returned (some "--ip-proto argument not recognized"))
      | some n => .ok { o with proto := some n, hasProto := true }
  | (.port, p) =>
      match stoi p with
      | none => .error (.returned (some "--port argument not recognized"))
      | some pi =>
          if NoPort pi then .error (.returned (some "--port argument not recognized"))
          else .ok { o with
            hasPortStart := true
            portStart := some (UInt16.ofInt pi)
            hasPortEnd := true
            portEnd := some (UInt16.ofInt pi) }
  | (.portStart, p) =>
      match stoi p with
      | none => .error (.returned (some "--port-start argument not recognized"))
      | some pi =>
          -- `throw;` without an exception that is being handled
          if NoPort pi then .error (.crashed .rethrow)
          else .ok { o with hasPortStart := true, portStart := some (UInt16.ofInt pi) }
  | (.portEnd, p) =>
      match stoi p with
      | none => .error (.returned (some "--port-end argument not recognized"))
      | some pi =>
          if NoPort pi then .error (.crashed .rethrow)
          else .ok { o with hasPortEnd := true, portEnd := some (UInt16.ofInt pi) }
  | (.cidr, tmp) =>
      match cidrToProtobuf tmp with
      | none => .error (.returned (some "--cidr format not recognized"))
      | some cidr => .ok { o with cidr := cidr }
  | (.sgMembers, value) => .ok { o with sgMembers := value }

/-- A protocol that was not assigned may be any; then there is no way but to return 1. -/
def RuleAddOptions.check (o : RuleAddOptions) : Except RuleStop RuleAddOptions :=
  if (o.proto = some 6 ∨ o.proto = some 17) ∧
      (!o.hasPortStart ∨ !o.hasPortEnd ∨ o.portStart.getD 0 > o.portEnd.getD 0) then
    .error (.returned (some "wrong port configuration"))
  else if o.cidr.length ≠ 0 ∧ o.sgMembers.length ≠ 0 then
    .error (.returned (some "--cidr can't be set with --sg-members"))
  else if o.cidr.length = 0 ∧ o.sgMembers.length = 0 then
    .error (.returned (some "you must set --cidr or --sg-members"))
  else if !o.hasProto then
    .error (.returned (some "--ip-proto is mandatory"))
  else .ok o

/-- `args` is `argv` without the name of the program. -/
def RuleAddOptions.parse (args : List String) : Except RuleStop RuleAddOptions :=
  if args.length + 1 ≤ 7 then .error (.returned none)
  else
    ((ruleOptions (args.drop 4)).foldlM RuleAddOptions.read { sg := args.getD 3 "" }).bind
      RuleAddOptions.check

/-- The numbers of the rule in a request: the protocol, then the ports. -/
def RuleAddOptions.numbers (o : RuleAddOptions) : List (Option Int) :=
  o.proto :: if o.hasPortStart then
    [o.portStart.map fun port => (port.toNat : Int), o.portEnd.map fun port => (port.toNat : Int)]
  else []

/-! ## What is promised -/

/-- No exception is left without a handler, and all numbers of a request were assigned. -/
structure RuleSafe (args : List String) : Prop where
  handled : ∀ crash, RuleAddOptions.parse args ≠ .error (.crashed crash)
  assigned : ∀ o, RuleAddOptions.parse args = .ok o → none ∉ o.numbers

/-! ## When it is kept -/

def Rejected : RuleOption × String → Prop
  | (.dir, value) => value ≠ "in" ∧ value ≠ "out"
  | (.ipProto, p) => protocolOf p = none
  | (.port, p) => ∀ pi, stoi p = some pi → NoPort pi
  | (.portStart, p) | (.portEnd, p) => stoi p = none
  | (.cidr, tmp) => cidrToProtobuf tmp = none
  | (.sgMembers, _) => False

def OutOfRange (p : RuleOption × String) : Prop :=
  (p.1 = .portStart ∨ p.1 = .portEnd) ∧ ∃ pi, stoi p.2 = some pi ∧ NoPort pi

def Ranged : List (RuleOption × String) → Prop
  | [] => True
  | p :: ps => ¬OutOfRange p ∧ (Rejected p ∨ Ranged ps)

def lastValue (ps : List (RuleOption × String)) (option : RuleOption) : Option String :=
  ps.reverse.lookup option

structure HalfRange (ps : List (RuleOption × String)) : Prop where
  accepted : ∀ p ∈ ps, ¬Rejected p
  start : (lastValue ps .portStart).isSome = true
  noEnd : lastValue ps .portEnd = none
  noPort : lastValue ps .port = none
  protocol : ∃ p n, lastValue ps .ipProto = some p ∧ protocolOf p = some n ∧ n ≠ 6 ∧ n ≠ 17
  target : (lastValue ps .cidr).isSome = true ↔ (lastValue ps .sgMembers).getD "" = ""

variable {o o' : RuleAddOptions} {p : RuleOption × String} {ps : List (RuleOption × String)}
  {args : List String}

theorem read_cases (o : RuleAddOptions) (p : RuleOption × String) :
    (OutOfRange p ∧ o.read p = .error (.crashed .rethrow)) ∨
      (¬OutOfRange p ∧ Rejected p ∧ ∃ message, o.read p = .error (.returned message)) ∨
      (¬OutOfRange p ∧ ¬Rejected p ∧ ∃ o', o.read p = .ok o') := by
  obtain ⟨option, value⟩ := p
  cases option with
  | dir =>
      by_cases hin : value = "in"
      · simp [OutOfRange, Rejected, RuleAddOptions.read, hin]
      · by_cases hout : value = "out" <;>
          simp [OutOfRange, Rejected, RuleAddOptions.read, hin, hout]
  | ipProto =>
      cases hproto : protocolOf value <;>
        simp [OutOfRange, Rejected, RuleAddOptions.read, hproto]
  | port =>
      cases hnumber : stoi value with
      | none => simp [OutOfRange, Rejected, RuleAddOptions.read, hnumber]
      | some pi =>
          by_cases hport : NoPort pi <;>
            simp [OutOfRange, Rejected, RuleAddOptions.read, hnumber, hport]
  | portStart | portEnd =>
      cases hnumber : stoi value with
      | none => simp [OutOfRange, Rejected, RuleAddOptions.read, hnumber]
      | some pi =>
          by_cases hport : NoPort pi <;>
            simp [OutOfRange, Rejected, RuleAddOptions.read, hnumber, hport]
  | cidr =>
      cases hcidr : cidrToProtobuf value <;>
        simp [OutOfRange, Rejected, RuleAddOptions.read, hcidr]
  | sgMembers => simp [OutOfRange, Rejected, RuleAddOptions.read]

/-! ## What was read -/

theorem lastValue_concat (ps : List (RuleOption × String)) (p : RuleOption × String) :
    lastValue (ps ++ [p]) = Function.update (lastValue ps) p.1 (some p.2) := by
  funext option
  rw [Function.update_apply, lastValue, List.reverse_append, List.reverse_singleton,
    List.singleton_append]
  split
  · next hoption => rw [hoption, List.lookup_cons_self]
  · next hoption =>
      rw [List.lookup_cons, beq_eq_false_iff_ne.mpr hoption]
      rfl

structure Summary (given : RuleOption → Option String) (o : RuleAddOptions) : Prop where
  hasProto : o.hasProto = (given .ipProto).isSome
  proto : o.proto = (given .ipProto).bind protocolOf
  protoAssigned : o.proto.isSome = o.hasProto
  hasPortStart : o.hasPortStart = ((given .port).isSome || (given .portStart).isSome)
  startAssigned : o.portStart.isSome = o.hasPortStart
  hasPortEnd : o.hasPortEnd = ((given .port).isSome || (given .portEnd).isSome)
  endAssigned : o.portEnd.isSome = o.hasPortEnd
  cidr : o.cidr.length ≠ 0 ↔ (given .cidr).isSome = true
  sgMembers : o.sgMembers = (given .sgMembers).getD ""

theorem Summary.start (sg : String) : Summary (lastValue []) { sg := sg } := by
  constructor <;> simp [lastValue]

theorem cidrToProtobuf_length {text cidr : String} (h : cidrToProtobuf text = some cidr) :
    cidr.length ≠ 0 := by
  simp only [cidrToProtobuf] at h
  split at h
  · cases h
  · rw [← Option.some.inj h, cidrText, String.length_append, String.length_append,
      String.length_append, String.length_append]
    have hfront : "address: \"".length = 10 := by decide +kernel
    omega

theorem Summary.read {given : RuleOption → Option String} (h : Summary given o)
    (hread : o.read p = .ok o') : Summary (Function.update given p.1 (some p.2)) o' := by
  obtain ⟨option, value⟩ := p
  cases option with
  | dir =>
      simp only [RuleAddOptions.read] at hread
      split at hread
      · cases hread
        exact { h with }
      · split at hread <;> cases hread
        exact { h with }
  | ipProto =>
      simp only [RuleAddOptions.read] at hread
      split at hread <;> cases hread
      next n hproto => exact { h with hasProto := rfl, proto := hproto.symm, protoAssigned := rfl }
  | port =>
      simp only [RuleAddOptions.read] at hread
      split at hread
      · cases hread
      · split at hread <;> cases hread
        exact { h with
          hasPortStart := rfl
          startAssigned := rfl
          hasPortEnd := rfl
          endAssigned := rfl }
  | portStart =>
      simp only [RuleAddOptions.read] at hread
      split at hread
      · cases hread
      · split at hread <;> cases hread
        exact { h with hasPortStart := (Bool.or_true _).symm, startAssigned := rfl }
  | portEnd =>
      simp only [RuleAddOptions.read] at hread
      split at hread
      · cases hread
      · split at hread <;> cases hread
        exact { h with hasPortEnd := (Bool.or_true _).symm, endAssigned := rfl }
  | cidr =>
      simp only [RuleAddOptions.read] at hread
      split at hread <;> cases hread
      next hcidr => exact { h with cidr := iff_of_true (cidrToProtobuf_length hcidr) rfl }
  | sgMembers =>
      cases hread
      exact { h with sgMembers := rfl }

theorem Summary.run {before : List (RuleOption × String)} (h : Summary (lastValue before) o)
    (hread : ps.foldlM RuleAddOptions.read o = .ok o') :
    Summary (lastValue (before ++ ps)) o' := by
  induction ps generalizing before o with
  | nil =>
      cases hread
      rwa [List.append_nil]
  | cons p ps ih =>
      rw [List.foldlM_cons] at hread
      cases hfirst : o.read p with
      | error stop =>
          rw [hfirst] at hread
          cases hread
      | ok o₁ =>
          rw [hfirst] at hread
          have hsummary := h.read hfirst
          rw [← lastValue_concat] at hsummary
          rw [List.append_cons]
          exact ih hsummary hread

theorem ranged_iff (o : RuleAddOptions) (ps : List (RuleOption × String)) :
    Ranged ps ↔ ∀ crash, ps.foldlM RuleAddOptions.read o ≠ .error (.crashed crash) := by
  induction ps generalizing o with
  | nil => exact iff_of_true trivial (fun _ h => nomatch h)
  | cons p ps ih =>
      rw [List.foldlM_cons, Ranged]
      rcases read_cases o p with ⟨hout, hread⟩ | ⟨hin, hrejected, message, hread⟩ |
        ⟨hin, haccepted, o', hread⟩
      · exact iff_of_false (fun h => h.1 hout) (fun h => h .rethrow (by rw [hread]; rfl))
      · refine iff_of_true ⟨hin, .inl hrejected⟩ fun crash h => ?_
        rw [hread] at h
        cases h
      · rw [hread]
        simp only [hin, haccepted, not_false_eq_true, true_and, false_or]
        exact ih o'

theorem foldlM_read_ok (hranged : Ranged ps) :
    (∃ o', ps.foldlM RuleAddOptions.read o = .ok o') ↔ ∀ p ∈ ps, ¬Rejected p := by
  induction ps generalizing o with
  | nil => exact iff_of_true ⟨o, rfl⟩ (fun _ h => absurd h List.not_mem_nil)
  | cons p ps ih =>
      rw [List.foldlM_cons, List.forall_mem_cons]
      rcases read_cases o p with ⟨hout, -⟩ | ⟨-, hrejected, message, hread⟩ |
        ⟨-, haccepted, o', hread⟩
      · exact absurd hout hranged.1
      · refine iff_of_false ?_ (fun h => h.1 hrejected)
        rintro ⟨o', ho'⟩
        rw [hread] at ho'
        cases ho'
      · rw [hread]
        exact (ih (hranged.2.resolve_left haccepted)).trans (iff_and_self.mpr fun _ => haccepted)

theorem check_not_crashed (o : RuleAddOptions) (crash : Crash) :
    o.check ≠ .error (.crashed crash) := by
  unfold RuleAddOptions.check
  split_ifs <;> exact fun h => nomatch h

def RuleAddOptions.WrongPorts (o : RuleAddOptions) : Prop :=
  (o.proto = some 6 ∨ o.proto = some 17) ∧
    (!o.hasPortStart ∨ !o.hasPortEnd ∨ o.portStart.getD 0 > o.portEnd.getD 0)

theorem check_ok_iff :
    o.check = .ok o' ↔ o = o' ∧ ¬o.WrongPorts ∧
      (o.cidr.length ≠ 0 ↔ o.sgMembers.length = 0) ∧ o.hasProto = true := by
  unfold RuleAddOptions.check
  rw [RuleAddOptions.WrongPorts]
  split_ifs with hports hboth hnone hproto
  · exact iff_of_false (fun h => nomatch h) (fun h => h.2.1 hports)
  · exact iff_of_false (fun h => nomatch h) (fun h => hboth.2 (h.2.2.1.mp hboth.1))
  · exact iff_of_false (fun h => nomatch h) (fun h => h.2.2.1.mpr hnone.2 hnone.1)
  · refine iff_of_false (fun h => nomatch h) (fun h => ?_)
    rw [h.2.2.2] at hproto
    cases hproto
  · simp only [Bool.not_eq_true', Bool.not_eq_false] at hproto
    have htarget : o.cidr.length ≠ 0 ↔ o.sgMembers.length = 0 := by omega
    rw [and_iff_left ⟨hports, htarget, hproto⟩, Except.ok.injEq]

theorem Summary.unassigned_iff (h : Summary (lastValue ps) o)
    (haccepted : ∀ p ∈ ps, ¬Rejected p) :
    (o.check = .ok o ∧ none ∈ o.numbers) ↔ HalfRange ps := by
  have htarget : (o.cidr.length ≠ 0 ↔ o.sgMembers.length = 0) ↔
      ((lastValue ps .cidr).isSome = true ↔ (lastValue ps .sgMembers).getD "" = "") := by
    rw [h.cidr, h.sgMembers, String.length_eq_zero_iff]
  rw [check_ok_iff, htarget]
  constructor
  · rintro ⟨⟨-, hports, htarget, hproto⟩, hnone⟩
    have hsome : o.proto ≠ none := Option.isSome_iff_ne_none.mp (h.protoAssigned.trans hproto)
    obtain ⟨hstart, hend⟩ : o.hasPortStart = true ∧ o.hasPortEnd = false := by
      unfold RuleAddOptions.numbers at hnone
      rcases List.mem_cons.mp hnone with hnone | hnone
      · exact absurd hnone.symm hsome
      · split at hnone
        · next hstart =>
            have hassigned : o.portStart ≠ none :=
              Option.isSome_iff_ne_none.mp (h.startAssigned.trans hstart)
            refine ⟨hstart, ?_⟩
            rw [← h.endAssigned, Option.isSome_eq_false_iff, Option.isNone_iff_eq_none]
            simpa [eq_comm, hassigned] using hnone
        · exact absurd hnone List.not_mem_nil
    obtain ⟨hnoPort, hnoEnd⟩ := Bool.or_eq_false_iff.mp (h.hasPortEnd.symm.trans hend)
    have hgiven := h.hasPortStart.symm.trans hstart
    rw [hnoPort, Bool.false_or] at hgiven
    obtain ⟨n, hn⟩ := Option.ne_none_iff_exists'.mp hsome
    obtain ⟨p, hp, hnumber⟩ := Option.bind_eq_some_iff.mp (h.proto.symm.trans hn)
    have hother : ¬(o.proto = some 6 ∨ o.proto = some 17) := fun hproto =>
      hports ⟨hproto, .inr (.inl (by rw [hend]; rfl))⟩
    rw [hn, not_or] at hother
    exact
      { accepted := haccepted
        start := hgiven
        noEnd := Option.not_isSome_iff_eq_none.mp (Bool.not_eq_true _ ▸ hnoEnd)
        noPort := Option.not_isSome_iff_eq_none.mp (Bool.not_eq_true _ ▸ hnoPort)
        protocol := ⟨p, n, hp, hnumber, fun htcp => hother.1 (htcp ▸ rfl),
          fun hudp => hother.2 (hudp ▸ rfl)⟩
        target := htarget }
  · rintro ⟨-, hstart, hnoEnd, hnoPort, ⟨p, n, hp, hn, htcp, hudp⟩, htarget⟩
    have hproto : o.proto = some n := by rw [h.proto, hp, Option.bind_some, hn]
    have hhasProto : o.hasProto = true := by rw [h.hasProto, hp]; rfl
    have hhasStart : o.hasPortStart = true := by rw [h.hasPortStart, hnoPort, hstart]; rfl
    have hend : o.portEnd = none := by
      rw [← Option.isNone_iff_eq_none, ← Option.isSome_eq_false_iff, h.endAssigned, h.hasPortEnd,
        hnoPort, hnoEnd]
      rfl
    refine ⟨⟨rfl, fun hports => ?_, htarget, hhasProto⟩, ?_⟩
    · rw [RuleAddOptions.WrongPorts, hproto] at hports
      exact hports.1.elim (fun h => htcp (Option.some.inj h)) (fun h => hudp (Option.some.inj h))
    · rw [RuleAddOptions.numbers, if_pos hhasStart, hend]
      simp

theorem ruleSafe_iff (args : List String) :
    RuleSafe args ↔ args.length ≤ 6 ∨
      Ranged (ruleOptions (args.drop 4)) ∧ ¬HalfRange (ruleOptions (args.drop 4)) := by
  by_cases hfew : args.length + 1 ≤ 7
  · have hparse : RuleAddOptions.parse args = .error (.returned none) := if_pos hfew
    refine iff_of_true ⟨fun crash h => ?_, fun o h => ?_⟩ (.inl (by omega))
    · rw [hparse] at h
      cases h
    · rw [hparse] at h
      cases h
  · have hparse : RuleAddOptions.parse args =
        ((ruleOptions (args.drop 4)).foldlM RuleAddOptions.read
          { sg := args.getD 3 "" }).bind RuleAddOptions.check := if_neg hfew
    have hmany : ¬args.length ≤ 6 := by omega
    have hstart := Summary.start (args.getD 3 "")
    generalize ruleOptions (args.drop 4) = ps at hparse ⊢
    generalize ({ sg := args.getD 3 "" } : RuleAddOptions) = o at hparse hstart
    simp only [hmany, false_or]
    constructor
    · intro hsafe
      have hranged : Ranged ps := by
        rw [ranged_iff o]
        intro crash hcrash
        refine hsafe.handled crash ?_
        rw [hparse, hcrash]
        rfl
      refine ⟨hranged, fun hhalf => ?_⟩
      obtain ⟨o', hread⟩ := (foldlM_read_ok (o := o) hranged).mpr hhalf.accepted
      have hsummary := hstart.run hread
      rw [List.nil_append] at hsummary
      obtain ⟨hcheck, hnone⟩ := (hsummary.unassigned_iff hhalf.accepted).mpr hhalf
      refine hsafe.assigned o' ?_ hnone
      rw [hparse, hread]
      exact hcheck
    · rintro ⟨hranged, hhalf⟩
      refine ⟨fun crash hcrash => ?_, fun o' ho' hnone => hhalf ?_⟩
      · rw [hparse] at hcrash
        cases hread : ps.foldlM RuleAddOptions.read o with
        | error stop =>
            rw [hread] at hcrash
            cases hcrash
            exact (ranged_iff o ps).mp hranged crash hread
        | ok o' =>
            rw [hread] at hcrash
            exact check_not_crashed o' crash hcrash
      · rw [hparse] at ho'
        cases hread : ps.foldlM RuleAddOptions.read o with
        | error stop =>
            rw [hread] at ho'
            cases ho'
        | ok o₁ =>
            rw [hread] at ho'
            have hcheck : o₁.check = .ok o' := ho'
            obtain rfl := (check_ok_iff.mp hcheck).1
            have hsummary := hstart.run hread
            rw [List.nil_append] at hsummary
            exact (hsummary.unassigned_iff
              ((foldlM_read_ok hranged).mp ⟨_, hread⟩)).mp ⟨hcheck, hnone⟩

end Butterfly.Client
