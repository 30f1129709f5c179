import Butterfly.RuleOptions

/-!
# The client from its arguments to its requests

`main` reads the global options, cuts the arguments into commands and has the commands run
one after the other until one returns 1.
-/

namespace Butterfly.Client

/-! ## From the arguments to `Parse` -/

inductive Call where
  | nicAdd
  | nicUpdate
  | rule
  /-- A function that reads none of these options. -/
  | other
  | returns (code : Int)
  deriving DecidableEq

def Call.subNic : List String → Call
  | _ :: cmd :: rest =>
      if cmd = "list" ∨ cmd = "stats" ∨ cmd = "details" ∨ cmd = "sg" then .other
      else if cmd = "add" then if rest.head? = some "help" then .returns 0 else .nicAdd
      else if cmd = "update" then if rest.head? = some "help" then .returns 0 else .nicUpdate
      else if cmd = "del" then .other
      else if cmd = "help" then .returns 0
      else .returns 1
  | _ => .returns 1

/-- `SubSgRuleAdd` and `SubSgRuleDel`, with the arguments from the security group on. -/
def Call.subSgRuleAdd (rest : List String) : Call :=
  if rest.head? = some "help" then .returns 0 else .rule

def Call.subSgRuleDel : List String → Call
  | sg :: param :: _ =>
      if sg = "help" then .returns 0
      else if param.toList.head? = some '-' then .rule
      else .other
  | _ => .returns 0

def Call.subSgRule : List String → Call
  | _ :: _ :: cmd :: rest =>
      if cmd = "list" then .other
      else if cmd = "add" then Call.subSgRuleAdd rest
      else if cmd = "del" then Call.subSgRuleDel rest
      else if cmd = "help" then .returns 0
      else .returns 1
  | _ => .returns 1

def Call.subSg (args : List String) : Call :=
  match args with
  | _ :: cmd :: _ =>
      if cmd = "list" ∨ cmd = "add" ∨ cmd = "del" then .other
      else if cmd = "rule" then Call.subSgRule args
      else if cmd = "member" then .other
      else if cmd = "help" then .returns 0
      else .returns 1
  | _ => .returns 1

def Call.route (cmd : String) (args : List String) : Call :=
  if cmd = "nic" then Call.subNic args
  else if cmd = "sg" then Call.subSg args
  else if cmd = "status" ∨ cmd = "shutdown" ∨ cmd = "request" ∨ cmd = "dump" then .other
  else .returns 1

structure CommandReport where
  code : Int
  /-- A text behind the arguments of the command was read. -/
  strayed : Bool := false
  /-- The options that a request with a rule is made from. -/
  rule : Option RuleAddOptions := none

/-- `sent` is returned when the arguments are in order, after the request. -/
def Call.run (sent : Int) (args : List String) (behind : Option String) :
    Call → Except Crash CommandReport
  | .nicAdd => (NicAddOptions.parse args behind).map fun (s, status) =>
      { code := if status ≠ 0 then 1 else sent, strayed := s.strayed }
  | .nicUpdate => (NicUpdateOptions.parse args behind).map fun (s, status) =>
      { code := if status ≠ 0 then 1 else sent, strayed := s.strayed }
  | .rule =>
      match RuleAddOptions.parse args with
      | .error (.crashed crash) => .error crash
      | .error (.returned _) => .ok { code := 1 }
      | .ok o => .ok { code := sent, rule := some o }
  | .other => .ok { code := sent }
  | .returns code => .ok { code := code }

/-- `sent c` is what command `c` returns if that is not up to its arguments. -/
def runCommand (sent : Cmd → Int) (argv : List String) (c : Cmd) : Except Crash CommandReport :=
  match argv[c.command + 1]? with
  | none => .error .nullArgument
  | some cmd =>
      let args := c.tokens argv
      ((Call.route cmd args).run (sent c) args argv[c.command + c.size]?).map fun report =>
        { report with strayed := report.strayed || c.size ≤ 1 }

def runCommands (sent : Cmd → Int) (argv : List String) :
    List Cmd → Except Crash (List CommandReport × Int)
  | [] => .ok ([], 0)
  | c :: cmds =>
      (runCommand sent argv c).bind fun report =>
        if report.code = 1 then .ok ([report], 1)
        else (runCommands sent argv cmds).map fun (reports, status) =>
          (report :: reports, status)

structure Outcome where
  status : Int
  /-- A global option took the separator of a command for its value. -/
  strayed : Bool
  reports : List CommandReport := []

def main (host : Host) (sent : Cmd → Int) (argv : List String) : Except Crash Outcome :=
  (GlobalOptions.parse host argv.tail).bind fun s =>
    if s.options.version then .ok { status := 0, strayed := s.strayed }
    else if s.options.help then .ok { status := 0, strayed := s.strayed }
    else if argv.length < 2 then .ok { status := 1, strayed := s.strayed }
    else match splitCommands argv with
      | none => .error .nullArgument
      | some (cmds, _) => (runCommands sent argv cmds).map fun (reports, status) =>
          { status := status, strayed := s.strayed, reports := reports }

/-! ## What is promised -/

/-- The command kept to its arguments, and the numbers of its rule were assigned. -/
def ReportSafe (result : Except Crash CommandReport) : Prop :=
  ∃ report, result = .ok report ∧ report.strayed = false ∧
    ∀ o ∈ report.rule, none ∉ o.numbers

/-- There is an exit status, and all commands that were run are safe. -/
def MainSafe (result : Except Crash Outcome) : Prop :=
  ∃ outcome, result = .ok outcome ∧ outcome.strayed = false ∧
    ∀ report ∈ outcome.reports, ReportSafe (.ok report)

/-! ## When it is kept -/

def CallFine (args : List String) : Call → Prop
  | .nicAdd => ∀ token ∈ args.getLast?, token ≠ "--packet-trace" ∧ token ≠ "--trace-path"
  | .nicUpdate => ∀ token ∈ args.getLast?,
      token ≠ "--enable-antispoof" ∧ token ≠ "--packet-trace" ∧ token ≠ "--trace-path"
  | .rule => args.length ≤ 6 ∨
      Ranged (ruleOptions (args.drop 4)) ∧ ¬HalfRange (ruleOptions (args.drop 4))
  | .other | .returns _ => True

def CommandFine (argv : List String) (c : Cmd) : Prop :=
  ∃ cmd rest, c.tokens argv = cmd :: rest ∧ CallFine (cmd :: rest) (Call.route cmd (cmd :: rest))

/-- The commands are fine up to the first that returns 1. -/
def CommandsFine (sent : Cmd → Int) (argv : List String) : List Cmd → Prop
  | [] => True
  | c :: cmds => CommandFine argv c ∧
      ∀ report, runCommand sent argv c = .ok report → report.code ≠ 1 →
        CommandsFine sent argv cmds

def Asks (token : String) : Prop :=
  token = "-V" ∨ token = "--version" ∨ token = "-h" ∨ token = "--help"

def NoCommands (argv : List String) : Prop :=
  argv.length < 2 ∨ ∃ token ∈ argv.tail, Asks token

structure ArgvFine (host : Host) (sent : Cmd → Int) (argv : List String) : Prop where
  globals : ∀ token rest, token :: rest <:+ argv.tail → GlobalFine host token rest.head?
  commands : NoCommands argv ∨
    ∀ cmds examined, splitCommands argv = some (cmds, examined) → CommandsFine sent argv cmds

variable {host : Host} {sent : Cmd → Int} {argv args : List String} {behind : Option String}
  {c : Cmd}

/-! ## One command -/

theorem reportSafe_map {σ : Type} {result : Except Crash (Scan σ)} {f : Scan σ → Int}
    {g : Int → Int} :
    ReportSafe ((result.map fun s => (s, f s)).map fun (s, status) =>
      { code := g status, strayed := s.strayed }) ↔ Within result := by
  cases result with
  | error crash => exact iff_of_false (fun ⟨_, h, _⟩ => nomatch h) (fun ⟨_, h⟩ => nomatch h)
  | ok s =>
      rcases s with ⟨o, strayed⟩
      constructor
      · rintro ⟨report, h, hstrayed, -⟩
        cases h
        obtain rfl : strayed = false := hstrayed
        exact ⟨o, rfl⟩
      · rintro ⟨_, h⟩
        cases h
        exact ⟨_, rfl, rfl, fun _ h => nomatch h⟩

theorem reportSafe_rule {sent : Int} :
    ReportSafe (Call.rule.run sent args behind) ↔ RuleSafe args := by
  simp only [Call.run]
  split
  · next crash hparse =>
      refine iff_of_false (fun ⟨_, h, _⟩ => nomatch h) (fun h => h.handled crash hparse)
  · next message hparse =>
      refine iff_of_true ⟨_, rfl, rfl, fun _ h => nomatch h⟩ ⟨fun crash h => ?_, fun o h => ?_⟩
      all_goals rw [hparse] at h
      all_goals cases h
  · next o hparse =>
      constructor
      · rintro ⟨report, h, -, hnumbers⟩
        cases h
        refine ⟨fun crash h => ?_, fun o' h => ?_⟩
        · rw [hparse] at h
          cases h
        · rw [hparse] at h
          cases h
          exact hnumbers o rfl
      · intro h
        refine ⟨_, rfl, rfl, fun o' ho' => ?_⟩
        cases ho'
        exact h.assigned o hparse

theorem reportSafe_run {sent : Int} (call : Call) :
    ReportSafe (call.run sent args behind) ↔ CallFine args call := by
  cases call with
  | nicAdd =>
      rw [Call.run, NicAddOptions.parse,
        reportSafe_map (g := fun status => if status ≠ 0 then 1 else sent), scanArguments_within]
      simp only [NicAddOptions.unguarded_iff, not_or]
      rfl
  | nicUpdate =>
      rw [Call.run, NicUpdateOptions.parse,
        reportSafe_map (g := fun status => if status ≠ 0 then 1 else sent), scanArguments_within]
      simp only [NicUpdateOptions.unguarded_iff, not_or]
      rfl
  | rule => exact reportSafe_rule.trans (ruleSafe_iff args)
  | other => exact iff_of_true ⟨_, rfl, rfl, fun _ h => nomatch h⟩ trivial
  | returns code => exact iff_of_true ⟨_, rfl, rfl, fun _ h => nomatch h⟩ trivial

theorem tokens_cons {cmd : String} {rest : List String} (h : c.tokens argv = cmd :: rest) :
    argv[c.command + 1]? = some cmd ∧ ¬c.size ≤ 1 := by
  have hsize : ¬c.size ≤ 1 := by
    intro hsize
    rw [Cmd.tokens, Nat.sub_eq_zero_of_le hsize, List.take_zero] at h
    cases h
  refine ⟨?_, hsize⟩
  have hhead := congrArg List.head? h
  rwa [Cmd.tokens, List.head?_take, if_neg (by omega), List.head?_drop] at hhead

theorem tokens_nil {cmd : String} (h : c.tokens argv = [])
    (hcmd : argv[c.command + 1]? = some cmd) : c.size ≤ 1 := by
  by_contra hsize
  have hhead : (c.tokens argv).head? = some cmd := by
    rw [Cmd.tokens, List.head?_take, if_neg (by omega), List.head?_drop, hcmd]
  rw [h] at hhead
  cases hhead

theorem reportSafe_stray {result : Except Crash CommandReport} {b : Bool} :
    ReportSafe (result.map fun report => { report with strayed := report.strayed || b }) ↔
      ReportSafe result ∧ b = false := by
  cases result with
  | error crash =>
      exact iff_of_false (fun ⟨_, h, _⟩ => nomatch h) (fun ⟨⟨_, h, _⟩, _⟩ => nomatch h)
  | ok report =>
      constructor
      · rintro ⟨_, h, hstrayed, hnumbers⟩
        cases h
        obtain ⟨hinner, hb⟩ := Bool.or_eq_false_iff.mp hstrayed
        exact ⟨⟨report, rfl, hinner, hnumbers⟩, hb⟩
      · rintro ⟨⟨_, h, hstrayed, hnumbers⟩, rfl⟩
        cases h
        exact ⟨_, rfl, (Bool.or_false _).trans hstrayed, hnumbers⟩

theorem reportSafe_command (sent : Cmd → Int) (argv : List String) (c : Cmd) :
    ReportSafe (runCommand sent argv c) ↔ CommandFine argv c := by
  unfold runCommand CommandFine
  cases htokens : c.tokens argv with
  | nil =>
      refine iff_of_false ?_ (fun ⟨_, _, h, _⟩ => nomatch h)
      split
      · exact fun ⟨_, h, _⟩ => nomatch h
      · next cmd hcmd =>
          rw [reportSafe_stray, decide_eq_false_iff_not]
          exact fun h => h.2 (tokens_nil htokens hcmd)
  | cons cmd rest =>
      obtain ⟨hcmd, hsize⟩ := tokens_cons htokens
      rw [hcmd]
      simp only [reportSafe_stray, reportSafe_run, decide_eq_false_iff_not, hsize,
        not_false_eq_true, and_true]
      constructor
      · exact fun h => ⟨cmd, rest, rfl, h⟩
      · rintro ⟨_, _, h, hfine⟩
        cases h
        exact hfine

/-! ## All commands -/

def ReportsSafe (result : Except Crash (List CommandReport × Int)) : Prop :=
  ∃ reports status, result = .ok (reports, status) ∧
    ∀ report ∈ reports, ReportSafe (.ok report)

theorem reportsSafe_iff (cmds : List Cmd) :
    ReportsSafe (runCommands sent argv cmds) ↔ CommandsFine sent argv cmds := by
  induction cmds with
  | nil => exact iff_of_true ⟨[], 0, rfl, fun _ h => absurd h List.not_mem_nil⟩ trivial
  | cons c cmds ih =>
      rw [CommandsFine, ← reportSafe_command sent, ← ih, runCommands]
      cases hrun : runCommand sent argv c with
      | error crash =>
          exact iff_of_false (fun ⟨_, _, h, _⟩ => nomatch h) (fun ⟨⟨_, h, _⟩, _⟩ => nomatch h)
      | ok report =>
          simp only [Except.bind, Except.ok.injEq, forall_eq']
          split
          · next hlast =>
              simp only [hlast, ne_eq, not_true_eq_false, false_implies, and_true]
              constructor
              · rintro ⟨_, _, h, hsafe⟩
                cases h
                exact hsafe report (List.mem_singleton_self report)
              · intro h
                exact ⟨_, _, rfl, by rwa [List.forall_mem_singleton]⟩
          · next hnext =>
              simp only [ne_eq, hnext, not_false_eq_true, true_implies]
              cases hrest : runCommands sent argv cmds with
              | error crash =>
                  exact iff_of_false (fun ⟨_, _, h, _⟩ => nomatch h)
                    (fun ⟨_, _, _, h, _⟩ => nomatch h)
              | ok results =>
                  constructor
                  · rintro ⟨_, _, h, hsafe⟩
                    cases h
                    obtain ⟨hfirst, hsafe⟩ := List.forall_mem_cons.mp hsafe
                    exact ⟨hfirst, _, _, rfl, hsafe⟩
                  · rintro ⟨hfirst, _, _, h, hsafe⟩
                    cases h
                    exact ⟨_, _, rfl, List.forall_mem_cons.mpr ⟨hfirst, hsafe⟩⟩

theorem splitter_run_total {rounds : Nat} {sp : Splitter}
    (h : sp.argv + sp.idInsert + rounds ≤ argv.length) :
    ∃ sp', Splitter.run argv rounds sp = some sp' := by
  induction rounds generalizing sp with
  | zero => exact ⟨sp, rfl⟩
  | succ rounds ih =>
      have hcmd := List.getElem?_eq_getElem (by omega : sp.argv + sp.idInsert < argv.length)
      simp only [Splitter.run, Splitter.step, hcmd, Option.bind_eq_bind, Option.bind_some]
      split
      · exact ih (by simp only; omega)
      · exact ih (by simp only; omega)

theorem splitCommands_total (argv : List String) :
    ∃ cmds examined, splitCommands argv = some (cmds, examined) := by
  obtain ⟨sp, hrun⟩ : ∃ sp, Splitter.run argv argv.length {} = some sp :=
    splitter_run_total (by simp)
  exact ⟨sp.close, sp.examined, by rw [splitCommands, hrun]; rfl⟩

/-! ## The global options -/

def GlobalOptions.Asked (o : GlobalOptions) : Prop := o.version = true ∨ o.help = true

theorem asked_readOption {token : String} {value : Option String} {s s' : Scan GlobalOptions}
    (h : GlobalOptions.readOption token value s = .ok s') :
    s'.options.Asked ↔ s.options.Asked ∨ Asks token := by
  unfold GlobalOptions.readOption at h
  split_ifs at h with hendpoint hverbose hversion hhelp htimeout
  · cases h
    rcases hendpoint.2 with rfl | rfl <;> simp [GlobalOptions.Asked, Asks, Scan.take]
  · cases h
    rcases hverbose with rfl | rfl <;> simp [GlobalOptions.Asked, Asks]
  · cases h
    rcases hversion with rfl | rfl <;> simp [GlobalOptions.Asked, Asks]
  · cases h
    rcases hhelp with rfl | rfl <;> simp [GlobalOptions.Asked, Asks]
  · cases value with
    | none => cases h
    | some v =>
        cases h
        rcases htimeout with rfl | rfl <;> simp [GlobalOptions.Asked, Asks, Scan.take]
  · cases h
    simp only [not_or] at hversion hhelp
    simp [Asks, hversion, hhelp]

theorem asked_readKey {token : String} {value : Option String} {s s' : Scan GlobalOptions}
    (h : GlobalOptions.readKey host token value s = .ok s') :
    s'.options.Asked ↔ s.options.Asked := by
  unfold GlobalOptions.readKey at h
  split_ifs at h with hkey
  · cases hfile : keyFromPath host (value.getD "") with
    | error crash =>
        rw [hfile] at h
        cases h
    | ok key =>
        rw [hfile] at h
        cases h
        rfl
  · cases h
    rfl

theorem asked_iff {s s' : Scan GlobalOptions} (h : GlobalOptions.scan host args s = .ok s') :
    s'.options.Asked ↔ s.options.Asked ∨ ∃ token ∈ args, Asks token := by
  induction args generalizing s with
  | nil =>
      cases h
      simp
  | cons token rest ih =>
      unfold GlobalOptions.scan at h
      cases hround : GlobalOptions.round host token rest.head? s with
      | error crash =>
          rw [hround] at h
          cases h
      | ok s₁ =>
          rw [hround] at h
          obtain ⟨s₀, hoption, hkey⟩ := round_ok hround
          rw [ih h, asked_readKey hkey, asked_readOption hoption, List.exists_mem_cons_iff,
            or_assoc]

theorem noCommands_iff {s : Scan GlobalOptions}
    (h : GlobalOptions.parse host argv.tail = .ok s) :
    NoCommands argv ↔ argv.length < 2 ∨ s.options.Asked := by
  have hasked := asked_iff h
  rw [NoCommands, hasked]
  simp [GlobalOptions.Asked]

theorem mainSafe_map {s : Scan GlobalOptions} {result : Except Crash (List CommandReport × Int)} :
    MainSafe (result.map fun (reports, status) =>
      { status := status, strayed := s.strayed, reports := reports }) ↔
      s.strayed = false ∧ ReportsSafe result := by
  cases result with
  | error crash =>
      exact iff_of_false (fun ⟨_, h, _⟩ => nomatch h) (fun ⟨_, _, _, h, _⟩ => nomatch h)
  | ok results =>
      constructor
      · rintro ⟨_, h, hstrayed, hsafe⟩
        cases h
        exact ⟨hstrayed, _, _, rfl, hsafe⟩
      · rintro ⟨hstrayed, _, _, h, hsafe⟩
        cases h
        exact ⟨_, rfl, hstrayed, hsafe⟩

theorem mainSafe_of_parse {s : Scan GlobalOptions} {cmds : List Cmd} {examined : List Nat}
    (hparse : GlobalOptions.parse host argv.tail = .ok s)
    (hsplit : splitCommands argv = some (cmds, examined)) :
    MainSafe (main host sent argv) ↔
      s.strayed = false ∧ (NoCommands argv ∨ CommandsFine sent argv cmds) := by
  have hstop : ∀ status, MainSafe (.ok { status := status, strayed := s.strayed }) ↔
      s.strayed = false := by
    intro status
    constructor
    · rintro ⟨_, h, hstrayed, -⟩
      cases h
      exact hstrayed
    · exact fun h => ⟨_, rfl, h, fun _ hreport => absurd hreport List.not_mem_nil⟩
  rw [noCommands_iff hparse, main, hparse]
  simp only [Except.bind, GlobalOptions.Asked]
  split_ifs with hversion hhelp hfew
  · simp [hstop, hversion]
  · simp [hstop, hhelp]
  · simp [hstop, hfew]
  · simp only [hsplit, mainSafe_map, reportsSafe_iff, hfew, hversion, hhelp]
    simp

/--
The client keeps to its promises just when each global option has its value in front of the
next separator and each file of a key can be loaded, and, as far as the client comes, no
command is empty or ends in an option that looks behind it, no end of a range of ports is
out of range and there is no half range.
-/
theorem main_safe_iff (host : Host) (sent : Cmd → Int) (argv : List String) :
    MainSafe (main host sent argv) ↔ ArgvFine host sent argv := by
  obtain ⟨cmds, examined, hsplit⟩ := splitCommands_total argv
  have hglobals : Within (GlobalOptions.parse host argv.tail) ↔
      ∀ token rest, token :: rest <:+ argv.tail → GlobalFine host token rest.head? :=
    scan_within rfl
  have hcommands : (NoCommands argv ∨ CommandsFine sent argv cmds) ↔ (NoCommands argv ∨
      ∀ cmds examined, splitCommands argv = some (cmds, examined) →
        CommandsFine sent argv cmds) := by
    simp [hsplit]
  cases hparse : GlobalOptions.parse host argv.tail with
  | error crash =>
      rw [hparse] at hglobals
      refine iff_of_false ?_ fun h => ?_
      · rintro ⟨_, h, -⟩
        rw [main, hparse] at h
        cases h
      · obtain ⟨_, h⟩ := hglobals.mpr h.globals
        cases h
  | ok s =>
      rw [hparse] at hglobals
      have hwithin : s.strayed = false ↔ Within (.ok s) :=
        ⟨fun h => ⟨s.options, by rw [← h]⟩, fun ⟨_, h⟩ => by cases h; rfl⟩
      rw [mainSafe_of_parse hparse hsplit, hwithin, hglobals, hcommands]
      exact ⟨fun h => ⟨h.1, h.2⟩, fun h => ⟨h.1, h.2⟩⟩

def keptInOutcome : Except Crash Outcome → Bool
  | .ok outcome => !outcome.strayed && outcome.reports.all fun report =>
      !report.strayed && report.rule.all fun o => o.numbers.all Option.isSome
  | .error _ => false

theorem MainSafe.kept {result : Except Crash Outcome} (h : MainSafe result) :
    keptInOutcome result = true := by
  obtain ⟨outcome, rfl, hwithin, hsafe⟩ := h
  refine Bool.and_eq_true_iff.mpr ⟨by rw [hwithin]; rfl, List.all_eq_true.mpr ?_⟩
  intro report hreport
  obtain ⟨_, hok, hstrayed, hnumbers⟩ := hsafe report hreport
  cases hok
  rw [hstrayed]
  cases hrule : report.rule with
  | none => rfl
  | some o =>
      refine List.all_eq_true.mpr fun number hnumber => ?_
      exact Option.isSome_iff_ne_none.mpr fun hnone => hnumbers o hrule (hnone ▸ hnumber)

def hostWithTmp : Host where
  file path := if path = "/tmp" then some ⟨none, []⟩ else none
  memory := 0
  bioRead _ := some []

/--
A command that ends in an option without its value, a port out of range, half a range of
ports, a key in a directory, and an endpoint that is the separator.
-/
theorem options_not_kept :
    ¬MainSafe (main hostWithTmp (fun _ => 0)
        ["butterfly", "nic", "add", "--packet-trace", "+", "status"]) ∧
      ¬MainSafe (main hostWithTmp (fun _ => 0)
        ["butterfly", "sg", "rule", "add", "web", "--ip-proto", "tcp", "--port-start", "70000"]) ∧
      ¬MainSafe (main hostWithTmp (fun _ => 0)
        ["butterfly", "sg", "rule", "add", "web", "--ip-proto", "icmp", "--port-start", "80",
          "--sg-members", "web"]) ∧
      ¬MainSafe (main hostWithTmp (fun _ => 0) ["butterfly", "status", "-k", "/tmp"]) ∧
      ¬MainSafe (main hostWithTmp (fun _ => 0) ["butterfly", "status", "-e", "+", "status"]) :=
  ⟨fun h => absurd h.kept (by decide +kernel), fun h => absurd h.kept (by decide +kernel),
    fun h => absurd h.kept (by decide +kernel), fun h => absurd h.kept (by decide +kernel),
    fun h => absurd h.kept (by decide +kernel)⟩

end Butterfly.Client
