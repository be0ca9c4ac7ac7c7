-- The law of the runs of the local checks. The commands that the arguments ask for run in
-- their order, each in its place, and the first one that fails is the last one that is started.
import Mathlib.Data.List.Forall2
import DataLayout.Checks.Plan

namespace DataLayout.Checks

/-! ## What is asked for -/

/-- The tools of the checks. -/
inductive Tool
  | installer
  | criticalLint
  | laxLint
  | tests
  deriving DecidableEq

namespace Tool

/-- The tools in the order in which they run. -/
def all : List Tool := [.installer, .criticalLint, .laxLint, .tests]

/-- Whether the choices ask for a tool. -/
def isWanted (choices : Choices) : Tool → Bool
  | .installer => choices.install
  | .criticalLint => !choices.noLinter
  | .laxLint => !choices.noLinter
  | .tests => !choices.noTests

/-- The tools that the choices ask for, in their order. -/
def wanted (choices : Choices) : List Tool := all.filter (isWanted choices)

/-- How a tool is called. The arguments of the tests follow their directory. -/
inductive Called (site : Site) (choices : Choices) : Tool → List String → Prop
  | installer : Called site choices .installer
      [site.interpreter, "-m", "pip", "install", "-e", site.root ++ "[dev]"]
  | criticalLint : Called site choices .criticalLint
      [site.interpreter, "-m", "flake8", "--select=E9,F63,F7,F82", "--show-source", "typelayout",
        "tests"]
  | laxLint : Called site choices .laxLint
      [site.interpreter, "-m", "flake8", "--exit-zero", "--max-line-length=127", "typelayout",
        "tests"]
  | tests {coverage fuzzing : List String}
      (hcoverage : coverage =
        if choices.coverage then ["--cov=typelayout", "--cov-report=term-missing"] else [])
      (hfuzzing : ∀ values, fuzzing = "--fuzzing" :: values ↔ choices.fuzzing = some values)
      (hplain : fuzzing = [] ↔ choices.fuzzing = none) :
      Called site choices .tests
        ([site.interpreter, "-m", "pytest", site.inside "tests"] ++ coverage ++ fuzzing)

end Tool

/-- A job calls a tool. Only the installer stays in the current directory. -/
structure Job.Calls (site : Site) (choices : Choices) (tool : Tool) (job : Job) : Prop where
  called : tool.Called site choices job.words
  directory_eq : job.directory = if tool = .installer then none else some site.root
  silent_eq : job.silent = choices.quiet

section

variable (site : Site) (choices : Choices)

/-- The job of a tool. -/
def jobOf : Tool → Job
  | .installer => installJob site choices
  | .criticalLint => criticalLint site choices
  | .laxLint => laxLint site choices
  | .tests => testJob site choices

theorem jobs_eq : jobs site choices = (Tool.wanted choices).map (jobOf site choices) := by
  unfold jobs Tool.wanted Tool.all
  cases hinstall : choices.install <;> cases hlinter : choices.noLinter <;>
    cases htests : choices.noTests <;>
    simp [List.filter, Tool.isWanted, jobOf, hinstall, hlinter, htests]

theorem calls_jobOf (tool : Tool) : (jobOf site choices tool).Calls site choices tool := by
  cases tool with
  | installer => exact ⟨.installer, rfl, rfl⟩
  | criticalLint => exact ⟨.criticalLint, rfl, rfl⟩
  | laxLint => exact ⟨.laxLint, rfl, rfl⟩
  | tests =>
    refine ⟨?_, rfl, rfl⟩
    have hwords : (jobOf site choices .tests).words =
        [site.interpreter, "-m", "pytest", site.inside "tests"] ++ testArguments choices := rfl
    rw [hwords]
    unfold testArguments
    rw [← List.append_assoc]
    cases hfuzzing : choices.fuzzing with
    | none => exact .tests rfl (by simp [hfuzzing]) (by simp [hfuzzing])
    | some values => exact .tests rfl (by simp [hfuzzing]) (by simp [hfuzzing])

theorem jobs_call : List.Forall₂ (Job.Calls site choices) (Tool.wanted choices)
    (jobs site choices) := by
  rw [jobs_eq, List.forall₂_map_right_iff, List.forall₂_same]
  exact fun tool _ => calls_jobOf site choices tool

end

/-! ## Runs -/

section

variable {failureOf : Nat → Option Int} {number : Nat} {commands : List Job}

/-- Jobs that do not fail are all started. -/
theorem runJobs_of_none (h : ∀ k < commands.length, failureOf (number + k) = none) :
    runJobs failureOf number commands = ⟨commands, none⟩ := by
  induction commands generalizing number with
  | nil => rfl
  | cons job rest ih =>
    have hfirst : failureOf number = none := h 0 (Nat.succ_pos _)
    have hrest : runJobs failureOf (number + 1) rest = ⟨rest, none⟩ := ih fun k hk => by
      rw [Nat.add_right_comm]
      exact h (k + 1) (Nat.succ_lt_succ hk)
    simp only [runJobs, hfirst, hrest]

/-- The first job that fails is the last one that is started. -/
theorem runJobs_of_failure {k : Nat} {code : Int} (hk : k < commands.length)
    (hbefore : ∀ j < k, failureOf (number + j) = none) (hfails : failureOf (number + k) = some code) :
    runJobs failureOf number commands = ⟨commands.take (k + 1), some code⟩ := by
  induction commands generalizing number k with
  | nil => cases hk
  | cons job rest ih =>
    cases k with
    | zero =>
      have hfirst : failureOf number = some code := hfails
      simp only [runJobs, hfirst, List.take_succ_cons, List.take_zero]
    | succ k =>
      have hfirst : failureOf number = none := hbefore 0 (Nat.succ_pos _)
      have hrest : runJobs failureOf (number + 1) rest = ⟨rest.take (k + 1), some code⟩ :=
        ih (Nat.lt_of_succ_lt_succ hk)
          (fun j hj => by
            rw [Nat.add_right_comm]
            exact hbefore (j + 1) (Nat.succ_lt_succ hj))
          (by rwa [Nat.add_right_comm])
      simp only [runJobs, hfirst, hrest, List.take_succ_cons]

end

theorem outcome_of_accepted {dialect : Dialect} {arguments : List String} {choices : Choices}
    (h : read dialect arguments = .accepted choices) (site : Site)
    (failureOf : Nat → Option Int) :
    outcome dialect site failureOf arguments =
      .ran choices (runJobs failureOf 1 (jobs site choices)) := by
  unfold outcome
  rw [h]

/-! ## The law -/

/-- Arguments that either dialect accepts run exactly the commands that they ask for, in their
order. When a command fails, it is the last one that is started, its failure is the one of the
whole run, and the commands before it are those of a run without failure. -/
theorem the_wanted_commands_run_up_to_the_first_failure (dialect : Dialect) (site : Site)
    (arguments : List String) (choices : Choices) (h : read dialect arguments = .accepted choices) :
    ∃ commands : List Job,
      List.Forall₂ (Job.Calls site choices) (Tool.wanted choices) commands ∧
      (∀ failureOf : Nat → Option Int,
        (∀ k, 1 ≤ k → k ≤ commands.length → failureOf k = none) →
        outcome dialect site failureOf arguments = .ran choices ⟨commands, none⟩ ∧
          (outcome dialect site failureOf arguments).status = 0) ∧
      ∀ (failureOf : Nat → Option Int) (k : Nat) (code : Int), 1 ≤ k → k ≤ commands.length →
        (∀ j, 1 ≤ j → j < k → failureOf j = none) → failureOf k = some code →
        outcome dialect site failureOf arguments = .ran choices ⟨commands.take k, some code⟩ ∧
          (outcome dialect site failureOf arguments).status = 1 := by
  refine ⟨jobs site choices, jobs_call site choices, ?_, ?_⟩
  · intro failureOf hnone
    have hrun : runJobs failureOf 1 (jobs site choices) = ⟨jobs site choices, none⟩ :=
      runJobs_of_none fun k hk => hnone (1 + k) (by omega) (by omega)
    rw [outcome_of_accepted h, hrun]
    exact ⟨rfl, rfl⟩
  · intro failureOf k code hpos hk hbefore hfails
    obtain ⟨k, rfl⟩ := Nat.exists_eq_add_of_le hpos
    have hrun : runJobs failureOf 1 (jobs site choices) =
        ⟨(jobs site choices).take (k + 1), some code⟩ :=
      runJobs_of_failure (by omega) (fun j hj => hbefore (1 + j) (by omega) (by omega)) hfails
    rw [outcome_of_accepted h, hrun, Nat.add_comm 1 k]
    exact ⟨rfl, rfl⟩

/-- A quiet run with two values for the tests, where the lax lint fails after the critical one. -/
theorem the_tests_wait_for_the_lint :
    ∃ commands : List Job, commands.length = 3 ∧
      outcome .late ⟨"python", "/home/ci"⟩ (fun k => if k = 2 then some 1 else none)
        ["-q", "--fuzz", "types=9", "seed=3"] =
          .ran ⟨false, false, false, false, true, some ["types=9", "seed=3"]⟩
            ⟨commands.take 2, some 1⟩ := by
  have hread : read .late ["-q", "--fuzz", "types=9", "seed=3"] =
      .accepted ⟨false, false, false, false, true, some ["types=9", "seed=3"]⟩ := by decide
  obtain ⟨commands, hcalls, _, hfailure⟩ :=
    the_wanted_commands_run_up_to_the_first_failure .late ⟨"python", "/home/ci"⟩ _ _ hread
  have hlength : commands.length = 3 := hcalls.length_eq.symm
  refine ⟨commands, hlength, (hfailure _ 2 1 (by decide) (by omega) ?_ rfl).1⟩
  intro j _ hj
  rw [if_neg (by omega)]

end DataLayout.Checks
