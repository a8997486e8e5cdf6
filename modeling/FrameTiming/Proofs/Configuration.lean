import FrameTiming.Proofs.Except
import FrameTiming.Proofs.Machine
import FrameTiming.Program.Analyze

/-! # The configuration in use

Options take the place of what a file sets. An analysis goes on with the result if it is valid, but
only if the file was valid by itself: an option cannot mend a setting that the file must not have, nor
one that the file leaves out.
-/

namespace FrameTiming

open Host (FileTree Machine)
open Host.Machine (perform_bind perform_lift perform_andThen perform_adapt run_openFile)
open CommandLine (AnalyzeOptions)

/-! ## Valid configurations -/

namespace Config

/-- Rates and caps are positive, a front to drop may be empty, and states are only chosen from logs
that have them. -/
structure Valid (config : Config) : Prop where
  targetRate : config.targetRate.isFinite = true ∧ 0 < config.targetRate
  dropFront : ∀ seconds ∈ config.dropFront?, seconds.isFinite = true ∧ 0 ≤ seconds
  durationCap : ∀ seconds ∈ config.durationCap?, seconds.isFinite = true ∧ 0 < seconds
  stateFilter : config.stateFilter? ≠ none → config.withState = true

variable {config : Config}

theorem isPositive_iff {value : Float} :
    isPositive value = true ↔ value.isFinite = true ∧ 0 < value := by
  rw [isPositive, Bool.and_eq_true, decide_eq_true_eq]

theorem isNonnegative_iff {value : Float} :
    isNonnegative value = true ↔ value.isFinite = true ∧ 0 ≤ value := by
  rw [isNonnegative, Bool.and_eq_true, decide_eq_true_eq]

theorem valid_iff : config.Valid ↔ isPositive config.targetRate = true ∧
    config.dropFront?.filter (!isNonnegative ·) = none ∧
    config.durationCap?.filter (!isPositive ·) = none ∧
    (config.stateFilter?.isSome && !config.withState) = false := by
  simp only [Option.filter_eq_none_iff, Bool.not_eq_true', Bool.not_eq_false, isPositive_iff,
    isNonnegative_iff]
  constructor
  · rintro ⟨rate, drop, cap, filter⟩
    refine ⟨rate, drop, cap, ?_⟩
    cases chosen : config.stateFilter? with
    | none => rfl
    | some state => simp [filter (by simp [chosen])]
  · rintro ⟨rate, drop, cap, filter⟩
    refine ⟨rate, drop, cap, fun chosen => ?_⟩
    simpa [Option.isSome_iff_ne_none.mpr chosen] using filter

theorem fault?_eq_none_iff : config.fault? = none ↔ config.Valid := by
  rw [valid_iff, fault?]
  by_cases rate : isPositive config.targetRate = true
  · cases drop : config.dropFront?.filter (!isNonnegative ·) with
    | some seconds => simp [rate]
    | none =>
        cases cap : config.durationCap?.filter (!isPositive ·) with
        | some seconds => simp [rate]
        | none => simp [rate]
  · simp [rate]

theorem validate_eq_ok_iff : config.validate = .ok () ↔ config.Valid := by
  rw [← fault?_eq_none_iff, validate]
  cases config.fault? <;> simp

theorem valid_standard : Valid {} :=
  fault?_eq_none_iff.mp (by decide +kernel)

end Config

/-! ## Options in place of settings -/

namespace CommandLine

/-- A setting that is in use is the given one, or else that of the file. -/
structure Takes {Setting : Type} (given? : Option Setting) (base used : Setting) : Prop where
  given : ∀ value, given? = some value → used = value
  kept : given? = none → used = base

theorem takes_iff {Setting : Type} {given? : Option Setting} {base used : Setting} :
    Takes given? base used ↔ used = given?.getD base := by
  cases given? with
  | none => exact ⟨fun takes => takes.kept rfl, fun same => ⟨nofun, fun _ => same⟩⟩
  | some value =>
      refine ⟨fun takes => takes.given value rfl, fun same => ⟨?_, nofun⟩⟩
      rintro _ ⟨⟩
      exact same

theorem Takes.unique {Setting : Type} {given? : Option Setting} {base used other : Setting}
    (takes : Takes given? base used) (alsoTakes : Takes given? base other) : used = other :=
  (takes_iff.mp takes).trans (takes_iff.mp alsoTakes).symm

namespace AnalyzeOptions

/-- Every setting is that of the option for it, where the option was given, and otherwise that of the
file. An option without a value turns a setting to one side only, and there is none for missed
scores. -/
structure Overrides (options : AnalyzeOptions) (base used : Config) : Prop where
  targetRate : Takes options.targetRate? base.targetRate used.targetRate
  withState : Takes (if options.withState then some true else none) base.withState used.withState
  dropFront : Takes (options.dropFront?.map some) base.dropFront? used.dropFront?
  durationCap : Takes (options.durationCap?.map some) base.durationCap? used.durationCap?
  stateFilter : Takes (options.stateFilter?.map some) base.stateFilter? used.stateFilter?
  trimOutliers : Takes (if options.allRuns then some false else none) base.trimOutliers
    used.trimOutliers
  missedScore : Takes none base.missedScore used.missedScore

theorem overrides_applyTo (options : AnalyzeOptions) (base : Config) :
    options.Overrides base (options.applyTo base) := by
  have optional : ∀ {Setting : Type} (given? base? : Option Setting),
      Takes (given?.map some) base? (given? <|> base?) := by
    intro Setting given? base?
    cases given? <;> exact takes_iff.mpr rfl
  refine ⟨takes_iff.mpr rfl, ?_, optional _ _, optional _ _, optional _ _, ?_, takes_iff.mpr rfl⟩
  · cases given : options.withState <;> simp [takes_iff, applyTo, given]
  · cases given : options.allRuns <;> simp [takes_iff, applyTo, given]

/-- There is one configuration that options make of another one. -/
theorem overrides_iff {options : AnalyzeOptions} {base used : Config} :
    options.Overrides base used ↔ used = options.applyTo base := by
  constructor
  · intro overrides
    have applied := options.overrides_applyTo base
    cases used
    exact (Config.mk.injEq ..).mpr ⟨overrides.targetRate.unique applied.targetRate,
      overrides.withState.unique applied.withState, overrides.dropFront.unique applied.dropFront,
      overrides.durationCap.unique applied.durationCap,
      overrides.stateFilter.unique applied.stateFilter,
      overrides.trimOutliers.unique applied.trimOutliers,
      overrides.missedScore.unique applied.missedScore⟩
  · rintro rfl
    exact options.overrides_applyTo base

end AnalyzeOptions

end CommandLine

/-! ## Two checks -/

namespace Program

/-- What options are applied to: the standard configuration, or that of a file. -/
inductive StartsFrom (machine : Machine) (options : AnalyzeOptions) : Config → Prop
  | standard (noFile : options.config? = none) : StartsFrom machine options {}
  | file {path : Path} {bytes : List UInt8} {text : String} {base : Config}
      (given : options.config? = some path) (opened : machine.openFile path = .ok (.bytes bytes))
      (decoded : Text.Utf8.decode? bytes = some text) (parsed : Config.parse? text = some base) :
      StartsFrom machine options base

variable {machine : Machine} {options : AnalyzeOptions} {base : Config} {path : Path}

/-- The configuration of a file is refused for the first fault that it has by itself. -/
theorem perform_readConfig_of_parse {bytes : List UInt8} {text : String}
    (opened : machine.openFile path = .ok (.bytes bytes))
    (decoded : Text.Utf8.decode? bytes = some text) (parsed : Config.parse? text = some base) :
    machine.perform (Config.read path) = ((match base.fault? with
      | some fault => .error (.invalidConfig fault)
      | none => .ok base), machine) := by
  rw [Config.read, perform_bind, run_openFile, opened]
  simp only [Except.bind, Opened.read, decoded, parsed]
  rw [perform_andThen, perform_lift, Config.validate]
  cases base.fault? <;> rfl

/-- The configuration that options make of another one, if it is valid. -/
def checked (options : AnalyzeOptions) (base : Config) : Except ProgramFailure Config :=
  match (options.applyTo base).fault? with
  | some fault => .error (.optionsInvalid (.invalidConfig fault))
  | none => .ok (options.applyTo base)

/-- A file that is valid by itself is left behind by the first check. -/
theorem perform_configFor_of_valid (starts : StartsFrom machine options base) (valid : base.Valid) :
    machine.perform (configFor options) = (checked options base, machine) := by
  rw [checked]
  cases starts with
  | standard noFile =>
      rw [configFor, noFile]
      simp only [pure_bind, Config.validate]
      cases (options.applyTo {}).fault? <;> rfl
  | file given opened decoded parsed =>
      have read := perform_readConfig_of_parse opened decoded parsed
      rw [Config.fault?_eq_none_iff.mpr valid] at read
      rw [configFor, given]
      dsimp only
      rw [perform_andThen, perform_adapt, read]
      simp only [Except.mapError, Config.validate]
      cases (options.applyTo base).fault? <;> rfl

/-- Nothing is made of a file that is not valid by itself. -/
theorem perform_configFor_of_fault (starts : StartsFrom machine options base) {fault : ConfigFault}
    (refused : base.fault? = some fault) :
    ∃ path, options.config? = some path ∧ machine.perform (configFor options) =
      (.error (.configNotLoaded path (.invalidConfig fault)), machine) := by
  cases starts with
  | standard noFile =>
      rw [Config.fault?_eq_none_iff.mpr Config.valid_standard] at refused
      cases refused
  | file given opened decoded parsed =>
      have read := perform_readConfig_of_parse opened decoded parsed
      rw [refused] at read
      refine ⟨_, given, ?_⟩
      rw [configFor, given]
      dsimp only
      rw [perform_andThen, perform_adapt, read]
      rfl

/-! ## Behind the checks -/

section Parts

variable {m : Type → Type} [Monad m] [Host m]

/-- The part of an analysis that has its configuration. -/
def analyzeWith (scratch : Path) (options : AnalyzeOptions) (config : Config) :
    ExceptT ProgramFailure m Unit := do
  let workDirectory := options.workDirectory?.getD scratch
  prepareDirectory workDirectory .workDirectoryNotCreated
  prepareDirectory options.tableDirectory .directoryNotCreated
  let analyzed ← options.groups.mapM (analyzeGroup options config workDirectory)
  if options.format = .json then
    let document := Document.ofDatasets config.withState
      (analyzed.map fun result => (result.dataset, result.summary))
    (Host.print (document.pretty ++ "\n") : m _)
  match options.renderer? with
  | none => return ()
  | some program =>
      (Renderer.render program (analyzed.flatMap Analyzed.logs)
        (options.output.withExtension "png")).adapt ProgramFailure.analysis

theorem analyze_eq_analyzeWith (scratch : Path) {options : AnalyzeOptions}
    (present : options.groups ≠ []) : (analyze scratch options : ExceptT ProgramFailure m Unit) =
      configFor options >>= analyzeWith scratch options := by
  have filled : options.groups.isEmpty = false := by simpa using present
  unfold analyze
  simp only [filled, Bool.false_eq_true, if_false]
  rfl

end Parts

/-- Failures that are about the configuration. -/
def ProgramFailure.refusesConfig : ProgramFailure → Bool
  | .configNotLoaded .. | .optionsInvalid _ => true
  | _ => false

/-- On no machine does a computation fail because of its configuration. -/
def Settled {Result : Type} (computation : ExceptT ProgramFailure (StateM Machine) Result) : Prop :=
  ∀ (machine : Machine) (failure : ProgramFailure),
    (machine.perform computation).1 = .error failure → failure.refusesConfig = false

namespace Settled

variable {Value Result : Type}

theorem pure (value : Value) : Settled (return value) :=
  fun _ _ failed => by cases failed

theorem throw {failure : ProgramFailure} (other : failure.refusesConfig = false) :
    Settled (throw failure : ExceptT ProgramFailure (StateM Machine) Value) := by
  rintro machine _ ⟨⟩
  exact other

theorem service (service : StateM Machine Value) :
    Settled (liftM service : ExceptT ProgramFailure (StateM Machine) Value) :=
  fun _ _ failed => by cases failed

theorem andThen {first : ExceptT ProgramFailure (StateM Machine) Value}
    {next : Value → ExceptT ProgramFailure (StateM Machine) Result} (settled : Settled first)
    (following : ∀ value, Settled (next value)) : Settled (first >>= next) := by
  intro machine failure failed
  rw [perform_andThen] at failed
  rcases performed : machine.perform first with ⟨error | value, after⟩
  · rw [performed] at failed
    cases failed
    exact settled machine failure (congrArg Prod.fst performed)
  · rw [performed] at failed
    exact following value after failure failed

theorem adapt (computation : ExceptT AnalysisError (StateM Machine) Value) :
    Settled (computation.adapt ProgramFailure.analysis) := by
  intro machine failure failed
  rw [perform_adapt] at failed
  rcases mapError_eq_error_iff.mp failed with ⟨fault, -, rfl⟩
  rfl

theorem mapM {step : Value → ExceptT ProgramFailure (StateM Machine) Result} {values : List Value}
    (settled : ∀ value, Settled (step value)) : Settled (values.mapM step) := by
  induction values with
  | nil => exact .pure []
  | cons value rest induction =>
      rw [List.mapM_cons]
      exact (settled value).andThen fun result => induction.andThen fun results => .pure _

/-- Printing, or not, changes no outcome. -/
theorem printing {condition : Prop} [Decidable condition] {text : String}
    {next : Unit → ExceptT ProgramFailure (StateM Machine) Result}
    (settled : ∀ printed, Settled (next printed)) :
    Settled (if condition then do
        let result ← (Host.print text : StateM Machine Unit)
        next result
      else next ()) := by
  split_ifs
  · exact (service _).andThen settled
  · exact settled ()

theorem prepareDirectory (path : Path) {failure : Path → HostError → ProgramFailure}
    (other : ∀ error, (failure path error).refusesConfig = false) :
    Settled (prepareDirectory path failure) := by
  rw [Program.prepareDirectory]
  refine (service _).andThen fun outcome => ?_
  rcases outcome with error | ⟨⟩
  · exact .throw (other error)
  · exact .pure ()

theorem analyzeGroup (options : AnalyzeOptions) (config : Config) (workDirectory : Path)
    (group : CommandLine.LogGroup) : Settled (analyzeGroup options config workDirectory group) := by
  rw [Program.analyzeGroup]
  refine (service _).andThen fun dataset => .printing fun _ => ?_
  rcases Summary.ofDataset config Metric.standard dataset with error | summary
  · exact .throw rfl
  · exact (adapt _).andThen fun logs => .printing fun _ => .pure _

/-- With its configuration an analysis has other reasons to fail only. -/
theorem analyzeWith (scratch : Path) (options : AnalyzeOptions) (config : Config) :
    Settled (analyzeWith scratch options config) := by
  rw [Program.analyzeWith]
  refine (prepareDirectory _ fun _ => rfl).andThen fun _ => ?_
  refine (prepareDirectory _ fun _ => rfl).andThen fun _ => ?_
  refine (mapM fun group => analyzeGroup options config _ group).andThen fun analyzed => ?_
  refine .printing fun _ => ?_
  cases options.renderer? with
  | none => exact .pure ()
  | some program => exact .adapt _

end Settled

/-! ## What it takes to be analyzed -/

theorem perform_analyze (scratch : Path) (present : options.groups ≠ []) :
    machine.perform (analyze scratch options) = match machine.perform (configFor options) with
      | (.ok config, after) => after.perform (analyzeWith scratch options config)
      | (.error failure, after) => (.error failure, after) := by
  rw [analyze_eq_analyzeWith scratch present, perform_andThen]
  rcases machine.perform (configFor options) with ⟨failure | config, after⟩
  · rfl
  · rfl

/-- Both checks are passed exactly by a file that is valid by itself and stays so with the options. -/
theorem perform_configFor_eq_ok_iff (starts : StartsFrom machine options base) {used : Config}
    {after : Machine} : machine.perform (configFor options) = (.ok used, after) ↔
      base.Valid ∧ (options.applyTo base).Valid ∧ used = options.applyTo base ∧ after = machine := by
  cases refused : base.fault? with
  | some fault =>
      rcases perform_configFor_of_fault starts refused with ⟨path, -, performed⟩
      simp [performed, ← Config.fault?_eq_none_iff, refused]
  | none =>
      have valid := Config.fault?_eq_none_iff.mp refused
      have stays : (options.applyTo base).Valid ↔ (options.applyTo base).fault? = none :=
        Config.fault?_eq_none_iff.symm
      rw [perform_configFor_of_valid starts valid, checked, stays]
      cases (options.applyTo base).fault? with
      | some fault => simp
      | none => simp [valid, eq_comm]

theorem perform_analyze_of_valid (scratch : Path) (starts : StartsFrom machine options base)
    (present : options.groups ≠ []) (valid : base.Valid) (stays : (options.applyTo base).Valid) :
    machine.perform (analyze scratch options) =
      machine.perform (analyzeWith scratch options (options.applyTo base)) := by
  rw [perform_analyze scratch present,
    (perform_configFor_eq_ok_iff starts).mpr ⟨valid, stays, rfl, rfl⟩]

theorem perform_analyze_of_fault (scratch : Path) (starts : StartsFrom machine options base)
    (present : options.groups ≠ []) {fault : ConfigFault} (refused : base.fault? = some fault) :
    ∃ path, options.config? = some path ∧ machine.perform (analyze scratch options) =
      (.error (.configNotLoaded path (.invalidConfig fault)), machine) := by
  rcases perform_configFor_of_fault starts refused with ⟨path, given, performed⟩
  refine ⟨path, given, ?_⟩
  rw [perform_analyze scratch present, performed]

theorem perform_analyze_of_mergedFault (scratch : Path) (starts : StartsFrom machine options base)
    (present : options.groups ≠ []) {fault : ConfigFault} (valid : base.Valid)
    (refused : (options.applyTo base).fault? = some fault) :
    machine.perform (analyze scratch options) =
      (.error (.optionsInvalid (.invalidConfig fault)), machine) := by
  rw [perform_analyze scratch present, perform_configFor_of_valid starts valid, checked, refused]

/-- The outcome of an analysis tells whether both checks were passed. -/
theorem valid_iff_of_analyze (scratch : Path) (starts : StartsFrom machine options base)
    (present : options.groups ≠ []) :
    (∀ failure, (machine.perform (analyze scratch options)).1 = .error failure →
      failure.refusesConfig = false) ↔ base.Valid ∧ (options.applyTo base).Valid := by
  constructor
  · intro settled
    cases refused : base.fault? with
    | some fault =>
        rcases perform_analyze_of_fault scratch starts present refused with ⟨path, -, performed⟩
        cases settled _ (congrArg Prod.fst performed)
    | none =>
        have valid := Config.fault?_eq_none_iff.mp refused
        cases unfit : (options.applyTo base).fault? with
        | some fault =>
            have performed := perform_analyze_of_mergedFault scratch starts present valid unfit
            cases settled _ (congrArg Prod.fst performed)
        | none => exact ⟨valid, Config.fault?_eq_none_iff.mp unfit⟩
  · rintro ⟨valid, stays⟩
    rw [perform_analyze_of_valid scratch starts present valid stays]
    exact Settled.analyzeWith scratch options _ machine

/-- An analysis uses the configuration that the options make of the one it starts from. It gets that
far exactly if both are valid, and from there on it fails for other reasons only. Otherwise it stops at
once: for the first fault of the file, or if there is none for the first fault with the options in
place. -/
theorem configuration_in_use (scratch : Path) (starts : StartsFrom machine options base) :
    let config := options.applyTo base
    (∀ used, options.Overrides base used ↔ used = config) ∧
    (base.validate = .ok () ↔ base.Valid) ∧ (config.validate = .ok () ↔ config.Valid) ∧
    (options.config? = none → base.Valid) ∧
    (∀ used after, machine.perform (configFor options) = (.ok used, after) ↔
      base.Valid ∧ config.Valid ∧ used = config ∧ after = machine) ∧
    (options.groups ≠ [] →
      ((∀ failure, (machine.perform (analyze scratch options)).1 = .error failure →
        failure.refusesConfig = false) ↔ base.Valid ∧ config.Valid) ∧
      (base.Valid → config.Valid → machine.perform (analyze scratch options) =
        machine.perform (analyzeWith scratch options config)) ∧
      (∀ fault, base.fault? = some fault → ∃ path, options.config? = some path ∧
        machine.perform (analyze scratch options) =
          (.error (.configNotLoaded path (.invalidConfig fault)), machine)) ∧
      (∀ fault, base.Valid → config.fault? = some fault →
        machine.perform (analyze scratch options) =
          (.error (.optionsInvalid (.invalidConfig fault)), machine))) := by
  intro config
  refine ⟨fun used => CommandLine.AnalyzeOptions.overrides_iff, Config.validate_eq_ok_iff,
    Config.validate_eq_ok_iff, ?_, fun used after => perform_configFor_eq_ok_iff starts, ?_⟩
  · intro noFile
    cases starts with
    | standard => exact Config.valid_standard
    | file given => cases noFile.symm.trans given
  · intro present
    exact ⟨valid_iff_of_analyze scratch starts present,
      perform_analyze_of_valid scratch starts present,
      fun fault => perform_analyze_of_fault scratch starts present,
      fun fault => perform_analyze_of_mergedFault scratch starts present⟩

/-! ## A state and the logs that have it -/

/-- A machine with a file of settings. -/
def desk (settings : String) : Machine :=
  .start (FileTree.empty.put ["c.toml"] (.file (Text.Utf8.encode settings.toList) false)) []

/-- Options for an analysis of one log with the settings of that file. -/
def selection (withState : Bool) (stateFilter? : Option StateId) : AnalyzeOptions :=
  { AnalyzeOptions.ofOccurrences [] with
    groups := [⟨"base", [⟨"a.log"⟩]⟩]
    config? := some ⟨"c.toml"⟩
    withState := withState
    stateFilter? := stateFilter? }

theorem startsFrom_desk {settings : String} {withState : Bool} {stateFilter? : Option StateId}
    {base : Config}
    (decoded : Text.Utf8.decode? (Text.Utf8.encode settings.toList) = some settings)
    (parsed : Config.parse? settings = some base) :
    StartsFrom (desk settings) (selection withState stateFilter?) base :=
  .file rfl rfl decoded parsed

/-- The file says that logs have states, an option says which one counts. -/
theorem configuration_in_use_of_option :
    let machine := desk "with_state = true\n"
    let options := selection false (some 1)
    let used : Config := { withState := true, stateFilter? := some 1 }
    StartsFrom machine options { withState := true } ∧ options.groups ≠ [] ∧
      machine.perform (configFor options) = (.ok used, machine) ∧
      machine.perform (analyze ⟨"scratch"⟩ options) =
        machine.perform (analyzeWith ⟨"scratch"⟩ options used) := by
  intro machine options used
  have starts : StartsFrom machine options { withState := true } :=
    startsFrom_desk (by decide +kernel) (by decide +kernel)
  have present : options.groups ≠ [] := by decide +kernel
  have valid : Config.Valid { withState := true } :=
    Config.fault?_eq_none_iff.mp (by decide +kernel)
  have same : used = options.applyTo { withState := true } := by decide +kernel
  have stays : used.Valid := Config.fault?_eq_none_iff.mp (by decide +kernel)
  rcases configuration_in_use ⟨"scratch"⟩ starts with ⟨-, -, -, -, accepted, analyzed⟩
  rw [← same] at accepted analyzed
  exact ⟨starts, present, (accepted _ _).mpr ⟨valid, stays, rfl, rfl⟩,
    (analyzed present).2.1 valid stays⟩

/-- The file says which state counts, an option that logs have states: this is not analyzed, although
the options make the very same configuration of it. -/
theorem configuration_refused_despite_option :
    let machine := desk "state_filter = 1\n"
    let options := selection true none
    StartsFrom machine options { stateFilter? := some 1 } ∧ options.groups ≠ [] ∧
      options.applyTo { stateFilter? := some 1 } =
        { withState := true, stateFilter? := some 1 } ∧
      (options.applyTo { stateFilter? := some 1 }).validate = .ok () ∧
      machine.perform (analyze ⟨"scratch"⟩ options) =
        (.error (.configNotLoaded ⟨"c.toml"⟩ (.invalidConfig .stateFilterWithoutState)),
          machine) := by
  intro machine options
  have starts : StartsFrom machine options { stateFilter? := some 1 } :=
    startsFrom_desk (by decide +kernel) (by decide +kernel)
  have present : options.groups ≠ [] := by decide +kernel
  refine ⟨starts, present, by decide +kernel, by decide +kernel, ?_⟩
  have refused : Config.fault? { stateFilter? := some 1 } = some .stateFilterWithoutState := by
    decide +kernel
  rcases perform_analyze_of_fault ⟨"scratch"⟩ starts present refused with ⟨path, given, performed⟩
  cases given
  exact performed

end Program

end FrameTiming
