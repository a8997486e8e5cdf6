import FrameTiming.Proofs.RecordedTime
import FrameTiming.Proofs.RunNumbers
import FrameTiming.Proofs.Series
import FrameTiming.Proofs.StateTime

/-! # State filters

A state filter chooses what the statistics of a run are about and touches nothing else. The states of
a recording divide its frames: a run exists for each state that occurs, and together these runs
analyse every frame once.
-/

namespace FrameTiming

/-- A configuration with another state filter. -/
def Config.withFilter (config : Config) (filter? : Option StateId) : Config :=
  { config with stateFilter? := filter? }

namespace Run

section Frames

variable {frames : List Frame}

theorem durationsIn_some (state : StateId) (frames : List Frame) :
    durationsIn (some state) frames = (framesIn state frames).map Frame.duration := by
  simp [durationsIn, framesIn]

theorem durationsIn_none (frames : List Frame) :
    durationsIn none frames = frames.map Frame.duration := by
  simp [durationsIn]

theorem durationsIn_some_ne_nil_iff {state : StateId} :
    durationsIn (some state) frames ≠ [] ↔ ∃ frame ∈ frames, frame.state = state := by
  rw [durationsIn_some, ne_eq, List.map_eq_nil_iff, framesIn, List.filter_eq_nil_iff]
  simp

theorem durationsIn_none_ne_nil_iff : durationsIn none frames ≠ [] ↔ frames ≠ [] := by
  rw [durationsIn_none, ne_eq, List.map_eq_nil_iff]

/-- The frames in each state, counted state by state, are all frames. -/
theorem sum_length_framesIn (frames : List Frame) :
    ((statesOf frames).map fun state => (framesIn state frames).length).sum = frames.length :=
  sum_length_filter (nodup_statesOf frames) fun frame member =>
    mem_statesOf.mpr ⟨frame, member, rfl⟩

end Frames

/-- A filter chooses the durations that count. It has no say in the window. -/
theorem ofFrames_withFilter_eq_ok_iff {config : Config} {name : String} {source : Path}
    {recorded : List Frame} {filter? : Option StateId} {run : Run} :
    ofFrames (config.withFilter filter?) name source recorded = .ok run ↔
      let window := Window.apply config.dropFront? config.durationCap? recorded
      let durations := durationsIn filter? window
      ∃ stats, Stats.ofDurations name durations config.targetTime = .ok stats ∧
        run = ⟨name, source, config.logFormat, window, durations.length,
          window.length ≠ recorded.length, stats, StateTime.ofFrames window⟩ :=
  ofFrames_eq_ok_iff

/-- The runs of all states that occur analyse every frame once. -/
theorem exists_runs_of_states (config : Config) (name : String) (source : Path)
    (recorded : List Frame) :
    let window := Window.apply config.dropFront? config.durationCap? recorded
    ∃ runs,
      (statesOf window).mapM (fun state =>
        ofFrames (config.withFilter (some state)) name source recorded) = .ok runs ∧
      (runs.map Run.analyzed).sum = window.length := by
  intro window
  have succeeds : ∀ state ∈ statesOf window, ∃ run,
      ofFrames (config.withFilter (some state)) name source recorded = .ok run :=
    fun state listed =>
      ofFrames_succeeds_iff.mpr (durationsIn_some_ne_nil_iff.mpr (mem_statesOf.mp listed))
  rcases mapM_succeeds succeeds with ⟨runs, computed⟩
  refine ⟨runs, computed, ?_⟩
  have counts : (statesOf window).map (fun state => (framesIn state window).length) =
      runs.map Run.analyzed := by
    rw [← List.forall₂_eq_eq_eq, List.forall₂_map_left_iff, List.forall₂_map_right_iff]
    refine (mapM_eq_ok_iff.mp computed).imp fun state run analysed => ?_
    rcases ofFrames_withFilter_eq_ok_iff.mp analysed with ⟨stats, -, rfl⟩
    rw [durationsIn_some, List.length_map]
  rw [← counts, sum_length_framesIn]

end Run

/-- Runs of the same frames under different state filters agree in everything but their statistics. A
run exists exactly if the window has frames for its filter, and the runs of the states that occur
divide the frames of the window between them, each having the percentiles of its own. -/
theorem stateFilter_divides_frames (config : Config) (name : String) (source : Path)
    (recorded : List Frame) :
    let window := Window.apply config.dropFront? config.durationCap? recorded
    let analysed := fun filter? => Run.ofFrames (config.withFilter filter?) name source recorded
    let states := (StateTime.ofFrames window).states
    (∀ filter? other? run other, analysed filter? = .ok run → analysed other? = .ok other →
      run.frames = other.frames ∧ run.trimmed = other.trimmed ∧ run.stateTime = other.stateTime ∧
        run.fps = other.fps ∧
        (∀ {m : Type → Type} [Monad m] [Host m] (directory : Path) (group : String) (index : Nat),
          (run.provideLog directory group index : ExceptT AnalysisError m Path) =
            other.provideLog directory group index) ∧
        { run with analyzed := other.analyzed, stats := other.stats } = other) ∧
    (∀ state,
      ((∃ run, analysed (some state) = .ok run) ↔ ∃ frame ∈ window, frame.state = state) ∧
      ((∀ frame ∈ window, frame.state ≠ state) →
        analysed (some state) = .error (.emptyRun name))) ∧
    (((∃ run, analysed none = .ok run) ↔ window ≠ []) ∧
      (window = [] → analysed none = .error (.emptyRun name))) ∧
    (states.Nodup ∧ (∀ state, state ∈ states ↔ ∃ frame ∈ window, frame.state = state) ∧
      ∃ runs, states.mapM (fun state => analysed (some state)) = .ok runs ∧
        (runs.map Run.analyzed).sum = window.length) ∧
    ∀ state run, analysed (some state) = .ok run →
      run.frames = window ∧ run.analyzed = (framesIn state window).length ∧
      PercentileTable.ofDurations ((framesIn state window).map Frame.duration) =
        .ok (some run.stats.percentiles) := by
  intro window analysed states
  have allStates : states = statesOf window := StateTime.states_ofFrames window
  refine ⟨?_, ?_, ⟨?_, ?_⟩, ⟨?_, ?_, ?_⟩, ?_⟩
  · intro filter? other? run other made otherMade
    rcases Run.ofFrames_withFilter_eq_ok_iff.mp made with ⟨stats, -, rfl⟩
    rcases Run.ofFrames_withFilter_eq_ok_iff.mp otherMade with ⟨otherStats, -, rfl⟩
    exact ⟨rfl, rfl, rfl, rfl, fun _ _ _ => rfl, rfl⟩
  · intro state
    refine ⟨Run.ofFrames_succeeds_iff.trans Run.durationsIn_some_ne_nil_iff, ?_⟩
    intro absent
    apply Run.ofFrames_eq_emptyRun
    by_contra present
    rcases Run.durationsIn_some_ne_nil_iff.mp present with ⟨frame, member, here⟩
    exact absent frame member here
  · exact Run.ofFrames_succeeds_iff.trans Run.durationsIn_none_ne_nil_iff
  · intro empty
    apply Run.ofFrames_eq_emptyRun
    exact (Run.durationsIn_none window).trans (List.map_eq_nil_iff.mpr empty)
  · rw [allStates]
    exact nodup_statesOf window
  · intro state
    rw [allStates]
    exact mem_statesOf
  · rw [allStates]
    exact Run.exists_runs_of_states config name source recorded
  · intro state run made
    rcases Run.ofFrames_withFilter_eq_ok_iff.mp made with ⟨stats, computed, rfl⟩
    rcases Stats.ofDurations_eq_ok_iff.mp computed with ⟨table, built, rfl⟩
    rw [Run.durationsIn_some] at built ⊢
    exact ⟨rfl, List.length_map _, built⟩

/-- Three frames, one of them without a state. -/
private def untaggedBetween : List Frame :=
  [⟨16000000, some 1⟩, ⟨17000000, none⟩, ⟨15000000, some 1⟩]

theorem stateFilter_divides_frames_of_untagged :
    let analysed := fun filter? =>
      Run.ofFrames (Config.withFilter { withState := true } filter?) "logs/a.log" ⟨"/logs/a.log"⟩
        untaggedBetween
    ∃ idle busy, analysed (some 0) = .ok idle ∧ analysed (some 1) = .ok busy ∧
      idle.fps = busy.fps ∧ idle.stateTime = busy.stateTime ∧
      idle.analyzed = 1 ∧ busy.analyzed = 2 ∧
      PercentileTable.ofDurations [16000000, 15000000] = .ok (some busy.stats.percentiles) ∧
      analysed (some 2) = .error (.emptyRun "logs/a.log") ∧ ∃ all, analysed none = .ok all := by
  intro analysed
  rcases stateFilter_divides_frames { withState := true } "logs/a.log" ⟨"/logs/a.log"⟩
    untaggedBetween with ⟨agree, exact, ⟨unfiltered, -⟩, -, own⟩
  rcases (exact 0).1.mpr ⟨⟨17000000, none⟩, by decide, rfl⟩ with ⟨idle, idleMade⟩
  rcases (exact 1).1.mpr ⟨⟨16000000, some 1⟩, by decide, rfl⟩ with ⟨busy, busyMade⟩
  rcases agree _ _ idle busy idleMade busyMade with ⟨-, -, sameTime, sameFps, -⟩
  rcases own 0 idle idleMade with ⟨-, one, -⟩
  rcases own 1 busy busyMade with ⟨-, two, table⟩
  exact ⟨idle, busy, idleMade, busyMade, sameFps, sameTime, one, two, table,
    (exact 2).2 (by decide), unfiltered.mpr (by decide)⟩

end FrameTiming
