import ClassShrink.Proofs.Pass

/-! # Configurations combine by union

A configuration that asks for all that two others ask for keeps what one or the
other keeps, and nothing else. -/

namespace ClassShrink

/-! ## Selections -/

structure Config.IsUnion (config left right : Config) : Prop where
  keep : config.keep = left.keep ++ right.keep
  keepAnnotations : config.keepAnnotations = left.keepAnnotations ++ right.keepAnnotations
  entryPoints : config.entryPoints = left.entryPoints ++ right.entryPoints

namespace Config

variable {config left right : Config} {program : Program} {name : String}

theorem Marks.mono {more : Config} (within : ∀ marker ∈ config.keepAnnotations,
      marker ∈ more.keepAnnotations)
    (marks : config.Marks program name) : more.Marks program name := by
  cases marks with
  | ofClass isClass inConfig carried => exact .ofClass isClass (within _ inConfig) carried
  | ofMember isClass isMember inConfig carried =>
      exact .ofMember isClass isMember (within _ inConfig) carried

theorem Selects.mono {more : Config} (keep : ∀ pattern ∈ config.keep, pattern ∈ more.keep)
    (keepAnnotations : ∀ marker ∈ config.keepAnnotations, marker ∈ more.keepAnnotations)
    (entryPoints : ∀ entry ∈ config.entryPoints, entry ∈ more.entryPoints)
    (selects : config.Selects program name) : more.Selects program name := by
  cases selects with
  | named isClass isMember isMethod inConfig ends names =>
      exact .named isClass isMember isMethod (keep _ inConfig) ends names
  | marked marks => exact .marked (marks.mono keepAnnotations)
  | enteredClass isClass entered => exact .enteredClass isClass (entryPoints _ entered)
  | enteredMember isClass isMember entered =>
      refine .enteredMember isClass isMember ?_
      rw [KeepRule.isEntered_iff] at entered ⊢
      rcases entered with ⟨entry, listed, enters⟩
      exact ⟨entry, entryPoints _ listed, enters⟩

theorem IsUnion.selects_iff (union : config.IsUnion left right) :
    config.Selects program name ↔ left.Selects program name ∨ right.Selects program name := by
  constructor
  · intro selects
    cases selects with
    | named isClass isMember isMethod inConfig ends names =>
        rw [union.keep, List.mem_append] at inConfig
        exact inConfig.imp (.named isClass isMember isMethod · ends names)
          (.named isClass isMember isMethod · ends names)
    | marked marks =>
        cases marks with
        | ofClass isClass inConfig carried =>
            rw [union.keepAnnotations, List.mem_append] at inConfig
            exact inConfig.imp (.marked <| .ofClass isClass · carried)
              (.marked <| .ofClass isClass · carried)
        | ofMember isClass isMember inConfig carried =>
            rw [union.keepAnnotations, List.mem_append] at inConfig
            exact inConfig.imp (.marked <| .ofMember isClass isMember · carried)
              (.marked <| .ofMember isClass isMember · carried)
    | enteredClass isClass entered =>
        rw [union.entryPoints, List.mem_append] at entered
        exact entered.imp (.enteredClass isClass) (.enteredClass isClass)
    | enteredMember isClass isMember entered =>
        rw [KeepRule.isEntered_iff, union.entryPoints] at entered
        rcases entered with ⟨entry, listed, enters⟩
        exact (List.mem_append.mp listed).imp
          (fun inLeft => .enteredMember isClass isMember
            ((KeepRule.isEntered_iff _ _).mpr ⟨entry, inLeft, enters⟩))
          (fun inRight => .enteredMember isClass isMember
            ((KeepRule.isEntered_iff _ _).mpr ⟨entry, inRight, enters⟩))
  · rintro (selects | selects)
    · apply selects.mono
      · simp +contextual [union.keep]
      · simp +contextual [union.keepAnnotations]
      · simp +contextual [union.entryPoints]
    · apply selects.mono
      · simp +contextual [union.keep]
      · simp +contextual [union.keepAnnotations]
      · simp +contextual [union.entryPoints]

end Config

/-! ## Passes -/

/-- What is kept for two selections is kept for one of them. -/
theorem Program.kept_or_iff {program : Program} {left right : String → Prop} {name : String} :
    program.Kept (fun name => left name ∨ right name) name ↔
      program.Kept left name ∨ program.Kept right name := by
  constructor
  · intro kept
    induction kept with
    | selected selects => exact selects.imp .selected .selected
    | boundary isBoundary => exact .inl (.boundary isBoundary)
    | needed _ needs induction => exact induction.imp (.needed · needs) (.needed · needs)
  · rintro (kept | kept)
    · exact kept.mono fun _ => .inl
    · exact kept.mono fun _ => .inr

/-- The passes for two configurations and for their union fail together, in the
construction of the graph. Otherwise the union keeps the names that one or the
other keeps. -/
theorem Shrink.runs_keep_union {config left right : Config} (union : config.IsUnion left right)
    (program : Program) :
    (∃ error : Bool → ShrinkError,
      (∀ parallel, (error parallel).stage = .graph ∧
        ProgramGraph.build program parallel = .error (error parallel)) ∧
      run config program = .error (error config.analysis.parallel) ∧
      run left program = .error (error left.analysis.parallel) ∧
      run right program = .error (error right.analysis.parallel)) ∨
    ∃ outcome leftOutcome rightOutcome, run config program = .ok outcome ∧
      run left program = .ok leftOutcome ∧ run right program = .ok rightOutcome ∧
      ∀ name, name ∈ outcome.program.symbolNames ↔
        name ∈ leftOutcome.program.symbolNames ∨ name ∈ rightOutcome.program.symbolNames := by
  rcases ProgramGraph.build_fails_or_sound program with ⟨error, failed⟩ | ⟨distinct, resolved⟩
  · have fails := fun parallel => (failed parallel).2
    exact .inl ⟨error, failed, run_eq_error (fails _), run_eq_error (fails _),
      run_eq_error (fails _)⟩
  · rcases exists_pass config distinct resolved with ⟨outcome, _, ran, pass⟩
    rcases exists_pass left distinct resolved with ⟨leftOutcome, _, leftRan, leftPass⟩
    rcases exists_pass right distinct resolved with ⟨rightOutcome, _, rightRan, rightPass⟩
    refine .inr ⟨outcome, leftOutcome, rightOutcome, ran, leftRan, rightRan, ?_⟩
    intro name
    have selections : config.Selects program =
        fun name => left.Selects program name ∨ right.Selects program name :=
      funext fun _ => propext union.selects_iff
    rw [pass.mem_symbolNames_iff, leftPass.mem_symbolNames_iff, rightPass.mem_symbolNames_iff,
      selections, Program.kept_or_iff, and_or_left]

namespace Callback

/-! The method that the entry point does not call, asked for by name. -/

def stopConfig : Config :=
  { keep := [{ suffix := "Base", methods := ["stop"] }] }

def unionConfig : Config :=
  { stopConfig with entryPoints := config.entryPoints, analysis := { parallel := true } }

theorem unionConfig_isUnion : unionConfig.IsUnion config stopConfig :=
  ⟨rfl, rfl, rfl⟩

theorem union_kept :
    ∃ outcome leftOutcome rightOutcome, Shrink.run unionConfig program = .ok outcome ∧
      Shrink.run config program = .ok leftOutcome ∧
      Shrink.run stopConfig program = .ok rightOutcome ∧
      (∀ name, name ∈ outcome.program.symbolNames ↔
        name ∈ leftOutcome.program.symbolNames ∨ name ∈ rightOutcome.program.symbolNames) ∧
      "Base.stop:" ∉ leftOutcome.program.symbolNames := by
  rcases run_eq_ok with ⟨called, calledRan, isLeft⟩
  rcases Shrink.runs_keep_union unionConfig_isUnion program with
    ⟨error, _, _, failed, _⟩ | ⟨outcome, leftOutcome, rightOutcome, ran, leftRan, rightRan, keeps⟩
  · rw [calledRan] at failed
    cases failed
  · refine ⟨outcome, leftOutcome, rightOutcome, ran, leftRan, rightRan, keeps, ?_⟩
    rw [calledRan] at leftRan
    cases leftRan
    rw [isLeft]
    decide +kernel

end Callback

end ClassShrink
