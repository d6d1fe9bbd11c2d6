import ClientForge.Resolve.Schema

/-! Rules for what resolving ends with. A run is judged by its result together with the registry, or
by the fault together with the registry that it leaves: a run that fails has still changed it. -/

namespace ClientForge.Resolve
open Api

/-- What holds after a program has run from a registry. -/
def Run (program : Resolving α) (before : Registry) (good : α → Registry → Prop)
    (bad : ReferenceFault → Registry → Prop) : Prop :=
  match program.run.run before with
  | (.ok result, after) => good result after
  | (.error fault, after) => bad fault after

namespace Run

variable {program : Resolving α} {before : Registry} {good : α → Registry → Prop}
  {bad : ReferenceFault → Registry → Prop}

theorem of_ok {value : α} {after : Registry} (run : Run program before good bad)
    (ended : program.run.run before = (.ok value, after)) : good value after := by
  simpa only [Run, ended] using run

theorem of_error {fault : ReferenceFault} {after : Registry} (run : Run program before good bad)
    (ended : program.run.run before = (.error fault, after)) : bad fault after := by
  simpa only [Run, ended] using run

theorem mono {better : α → Registry → Prop} {worse : ReferenceFault → Registry → Prop}
    (run : Run program before good bad) (result : ∀ value after, good value after → better value after)
    (fault : ∀ fault after, bad fault after → worse fault after) : Run program before better worse := by
  unfold Run at *
  split at run
  next value after ended => simpa only [ended] using result value after run
  next failed after ended => simpa only [ended] using fault failed after run

theorem pure {value : α} (holds : good value before) : Run (Pure.pure value) before good bad := holds

theorem throw {fault : ReferenceFault} (holds : bad fault before) :
    Run (MonadExcept.throw fault : Resolving α) before good bad := holds

theorem ofExcept {result : Except ReferenceFault α} (ok : ∀ value, result = .ok value → good value before)
    (error : ∀ fault, result = .error fault → bad fault before) :
    Run (MonadExcept.ofExcept result) before good bad := by
  cases result with
  | ok value => exact ok value rfl
  | error fault => exact error fault rfl

/-- A program that is only attempted ends without a fault, with the result that it would have. -/
theorem attempt {settled : Except ReferenceFault α → Registry → Prop} {never : ReferenceFault → Registry → Prop}
    (run : Run program before (fun value after => settled (.ok value) after)
      fun fault after => settled (.error fault) after) :
    Run (ExceptT.lift program.run) before settled never := by
  rcases ended : program.run.run before with ⟨result, after⟩
  have lifted : (ExceptT.lift program.run : Resolving _).run.run before = (.ok result, after) := by
    simp only [ExceptT.run_lift, StateT.run_map, ended]
    rfl
  simp only [Run, lifted]
  cases result with
  | ok value => exact run.of_ok ended
  | error fault => exact run.of_error ended

theorem bind {next : α → Resolving β} {middle : α → Registry → Prop} {good : β → Registry → Prop}
    (first : Run program before middle bad)
    (rest : ∀ value after, middle value after → Run (next value) after good bad) :
    Run (program >>= next) before good bad := by
  rcases ended : program.run.run before with ⟨value | value, after⟩
  · have failed : (program >>= next).run.run before = (.error value, after) := by
      simp only [ExceptT.run_bind, StateT.run_bind, ended]
      rfl
    simpa only [Run, failed] using first.of_error ended
  · have continued : (program >>= next).run.run before = (next value).run.run after := by
      simp only [ExceptT.run_bind, StateT.run_bind, ended]
      rfl
    simpa only [Run, continued] using rest value after (first.of_ok ended)

theorem map {f : α → β} {good : β → Registry → Prop}
    (run : Run program before (fun value after => good (f value) after) bad) :
    Run (f <$> program) before good bad := by
  rw [← bind_pure_comp]
  exact run.bind fun value after holds => pure holds

theorem get_bind {next : Registry → Resolving α} (rest : Run (next before) before good bad) :
    Run (get >>= next) before good bad := rest

theorem modify_bind {change : Registry → Registry} {next : Resolving α}
    (rest : Run next (change before) good bad) :
    Run (modify change >>= fun _ => next) before good bad := rest

theorem within {name : String}
    (run : Run program { before with owners := name :: before.owners }
      (fun value after => good value { after with owners := after.owners.tail })
      fun fault after => bad fault { after with owners := after.owners.tail }) :
    Run (within name program) before good bad := by
  let settled : Except ReferenceFault α → Registry → Prop
    | .ok value, after => good value { after with owners := after.owners.tail }
    | .error fault, after => bad fault { after with owners := after.owners.tail }
  have attempted : Run (ExceptT.lift program.run) { before with owners := name :: before.owners } settled bad :=
    .attempt run
  refine .modify_bind (attempted.bind fun result after ended => .modify_bind (.ofExcept ?_ ?_))
  · rintro value rfl
    exact ended
  · rintro fault rfl
    exact ended

/-- An entry has its place while its program runs, and is filled if the program succeeds. -/
theorem fill {name : String} {body : Resolving Schema} {good : Schema → Registry → Prop}
    (run : Run body (before.write name .unknown)
      (fun schema after => good (.reference name) (after.write name schema)) bad) :
    Run (fill name body) before good bad :=
  .modify_bind (run.bind fun _ _ holds => .modify_bind (.pure holds))

end Run

end ClientForge.Resolve
