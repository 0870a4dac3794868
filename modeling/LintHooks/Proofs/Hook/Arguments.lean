import LintHooks.Proofs.Hook.Targets
set_option autoImplicit false

/-!
# Hooks: default arguments

A default argument is added where the user has given no argument of the same option, and the options
of the defaults of a hook all differ, so that none of them keeps another one out.  What comes of it
is the list of the user with some of the defaults behind it.

The main result is `toolArgs_completed`, about a runner as it is made and after it has been made
ready.  What completing does is known for a single default (`addIfMissing_eq`) and then, since no
hook has two defaults of one option (`nodup_defaultArgs`), for all of them (`completeArgs_eq`); from
this follow the other parts of `Completed`.  That nothing else depends on the arguments of the user
(`ofInvocation_withArgs`) is seen by going through the steps in which a runner is made, none of
which looks at them.
-/

namespace LintHooks

namespace Hook

variable {user defaults args : List String} {name : String}

/-! ## Names of options -/

theorem takeWhile_eq_cut? (sep : Char) (s : List Char) :
    s.takeWhile (· ≠ sep) = ((Text.cut? sep s).map Prod.fst).getD s := by
  induction s with
  | nil => rfl
  | cons c s ih =>
    by_cases hc : c = sep
    · simp [Text.cut?, hc]
    · rw [List.takeWhile_cons_of_pos (by simpa using hc), ih, Text.cut?, if_neg hc]
      cases Text.cut? sep s <;> rfl

/-- The name of an option is the text before the first `=`. -/
theorem toList_optionName (arg : String) :
    (optionName arg).toList = arg.toList.takeWhile (· ≠ '=') := by
  rw [takeWhile_eq_cut?, optionName]
  cases Text.cut? '=' arg.toList with
  | none => rfl
  | some parts => exact String.toList_ofList

theorem optionName_append (hname : '=' ∉ name.toList) (value : String) :
    optionName (name ++ "=" ++ value) = name := by
  have hall : ∀ c ∈ name.toList, decide (c ≠ '=') = true := by
    intro c hc
    refine decide_eq_true ?_
    rintro rfl
    exact hname hc
  have hvalue : (name ++ "=" ++ value).toList = name.toList ++ '=' :: value.toList := by
    rw [String.toList_append, String.toList_append, List.append_assoc]
    rfl
  rw [← String.toList_inj, toList_optionName, hvalue, List.takeWhile_append_of_pos hall,
    List.takeWhile_cons_of_neg (by decide), List.append_nil]

/-- No hook has two default arguments of one option. -/
theorem nodup_defaultArgs (hook : Hook) (buildDir : Option String) :
    ((hook.defaultArgs buildDir).map optionName).Nodup := by
  cases buildDir with
  | none => cases hook <;> decide
  | some dir =>
    cases hook with
    | cppcheck =>
      have hargs : cppcheck.defaultArgs (some dir) = ["-q", "--error-exitcode=1", "--enable=all",
          "--project" ++ "=" ++ CompileDatabase.pathIn dir] := rfl
      rw [hargs, List.map_cons, List.map_cons, List.map_cons, List.map_singleton,
        optionName_append (by decide)]
      decide
    | clangTidy => exact List.nodup_singleton _
    | includeWhatYouUse => exact List.nodup_singleton _
    | clangFormat => exact List.nodup_nil
    | cpplint => exact List.nodup_nil
    | lizard => exact List.nodup_nil

/-! ## Completing arguments -/

/-- The arguments of a user with default ones behind them, where the user has not given the same
option.  The options of the user are left as they are, all options of the defaults are there, and no
default is missing any more. -/
structure Completed (user defaults args : List String) : Prop where
  eq_append : args =
    user ++ defaults.filter fun d => ∀ a ∈ user, optionName a ≠ optionName d
  given : ∀ u ∈ user, (args.filter fun a => optionName a = optionName u) =
    user.filter fun a => optionName a = optionName u
  there : ∀ d ∈ defaults, ∃ a ∈ args, optionName a = optionName d
  again : completeArgs args defaults = args

theorem addIfMissing_eq (args : List String) (d : String) :
    addIfMissing args d =
      args ++ [d].filter fun d => ∀ a ∈ args, optionName a ≠ optionName d := by
  rw [addIfMissing]
  by_cases hthere : ∃ a ∈ args, optionName a = optionName d
  · have hany : (args.any fun a => optionName a == optionName d) = true := by simpa using hthere
    rw [if_pos hany, List.filter_cons_of_neg (by simpa using hthere), List.filter_nil,
      List.append_nil]
  · have hany : ¬ (args.any fun a => optionName a == optionName d) = true := by simpa using hthere
    rw [if_neg hany, List.filter_cons_of_pos (by simpa using hthere), List.filter_nil]

/-- Each default is added for itself: what is added before it is of another option. -/
theorem completeArgs_eq (hnodup : (defaults.map optionName).Nodup) (args : List String) :
    completeArgs args defaults =
      args ++ defaults.filter fun d => ∀ a ∈ args, optionName a ≠ optionName d := by
  induction defaults generalizing args with
  | nil => rw [List.filter_nil, List.append_nil]; rfl
  | cons d ds ih =>
    obtain ⟨hd, hds⟩ := List.nodup_cons.1 hnodup
    have hother : ∀ d' ∈ ds, optionName d ≠ optionName d' := fun d' hd' heq =>
      hd (heq ▸ List.mem_map_of_mem hd')
    have hrest : (ds.filter fun d' => ∀ a ∈ addIfMissing args d, optionName a ≠ optionName d') =
        ds.filter fun d' => ∀ a ∈ args, optionName a ≠ optionName d' := by
      refine List.filter_congr fun d' hd' => decide_eq_decide.2 ?_
      rw [addIfMissing_eq]
      refine ⟨fun h a ha => h a (List.mem_append_left _ ha), fun h a ha => ?_⟩
      rcases List.mem_append.1 ha with ha | ha
      · exact h a ha
      · obtain rfl := List.mem_singleton.1 (List.mem_filter.1 ha).1
        exact hother d' hd'
    have hstep : completeArgs args (d :: ds) = completeArgs (addIfMissing args d) ds := rfl
    have hsplit : (d :: ds).filter (fun d' => ∀ a ∈ args, optionName a ≠ optionName d') =
        ([d].filter fun d' => ∀ a ∈ args, optionName a ≠ optionName d') ++
          ds.filter fun d' => ∀ a ∈ args, optionName a ≠ optionName d' := by
      rw [← List.filter_append]
      rfl
    rw [hstep, ih hds, hrest, hsplit, addIfMissing_eq, List.append_assoc]

theorem completed_completeArgs (hnodup : (defaults.map optionName).Nodup) (user : List String) :
    Completed user defaults (completeArgs user defaults) := by
  have hthere : ∀ d ∈ defaults, ∃ a ∈ completeArgs user defaults,
      optionName a = optionName d := by
    intro d hd
    rw [completeArgs_eq hnodup]
    by_cases hgiven : ∃ a ∈ user, optionName a = optionName d
    · obtain ⟨a, ha, heq⟩ := hgiven
      exact ⟨a, List.mem_append_left _ ha, heq⟩
    · refine ⟨d, List.mem_append_right _ (List.mem_filter.2 ⟨hd, decide_eq_true ?_⟩), rfl⟩
      exact fun a ha heq => hgiven ⟨a, ha, heq⟩
  refine ⟨completeArgs_eq hnodup user, fun u hu => ?_, hthere, ?_⟩
  · have hadded : ((defaults.filter fun d => ∀ a ∈ user, optionName a ≠ optionName d).filter
        fun a => optionName a = optionName u) = [] := by
      refine List.filter_eq_nil_iff.2 fun d hd heq => ?_
      have hfresh := of_decide_eq_true (List.mem_filter.1 hd).2
      exact hfresh u hu (of_decide_eq_true heq).symm
    rw [completeArgs_eq hnodup, List.filter_append, hadded, List.append_nil]
  · have hnone : (defaults.filter fun d => ∀ a ∈ completeArgs user defaults,
        optionName a ≠ optionName d) = [] := by
      refine List.filter_eq_nil_iff.2 fun d hd hfresh => ?_
      obtain ⟨a, ha, heq⟩ := hthere d hd
      exact of_decide_eq_true hfresh a ha heq
    rw [completeArgs_eq hnodup, hnone, List.append_nil]

end Hook

namespace Runner

variable {hook : Hook} {i : Invocation} {s : Settings} {launcher : Launcher} {h h₁ : Host}
  {made : Runner}

/-- The arguments of the user decide about nothing but the arguments of the runner. -/
theorem ofInvocation_withArgs
    (hmade : (ofInvocation hook i s).runOn launcher h = (.ok made, h₁)) (args : List String) :
    (ofInvocation hook { i with toolArgs := args } s).runOn launcher h =
      (.ok { made with
        toolArgs := Hook.completeArgs args (hook.defaultArgs made.project.buildDir) }, h₁) := by
  unfold ofInvocation at hmade ⊢
  refine Action.runOn_bind_imp (fun tool _ => ?_) hmade
  refine Action.runOn_bind_imp fun _ _ => ?_
  dsimp only
  -- with a check of the version or without one, the rest is the same
  split
  on_goal 1 => refine Action.runOn_bind_imp fun _ _ => ?_
  all_goals
    refine Action.runOn_bind_imp fun _ _ => ?_
    refine Action.runOn_bind_imp fun project _ => ?_
    refine Action.runOn_bind_imp fun _ _ => ?_
    refine Action.runOn_bind_imp fun _ _ => ?_
    intro hmade
    cases hmade
    rfl

/-- Whatever the arguments of the user are, the runner has them completed by the defaults of its
hook for the build directory, and keeps them while it is made ready. -/
theorem toolArgs_completed (hmade : (ofInvocation hook i s).runOn launcher h = (.ok made, h₁)) :
    (∀ arg, (Hook.optionName arg).toList = arg.toList.takeWhile (· ≠ '=')) ∧
    Hook.Completed i.toolArgs (hook.defaultArgs made.project.buildDir) made.toolArgs ∧
    (∀ user, ∃ r, (ofInvocation hook { i with toolArgs := user } s).runOn launcher h = (.ok r, h₁) ∧
      r.project = made.project ∧
      Hook.Completed user (hook.defaultArgs r.project.buildDir) r.toolArgs) ∧
    ∀ result r h₂, (prepare hook).runOn made launcher h₁ = ((result, r), h₂) →
      r.toolArgs = made.toolArgs := by
  have hcompleted (user : List String) := Hook.completed_completeArgs
    (hook.nodup_defaultArgs made.project.buildDir) user
  refine ⟨Hook.toList_optionName, ?_, fun user => ?_, fun result r h₂ hrun => ?_⟩
  · obtain ⟨tool, project, -, rfl⟩ := ofInvocation_ok hmade
    exact hcompleted i.toolArgs
  · exact ⟨_, ofInvocation_withArgs hmade user, rfl, hcompleted user⟩
  · have hkeeps : ActionOn.Keeps (fun r => r.toolArgs = made.toolArgs) (prepare hook) :=
      keeps_prepare hook (fun _ _ hr => hr) fun _ _ hr => hr
    have hkept := hkeeps made launcher h₁ rfl
    rwa [hrun] at hkept

/-- At the desk the user may name another database, and twice; then the default one is not added. -/
theorem toolArgs_completed_desk :
    (ofInvocation .clangTidy Desk.invocation Desk.settings).runOn Desk.still Desk.host =
      (.ok Desk.made, Desk.host) ∧
    Desk.made.toolArgs = ["-p=/w/b/compile_commands.json"] ∧
    ∃ r, (ofInvocation .clangTidy
        { Desk.invocation with toolArgs := ["-p", "-checks=a=b", "-p=x"] } Desk.settings).runOn
          Desk.still Desk.host = (.ok r, Desk.host) ∧
      r.toolArgs = ["-p", "-checks=a=b", "-p=x"] := by
  obtain ⟨-, hown, hany, -⟩ := toolArgs_completed Desk.ofInvocation_made
  obtain ⟨r, hr, hproject, hcompleted⟩ := hany ["-p", "-checks=a=b", "-p=x"]
  refine ⟨Desk.ofInvocation_made, ?_, r, hr, ?_⟩
  · rw [hown.eq_append]
    decide
  · rw [hcompleted.eq_append, hproject]
    decide

end Runner

end LintHooks
