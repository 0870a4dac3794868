import LintHooks.Proofs.Options.Platforms
import LintHooks.Proofs.Options.Stepwise
import LintHooks.Settings.Basic
set_option autoImplicit false

/-!
# Options: arguments for Unix

An argument for Unix is short for the same argument for Linux and for macOS.  Writing out each of
them replaces one accepted option by two, and what the settings are made of does not see the
difference.

The main result is `parse_writeOutUnix`.  What is accepted one by one is accepted with the arguments
written out as well (`Accepts.writtenOut`): an option that is no argument for Unix as before
(`accept_writtenOut`), and the two arguments in the place of one (`accept_unix`).  What is made of
the reading then is the same (`layerOf_writtenOut`), since an argument for Unix counts among the
values for Linux, and among those for macOS, as often as what it stands for (`values_writtenOut`).
-/

namespace LintHooks

/-! ## Writing out the arguments for Unix -/

/-- The tokens with every argument for Unix written out as one for Linux and one for macOS. -/
def writeOutUnix : List String → List String
  | [] => []
  | token :: rest =>
    match Opt.named? token with
    | none => token :: writeOutUnix rest
    | some (o, own) =>
      if o.takesValue && own.isNone then
        match rest with
        | [] => [token]
        | v :: more =>
          (if o = .unix then ["--linux=" ++ v, "--mac=" ++ v] else [token, v])
            ++ writeOutUnix more
      else
        (if o = .unix then ["--linux=" ++ own.getD "", "--mac=" ++ own.getD ""] else [token])
          ++ writeOutUnix rest

/-- The options that an option stands for. -/
def Occurrence.writtenOut (x : Occurrence) : List Occurrence :=
  if x.opt = .unix then [⟨.linux, x.value⟩, ⟨.mac, x.value⟩] else [x]

namespace Reading

/-- A reading with the arguments for Unix written out. -/
def writtenOut (r : Reading) : Reading := { r with given := r.given.flatMap Occurrence.writtenOut }

variable {executable : String → Bool} {r r' : Reading} {o : Opt} {value : Option String}
  {v : String} {tokens : List String}

/-! ### What the settings are made of -/

theorem has_eq (r : Reading) (o : Opt) : r.has o = !(r.values [o]).isEmpty := by
  rw [has, values, Bool.eq_iff_iff]
  simp [List.any_eq_true]

theorem value?_eq (r : Reading) (o : Opt) : r.value? o = (r.values [o]).head? := by
  have hp : (fun x : Occurrence => [o].contains x.opt) = fun x => x.opt == o := by
    funext x
    rw [List.contains_cons, List.contains_nil, Bool.or_false]
  rw [value?, values, List.head?_map, List.head?_filter, hp]

/-- The values of options do not change if an argument for Unix counts among them exactly as often
as the two that it stands for. -/
theorem values_writtenOut (r : Reading) {opts : List Opt}
    (h : (opts.contains .unix).toNat = (opts.contains .linux).toNat + (opts.contains .mac).toNat) :
    r.writtenOut.values opts = r.values opts := by
  have hone (x : Occurrence) :
      values { given := x.writtenOut } opts = values { given := [x] } opts := by
    obtain ⟨o, v⟩ := x
    by_cases ho : o = .unix
    · subst ho
      have htwo : Occurrence.writtenOut ⟨.unix, v⟩ = [⟨.linux, v⟩, ⟨.mac, v⟩] := rfl
      rw [htwo]
      cases hu : opts.contains .unix <;> cases hl : opts.contains .linux <;>
        cases hm : opts.contains .mac <;> rw [hu, hl, hm] at h <;>
        first | contradiction | simp only [values, List.filter, hu, hl, hm, List.map]
    · rw [Occurrence.writtenOut, if_neg ho]
  rw [values, values, writtenOut, List.filter_flatMap, List.map_flatMap]
  simp only [values] at hone
  simp only [hone]
  rw [← List.map_flatMap, ← List.filter_flatMap, List.flatMap_singleton']

theorem has_writtenOut (r : Reading) (ho : o ∉ [Opt.unix, Opt.linux, Opt.mac]) :
    r.writtenOut.has o = r.has o := by
  rw [has_eq, has_eq, values_writtenOut r (by revert ho; cases o <;> decide)]

theorem value?_writtenOut (r : Reading) (ho : o ∉ [Opt.unix, Opt.linux, Opt.mac]) :
    r.writtenOut.value? o = r.value? o := by
  rw [value?_eq, value?_eq, values_writtenOut r (by revert ho; cases o <;> decide)]

theorem layerOf_writtenOut (r : Reading) :
    HookOptions.layerOf r.writtenOut = HookOptions.layerOf r := by
  have hwarning : r.writtenOut.values [.warning] = r.values [.warning] := r.values_writtenOut rfl
  apply Settings.ext' <;> intro k
  · cases k <;> simp only [HookOptions.layerOf, hwarning] <;> rw [has_writtenOut r (by decide)]
  · cases k <;> exact value?_writtenOut r (by decide)
  · have platform {o : Opt} (ho : o = .linux ∨ o = .mac) :
        r.writtenOut.platformValues o = r.platformValues o := by
      rcases ho with rfl | rfl <;>
        rw [platformValues_eq _ (by decide), platformValues_eq _ (by decide),
          values_writtenOut r rfl]
    cases k with
    | unix => rfl
    | linux => exact congrArg HookOptions.nonEmpty (platform (.inl rfl))
    | mac => exact congrArg HookOptions.nonEmpty (platform (.inr rfl))
    | _ => exact congrArg HookOptions.nonEmpty (values_writtenOut r rfl)

/-! ### What is accepted -/

/-- An option that is no argument for Unix is accepted as before. -/
theorem accept_writtenOut (ho : o ≠ .unix) :
    accept executable r.writtenOut o value = (accept executable r o value).map writtenOut := by
  have hagain : (!o.repeatable && r.writtenOut.has o) = (!o.repeatable && r.has o) := by
    cases hr : o.repeatable with
    | true => rfl
    | false =>
      have hother : o ∉ [Opt.unix, Opt.linux, Opt.mac] := by revert hr; cases o <;> decide
      rw [has_writtenOut r hother]
  have hgiven (x : Occurrence) (hx : x.opt ≠ .unix) : r.writtenOut.given ++ [x] =
      (r.given ++ [x]).flatMap Occurrence.writtenOut := by
    rw [List.flatMap_append, List.flatMap_singleton, Occurrence.writtenOut, if_neg hx]
    rfl
  rw [accept, accept, hagain]
  split
  · rfl
  split
  · rfl
  split
  · rfl
  · rw [hgiven _ ho]
    cases o.takesValue with
    | false => rfl
    | true => cases checkValue executable o (value.getD "") <;> rfl

/-- The two arguments that one for Unix stands for are accepted in its place. -/
theorem accept_unix {r₁ : Reading} (h : accept executable r .unix (some v) = .ok r₁) :
    ∃ r₂, accept executable r.writtenOut .linux (some v) = .ok r₂ ∧
      accept executable r₂ .mac (some v) = .ok r₁.writtenOut := by
  obtain ⟨-, -, -, rfl⟩ := accept_ok h
  have hgiven : (r.given ++ [(⟨.unix, v⟩ : Occurrence)]).flatMap Occurrence.writtenOut =
      r.given.flatMap Occurrence.writtenOut ++ [⟨.linux, v⟩] ++ [⟨.mac, v⟩] := by
    rw [List.flatMap_append, List.append_assoc]
    rfl
  have hreading : writtenOut { r with given := r.given ++ [⟨.unix, v⟩] } =
      { r with
        given := r.given.flatMap Occurrence.writtenOut ++ [⟨.linux, v⟩] ++ [⟨.mac, v⟩] } := by
    rw [writtenOut, hgiven]
  exact ⟨_, rfl, congrArg Except.ok hreading.symm⟩

/-- An option by its long name, with its value in the same token. -/
theorem named?_long {name : String} (h : o.long? = some name) (v : String) :
    Opt.named? ("--" ++ name ++ "=" ++ v) = some (o, some v) := by
  obtain ⟨ho, heq, -⟩ := Opt.ofLong?_of_long? h
  rw [Opt.named?, Word.ofToken_named heq]
  exact congrArg (Option.map fun o => (o, some v)) ho

/-! ### Whole command lines -/

variable {token : String} {own : Option String}

theorem writeOutUnix_whole (hn : Opt.named? token = some (o, own))
    (hv : (o.takesValue && own.isNone) = false) (rest : List String) :
    writeOutUnix (token :: rest) =
      (if o = .unix then ["--linux=" ++ own.getD "", "--mac=" ++ own.getD ""] else [token])
        ++ writeOutUnix rest := by
  rw [writeOutUnix.eq_def]
  simp [hn, hv]

theorem writeOutUnix_pair (hn : Opt.named? token = some (o, none)) (ht : o.takesValue = true)
    (v : String) (rest : List String) :
    writeOutUnix (token :: v :: rest) =
      (if o = .unix then ["--linux=" ++ v, "--mac=" ++ v] else [token, v])
        ++ writeOutUnix rest := by
  rw [writeOutUnix.eq_def]
  simp [hn, ht]

/-- Two arguments in one token each go on to be accepted where the one for Unix was. -/
theorem Accepts.unix {r r₁ r' : Reading} {rest : List String}
    (h : accept executable r .unix (some v) = .ok r₁)
    (hrest : Accepts executable r₁.writtenOut rest r') :
    Accepts executable r.writtenOut (["--linux=" ++ v, "--mac=" ++ v] ++ rest) r' := by
  obtain ⟨r₂, hlinux, hmac⟩ := accept_unix h
  have hl : Opt.named? ("--" ++ "linux" ++ "=" ++ v) = some (.linux, some v) := named?_long rfl v
  have hm : Opt.named? ("--" ++ "mac" ++ "=" ++ v) = some (.mac, some v) := named?_long rfl v
  exact .whole hl rfl hlinux (.whole hm rfl hmac hrest)

/-- Tokens are accepted with the arguments for Unix written out, too. -/
theorem Accepts.writtenOut (h : Accepts executable r tokens r') :
    Accepts executable r.writtenOut (writeOutUnix tokens) r'.writtenOut := by
  induction h with
  | done => exact .done
  | separator =>
    have hn : writeOutUnix ["--"] = ["--"] := by decide
    rw [hn]
    exact .separator
  | @whole r r₁ r' token o own rest hn hshape ha _ ih =>
    have hvalue : (o.takesValue && own.isNone) = false := by
      rw [← hshape]
      cases own <;> rfl
    rw [writeOutUnix_whole hn hvalue]
    by_cases ho : o = .unix
    · subst ho
      obtain ⟨v, rfl⟩ := Option.isSome_iff_exists.1 hshape
      exact .unix ha ih
    · rw [if_neg ho]
      refine .whole hn hshape ?_ ih
      rw [accept_writtenOut ho, ha]
      rfl
  | @pair r r₁ r' token v o rest hn ht hv ha _ ih =>
    rw [writeOutUnix_pair hn ht]
    by_cases ho : o = .unix
    · subst ho
      exact .unix ha ih
    · rw [if_neg ho]
      refine .pair hn ht hv ?_ ih
      rw [accept_writtenOut ho, ha]
      rfl

end Reading

namespace HookOptions

variable {executable : String → Bool} {env : String → Option String} {tokens : List String}
  {x : HookOptions}

/-- The values that tokens give to some options, in the order of the command line. -/
def valuesGiven (opts : List Opt) (tokens : List String) : List String :=
  ((mentions tokens).filter fun m => opts.contains m.opt).map fun m => m.occurrence.value

theorem verbosity_writtenOut (r : Reading) (env : String → Option String) :
    verbosity r.writtenOut env = verbosity r env := by
  rw [verbosity, verbosity, Reading.has_writtenOut r (by decide)]

/-- The list of a key continues that of the settings below. -/
theorem list_applyCommandLine (lower : Settings) {upper : Settings} {k : ListKey}
    {values : List String} (h : upper.lists k = nonEmpty values) :
    (lower.applyCommandLine upper).list k = lower.list k ++ values := by
  change (Settings.extendList (lower.lists k) (upper.lists k)).getD [] = _
  rw [h]
  cases values with
  | nil => exact (List.append_nil _).symm
  | cons v values => rfl

/-- An argument for Unix is nothing but one for Linux and one for macOS.  Tokens that are read are
read with the same result if it is written out as the two, and what it gives to Linux and to macOS
stands among what their own options give, in the order of the command line and after the settings
below. -/
theorem parse_writeOutUnix (h : parse executable env tokens = .ok x) :
    parse executable env (writeOutUnix tokens) = .ok x ∧
    x.layer.lists .unix = none ∧
    x.layer.lists .linux = nonEmpty (valuesGiven [.unix, .linux] tokens) ∧
    x.layer.lists .mac = nonEmpty (valuesGiven [.unix, .mac] tokens) ∧
    ∀ lower : Settings, (lower.applyCommandLine x.layer).platformArgs "linux" =
      lower.list .unix ++ lower.list .linux ++ valuesGiven [.unix, .linux] tokens := by
  obtain ⟨r, hrun, h⟩ := bind_eq_ok_iff.1 h
  obtain ⟨verbose, hverbose, h⟩ := bind_eq_ok_iff.1 h
  cases h
  have haccepts := Reading.run_eq_ok_iff.1 hrun
  have hvalues (opts : List Opt) : r.values opts = valuesGiven opts tokens := by
    rw [Reading.values, haccepts.given, List.nil_append, List.filter_map, List.map_map]
    rfl
  refine ⟨?_, rfl, ?_, ?_, ?_⟩
  · have hrun' : Reading.run executable (writeOutUnix tokens) = .ok r.writtenOut :=
      Reading.run_eq_ok_iff.2 haccepts.writtenOut
    have hwarnings : r.writtenOut.values [.warning] = r.values [.warning] :=
      r.values_writtenOut rfl
    rw [parse, hrun']
    simp only [bind, Except.bind, verbosity_writtenOut, hverbose, hwarnings,
      Reading.layerOf_writtenOut, Reading.has_writtenOut r (o := .dumpToml) (by decide),
      Reading.has_writtenOut r (o := .noColor) (by decide),
      Reading.value?_writtenOut r (o := .config) (by decide)]
  · rw [← hvalues, ← r.platformValues_eq (by decide)]
    rfl
  · rw [← hvalues, ← r.platformValues_eq (by decide)]
    rfl
  · intro lower
    have hlinux : (lower.applyCommandLine (layerOf r)).list .linux =
        lower.list .linux ++ r.values [.unix, .linux] := by
      rw [← r.platformValues_eq (by decide)]
      exact list_applyCommandLine lower rfl
    rw [← hvalues, List.append_assoc, ← hlinux]
    rfl

/-! ### Separators and options among the values -/

theorem parse_writeOutUnix_mixed :
    ∃ x, parse (fun _ => true) (fun _ => none) ["--unix", "--", "--linux=A", "--unix=-W"] = .ok x ∧
      parse (fun _ => true) (fun _ => none)
        ["--linux=--", "--mac=--", "--linux=A", "--linux=-W", "--mac=-W"] = .ok x ∧
      x.layer.lists .unix = none ∧ x.layer.lists .linux = some ["--", "A", "-W"] ∧
      x.layer.lists .mac = some ["--", "-W"] := by
  have hrun : Reading.run (fun _ => true) ["--unix", "--", "--linux=A", "--unix=-W"] =
      .ok { given := [⟨.unix, "--"⟩, ⟨.linux, "A"⟩, ⟨.unix, "-W"⟩] } := by
    have hunix : Opt.named? "--unix" = some (.unix, none) := by decide
    have hlinux : Opt.named? "--linux=A" = some (.linux, some "A") := by decide
    have hown : Opt.named? "--unix=-W" = some (.unix, some "-W") := by decide
    exact Reading.run_eq_ok_iff.2
      (.pair hunix rfl (.inl rfl) rfl (.whole hlinux rfl rfl (.whole hown rfl rfl .done)))
  have hwritten : writeOutUnix ["--unix", "--", "--linux=A", "--unix=-W"] =
      ["--linux=--", "--mac=--", "--linux=A", "--linux=-W", "--mac=-W"] := by decide +kernel
  obtain ⟨x, hx⟩ : ∃ x, parse (fun _ => true) (fun _ => none)
      ["--unix", "--", "--linux=A", "--unix=-W"] = .ok x := by
    rw [parse, hrun]
    exact ⟨_, rfl⟩
  have h := parse_writeOutUnix hx
  rw [hwritten] at h
  obtain ⟨hparse, hnone, hlinux, hmac, -⟩ := h
  exact ⟨x, hx, hparse, hnone, hlinux.trans (by decide +kernel), hmac.trans (by decide +kernel)⟩

end HookOptions

end LintHooks
