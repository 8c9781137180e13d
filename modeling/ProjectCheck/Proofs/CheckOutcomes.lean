import ProjectCheck.Proofs.Checker.Readable
import ProjectCheck.Proofs.Selection

/-!
What a check comes to. Of the tools of a language the first that is found is run, once, and whatever
it does there is one result: nothing found where it succeeds, a crash where it fails without a word,
and else what it said. No line of a tool that writes lines of its own form reads as a crash.
-/
namespace ProjectCheck

open Text Run Machine

/-! No line reads as a crash. -/

namespace Checker

inductive Finding.IsPlaced (f : Finding) : Prop
  | file (h : f.file.length ≠ 1)
  | code (before : List Char) {number : List Char} (hcode : f.code = some (before ++ number))
      (hnumber : IsNumber number)

theorem not_crashSuffix {before number : List Char} (hnumber : IsNumber number) :
    Diagnostic.crashSuffix.isSuffixOf ((before ++ number).map Code.char) = false := by
  rw [← Bool.not_eq_true, List.isSuffixOf_iff_suffix]
  intro hsuffix
  have hlast := hsuffix.getLast (by decide)
  rw [List.getLast_map, List.getLast_append_of_ne_nil _ hnumber.1] at hlast
  have hdigit := hnumber.2 _ (List.getLast_mem hnumber.1)
  rw [← Code.char.inj hlast] at hdigit
  exact absurd hdigit (by decide)

theorem Finding.IsPlaced.isCrashSentinel_eq_false {f : Finding} (h : f.IsPlaced) {d : Diagnostic}
    (hd : f.diagnostic = .ok d) : d.isCrashSentinel = false := by
  obtain rfl := Finding.eq_valued hd
  rw [Diagnostic.isCrashSentinel, Finding.valued]
  cases h with
  | file hlength =>
    have hne : LooseText.ofString (String.ofList f.file) ≠ Diagnostic.crashFile := by
      intro heq
      have htext := congrArg String.toList (LooseText.ofString_inj.1 heq)
      rw [String.toList_ofList] at htext
      exact hlength (by rw [htext]; rfl)
    rw [decide_eq_false hne, Bool.false_and]
  | code before hsome hnumber =>
    rw [hsome, Option.map_some]
    simp only [LooseText.ofString, String.toList_ofList, not_crashSuffix hnumber, Bool.and_false]

theorem length_append_ne_one {stem extension : List Char} (h : 2 ≤ extension.length) :
    (stem ++ extension).length ≠ 1 := by
  rw [List.length_append]
  omega

/-- A file has an extension, or the code is two letters and a number. -/
theorem Form.Yields.isPlaced {form : Form} {line : List Char} {f : Finding}
    (h : form.Yields line f) : f.IsPlaced := by
  cases form with
  | tsc =>
    obtain ⟨s, hs, rfl⟩ := h
    exact .code ['T', 'S'] rfl hs.code_number
  | mypy =>
    obtain ⟨s, hs, severity, -, rfl⟩ := h
    obtain ⟨stem, -, extension, hextension, hfile⟩ := hs.named
    have hlength : ∀ e ∈ Mypy.extensions, 2 ≤ e.length := by decide
    refine .file ?_
    rw [Mypy.Split.finding, hfile]
    exact length_append_ne_one (hlength extension hextension)
  | goVet =>
    obtain ⟨s, hs, rfl⟩ := h
    obtain ⟨stem, -, hfile⟩ := hs.named
    refine .file ?_
    rw [GoVet.Split.finding, hfile]
    exact length_append_ne_one (by decide)
  | pylint =>
    obtain ⟨s, hs, rfl⟩ := h
    obtain ⟨stem, -, hfile⟩ := hs.named
    refine .file ?_
    rw [Pylint.Split.finding, hfile]
    exact length_append_ne_one (by decide)

theorem isCrashSentinel_of_reading {form : Form} {line : List Char} {d : Diagnostic}
    (h : reading form.readLine line = .ok (some d)) : d.isCrashSentinel = false := by
  rw [reading] at h
  split at h
  · cases h
  · rename_i f hf
    cases hd : f.diagnostic with
    | error fault =>
      rw [hd] at h
      cases h
    | ok other =>
      rw [hd] at h
      obtain rfl : other = d := Option.some.inj (Except.ok.inj h)
      exact (Form.readLine_eq_some_iff.1 hf).isPlaced.isCrashSentinel_eq_false hd

end Checker

namespace Tool

variable {tool : Tool} {behaviour : ToolBehaviour} {result : Except Failure ToolResult}

theorem isCrashSentinel_of_readLine (htool : tool ≠ cargo) {line : List Char} {d : Diagnostic}
    (h : tool.readLine line = .ok (some d)) : d.isCrashSentinel = false := by
  obtain ⟨form, hform⟩ := Checker.exists_form htool
  rw [hform] at h
  exact Checker.isCrashSentinel_of_reading h

theorem isCrashSentinel_crash (name : LooseText) :
    (Diagnostic.crash name).isCrashSentinel = true := by
  simp only [Diagnostic.isCrashSentinel, Diagnostic.crash, decide_true, Bool.true_and]
  exact List.isSuffixOf_iff_suffix.2 (List.suffix_append ..)

def IsSilent (tool : Tool) (behaviour : ToolBehaviour) : Prop :=
  ∀ stream ∈ tool.streams, isBlankText (behaviour.textOn stream).toList = true

def SaysCrash (result : Except Failure ToolResult) : Prop :=
  ∃ r, result = .ok r ∧ ∃ d ∈ r.diagnostics, d.isCrashSentinel = true

/-- What the run of a tool comes to: nothing is found when it succeeds, it has crashed when it fails
and is silent, and else it is believed on the first stream that is not blank, whether it came to its
end or not. -/
structure ComesTo (tool : Tool) (behaviour : ToolBehaviour) (result : Except Failure ToolResult) :
    Prop where
  succeeded : behaviour.fails = false → result = .ok (.ofDiagnostics [] (some tool.name))
  crashed : behaviour.fails = true → tool.IsSilent behaviour → result = .ok (.crash tool.name)
  believed : ∀ before stream after, behaviour.fails = true →
    tool.streams = before ++ stream :: after →
    (∀ other ∈ before, isBlankText (behaviour.textOn other).toList = true) →
    isBlankText (behaviour.textOn stream).toList = false →
    result = tool.checkTool.read (behaviour.textOn stream)
  timedOut : ∀ stdout stderr exitCode, behaviour = .timesOut stdout stderr → exitCode ≠ 0 →
    result = tool.result (.finishes exitCode (some stdout.toText) (some stderr.toText))
  saysCrash_iff : tool ≠ cargo →
    (SaysCrash result ↔ behaviour.fails = true ∧ tool.IsSilent behaviour)

theorem said?_eq_none_iff : behaviour.said? tool.streams = none ↔ tool.IsSilent behaviour := by
  simp only [ToolBehaviour.said?, IsSilent, List.find?_eq_none, List.forall_mem_map,
    Bool.not_eq_true, Bool.not_eq_false']

theorem said?_of_first {before after : List OutputStream} {stream : OutputStream}
    (hstreams : tool.streams = before ++ stream :: after)
    (hbefore : ∀ other ∈ before, isBlankText (behaviour.textOn other).toList = true)
    (hstream : isBlankText (behaviour.textOn stream).toList = false) :
    behaviour.said? tool.streams = some (behaviour.textOn stream) := by
  have hnone : before.find? ((fun text => !isBlankText text.toList) ∘ behaviour.textOn) = none := by
    refine List.find?_eq_none.2 fun other hother => ?_
    rw [Function.comp_apply, hbefore other hother]
    decide
  have hsome : ((fun text => !isBlankText text.toList) ∘ behaviour.textOn) stream = true := by
    rw [Function.comp_apply, hstream]
    rfl
  rw [ToolBehaviour.said?, List.find?_map, hstreams, List.find?_append, hnone, Option.none_or,
    List.find?_cons_of_pos hsome, Option.map_some]

/-- Nothing that such a tool says reads as a crash. -/
theorem not_saysCrash_read (htool : tool ≠ cargo) (text : String) :
    ¬ SaysCrash (tool.checkTool.read text) := by
  rintro ⟨r, hr, d, hd, hcrash⟩
  rw [read_eq] at hr
  obtain ⟨diagnostics, hread, -, hmem⟩ | ⟨failure, hread, -⟩ :=
    Checker.readLines_cases tool.name tool.readLine text
  · obtain rfl := Except.ok.inj (hread.symm.trans hr)
    obtain ⟨line, -, hline⟩ := (hmem d).1 hd
    cases hcrash.symm.trans (isCrashSentinel_of_readLine htool hline)
  · cases hread.symm.trans hr

theorem comesTo_result (hstarts : ∀ cause, behaviour ≠ .cannotStart cause) :
    tool.ComesTo behaviour (tool.result behaviour) where
  succeeded hsucceeds := by
    rw [result_eq hstarts, hsucceeds]
    rfl
  crashed hfails hsilent := by
    rw [result_of_fails hfails, conclusion, said?_eq_none_iff.2 hsilent]
  believed before stream after hfails hstreams hbefore hstream := by
    rw [result_of_fails hfails, conclusion, said?_of_first hstreams hbefore hstream]
  timedOut stdout stderr exitCode heq hcode := by
    have hfails : (ToolBehaviour.finishes exitCode (some stdout.toText)
        (some stderr.toText)).fails = true := decide_eq_true hcode
    have htexts : (ToolBehaviour.timesOut stdout stderr).textOn =
        (ToolBehaviour.finishes exitCode (some stdout.toText) (some stderr.toText)).textOn := by
      funext stream
      cases stream <;> rfl
    have hlate : (ToolBehaviour.timesOut stdout stderr).fails = true := rfl
    rw [heq, result_of_fails hlate, result_of_fails hfails, conclusion, conclusion,
      ToolBehaviour.said?, ToolBehaviour.said?, htexts]
  saysCrash_iff htool := by
    rw [← said?_eq_none_iff]
    cases hfails : behaviour.fails with
    | false =>
      rw [result_eq hstarts, hfails]
      refine iff_of_false ?_ ?_
      · rintro ⟨r, hr, d, hd, -⟩
        obtain rfl := Except.ok.inj hr
        cases hd
      · rintro ⟨⟨⟩, -⟩
    | true =>
      rw [result_of_fails hfails, conclusion]
      cases behaviour.said? tool.streams with
      | none =>
        have hcrash : SaysCrash (.ok (.crash tool.name)) :=
          ⟨_, rfl, _, List.mem_singleton_self _, isCrashSentinel_crash tool.name⟩
        exact iff_of_true hcrash ⟨rfl, rfl⟩
      | some text =>
        refine iff_of_false (not_saysCrash_read htool text) ?_
        rintro ⟨-, ⟨⟩⟩

end Tool

/-- Where it can be looked up whether a directory has the marker of a language, its check is left
out exactly when there is no marker or none of the language's tools is found. Otherwise the first
tool that is found is run once, and the check comes to what that tool said. Where the marker cannot
be looked up, the check fails and nothing is run. Only mypy is not believed on its error stream, and
only go is believed on it first. -/
theorem check_comes_to (language : Language) (directory : Path) (timeout : Option Timeout)
    (m : Machine) (hstarts : m.CanStart) :
    Tool.mypy.streams = [.stdout] ∧ Tool.goVet.streams = [.stderr, .stdout] ∧
    (∀ tool : Tool, tool ≠ .mypy → tool ≠ .goVet → tool.streams = [.stdout, .stderr]) ∧
    Writes (language.check directory timeout) m fun result j =>
      j.events = [] ∧ j.calls.length ≤ 1 ∧
      (∀ failure, m.holdsAny directory language.markers = .error failure →
        result = .error failure ∧ j.calls = []) ∧
      ∀ marked, m.holdsAny directory language.markers = .ok marked →
        ((∃ r, result = .ok r ∧ r.skipped.isSome = true) ↔
          marked = false ∨ Tool.used? language m = none) ∧
        (marked = false → result = .ok language.noMarker ∧ j.calls = []) ∧
        (marked = true → Tool.used? language m = none →
          result = .ok language.noTool ∧ j.calls = []) ∧
        ∀ tool, marked = true → Tool.used? language m = some tool →
          tool.IsUsed m ∧ tool.ComesTo (m.behaviourOf tool) result ∧
          ∃ call, j.calls = [call] ∧ tool.checkTool.IsRun directory call := by
  have hstreams : ∀ tool : Tool, tool ≠ .mypy → tool ≠ .goVet →
      tool.streams = [.stdout, .stderr] := by
    intro tool hmypy hgo
    cases tool with
    | tsc | cargo | pylint => rfl
    | goVet => exact absurd rfl hgo
    | mypy => exact absurd rfl hmypy
  refine ⟨rfl, rfl, hstreams, ?_⟩
  refine (Language.writes_checks language directory timeout m).mono fun result j hj => ?_
  obtain ⟨hchecks, hevents⟩ := hj
  generalize j.calls = calls at hchecks ⊢
  have hskipped {tool : Tool} {behaviour : ToolBehaviour} :
      ¬ ∃ r, tool.result behaviour = .ok r ∧ r.skipped.isSome = true := by
    rintro ⟨r, hr, hskip⟩
    obtain ⟨diagnostics, rfl⟩ := Tool.result_eq_ok hr
    cases hskip
  refine ⟨hevents, ?_⟩
  cases hchecks with
  | unreadable hmarker =>
    rw [hmarker]
    refine ⟨Nat.zero_le 1, ?_, nofun⟩
    rintro failure ⟨⟩
    exact ⟨rfl, rfl⟩
  | noMarker hmarker =>
    rw [hmarker]
    refine ⟨Nat.zero_le 1, nofun, ?_⟩
    rintro marked ⟨⟩
    exact ⟨iff_of_true ⟨_, rfl, rfl⟩ (.inl rfl), fun _ => ⟨rfl, rfl⟩, nofun, nofun⟩
  | noTool hmarker hnone =>
    rw [hmarker, hnone]
    have hskip : language.noTool.skipped.isSome = true := by cases language <;> rfl
    refine ⟨Nat.zero_le 1, nofun, ?_⟩
    rintro marked ⟨⟩
    exact ⟨iff_of_true ⟨_, rfl, hskip⟩ (.inr rfl), nofun, fun _ _ => ⟨rfl, rfl⟩, nofun⟩
  | ran hmarker hused hcall =>
    rename_i tool call
    rw [hmarker, hused]
    refine ⟨Nat.le_refl 1, nofun, ?_⟩
    rintro marked ⟨⟩
    refine ⟨iff_of_false hskipped (by rintro (⟨⟨⟩⟩ | ⟨⟨⟩⟩)), nofun, nofun, ?_⟩
    rintro other - ⟨⟩
    exact ⟨(Tool.used?_eq_some_iff.1 hused).2, Tool.comesTo_result (hstarts tool), call, rfl, hcall⟩

/-- A compiler that does not end in time and leaves only a line end has crashed. A marker that is a
link to a name that is too long ends the check. -/
theorem check_comes_to_crash :
    let hanging : Machine :=
      { files := .directory [("tsconfig.json", .file [])], workingDirectory := [],
        installed := ["tsc"], tools := [("tsc", .timesOut (.octets [0x0A]) .nothing)] }
    let linked := linkedProject (List.replicate 256 (.char 'x'))
    ((Language.typescript.check (.ofLocation []) none).run hanging).1 = .ok (.crash "tsc") ∧
    ∃ after, (Language.typescript.check (.ofLocation []) none).run linked =
      (.error (.lookup .nameTooLong "/tsconfig.json"), after) ∧ after.journal.calls = [] := by
  intro hanging linked
  have hhanging : hanging.CanStart := by
    intro tool cause
    cases tool <;> exact nofun
  constructor
  · obtain ⟨-, -, -, result, after, j, ⟨-, -, -, hmarked⟩, hrun⟩ :=
      check_comes_to .typescript (.ofLocation []) none hanging hhanging
    obtain ⟨-, -, -, hused⟩ := hmarked true (by decide +kernel)
    obtain ⟨-, hcomes, -⟩ := hused .tsc rfl (by decide +kernel)
    rw [show (Language.typescript.check (.ofLocation []) none).run hanging = _ from
      hrun hanging.journal]
    have hsilent : ∀ stream : OutputStream,
        isBlankText ((hanging.behaviourOf .tsc).textOn stream).toList = true := by
      intro stream
      cases stream <;> decide +kernel
    exact hcomes.crashed rfl fun stream _ => hsilent stream
  · obtain ⟨-, -, -, result, after, j, ⟨-, -, hunreadable, -⟩, hrun⟩ :=
      check_comes_to .typescript (.ofLocation []) none linked fun tool cause => nofun
    have hslash : Code.char '/' ∉ List.replicate 256 (.char 'x') :=
      fun hmem => absurd (List.eq_of_mem_replicate hmem) (by decide)
    have hlong : linked.holdsAny (.ofLocation []) Language.typescript.markers =
        .error (.lookup .nameTooLong "/tsconfig.json") :=
      holdsAny_linkedProject (isLongName_replicate (by decide)) hslash
    obtain ⟨rfl, hcalls⟩ := hunreadable _ hlong
    exact ⟨_, hrun linked.journal, hcalls⟩

end ProjectCheck
