import AttributeReview.Proofs.Command.Diff
import AttributeReview.Proofs.Command.Program

/-!
# One report in three places

What a diff command prints, what it writes and what is then said of the file are about one and the
same report.
-/

namespace AttributeReview

open Files (Path Tree)
open Json (Written)

/-! ## The last line of a summary -/

namespace Report

theorem print_plain (color : Bool) (s : String) : Span.print color (.plain s) = s.toList := rfl

/-- The summary before its last line. -/
def table (color : Bool) (r : Report) : String :=
  String.ofList ((r.top ++ r.rows.flatMap (lineSpans (titleWidth r.rows))).flatMap
    (Span.print color)) ++ ("\n" ++ rule)

theorem eq_of_summary? {color : Bool} {r : Report} {text : String}
    (h : r.summary? color = some text) :
    text = r.table color ++
      (toString r.rows.length ++ " attribute(s), " ++ toString r.changedCount ++ " changed\n") := by
  apply String.toList_inj.mp
  rw [toList_of_summary? h]
  simp only [spans, table, footer, List.flatMap_append, List.flatMap_cons, List.flatMap_nil,
    print_plain, String.toList_append, String.toList_ofList, List.append_assoc, List.append_nil]

end Report

namespace Command

/-! ## Command lines that name a report -/

variable {switches : Switches} {arg name value : String} {joined : Option String}
  {rest : List String} {switch : Switch} {emptyValue : Option String} {path : Path}

theorem Settings.all_long (harg : Argument.of arg = .long name joined)
    (hname : switches.long.lookup name = some switch) (htakes : switch.takesValue = true)
    (hset : Settings.setValue [] switch joined rest = .ok ([(switch, value)], rest.length)) :
    Settings.all switches (arg :: rest) = .ok [(switch, value)] := by
  unfold Settings.all
  rw [Settings.read, harg]
  simp only [hname, htakes, if_true, hset, List.drop_length, Settings.read]
  rfl

theorem Request.ofArgs_validate (h : Settings.all .validate rest = .ok [(.reportPath, path)]) :
    Request.ofArgs emptyValue ("validate" :: rest) = .validate path := by
  have hread : Settings.read .program [] ("validate" :: rest) = .ok ([], "validate" :: rest) := by
    rw [Settings.read]
    rfl
  unfold Request.ofArgs
  rw [hread]
  simp only [bind, Except.bind, Request.ofCommand, h]
  rfl

theorem Argument.of_file_joined (path : Path) :
    Argument.of ("--file=" ++ path) = .long "file" (some path) := by
  simp [Argument.of]

theorem Request.ofArgs_file_joined (h : path.isEmpty = false) :
    Request.ofArgs emptyValue ["validate", "--file=" ++ path] = .validate path := by
  apply ofArgs_validate
  apply Settings.all_long (Argument.of_file_joined path) rfl rfl
  simp [Settings.setValue, Switch.accepts, h, Settings.set, Except.map]

theorem Request.ofArgs_file_apart (h : path.isEmpty = false)
    (hnext : nextValue? [path] = some path) : Request.ofArgs emptyValue
      ["validate", "--file", path] = .validate path := by
  have hfile : Argument.of "--file" = .long "file" none := by simp [Argument.of]
  apply ofArgs_validate
  apply Settings.all_long hfile rfl rfl
  simp [Settings.setValue, hnext, Switch.accepts, h, Settings.set, Except.map]

/-! ## What is said of a file -/

variable {t : Tree} {r : Report}

theorem lines_append (ls ms : List String) : lines (ls ++ ms) = lines ls ++ lines ms := by
  unfold lines
  rw [List.map_append, String.join_append]

theorem validate_of_load (h : (Report.load t path).value = .ok r) :
    ∃ heading, validate t path = ⟨t, heading ++ lines ["  Rows: " ++ toString r.rows.length,
      "  Changed: " ++ toString r.changedCount], .done r⟩ := by
  have hlines : lines (reportLines r) = lines ((reportLines r).take 4) ++
      lines ["  Rows: " ++ toString r.rows.length, "  Changed: " ++ toString r.changedCount] := by
    rw [← lines_append]
    rfl
  refine ⟨lines ["Validating diff report: " ++ path] ++ lines ((reportLines r).take 4), ?_⟩
  unfold validate
  rw [h, String.append_assoc, ← hlines]

/-! ## A diff command that stores its report -/

variable {e : Environment} {time : String} {color : Bool} {args : List String} {d : Diff}

theorem Diff.run_stored (houtput : d.output = some path) (hsummary : d.summary = true)
    (h : (d.run t time color).exit.code = 0) :
    ∃ r written text, (d.report t time).value = .ok r ∧ r.store t path = (written, .ok ()) ∧
      r.summary? color = some text ∧
      d.run t time color = ⟨written, writtenLine color path ++ text ++ "\n", .done r⟩ := by
  obtain ⟨made, hdone⟩ := exit_eq_zero_iff.mp h
  obtain ⟨r, written, hreport, hstore, hend⟩ :=
    (d.run_ends t time color).exists_stored houtput fun fault hfailed => by
      rw [hdone] at hfailed
      cases hfailed
  by_cases hfits : r.TitlesFit
  · obtain ⟨text, htext⟩ := Report.exists_summary?_iff.mpr hfits
    exact ⟨r, written, text, hreport, hstore, htext, hend.trans (conclude_eq hsummary htext)⟩
  · rw [hend, conclude_eq_aborted hsummary hfits] at hdone
    cases hdone

/-- **One report.** A diff command that is told to write its report and to print it, and ends well,
prints the summary of the report it made. The file is read as that very report, so its summary is
the one that was printed; and every command line that asks to validate the file ends well and
prints the numbers of rows and of changed rows that stand in the last line of the summary. There is
such a line for every path, with the path joined to the switch, or after it if the path does not
look like a switch. -/
theorem stored_report_is_the_printed_one
    (hargs : Request.ofArgs e.emptyValue args = .diff d) (houtput : d.output = some path)
    (hsummary : d.summary = true) (hcode : (run t e time args).code = 0) :
    ∃ (r : Report) (text : String), (d.report t time).value = .ok r ∧
      r.summary? e.color = some text ∧
      (run t e time args).printed = writtenLine e.color path ++ text ++ "\n" ∧
      text = r.table e.color ++
        (toString r.rows.length ++ " attribute(s), " ++ toString r.changedCount ++ " changed\n") ∧
      (Report.load (run t e time args).tree path).value = .ok r ∧
      (∀ (e' : Environment) (time' : String) (line : List String),
        Request.ofArgs e'.emptyValue line = .validate path →
        (run (run t e time args).tree e' time' line).code = 0 ∧
        ∃ heading, (run (run t e time args).tree e' time' line).printed =
          heading ++ lines ["  Rows: " ++ toString r.rows.length,
            "  Changed: " ++ toString r.changedCount]) ∧
      ∀ emptyValue,
        Request.ofArgs emptyValue ["validate", "--file=" ++ path] = .validate path ∧
        (nextValue? [path] = some path →
          Request.ofArgs emptyValue ["validate", "--file", path] = .validate path) := by
  have hrun : run t e time args = (d.run t time e.color).exit := by
    unfold run
    rw [hargs, perform]
  rw [hrun] at hcode ⊢
  obtain ⟨r, written, text, hreport, hstore, htext, hend⟩ :=
    Diff.run_stored houtput hsummary hcode
  have hload := Report.load_stored hstore
  have hpath := Report.isEmpty_of_store_ok hstore
  rw [hend]
  refine ⟨r, text, hreport, htext, rfl, Report.eq_of_summary? htext, hload,
    fun e' time' line hline => ?_,
    fun emptyValue => ⟨Request.ofArgs_file_joined hpath, Request.ofArgs_file_apart hpath⟩⟩
  obtain ⟨heading, hvalid⟩ := validate_of_load hload
  unfold run
  rw [hline, perform, tree_exit, hvalid]
  exact ⟨rfl, heading, rfl⟩

theorem report_stored_in_new_directories :
    Request.ofArgs none storingLine = .diff Diff.storing ∧
    (run (Diff.sampleTree "Reviewed") .bare "now" storingLine).code = 0 ∧
    ∃ r : Report,
      (Report.load (run (Diff.sampleTree "Reviewed") .bare "now" storingLine).tree
        "out/../new/r.json").value = .ok r ∧
      (run (run (Diff.sampleTree "Reviewed") .bare "now" storingLine).tree .bare "later"
        ["validate", "--file", "out/../new/r.json"]).code = 0 := by
  have hcode : (run (Diff.sampleTree "Reviewed") .bare "now" storingLine).code = 0 := by
    obtain ⟨written, -, hrun⟩ := Diff.run_storing "Reviewed"
    have hfits : (Diff.sampleReport "Reviewed").TitlesFit := by decide
    rw [run_storingLine, hrun, Diff.conclude_eq rfl (Report.summary?_eq_some false hfits)]
    rfl
  obtain ⟨r, text, -, -, -, -, hload, hvalidate, hlines⟩ :=
    stored_report_is_the_printed_one (e := .bare) ofArgs_storingLine rfl rfl hcode
  have hline := (hlines none).2 (by decide)
  exact ⟨ofArgs_storingLine, hcode, r, hload, (hvalidate .bare "later" _ hline).1⟩

end Command

end AttributeReview
