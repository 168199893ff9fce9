import AttributeReview.Command.Program
import AttributeReview.Proofs.Command.Diff
import AttributeReview.Proofs.Review.Stored

/-!
# What a run of the program leaves behind

The diff command writes at most one file, after everything that may fail; nothing else the program
does writes any. So a run that fails leaves every file as it was. Only a run that breaks off, over a
summary that it cannot lay out, has written its file before.
-/

namespace AttributeReview.Command

open Files (Location Path Tree)

variable {t : Tree} {time : String} {color : Bool}

/-! ## How a diff command ends -/

namespace Diff

/-- The ways in which a diff command ends: it is refused, with no more than new directories, or it
goes on to show its report, or it stores it first. -/
inductive Ends (d : Diff) (t : Tree) (time : String) (color : Bool) : Outcome Report → Prop where
  | refused {made : Tree} (fault : Fault) : t.Grows made →
      Ends d t time color ⟨made, "", .failed fault⟩
  | shown {r : Report} : (d.report t time).value = .ok r → d.output = none →
      Ends d t time color (d.conclude t "" color r)
  | stored {r : Report} {path : Path} {written : Tree} : (d.report t time).value = .ok r →
      d.output = some path → r.store t path = (written, .ok ()) →
      Ends d t time color (d.conclude written (writtenLine color path) color r)

theorem run_ends (d : Diff) (t : Tree) (time : String) (color : Bool) :
    d.Ends t time color (d.run t time color) := by
  unfold run
  split
  next fault hcheck => exact .refused fault (.refl t)
  next hcheck =>
    unfold execute
    split
    next fault hreport => exact .refused fault (.refl t)
    next r hreport =>
      unfold deliver
      cases houtput : d.output with
      | none => exact .shown hreport houtput
      | some path =>
        cases hstore : r.store t path with
        | mk made result =>
          cases result with
          | error fault =>
            simp only [hstore]
            exact .refused _ (Report.grows_of_store_error hstore)
          | ok =>
            simp only [hstore]
            exact .stored hreport houtput hstore

variable {d : Diff} {o : Outcome Report}

theorem Ends.grows_of_failed {fault : Fault} (h : d.Ends t time color o)
    (hfailed : o.ending = .failed fault) : t.Grows o.tree := by
  cases h with
  | refused other hgrows => exact hgrows
  | shown hreport houtput =>
    rw [tree_conclude]
    exact .refl t
  | stored hreport houtput hstore =>
    rw [ending_conclude] at hfailed
    split at hfailed <;> cases hfailed

theorem Ends.changes (h : d.Ends t time color o) (location : Location) :
    (∃ path content, d.output = some path ∧ o.tree.find path = .ok (location, .file content)) ∨
      t.GrowsAt o.tree location := by
  cases h with
  | refused fault hgrows => exact Or.inr (hgrows location)
  | shown hreport houtput =>
    rw [tree_conclude]
    exact Or.inr (Or.inl rfl)
  | stored hreport houtput hstore =>
    obtain ⟨made, place, hgrows, hfind, hwrites⟩ := Report.store_eq_ok hstore
    rw [tree_conclude]
    by_cases hplace : location = place
    · exact Or.inl ⟨_, _, houtput, hplace ▸ hfind⟩
    · rw [Tree.GrowsAt, hwrites.elsewhere location hplace]
      exact Or.inr (hgrows location)

theorem Ends.exists_stored {path : Path} (h : d.Ends t time color o)
    (houtput : d.output = some path) (hnot : ∀ fault, o.ending ≠ .failed fault) :
    ∃ r written, (d.report t time).value = .ok r ∧ r.store t path = (written, .ok ()) ∧
      o = d.conclude written (writtenLine color path) color r := by
  cases h with
  | refused fault hgrows => exact absurd rfl (hnot fault)
  | shown hreport hnone => simp [houtput] at hnone
  | @stored r other written hreport hother hstore =>
    obtain rfl : path = other := Option.some.inj (houtput.symm.trans hother)
    exact ⟨r, written, hreport, hstore, rfl⟩

theorem run_eq_of_store {r : Report} {path : Path} {written : Tree} (houtput : d.output = some path)
    (hcheck : d.check t = .ok ()) (hreport : (d.report t time).value = .ok r)
    (hstore : r.store t path = (written, .ok ())) :
    d.run t time color = d.conclude written (writtenLine color path) color r := by
  unfold run execute deliver
  simp only [hcheck, hreport, houtput, hstore]

/-- The command makes a report, and stores it if it is to, but its summary cannot be laid out. -/
def BreaksOff (d : Diff) (t : Tree) (time : String) : Prop :=
  d.check t = .ok () ∧ ∃ r, d.Makes t time r ∧ d.summary = true ∧ ¬ r.TitlesFit ∧
    ∀ path, d.output = some path → (r.store t path).2 = .ok ()

theorem run_eq_aborted_iff : (d.run t time color).ending = .aborted ↔ d.BreaksOff t time := by
  unfold run BreaksOff
  cases d.check t with
  | error fault => simp
  | ok => simp [execute_eq_aborted_iff, report_eq_ok_iff_makes]

end Diff

/-! ## How a run ends -/

theorem exit_eq_zero_iff {α : Type} {o : Outcome α} :
    o.exit.code = 0 ↔ ∃ a, o.ending = .done a := by
  unfold Outcome.exit
  cases o.ending with
  | done a => simp
  | failed fault => simp
  | aborted => simp

theorem exit_eq_aborted_iff {α : Type} {o : Outcome α} :
    o.exit.code = 101 ↔ o.ending = .aborted := by
  unfold Outcome.exit
  cases o.ending with
  | done a => simp
  | failed fault => simp
  | aborted => simp

theorem tree_exit {α : Type} (o : Outcome α) : o.exit.tree = o.tree := by
  unfold Outcome.exit
  split <;> rfl

theorem tree_validate (t : Tree) (path : Path) : (validate t path).tree = t := by
  unfold validate
  split <;> rfl

theorem tree_perform {request : Request} (h : ∀ d, request ≠ .diff d) :
    (perform t color time request).tree = t := by
  cases request with
  | diff d => exact absurd rfl (h d)
  | validate path => exact (tree_exit _).trans (tree_validate t path)
  | _ => rfl

/-- The location is that of the file to which a request has its report written. -/
def Request.WritesTo (request : Request) (t : Tree) (location : Location) : Prop :=
  ∃ d path content, request = .diff d ∧ d.output = some path ∧
    t.find path = .ok (location, .file content)

theorem perform_changes (request : Request) (location : Location) :
    request.WritesTo (perform t color time request).tree location ∨
      t.GrowsAt (perform t color time request).tree location := by
  cases request with
  | diff d =>
    rw [perform, tree_exit]
    rcases (d.run_ends t time color).changes location with ⟨path, content, houtput, hfind⟩ | hsame
    · exact Or.inl ⟨d, path, content, rfl, houtput, hfind⟩
    · exact Or.inr hsame
  | _ =>
    rw [tree_perform (by rintro d ⟨⟩)]
    exact Or.inr (Or.inl rfl)

theorem grows_perform (request : Request) :
    (perform t color time request).code = 0 ∨ (perform t color time request).code = 101 ∨
      t.Grows (perform t color time request).tree := by
  cases request with
  | diff d =>
    rw [perform, tree_exit, exit_eq_zero_iff, exit_eq_aborted_iff]
    cases hending : (d.run t time color).ending with
    | done r => exact Or.inl ⟨r, rfl⟩
    | failed fault => exact Or.inr (Or.inr ((d.run_ends t time color).grows_of_failed hending))
    | aborted => exact Or.inr (Or.inl rfl)
  | _ =>
    rw [tree_perform (by rintro d ⟨⟩)]
    exact Or.inr (Or.inr (.refl t))

theorem code_validate_ne (t : Tree) (path : Path) : (validate t path).exit.code ≠ 101 := by
  rw [ne_eq, exit_eq_aborted_iff]
  unfold validate
  split <;> simp

theorem perform_eq_aborted_iff (request : Request) :
    (perform t color time request).code = 101 ↔ ∃ d, request = .diff d ∧ d.BreaksOff t time := by
  cases request with
  | diff d =>
    rw [perform, exit_eq_aborted_iff, Diff.run_eq_aborted_iff]
    simp
  | validate path => simp [perform, code_validate_ne]
  | _ => simp [perform]

/-- **What a run leaves alone.** Whatever the command line is, everything in the tree stays as it
was but the file that a diff command is told to write, and directories that appear where nothing
was. A run that does not end well leaves that file alone too, if there is one: all of a report is
taken by a sink without a limit, so little is left to go wrong once the file is opened. What is left
is the summary, and a run ends with code 101 just where that cannot be laid out. -/
theorem run_changes_only_the_report (t : Tree) (e : Environment) (time : String)
    (args : List String) :
    (∀ location, (Request.ofArgs e.emptyValue args).WritesTo (run t e time args).tree location ∨
      t.GrowsAt (run t e time args).tree location) ∧
    ((run t e time args).code = 0 ∨ (run t e time args).code = 101 ∨
      t.Grows (run t e time args).tree) ∧
    ((run t e time args).code = 101 ↔
      ∃ d, Request.ofArgs e.emptyValue args = .diff d ∧ d.BreaksOff t time) ∧
    ∀ r : Report, r.writeBuffered ⟨none, true, ""⟩ = .ok ⟨none, true, r.document⟩ := by
  refine ⟨fun location => ?_, ?_, ?_, Report.writeBuffered_unlimited⟩
  · exact perform_changes (Request.ofArgs e.emptyValue args) location
  · exact grows_perform (Request.ofArgs e.emptyValue args)
  · exact perform_eq_aborted_iff (Request.ofArgs e.emptyValue args)

/-- A command that writes below two directories that are not there yet. -/
def Diff.storing : Diff := ⟨"i.json", "p.json", some "out/../new/r.json", true, some "", none⟩

def storingLine : List String :=
  ["-v", "diff", "-i", "i.json", "-pp.json", "--output=out/../new/r.json", "--summary",
    "--empty-value="]

def Environment.bare : Environment := ⟨none, none, none, false⟩

theorem ofArgs_storingLine : Request.ofArgs none storingLine = .diff Diff.storing := by
  decide +kernel

-- Paths are taken apart by recursion on their lengths, which is not unfolded otherwise.
theorem Diff.store_storing (title : String) (r : Report) :
    (r.store (sampleTree title) "out/../new/r.json").2 = .ok () := by
  with_unfolding_all rfl

theorem Diff.run_storing (title : String) : ∃ written,
    (sampleReport title).store (sampleTree title) "out/../new/r.json" = (written, .ok ()) ∧
    storing.run (sampleTree title) "now" false = storing.conclude written
      (writtenLine false "out/../new/r.json") false (sampleReport title) := by
  have hreport : (storing.report (sampleTree title) "now").value = .ok (sampleReport title) :=
    report_eq_ok_iff_makes.mpr ⟨.standard, _, _, .standard rfl, holdsInstance_sampleTree _,
      holdsProposal_sampleTree _, sampleReport_eq _⟩
  obtain ⟨written, hstore⟩ : ∃ written, (sampleReport title).store (sampleTree title)
      "out/../new/r.json" = (written, .ok ()) :=
    ⟨_, Prod.ext rfl (store_storing title (sampleReport title))⟩
  exact ⟨written, hstore, run_eq_of_store rfl rfl hreport hstore⟩

theorem run_storingLine (t : Tree) :
    run t .bare time storingLine = (Diff.storing.run t time false).exit := by
  rw [run, show Environment.bare.emptyValue = none from rfl, ofArgs_storingLine]
  rfl

/-- A run that breaks off has written a report where there was none. -/
theorem run_breaks_off_with_report :
    (Diff.sampleTree Report.longTitle).isFile "out/../new/r.json" = false ∧
      (run (Diff.sampleTree Report.longTitle) .bare "now" storingLine).code = 101 ∧
      ∃ content, (run (Diff.sampleTree Report.longTitle) .bare "now" storingLine).tree.Holds
        "out/../new/r.json" content := by
  obtain ⟨written, hstore, hrun⟩ := Diff.run_storing Report.longTitle
  obtain ⟨made, location, -, hfind, -⟩ := Report.store_eq_ok hstore
  rw [run_storingLine, hrun, Diff.conclude_eq_aborted rfl Diff.not_titlesFit_sampleReport]
  exact ⟨rfl, rfl, _, location, hfind⟩

end AttributeReview.Command
