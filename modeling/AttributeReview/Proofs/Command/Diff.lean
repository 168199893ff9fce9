import AttributeReview.Command.Diff
import AttributeReview.Proofs.Review.Inputs
import AttributeReview.Proofs.Review.Storage
import AttributeReview.Proofs.Review.Summary

/-!
# What the diff command reports

The command goes through files and a panel. What comes of it is the diff of the instance and the
proposal that the files hold, under the options of the command, or the fault of the first input that
cannot be read. Where the summary is asked for and cannot be laid out, the command breaks off.
-/

namespace AttributeReview.Command.Diff

open Attribute (Kind Value)
open Files (Path Tree)
open Json (Document Written)

variable {d : Diff} {t : Tree} {time : String}

/-! ## Options -/

/-- The options that the command starts from: the standard ones if it names no file, and else those
that the file holds. -/
inductive StartsFrom (d : Diff) (t : Tree) : Options → Prop where
  | standard : d.optionsPath = none → StartsFrom d t .standard
  | loaded {path : Path} {o : Options} : d.optionsPath = some path → t.HoldsOptions path o →
      StartsFrom d t o

/-- The options with the text for no value that the command gives, if it gives one. -/
def override (d : Diff) (o : Options) : Options :=
  { o with emptyValue := d.emptyValue.getD o.emptyValue }

theorem options_eq_ok_iff {o : Options} :
    d.options t = .ok o ↔ ∃ base, d.StartsFrom t base ∧ d.override base = o := by
  unfold options
  cases hpath : d.optionsPath with
  | none =>
    constructor
    · rintro ⟨⟩
      exact ⟨.standard, .standard hpath, rfl⟩
    · rintro ⟨base, hbase, rfl⟩
      cases hbase with
      | standard => rfl
      | loaded hsome => simp [hpath] at hsome
  | some path =>
    simp only [bind_eq_ok_iff, mapError_eq_ok_iff, Options.load_eq_ok_iff]
    constructor
    · rintro ⟨base, hholds, ⟨⟩⟩
      exact ⟨base, .loaded hpath hholds, rfl⟩
    · rintro ⟨base, hbase, rfl⟩
      cases hbase with
      | standard hnone => simp [hpath] at hnone
      | loaded hsome hholds =>
        rw [hpath] at hsome
        cases hsome
        exact ⟨base, hholds, rfl⟩

theorem options_eq_error_iff {fault : Fault} :
    d.options t = .error fault ↔ ∃ path f, d.optionsPath = some path ∧
      Options.load t path = .error f ∧ fault = .optionsFailed path f := by
  unfold options
  cases hpath : d.optionsPath with
  | none => simp [bind, Except.bind, pure, Except.pure]
  | some path =>
    simp only [bind_eq_error_iff, mapError_eq_error_iff]
    constructor
    · rintro (⟨f, hload, rfl⟩ | ⟨_, -, ⟨⟩⟩)
      exact ⟨path, f, rfl, hload, rfl⟩
    · rintro ⟨_, f, ⟨⟩, hload, rfl⟩
      exact Or.inl ⟨f, hload, rfl⟩

/-! ## The report -/

theorem reportOf_eq (o : Options) (time : String) (i : Instance) (proposal : Proposal) :
    reportOf o time i proposal = .madeAt time i.identity (o.diff i proposal.changes) := rfl

theorem report_eq_ok_iff {r : Report} :
    (d.report t time).value = .ok r ↔ ∃ o i proposal, d.options t = .ok o ∧
      (Instance.load t d.instancePath).value = .ok i ∧
      (Proposal.load t d.proposalPath).value = .ok proposal ∧
      .madeAt time i.identity (o.diff i proposal.changes) = r := by
  unfold report
  cases ho : d.options t with
  | error fault => simp
  | ok o =>
    simp only [Noted.value_bind]
    cases hi : (Instance.load t d.instancePath).value with
    | error fault => simp
    | ok i =>
      simp only [Noted.value_bind]
      cases hp : (Proposal.load t d.proposalPath).value with
      | error fault => simp
      | ok proposal => simp [reportOf_eq]

theorem report_eq_error_iff {fault : Fault} :
    (d.report t time).value = .error fault ↔
      d.options t = .error fault ∨
      (∃ o f, d.options t = .ok o ∧ (Instance.load t d.instancePath).value = .error f ∧
        fault = .instanceFailed f) ∨
      (∃ o i f, d.options t = .ok o ∧ (Instance.load t d.instancePath).value = .ok i ∧
        (Proposal.load t d.proposalPath).value = .error f ∧ fault = .proposalFailed f) := by
  unfold report
  cases ho : d.options t with
  | error f => simp
  | ok o =>
    simp only [Noted.value_bind]
    cases hi : (Instance.load t d.instancePath).value with
    | error f => simp [eq_comm]
    | ok i =>
      simp only [Noted.value_bind]
      cases hp : (Proposal.load t d.proposalPath).value with
      | error f => simp [eq_comm]
      | ok proposal => simp

/-- The report is that of what the files hold, under the options of the command. -/
def Makes (d : Diff) (t : Tree) (time : String) (r : Report) : Prop :=
  ∃ base i proposal, d.StartsFrom t base ∧ t.HoldsInstance d.instancePath i ∧
    t.HoldsProposal d.proposalPath proposal ∧
    .madeAt time i.identity ((d.override base).diff i proposal.changes) = r

theorem report_eq_ok_iff_makes {r : Report} :
    (d.report t time).value = .ok r ↔ d.Makes t time r := by
  simp only [report_eq_ok_iff, options_eq_ok_iff, Instance.load_eq_ok_iff, Proposal.load_eq_ok_iff]
  constructor
  · rintro ⟨_, i, proposal, ⟨base, hbase, rfl⟩, hi, hp, hr⟩
    exact ⟨base, i, proposal, hbase, hi, hp, hr⟩
  · rintro ⟨base, i, proposal, hbase, hi, hp, hr⟩
    exact ⟨_, i, proposal, ⟨base, hbase, rfl⟩, hi, hp, hr⟩

/-! ## How the command ends -/

variable {r : Report} {printed : String} {color : Bool}

theorem tree_conclude : (d.conclude t printed color r).tree = t := by
  unfold conclude
  split
  · split <;> rfl
  · rfl

theorem ending_conclude : (d.conclude t printed color r).ending =
    if d.summary = true ∧ ¬ r.TitlesFit then .aborted else .done r := by
  unfold conclude
  by_cases hsummary : d.summary = true
  · by_cases hfits : r.TitlesFit
    · simp [hsummary, hfits, Report.summary?_eq_some color hfits]
    · simp [hsummary, hfits, Report.summary?_eq_none color hfits]
  · simp [hsummary]

theorem conclude_eq_done_iff {made : Report} :
    (d.conclude t printed color made).ending = .done r ↔
      made = r ∧ (d.summary = true → made.TitlesFit) := by
  rw [ending_conclude, ← not_and_not_right]
  split
  next hbroken => simp [hbroken]
  next hwhole => simp [hwhole]

theorem conclude_eq {text : String} (hsummary : d.summary = true)
    (htext : r.summary? color = some text) :
    d.conclude t printed color r = ⟨t, printed ++ text ++ "\n", .done r⟩ := by
  unfold conclude
  rw [if_pos hsummary, htext]

theorem conclude_eq_aborted (hsummary : d.summary = true) (hfits : ¬ r.TitlesFit) :
    d.conclude t printed color r = ⟨t, printed, .aborted⟩ := by
  unfold conclude
  rw [if_pos hsummary, Report.summary?_eq_none color hfits]

theorem deliver_eq_aborted_iff : (d.deliver t color r).ending = .aborted ↔
    d.summary = true ∧ ¬ r.TitlesFit ∧
      ∀ path, d.output = some path → (r.store t path).2 = .ok () := by
  unfold deliver
  cases houtput : d.output with
  | none => simp [ending_conclude]
  | some path =>
    cases hstore : r.store t path with
    | mk made result =>
      cases result with
      | error fault => simp [hstore]
      | ok => simp [hstore, ending_conclude]

theorem execute_eq_aborted_iff : (d.execute t time color).ending = .aborted ↔
    ∃ r, (d.report t time).value = .ok r ∧ d.summary = true ∧ ¬ r.TitlesFit ∧
      ∀ path, d.output = some path → (r.store t path).2 = .ok () := by
  unfold execute
  cases (d.report t time).value with
  | error fault => simp
  | ok made => simp [deliver_eq_aborted_iff]

theorem execute_eq_done_iff (h : d.output = none) : (d.execute t time color).ending = .done r ↔
    (d.report t time).value = .ok r ∧ (d.summary = true → r.TitlesFit) := by
  unfold execute deliver
  rw [h]
  cases (d.report t time).value with
  | error fault => simp
  | ok made =>
    rw [conclude_eq_done_iff, Except.ok.injEq]
    exact and_congr_right fun heq => by rw [heq]

theorem execute_eq_failed_iff {fault : Fault} (h : d.output = none) :
    (d.execute t time color).ending = .failed fault ↔ (d.report t time).value = .error fault := by
  unfold execute deliver
  rw [h]
  cases (d.report t time).value with
  | error other => simp
  | ok made =>
    simp only [ending_conclude, reduceCtorEq, iff_false]
    split <;> simp

/-- **What a command without an output file comes to.** It makes a report exactly when the options
it names can be loaded and are in order, and its files hold an instance and a proposal. The report
has the identity of the instance and the rows of the diff, under those options and with the text for
no value that the command gives. The command succeeds with it, unless it is to print a summary and a
title does not fit into a column: then it breaks off. Else the fault is that of the first bad input:
of the options before the instance, and of the instance before the proposal. -/
theorem execute_reports_diff (d : Diff) (t : Tree) (time : String) (color : Bool)
    (h : d.output = none) :
    (∀ r, (d.execute t time color).ending = .done r ↔
      d.Makes t time r ∧ (d.summary = true → r.TitlesFit)) ∧
    ((d.execute t time color).ending = .aborted ↔
      d.summary = true ∧ ∃ r, d.Makes t time r ∧ ¬ r.TitlesFit) ∧
    ∀ fault, (d.execute t time color).ending = .failed fault ↔
      (∃ path f, d.optionsPath = some path ∧ Options.load t path = .error f ∧
        fault = .optionsFailed path f) ∨
      (∃ base f, d.StartsFrom t base ∧ (Instance.load t d.instancePath).value = .error f ∧
        fault = .instanceFailed f) ∨
      (∃ base i f, d.StartsFrom t base ∧ t.HoldsInstance d.instancePath i ∧
        (Proposal.load t d.proposalPath).value = .error f ∧ fault = .proposalFailed f) := by
  refine ⟨fun r => ?_, ?_, fun fault => ?_⟩
  · rw [execute_eq_done_iff h, report_eq_ok_iff_makes]
  · simp only [execute_eq_aborted_iff, report_eq_ok_iff_makes, h, reduceCtorEq, false_implies,
      implies_true, and_true]
    constructor
    · rintro ⟨r, hmakes, hsummary, hfits⟩
      exact ⟨hsummary, r, hmakes, hfits⟩
    · rintro ⟨hsummary, r, hmakes, hfits⟩
      exact ⟨r, hmakes, hsummary, hfits⟩
  · simp only [execute_eq_failed_iff h, report_eq_error_iff, options_eq_error_iff,
      options_eq_ok_iff, Instance.load_eq_ok_iff]
    constructor
    · rintro (hoptions | ⟨_, f, ⟨base, hbase, rfl⟩, hi⟩ | ⟨_, i, f, ⟨base, hbase, rfl⟩, hp⟩)
      · exact Or.inl hoptions
      · exact Or.inr (Or.inl ⟨base, f, hbase, hi⟩)
      · exact Or.inr (Or.inr ⟨base, i, f, hbase, hp⟩)
    · rintro (hoptions | ⟨base, f, hbase, hi⟩ | ⟨base, i, f, hbase, hp⟩)
      · exact Or.inl hoptions
      · exact Or.inr (Or.inl ⟨_, f, ⟨base, hbase, rfl⟩, hi⟩)
      · exact Or.inr (Or.inr ⟨_, i, f, ⟨base, hbase, rfl⟩, hp⟩)

/-! ### A checked box -/

/-- An instance with one attribute of this title, which is set. -/
def sampleInstance (title : String) : Instance :=
  ⟨"Risk", 5, [⟨1, title, .checkbox⟩], [⟨1, some (.boolean true)⟩]⟩

/-- Two files: the instance, and a proposal that takes its value away. -/
def sampleTree (title : String) : Tree :=
  ⟨[(["i.json"], .file (Utf8.encode (sampleInstance title).written.pretty)),
    (["p.json"], .file (Utf8.encode
      (Written.record [("custom_attribute_values", .record [("1", .null)])]).pretty))], []⟩

theorem holdsInstance_sampleTree (title : String) :
    (sampleTree title).HoldsInstance "i.json" (sampleInstance title) := by
  have hexact : (sampleInstance title).IsExact := by
    refine ⟨?_, ?_⟩
    · simp [sampleInstance, Kind.IsNamed]
    · simp [sampleInstance, CurrentValue.IsExact, Value.IsExact]
  refine ⟨_, ⟨["i.json"], rfl⟩, ?_⟩
  rw [Written.ofBytes_pretty]
  exact Document.whole_eq_ok_iff.mpr ⟨Instance.read_written hexact (by decide), rfl⟩

theorem holdsProposal_sampleTree (title : String) :
    (sampleTree title).HoldsProposal "p.json" ⟨.ofEntries [("1", none)]⟩ := by
  refine ⟨_, ⟨["p.json"], rfl⟩, ?_⟩
  rw [Written.ofBytes_pretty]
  rfl

/-- The report on the two files, with an empty text for no value. -/
def sampleReport (title : String) : Report :=
  .madeAt "now" ⟨"Risk", 5⟩ [⟨title, ["✓"], [""]⟩]

theorem sampleReport_eq (title : String) : .madeAt "now" (sampleInstance title).identity
    ((⟨"", "%m/%d/%Y"⟩ : Options).diff (sampleInstance title) (.ofEntries [("1", none)])) =
      sampleReport title := rfl

theorem not_titlesFit_sampleReport : ¬ (sampleReport Report.longTitle).TitlesFit :=
  Report.not_titlesFit_overlong

/-- A command for the two files that prints the summary. -/
def sample : Diff := ⟨"i.json", "p.json", none, true, some "", none⟩

theorem execute_reports_cleared_value :
    (sample.execute (sampleTree "Reviewed") "now" false).ending =
      .done (sampleReport "Reviewed") := by
  refine ((execute_reports_diff sample (sampleTree "Reviewed") "now" false rfl).1 _).mpr ⟨?_, ?_⟩
  · exact ⟨.standard, _, _, .standard rfl, holdsInstance_sampleTree _, holdsProposal_sampleTree _,
      sampleReport_eq _⟩
  · exact fun _ => by decide

/-- With a title that is too long the files are as good, but the command does not succeed. -/
theorem execute_aborts_on_long_title :
    sample.StartsFrom (sampleTree Report.longTitle) .standard ∧
      (sampleTree Report.longTitle).HoldsInstance "i.json" (sampleInstance Report.longTitle) ∧
      (sampleTree Report.longTitle).HoldsProposal "p.json" ⟨.ofEntries [("1", none)]⟩ ∧
      (sample.execute (sampleTree Report.longTitle) "now" false).ending = .aborted := by
  refine ⟨.standard rfl, holdsInstance_sampleTree _, holdsProposal_sampleTree _, ?_⟩
  refine execute_eq_aborted_iff.mpr ⟨sampleReport Report.longTitle, ?_, rfl,
    not_titlesFit_sampleReport, by rintro path ⟨⟩⟩
  exact report_eq_ok_iff_makes.mpr ⟨.standard, _, _, .standard rfl, holdsInstance_sampleTree _,
    holdsProposal_sampleTree _, sampleReport_eq _⟩

end AttributeReview.Command.Diff
