import AttributeReview.Proofs.Json.Whole
import AttributeReview.Review.Storage

/-!
# What is read from files

A path gives an instance, a proposal or options when it leads to a file and that is what the bytes
of the file spell.
-/

namespace AttributeReview

open Files (Path Tree)
open Json (Document Node)

/-- The path leads to a file with these bytes. -/
def Files.Tree.Holds (t : Tree) (p : Path) (content : List UInt8) : Prop :=
  ∃ location, t.find p = .ok (location, .file content)

variable {t : Tree} {p : Path}

theorem Files.Tree.document_eq_ok_iff {document : Document} :
    t.document p = .ok document ↔ ∃ content, t.Holds p content ∧ .ofBytes content = document := by
  unfold Tree.document Tree.Holds
  cases hfind : t.find p with
  | error fault => simp
  | ok found =>
    obtain ⟨location, entry⟩ := found
    cases entry with
    | directory => simp
    | file content => simp

section

variable {α : Type} {read : Nat → Node → Noted (Except Json.Fault α)} {loaded : α → Notice}

theorem Files.Tree.read_value_of_holds {content : List UInt8} (h : t.Holds p content) :
    (t.read p read loaded).value =
      (Document.decode (fun node => (read 0 node).value) content).mapError .malformed := by
  unfold Tree.read Document.decode
  rw [document_eq_ok_iff.mpr ⟨content, h, rfl⟩]
  simp only [Noted.value_bind, finished]
  cases (Document.ofBytes content).whole (read 0 (Document.ofBytes content).root).value <;> rfl

theorem Files.Tree.read_value_eq_ok_iff {a : α} :
    (t.read p read loaded).value = .ok a ↔ ∃ content, t.Holds p content ∧
      (Document.ofBytes content).whole (read 0 (Document.ofBytes content).root).value = .ok a := by
  constructor
  · intro h
    cases hdocument : t.document p with
    | error fault =>
      unfold Tree.read at h
      rw [hdocument] at h
      cases h
    | ok document =>
      obtain ⟨content, hholds, -⟩ := document_eq_ok_iff.mp hdocument
      rw [read_value_of_holds hholds] at h
      exact ⟨content, hholds, mapError_eq_ok_iff.mp h⟩
  · rintro ⟨content, hholds, hread⟩
    rw [read_value_of_holds hholds]
    exact mapError_eq_ok_iff.mpr hread

end

def Files.Tree.HoldsInstance (t : Tree) (p : Path) (i : Instance) : Prop :=
  ∃ content, t.Holds p content ∧ (Document.ofBytes content).read Instance.read = .ok i

theorem Instance.load_eq_ok_iff {i : Instance} : (load t p).value = .ok i ↔ t.HoldsInstance p i :=
  Tree.read_value_eq_ok_iff

def Proposal.ofDocument (d : Document) : Except Json.Fault Proposal :=
  d.whole (read 0 d.root).value

def Files.Tree.HoldsProposal (t : Tree) (p : Path) (proposal : Proposal) : Prop :=
  ∃ content, t.Holds p content ∧ Proposal.ofDocument (Document.ofBytes content) = .ok proposal

theorem Proposal.load_eq_ok_iff {proposal : Proposal} :
    (load t p).value = .ok proposal ↔ t.HoldsProposal p proposal :=
  Tree.read_value_eq_ok_iff

namespace Options

/-- A table gives a text: that under the key, or the standard one where the key is missing. -/
def Gives (entries : Toml.Entries) (key standard s : String) : Prop :=
  (entries.lookup key = none ∧ standard = s) ∨ entries.lookup key = some (.value (.text s))

theorem entry_eq_ok_iff {entries : Toml.Entries} {key standard s : String} :
    entry entries key standard = .ok s ↔ Gives entries key standard s := by
  unfold entry Gives
  split
  next hnone => simp [hnone]
  next text htext => simp [htext]
  next item hother hitem =>
    have hne : item ≠ .value (.text s) := hother s
    simp [hitem, hne]

/-- The text is that of a table, whose texts for the two keys are in order. -/
def Spells (text : String) (o : Options) : Prop :=
  ∃ entries, Toml.table? text = some entries ∧
    Gives entries "empty_value" standard.emptyValue o.emptyValue ∧
    Gives entries "date_format" standard.dateFormat o.dateFormat ∧ o.validate = .ok ()

theorem ofToml_eq_ok_iff {text : String} {o : Options} : ofToml text = .ok o ↔ Spells text o := by
  unfold ofToml Spells
  cases Toml.table? text with
  | none => simp
  | some entries =>
    simp only [bind_eq_ok_iff, entry_eq_ok_iff, mapError_eq_ok_iff, Option.some.injEq,
      exists_eq_left']
    constructor
    · rintro ⟨emptyValue, hempty, dateFormat, hformat, _, hvalid, ⟨⟩⟩
      exact ⟨hempty, hformat, hvalid⟩
    · rintro ⟨hempty, hformat, hvalid⟩
      exact ⟨_, hempty, _, hformat, (), hvalid, rfl⟩

end Options

/-- The path leads to a file whose bytes are a text that spells these options. -/
def Files.Tree.HoldsOptions (t : Tree) (p : Path) (o : Options) : Prop :=
  ∃ content text, t.Holds p content ∧ Utf8.decode? content = some text ∧ Options.Spells text o

theorem Options.load_eq_ok_iff {o : Options} : load t p = .ok o ↔ t.HoldsOptions p o := by
  unfold load Tree.HoldsOptions Tree.Holds
  cases t.find p with
  | error fault => simp
  | ok found =>
    obtain ⟨location, entry⟩ := found
    cases entry with
    | directory => simp
    | file content =>
      cases hdecode : Utf8.decode? content with
      | none => simp [hdecode]
      | some text => simp [hdecode, ofToml_eq_ok_iff]

end AttributeReview
