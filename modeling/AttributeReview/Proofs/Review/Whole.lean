import AttributeReview.Proofs.Review.Report
import AttributeReview.Proofs.Review.Storage

/-!
# Files that are cut off or carried on

A report, an instance or a proposal is read from the whole of a file. Cut off before its last
bracket, or carried on with anything but blanks, the file is refused.
-/

namespace AttributeReview

open Files (Path Tree)
open Json (Document Node Token)

/-! ## Readers of records -/

theorem Report.readsClosed : Document.ReadsClosed (read 0) := by
  intro node r h
  unfold read at h
  exact Json.Layout.closed_of_bind h

theorem Instance.readsClosed : Document.ReadsClosed (read 0) := by
  intro node i h
  unfold read at h
  exact Json.Layout.closed_of_bind h

theorem Proposal.readsClosed : Document.ReadsClosed fun node => (read 0 node).value := by
  intro node proposal h
  obtain ⟨form, hform, -⟩ := map_eq_ok_iff.mp h
  exact Json.Layout.closed_of_parts hform

/-! ## Files -/

variable {α : Type} {load : Tree → Path → Except InputFault α}

/-- What comes of loading a file with these bytes, wherever it is. -/
def Gives (load : Tree → Path → Except InputFault α) (content : List UInt8)
    (result : Except InputFault α) : Prop :=
  ∀ t p, Tree.Holds t p content → load t p = result

/-- A file with these bytes is opened and found to be malformed. -/
def Refuses (load : Tree → Path → Except InputFault α) (content : List UInt8) : Prop :=
  ∃ fault, Gives load content (.error (.malformed fault))

/-- What is loaded from a file is loaded from the whole of it: the file ends with a closing bracket
and perhaps some blanks, and is refused where it ends before that bracket. Blanks may follow it, and
nothing else. -/
structure TakesWhole (load : Tree → Path → Except InputFault α) : Prop where
  refuses_cut : ∀ {t p content a}, Tree.Holds t p content → load t p = .ok a →
    ∃ body bracket blanks, content = body ++ bracket :: blanks ∧
      Token.isClosing bracket = true ∧ (∀ b ∈ blanks, Token.isBlank b = true) ∧
      ∀ cut, cut <+: body → Refuses load cut
  refuses_more : ∀ {t p content a}, Tree.Holds t p content → load t p = .ok a →
    ∀ blanks b more, (∀ x ∈ blanks, Token.isBlank x = true) → Token.isBlank b = false →
      Refuses load (content ++ blanks ++ b :: more)
  takes_blanks : ∀ {t p content a}, Tree.Holds t p content → load t p = .ok a →
    ∀ blanks, (∀ x ∈ blanks, Token.isBlank x = true) → Gives load (content ++ blanks) (.ok a)

/-- Files are loaded by decoding their bytes. -/
def Decodes (load : Tree → Path → Except InputFault α) (f : Node → Except Json.Fault α) : Prop :=
  ∀ content, Gives load content ((Document.decode f content).mapError .malformed)

variable {f : Node → Except Json.Fault α}

theorem Decodes.refuses (h : Decodes load f) {content : List UInt8} {fault : Json.Fault}
    (hfault : Document.decode f content = .error fault) : Refuses load content := by
  refine ⟨fault, fun t p hholds => ?_⟩
  rw [h content t p hholds, hfault]
  rfl

theorem Decodes.eq_ok (h : Decodes load f) {t : Tree} {p : Path} {content : List UInt8} {a : α}
    (hholds : t.Holds p content) (hload : load t p = .ok a) :
    Document.decode f content = .ok a := by
  rw [h content t p hholds] at hload
  exact mapError_eq_ok_iff.mp hload

theorem Decodes.refuses_cut (h : Decodes load f) (hf : Document.ReadsClosed f)
    {cut rest : List UInt8} {a : α} (hwhole : Document.decode f (cut ++ rest) = .ok a)
    (hrest : ∃ b ∈ rest, Token.isBlank b = false) : Refuses load cut := by
  obtain ⟨fault, hfault⟩ := Document.decode_cut hf hwhole hrest
  exact h.refuses hfault

theorem Decodes.takesWhole (h : Decodes load f) (hf : Document.ReadsClosed f) :
    TakesWhole load := by
  constructor
  · intro t p content a hholds hload
    have hdecode := h.eq_ok hholds hload
    obtain ⟨body, bracket, blanks, rfl, hbracket, hblanks⟩ := Document.decode_last hf hdecode
    refine ⟨body, bracket, blanks, rfl, hbracket, hblanks, ?_⟩
    rintro cut ⟨missing, rfl⟩
    rw [List.append_assoc] at hdecode
    refine h.refuses_cut hf hdecode ⟨bracket, ?_, Token.isBlank_of_isClosing hbracket⟩
    simp
  · intro t p content a hholds hload blanks b more hblanks hb
    have hdecode := Document.decode_blanks hf (h.eq_ok hholds hload) hblanks
    exact h.refuses (Document.decode_more hf hdecode ⟨b, List.mem_cons_self, hb⟩)
  · intro t p content a hholds hload blanks hblanks u q hmore
    rw [h _ u q hmore, Document.decode_blanks hf (h.eq_ok hholds hload) hblanks]
    rfl

theorem Report.load_decodes : Decodes (fun t p => (Report.load t p).value) (Report.read 0) :=
  fun _ _ _ hholds => Tree.read_value_of_holds hholds

theorem Instance.load_decodes :
    Decodes (fun t p => (Instance.load t p).value) (Instance.read 0) :=
  fun _ _ _ hholds => Tree.read_value_of_holds hholds

theorem Proposal.load_decodes :
    Decodes (fun t p => (Proposal.load t p).value) fun node => (Proposal.read 0 node).value :=
  fun _ _ _ hholds => Tree.read_value_of_holds hholds

/-! ## Reports that are written in part -/

theorem Report.document_ends (r : Report) :
    (Utf8.encode r.document).getLast? = some (Json.ascii '\x7d') := by
  rw [document, Json.Written.pretty, Utf8.encode_join, written, Json.Written.pieces,
    List.flatMap_append]
  exact List.getLast?_concat

theorem Report.refuses_part (r : Report) {cut : List UInt8}
    (hcut : cut <+: Utf8.encode r.document) (hpart : cut ≠ Utf8.encode r.document) :
    Refuses (fun t p => (Report.load t p).value) cut := by
  obtain ⟨rest, hrest⟩ := hcut
  have hne : rest ≠ [] := by
    rintro rfl
    exact hpart ((List.append_nil cut).symm.trans hrest)
  have hlast : rest.getLast? = some (Json.ascii '\x7d') := by
    have hend := r.document_ends
    rwa [← hrest, List.getLast?_append, Option.or_of_isSome (List.getLast?_isSome.mpr hne)] at hend
  have hdecode : Document.decode (read 0) (cut ++ rest) = .ok r := by
    rw [hrest]
    exact r.read_document
  exact load_decodes.refuses_cut readsClosed hdecode ⟨_, List.mem_of_getLast? hlast, rfl⟩

/-- **Whole files.** A report, an instance and a proposal are each read from a whole file, and no
report that has been written in part is read. -/
theorem files_taken_whole :
    TakesWhole (fun t p => (Report.load t p).value) ∧
      TakesWhole (fun t p => (Instance.load t p).value) ∧
      TakesWhole (fun t p => (Proposal.load t p).value) ∧
      ∀ (r : Report) (cut : List UInt8), cut <+: Utf8.encode r.document →
        cut ≠ Utf8.encode r.document → Refuses (fun t p => (Report.load t p).value) cut :=
  ⟨Report.load_decodes.takesWhole Report.readsClosed,
    Instance.load_decodes.takesWhole Instance.readsClosed,
    Proposal.load_decodes.takesWhole Proposal.readsClosed,
    fun r _ hcut hpart => r.refuses_part hcut hpart⟩

end AttributeReview
