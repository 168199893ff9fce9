import AttributeReview.Instance
import AttributeReview.Proofs.Attribute.Value

/-!
# Instances that are written and read

An instance is read back from what is written, with its definitions and values in their order.
-/

namespace AttributeReview

open Attribute (Kind Value)
open Json (Layout Node Written depthLimit)

variable {depth : Nat}

/-! ## Definitions -/

namespace Definition

def entries (d : Definition) : List (Layout.Entry Part) := [
  ⟨"id", .number (.natural d.id), .id d.id⟩,
  ⟨"title", .text d.title, .title d.title⟩,
  ⟨"attribute_type", d.kind.written, .kind d.kind⟩]

theorem reads_entries {d : Definition} (h : d.kind.IsNamed) :
    ∀ e ∈ d.entries, e.Reads layout depth := by
  intro e he
  simp only [entries, List.mem_cons, List.not_mem_nil, or_false] at he
  rcases he with rfl | rfl | rfl
  · exact Layout.Entry.reads_of rfl (Written.read_natural _)
  · exact Layout.Entry.reads_of rfl (Written.read_text _)
  · exact Layout.Entry.reads_of rfl (Kind.read_written h)

theorem read_written {d : Definition} (h : d.kind.IsNamed) (hdepth : depth < depthLimit) :
    read depth d.written.node = .ok d := by
  have hparts := Layout.parts_record hdepth (reads_entries h) (by simp [entries])
  rw [read, show d.written = .record (d.entries.map fun e => (e.name, e.value)) from rfl, hparts]
  rfl

end Definition

/-! ## Current values -/

namespace CurrentValue

/-- The value is read back exactly, if there is one. -/
def IsExact (v : CurrentValue) : Prop := ∀ value, v.value = some value → value.IsExact

def entries (v : CurrentValue) : List (Layout.Entry Part) := [
  ⟨"custom_attribute_id", .number (.natural v.id), .id v.id⟩,
  ⟨"attribute_value", Value.writtenOption v.value, .value v.value⟩]

theorem reads_entries {v : CurrentValue} (h : v.IsExact) :
    ∀ e ∈ v.entries, e.Reads layout depth := by
  intro e he
  simp only [entries, List.mem_cons, List.not_mem_nil, or_false] at he
  rcases he with rfl | rfl
  · exact Layout.Entry.reads_of rfl (Written.read_natural _)
  · exact Layout.Entry.reads_of rfl (Value.read_writtenOption h)

theorem read_written {v : CurrentValue} (h : v.IsExact) (hdepth : depth < depthLimit) :
    read depth v.written.node = .ok v := by
  have hparts := Layout.parts_record hdepth (reads_entries h) (by simp [entries])
  rw [read, show v.written = .record (v.entries.map fun e => (e.name, e.value)) from rfl, hparts]
  rfl

end CurrentValue

/-! ## Instances -/

namespace Instance

/-- The kinds are ones that names stand for, and the values are read back exactly. -/
structure IsExact (i : Instance) : Prop where
  kinds : ∀ d ∈ i.definitions, d.kind.IsNamed
  values : ∀ v ∈ i.values, v.IsExact

def entries (i : Instance) : List (Layout.Entry Part) := [
  ⟨"type", .text i.type, .type i.type⟩,
  ⟨"id", .number (.natural i.id), .id i.id⟩,
  ⟨"custom_attribute_definitions", .list (i.definitions.map Definition.written),
    .definitions i.definitions⟩,
  ⟨"custom_attribute_values", .list (i.values.map CurrentValue.written), .values i.values⟩]

theorem reads_entries {i : Instance} (h : i.IsExact) (hdepth : depth + 1 < depthLimit) :
    ∀ e ∈ i.entries, e.Reads layout depth := by
  have hdefinitions : Node.items Definition.read depth
      (Written.list (i.definitions.map Definition.written)).node = .ok i.definitions :=
    Written.read_list (Nat.lt_of_succ_lt hdepth)
      fun d hd => Definition.read_written (h.kinds d hd) hdepth
  have hvalues : Node.items CurrentValue.read depth
      (Written.list (i.values.map CurrentValue.written)).node = .ok i.values :=
    Written.read_list (Nat.lt_of_succ_lt hdepth)
      fun v hv => CurrentValue.read_written (h.values v hv) hdepth
  intro e he
  simp only [entries, List.mem_cons, List.not_mem_nil, or_false] at he
  rcases he with rfl | rfl | rfl | rfl
  · exact Layout.Entry.reads_of rfl (Written.read_text _)
  · exact Layout.Entry.reads_of rfl (Written.read_natural _)
  · exact Layout.Entry.reads_of rfl hdefinitions
  · exact Layout.Entry.reads_of rfl hvalues

theorem read_written {i : Instance} (h : i.IsExact) (hdepth : depth + 2 < depthLimit) :
    read depth i.written.node = .ok i := by
  have hparts := Layout.parts_record (by omega) (reads_entries h hdepth) (by simp [entries])
  rw [read, show i.written = .record (i.entries.map fun e => (e.name, e.value)) from rfl, hparts]
  rfl

end Instance

end AttributeReview
