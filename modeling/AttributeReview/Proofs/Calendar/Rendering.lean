import AttributeReview.Calendar.Rendering

/-!
# Which patterns have a text

A date gives a text for an item that is about the date itself and none for one that needs a time of
day or an offset. It does not matter which date it is.
-/

namespace AttributeReview.Calendar

def Field.ofDate : Field → Bool
  | .hour | .halfDayHour | .minute | .second | .nanosecond | .timestamp => false
  | _ => true

def Item.ofDate : Item → Bool
  | .number field _ => field.ofDate
  | .fraction | .clock => false
  | _ => true

theorem fieldText_isSome (d : Date) (padding : Padding) (field : Field) :
    (fieldText d padding field).isSome = field.ofDate := by
  cases field <;> rfl

theorem itemText_isSome (d : Date) (item : Item) : (itemText d item).isSome = item.ofDate := by
  cases item with
  | number field padding => exact fieldText_isSome d padding field
  | _ => rfl

theorem render_cons (d : Date) (item : Item) (rest : List Item) :
    (render d (item :: rest)).isSome = ((itemText d item).isSome && (render d rest).isSome) := by
  rw [render]
  cases itemText d item with
  | none => rfl
  | some text =>
    cases render d rest with
    | none => rfl
    | some after => rfl

theorem render_isSome (d : Date) (items : List Item) :
    (render d items).isSome = items.all Item.ofDate := by
  induction items with
  | nil => rfl
  | cons item rest ih => rw [render_cons, itemText_isSome, ih, List.all_cons]

/-! ## Texts in a format -/

/-- The text of a date in a format, if the format spells a pattern and this is one of dates. -/
def textIn? (format : String) (d : Date) : Option String := do
  let items ← Pattern.ofChars? format.toList
  let text ← render d items
  return String.ofList text

theorem textIn?_of_pattern {format : String} {items : List Item}
    (h : Pattern.ofChars? format.toList = some items) (d : Date) :
    textIn? format d = (render d items).map String.ofList := by
  unfold textIn?
  rw [h, Option.map_eq_bind]
  rfl

theorem textIn?_isSome (format : String) (d : Date) :
    (textIn? format d).isSome = (Pattern.ofChars? format.toList).any (·.all Item.ofDate) := by
  cases hpattern : Pattern.ofChars? format.toList with
  | none =>
    unfold textIn?
    rw [hpattern]
    rfl
  | some items =>
    rw [textIn?_of_pattern hpattern, Option.isSome_map, render_isSome, Option.any_some]

end AttributeReview.Calendar
