import RexxEditing.Toml.Item

/-! # Tables that stand for dates

A table may stand for a date or a time. Its first key says so, and the text under that key is the
date or the time. The other entries of such a table do not count.
-/

namespace RexxEditing.Toml

/-- The key of a date or a time in a table that stands for it. -/
def dateTimeKey : Text := "$__toml_private_datetime".toList

namespace Entries

/-- Whether a table with these entries stands for a date or a time. -/
def standsForDateTime (entries : Entries) : Bool :=
  (entries.head?.map (·.1)) == some dateTimeKey

/-- The date or the time that a table stands for, if the text under its first key is one. -/
def dateTime? : Entries → Option Item
  | (_, .text t) :: _ => (dateTimeOf? t).map .dateTime
  | _ => none

end Entries

mutual

/-- The item with a date or a time in the place of each table that stands for one. -/
def Item.withDateTimes? : Item → Option Item
  | .array items => (.array ·) <$> withDateTimesInAll? items
  | .inlineTable implicit dotted entries =>
    if Entries.standsForDateTime entries then Entries.dateTime? entries
    else (.inlineTable implicit dotted ·) <$> Entries.withDateTimes? entries
  | .table implicit dotted entries =>
    if Entries.standsForDateTime entries then Entries.dateTime? entries
    else (.table implicit dotted ·) <$> Entries.withDateTimes? entries
  | .tables elements => (.array ·) <$> withDateTimesInTables? elements
  | i => some i

/-- The items with dates and times in their places. -/
def withDateTimesInAll? : List Item → Option (List Item)
  | [] => some []
  | i :: rest => do return (← i.withDateTimes?) :: (← withDateTimesInAll? rest)

/-- The entries with dates and times in their places. -/
def Entries.withDateTimes? : List (Text × Item) → Option (List (Text × Item))
  | [] => some []
  | (name, i) :: rest => do return (name, ← i.withDateTimes?) :: (← Entries.withDateTimes? rest)

/-- The tables of one name with dates and times in their places. -/
def withDateTimesInTables? : List (List (Text × Item)) → Option (List Item)
  | [] => some []
  | entries :: rest => do
    let first ←
      if Entries.standsForDateTime entries then Entries.dateTime? entries
      else (.table false false ·) <$> Entries.withDateTimes? entries
    return first :: (← withDateTimesInTables? rest)

end

end RexxEditing.Toml
