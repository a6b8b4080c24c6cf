import RexxEditing.Settings.Load

/-! # Which setting wins

A file of the configuration that says nothing but the offset and the extensions makes a choice, and
so does a setting. Each field is what the last of them chose that chose it at all.

* `addDocument?_root`, `addLayers_cons`: what one file does to the two fields.
* `exists_addLayers`, `exists_setAll?`: what all files do, and then all settings.
* `load_eq_ok_iff`: the configuration that is loaded.
* `addLayers_swap`: files with different fields may be exchanged.
-/

namespace RexxEditing.Settings

/-! ## Choices -/

/-- What is said about the fields of a configuration. -/
structure Choice where
  offset? : Option Integer
  extensions? : Option (List String)
  deriving DecidableEq, Repr

namespace Choice

/-- Both choices, where the first of them wins. -/
def onto (later earlier : Choice) : Choice :=
  ⟨later.offset?.or earlier.offset?, later.extensions?.or earlier.extensions?⟩

/-- The texts in a list of items, if there are no other items in it. -/
def texts? : List Toml.Item → Option (List String)
  | [] => some []
  | .text t :: rest => (texts? rest).map (String.ofList t :: ·)
  | _ => none

/-- The choice of the field of a section, if the field is of its proper type. -/
def ofField? : Section → Toml.Item → Option Choice
  | .indentation, .integer n => some ⟨some ⟨.signed64, n⟩, none⟩
  | .files, .array items => (texts? items).map fun names => ⟨none, some names⟩
  | _, _ => none

/-- The choice of the fields of a section, of which there is one. -/
def ofFields? (s : Section) : Toml.Entries → Option Choice
  | [] => some ⟨none, none⟩
  | [(name, field)] => if name = s.field.toList then ofField? s field else none
  | _ => none

/-- The entries of a table. -/
def tableEntries? : Toml.Item → Option Toml.Entries
  | .table _ _ entries => some entries
  | .inlineTable _ _ entries => some entries
  | _ => none

/-- The choice of a document, if it has tables for the sections only. -/
def ofEntries? : Toml.Entries → Option Choice
  | [] => some ⟨none, none⟩
  | (name, item) :: rest => do
    let s ← [Section.indentation, Section.files].find? fun s => s.key.toList == name
    let earlier ← ofFields? s (← tableEntries? item)
    let later ← ofEntries? rest
    return later.onto earlier

/-- The value of a field that was chosen, from the given file. -/
def value? (origin : Option String) (c : Choice) : Section → Option Value
  | .indentation => c.offset?.map fun n => .mk origin (.integer n)
  | .files => c.extensions?.map fun names =>
    .mk origin (.list (names.map fun name => .mk origin (.text name)))

/-- What was chosen last, if anything was. -/
def latest {α : Type} (field : Choice → Option α) (choices : List Choice) : Option α :=
  (choices.filterMap field).getLast?

theorem latest_cons {α : Type} (field : Choice → Option α) (c : Choice) (choices : List Choice) :
    latest field (c :: choices) = (latest field choices).or (field c) := by
  cases hField : field c with
  | none => rw [latest, List.filterMap_cons_none hField, Option.or_none, latest]
  | some a =>
    rw [latest, List.filterMap_cons_some hField, List.getLast?_cons, ← latest]
    cases latest field choices <;> rfl

/-- A choice does not count if the same field is chosen again. -/
theorem latest_cons_of_mem {α : Type} {field : Choice → Option α} {c c' : Choice}
    {choices : List Choice} (h : c' ∈ choices)
    (hField : (field c).isSome = true → (field c').isSome = true) :
    latest field (c :: choices) = latest field choices := by
  rw [latest_cons]
  cases hc : field c with
  | none => exact Option.or_none
  | some a =>
    obtain ⟨a', ha'⟩ := Option.isSome_iff_exists.1 (hField (by rw [hc]; rfl))
    have hMem : a' ∈ choices.filterMap field := List.mem_filterMap.2 ⟨c', h, ha'⟩
    exact Option.or_of_isSome (List.getLast?_isSome.2 (List.ne_nil_of_mem hMem))

end Choice

/-- The choice of a layer: of its document, or none if it may be missing and is. -/
def Layer.choice? (disk : Files.Disk) (l : Layer) : Option Choice :=
  match l.find? disk with
  | none => if l.isOptional then some ⟨none, none⟩ else none
  | some (_, .binary) => none
  | some (_, .text text) => (Toml.parse? text).bind Choice.ofEntries?

/-! ## The two fields -/

/-- The values of the fields. -/
abbrev Held := Section → Value

namespace Held

/-- The value with a table for each section. -/
def root (h : Held) : Value :=
  .ofData (.table [
    (Section.indentation.key, .ofData (.table [(Section.indentation.field, h .indentation)])),
    (Section.files.key, .ofData (.table [(Section.files.field, h .files)]))])

/-- The values with another one for a field. -/
def put (h : Held) (s : Section) (v : Value) : Held := fun s' => if s' = s then v else h s'

/-- The values after a choice. -/
def take (h : Held) (origin : Option String) (c : Choice) : Held :=
  fun s => (c.value? origin s).getD (h s)

theorem get?_root (h : Held) (s : Section) :
    h.root.get? s.key = some (.ofData (.table [(s.field, h s)])) := by
  cases s <;> rfl

theorem put_root (h : Held) (s : Section) (v : Value) :
    h.root.put s.key (.ofData (.table [(s.field, v)])) = (h.put s v).root := by
  cases s <;> rfl

theorem put_self (h : Held) (s : Section) : h.put s (h s) = h := by
  funext s'
  rw [put]
  split
  · rename_i hs
    rw [hs]
  · rfl

theorem take_onto (h : Held) (origin : Option String) (later earlier : Choice) :
    h.take origin (later.onto earlier) = (h.take origin earlier).take origin later := by
  funext s
  obtain ⟨offset?, extensions?⟩ := later
  cases s with
  | indentation => cases offset? <;> rfl
  | files => cases extensions? <;> rfl

theorem take_none (h : Held) (origin : Option String) : h.take origin ⟨none, none⟩ = h := by
  funext s
  cases s <;> rfl

end Held

/-! ## Documents -/

theorem ofItems_of_texts? (origin : Option String) {items : List Toml.Item} {names : List String}
    (h : Choice.texts? items = some names) :
    Value.ofItems origin items = names.map fun name => .mk origin (.text name) := by
  induction items generalizing names with
  | nil =>
    cases h
    rfl
  | cons item rest ih =>
    cases item with
    | text t =>
      obtain ⟨others, hRest, rfl⟩ := Option.map_eq_some_iff.1 h
      simp only [Value.ofItems, Value.ofItem, ih hRest, List.map_cons]
    | _ => cases h

theorem ofItem_of_tableEntries? (origin : Option String) {item : Toml.Item} {fields : Toml.Entries}
    (h : Choice.tableEntries? item = some fields) :
    Value.ofItem origin item = .mk origin (.table (Value.ofEntries origin fields)) := by
  cases item with
  | table _ _ entries | inlineTable _ _ entries =>
    cases h
    rw [Value.ofItem]
  | _ => cases h

section Field

variable {s : Section} {field : Toml.Item} {c : Choice} (hField : Choice.ofField? s field = some c)
  (origin : Option String)
include hField

theorem Held.take_ofField? (h : Held) : h.take origin c = h.put s (.ofItem origin field) := by
  funext s'
  cases s with
  | indentation =>
    cases field with
    | integer n =>
      cases hField
      cases s' <;> simp [take, put, Choice.value?, Value.ofItem]
    | _ => cases hField
  | files =>
    cases field with
    | array items =>
      obtain ⟨names, hNames, rfl⟩ := Option.map_eq_some_iff.1 hField
      cases s' <;> simp [take, put, Choice.value?, Value.ofItem, ofItems_of_texts? origin hNames]
    | _ => cases hField

/-- The value of a field is no table, so it takes the place of what was there. -/
theorem set_ofField? (root : Value) (key : String) :
    root.set key (.ofItem origin field) =
      root.put (Value.normalizeKey key) (.ofItem origin field) := by
  cases field with
  | table _ _ _ | inlineTable _ _ _ => cases s <;> cases hField
  | _ => simp only [Value.ofItem, Value.set]

end Field

theorem normalizeKey_key (s : Section) : Value.normalizeKey s.key = s.key := by
  cases s <;> decide +kernel

theorem normalizeKey_field (s : Section) : Value.normalizeKey s.field = s.field := by
  cases s <;> decide +kernel

theorem parse?_key (s : Section) : KeyPath.parse? s.key = some [.key s.key] := by
  cases s <;> decide +kernel

theorem put_field (s : Section) (old new : Value) :
    (Value.ofData (.table [(s.field, old)])).put s.field new =
      .ofData (.table [(s.field, new)]) := by
  simp [Value.put, Value.ofData, Value.putEntry]

/-- A table for a section changes its field only. -/
theorem set_section (h : Held) (origin : Option String) {s : Section} {fields : Toml.Entries}
    {c : Choice} (hFields : Choice.ofFields? s fields = some c) :
    h.root.set s.key (.mk origin (.table (Value.ofEntries origin fields))) =
      (h.take origin c).root := by
  rw [Value.set, normalizeKey_key, h.get?_root, Option.getD_some]
  match fields, hFields with
  | [], hFields =>
    cases hFields
    rw [Value.ofEntries, Value.setAll, h.put_root, h.put_self, h.take_none]
  | [(name, field)], hFields =>
    rw [Choice.ofFields?] at hFields
    split at hFields
    · rename_i hName
      rw [Value.ofEntries, Value.ofEntries, Value.setAll, Value.setAll, hName, String.ofList_toList,
        set_ofField? hFields, normalizeKey_field, put_field, h.put_root,
        h.take_ofField? hFields]
    · cases hFields

theorem addDocument?_cons (root : Value) (origin : String) (name : Text) (item : Toml.Item)
    (rest : Toml.Entries) :
    addDocument? root origin ((name, item) :: rest) =
      (setKey? root (String.ofList name) (.ofItem (some origin) item)).bind fun root =>
        addDocument? root origin rest := by
  rw [addDocument?, Value.ofEntries, List.foldlM_cons]
  rfl

theorem addDocument?_root (h : Held) (origin : String) {entries : Toml.Entries} {c : Choice}
    (hEntries : Choice.ofEntries? entries = some c) :
    addDocument? h.root origin entries = some (h.take (some origin) c).root := by
  induction entries generalizing h c with
  | nil =>
    cases hEntries
    rw [h.take_none]
    rfl
  | cons entry rest ih =>
    obtain ⟨name, item⟩ := entry
    simp only [Choice.ofEntries?, Option.bind_eq_bind, Option.bind_eq_some_iff] at hEntries
    obtain ⟨s, hName, fields, hTable, earlier, hFields, later, hLater, hc⟩ := hEntries
    cases hc
    have hKey : s.key.toList = name := by simpa using List.find?_some hName
    have hFirst : setKey? h.root (String.ofList name) (.ofItem (some origin) item) =
        some (h.take (some origin) earlier).root := by
      rw [setKey?, ← hKey, String.ofList_toList, parse?_key,
        ofItem_of_tableEntries? (some origin) hTable]
      exact congrArg some (set_section h (some origin) hFields)
    rw [h.take_onto, addDocument?_cons, hFirst, Option.bind_some, ih _ hLater]

/-! ## Layers -/

/-- A layer with a choice goes on top of what is held. -/
theorem addLayers_cons {disk : Files.Disk} {l : Layer} {c : Choice} (h : l.choice? disk = some c) :
    ∃ origin, ∀ (held : Held) (rest : List Layer),
      addLayers disk held.root (l :: rest) = addLayers disk (held.take origin c).root rest := by
  rw [Layer.choice?] at h
  split at h
  · rename_i hFind
    split at h
    · rename_i hOptional
      cases h
      refine ⟨none, fun held rest => ?_⟩
      rw [held.take_none, addLayers, Layer.entries, Layer.read, hFind]
      simp only [hOptional]
      rfl
    · cases h
  · cases h
  · rename_i path text hFind
    obtain ⟨entries, hParse, hEntries⟩ := Option.bind_eq_some_iff.1 h
    refine ⟨some (disk.relative path), fun held rest => ?_⟩
    rw [addLayers, Layer.entries, Layer.read, hFind]
    simp only [hParse]
    show (orIndex (addDocument? held.root (disk.relative path) entries) >>= fun root =>
      addLayers disk root rest) = _
    rw [addDocument?_root held (disk.relative path) hEntries]
    rfl

/-- The choice of a layer that has one. -/
def Layer.choice (disk : Files.Disk) (l : Layer) : Choice := (l.choice? disk).getD ⟨none, none⟩

/-- Whether the values are those of an offset and extensions. -/
structure Held.Spells (h : Held) (offset : Integer) (extensions : List String) : Prop where
  offset_eq : ∃ origin, h .indentation = .mk origin (.integer offset)
  extensions_eq : ∃ origin,
    h .files = .mk origin (.list (extensions.map fun name => .mk origin (.text name)))

theorem Held.Spells.take {h : Held} {offset : Integer} {extensions : List String}
    (hSpells : h.Spells offset extensions) (origin : Option String) (c : Choice) :
    (h.take origin c).Spells (c.offset?.getD offset) (c.extensions?.getD extensions) := by
  obtain ⟨offset?, extensions?⟩ := c
  constructor
  · cases offset? with
    | none => exact hSpells.offset_eq
    | some n => exact ⟨origin, rfl⟩
  · cases extensions? with
    | none => exact hSpells.extensions_eq
    | some names => exact ⟨origin, rfl⟩

/-- **All layers.** Each field is what the last layer chose that chose it. -/
theorem exists_addLayers {disk : Files.Disk} {layers : List Layer}
    (h : ∀ l ∈ layers, (l.choice? disk).isSome) {held : Held} {offset : Integer}
    {extensions : List String} (hSpells : held.Spells offset extensions) :
    ∃ held' : Held,
      (∀ rest, addLayers disk held.root (layers ++ rest) = addLayers disk held'.root rest) ∧
      held'.Spells
        ((Choice.latest Choice.offset? (layers.map (Layer.choice disk))).getD offset)
        ((Choice.latest Choice.extensions? (layers.map (Layer.choice disk))).getD extensions) := by
  induction layers generalizing held offset extensions with
  | nil => exact ⟨held, fun _ => rfl, hSpells⟩
  | cons l rest ih =>
    obtain ⟨hFirst, hRest⟩ := List.forall_mem_cons.1 h
    obtain ⟨c, hc⟩ := Option.isSome_iff_exists.1 hFirst
    obtain ⟨origin, hAdd⟩ := addLayers_cons hc
    obtain ⟨held', hRun, hFields⟩ := ih hRest (hSpells.take origin c)
    have hChoice : l.choice disk = c := by rw [Layer.choice, hc, Option.getD_some]
    refine ⟨held', fun below => by rw [List.cons_append, hAdd, hRun], ?_⟩
    rw [List.map_cons, Choice.latest_cons, Choice.latest_cons, hChoice, Option.getD_or,
      Option.getD_or]
    exact hFields

/-- Layers that choose different fields may be exchanged. -/
theorem addLayers_swap {disk : Files.Disk} {l l' : Layer} {c c' : Choice}
    (h : l.choice? disk = some c) (h' : l'.choice? disk = some c')
    (hOffset : c.offset? = none ∨ c'.offset? = none)
    (hExtensions : c.extensions? = none ∨ c'.extensions? = none) (held : Held)
    (rest : List Layer) :
    addLayers disk held.root (l :: l' :: rest) = addLayers disk held.root (l' :: l :: rest) := by
  obtain ⟨origin, hAdd⟩ := addLayers_cons h
  obtain ⟨origin', hAdd'⟩ := addLayers_cons h'
  -- each field is left alone by one of them, so even its origin is the same
  have hTake : (held.take origin c).take origin' c' = (held.take origin' c').take origin c := by
    funext s
    cases s with
    | indentation => rcases hOffset with hNone | hNone <;> simp [Held.take, Choice.value?, hNone]
    | files => rcases hExtensions with hNone | hNone <;> simp [Held.take, Choice.value?, hNone]
  rw [hAdd, hAdd', hAdd', hAdd, hTake]

/-! ## Settings -/

/-- A setting of one of the fields. -/
inductive Override where
  | offset (columns : Integer)
  | extensions (names : List String)
  deriving DecidableEq, Repr

namespace Override

/-- The section of the field that is set. -/
def place : Override → Section
  | .offset _ => .indentation
  | .extensions _ => .files

/-- The value that the field is set to. -/
def value : Override → Value
  | .offset n => .ofData (.integer n)
  | .extensions names => .ofData (.list (names.map fun name => .ofData (.text name)))

/-- The key of the field and its value. -/
def entry (o : Override) : String × Value := (o.place.key ++ "." ++ o.place.field, o.value)

/-- The path of the field and its value. -/
def step (o : Override) : KeyPath × Value := ([.key o.place.key, .key o.place.field], o.value)

/-- The choice that is made. -/
def choice : Override → Choice
  | .offset n => ⟨some n, none⟩
  | .extensions names => ⟨none, some names⟩

theorem take_choice (o : Override) (h : Held) : h.take none o.choice = h.put o.place o.value := by
  funext s
  cases o <;> cases s <;> rfl

theorem set_value (o : Override) (root : Value) (key : String) :
    root.set key o.value = root.put (Value.normalizeKey key) o.value := by
  cases o <;> simp only [value, Value.ofData, Value.set]

theorem set?_step (o : Override) (root : Value) :
    KeyPath.set? o.step.1 o.step.2 root =
      some (root.put o.place.key
        (((root.get? o.place.key).getD .unit).put o.place.field o.value)) := by
  simp only [step, KeyPath.set?, Option.bind_eq_bind, Option.bind_some, o.set_value,
    normalizeKey_field]
  rfl

theorem set?_step_root (o : Override) (h : Held) :
    KeyPath.set? o.step.1 o.step.2 h.root = some (h.take none o.choice).root := by
  rw [o.set?_step, h.get?_root, Option.getD_some, put_field, h.put_root, o.take_choice]

theorem parse?_entry (s : Section) :
    KeyPath.parse? (s.key ++ "." ++ s.field) = some [.key s.key, .key s.field] := by
  cases s <;> decide +kernel

theorem parseKeys_map (overrides : List Override) :
    parseKeys (overrides.map entry) = .ok (overrides.map step) := by
  induction overrides with
  | nil => rfl
  | cons o rest ih =>
    simp only [List.map_cons, entry, parseKeys, parse?_entry]
    rw [ih]
    rfl

theorem isSome_choice_of_place {o o' : Override} (h : o.step.1 = o'.step.1) :
    o.choice.offset?.isSome = o'.choice.offset?.isSome ∧
      o.choice.extensions?.isSome = o'.choice.extensions?.isSome := by
  cases o with
  | offset columns =>
    cases o' with
    | offset columns' => exact ⟨rfl, rfl⟩
    | extensions names => simp [step, place, Section.key] at h
  | extensions names =>
    cases o' with
    | offset columns => simp [step, place, Section.key] at h
    | extensions names' => exact ⟨rfl, rfl⟩

end Override

/-- **All settings.** Each field is what the last setting of it says. -/
theorem exists_setAll? (overrides : List Override) {held : Held} {offset : Integer}
    {extensions : List String} (hSpells : held.Spells offset extensions) :
    ∃ held' : Held,
      setAll? held.root (lastOfEach (overrides.map Override.step)) = some held'.root ∧
      held'.Spells
        ((Choice.latest Choice.offset? (overrides.map Override.choice)).getD offset)
        ((Choice.latest Choice.extensions? (overrides.map Override.choice)).getD extensions) := by
  induction overrides generalizing held offset extensions with
  | nil => exact ⟨held, rfl, hSpells⟩
  | cons o rest ih =>
    rw [List.map_cons, List.map_cons, lastOfEach]
    split
    · -- only the last setting of a path is made, and `latest` passes over this one as well
      rename_i hAgain
      obtain ⟨_, hMem, hSame⟩ := List.any_eq_true.1 hAgain
      obtain ⟨o', ho', rfl⟩ := List.mem_map.1 hMem
      obtain ⟨hOffset, hExtensions⟩ := Override.isSome_choice_of_place (eq_of_beq hSame)
      have hChoice : o'.choice ∈ rest.map Override.choice := List.mem_map_of_mem ho'
      rw [Choice.latest_cons_of_mem hChoice (fun h => hOffset.trans h),
        Choice.latest_cons_of_mem hChoice (fun h => hExtensions.trans h)]
      exact ih hSpells
    · obtain ⟨held', hRun, hFields⟩ := ih (hSpells.take none o.choice)
      refine ⟨held', ?_, ?_⟩
      · rw [setAll?, List.foldlM_cons]
        show (KeyPath.set? o.step.1 o.step.2 held.root).bind _ = _
        rw [o.set?_step_root, Option.bind_some]
        exact hRun
      · rw [Choice.latest_cons, Choice.latest_cons, Option.getD_or, Option.getD_or]
        exact hFields

/-! ## The configuration -/

theorem decodeItems_texts (path : KeyPath) (i : Nat) (origin : Option String)
    (names : List String) :
    decodeItems decodeExtension path i (names.map fun name => .mk origin (.text name)) =
      .ok names := by
  induction names generalizing i with
  | nil => rfl
  | cons name rest ih =>
    rw [List.map_cons, decodeItems, ih]
    rfl

theorem decodeOffset_integer {path : KeyPath} {origin : Option String} {n : Integer} {k : Nat} :
    decodeOffset path (.mk origin (.integer n)) = .ok k ↔
      (0 ≤ n.value ∧ n.value < offsetLimit) ∧ k = n.value.toNat := by
  simp only [decodeOffset, Value.data]
  split
  · rename_i hn
    rw [Except.ok.injEq, and_iff_right hn, eq_comm]
  · rename_i hn
    exact iff_of_false (fun h => nomatch h) fun h => hn h.1

theorem decode_eq_ok_iff {root : Value} {c : Config} :
    decode root = .ok c ↔ decodeSection decodeOffset .indentation root = .ok c.offset ∧
      decodeSection decodeExtensions .files root = .ok c.extensions ∧ c.offset ≠ 0 := by
  obtain ⟨offset, extensions⟩ := c
  rw [decode, Config.ofValue]
  cases decodeSection decodeOffset .indentation root with
  | error e => simp [bind, Except.bind]
  | ok n =>
    cases decodeSection decodeExtensions .files root with
    | error e => simp [bind, Except.bind]
    | ok names =>
      simp only [bind, Except.bind, Except.ok.injEq]
      by_cases hn : n = 0
      · rw [if_pos hn]
        refine iff_of_false (fun h => nomatch h) ?_
        rintro ⟨rfl, -, hne⟩
        exact hne hn
      · rw [if_neg hn]
        constructor
        · rintro ⟨⟩
          exact ⟨rfl, rfl, hn⟩
        · rintro ⟨rfl, rfl, -⟩
          rfl

theorem decodeSection_root {α : Type} (read : Decoder α) (s : Section) (held : Held) :
    decodeSection read s held.root = read [.key s.key, .key s.field] (held s) := by
  cases s <;> rfl

theorem decode_root {held : Held} {offset : Integer} {extensions : List String}
    (hSpells : held.Spells offset extensions) (c : Config) :
    decode held.root = .ok c ↔
      (1 ≤ offset.value ∧ offset.value < offsetLimit) ∧
        c = ⟨offset.value.toNat, extensions⟩ := by
  obtain ⟨columns, names⟩ := c
  obtain ⟨⟨origin, hOffset⟩, origin', hExtensions⟩ := hSpells
  have hNames : ∀ path, decodeExtensions path (held .files) = .ok extensions := by
    intro path
    rw [hExtensions]
    exact decodeItems_texts path 0 origin' extensions
  rw [decode_eq_ok_iff, decodeSection_root, decodeSection_root, hOffset, decodeOffset_integer,
    hNames, Except.ok.injEq, Config.mk.injEq]
  dsimp only
  constructor
  · rintro ⟨⟨⟨hPositive, hLess⟩, rfl⟩, rfl, hne⟩
    exact ⟨⟨by omega, hLess⟩, rfl, rfl⟩
  · rintro ⟨⟨hPositive, hLess⟩, rfl, rfl⟩
    exact ⟨⟨⟨by omega, hLess⟩, rfl⟩, rfl, by omega⟩

/-- What comes of choices for a field: the last setting of it, or else the last layer that has it,
or else the built-in value. -/
def Choice.resolve {α : Type} (field : Choice → Option α) (layers overrides : List Choice)
    (preset : α) : α :=
  ((latest field overrides).or (latest field layers)).getD preset

/-- The offset that layers and settings come to. -/
def resolvedOffset (disk : Files.Disk) (layers : List Layer) (overrides : List Override) : Int :=
  (Choice.resolve Choice.offset? (layers.map (Layer.choice disk))
    (overrides.map Override.choice) ⟨.signed64, Config.default.offset⟩).value

/-- The extensions that layers and settings come to. -/
def resolvedExtensions (disk : Files.Disk) (layers : List Layer) (overrides : List Override) :
    List String :=
  Choice.resolve Choice.extensions? (layers.map (Layer.choice disk))
    (overrides.map Override.choice) Config.default.extensions

section Load

variable {disk : Files.Disk} {layers : List Layer}

theorem load_eq_decode {held : Held}
    (hAdd : addLayers disk (.ofConfig .default) layers = .ok held.root)
    (overrides : List Override) :
    load disk layers (overrides.map Override.entry) =
      orIndex (setAll? held.root (lastOfEach (overrides.map Override.step))) >>= decode := by
  rw [load, Override.parseKeys_map]
  show (addLayers disk (.ofConfig .default) layers >>= _) = _
  rw [hAdd]
  rfl

/-- The values of the built-in configuration. -/
def Held.default : Held
  | .indentation => .ofData (.integer ⟨.signed64, Config.default.offset⟩)
  | .files => .ofData (.list (Config.default.extensions.map fun e => .ofData (.text e)))

theorem Held.spells_default :
    Held.default.Spells ⟨.signed64, Config.default.offset⟩ Config.default.extensions :=
  ⟨⟨none, rfl⟩, none, rfl⟩

variable (h : ∀ l ∈ layers, (l.choice? disk).isSome)
include h

/-- **The configuration that is loaded.** -/
theorem load_eq_ok_iff (overrides : List Override) (c : Config) :
    load disk layers (overrides.map Override.entry) = .ok c ↔
      (1 ≤ resolvedOffset disk layers overrides ∧
          resolvedOffset disk layers overrides < offsetLimit) ∧
        c = ⟨(resolvedOffset disk layers overrides).toNat,
          resolvedExtensions disk layers overrides⟩ := by
  obtain ⟨held, hAdd, hLayers⟩ := exists_addLayers h Held.spells_default
  obtain ⟨held', hSet, hFields⟩ := exists_setAll? overrides hLayers
  rw [← Option.getD_or, ← Option.getD_or] at hFields
  have hRoot : addLayers disk (.ofConfig .default) layers = .ok held.root := by
    rw [← layers.append_nil]
    exact hAdd []
  rw [load_eq_decode hRoot, hSet]
  exact decode_root hFields c

/-- Layers that choose different fields may be exchanged, above layers with choices. -/
theorem load_swap {l l' : Layer} {c c' : Choice} (hl : l.choice? disk = some c)
    (hl' : l'.choice? disk = some c') (hOffset : c.offset? = none ∨ c'.offset? = none)
    (hExtensions : c.extensions? = none ∨ c'.extensions? = none) (rest : List Layer)
    (overrides : List (String × Value)) :
    load disk (layers ++ l :: l' :: rest) overrides =
      load disk (layers ++ l' :: l :: rest) overrides := by
  obtain ⟨held, hAdd, -⟩ := exists_addLayers h Held.spells_default
  have hRoots : addLayers disk (.ofConfig .default) (layers ++ l :: l' :: rest) =
      addLayers disk (.ofConfig .default) (layers ++ l' :: l :: rest) := by
    refine (hAdd _).trans ?_
    rw [addLayers_swap hl hl' hOffset hExtensions]
    exact (hAdd _).symm
  rw [load, load, hRoots]

end Load

end RexxEditing.Settings
