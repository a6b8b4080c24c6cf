import RexxEditing.Command.Run
import RexxEditing.Proofs.Indent.Room
import RexxEditing.Proofs.Settings.Frame

/-! # What a request does to the files

Only the request to write the indentation of a file changes a file, and that file alone. Once it is
written there is nothing left to do for the same request.

* `withSource_cases`: a task on a file finds the configuration and the text, or fails.
* `run_written_iff`: which requests write, and what.
* `loadConfig_rewritten`: a change of another file does not change the configuration.
* `runIn_effect`: the effect of every request, and of those that follow a write.
-/

namespace RexxEditing.Command

open Files (Disk Tree Content)
open Settings (Config Layer)

/-! ## One request -/

theorem readSource_eq_ok_iff {disk : Disk} {path : String} {source : Text} :
    readSource disk path = .ok source ↔ disk path = .ok (.text source) := by
  rw [readSource]
  constructor
  · intro h
    split at h
    · rename_i hDisk
      cases h
      exact hDisk
    · cases h
    · cases h
  · intro h
    rw [h]

/-- A task on a file is done with its text and the configuration, or fails. -/
theorem withSource_cases (disk : Disk) (config : Option String) (offset : Option Nat)
    (path : String) (use : Config → Text → Outcome) :
    (∃ c source, loadConfig disk config offset = .ok c ∧ disk path = .ok (.text source) ∧
        withSource disk config offset path use =
          (use c source).after (configReport c :: extensionWarning c path)) ∨
      (¬ ∃ c source, loadConfig disk config offset = .ok c ∧ disk path = .ok (.text source)) ∧
        ∃ f messages, withSource disk config offset path use =
          (Outcome.failure f).after messages := by
  rw [withSource]
  cases hConfig : loadConfig disk config offset with
  | error e =>
    right
    refine ⟨?_, .configuration e, [], rfl⟩
    rintro ⟨c, source, hc, -⟩
    cases hc
  | ok c =>
    cases hSource : readSource disk path with
    | error f =>
      right
      refine ⟨?_, f, configReport c :: extensionWarning c path, rfl⟩
      rintro ⟨-, source, -, hDisk⟩
      rw [readSource_eq_ok_iff.2 hDisk] at hSource
      cases hSource
    | ok source => exact .inl ⟨c, source, rfl, readSource_eq_ok_iff.1 hSource, rfl⟩

theorem withSource_written_iff {disk : Disk} {config : Option String} {offset : Option Nat}
    {path : String} {use : Config → Text → Outcome} {w : String × Text} :
    (withSource disk config offset path use).written = some w ↔
      ∃ c source, loadConfig disk config offset = .ok c ∧ disk path = .ok (.text source) ∧
        (use c source).written = some w := by
  rcases withSource_cases disk config offset path use with
    ⟨c, source, hConfig, hDisk, hRun⟩ | ⟨hNone, f, messages, hRun⟩
  · rw [hRun]
    constructor
    · exact fun h => ⟨c, source, hConfig, hDisk, h⟩
    · rintro ⟨c', source', hConfig', hDisk', h⟩
      cases hConfig.symm.trans hConfig'
      cases hDisk.symm.trans hDisk'
      exact h
  · rw [hRun]
    constructor
    · exact fun h => nomatch h
    · rintro ⟨c, source, hConfig, hDisk, -⟩
      exact absurd ⟨c, source, hConfig, hDisk⟩ hNone

theorem indent_written_iff {path : String} {source : Text} {offset : Nat} {action : IndentAction}
    {name : String} {result : Text} :
    (indent path source offset action).written = some (name, result) ↔
      action = .write ∧ name = path ∧ result = Indent.reindent offset source ∧
        result ≠ source := by
  cases action with
  | print | column line => simp [indent, Outcome.success]
  | check =>
    rw [indent]
    split <;> simp [Outcome.success]
  | write =>
    rw [indent]
    split
    · rename_i hSame
      constructor
      · intro h
        cases h
      · rintro ⟨-, -, rfl, hne⟩
        exact absurd hSame hne
    · rename_i hne
      simp only [Option.some.injEq, Prod.mk.injEq, true_and]
      constructor
      · rintro ⟨rfl, rfl⟩
        exact ⟨rfl, rfl, hne⟩
      · rintro ⟨rfl, rfl, -⟩
        exact ⟨rfl, rfl⟩

theorem indentInMemory_of_some {source result : Text} {offset : Nat}
    (h : Indent.reindent? offset source = some result) (path : String) (action : IndentAction) :
    indentInMemory path source offset action = indent path source offset action := by
  rw [indentInMemory, h]
  cases action <;> rfl

theorem indentInMemory_of_none {source : Text} {offset : Nat}
    (h : Indent.reindent? offset source = none) (path : String) {action : IndentAction}
    (hWhole : action.isWhole = true) :
    indentInMemory path source offset action = .breakOff := by
  rw [indentInMemory, h, hWhole]
  rfl

theorem indentInMemory_written_iff {path : String} {source : Text} {offset : Nat}
    {action : IndentAction} {name : String} {result : Text} :
    (indentInMemory path source offset action).written = some (name, result) ↔
      action = .write ∧ name = path ∧ Indent.reindent? offset source = some result ∧
        result ≠ source := by
  cases hResult : Indent.reindent? offset source with
  | none =>
    cases action with
    | column line => simp [indentInMemory, IndentAction.isWhole, indent, Outcome.success]
    | print | check | write =>
      rw [indentInMemory_of_none hResult path rfl]
      simp [Outcome.breakOff]
  | some indented =>
    obtain ⟨-, rfl⟩ := Indent.reindent?_eq_some_iff.1 hResult
    rw [indentInMemory_of_some hResult, indent_written_iff, Option.some.injEq]
    simp only [eq_comm]

theorem vocabulary_written (table : Option String) : (vocabulary table).written = none := by
  cases table with
  | none => rfl
  | some name =>
    rw [vocabulary]
    split <;> rfl

/-- Whether a request rewrites the file at a path: it asks for that, and the file holds a text that
can be indented and is not. -/
def Rewrites (disk : Disk) (r : Request) (path : String) (result : Text) : Prop :=
  ∃ offset c source, r.task = .indent path offset .write ∧
    loadConfig disk r.config offset = .ok c ∧ disk path = .ok (.text source) ∧
    Indent.reindent? c.offset source = some result ∧ result ≠ source

theorem run_written_iff {disk : Disk} {r : Request} {path : String} {result : Text} :
    (run disk r).written = some (path, result) ↔ Rewrites disk r path result := by
  rw [run]
  constructor
  · intro h
    cases hTask : r.task with
    | highlight name format =>
      rw [hTask] at h
      obtain ⟨c, source, -, -, hWritten⟩ := withSource_written_iff.1 h
      cases hWritten
    | indent name offset action =>
      rw [hTask] at h
      obtain ⟨c, source, hConfig, hDisk, hWritten⟩ := withSource_written_iff.1 h
      obtain ⟨rfl, rfl, hResult, hne⟩ := indentInMemory_written_iff.1 hWritten
      exact ⟨offset, c, source, hTask, hConfig, hDisk, hResult, hne⟩
    | outline name =>
      rw [hTask] at h
      obtain ⟨c, source, -, -, hWritten⟩ := withSource_written_iff.1 h
      cases hWritten
    | vocabulary table =>
      rw [hTask] at h
      simp [vocabulary_written] at h
  · rintro ⟨offset, c, source, hTask, hConfig, hDisk, hResult, hne⟩
    rw [hTask]
    exact withSource_written_iff.2
      ⟨c, source, hConfig, hDisk, indentInMemory_written_iff.2 ⟨rfl, rfl, hResult, hne⟩⟩

/-! ## The files after a request -/

theorem runIn_fst (t : Tree) (r : Request) : (runIn t r).1 = run t.disk r := by
  rw [runIn]
  split <;> rfl

theorem runIn_of_rewrites {t : Tree} {r : Request} {path : String} {result : Text}
    (h : Rewrites t.disk r path result) : (runIn t r).2 = t.write path result := by
  rw [runIn]
  rw [run_written_iff.2 h]

theorem runIn_of_not_rewrites {t : Tree} {r : Request}
    (h : ¬ ∃ path result, Rewrites t.disk r path result) : (runIn t r).2 = t := by
  rw [runIn]
  split
  · rename_i path result hWritten
    exact absurd ⟨path, result, run_written_iff.1 hWritten⟩ h
  · rfl

theorem rewritten_of_rewrites {t : Tree} {r : Request} {path : String} {result : Text}
    (h : Rewrites t.disk r path result) : t.Rewritten path result (runIn t r).2 := by
  rw [runIn_of_rewrites h]
  obtain ⟨_, _, _, _, _, hDisk, _, _⟩ := h
  exact Tree.rewritten_write hDisk result

theorem runIn_ne_iff {t : Tree} {r : Request} :
    (runIn t r).2 ≠ t ↔ ∃ path result, Rewrites t.disk r path result := by
  constructor
  · intro h
    by_contra hNot
    exact h (runIn_of_not_rewrites hNot)
  · rintro ⟨path, result, h⟩ hSame
    have hAfter := (rewritten_of_rewrites h).disk_same path rfl
    obtain ⟨_, _, source, _, _, hDisk, _, hne⟩ := h
    -- the file reads another text than before
    rw [hSame, hDisk] at hAfter
    cases hAfter
    exact hne rfl

/-! ## Requests one after the other -/

/-- The request with another task, on the indentation of a file. -/
def Request.indenting (r : Request) (path : String) (offset : Option Nat) (action : IndentAction) :
    Request :=
  { r with task := .indent path offset action }

/-- Whether the configuration of a request is read from the file that a path leads to. -/
def Request.ConfiguredBy (r : Request) (t : Tree) (path : String) : Prop :=
  ∃ file ∈ r.config, ∃ found, Layer.find? t.disk ⟨file, false⟩ = some found ∧
    t.resolve found.1 = t.resolve path

theorem loadConfig_rewritten {t t' : Tree} {r : Request} {path : String} {text : Text}
    {content : Content} (h : t.Rewritten path text t') (hRead : t.disk path = .ok content)
    (hConfig : ¬ r.ConfiguredBy t path) (offset : Option Nat) :
    loadConfig t'.disk r.config offset = loadConfig t.disk r.config offset := by
  refine Settings.load_congr h.here_eq (fun l hl => ?_) _
  obtain ⟨file, hFile, rfl⟩ := List.mem_map.1 hl
  refine Settings.Layer.find?_rewritten h hRead fun found hFound hSame => hConfig ?_
  exact ⟨file, Option.mem_toList.1 hFile, found, hFound, hSame⟩

theorem run_indenting (disk : Disk) (r : Request) (path : String) (offset : Option Nat)
    (action : IndentAction) :
    run disk (r.indenting path offset action) =
      withSource disk r.config offset path fun c source =>
        indentInMemory path source c.offset action :=
  rfl

section Indenting

variable {disk : Disk} {r : Request} {path : String} {offset : Option Nat} {c : Config}
  {source : Text} (hConfig : loadConfig disk r.config offset = .ok c)
  (hDisk : disk path = .ok (.text source))
include hConfig hDisk

theorem run_indenting_eq (action : IndentAction) :
    run disk (r.indenting path offset action) =
      (indentInMemory path source c.offset action).after
        (configReport c :: extensionWarning c path) := by
  rw [run_indenting, withSource, hConfig, readSource_eq_ok_iff.2 hDisk]

theorem rewrites_indenting_iff {name : String} {result : Text} :
    Rewrites disk (r.indenting path offset .write) name result ↔
      name = path ∧ Indent.reindent? c.offset source = some result ∧ result ≠ source := by
  rw [← run_written_iff, run_indenting_eq hConfig hDisk]
  exact indentInMemory_written_iff.trans (and_iff_right rfl)

/-- There is no room for the indented text. -/
theorem code_of_none (h : Indent.reindent? c.offset source = none) {action : IndentAction}
    (hWhole : action.isWhole = true) : (run disk (r.indenting path offset action)).code = 101 := by
  rw [run_indenting_eq hConfig hDisk, indentInMemory_of_none h path hWhole]
  rfl

variable {result : Text} (hResult : Indent.reindent? c.offset source = some result)
include hResult

theorem run_indenting_of_some (action : IndentAction) :
    run disk (r.indenting path offset action) =
      (indent path source c.offset action).after (configReport c :: extensionWarning c path) := by
  rw [run_indenting_eq hConfig hDisk, indentInMemory_of_some hResult]

theorem code_check :
    (run disk (r.indenting path offset .check)).code = if result = source then 0 else 1 := by
  rw [run_indenting_of_some hConfig hDisk hResult, indent,
    (Indent.reindent?_eq_some_iff.1 hResult).2]
  split <;> rfl

theorem code_write : (run disk (r.indenting path offset .write)).code = 0 := by
  rw [run_indenting_of_some hConfig hDisk hResult, indent]
  split <;> rfl

theorem exists_rewrites_indenting_iff :
    (∃ name text, Rewrites disk (r.indenting path offset .write) name text) ↔ result ≠ source := by
  simp only [rewrites_indenting_iff hConfig hDisk, hResult, Option.some.injEq]
  constructor
  · rintro ⟨_, _, -, rfl, hne⟩
    exact hne
  · exact fun hne => ⟨path, result, rfl, rfl, hne⟩

end Indenting

/-- A text that is indented is not written. -/
theorem runIn_write_of_indented {t : Tree} {r : Request} {path : String} {offset : Option Nat}
    {c : Config} {text : Text} (hConfig : loadConfig t.disk r.config offset = .ok c)
    (hDisk : t.disk path = .ok (.text text))
    (hSame : Indent.reindent? c.offset text = some text) :
    (runIn t (r.indenting path offset .write)).2 = t := by
  apply runIn_of_not_rewrites
  rw [exists_rewrites_indenting_iff hConfig hDisk hSame]
  exact not_not_intro rfl

/-- The check of a file finds what a write would change. -/
theorem code_check_eq_one_iff {t : Tree} {r : Request} {path : String} {offset : Option Nat} :
    (run t.disk (r.indenting path offset .check)).code = 1 ↔
      (runIn t (r.indenting path offset .write)).2 ≠ t := by
  rw [runIn_ne_iff]
  rcases withSource_cases t.disk r.config offset path
      (fun c source => indentInMemory path source c.offset .check) with
    ⟨c, source, hConfig, hDisk, -⟩ | ⟨hNone, f, messages, hRun⟩
  · cases hResult : Indent.reindent? c.offset source with
    | none =>
      rw [code_of_none hConfig hDisk hResult rfl]
      refine iff_of_false (fun h => nomatch h) ?_
      rintro ⟨name, text, hWrite⟩
      obtain ⟨-, hSome, -⟩ := (rewrites_indenting_iff hConfig hDisk).1 hWrite
      cases hResult.symm.trans hSome
    | some result =>
      rw [code_check hConfig hDisk hResult, exists_rewrites_indenting_iff hConfig hDisk hResult]
      split
      · rename_i hSame
        exact iff_of_false (fun h => nomatch h) (not_not_intro hSame)
      · rename_i hne
        exact iff_of_true rfl hne
  · rw [run_indenting, hRun]
    refine iff_of_false (fun h => nomatch h) ?_
    rintro ⟨name, result, offset', c, source, hTask, hConfig, hDisk, -, -⟩
    cases hTask
    exact hNone ⟨c, source, hConfig, hDisk⟩

/-- Whether there is nothing left to indent in the file at a path, which holds the given text. -/
structure Settled (t : Tree) (r : Request) (path : String) (offset : Option Nat) (text : Text) :
    Prop where
  disk_eq : t.disk path = .ok (.text text)
  reindent_eq :
    ∃ c, loadConfig t.disk r.config offset = .ok c ∧ Indent.reindent? c.offset text = some text

theorem exists_settled_of_write {t : Tree} {r : Request} {path : String} {offset : Option Nat}
    (hCode : (run t.disk (r.indenting path offset .write)).code = 0)
    (hOther : ¬ r.ConfiguredBy t path) :
    ∃ text, Settled (runIn t (r.indenting path offset .write)).2 r path offset text := by
  rcases withSource_cases t.disk r.config offset path
      (fun c source => indentInMemory path source c.offset .write) with
    ⟨c, source, hConfig, hDisk, -⟩ | ⟨-, f, messages, hRun⟩
  · cases hResult : Indent.reindent? c.offset source with
    | none =>
      rw [code_of_none hConfig hDisk hResult rfl] at hCode
      cases hCode
    | some result =>
      by_cases hSame : result = source
      · rw [hSame] at hResult
        rw [runIn_write_of_indented hConfig hDisk hResult]
        exact ⟨source, hDisk, c, hConfig, hResult⟩
      · have hWritten := rewritten_of_rewrites
          ((rewrites_indenting_iff hConfig hDisk).2 ⟨rfl, hResult, hSame⟩)
        refine ⟨result, hWritten.disk_same path rfl, c, ?_,
          Indent.reindent?_of_reindent? hResult⟩
        rw [loadConfig_rewritten hWritten hDisk hOther, hConfig]
  · rw [run_indenting, hRun] at hCode
    cases hCode

theorem Settled.runIn_eq {t : Tree} {r : Request} {path : String} {offset : Option Nat}
    {text : Text} (h : Settled t r path offset text) :
    (run t.disk (r.indenting path offset .check)).code = 0 ∧
      (run t.disk (r.indenting path offset .print)).code = 0 ∧
      (run t.disk (r.indenting path offset .print)).printed = text ∧
      (run t.disk (r.indenting path offset .write)).code = 0 ∧
      (runIn t (r.indenting path offset .write)).2 = t := by
  obtain ⟨hDisk, c, hConfig, hSame⟩ := h
  have hPrint := run_indenting_of_some (r := r) hConfig hDisk hSame .print
  refine ⟨?_, ?_, ?_, code_write hConfig hDisk hSame,
    runIn_write_of_indented hConfig hDisk hSame⟩
  · rw [code_check hConfig hDisk hSame, if_pos rfl]
  · rw [hPrint]
    rfl
  · rw [hPrint]
    exact (Indent.reindent?_eq_some_iff.1 hSame).2

/-- **The effect of a request.** A request changes the files exactly if it rewrites one, and then it
succeeds and changes that file alone. The check of a file tells whether a write would change it.
After a write that succeeds, to a file other than the configuration file, the check succeeds, the
text of the file is what is printed, and another write changes nothing. -/
theorem runIn_effect (t : Tree) (r : Request) :
    ((runIn t r).2 ≠ t ↔ ∃ path result, Rewrites t.disk r path result) ∧
    (∀ path result, Rewrites t.disk r path result →
      (runIn t r).1.code = 0 ∧ t.Rewritten path result (runIn t r).2) ∧
    ∀ path offset,
      ((runIn t (r.indenting path offset .check)).1.code = 1 ↔
        (runIn t (r.indenting path offset .write)).2 ≠ t) ∧
      ∀ o t', runIn t (r.indenting path offset .write) = (o, t') → o.code = 0 →
        ¬ r.ConfiguredBy t path →
        (runIn t' (r.indenting path offset .check)).1.code = 0 ∧
        (∃ text, t'.disk path = .ok (.text text) ∧
          (runIn t' (r.indenting path offset .print)).1.code = 0 ∧
          (runIn t' (r.indenting path offset .print)).1.printed = text) ∧
        (runIn t' (r.indenting path offset .write)).1.code = 0 ∧
        (runIn t' (r.indenting path offset .write)).2 = t' := by
  simp only [runIn_fst]
  refine ⟨runIn_ne_iff, fun path result h => ⟨?_, rewritten_of_rewrites h⟩, fun path offset =>
    ⟨code_check_eq_one_iff, fun o t' hRun hCode hOther => ?_⟩⟩
  · obtain ⟨offset, c, source, hTask, hConfig, hDisk, hResult, -⟩ := h
    have hRequest : r = r.indenting path offset .write := by rw [Request.indenting, ← hTask]
    rw [hRequest]
    exact code_write hConfig hDisk hResult
  · obtain rfl : (runIn t (r.indenting path offset .write)).1 = o := by rw [hRun]
    obtain rfl : (runIn t (r.indenting path offset .write)).2 = t' := by rw [hRun]
    rw [runIn_fst] at hCode
    obtain ⟨text, hSettled⟩ := exists_settled_of_write hCode hOther
    obtain ⟨hCheck, hPrint, hPrinted, hWrite, hTree⟩ := hSettled.runIn_eq
    exact ⟨hCheck, ⟨text, hSettled.disk_eq, hPrint, hPrinted⟩, hWrite, hTree⟩

/-- The file is named from the root, and the configuration file from the working directory. -/
theorem runIn_effect_with_config :
    let t : Tree := ⟨["home", "me"],
      [(["home", "me", "src", "a.rex"], .file (.text "do\nsay 1\nend".toList)),
        (["home", "my.toml"], .file (.text "[indentation]\noffset = 3".toList))]⟩
    let path := "/home/me/src/a.rex"
    let r : Request := ⟨some "../my", false, false, .indent path none .write⟩
    let t' := (runIn t r).2
    (t' ≠ t ∧ (runIn t r).1.code = 0 ∧ t.Rewritten path "do\n   say 1\nend".toList t') ∧
      (runIn t (r.indenting path none .check)).1.code = 1 ∧ ¬ r.ConfiguredBy t path ∧
      (runIn t' (r.indenting path none .check)).1.code = 0 ∧ (runIn t' r).2 = t' := by
  intro t path r t'
  have hRewrites : Rewrites t.disk r path "do\n   say 1\nend".toList :=
    run_written_iff.1 (by decide +kernel)
  have hOther : ¬ r.ConfiguredBy t path := by
    rintro ⟨file, hFile, found, hFound, hSame⟩
    cases hFile
    have hConfig : Layer.find? t.disk ⟨"../my", false⟩ =
        some ("../my.toml", .text "[indentation]\noffset = 3".toList) := by decide +kernel
    cases hConfig.symm.trans hFound
    exact absurd (congrArg Except.toOption hSame) (by decide +kernel)
  obtain ⟨hChanges, hEffect, hIndent⟩ := runIn_effect t r
  obtain ⟨hCode, hWritten⟩ := hEffect _ _ hRewrites
  obtain ⟨hCheck, hAfter⟩ := hIndent path none
  have hChanged : t' ≠ t := hChanges.2 ⟨_, _, hRewrites⟩
  obtain ⟨hCheckAfter, -, -, hTree⟩ := hAfter (runIn t r).1 t' rfl hCode hOther
  exact ⟨⟨hChanged, hCode, hWritten⟩, hCheck.2 hChanged, hOther, hCheckAfter, hTree⟩

end RexxEditing.Command
