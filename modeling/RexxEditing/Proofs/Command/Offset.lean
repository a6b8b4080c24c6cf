import RexxEditing.Proofs.Command.Effect
import RexxEditing.Proofs.Command.Reading
import RexxEditing.Proofs.Settings.Override

/-! # The offset on the command line

An offset that is given on the command line is put on top of all files, whatever they hold. It goes
there as a word with a sign: what is too large for that is refused, and all else is used as it is.

* `offset_of_loadConfig`: the offset that is given is the one of the configuration.
* `run_offset`: a request uses it, or fails.
* `load_resolves`, `load_refuses`: which values a configuration has, and when there is none.
-/

namespace RexxEditing.Command

open Files (Disk Tree)
open Settings (Config Layer Override load offsetLimit resolvedOffset resolvedExtensions)

theorem loadConfig_some (disk : Disk) (file : Option String) (n : Nat) :
    loadConfig disk file (some n) =
      load disk (file.toList.map fun name => ⟨name, false⟩)
        ([Override.offset ⟨.signed64, signedWord n⟩].map Override.entry) := by
  have hKey : (Override.offset ⟨.signed64, signedWord n⟩).entry.1 = "indentation.offset" := by
    show Settings.Section.indentation.key ++ "." ++ Settings.Section.indentation.field = _
    decide +kernel
  rw [loadConfig, List.map_singleton, Option.toList_some, List.map_singleton, ← hKey]
  rfl

theorem toNat_signedWord {n : Nat} (hn : n < 1 <<< 64) (h : 0 ≤ signedWord n) :
    (signedWord n).toNat = n := by
  have hWord : signedWord n = Int.bmod n 18446744073709551616 := rfl
  have hLt : n < 18446744073709551616 := hn
  rw [hWord, Int.bmod_def] at h ⊢
  omega

/-- An offset that is given is the one of the configuration. -/
theorem offset_of_loadConfig {disk : Disk} {file : Option String} {n : Nat} {c : Config}
    (hn : n < 1 <<< 64) (h : loadConfig disk file (some n) = .ok c) : c.offset = n := by
  rw [loadConfig_some] at h
  obtain ⟨⟨hWord, -⟩, hOffset⟩ := Settings.offset_of_load h
  dsimp only at hWord hOffset
  rw [hOffset, toNat_signedWord hn hWord]

theorem run_offset {disk : Disk} {r : Request} {path : String} {n : Nat} {action : IndentAction}
    (hTask : r.task = .indent path (some n) action) (hn : n < 1 <<< 64) :
    (∃ source messages, disk path = .ok (.text source) ∧
        run disk r = (indentInMemory path source n action).after messages) ∨
      (¬ ∃ c source, loadConfig disk r.config (some n) = .ok c ∧ disk path = .ok (.text source)) ∧
        ∃ f messages, run disk r = (Outcome.failure f).after messages := by
  rw [run, hTask]
  rcases withSource_cases disk r.config (some n) path
      (fun c source => indentInMemory path source c.offset action) with
    ⟨c, source, hConfig, hDisk, hRun⟩ | hFailure
  · rw [offset_of_loadConfig hn hConfig] at hRun
    exact .inl ⟨source, _, hDisk, hRun⟩
  · exact .inr hFailure

/-- **Which values a configuration has.** Each field is what the last setting of it says, or else
what the last file says that has it, or else what is built in; and there is a configuration exactly
if the offset comes to a positive number in 64 bits. So files that have different fields may be
exchanged. An offset on the command line, which may be any such number, is used as it is or the
request fails. -/
theorem load_resolves {disk : Disk} {layers : List Layer}
    (h : ∀ l ∈ layers, (l.choice? disk).isSome) (overrides : List Override) :
    (∀ c, load disk layers (overrides.map Override.entry) = .ok c ↔
      (1 ≤ resolvedOffset disk layers overrides ∧
          resolvedOffset disk layers overrides < offsetLimit) ∧
        c = ⟨(resolvedOffset disk layers overrides).toNat,
          resolvedExtensions disk layers overrides⟩) ∧
    (∀ front l l' back, layers = front ++ l :: l' :: back →
      ((l.choice disk).offset? = none ∨ (l'.choice disk).offset? = none) →
      ((l.choice disk).extensions? = none ∨ (l'.choice disk).extensions? = none) →
      load disk (front ++ l' :: l :: back) (overrides.map Override.entry) =
        load disk layers (overrides.map Override.entry)) ∧
    (∀ args r path n action, parse args = .ok r → r.task = .indent path (some n) action →
      (1 ≤ n ∧ n < 1 <<< 64) ∧
        ((∃ source messages, disk path = .ok (.text source) ∧
            run disk r = (indentInMemory path source n action).after messages) ∨
          (¬ ∃ c source, loadConfig disk r.config (some n) = .ok c ∧
              disk path = .ok (.text source)) ∧
            ∃ f messages, run disk r = (Outcome.failure f).after messages)) ∧
    ∀ path n, path ≠ "" → path.toList.head? ≠ some '-' → 1 ≤ n → n < 1 <<< 64 →
      parse ["indent", path, "--offset", toString n] =
        .ok ⟨none, false, false, .indent path (some n) .print⟩ := by
  refine ⟨Settings.load_eq_ok_iff h overrides, ?_, ?_, ?_⟩
  · rintro front l l' back rfl hOffset hExtensions
    obtain ⟨c, hc⟩ := Option.isSome_iff_exists.1 (h l (by simp))
    obtain ⟨c', hc'⟩ := Option.isSome_iff_exists.1 (h l' (by simp))
    rw [Layer.choice, Layer.choice, hc, hc'] at hOffset hExtensions
    have hFront : ∀ x ∈ front, (x.choice? disk).isSome :=
      fun x hx => h x (List.mem_append_left _ hx)
    exact (Settings.load_swap hFront hc hc' hOffset hExtensions back _).symm
  · intro args r path n action hParse hTask
    have hRange := offset_of_parse hParse hTask
    exact ⟨hRange, run_offset hTask hRange.2⟩
  · intro path n hPath hDash hPositive hn
    exact parse_offset hPath hDash hPositive hn

theorem load_resolves_with_files :
    let disk := Tree.disk ⟨[], [(["a.toml"], .file (.text "[indentation]\noffset = 3".toList)),
      (["b.toml"], .file (.text "[files]\nextensions = [\"rex\", \"cls\"]".toList)),
      (["a.rex"], .file (.text "say 1".toList))]⟩
    let overrides := [Override.offset ⟨.signed64, 4⟩, .offset ⟨.unsigned64, 5⟩]
    load disk [⟨"a.toml", false⟩, ⟨"b.toml", false⟩, ⟨"c.toml", true⟩]
        (overrides.map Override.entry) = .ok ⟨5, ["rex", "cls"]⟩ ∧
      load disk [⟨"b.toml", false⟩, ⟨"a.toml", false⟩, ⟨"c.toml", true⟩]
        (overrides.map Override.entry) = .ok ⟨5, ["rex", "cls"]⟩ ∧
      ∃ r source messages, parse ["indent", "a.rex", "--offset", "7"] = .ok r ∧
        disk "a.rex" = .ok (.text source) ∧
        run disk r = (indentInMemory "a.rex" source 7 .print).after messages := by
  intro disk overrides
  have hFirst : (Layer.choice? disk ⟨"a.toml", false⟩).isSome := by decide +kernel
  have hSecond : (Layer.choice? disk ⟨"b.toml", false⟩).isSome := by decide +kernel
  have hThird : (Layer.choice? disk ⟨"c.toml", true⟩).isSome := by decide +kernel
  obtain ⟨hLoad, hSwap, hRun, hLine⟩ := load_resolves
    (List.forall_mem_cons.2 ⟨hFirst, List.forall_mem_cons.2 ⟨hSecond,
      List.forall_mem_singleton.2 hThird⟩⟩) overrides
  have hConfig := (hLoad ⟨5, ["rex", "cls"]⟩).2 (by decide +kernel)
  have hParse := hLine "a.rex" 7 (by decide +kernel) (by decide +kernel) (by decide) (by decide)
  have hCode : (run disk ⟨none, false, false, .indent "a.rex" (some 7) .print⟩).code = 0 := by
    decide +kernel
  refine ⟨hConfig, ?_, ?_⟩
  · exact (hSwap [] _ _ _ rfl (.inr (by decide +kernel)) (.inl (by decide +kernel))).trans hConfig
  · obtain ⟨-, ⟨source, messages, hDisk, hUsed⟩ | ⟨-, f, messages, hFailure⟩⟩ :=
      hRun _ _ "a.rex" 7 .print hParse rfl
    · exact ⟨_, source, messages, hParse, hDisk, hUsed⟩
    · rw [hFailure] at hCode
      cases hCode

/-- **Offsets of more than 64 bits** are refused. As a setting, such an integer is out of range, and
a file with one is no document. -/
theorem load_refuses :
    let disk := Tree.disk ⟨[],
      [(["a.toml"], .file (.text "[indentation]\noffset = 18446744073709551616".toList))]⟩
    let n : Settings.Integer := ⟨.unsigned128, offsetLimit⟩
    resolvedOffset disk [] [.offset n] = offsetLimit ∧
      load disk [] ([Override.offset n].map Override.entry) =
        .error (.decode (.offsetRange n ⟨[.key "indentation", .key "offset"], none⟩)) ∧
      load disk [⟨"a.toml", false⟩] [] = .error (.notToml "a.toml") := by
  decide +kernel

end RexxEditing.Command
