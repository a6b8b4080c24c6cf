import RexxEditing.Command.Parse

/-! # What a command line settles

Every setting of a request was read from its text or is an option without a value. So what all of
those have in common holds of the settings of every command line that is accepted: the numbers among
them are positive and fit into 64 bits.

* `Scan.all_read`, `Scan.all_readAll`: what one argument preserves, and what all of them do.
* `exists_ofSettings_of_parse`: the settings of a request.
* `offset_of_parse`: the offset of a request.
* `readPositive_toString`, `parse_offset`: every such number can be given as an offset.
-/

namespace RexxEditing.Command

theorem exists_of_bind_eq_ok {ε α β : Type} {x : Except ε α} {f : α → Except ε β} {b : β}
    (h : (x >>= f) = .ok b) : ∃ a, x = .ok a ∧ f a = .ok b := by
  cases x with
  | error e => cases h
  | ok a => exact ⟨a, rfl, h⟩

theorem exists_of_map_eq_ok {ε α β : Type} {x : Except ε α} {f : α → β} {b : β}
    (h : f <$> x = .ok b) : ∃ a, x = .ok a ∧ f a = b := by
  cases x with
  | error e => cases h
  | ok a => exact ⟨a, rfl, Except.ok.inj h⟩

theorem Scan.eq_ok_of_orStop {α : Type} {x : Except UsageError α} {a : α}
    (h : Scan.orStop x = .ok a) : x = .ok a := by
  cases x with
  | error e => cases h
  | ok b =>
    cases h
    rfl

/-! ## All settings -/

namespace Scan

/-- Whether all settings that were made have a property. -/
def All (P : Setting → Prop) (s : Scan) : Prop := ∀ setting ∈ s.settled, P setting

section All

variable {P : Setting → Prop} (hValue : ∀ arg value x, Setting.ofValue arg value = .ok x → P x)
  (hFlag : ∀ level arg x, flag level arg = .ok x → P x) {s s' : Scan}

theorem all_add {arg : Arg} {setting : Except UsageError Setting} (hs : s.All P)
    (hSetting : ∀ x, setting = .ok x → P x) (h : s.add arg setting = .ok s') : s'.All P := by
  rw [add] at h
  split at h
  · cases h
  · obtain ⟨x, hx, hAdd⟩ := exists_of_bind_eq_ok h
    cases hAdd
    intro y hy
    rcases List.mem_append.1 hy with hOld | hNew
    · exact hs y hOld
    · rw [List.mem_singleton.1 hNew]
      exact hSetting x hx

include hValue

theorem all_settle (hs : s.All P) (h : s.settle = .ok s') : s'.All P := by
  rw [settle] at h
  split at h
  · cases h
    exact hs
  · cases h
  · rename_i arg value _
    have hSettled : Scan.All P ⟨s.settled, none⟩ := hs
    exact all_add hSettled (hValue arg value) h

theorem all_suspend {arg : Arg} {value : Option String} (hs : s.All P)
    (h : s.suspend arg value = .ok s') : s'.All P := by
  obtain ⟨s₁, hSettle, hSuspend⟩ := exists_of_bind_eq_ok h
  cases hSuspend
  have hSettled : s₁.All P := all_settle hValue hs hSettle
  exact hSettled

theorem all_readOption {arg : Arg} {value : Option String} (hs : s.All P)
    (h : s.readOption arg value = .ok s') : s'.All P := by
  cases value with
  | none => exact all_suspend hValue hs h
  | some value =>
    obtain ⟨s₁, hSettle, hAdd⟩ := exists_of_bind_eq_ok h
    exact all_add (all_settle hValue hs hSettle) (hValue arg value) hAdd

theorem all_readArgument {level : Level} {afterDashes : Bool} {a : String} (hs : s.All P)
    (h : s.readArgument level afterDashes a = .ok s') : s'.All P := by
  unfold readArgument at h
  split at h
  · split at h <;> cases h
  · cases h
  · split at h
    · cases h
    · exact all_suspend hValue hs (eq_ok_of_orStop h)

theorem all_readArguments {level : Level} {args : List String} (hs : s.All P)
    (h : s.readArguments level args = .ok s') : s'.All P := by
  induction args generalizing s with
  | nil =>
    cases h
    exact hs
  | cons a rest ih =>
    obtain ⟨s₁, hFirst, hRest⟩ := exists_of_bind_eq_ok h
    exact ih (all_readArgument hValue hs hFirst) hRest

theorem all_finish {level : Level} {settings : List Setting} (hs : s.All P)
    (h : s.finish level = .ok settings) : ∀ x ∈ settings, P x := by
  obtain ⟨s₁, hSettle, hCheck⟩ := exists_of_bind_eq_ok h
  rw [check] at hCheck
  split at hCheck
  · cases hCheck
  · split at hCheck
    · cases hCheck
      exact all_settle hValue hs hSettle
    · cases hCheck

include hFlag

theorem all_readFlag {level : Level} {arg : Arg} (hs : s.All P)
    (h : s.readFlag level arg = .ok s') : s'.All P := by
  obtain ⟨s₁, hSettle, hRest⟩ := exists_of_bind_eq_ok h
  obtain ⟨x, hx, hAdd⟩ := exists_of_bind_eq_ok hRest
  refine all_add (all_settle hValue hs (eq_ok_of_orStop hSettle)) ?_ (eq_ok_of_orStop hAdd)
  rintro _ ⟨⟩
  exact hFlag level arg x hx

theorem all_readLong {level : Level} {text : Text} (hs : s.All P)
    (h : s.readLong level text = .ok s') : s'.All P := by
  rw [readLong] at h
  dsimp only at h
  split at h
  · cases h
  · split at h
    · exact all_readOption hValue hs (eq_ok_of_orStop h)
    · split at h
      · cases h
      · exact all_readFlag hValue hFlag hs h

theorem all_readShort {level : Level} {text : Text} (hs : s.All P)
    (h : s.readShort level text = .ok s') : s'.All P := by
  induction text generalizing s with
  | nil =>
    cases h
    exact hs
  | cons c cs ih =>
    rw [readShort] at h
    split at h
    · cases h
    · split at h
      · exact all_readOption hValue hs (eq_ok_of_orStop h)
      · obtain ⟨s₁, hFirst, hRest⟩ := exists_of_bind_eq_ok h
        exact ih (all_readFlag hValue hFlag hs hFirst) hRest

/-- What one argument preserves. -/
theorem all_read {level : Level} {a : String} (hs : s.All P) (h : s.read level a = .ok s') :
    s'.All P := by
  rw [read] at h
  split at h
  · exact all_readLong hValue hFlag hs h
  · exact all_readShort hValue hFlag hs h
  · split at h
    · cases h
      exact hs
    · exact all_readArgument hValue hs h

/-- What all arguments preserve. -/
theorem all_readAll {level : Level} {args : List String}
    {rest : Option (Subcommand × List String)} (hs : s.All P)
    (h : s.readAll level args = .ok (s', rest)) : s'.All P := by
  induction args generalizing s with
  | nil =>
    cases h
    exact hs
  | cons a others ih =>
    rw [readAll] at h
    split at h
    · cases h
    · split at h
      · cases h
        exact hs
      · split at h
        · obtain ⟨s₁, hRead, hEnd⟩ := exists_of_bind_eq_ok h
          cases hEnd
          exact all_readArguments hValue hs hRead
        · obtain ⟨s₁, hRead, hOthers⟩ := exists_of_bind_eq_ok h
          exact ih (all_read hValue hFlag hs hRead) hOthers

end All

end Scan

/-- The settings of a request. -/
theorem exists_ofSettings_of_parse {P : Setting → Prop}
    (hValue : ∀ arg value x, Setting.ofValue arg value = .ok x → P x)
    (hFlag : ∀ level arg x, Scan.flag level arg = .ok x → P x) {args : List String} {r : Request}
    (h : parse args = .ok r) :
    ∃ c front after, r = .ofSettings c front after ∧ ∀ x ∈ after, P x := by
  obtain ⟨⟨front, more⟩, -, hRest⟩ := exists_of_bind_eq_ok h
  cases more with
  | none =>
    obtain ⟨s, -, hStop⟩ := exists_of_bind_eq_ok hRest
    split at hStop <;> cases hStop
  | some found =>
    obtain ⟨c, rest⟩ := found
    obtain ⟨⟨s, _⟩, hRead, hRest⟩ := exists_of_bind_eq_ok hRest
    obtain ⟨after, hAfter, hRest⟩ := exists_of_bind_eq_ok hRest
    obtain ⟨front, -, hRequest⟩ := exists_of_bind_eq_ok hRest
    cases hRequest
    have hStart : Scan.start.All P := fun x hx => nomatch hx
    exact ⟨c, front, after, rfl, Scan.all_finish hValue
      (Scan.all_readAll hValue hFlag hStart hRead) (Scan.eq_ok_of_orStop hAfter)⟩

/-! ## Numbers -/

theorem readDigits_lt {n k : Nat} {ds : Text} (hn : n < 1 <<< 64) (h : readDigits n ds = .ok k) :
    k < 1 <<< 64 := by
  induction ds generalizing n with
  | nil =>
    cases h
    exact hn
  | cons c cs ih =>
    rw [readDigits] at h
    dsimp only at h
    split at h
    · cases h
    · split at h
      · rename_i hNext
        exact ih hNext h
      · cases h

/-- A number, if it is positive. -/
def positive (n : Nat) : Except NumberError Nat := if n = 0 then .error .zero else .ok n

theorem positive_readDigits_range {ds : Text} {n : Nat} (h : readDigits 0 ds >>= positive = .ok n) :
    1 ≤ n ∧ n < 1 <<< 64 := by
  obtain ⟨k, hDigits, hPositive⟩ := exists_of_bind_eq_ok h
  rw [positive] at hPositive
  split at hPositive
  · cases hPositive
  · rename_i hne
    cases hPositive
    exact ⟨Nat.one_le_iff_ne_zero.2 hne, readDigits_lt (by decide) hDigits⟩

theorem readPositive_range {s : String} {n : Nat} (h : readPositive s = .ok n) :
    1 ≤ n ∧ n < 1 <<< 64 := by
  unfold readPositive at h
  split at h
  · cases h
  · cases h
  · exact positive_readDigits_range h
  · exact positive_readDigits_range h

/-- Whether the number of a setting, if it has one, is positive and fits into 64 bits. -/
def Setting.InRange : Setting → Prop
  | .line n | .offset n => 1 ≤ n ∧ n < 1 <<< 64
  | _ => True

theorem readNumber_range {arg : Arg} {value : String} {n : Nat}
    (h : readNumber arg value = .ok n) : 1 ≤ n ∧ n < 1 <<< 64 := by
  rw [readNumber] at h
  split at h
  · rename_i hRead
    cases h
    exact readPositive_range hRead
  · cases h

theorem Setting.inRange_ofValue (arg : Arg) (value : String) (x : Setting)
    (h : Setting.ofValue arg value = .ok x) : x.InRange := by
  cases arg with
  | line | offset =>
    obtain ⟨n, hRead, rfl⟩ := exists_of_map_eq_ok h
    exact readNumber_range hRead
  | config | path | format =>
    obtain ⟨_, -, rfl⟩ := exists_of_map_eq_ok h
    exact trivial
  | table =>
    cases h
    exact trivial
  | _ => cases h

theorem Setting.inRange_flag (level : Level) (arg : Arg) (x : Setting)
    (h : Scan.flag level arg = .ok x) : x.InRange := by
  cases arg <;> cases h <;> exact trivial

/-- **The offset of a request** is positive and fits into 64 bits. -/
theorem offset_of_parse {args : List String} {r : Request} {path : String} {n : Nat}
    {action : IndentAction} (h : parse args = .ok r)
    (hTask : r.task = .indent path (some n) action) : 1 ≤ n ∧ n < 1 <<< 64 := by
  obtain ⟨c, front, after, rfl, hRange⟩ :=
    exists_ofSettings_of_parse Setting.inRange_ofValue Setting.inRange_flag h
  cases c with
  | indent =>
    injection hTask with _ hOffset _
    obtain ⟨x, hx, hn⟩ := List.exists_of_findSome?_eq_some hOffset
    cases x with
    | offset k =>
      cases hn
      exact hRange _ hx
    | _ => cases hn
  | _ => cases hTask

theorem le_ofDigitChars (n : Nat) (ds : Text) : n ≤ Nat.ofDigitChars 10 ds n := by
  induction ds generalizing n with
  | nil => exact Nat.le_refl n
  | cons c cs ih =>
    rw [Nat.ofDigitChars_cons]
    exact Nat.le_trans (by omega) (ih _)

theorem readDigits_of_lt {n : Nat} {ds : Text} (hDigits : ∀ c ∈ ds, c.isDigit = true)
    (h : Nat.ofDigitChars 10 ds n < 1 <<< 64) :
    readDigits n ds = .ok (Nat.ofDigitChars 10 ds n) := by
  induction ds generalizing n with
  | nil => rfl
  | cons c cs ih =>
    obtain ⟨hc, hcs⟩ := List.forall_mem_cons.1 hDigits
    rw [Nat.ofDigitChars_cons] at h ⊢
    have hNext : n * 10 + (c.toNat - '0'.toNat) = 10 * n + (c.toNat - '0'.toNat) := by
      rw [Nat.mul_comm]
    rw [readDigits, hc]
    dsimp only
    rw [hNext, if_pos (Nat.lt_of_le_of_lt (le_ofDigitChars _ cs) h), ih hcs h]
    rfl

theorem readPositive_toString {n : Nat} (hPositive : 1 ≤ n) (h : n < 1 <<< 64) :
    readPositive (toString n) = .ok n := by
  have hDigits : ∀ c ∈ Nat.toDigits 10 n, c.isDigit = true :=
    fun c => Nat.isDigit_of_mem_toDigits (by decide) (by decide)
  have hRead : readDigits 0 (Nat.toDigits 10 n) = .ok n := by
    have hNumber : Nat.ofDigitChars 10 (Nat.toDigits 10 n) 0 = n :=
      Nat.ofDigitChars_toDigits (by decide) (by decide)
    rw [readDigits_of_lt hDigits (by rwa [hNumber]), hNumber]
  have hText : (toString n).toList = Nat.toDigits 10 n := Nat.toList_repr
  unfold readPositive
  split
  · rename_i hNil
    exact absurd (hText.symm.trans hNil) Nat.toDigits_ne_nil
  · rename_i hPlus
    exact absurd (hDigits '+' (by rw [← hText, hPlus]; exact List.mem_cons_self)) (by decide)
  · rename_i hPlus
    exact absurd (hDigits '+' (by rw [← hText, hPlus]; exact List.mem_cons_self)) (by decide)
  · show (readDigits 0 (toString n).toList >>= positive) = .ok n
    rw [hText, hRead]
    show positive n = .ok n
    rw [positive, if_neg (by omega)]

/-! ## A command line with an offset -/

namespace Scan

/-- What does not start with a dash is the value that is waited for, or an argument. -/
theorem read_of_head?_ne {a : String} (h : a.toList.head? ≠ some '-') (level : Level) (s : Scan) :
    (∀ arg, s.pending = some ⟨arg, none⟩ →
        s.read level a = .ok { s with pending := some ⟨arg, some a⟩ }) ∧
      (s.pending = none → s.read level a = s.readArgument level false a) := by
  unfold read
  split
  · rename_i hDash
    exact absurd (by rw [hDash]; rfl) h
  · rename_i hDash
    exact absurd (by rw [hDash]; rfl) h
  · constructor
    · intro arg hPending
      rw [hPending]
    · intro hPending
      rw [hPending]

theorem read_offset (s : Scan) :
    s.read (some .indent) "--offset" = orStop (s.suspend .offset none) := by
  have hText : "--offset".toList = ['-', '-', 'o', 'f', 'f', 's', 'e', 't'] := by decide +kernel
  have hName : Level.ofLong? (some .indent) (String.ofList ['o', 'f', 'f', 's', 'e', 't']) =
      some .offset := by decide +kernel
  unfold read
  rw [hText]
  show s.readLong (some .indent) ['o', 'f', 'f', 's', 'e', 't'] = _
  rw [readLong]
  have hSpan : (['o', 'f', 'f', 's', 'e', 't'] : Text).span (· != '=') =
      (['o', 'f', 'f', 's', 'e', 't'], []) := by decide +kernel
  rw [hSpan]
  dsimp only
  rw [hName]
  rfl

theorem settle_value (settled : List Setting) (arg : Arg) (value : String) :
    settle ⟨settled, some ⟨arg, some value⟩⟩ =
      add ⟨settled, none⟩ arg (Setting.ofValue arg value) :=
  rfl

theorem readAll_cons {c : Subcommand} {a : String} (ha : a ≠ "--") {s s' : Scan}
    (h : s.read (some c) a = .ok s') (rest : List String) :
    s.readAll (some c) (a :: rest) = s'.readAll (some c) rest := by
  rw [readAll]
  simp only [Option.isNone_some, Bool.false_and, Bool.false_eq_true, if_false, if_neg ha, h]
  rfl

theorem readAll_subcommand (rest : List String) :
    start.readAll none ("indent" :: rest) = .ok (start, some (.indent, rest)) := by
  have hHelp : ("indent" == Subcommand.helpName) = false := by decide +kernel
  have hName : Subcommand.ofName? "indent" = some .indent := by decide +kernel
  rw [readAll, hHelp, hName]
  rfl

end Scan

section Offset

variable {path : String} (hPath : path ≠ "") (hDash : path.toList.head? ≠ some '-') {n : Nat}
  (hPositive : 1 ≤ n) (hn : n < 1 <<< 64)
include hPath hDash

theorem readAll_offset :
    Scan.start.readAll (some .indent) [path, "--offset", toString n] =
      .ok (⟨[.path path], some ⟨.offset, some (toString n)⟩⟩, none) := by
  have hNumber : (toString n).toList.head? ≠ some '-' := by
    intro hHead
    have hMem : '-' ∈ Nat.toDigits 10 n := by
      rw [← Nat.toList_repr]
      exact List.mem_of_mem_head? hHead
    exact absurd (Nat.isDigit_of_mem_toDigits (by decide) (by decide) hMem) (by decide)
  have hDashes : ∀ a : String, a.toList.head? ≠ some '-' → a ≠ "--" := by
    rintro _ hHead rfl
    exact hHead (by decide +kernel)
  have hFirst : Scan.start.read (some .indent) path = .ok ⟨[], some ⟨.path, some path⟩⟩ := by
    rw [(Scan.read_of_head?_ne hDash _ _).2 rfl]
    rfl
  have hSetting : Setting.ofValue .path path = .ok (.path path) := by
    rw [Setting.ofValue, readPath, if_neg (by simpa using hPath)]
    rfl
  have hSecond : Scan.read (some .indent) ⟨[], some ⟨.path, some path⟩⟩ "--offset" =
      .ok ⟨[.path path], some ⟨.offset, none⟩⟩ := by
    rw [Scan.read_offset, Scan.suspend, Scan.settle_value, hSetting]
    rfl
  have hThird : Scan.read (some .indent) ⟨[.path path], some ⟨.offset, none⟩⟩ (toString n) =
      .ok ⟨[.path path], some ⟨.offset, some (toString n)⟩⟩ :=
    (Scan.read_of_head?_ne hNumber _ _).1 .offset rfl
  rw [Scan.readAll_cons (hDashes path hDash) hFirst, Scan.readAll_cons (by decide +kernel) hSecond,
    Scan.readAll_cons (hDashes _ hNumber) hThird]
  rfl

include hPositive hn

/-- Every positive number in 64 bits can be given as an offset. -/
theorem parse_offset :
    parse ["indent", path, "--offset", toString n] =
      .ok ⟨none, false, false, .indent path (some n) .print⟩ := by
  have hSetting : Setting.ofValue .offset (toString n) = .ok (.offset n) := by
    rw [Setting.ofValue, readNumber, readPositive_toString hPositive hn]
    rfl
  have hFinish : Scan.finish (some .indent) ⟨[.path path], some ⟨.offset, some (toString n)⟩⟩ =
      .ok [.path path, .offset n] := by
    rw [Scan.finish, Scan.settle_value, hSetting]
    rfl
  rw [parse, Scan.readAll_subcommand]
  show (Scan.start.readAll (some .indent) [path, "--offset", toString n] >>= _) = _
  rw [readAll_offset hPath hDash]
  show (Scan.orStop (Scan.finish (some .indent) _) >>= _) = _
  rw [hFinish]
  rfl

end Offset

end RexxEditing.Command
