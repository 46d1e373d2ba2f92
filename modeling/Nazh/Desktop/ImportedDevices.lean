import Nazh.Desktop.ImageOffsets

/-!
# Devices as they are imported

An imported device is checked like any other. Its signals have ids of their own, but the name of an
entry that begins with a digit gives an id that is refused. In a network, the id of a slave has its
address, unless the slave has no product code: then it is hashed from the name of the slave.
-/

namespace Nazh.Esi

open Lib

/-! ## What is expected -/

section Expected

variable (yaml : DeviceYaml) (showF64 : UInt64 → String)

/-- The slave that a device is. -/
def DeviceSpec.slaveAddress (spec : DeviceSpec) : Option UInt16 :=
  spec.ethercatIdentity.bind EthercatIdentity.slaveAddress

/-- Each text is read back as a valid device whose signals have different ids, and the devices of
different slaves have different ids. -/
structure GoodDevices (result : EsiImportResult) : Prop where
  valid : ∀ text ∈ result.deviceYamls, ∃ spec, yaml.fromStr text = .ok spec ∧
    spec.toDeviceSpec.isValid showF64 = true ∧ Distinct spec.signals
  apart : result.deviceYamls.Pairwise fun text text' =>
    ∀ spec spec', yaml.fromStr text = .ok spec → yaml.fromStr text' = .ok spec' →
      spec.slaveAddress ≠ spec'.slaveAddress → spec.id ≠ spec'.id

end Expected

/-- A prefix is an id; without one, the first ASCII letter or digit of the name is a letter. -/
def WellNamed (e : PlacedEntry) : Prop :=
  if e.pdo.signalPrefix.getD "" = "" then
    ∀ name ∈ e.entry.name, ∀ c ∈ name.toList.find? Char.isAlphanum, c.isAlpha = true
  else Dsl.isSignalId (e.pdo.signalPrefix.getD "") = true

/-- The signals of a slave in a network. -/
def slaveImage (slave : EniSlave) : List PlacedEntry := image (eniSlaveToDevice slave "").1

/-- The signals that a file gives. -/
def importedEntries : EsiDocument → List PlacedEntry
  | .esi devices => (devices.head?.map image).getD []
  | .eni _ slaves => slaves.flatMap slaveImage

/-- What the id of a slave without product code is made of. -/
def labelHash (slave : EniSlave) : ℕ :=
  (deterministicHash (Text.asBytes (slave.name.getD "ethercat_slave").toList)).toNat % 1000000

/-- Two slaves at different addresses have the same id. -/
def Collide (slave slave' : EniSlave) : Prop :=
  slave.physAddr ≠ slave'.physAddr ∧ slave.productCode = none ∧ slave'.productCode = none ∧
    labelHash slave = labelHash slave'

/-- The names in a file give ids, and no two of its slaves that give a device get the same. -/
structure GoodNames (document : EsiDocument) : Prop where
  named : ∀ e ∈ importedEntries document, WellNamed e
  apart : ∀ xml slaves, document = .eni xml slaves →
    (slaves.filter fun slave => !(slaveImage slave).isEmpty).Pairwise fun slave slave' =>
      ¬ Collide slave slave'

/-! ## Ids of signals -/

/-- A character that may stand in an id. -/
def isIdChar (c : Char) : Bool := c.isAlphanum || c == '_'

theorem isSignalId_cons {id : String} {c : Char} {cs : List Char} (h : id.toList = c :: cs) :
    Dsl.isSignalId id = ((c.isAlpha || c == '_') && cs.all isIdChar) := by
  rw [Dsl.isSignalId, h]
  rfl

/-- What comes behind an id must be made of such characters. -/
theorem isSignalId_append {base more : String} (hbase : base ≠ "") :
    Dsl.isSignalId (base ++ more) = (Dsl.isSignalId base && more.toList.all isIdChar) := by
  obtain ⟨c, cs, hlist⟩ := List.exists_cons_of_ne_nil
    (fun h => hbase (String.toList_eq_nil_iff.mp h) : base.toList ≠ [])
  have happend : (base ++ more).toList = c :: (cs ++ more.toList) := by
    rw [String.toList_append, hlist]
    rfl
  rw [isSignalId_cons happend, isSignalId_cons hlist, List.all_append, Bool.and_assoc]

/-- The same behind an underscore. -/
theorem isSignalId_join {base more : String} (hbase : base ≠ "") :
    Dsl.isSignalId s!"{base}_{more}" = (Dsl.isSignalId base && more.toList.all isIdChar) := by
  have hassoc : s!"{base}_{more}" = base ++ ("_" ++ more) := String.append_assoc
  have hsep : '_' = '_' ∧ isIdChar '_' = true := by decide
  rw [hassoc, isSignalId_append hbase, String.toList_append, List.all_append]
  congr 1

theorem join_ne_empty {base more : String} : s!"{base}_{more}" ≠ "" := by
  intro h
  have hlist := congrArg String.toList h
  simp [toString] at hlist

/-- The numbers of letters and digits. -/
theorem toNat_of_isAlphanum {c : Char} (h : c.isAlphanum = true) :
    48 ≤ c.toNat ∧ c.toNat ≤ 122 := by
  have hval : c.val.toNat = c.toNat := rfl
  delta Char.isAlphanum Char.isAlpha Char.isUpper Char.isLower Char.isDigit at h
  simp only [Bool.or_eq_true, Bool.and_eq_true, decide_eq_true_eq, UInt32.le_iff_toNat_le,
    ge_iff_le] at h
  have hfirst : 'A'.val.toNat = 65 ∧ 'a'.val.toNat = 97 ∧ '0'.val.toNat = 48 := by decide
  have hlast : 'Z'.val.toNat = 90 ∧ 'z'.val.toNat = 122 ∧ '9'.val.toNat = 57 := by decide
  omega

/-- A letter or digit in lower case. -/
theorem toLower_spec {c : Char} (h : c.isAlphanum = true) :
    c.toLower.isAlphanum = true ∧ c.toLower.isAlpha = c.isAlpha ∧ c.toLower ≠ '_' := by
  have hall : ∀ n < 123, (Char.ofNat n).isAlphanum = true →
      (Char.ofNat n).toLower.isAlphanum = true ∧
        (Char.ofNat n).toLower.isAlpha = (Char.ofNat n).isAlpha ∧ (Char.ofNat n).toLower ≠ '_' := by
    decide
  have hc := hall c.toNat (Nat.lt_succ_of_le (toNat_of_isAlphanum h).2)
  rw [Char.ofNat_toNat] at hc
  exact hc h

theorem not_isWhitespace_of_isIdChar {c : Char} (h : isIdChar c = true) :
    Text.isWhitespace c = false := by
  have hrange : 48 ≤ c.toNat ∧ c.toNat ≤ 122 := by
    rcases Bool.or_eq_true _ _ ▸ h with halnum | hsep
    · exact toNat_of_isAlphanum halnum
    · rw [beq_iff_eq.mp hsep]
      decide
  simp [Text.isWhitespace]
  omega

/-- What sanitizing leaves is made of letters, digits and underscores. -/
theorem sanitizeChars_all (lastWasSep : Bool) (s : List Char) :
    (sanitizeChars lastWasSep s).all isIdChar = true := by
  induction s generalizing lastWasSep with
  | nil => rfl
  | cons ch chars ih =>
      rw [sanitizeChars]
      split
      · rename_i halnum
        rw [List.all_cons, ih, isIdChar, (toLower_spec halnum).1]
        rfl
      · split
        · exact ih true
        · rw [List.all_cons, ih]
          rfl

/-- Before the first letter or digit there is at most a separator. -/
theorem dropWhile_sanitizeChars (lastWasSep : Bool) (s : List Char) :
    (∃ c cs, s.find? Char.isAlphanum = some c ∧
        (sanitizeChars lastWasSep s).dropWhile (· = '_') = c.toLower :: cs) ∨
      s.find? Char.isAlphanum = none ∧ (sanitizeChars lastWasSep s).dropWhile (· = '_') = [] := by
  induction s generalizing lastWasSep with
  | nil => exact .inr ⟨rfl, rfl⟩
  | cons ch chars ih =>
      rw [sanitizeChars]
      by_cases halnum : ch.isAlphanum = true
      · refine .inl ⟨ch, sanitizeChars false chars, List.find?_cons_of_pos halnum, ?_⟩
        rw [if_pos halnum, List.dropWhile_cons_of_neg (by simpa using (toLower_spec halnum).2.2)]
      · rw [if_neg halnum, List.find?_cons_of_neg halnum]
        split
        · exact ih true
        · rw [List.dropWhile_cons_of_pos (by decide)]
          exact ih true

/-- Cutting underscores off keeps the first of the other characters in front. -/
theorem trimUnderscores_eq_cons {s cs : List Char} {c : Char}
    (h : s.dropWhile (· = '_') = c :: cs) (hc : c ≠ '_') :
    ∃ rest, trimUnderscores s = c :: rest := by
  rw [trimUnderscores, h, List.reverse_cons, List.dropWhile_append]
  split
  · rw [List.dropWhile_cons_of_neg (by simpa using hc)]
    exact ⟨[], rfl⟩
  · exact ⟨_, by rw [List.reverse_append]; rfl⟩

theorem mem_of_mem_trimUnderscores {s : List Char} {c : Char} (h : c ∈ trimUnderscores s) :
    c ∈ s := by
  rw [trimUnderscores, List.mem_reverse] at h
  have hfront := List.mem_reverse.mp ((List.dropWhile_sublist _).mem h)
  exact (List.dropWhile_sublist _).mem hfront

theorem sanitizeIdentifier_all (name : String) :
    (sanitizeIdentifier name).toList.all isIdChar = true := by
  rw [sanitizeIdentifier, String.toList_ofList]
  refine List.all_eq_true.mpr fun c hc => ?_
  exact List.all_eq_true.mp (sanitizeChars_all false name.toList) c (mem_of_mem_trimUnderscores hc)

/-- What is left of a name: nothing, if it has neither letters nor digits, or else an id if the
first of these is a letter. -/
theorem sanitizeIdentifier_cases (name : String) :
    name.toList.find? Char.isAlphanum = none ∧ sanitizeIdentifier name = "" ∨
      ∃ c, name.toList.find? Char.isAlphanum = some c ∧ sanitizeIdentifier name ≠ "" ∧
        Dsl.isSignalId (sanitizeIdentifier name) = c.isAlpha := by
  rcases dropWhile_sanitizeChars false name.toList with ⟨c, cs, hfirst, hdrop⟩ | ⟨hnone, hdrop⟩
  · have halnum : c.isAlphanum = true := by simpa using List.find?_some hfirst
    obtain ⟨hlower, halpha, hne⟩ := toLower_spec halnum
    obtain ⟨rest, htrim⟩ := trimUnderscores_eq_cons hdrop hne
    have hlist : (sanitizeIdentifier name).toList = c.toLower :: rest := by
      rw [sanitizeIdentifier, String.toList_ofList, htrim]
    have hrest : rest.all isIdChar = true := by
      have hall := sanitizeIdentifier_all name
      rw [hlist, List.all_cons, Bool.and_eq_true] at hall
      exact hall.2
    refine .inr ⟨c, hfirst, ?_, ?_⟩
    · intro hempty
      rw [hempty] at hlist
      cases hlist
    · rw [isSignalId_cons hlist, hrest, Bool.and_true, halpha, beq_eq_false_iff_ne.mpr hne,
        Bool.or_false]
  · refine .inl ⟨hnone, ?_⟩
    rw [sanitizeIdentifier, trimUnderscores, hdrop]
    rfl

/-- Hexadecimal digits are letters and digits. -/
theorem isAlphanum_of_mem_toDigits (n : ℕ) : ∀ c ∈ Nat.toDigits 16 n, c.isAlphanum = true := by
  have hdigit : ∀ d < 16, (Nat.digitChar d).isAlphanum = true := by decide
  induction n using Nat.strong_induction_on with
  | _ n ih =>
      by_cases hlt : n < 16
      · rw [Nat.toDigits_of_lt_base hlt]
        exact fun c hc => List.mem_singleton.mp hc ▸ hdigit n hlt
      · rw [Nat.toDigits_of_base_le (by decide) (Nat.not_lt.mp hlt)]
        intro c hc
        rcases List.mem_append.mp hc with hfront | hlast
        · exact ih (n / 16) (by omega) c hfront
        · exact List.mem_singleton.mp hlast ▸ hdigit _ (Nat.mod_lt n (by decide))

theorem isAlphanum_of_mem_padded {width n : ℕ} {c : Char} (h : c ∈ padded 16 width n) :
    c.isAlphanum = true := by
  rcases List.mem_append.mp h with hzero | hdigit
  · rw [List.eq_of_mem_replicate hzero]
    decide
  · exact isAlphanum_of_mem_toDigits n c hdigit

/-- Numbers may stand in an id. -/
theorem all_isIdChar_toString (n : ℕ) : (toString n).toList.all isIdChar = true := by
  rw [Nat.toString_eq_ofList_toDigits, String.toList_ofList]
  refine List.all_eq_true.mpr fun c hc => ?_
  have hdigit := Nat.isDigit_of_mem_toDigits (by decide) (by decide) hc
  rw [isIdChar, Char.isAlphanum, hdigit, Bool.or_true, Bool.true_or]

theorem all_isIdChar_of_isSignalId {id : String} (h : Dsl.isSignalId id = true) :
    id.toList.all isIdChar = true := by
  cases hlist : id.toList with
  | nil => rfl
  | cons c cs =>
      rw [isSignalId_cons hlist, Bool.and_eq_true] at h
      rw [List.all_cons, h.2, Bool.and_true, isIdChar, Char.isAlphanum]
      rcases Bool.or_eq_true _ _ ▸ h.1 with halpha | hsep
      · rw [halpha, Bool.true_or, Bool.true_or]
      · rw [hsep, Bool.or_true]

/-- What an entry is called is an id, unless its name begins with a digit. -/
theorem entryBase_spec (direction : PdoDirection) (entry : EsiPdoEntry) (entryIndex : UInt16)
    (subIndex : UInt8) :
    entryBase direction entry entryIndex subIndex ≠ "" ∧
      (entryBase direction entry entryIndex subIndex).toList.all isIdChar = true ∧
      (Dsl.isSignalId (entryBase direction entry entryIndex subIndex) = true ↔
        ∀ name ∈ entry.name, ∀ c ∈ name.toList.find? Char.isAlphanum, c.isAlpha = true) := by
  -- the place of an entry
  have hplace : ∀ name ∈ ["tx", "rx"], Dsl.isSignalId
      s!"{name}_{String.ofList (padded 16 4 entryIndex.toNat)}_{subIndex.toNat}" = true := by
    intro name hname
    have hid : name ≠ "" ∧ Dsl.isSignalId name = true := by
      rcases List.mem_pair.mp hname with rfl | rfl
      · exact ⟨by decide, by decide⟩
      · exact ⟨by decide, by decide⟩
    have hindex : (String.ofList (padded 16 4 entryIndex.toNat)).toList.all isIdChar = true := by
      rw [String.toList_ofList]
      refine List.all_eq_true.mpr fun c hc => ?_
      rw [isIdChar, isAlphanum_of_mem_padded hc, Bool.true_or]
    have houter := @isSignalId_join s!"{name}_{String.ofList (padded 16 4 entryIndex.toNat)}"
      (toString subIndex.toNat) join_ne_empty
    rw [isSignalId_join hid.1, hid.2, hindex, all_isIdChar_toString] at houter
    exact houter
  obtain ⟨place, hbase, hne, hid⟩ : ∃ place, entryBase direction entry entryIndex subIndex =
      ((entry.name.map sanitizeIdentifier).filter (· ≠ "")).getD place ∧ place ≠ "" ∧
        Dsl.isSignalId place = true := by
    cases direction with
    | tx => exact ⟨_, rfl, join_ne_empty, hplace "tx" (by decide)⟩
    | rx => exact ⟨_, rfl, join_ne_empty, hplace "rx" (by decide)⟩
  have hown : entryBase direction entry entryIndex subIndex = place →
      (∀ name ∈ entry.name, name.toList.find? Char.isAlphanum = none) →
      entryBase direction entry entryIndex subIndex ≠ "" ∧
        (entryBase direction entry entryIndex subIndex).toList.all isIdChar = true ∧
        (Dsl.isSignalId (entryBase direction entry entryIndex subIndex) = true ↔
          ∀ name ∈ entry.name, ∀ c ∈ name.toList.find? Char.isAlphanum, c.isAlpha = true) := by
    intro heq hnone
    rw [heq]
    refine ⟨hne, all_isIdChar_of_isSignalId hid, iff_of_true hid fun name hname c hc => ?_⟩
    rw [hnone name hname] at hc
    cases hc
  cases hname : entry.name with
  | none =>
      rw [hname] at hown hbase
      exact hown hbase fun name hmem => nomatch hmem
  | some name =>
      rw [hname] at hown hbase
      rcases sanitizeIdentifier_cases name with ⟨hnone, hempty⟩ | ⟨c, hfirst, hfilled, hsigned⟩
      · refine hown ?_ fun other hother => Option.some.inj hother ▸ hnone
        rw [hbase, Option.map_some, hempty]
        rfl
      · have heq : entryBase direction entry entryIndex subIndex = sanitizeIdentifier name := by
          rw [hbase, Option.map_some, Option.filter_some_pos (by simpa using hfilled)]
          rfl
        rw [heq]
        refine ⟨hfilled, sanitizeIdentifier_all name, ?_⟩
        rw [hsigned]
        constructor
        · intro halpha other hother d hd
          obtain rfl := Option.some.inj hother
          rw [hfirst] at hd
          exact Option.some.inj hd ▸ halpha
        · exact fun h => h name rfl c hfirst

/-- Which entries give ids. -/
theorem isSignalId_signalBase (e : PlacedEntry) :
    signalBase e.pdo e.entry e.entryIndex e.subIndex ≠ "" ∧
      (Dsl.isSignalId (signalBase e.pdo e.entry e.entryIndex e.subIndex) = true ↔ WellNamed e) := by
  obtain ⟨hne, hall, hid⟩ := entryBase_spec e.pdo.direction e.entry e.entryIndex e.subIndex
  rw [signalBase, WellNamed]
  cases hgiven : e.pdo.signalPrefix with
  | none => exact ⟨hne, hid.trans (by simp)⟩
  | some signalPrefix =>
      dsimp only [Option.getD_some]
      by_cases hempty : signalPrefix = ""
      · rw [if_pos hempty, if_pos hempty]
        exact ⟨hne, hid⟩
      · rw [if_neg hempty, if_neg hempty, isSignalId_join hempty, hall, Bool.and_true]
        exact ⟨join_ne_empty, Iff.rfl⟩

/-- A signal that is named after an entry has an id exactly if the entry gives one. -/
theorem NamedFor.isSignalId_iff {e : PlacedEntry} {signal : Dsl.SignalSpec}
    (h : NamedFor e signal) :
    (Text.trim signal.id ≠ "" ∧ Dsl.isSignalId signal.id = true) ↔ WellNamed e := by
  obtain ⟨hne, hid⟩ := isSignalId_signalBase e
  have hsame : signal.id ≠ "" ∧ (Dsl.isSignalId signal.id = true ↔ WellNamed e) := by
    rcases h with heq | ⟨n, heq⟩
    · rw [heq]
      exact ⟨hne, hid⟩
    · have hjoin := @isSignalId_join _ (toString n) hne
      rw [all_isIdChar_toString, Bool.and_true] at hjoin
      rw [heq]
      exact ⟨join_ne_empty, (Bool.eq_iff_iff.mp hjoin).trans hid⟩
  rw [← hsame.2]
  refine and_iff_right_of_imp fun hgood => ?_
  -- an id has no white space to trim
  have htrim : Text.trim signal.id = signal.id := Text.trim_eq_self fun c hc =>
    not_isWhitespace_of_isIdChar
      (List.all_eq_true.mp (all_isIdChar_of_isSignalId hgood) c hc)
  rw [htrim]
  exact hsame.1

/-! ## Validity -/

section Valid

variable {showF64 : UInt64 → String} {signals : List Dsl.SignalSpec}

theorem faultless_warning {reason : Bool} {path message : String} :
    Dsl.Faultless (Dsl.diagnose .warning reason path message) := by
  cases reason <;> simp [Dsl.Faultless, Dsl.diagnose]

theorem faultless_nil : Dsl.Faultless [] := fun _ hmem => absurd hmem List.not_mem_nil

/-- Signals without ranges and scales are only complained about for their ids. -/
theorem faultless_signalsDiagnostics {connection : Option ConnectionRef} {i : ℕ}
    {seen : List String} (hplain : ∀ s ∈ signals, s.range = none ∧ s.scale = none)
    (hids : ∀ s ∈ signals, (Text.trim s.id ≠ "" ∧ Dsl.isSignalId s.id = true) ∧ s.id ∉ seen)
    (hdistinct : Distinct signals) :
    Dsl.Faultless (Dsl.signalsDiagnostics showF64 connection i seen signals) := by
  induction signals generalizing i seen with
  | nil => exact faultless_nil
  | cons signal rest ih =>
      obtain ⟨⟨hblank, hid⟩, hnew⟩ := hids signal List.mem_cons_self
      obtain ⟨hrange, hscale⟩ := hplain signal List.mem_cons_self
      have hanalog (path : String) : Dsl.Faultless (Dsl.analogDiagnostics path signal) := by
        rw [Dsl.analogDiagnostics]
        split
        · exact Dsl.faultless_append.mpr ⟨faultless_warning, faultless_warning⟩
        · exact faultless_nil
      have hsource (path : String) :
          Dsl.Faultless (Dsl.sourceDiagnostics path signal connection) := by
        cases connection with
        | none => exact faultless_nil
        | some conn => exact faultless_warning
      obtain ⟨hhead, hrest⟩ := List.nodup_cons.mp (show (signal.id :: _).Nodup from hdistinct)
      rw [Dsl.signalsDiagnostics, hrange, hscale, if_neg (by simpa using hblank)]
      simp only [Dsl.faultless_append]
      refine ⟨⟨⟨⟨⟨?_, faultless_nil⟩, hanalog _⟩, hsource _⟩, faultless_nil⟩, ?_⟩
      · rw [Dsl.signalIdDiagnostics, if_neg (by simpa using hblank), Dsl.faultless_append,
          Dsl.faultless_diagnose, Dsl.faultless_diagnose]
        exact ⟨by simp [hid], by simpa using hnew⟩
      · refine ih (fun s hs => hplain s (List.mem_cons_of_mem _ hs)) (fun s hs => ?_) hrest
        obtain ⟨hgood, hunseen⟩ := hids s (List.mem_cons_of_mem _ hs)
        refine ⟨hgood, fun hmem => ?_⟩
        rcases List.mem_cons.mp hmem with heq | hold
        · exact hhead (heq ▸ List.mem_map_of_mem hs)
        · exact hunseen hold

/-- A device with such signals and without alarms is valid if they have ids of their own. -/
theorem isValid_iff_ids {device : Dsl.DeviceSpec} (halarms : device.alarms = [])
    (hplain : ∀ s ∈ device.signals, s.range = none ∧ s.scale = none)
    (hdistinct : Distinct device.signals) : device.isValid showF64 = true ↔
      ∀ s ∈ device.signals, Text.trim s.id ≠ "" ∧ Dsl.isSignalId s.id = true := by
  rw [Dsl.isValid_iff, Dsl.DeviceSpec.validate, halarms]
  simp only [Dsl.faultless_append]
  constructor
  · rintro ⟨⟨hsignals, -⟩, -⟩ s hs
    obtain ⟨hblank, hid, -⟩ := (Dsl.of_signalsDiagnostics hsignals).1 s hs
    exact ⟨hblank, hid⟩
  · intro hids
    refine ⟨⟨faultless_signalsDiagnostics hplain (fun s hs => ⟨hids s hs, List.not_mem_nil⟩)
      hdistinct, faultless_warning⟩, faultless_nil⟩

variable {overflowChecks : Bool} {device : EsiDevice} {warnings : List String}

/-- A device with the signals that were built is valid exactly if their entries give ids. -/
theorem built_spec (h : buildSignals overflowChecks device = some (signals, warnings)) :
    Distinct signals ∧ (signals = [] ↔ image device = []) ∧
      ∀ spec : Dsl.DeviceSpec, spec.signals = signals → spec.alarms = [] →
        (spec.isValid showF64 = true ↔ ∀ e ∈ image device, WellNamed e) := by
  rcases buildSignals_cases overflowChecks device with
    ⟨hnone, -, -⟩ | ⟨new, more, hsome, -, hall, hdistinct⟩
  · rw [hnone] at h
    cases h
  · obtain ⟨hnew, -⟩ := Prod.mk.inj (Option.some.inj (h.symm.trans hsome))
    rw [List.nil_append] at hnew hdistinct
    rw [← hnew] at hall hdistinct
    have hdistinct : Distinct signals := hdistinct List.nodup_nil
    refine ⟨hdistinct, ?_, fun spec hsignals halarms => ?_⟩
    · rw [← List.length_eq_zero_iff, ← List.length_eq_zero_iff, hall.length_eq]
    · subst hsignals
      have hplain : ∀ s ∈ spec.signals, s.range = none ∧ s.scale = none :=
        (forall_mem_iff_of_forall₂ (p := fun _ => True) hall fun e s hes =>
          iff_of_true trivial ⟨hes.range, hes.scale⟩).mp fun _ _ => trivial
      rw [isValid_iff_ids halarms hplain hdistinct]
      exact (forall_mem_iff_of_forall₂ hall fun e s hes => hes.named.isSignalId_iff.symm).symm

end Valid

/-! ## Ids of slaves -/

/-- A padded number tells the number. -/
theorem padded_injective (width : ℕ) : Function.Injective (padded 10 width) := by
  have hread (n : ℕ) : Nat.ofDigitChars 10 (padded 10 width n) 0 = n := by
    rw [padded, Nat.ofDigitChars_append, Nat.ofDigitChars_replicate_zero, Nat.mul_zero,
      Nat.ofDigitChars_ten_toDigits]
  intro m n h
  rw [← hread m, h, hread]

/-- A padded number has no underscore. -/
theorem underscore_not_mem_padded (width n : ℕ) : '_' ∉ padded 10 width n := by
  intro hmem
  rcases List.mem_append.mp hmem with hzero | hdigit
  · exact absurd (List.eq_of_mem_replicate hzero) (by decide)
  · exact Nat.underscore_not_in_toDigits hdigit

/-- The id of a slave with a product code and an address. -/
theorem toList_eniSlaveDeviceId {slave : EniSlave} {productCode : UInt32} {addr : UInt16}
    (hcode : slave.productCode = some productCode) (haddr : slave.physAddr = some addr) :
    (eniSlaveDeviceId slave).toList =
      padded 16 6 (productCode.toNat % 1000000) ++ '_' :: (toString addr.toNat).toList := by
  rw [eniSlaveDeviceId, hcode, haddr]
  simp [toString]

/-- Slaves at different addresses have different ids, unless they collide. -/
theorem eniSlaveDeviceId_eq_iff {slave slave' : EniSlave} (h : slave.physAddr ≠ none)
    (h' : slave'.physAddr ≠ none) (hother : slave.physAddr ≠ slave'.physAddr) :
    eniSlaveDeviceId slave = eniSlaveDeviceId slave' ↔ Collide slave slave' := by
  obtain ⟨addr, haddr⟩ := Option.ne_none_iff_exists'.mp h
  obtain ⟨addr', haddr'⟩ := Option.ne_none_iff_exists'.mp h'
  -- an id that was hashed from a name has no underscore
  have hlabel {a b : EniSlave} {code : UInt32} {at' : UInt16} (hnone : a.productCode = none)
      (hcode : b.productCode = some code) (hat : b.physAddr = some at') :
      eniSlaveDeviceId a ≠ eniSlaveDeviceId b := by
    intro heq
    have hlist := congrArg String.toList heq
    rw [toList_eniSlaveDeviceId hcode hat, eniSlaveDeviceId, hnone, labelId,
      String.toList_ofList] at hlist
    exact underscore_not_mem_padded _ _
      (hlist ▸ List.mem_append_right _ List.mem_cons_self)
  cases hcode : slave.productCode with
  | some code =>
      have hno : ¬ Collide slave slave' := fun hcollide => by
        exact absurd (hcode.symm.trans hcollide.2.1) (Option.some_ne_none _)
      refine iff_of_false (fun heq => ?_) hno
      cases hcode' : slave'.productCode with
      | none => exact hlabel hcode' hcode haddr heq.symm
      | some code' =>
          have hlist := congrArg String.toList heq
          rw [toList_eniSlaveDeviceId hcode haddr, toList_eniSlaveDeviceId hcode' haddr'] at hlist
          have hhex {n : ℕ} : '_' ∉ padded 16 6 n := fun hmem =>
            absurd (isAlphanum_of_mem_padded hmem) (by decide)
          have htail := String.toList_injective (append_cons_inj hhex hhex hlist).2
          have hnumber := Text.isDecimal_toString addr.toNat
          rw [htail] at hnumber
          have hsame := hnumber.unique (Text.isDecimal_toString addr'.toNat)
          rw [haddr, haddr', UInt16.toNat_inj.mp hsame] at hother
          exact hother rfl
  | none =>
      cases hcode' : slave'.productCode with
      | some code' =>
          refine iff_of_false (hlabel hcode hcode' haddr') fun hcollide => ?_
          exact absurd (hcode'.symm.trans hcollide.2.2.1) (Option.some_ne_none _)
      | none =>
          rw [eniSlaveDeviceId, eniSlaveDeviceId, hcode, hcode', labelId, labelId]
          constructor
          · intro heq
            exact ⟨hother, hcode, hcode', padded_injective 6 (String.ofList_injective heq)⟩
          · intro hcollide
            exact congrArg (fun n => String.ofList (padded 10 6 n)) hcollide.2.2.2

/-! ## Files -/

variable {overflowChecks : Bool} {yaml : DeviceYaml} {showF64 : UInt64 → String}

/-- The signals of a slave do not depend on its group. -/
theorem image_eniSlaveToDevice (slave : EniSlave) (groupId : String) :
    image (eniSlaveToDevice slave groupId).1 = slaveImage slave := by
  rw [slaveImage, eniSlaveToDevice, eniSlaveToDevice]
  cases slave.physAddr <;> rfl

/-- A slave that has signals has an address. -/
theorem physAddr_ne_none {slave : EniSlave} (h : (!(slaveImage slave).isEmpty) = true) :
    slave.physAddr ≠ none := by
  intro hnone
  rw [slaveImage, eniSlaveToDevice, hnone] at h
  cases h

/-- A text is that of the device of a slave. -/
def Exports (overflowChecks : Bool) (yaml : DeviceYaml) (groupId : String) (slave : EniSlave)
    (text : String) : Prop :=
  (!(slaveImage slave).isEmpty) = true ∧ ∃ signals warnings,
    buildSignals overflowChecks (eniSlaveToDevice slave groupId).1 = some (signals, warnings) ∧
      yaml.toString (eniSpec slave groupId signals) = .ok text

/-- Each slave with signals gives a text, in their order. -/
theorem importSlaves_spec {groupId : String} {slaves : List EniSlave} {yamls warnings : List String}
    (h : importSlaves overflowChecks yaml groupId slaves = some (.ok (yamls, warnings))) :
    List.Forall₂ (Exports overflowChecks yaml groupId)
      (slaves.filter fun slave => !(slaveImage slave).isEmpty) yamls := by
  induction slaves generalizing yamls warnings with
  | nil =>
      cases h
      exact .nil
  | cons slave rest ih =>
      rw [importSlaves] at h
      obtain ⟨⟨signals, more⟩, hbuilt, h⟩ := Option.bind_eq_some_iff.mp h
      have himage := (@built_spec (fun _ => "") _ _ _ _ hbuilt).2.1
      rw [image_eniSlaveToDevice] at himage
      dsimp only at h
      split at h
      · rename_i hempty
        have hnone : (!(slaveImage slave).isEmpty) = false := by
          simp [himage.mp (List.isEmpty_iff.mp hempty)]
        obtain ⟨later, hlater, hmap⟩ := Option.map_eq_some_iff.mp h
        cases later with
        | error error => cases hmap
        | ok later =>
            obtain ⟨rfl, -⟩ := Prod.mk.inj (Except.ok.inj hmap)
            rw [List.filter_cons_of_neg (by rw [hnone]; exact Bool.false_ne_true)]
            exact ih hlater
      · rename_i hfilled
        have hsome : (!(slaveImage slave).isEmpty) = true := by
          rw [List.isEmpty_eq_false_iff.mpr fun hempty =>
            hfilled (List.isEmpty_iff.mpr (himage.mpr hempty))]
          rfl
        cases htext : yaml.toString (eniSpec slave groupId signals) with
        | error error =>
            rw [specYaml, htext] at h
            cases h
        | ok text =>
            rw [specYaml, htext] at h
            obtain ⟨later, hlater, hmap⟩ := Option.map_eq_some_iff.mp h
            cases later with
            | error error => cases hmap
            | ok later =>
                obtain ⟨rfl, -⟩ := Prod.mk.inj (Except.ok.inj hmap)
                rw [List.filter_cons, if_pos hsome]
                exact .cons ⟨hsome, signals, more, hbuilt, htext⟩ (ih hlater)

/-- A text that is read back is that of a good device exactly if the entries give ids. -/
theorem valid_iff {device : EsiDevice} {signals : List Dsl.SignalSpec} {warnings : List String}
    {spec : DeviceSpec} {text : String}
    (hyaml : ∀ spec text, yaml.toString spec = .ok text → yaml.fromStr text = .ok spec)
    (hbuilt : buildSignals overflowChecks device = some (signals, warnings))
    (hsignals : spec.signals = signals) (halarms : spec.alarms = [])
    (htext : yaml.toString spec = .ok text) :
    (∃ spec, yaml.fromStr text = .ok spec ∧ spec.toDeviceSpec.isValid showF64 = true ∧
        Distinct spec.signals) ↔ ∀ e ∈ image device, WellNamed e := by
  obtain ⟨hdistinct, -, hvalid⟩ := @built_spec showF64 _ _ _ _ hbuilt
  rw [← hvalid spec.toDeviceSpec hsignals halarms]
  constructor
  · rintro ⟨other, hread, hgood, -⟩
    obtain rfl := Except.ok.inj ((hyaml spec text htext).symm.trans hread)
    exact hgood
  · exact fun hgood => ⟨spec, hyaml spec text htext, hgood, hsignals ▸ hdistinct⟩

/-- The device of a slave is good exactly if the entries of the slave give ids. -/
theorem Exports.valid_iff {groupId : String} {slave : EniSlave} {text : String}
    (h : Exports overflowChecks yaml groupId slave text)
    (hyaml : ∀ spec text, yaml.toString spec = .ok text → yaml.fromStr text = .ok spec) :
    (∀ e ∈ slaveImage slave, WellNamed e) ↔ ∃ spec, yaml.fromStr text = .ok spec ∧
      spec.toDeviceSpec.isValid showF64 = true ∧ Distinct spec.signals := by
  obtain ⟨-, signals, warnings, hbuilt, htext⟩ := h
  rw [← image_eniSlaveToDevice slave groupId]
  exact (Esi.valid_iff hyaml hbuilt rfl rfl htext).symm

/-- The devices of two slaves have ids of their own exactly if the slaves do not collide. -/
theorem Exports.apart_iff {groupId : String} {slave slave' : EniSlave} {text text' : String}
    (h : Exports overflowChecks yaml groupId slave text)
    (hyaml : ∀ spec text, yaml.toString spec = .ok text → yaml.fromStr text = .ok spec)
    (h' : Exports overflowChecks yaml groupId slave' text') :
    ¬ Collide slave slave' ↔ ∀ spec spec', yaml.fromStr text = .ok spec →
      yaml.fromStr text' = .ok spec' → spec.slaveAddress ≠ spec'.slaveAddress →
        spec.id ≠ spec'.id := by
  obtain ⟨hfilled, signals, -, -, htext⟩ := h
  obtain ⟨hfilled', signals', -, -, htext'⟩ := h'
  have heq := @eniSlaveDeviceId_eq_iff slave slave' (physAddr_ne_none hfilled)
    (physAddr_ne_none hfilled')
  constructor
  · intro hapart spec spec' hread hread' hother hsame
    obtain rfl := Except.ok.inj ((hyaml _ text htext).symm.trans hread)
    obtain rfl := Except.ok.inj ((hyaml _ text' htext').symm.trans hread')
    exact hapart ((heq hother).mp hsame)
  · intro hapart hcollide
    exact hapart _ _ (hyaml _ text htext) (hyaml _ text' htext') hcollide.1
      ((heq hcollide.1).mpr hcollide)

/-- The loop of `unique_signal_id` ends, with an id that no signal has. A file that is imported
gives good devices if and only if its names are good. -/
theorem goodDevices_iff (overflowChecks : Bool) (yaml : DeviceYaml) (showF64 : UInt64 → String)
    (hyaml : ∀ spec text, yaml.toString spec = .ok text → yaml.fromStr text = .ok spec)
    (document : EsiDocument) (result : EsiImportResult)
    (h : importEsiToDeviceYaml overflowChecks yaml document = some (.ok result)) :
    (∀ (signals : List Dsl.SignalSpec) pdo entry entryIndex subIndex fuel, signals.length < fuel →
      ∃ id, uniqueSignalId fuel signals pdo entry entryIndex subIndex = some id ∧
        id ∉ signals.map fun signal => signal.id) ∧
    (GoodDevices yaml showF64 result ↔ GoodNames document) := by
  refine ⟨fun signals pdo entry entryIndex subIndex fuel hfuel => ?_, ?_⟩
  · obtain ⟨id, hid, hfree, -⟩ := uniqueSignalId_spec pdo entry entryIndex subIndex hfuel
    exact ⟨id, hid, hfree⟩
  cases document with
  | esi devices =>
      cases devices with
      | nil => cases h
      | cons device others =>
          rw [importEsiToDeviceYaml, buildDeviceYaml] at h
          obtain ⟨⟨signals, more⟩, hbuilt, hmap⟩ := Option.map_eq_some_iff.mp h
          cases htext : yaml.toString (esiSpec device signals) with
          | error error =>
              simp only [specYaml, htext] at hmap
              cases hmap
          | ok text =>
              simp only [specYaml, htext] at hmap
              obtain rfl := Except.ok.inj hmap
              have hvalid := @valid_iff _ yaml showF64 device signals more (esiSpec device signals)
                text hyaml hbuilt rfl rfl htext
              constructor
              · intro hgood
                exact ⟨hvalid.mp (hgood.valid text List.mem_cons_self), fun _ _ heq => nomatch heq⟩
              · intro hgood
                refine ⟨fun other hmem => ?_, List.pairwise_singleton _ _⟩
                rw [List.mem_singleton.mp hmem]
                exact hvalid.mpr hgood.named
  | eni xml slaves =>
      rw [importEsiToDeviceYaml, importEniToDeviceYaml] at h
      split at h
      · cases h
      · obtain ⟨later, hlater, hmap⟩ := Option.map_eq_some_iff.mp h
        cases later with
        | error error => cases hmap
        | ok later =>
            obtain rfl := Except.ok.inj hmap
            have hall := importSlaves_spec hlater
            have hvalid := forall_mem_iff_of_forall₂ hall
              (p := fun slave => ∀ e ∈ slaveImage slave, WellNamed e)
              (q := fun text => ∃ spec, yaml.fromStr text = .ok spec ∧
                spec.toDeviceSpec.isValid showF64 = true ∧ Distinct spec.signals)
              fun slave text hexports => hexports.valid_iff hyaml
            have hapart := pairwise_iff_of_forall₂ hall
              (r := fun slave slave' => ¬ Collide slave slave')
              (s := fun text text' => ∀ spec spec', yaml.fromStr text = .ok spec →
                yaml.fromStr text' = .ok spec' → spec.slaveAddress ≠ spec'.slaveAddress →
                  spec.id ≠ spec'.id)
              fun slave text slave' text' hexports hexports' => hexports.apart_iff hyaml hexports'
            have hnamed : (∀ e ∈ slaves.flatMap slaveImage, WellNamed e) ↔
                ∀ slave ∈ slaves.filter fun slave => !(slaveImage slave).isEmpty,
                  ∀ e ∈ slaveImage slave, WellNamed e := by
              simp only [List.mem_flatMap, List.mem_filter, Bool.not_eq_true',
                List.isEmpty_eq_false_iff]
              constructor
              · exact fun h slave hslave e he => h e ⟨slave, hslave.1, he⟩
              · rintro h e ⟨slave, hslave, he⟩
                exact h slave ⟨hslave, List.ne_nil_of_mem he⟩ e he
            constructor
            · intro hgood
              refine ⟨hnamed.mpr (hvalid.mpr hgood.valid), fun _ _ heq => ?_⟩
              obtain ⟨-, rfl⟩ := EsiDocument.eni.inj heq
              exact hapart.mpr hgood.apart
            · intro hgood
              exact ⟨hvalid.mp (hnamed.mp hgood.named), hapart.mp (hgood.apart xml slaves rfl)⟩

/-! ## Two files -/

/-- What `serde_yaml` does with one device and its text. -/
def deviceYamlOf (known : DeviceSpec) (knownText : String) : DeviceYaml where
  toString spec := if spec = known then .ok knownText else .error "invalid type"
  fromStr text := if text = knownText then .ok known else .error "invalid type"

theorem deviceYamlOf_fromStr (known : DeviceSpec) (knownText : String) :
    (deviceYamlOf known knownText).fromStr knownText = .ok known := if_pos rfl

theorem deviceYamlOf_spec {known spec : DeviceSpec} {knownText text : String}
    (h : (deviceYamlOf known knownText).toString spec = .ok text) :
    (deviceYamlOf known knownText).fromStr text = .ok spec := by
  by_cases heq : spec = known
  · obtain rfl := Except.ok.inj ((if_pos heq).symm.trans h)
    exact (if_pos rfl).trans (congrArg Except.ok heq.symm)
  · exact absurd ((if_neg heq).symm.trans h) (by simp)

/-- The file of one slave gives the text of its device. -/
theorem importEsi_single {device : EsiDevice} {signals : List Dsl.SignalSpec} {text : String}
    (hbuilt : buildSignals overflowChecks device = some (signals, [])) (hfilled : signals ≠ []) :
    importEsiToDeviceYaml overflowChecks (deviceYamlOf (esiSpec device signals) text)
      (.esi [device]) = some (.ok ⟨[text], []⟩) := by
  have htext : (deviceYamlOf (esiSpec device signals) text).toString (esiSpec device signals) =
      .ok text := if_pos rfl
  have hsome : signals.isEmpty = false := List.isEmpty_eq_false_iff.mpr hfilled
  rw [importEsiToDeviceYaml, buildDeviceYaml, hbuilt, Option.map_some]
  dsimp only
  rw [specYaml, htext, hsome]
  rfl

/-- The signals of the drive. -/
def driveSignals : List Dsl.SignalSpec := [
  { id := "rx_6040_0", signalType := .analogOutput, unit := none, range := none, scale := none,
    source := .ethercatPdo
      ⟨none, 0x1600, 0x6040, 0, 16, some 0, some "UINT", none, none⟩ },
  { id := "rx_607a_0", signalType := .analogOutput, unit := none, range := none, scale := none,
    source := .ethercatPdo
      ⟨none, 0x1605, 0x607A, 0, 32, some 0, some "DINT", none, none⟩ }]

/-- The text of the drive. -/
def driveText : String :=
  "id: '198948'\ntype: ethercat_slave\nmodel: Drive\n" ++
  "ethercat_identity:\n  product_code: 198948\nsignals:\n" ++
  "- id: rx_6040_0\n  signal_type: analog_output\n  source:\n    type: ethercat_pdo\n" ++
  "    pdo_index: 5632\n    entry_index: 24640\n    sub_index: 0\n    bit_len: 16\n" ++
  "    byte_offset: 0\n    data_type: UINT\n" ++
  "- id: rx_607a_0\n  signal_type: analog_output\n  source:\n    type: ethercat_pdo\n" ++
  "    pdo_index: 5637\n    entry_index: 24698\n    sub_index: 0\n    bit_len: 32\n" ++
  "    byte_offset: 0\n    data_type: DINT\nalarms: []\n"

theorem buildSignals_drive : buildSignals true drive = some (driveSignals, []) := by
  decide

/-- The drive is a good device. -/
theorem drive_imported : GoodNames (.esi [drive]) ∧
    GoodDevices (deviceYamlOf (esiSpec drive driveSignals) driveText) (fun _ => "")
      ⟨[driveText], []⟩ := by
  have hnames : GoodNames (.esi [drive]) := by
    refine ⟨fun e he => ?_, fun _ _ heq => nomatch heq⟩
    have himage : ∀ e ∈ image drive, e.pdo.signalPrefix = none ∧ e.entry.name = none := by
      decide
    obtain ⟨hgiven, hname⟩ := himage e he
    rw [WellNamed, hgiven, hname]
    simp
  exact ⟨hnames, (goodDevices_iff true (deviceYamlOf (esiSpec drive driveSignals) driveText)
    (fun _ => "") (fun _ _ => deviceYamlOf_spec) (.esi [drive]) ⟨[driveText], []⟩
    (importEsi_single buildSignals_drive (by decide))).2.mpr hnames⟩

/-- A power supply that tells whether its output is there. -/
def supply : EsiDevice where
  deviceType := none
  vendorId := none
  vendorName := none
  name := none
  typeName := some "Supply"
  productCode := some 198948
  revisionNo := none
  networkGroup := none
  txPdos := [
    ⟨.tx, some 0x1A00, none, none, none,
      [⟨some 0x6000, some 1, some 1, some "24V OK", some "BOOL"⟩]⟩]
  rxPdos := []

/-- Its signal. -/
def supplySignals : List Dsl.SignalSpec := [
  { id := "24v_ok", signalType := .digitalInput, unit := none, range := none, scale := none,
    source := .ethercatPdo
      ⟨none, 0x1A00, 0x6000, 1, 1, some 0, some "BOOL", none, some "24V OK"⟩ }]

/-- Its text. -/
def supplyText : String :=
  "id: '198948'\ntype: ethercat_slave\nmodel: Supply\n" ++
  "ethercat_identity:\n  product_code: 198948\nsignals:\n" ++
  "- id: 24v_ok\n  signal_type: digital_input\n  source:\n    type: ethercat_pdo\n" ++
  "    pdo_index: 6656\n    entry_index: 24576\n    sub_index: 1\n    bit_len: 1\n" ++
  "    byte_offset: 0\n    data_type: BOOL\n    entry_name: 24V OK\nalarms: []\n"

/-- The power supply is imported, and then refused for the id of its signal. -/
theorem digit_name_refused :
    importEsiToDeviceYaml true (deviceYamlOf (esiSpec supply supplySignals) supplyText)
        (.esi [supply]) = some (.ok ⟨[supplyText], []⟩) ∧
      ¬ GoodDevices (deviceYamlOf (esiSpec supply supplySignals) supplyText) (fun _ => "")
        ⟨[supplyText], []⟩ := by
  have hbuilt : buildSignals true supply = some (supplySignals, []) := by decide
  have hrefused : (esiSpec supply supplySignals).toDeviceSpec.isValid (fun _ => "") = false := by
    decide
  refine ⟨importEsi_single hbuilt (by decide), fun hgood => ?_⟩
  obtain ⟨spec, hread, hvalid, -⟩ := hgood.valid supplyText List.mem_cons_self
  obtain rfl := Except.ok.inj ((deviceYamlOf_fromStr _ _).symm.trans hread)
  rw [hrefused] at hvalid
  exact absurd hvalid Bool.false_ne_true

end Nazh.Esi
