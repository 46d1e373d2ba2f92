import Nazh.Desktop.EthercatImport
import Nazh.Lib.Lists

/-!
# Where imported signals are

The offset of a signal is counted anew in each PDO, and an entry that is no signal is not counted.
In the image of a slave, the PDOs of a direction follow one another with all of their entries. The
offset in bytes is right as long as what is not counted does not reach the next byte.
-/

namespace Nazh.Esi

open Lib

/-! ## The image -/

/-- The bits of an entry. One without a length is imported as a bit. -/
def EsiPdoEntry.bits (entry : EsiPdoEntry) : ℕ := (entry.bitLen.getD 1).toNat

def EsiPdo.bits (pdo : EsiPdo) : ℕ := (pdo.entries.map EsiPdoEntry.bits).sum

/-- The index and the sub-index of an entry that is a signal: a padding entry has index zero. -/
def EsiPdoEntry.address (entry : EsiPdoEntry) : Option (UInt16 × UInt8) :=
  if entry.index = some 0 then none
  else entry.index.bind fun index => entry.subIndex.map fun subIndex => (index, subIndex)

/-- An entry that is a signal. Of the bits before it in the image, `build_signals` has counted some
and skipped the others. -/
structure PlacedEntry where
  pdo : EsiPdo
  entry : EsiPdoEntry
  pdoIndex : UInt16
  entryIndex : UInt16
  subIndex : UInt8
  counted : ℕ
  skipped : ℕ

/-- The signals among the entries of a PDO. -/
def placeEntries (pdo : EsiPdo) (pdoIndex : UInt16) (counted skipped : ℕ) :
    List EsiPdoEntry → List PlacedEntry
  | [] => []
  | entry :: rest => match entry.address with
    | some (entryIndex, subIndex) =>
        ⟨pdo, entry, pdoIndex, entryIndex, subIndex, counted, skipped⟩ ::
          placeEntries pdo pdoIndex (counted + entry.bits) skipped rest
    | none => placeEntries pdo pdoIndex counted (skipped + entry.bits) rest

/-- The signals of a PDO, behind so many bits. -/
def placePdo (before : ℕ) (pdo : EsiPdo) : List PlacedEntry :=
  match pdo.index with
  | some pdoIndex => placeEntries pdo pdoIndex 0 before pdo.entries
  | none => []

/-- The signals of the PDOs of a direction, behind so many bits. -/
def placePdos (before : ℕ) : List EsiPdo → List PlacedEntry
  | [] => []
  | pdo :: rest => placePdo before pdo ++ placePdos (before + pdo.bits) rest

/-- The signals of a device in the order of the two images. -/
def image (device : EsiDevice) : List PlacedEntry :=
  placePdos 0 device.txPdos ++ placePdos 0 device.rxPdos

/-- The bits before an entry in the image. -/
def PlacedEntry.bitsBefore (e : PlacedEntry) : ℕ := e.counted + e.skipped

/-- A signal is the one of the entry, at the byte where that begins. -/
def IsAt (e : PlacedEntry) (signal : Dsl.SignalSpec) : Prop :=
  ∃ source, signal.source = .ethercatPdo source ∧ source.pdoIndex = e.pdoIndex ∧
    source.entryIndex = e.entryIndex ∧ source.subIndex = e.subIndex ∧
    source.byteOffset.map UInt16.toNat = some (e.bitsBefore / 8)

/-- In each build there is no overflow, and each signal has the offset of its entry. -/
def FollowsImage (device : EsiDevice) : Prop :=
  ∀ overflowChecks, ∃ signals warnings,
    buildSignals overflowChecks device = some (signals, warnings) ∧
      List.Forall₂ IsAt (image device) signals

/-- What is counted with the entry fits into 16 bits. -/
def PlacedEntry.Fits (e : PlacedEntry) : Prop := e.counted + e.entry.bits < 2 ^ 16

instance (e : PlacedEntry) : Decidable e.Fits := inferInstanceAs (Decidable (_ < _))

/-- What is skipped does not move the entry to another byte. -/
def PlacedEntry.Stays (e : PlacedEntry) : Prop := e.counted % 8 + e.skipped < 8

/-! ## Names -/

variable {existing ids : List String} {base id : String} {overflowChecks : Bool}

/-- A name with a number behind it tells the number. -/
theorem numbered_injective (base : String) :
    Function.Injective fun seq : ℕ => s!"{base}_{seq}" := by
  intro m n h
  have hlist := congrArg String.toList h
  simp only [String.toList_append] at hlist
  have hdigits := String.toList_injective (List.append_cancel_left hlist)
  have hm := Text.isDecimal_toString m
  rw [show toString m = toString n from hdigits] at hm
  exact hm.unique (Text.isDecimal_toString n)

/-- The loop finds the first number that makes a free name. -/
theorem nextFreeId_spec {fuel seq k : ℕ} (hk : k < fuel)
    (hfree : s!"{base}_{seq + k}" ∉ existing) :
    ∃ n : ℕ, nextFreeId existing base fuel seq = some s!"{base}_{n}" ∧
      s!"{base}_{n}" ∉ existing := by
  induction fuel generalizing seq k with
  | zero => exact absurd hk (Nat.not_lt_zero k)
  | succ fuel ih =>
      rw [nextFreeId]
      by_cases hseq : s!"{base}_{seq}" ∉ existing
      · exact ⟨seq, if_pos hseq, hseq⟩
      · rw [if_neg hseq]
        cases k with
        | zero => exact absurd hfree hseq
        | succ k => exact ih (Nat.lt_of_succ_lt_succ hk) (by rwa [Nat.succ_add_eq_add_succ])

/-- A signal that is named after an entry. -/
def NamedFor (e : PlacedEntry) (signal : Dsl.SignalSpec) : Prop :=
  let base := signalBase e.pdo e.entry e.entryIndex e.subIndex
  signal.id = base ∨ ∃ n : ℕ, signal.id = s!"{base}_{n}"

/-- As many turns as there are signals and one are enough for a name that is free. -/
theorem uniqueSignalId_spec {fuel : ℕ} {signals : List Dsl.SignalSpec} (pdo : EsiPdo)
    (entry : EsiPdoEntry) (entryIndex : UInt16) (subIndex : UInt8) (hfuel : signals.length < fuel) :
    ∃ id, uniqueSignalId fuel signals pdo entry entryIndex subIndex = some id ∧
      id ∉ signals.map (fun signal => signal.id) ∧
      (id = signalBase pdo entry entryIndex subIndex ∨
        ∃ n : ℕ, id = s!"{signalBase pdo entry entryIndex subIndex}_{n}") := by
  rw [uniqueSignalId]
  generalize signalBase pdo entry entryIndex subIndex = base
  by_cases hbase : base ∉ signals.map fun signal => signal.id
  · exact ⟨base, if_pos hbase, hbase, .inl rfl⟩
  · rw [if_neg hbase]
    obtain ⟨k, hk, hfree⟩ := exists_not_mem_of_injective (numbered_injective base)
      (signals.map fun signal => signal.id) 2
    rw [List.length_map] at hk
    obtain ⟨n, hfound, hn⟩ := nextFreeId_spec (hk.trans_lt hfuel) hfree
    exact ⟨_, hfound, hn, .inr ⟨n, rfl⟩⟩

/-! ## What is built -/

/-- The signal of an entry: its name is one for the entry, its offset is that of the bits that were
counted, and it has neither a range nor a scale. -/
structure Describes (e : PlacedEntry) (signal : Dsl.SignalSpec) : Prop where
  named : NamedFor e signal
  source : signal.source = .ethercatPdo {
    slaveAddress := e.pdo.slaveAddress
    pdoIndex := e.pdoIndex
    entryIndex := e.entryIndex
    subIndex := e.subIndex
    bitLen := e.entry.bitLen.getD 1
    byteOffset := some (UInt16.ofNat e.counted / 8)
    dataType := e.entry.dataType
    pdoName := e.pdo.name
    entryName := e.entry.name }
  range : signal.range = none
  scale : signal.scale = none

/-- The ids of signals are different. -/
def Distinct (signals : List Dsl.SignalSpec) : Prop :=
  (signals.map fun signal => signal.id).Nodup

/-- Either a build that checks for overflows panics, and some sum does not fit; or the signals are
those of the entries, with ids of their own. -/
def Builds (overflowChecks : Bool) (placed : List PlacedEntry) (signals : List Dsl.SignalSpec)
    (result : Option (List Dsl.SignalSpec × List String)) : Prop :=
  result = none ∧ overflowChecks = true ∧ (∃ e ∈ placed, ¬ e.Fits) ∨
    ∃ new warnings, result = some (signals ++ new, warnings) ∧
      (overflowChecks = true → ∀ e ∈ placed, e.Fits) ∧ List.Forall₂ Describes placed new ∧
      (Distinct signals → Distinct (signals ++ new))

section Builds

variable {placed later : List PlacedEntry} {signals : List Dsl.SignalSpec}
  {result : Option (List Dsl.SignalSpec × List String)}

theorem Builds.nil (warnings : List String) :
    Builds overflowChecks [] signals (some (signals, warnings)) :=
  .inr ⟨[], warnings, by rw [List.append_nil], fun _ _ hmem => absurd hmem List.not_mem_nil, .nil,
    by simp⟩

/-- Warnings do not matter. -/
theorem Builds.map (h : Builds overflowChecks placed signals result)
    {f : List Dsl.SignalSpec × List String → List Dsl.SignalSpec × List String}
    (hf : ∀ r, (f r).1 = r.1) : Builds overflowChecks placed signals (result.map f) := by
  rcases h with ⟨rfl, hchecks, hmem⟩ | ⟨new, warnings, rfl, hrest⟩
  · exact .inl ⟨rfl, hchecks, hmem⟩
  · refine .inr ⟨new, (f (signals ++ new, warnings)).2, ?_, hrest⟩
    exact congrArg some (Prod.ext (hf _) rfl)

/-- More is built after what was built. -/
theorem Builds.bind (h : Builds overflowChecks placed signals result)
    {next : List Dsl.SignalSpec × List String → Option (List Dsl.SignalSpec × List String)}
    (hnext : ∀ new warnings, Builds overflowChecks later (signals ++ new)
      (next (signals ++ new, warnings))) :
    Builds overflowChecks (placed ++ later) signals (result.bind next) := by
  rcases h with ⟨rfl, hchecks, e, hmem, hfits⟩ | ⟨new, warnings, rfl, hfits, hall, hdistinct⟩
  · exact .inl ⟨rfl, hchecks, e, List.mem_append_left _ hmem, hfits⟩
  · rcases hnext new warnings with
      ⟨hnone, hchecks, e, hmem, hoverflow⟩ | ⟨more, warnings', hsome, hfits', hall', hdistinct'⟩
    · exact .inl ⟨hnone, hchecks, e, List.mem_append_right _ hmem, hoverflow⟩
    · refine .inr ⟨new ++ more, warnings', ?_, fun hchecks e hmem => ?_, List.rel_append hall hall',
        fun h => ?_⟩
      · rw [Option.bind_some, hsome, List.append_assoc]
      · rcases List.mem_append.mp hmem with hmem | hmem
        · exact hfits hchecks e hmem
        · exact hfits' hchecks e hmem
      · rw [← List.append_assoc]
        exact hdistinct' (hdistinct h)

/-- A signal with a free id is built before others. -/
theorem Builds.cons {e : PlacedEntry} {signal : Dsl.SignalSpec} (hsignal : Describes e signal)
    (hfits : overflowChecks = true → e.Fits)
    (hfree : signal.id ∉ signals.map fun signal => signal.id)
    (h : Builds overflowChecks later (signals ++ [signal]) result) :
    Builds overflowChecks (e :: later) signals result := by
  rcases h with ⟨hnone, hchecks, e', hmem, hoverflow⟩ | ⟨new, warnings, hsome, hall, hnew, hids⟩
  · exact .inl ⟨hnone, hchecks, e', List.mem_cons_of_mem e hmem, hoverflow⟩
  · refine .inr ⟨signal :: new, warnings, ?_, fun hchecks => ?_, .cons hsignal hnew,
      fun hdistinct => ?_⟩
    · rw [hsome, List.append_assoc]
      rfl
    · exact List.forall_mem_cons.mpr ⟨hfits hchecks, hall hchecks⟩
    · rw [List.append_cons]
      refine hids ?_
      rw [Distinct, List.map_append, List.map_singleton]
      exact List.nodup_append.mpr ⟨hdistinct, List.nodup_singleton _, fun a ha b hb heq =>
        hfree (List.mem_singleton.mp hb ▸ heq ▸ ha)⟩

end Builds

theorem placeEntries_of_address {pdo : EsiPdo} {pdoIndex entryIndex : UInt16} {subIndex : UInt8}
    {counted skipped : ℕ} {entry : EsiPdoEntry} {rest : List EsiPdoEntry}
    (h : entry.address = some (entryIndex, subIndex)) :
    placeEntries pdo pdoIndex counted skipped (entry :: rest) =
      ⟨pdo, entry, pdoIndex, entryIndex, subIndex, counted, skipped⟩ ::
        placeEntries pdo pdoIndex (counted + entry.bits) skipped rest := by
  rw [placeEntries, h]

/-- The sum overflows in a build that checks for it, or it is the sum of the numbers. -/
theorem addU16_cases {counted : ℕ} (bits : UInt16)
    (hcounted : overflowChecks = true → counted < 2 ^ 16) :
    addU16 overflowChecks (.ofNat counted) bits = none ∧ overflowChecks = true ∧
        ¬ counted + bits.toNat < 2 ^ 16 ∨
      addU16 overflowChecks (.ofNat counted) bits = some (.ofNat (counted + bits.toNat)) ∧
        (overflowChecks = true → counted + bits.toNat < 2 ^ 16) := by
  have hsum : UInt16.ofNat counted + bits = .ofNat (counted + bits.toNat) := by
    rw [UInt16.ofNat_add, UInt16.ofNat_toNat]
  rw [addU16, hsum]
  cases overflowChecks with
  | false => exact .inr ⟨rfl, fun h => nomatch h⟩
  | true =>
      have htoNat : (UInt16.ofNat counted).toNat = counted :=
        UInt16.toNat_ofNat_of_lt' (hcounted rfl)
      rw [htoNat, Bool.true_and]
      by_cases hfits : counted + bits.toNat < 2 ^ 16
      · exact .inr ⟨if_neg (by simpa using hfits), fun _ => hfits⟩
      · exact .inl ⟨if_pos (by simpa using hfits), rfl, hfits⟩

/-- The signals of a PDO are built in the order of its entries. -/
theorem buildEntries_cases (pdo : EsiPdo) (pdoIndex : UInt16) (entries : List EsiPdoEntry)
    {counted : ℕ} (skipped i : ℕ) (signals : List Dsl.SignalSpec)
    (hcounted : overflowChecks = true → counted < 2 ^ 16) :
    Builds overflowChecks (placeEntries pdo pdoIndex counted skipped entries) signals
      (buildEntries overflowChecks pdo pdoIndex i (.ofNat counted) signals entries) := by
  induction entries generalizing counted skipped i signals with
  | nil => exact .nil []
  | cons entry rest ih =>
      rw [buildEntries]
      by_cases hpadding : entry.index = some 0
      · have haddress : entry.address = none := if_pos hpadding
        rw [if_pos hpadding, placeEntries, haddress]
        exact ih (skipped + entry.bits) (i + 1) signals hcounted
      · rw [if_neg hpadding]
        split
        · rename_i hindex
          have haddress : entry.address = none := by
            rw [EsiPdoEntry.address, if_neg hpadding, hindex]
            rfl
          rw [placeEntries, haddress]
          exact (ih (skipped + entry.bits) (i + 1) signals hcounted).map fun _ => rfl
        · rename_i hindex hsub
          have haddress : entry.address = none := by
            rw [EsiPdoEntry.address, if_neg hpadding, hindex, hsub]
            rfl
          rw [placeEntries, haddress]
          exact (ih (skipped + entry.bits) (i + 1) signals hcounted).map fun _ => rfl
        · rename_i entryIndex subIndex hindex hsub
          have haddress : entry.address = some (entryIndex, subIndex) := by
            rw [EsiPdoEntry.address, if_neg hpadding, hindex, hsub]
            rfl
          obtain ⟨id, hid, hfree, hnamed⟩ := uniqueSignalId_spec pdo entry entryIndex subIndex
            (Nat.lt_succ_self signals.length)
          rw [placeEntries_of_address haddress]
          simp only [hid, Option.bind_some]
          rcases addU16_cases (entry.bitLen.getD 1) hcounted with
            ⟨hpanic, hchecks, hoverflow⟩ | ⟨hsum, hfits⟩
          · rw [hpanic]
            exact .inl ⟨rfl, hchecks, _, List.mem_cons_self, hoverflow⟩
          · -- the signal of this entry is built, and then the others
            rw [hsum, Option.bind_some]
            have hsignal : Describes ⟨pdo, entry, pdoIndex, entryIndex, subIndex, counted, skipped⟩
                (entrySignal pdo entry pdoIndex entryIndex subIndex (entry.bitLen.getD 1)
                  (.ofNat counted) id) := ⟨hnamed, rfl, rfl, rfl⟩
            exact .cons hsignal hfits hfree ((ih skipped (i + 1) _ hfits).map fun _ => rfl)

/-- The signals of PDOs are built before those of the PDOs after them. -/
theorem buildPdos_cases (pdos : List EsiPdo) (before : ℕ) {later : List PlacedEntry}
    {more : List EsiPdo}
    (hmore : ∀ signals, Builds overflowChecks later signals (buildPdos overflowChecks signals more))
    (signals : List Dsl.SignalSpec) :
    Builds overflowChecks (placePdos before pdos ++ later) signals
      (buildPdos overflowChecks signals (pdos ++ more)) := by
  induction pdos generalizing before signals with
  | nil => exact hmore signals
  | cons pdo rest ih =>
      have hrest := ih (before + pdo.bits)
      rw [List.cons_append, buildPdos, placePdos, placePdo, List.append_assoc]
      cases hindex : pdo.index with
      | none => exact (hrest signals).map fun _ => rfl
      | some pdoIndex =>
          have hentries := @buildEntries_cases overflowChecks pdo pdoIndex pdo.entries 0 before 0
            signals fun _ => Nat.two_pow_pos 16
          refine hentries.bind fun new warnings => ?_
          exact (hrest (signals ++ new)).map fun _ => rfl

/-- What is built for a device. -/
theorem buildSignals_cases (overflowChecks : Bool) (device : EsiDevice) :
    Builds overflowChecks (image device) [] (buildSignals overflowChecks device) := by
  have hnil (signals : List Dsl.SignalSpec) :
      Builds overflowChecks [] signals (buildPdos overflowChecks signals []) := .nil []
  have hrx (signals : List Dsl.SignalSpec) : Builds overflowChecks (placePdos 0 device.rxPdos)
      signals (buildPdos overflowChecks signals device.rxPdos) := by
    simpa only [List.append_nil] using buildPdos_cases device.rxPdos 0 hnil signals
  exact buildPdos_cases device.txPdos 0 hrx []

/-! ## The offsets -/

theorem isAt_iff {e : PlacedEntry} {signal : Dsl.SignalSpec} (h : Describes e signal)
    (hfits : e.Fits) : IsAt e signal ↔ e.Stays := by
  have hlt : e.counted < 2 ^ 16 := (Nat.le_add_right _ _).trans_lt hfits
  have hbyte : (UInt16.ofNat e.counted / 8).toNat = e.counted / 8 := by
    rw [UInt16.toNat_div, UInt16.toNat_ofNat_of_lt' hlt]
    rfl
  have hiff : IsAt e signal ↔ e.counted / 8 = e.bitsBefore / 8 := by
    constructor
    · rintro ⟨source, hsource, -, -, -, hoffset⟩
      obtain rfl := SignalSource.ethercatPdo.inj (h.source.symm.trans hsource)
      exact hbyte ▸ Option.some.inj hoffset
    · intro hsame
      exact ⟨_, h.source, rfl, rfl, rfl, congrArg some (hbyte.trans hsame)⟩
  rw [hiff, PlacedEntry.Stays, PlacedEntry.bitsBefore]
  omega

/-- The offsets follow the image if and only if for each signal the bits that are counted with it
fit into 16 bits, and those that are skipped before it do not move it to another byte. -/
theorem followsImage_iff (device : EsiDevice) :
    FollowsImage device ↔ ∀ e ∈ image device, e.Fits ∧ e.Stays := by
  constructor
  · intro h
    obtain ⟨signals, warnings, hbuilt, hplaced⟩ := h true
    rcases buildSignals_cases true device with ⟨hnone, -, -⟩ | ⟨new, more, hsome, hfits, hall, -⟩
    · rw [hnone] at hbuilt
      cases hbuilt
    · obtain ⟨rfl, -⟩ := Prod.mk.inj (Option.some.inj (hbuilt.symm.trans hsome))
      have hfits := hfits rfl
      intro e hmem
      obtain ⟨i, hi, rfl⟩ := List.mem_iff_getElem.mp hmem
      have hdescribes := hall.get hi (hall.length_eq ▸ hi)
      have hat := hplaced.get hi (hall.length_eq ▸ hi)
      exact ⟨hfits _ hmem, (isAt_iff hdescribes (hfits _ hmem)).mp hat⟩
  · intro h overflowChecks
    rcases buildSignals_cases overflowChecks device with
      ⟨-, -, e, hmem, hoverflow⟩ | ⟨new, warnings, hsome, -, hall, -⟩
    · exact absurd (h e hmem).1 hoverflow
    · refine ⟨new, warnings, hsome, ?_⟩
      have hboth := (List.forall₂_and_left _ _).mpr ⟨h, hall⟩
      exact hboth.imp fun e signal ⟨hgood, hdescribes⟩ =>
        (isAt_iff hdescribes hgood.1).mpr hgood.2

/-- The offset of a signal. -/
def offsetOf (signal : Dsl.SignalSpec) : Option ℕ :=
  match signal.source with
  | .ethercatPdo source => source.byteOffset.map UInt16.toNat
  | _ => none

theorem map_offsetOf {placed : List PlacedEntry} {signals : List Dsl.SignalSpec}
    (h : List.Forall₂ IsAt placed signals) :
    signals.map offsetOf = placed.map fun e => some (e.bitsBefore / 8) := by
  induction h with
  | nil => rfl
  | cons hat _ ih =>
      obtain ⟨source, hsource, -, -, -, hoffset⟩ := hat
      rw [List.map_cons, List.map_cons, ih, offsetOf, hsource]
      exact congrArg (· :: _) hoffset

/-- A drive with a control word in one PDO and a target position in the next. -/
def drive : EsiDevice where
  deviceType := none
  vendorId := none
  vendorName := none
  name := none
  typeName := some "Drive"
  productCode := some 198948
  revisionNo := none
  networkGroup := none
  txPdos := []
  rxPdos := [
    ⟨.rx, some 0x1600, none, none, none, [⟨some 0x6040, some 0, some 16, none, some "UINT"⟩]⟩,
    ⟨.rx, some 0x1605, none, none, none, [⟨some 0x607A, some 0, some 32, none, some "DINT"⟩]⟩]

/-- The target position is imported at the place of the control word. -/
theorem second_pdo_misplaced : ¬ FollowsImage drive := by
  intro h
  obtain ⟨signals, warnings, hbuilt, hplaced⟩ := h true
  have hoffsets : (buildSignals true drive).map (fun built => built.1.map offsetOf) =
      some [some 0, some 0] := by decide
  have himage : (image drive).map (fun e => some (e.bitsBefore / 8)) = [some 0, some 2] := by
    decide
  rw [hbuilt] at hoffsets
  have hsame : signals.map offsetOf = [some 0, some 0] := Option.some.inj hoffsets
  rw [map_offsetOf hplaced, himage] at hsame
  exact absurd hsame (by decide)

end Nazh.Esi
