import Mathlib.Data.List.Induction
import Mathlib.Logic.Function.Basic
import Nazh.Core.Text
import Nazh.Lib.Lists

/-!
# The providers of the AI and their keys

The settings hold a list of providers with their keys. They are written back without the keys; for
each key it is said whether it stays, goes, or is set. The old records are put into a map by their
ids, the new ones are made of what is written, and the one that is active is marked as enabled by
its id. With an id that is written twice, both are enabled, and each gets the key that it says.
-/

namespace Nazh

/-! ## Settings -/

inductive AiThinkingMode
  | enabled
  | disabled

inductive AiReasoningEffort
  | high
  | max

structure AiGenerationParams where
  temperature : Option Float32
  maxTokens : Option UInt32
  topP : Option Float32
  thinking : Option AiThinkingMode
  reasoningEffort : Option AiReasoningEffort

structure AiAgentSettings where
  systemPrompt : Option String
  timeoutMs : Option UInt64
  thinkingEnabled : Bool
  toolCallingEnabled : Bool

/-- What is written of a key that cannot be read back. -/
inductive AiSecretInput
  | keep
  | clear
  | set (value : String)

structure AiProviderSecretRecord where
  id : String
  name : String
  baseUrl : String
  apiKey : String
  defaultModel : String
  extraHeaders : List (String × String)
  enabled : Bool

structure AiProviderUpsert where
  id : String
  name : String
  baseUrl : String
  defaultModel : String
  extraHeaders : List (String × String)
  enabled : Bool
  apiKey : AiSecretInput

structure AiConfigFile where
  version : UInt8
  providers : List AiProviderSecretRecord
  activeProviderId : Option String
  copilotParams : AiGenerationParams
  agentSettings : AiAgentSettings

structure AiConfigUpdate where
  version : UInt8
  providers : List AiProviderUpsert
  activeProviderId : Option String
  copilotParams : AiGenerationParams
  agentSettings : AiAgentSettings

def isSensitiveExtraHeader (name : String) : Bool :=
  ["authorization", "proxy-authorization", "x-api-key", "api-key", "apikey", "x-auth-token",
    "x-access-token", "access-token", "token", "cookie", "set-cookie"].contains
      (Text.toAsciiLowercase (Text.trim name))

def filterNonSensitiveExtraHeaders (headers : List (String × String)) : List (String × String) :=
  headers.filter fun header => !isSensitiveExtraHeader header.1

/-- The key that an instruction makes of the one that there is. -/
def AiSecretInput.applyTo (key : String) : AiSecretInput → String
  | .keep => key
  | .clear => ""
  | .set newKey => newKey

def mergeProviderUpsert (existing : Option AiProviderSecretRecord) (upsert : AiProviderUpsert) :
    AiProviderSecretRecord where
  id := upsert.id
  name := upsert.name
  baseUrl := upsert.baseUrl
  apiKey := upsert.apiKey.applyTo ((existing.map AiProviderSecretRecord.apiKey).getD "")
  defaultModel := upsert.defaultModel
  extraHeaders := filterNonSensitiveExtraHeaders upsert.extraHeaders
  enabled := upsert.enabled

/-- The id that `normalize_active_provider_id` settles on. -/
def resolvedActiveProviderId (requestedActiveProviderId : Option String)
    (providers : List AiProviderSecretRecord) : Option String :=
  (requestedActiveProviderId.filter fun id => providers.any fun provider => provider.id = id).or
    (providers.head?.map AiProviderSecretRecord.id)

def normalizeActiveProviderId (requestedActiveProviderId : Option String)
    (providers : List AiProviderSecretRecord) : Option String × List AiProviderSecretRecord :=
  let resolved := resolvedActiveProviderId requestedActiveProviderId providers
  (resolved, providers.map fun provider =>
    { provider with enabled := resolved = some provider.id })

/-- The map by ids; of records with one id the last one stays. -/
def existingMap (providers : List AiProviderSecretRecord) :
    String → Option AiProviderSecretRecord :=
  providers.foldl (fun map provider => Function.update map provider.id (some provider))
    fun _ => none

namespace AiConfigFile

def normalize (file : AiConfigFile) : AiConfigFile :=
  let (activeProviderId, providers) :=
    normalizeActiveProviderId file.activeProviderId file.providers
  { file with activeProviderId, providers }

def mergeUpdate (file : AiConfigFile) (update : AiConfigUpdate) : AiConfigFile :=
  let merged : AiConfigFile :=
    { version := update.version
      activeProviderId := update.activeProviderId
      copilotParams := update.copilotParams
      agentSettings := update.agentSettings
      providers := update.providers.map fun upsert =>
        mergeProviderUpsert (existingMap file.providers upsert.id) upsert }
  merged.normalize

end AiConfigFile

/-! ## What is said of the keys -/

inductive AiConfigCall
  | mergeUpdate (update : AiConfigUpdate)
  | normalize

def AiConfigFile.apply (file : AiConfigFile) : AiConfigCall → AiConfigFile
  | .mergeUpdate update => file.mergeUpdate update
  | .normalize => file.normalize

/-- The keys of a file as it is, by ids. -/
def AiConfigFile.storedKeys (file : AiConfigFile) (id : String) : String :=
  ((file.providers.filter fun provider => provider.id = id).getLast?.map
    AiProviderSecretRecord.apiKey).getD ""

/-- The key of each id after a call: an id that is not written has none any more, and otherwise its
instructions are followed one after the other. -/
def keysAfter (keys : String → String) : AiConfigCall → String → String
  | .mergeUpdate update, id =>
      match update.providers.filter fun upsert => upsert.id = id with
      | [] => ""
      | upserts => upserts.foldl (fun key upsert => upsert.apiKey.applyTo key) (keys id)
  | .normalize, id => keys id

namespace AiConfigFile

/-- One provider is enabled, the active one, and the keys are these. -/
structure Sound (keys : String → String) (file : AiConfigFile) : Prop where
  enabled_le_one : (file.providers.filter AiProviderSecretRecord.enabled).length ≤ 1
  active_eq_none_iff : file.activeProviderId = none ↔ file.providers = []
  active_enabled : ∀ id, file.activeProviderId = some id →
    ∃ provider ∈ file.providers, provider.enabled = true ∧ provider.id = id
  apiKey_eq : ∀ provider ∈ file.providers, provider.apiKey = keys provider.id

/-- A key that is there after a call was set for its id by it, or was there for its id before. -/
def KeysStay (file : AiConfigFile) (call : AiConfigCall) : Prop :=
  ∀ provider ∈ (file.apply call).providers, provider.apiKey ≠ "" →
    (∃ update, call = .mergeUpdate update ∧
      ∃ upsert ∈ update.providers, upsert.id = provider.id ∧ upsert.apiKey = .set provider.apiKey) ∨
    ∃ old ∈ file.providers, old.id = provider.id ∧ old.apiKey = provider.apiKey

/-- After every call the settings are sound, and no key has moved. -/
def SoundAlong (keys : String → String) (file : AiConfigFile) : List AiConfigCall → Prop
  | [] => True
  | call :: calls => Sound (keysAfter keys call) (file.apply call) ∧ KeysStay file call ∧
      SoundAlong (keysAfter keys call) (file.apply call) calls

/-- The id that is asked for, or else the first one, stands there once. -/
def OnceActive (requested : Option String) (ids : List String) : Prop :=
  (∀ id, requested = some id → ids.count id ≤ 1) ∧
    ((∀ id ∈ ids, requested ≠ some id) → ∀ id, ids.head? = some id → ids.count id = 1)

/-- The active id stands there once, and what is said of the key of an id is the same each time. -/
def Unambiguous (keys : String → String) (file : AiConfigFile) : AiConfigCall → Prop
  | .mergeUpdate update =>
      OnceActive update.activeProviderId (update.providers.map AiProviderUpsert.id) ∧
        ∀ upsert ∈ update.providers, upsert.apiKey.applyTo (keys upsert.id) =
          keysAfter keys (.mergeUpdate update) upsert.id
  | .normalize =>
      OnceActive file.activeProviderId (file.providers.map AiProviderSecretRecord.id) ∧
        ∀ provider ∈ file.providers, provider.apiKey = keys provider.id

/-- Every call is unambiguous in its turn. -/
def UnambiguousAlong (keys : String → String) (file : AiConfigFile) : List AiConfigCall → Prop
  | [] => True
  | call :: calls => Unambiguous keys file call ∧
      UnambiguousAlong (keysAfter keys call) (file.apply call) calls

end AiConfigFile

section

variable {file : AiConfigFile} {update : AiConfigUpdate} {providers : List AiProviderSecretRecord}
  {requested : Option String} {keys : String → String} {id : String}

/-! ## The active provider -/

theorem resolved_eq_none_iff :
    resolvedActiveProviderId requested providers = none ↔ providers = [] := by
  rw [resolvedActiveProviderId, Option.or_eq_none_iff, Option.map_eq_none_iff,
    List.head?_eq_none_iff]
  refine ⟨And.right, ?_⟩
  rintro rfl
  cases requested <;> exact ⟨rfl, rfl⟩

/-- The one that is asked for is settled on if it is there. -/
theorem resolved_eq_some_iff : resolvedActiveProviderId requested providers = some id ↔
    requested = some id ∧ id ∈ providers.map AiProviderSecretRecord.id ∨
      (∀ other ∈ providers.map AiProviderSecretRecord.id, requested ≠ some other) ∧
        (providers.map AiProviderSecretRecord.id).head? = some id := by
  have hany : ∀ other, (providers.any fun provider => provider.id = other) = true ↔
      other ∈ providers.map AiProviderSecretRecord.id := by
    simp
  rw [resolvedActiveProviderId, Option.or_eq_some_iff, Option.filter_eq_some_iff, hany,
    Option.filter_eq_none_iff, List.head?_map]
  refine or_congr_right (and_congr_left fun _ => ⟨?_, ?_⟩)
  · rintro hnone other hother rfl
    exact hnone other rfl ((hany other).mpr hother)
  · intro hne other hrequested hother
    exact hne other ((hany other).mp hother) hrequested

theorem resolved_mem (h : resolvedActiveProviderId requested providers = some id) :
    id ∈ providers.map AiProviderSecretRecord.id := by
  rcases resolved_eq_some_iff.mp h with ⟨-, hmem⟩ | ⟨-, hhead⟩
  · exact hmem
  · exact List.mem_of_head? hhead

theorem onceActive_iff :
    AiConfigFile.OnceActive requested (providers.map AiProviderSecretRecord.id) ↔
      ∀ id, resolvedActiveProviderId requested providers = some id →
        (providers.map AiProviderSecretRecord.id).count id ≤ 1 := by
  constructor
  · rintro ⟨hrequested, hfirst⟩ id hid
    rcases resolved_eq_some_iff.mp hid with ⟨heq, -⟩ | ⟨hnone, hhead⟩
    · exact hrequested id heq
    · exact (hfirst hnone id hhead).le
  · intro h
    refine ⟨fun id hid => ?_, fun hnone id hhead => ?_⟩
    · by_cases hmem : id ∈ providers.map AiProviderSecretRecord.id
      · exact h id (resolved_eq_some_iff.mpr (.inl ⟨hid, hmem⟩))
      · rw [List.count_eq_zero_of_not_mem hmem]
        exact Nat.zero_le 1
    · have hle := h id (resolved_eq_some_iff.mpr (.inr ⟨hnone, hhead⟩))
      have hpos := List.count_pos_iff.mpr (List.mem_of_head? hhead)
      omega

/-- As many are enabled as there are with the id that is settled on. -/
theorem length_enabled (h : resolvedActiveProviderId requested providers = some id) :
    ((normalizeActiveProviderId requested providers).2.filter
      AiProviderSecretRecord.enabled).length =
      (providers.map AiProviderSecretRecord.id).count id := by
  rw [normalizeActiveProviderId, ← List.countP_eq_length_filter, List.countP_map, List.count,
    List.countP_map]
  refine List.countP_congr fun provider _ => ?_
  rw [Function.comp_apply, Function.comp_apply, h, decide_eq_true_iff, beq_iff_eq,
    Option.some.injEq, eq_comm]

namespace AiConfigFile

theorem normalize_ids :
    file.normalize.providers.map AiProviderSecretRecord.id =
      file.providers.map AiProviderSecretRecord.id := by
  simp only [normalize, normalizeActiveProviderId, List.map_map]
  rfl

theorem mem_normalize {provider : AiProviderSecretRecord} :
    provider ∈ file.normalize.providers ↔ ∃ old ∈ file.providers,
      { old with enabled := file.normalize.activeProviderId = some old.id } = provider :=
  List.mem_map

/-- Normalizing makes a file sound, if its active id stands there once and its keys are these. -/
theorem sound_normalize_iff : Sound keys file.normalize ↔
    OnceActive file.activeProviderId (file.providers.map AiProviderSecretRecord.id) ∧
      ∀ provider ∈ file.providers, provider.apiKey = keys provider.id := by
  rw [onceActive_iff]
  constructor
  · intro h
    refine ⟨fun id hid => (length_enabled hid).symm.trans_le h.enabled_le_one, ?_⟩
    intro provider hprovider
    have hmem : { provider with enabled := file.normalize.activeProviderId = some provider.id } ∈
        file.normalize.providers := mem_normalize.mpr ⟨provider, hprovider, rfl⟩
    have hkey := h.apiKey_eq _ hmem
    exact hkey
  · rintro ⟨honce, hkeys⟩
    refine ⟨?_, ?_, ?_, ?_⟩
    · cases hid : resolvedActiveProviderId file.activeProviderId file.providers with
      | none =>
          have hnil := resolved_eq_none_iff.mp hid
          simp [normalize, normalizeActiveProviderId, hnil]
      | some id => exact (length_enabled hid).trans_le (honce id hid)
    · refine Iff.trans resolved_eq_none_iff ?_
      exact List.map_eq_nil_iff.symm
    · intro id hid
      obtain ⟨provider, hprovider, rfl⟩ := List.mem_map.mp (resolved_mem hid)
      exact ⟨_, mem_normalize.mpr ⟨provider, hprovider, rfl⟩, decide_eq_true hid, rfl⟩
    · intro provider hprovider
      obtain ⟨old, hold, rfl⟩ := mem_normalize.mp hprovider
      exact hkeys old hold

/-! ## The keys -/

/-- The map holds the last record of an id. -/
theorem existingMap_eq (providers : List AiProviderSecretRecord) (id : String) :
    existingMap providers id = (providers.filter fun provider => provider.id = id).getLast? := by
  induction providers using List.reverseRecOn with
  | nil => rfl
  | append_singleton providers last ih =>
      rw [existingMap, List.foldl_append, List.foldl_cons, List.foldl_nil, ← existingMap]
      by_cases hid : last.id = id
      · rw [hid, Function.update_self, List.filter_append,
          List.filter_cons_of_pos (by simpa using hid), List.filter_nil, List.getLast?_concat]
      · rw [Function.update_of_ne (Ne.symm hid), ih, List.filter_append,
          List.filter_cons_of_neg (by simpa using hid), List.filter_nil, List.append_nil]

theorem existing_key (file : AiConfigFile) (id : String) :
    ((existingMap file.providers id).map AiProviderSecretRecord.apiKey).getD "" =
      file.storedKeys id := by
  rw [existingMap_eq, storedKeys]

/-- The keys are those on which all records of an id agree. -/
theorem storedKeys_eq (hkeys : ∀ provider ∈ file.providers, provider.apiKey = keys provider.id)
    (hnone : ∀ id ∉ file.providers.map AiProviderSecretRecord.id, keys id = "") :
    file.storedKeys = keys := by
  funext id
  rw [storedKeys]
  cases hlast : (file.providers.filter fun provider => provider.id = id).getLast? with
  | none =>
      refine (hnone id fun hmem => ?_).symm
      obtain ⟨provider, hprovider, hid⟩ := List.mem_map.mp hmem
      rw [List.getLast?_eq_none_iff, List.filter_eq_nil_iff] at hlast
      exact hlast provider hprovider (decide_eq_true hid)
  | some provider =>
      obtain ⟨hprovider, hid⟩ := List.mem_filter.mp (List.mem_of_getLast? hlast)
      rw [of_decide_eq_true hid |>.symm]
      exact hkeys provider hprovider

theorem storedKeys_normalize : file.normalize.storedKeys = file.storedKeys := by
  funext id
  simp only [storedKeys, normalize, normalizeActiveProviderId, List.filter_map, List.getLast?_map,
    Option.map_map]
  rfl

/-- An id that is not written has no key any more. -/
theorem keysAfter_of_notMem (h : id ∉ update.providers.map AiProviderUpsert.id) :
    keysAfter keys (.mergeUpdate update) id = "" := by
  have hnil : (update.providers.filter fun upsert => upsert.id = id) = [] := by
    rw [List.filter_eq_nil_iff]
    intro upsert hupsert hid
    exact h (List.mem_map.mpr ⟨upsert, hupsert, of_decide_eq_true hid⟩)
  rw [keysAfter, hnil]

/-- What is made of the request, before it is normalized. -/
def merged (file : AiConfigFile) (update : AiConfigUpdate) : AiConfigFile :=
  ⟨update.version, update.providers.map fun upsert =>
    mergeProviderUpsert (existingMap file.providers upsert.id) upsert, update.activeProviderId,
    update.copilotParams, update.agentSettings⟩

theorem merged_ids : (merged file update).providers.map AiProviderSecretRecord.id =
    update.providers.map AiProviderUpsert.id := by
  simp only [merged, List.map_map]
  rfl

theorem forall_merged_iff : (∀ provider ∈ (merged file update).providers,
      provider.apiKey = keys provider.id) ↔
    ∀ upsert ∈ update.providers, upsert.apiKey.applyTo (file.storedKeys upsert.id) =
      keys upsert.id := by
  simp only [merged, List.forall_mem_map, mergeProviderUpsert, existing_key]

/-! ## Calls -/

/-- A call makes a file sound if and only if it is unambiguous. -/
theorem sound_apply_iff {call : AiConfigCall} :
    Sound (keysAfter file.storedKeys call) (file.apply call) ↔
      Unambiguous file.storedKeys file call := by
  cases call with
  | mergeUpdate update =>
      have hnormal : Sound (keysAfter file.storedKeys (.mergeUpdate update))
          (merged file update).normalize ↔ _ := sound_normalize_iff
      rw [merged_ids, forall_merged_iff] at hnormal
      exact hnormal
  | normalize => exact sound_normalize_iff

/-- The keys that are stored after it are those that it tells. -/
theorem storedKeys_apply {call : AiConfigCall} (h : Unambiguous file.storedKeys file call) :
    (file.apply call).storedKeys = keysAfter file.storedKeys call := by
  cases call with
  | mergeUpdate update =>
      have hnormal : (merged file update).normalize.storedKeys = (merged file update).storedKeys :=
        storedKeys_normalize
      refine hnormal.trans (storedKeys_eq (forall_merged_iff.mpr h.2) fun id hid => ?_)
      refine keysAfter_of_notMem ?_
      rwa [merged_ids] at hid
  | normalize => exact storedKeys_normalize

theorem mem_of_existingMap {old : AiProviderSecretRecord}
    (h : existingMap file.providers id = some old) : old ∈ file.providers ∧ old.id = id := by
  rw [existingMap_eq] at h
  obtain ⟨hmem, hid⟩ := List.mem_filter.mp (List.mem_of_getLast? h)
  exact ⟨hmem, of_decide_eq_true hid⟩

/-- No call moves a key to another id. -/
theorem keysStay (file : AiConfigFile) (call : AiConfigCall) : KeysStay file call := by
  intro provider hprovider hkey
  cases call with
  | normalize =>
      obtain ⟨old, hold, rfl⟩ := mem_normalize.mp hprovider
      exact .inr ⟨old, hold, rfl, rfl⟩
  | mergeUpdate update =>
      have hmem : provider ∈ (merged file update).normalize.providers := hprovider
      obtain ⟨new, hnew, rfl⟩ := mem_normalize.mp hmem
      obtain ⟨upsert, hupsert, rfl⟩ := List.mem_map.mp hnew
      cases hsecret : upsert.apiKey with
      | keep =>
          cases hold : existingMap file.providers upsert.id with
          | none =>
              refine absurd ?_ hkey
              simp only [mergeProviderUpsert, hsecret, hold]
              rfl
          | some old =>
              obtain ⟨hmem, hid⟩ := mem_of_existingMap hold
              refine .inr ⟨old, hmem, hid, ?_⟩
              simp only [mergeProviderUpsert, hsecret]
              rfl
      | clear =>
          refine absurd ?_ hkey
          simp only [mergeProviderUpsert, hsecret]
          rfl
      | set newKey =>
          refine .inl ⟨update, rfl, upsert, hupsert, rfl, ?_⟩
          simp only [mergeProviderUpsert, hsecret]
          rfl

/-- After every call the settings are sound if and only if every call is unambiguous. -/
theorem soundAlong_iff (file : AiConfigFile) (calls : List AiConfigCall) :
    SoundAlong file.storedKeys file calls ↔ UnambiguousAlong file.storedKeys file calls := by
  induction calls generalizing file with
  | nil => exact Iff.rfl
  | cons call calls ih =>
      rw [SoundAlong, UnambiguousAlong, sound_apply_iff]
      refine and_congr_right fun hcall => ?_
      rw [← storedKeys_apply hcall, ih]
      exact and_iff_right (keysStay file call)

/-! ## Distinct ids -/

theorem onceActive_of_nodup {ids : List String} (h : ids.Nodup) : OnceActive requested ids :=
  ⟨fun id _ => List.nodup_iff_count_le_one.mp h id,
    fun _ _ hhead => List.count_eq_one_of_mem h (List.mem_of_head? hhead)⟩

/-- With distinct keys, an entry is the only one with its key. -/
theorem filter_key_eq_singleton {α : Type} {key : α → String} {items : List α} {a : α}
    (h : (items.map key).Nodup) (ha : a ∈ items) :
    items.filter (fun item => key item = key a) = [a] := by
  obtain ⟨before, after, rfl⟩ := List.append_of_mem ha
  have hother : ∀ part : List α, part ⊆ before ++ after →
      part.filter (fun item => key item = key a) = [] := by
    intro part hpart
    rw [List.filter_eq_nil_iff]
    intro item hitem heq
    exact Lib.key_ne_of_nodup h (hpart hitem) (of_decide_eq_true heq)
  rw [List.filter_append, hother before (List.subset_append_left ..), List.nil_append,
    List.filter_cons_of_pos (by simp), hother after (List.subset_append_right ..)]

theorem unambiguous_of_nodup {call : AiConfigCall}
    (hfile : (file.providers.map AiProviderSecretRecord.id).Nodup)
    (hcall : ∀ update, call = .mergeUpdate update →
      (update.providers.map AiProviderUpsert.id).Nodup) :
    Unambiguous file.storedKeys file call := by
  cases call with
  | mergeUpdate update =>
      refine ⟨onceActive_of_nodup (hcall update rfl), fun upsert hupsert => ?_⟩
      rw [keysAfter, filter_key_eq_singleton (hcall update rfl) hupsert]
      rfl
  | normalize =>
      refine ⟨onceActive_of_nodup hfile, fun provider hprovider => ?_⟩
      rw [storedKeys, filter_key_eq_singleton hfile hprovider]
      rfl

/-- The settings stay sound as long as ids are distinct. -/
theorem unambiguousAlong_of_nodup {calls : List AiConfigCall}
    (hfile : (file.providers.map AiProviderSecretRecord.id).Nodup)
    (hcalls : ∀ update, .mergeUpdate update ∈ calls →
      (update.providers.map AiProviderUpsert.id).Nodup) :
    UnambiguousAlong file.storedKeys file calls := by
  induction calls generalizing file with
  | nil => exact True.intro
  | cons call calls ih =>
      have hcall : Unambiguous file.storedKeys file call :=
        unambiguous_of_nodup hfile fun update hupdate =>
          hcalls update (hupdate ▸ List.mem_cons_self)
      refine ⟨hcall, ?_⟩
      rw [← storedKeys_apply hcall]
      refine ih ?_ fun update hupdate => hcalls update (List.mem_cons_of_mem call hupdate)
      cases call with
      | mergeUpdate update =>
          have hids : ((merged file update).normalize.providers.map
              AiProviderSecretRecord.id).Nodup := by
            rw [normalize_ids, merged_ids]
            exact hcalls update List.mem_cons_self
          exact hids
      | normalize =>
          have hids : (file.normalize.providers.map AiProviderSecretRecord.id).Nodup := by
            rwa [normalize_ids]
          exact hids

end AiConfigFile

end

/-! ## An id that is written twice -/

/-- A file without providers. -/
def AiConfigFile.empty : AiConfigFile :=
  ⟨1, [], none, ⟨none, none, none, none, none⟩, ⟨none, none, false, false⟩⟩

def upsertOf (id : String) (apiKey : AiSecretInput) : AiProviderUpsert :=
  ⟨id, id, "https://api.example.com/v1", "model-a", [], true, apiKey⟩

/-- A provider is written with a key, and once more with another one. -/
def writtenTwice : AiConfigUpdate :=
  { AiConfigFile.empty with
    providers := [upsertOf "p1" (.set "sk-a"), upsertOf "p1" (.set "sk-b")]
    activeProviderId := some "p1" }

/-- Both records are enabled, each with its own key. -/
theorem writtenTwice_unsound :
    ((AiConfigFile.empty.mergeUpdate writtenTwice).providers.map fun provider =>
      (provider.id, provider.enabled, provider.apiKey)) =
        [("p1", true, "sk-a"), ("p1", true, "sk-b")] ∧
      ¬ AiConfigFile.SoundAlong AiConfigFile.empty.storedKeys AiConfigFile.empty
        [.mergeUpdate writtenTwice] := by
  refine ⟨by decide, fun h => ?_⟩
  have hle : 2 ≤ 1 := h.1.enabled_le_one
  omega

end Nazh
