import Nazh.Dsl.Capability
import Nazh.Dsl.Connection
import Nazh.Dsl.Duration
import Nazh.Lib.Brackets
import Nazh.Lib.Template

/-!
# The check of a capability

A capability as it is stored, with everything that its check looks at: its inputs and outputs have
names of their own, what is required has a range, the template of its implementation names inputs only
and its brackets match.

The types with the names of the compiler's have more fields here: those that only the check reads.
-/

namespace Nazh.Dsl

open Lib

/-! ## The data -/

/-- An input of a capability. -/
structure CapabilityParam extends Nazh.CapabilityParam where
  required : Bool
  deriving DecidableEq, Repr

structure CapabilityOutput where
  id : String
  outputType : String
  deriving DecidableEq, Repr

structure SafetyConstraints extends Nazh.SafetyConstraints where
  maxExecutionTime : Option HumanDuration
  deriving DecidableEq, Repr

structure CapabilitySpec where
  id : String
  deviceId : String
  description : String
  inputs : List CapabilityParam
  outputs : List CapabilityOutput
  preconditions : List String
  effects : List String
  implementation : CapabilityImpl
  /-- The ids of the capabilities to fall back to. -/
  fallback : List String
  safety : SafetyConstraints
  deriving DecidableEq, Repr

/-- The template of an implementation that the check looks at, with the path of its field. -/
def checkedTemplate : CapabilityImpl → Option (String × String)
  | .modbusWrite _ _ _ _ _ value => some ("implementation.value", value)
  | .mqttPublish _ payload => some ("implementation.payload", payload)
  | .serialCommand command => some ("implementation.command", command)
  | .canWrite _ _ _ _ _ _ _ data => some ("implementation.data", data)
  | .script content => some ("implementation.content", content)
  | .ethercatPdoWrite _ _ _ _ _ _ _ _ _ _ => none

/-! ## The checks -/

/-- An error in a part of a capability. -/
def capabilityError (id part detail : String) : Except DslError Unit :=
  .error ⟨s!"capability \x60{id}\x60{part}", detail⟩

/-- `validate_unique_inputs`, `validate_unique_outputs` and `validate_fallback_constraints`: no id is
blank and none was `seen` before. -/
def validateUniqueIds (id part what : String) : List String → List String → Except DslError Unit
  | _, [] => .ok ()
  | seen, key :: rest =>
      if Text.trim key == "" then capabilityError id s!" {part}" s!"{what} id 不能为空"
      else if seen.contains key then capabilityError id s!" {part}" s!"重复 {what} id \x60{key}\x60"
      else validateUniqueIds id part what (key :: seen) rest

/-- The placeholder that a text begins with: its name and what is after it. -/
def placeholderAt (s : List Char) : Option (List Char × List Char) :=
  if ['$', '\x7b'] <+: s then cut ['\x7d'] (s.drop 2) else none

/-- `extract_template_variables`, from a character on. A mark without an end is no placeholder. -/
def extractFrom : ℕ → List Char → List String
  | 0, _ => []
  | _, [] => []
  | fuel + 1, c :: rest =>
      match placeholderAt (c :: rest) with
      | some (name, after) =>
          let trimmed := Text.trim (String.ofList name)
          if trimmed == "" then extractFrom fuel after else trimmed :: extractFrom fuel after
      | none => extractFrom fuel rest

/-- The names in a template, without the white space around them and without blank ones. -/
def extractTemplateVariables (expr : String) : List String :=
  extractFrom expr.toList.length expr.toList

namespace CapabilitySpec

variable (spec : CapabilitySpec)

/-- The ids of the inputs. -/
def inputIds : List String := spec.inputs.map fun input => input.id

def validateUniqueInputs : Except DslError Unit :=
  validateUniqueIds spec.id "inputs" "input" [] spec.inputIds

def validateUniqueOutputs : Except DslError Unit :=
  validateUniqueIds spec.id "outputs" "output" [] (spec.outputs.map CapabilityOutput.id)

def validateRequiredInputRanges : Except DslError Unit :=
  spec.inputs.forM fun input =>
    if input.required && input.range.isNone then
      capabilityError spec.id s!" inputs.{input.id}.range"
        "required input 必须声明 range，避免运行时无法做量程保护"
    else .ok ()

def validateTemplateExpr (fieldPath expr : String) (inputIds : List String) :
    Except DslError Unit :=
  if Bracketed '\x7b' '\x7d' expr.toList then
    (extractTemplateVariables expr).forM fun varName =>
      if inputIds.contains varName then .ok ()
      else capabilityError spec.id s!" {fieldPath}"
        s!"模板变量 \x60{varName}\x60 未在 inputs 中声明；请新增 input 或修正模板引用"
  else capabilityError spec.id s!" {fieldPath}" s!"模板表达式括号不匹配: \x60{expr}\x60"

/-- The match of `validate` on the implementation. -/
def validateImplementation : Except DslError Unit :=
  match checkedTemplate spec.implementation with
  | some (fieldPath, expr) => spec.validateTemplateExpr fieldPath expr spec.inputIds
  | none => .ok ()

/-- The test of `validate` on the fallbacks. -/
def validateNotItself : Except DslError Unit :=
  if spec.fallback.contains spec.id then capabilityError spec.id "" "fallback 不能引用自身"
  else .ok ()

def validateFallbackConstraints : Except DslError Unit :=
  validateUniqueIds spec.id "fallback" "fallback" [] spec.fallback

end CapabilitySpec

/-- The loop of `validate_rhai_like_expr` over the characters, with the brackets that are open. -/
def scanExpr (expr : String) : ℕ → ℕ → List Char → Except DslError (ℕ × ℕ)
  | parens, brackets, [] => .ok (parens, brackets)
  | parens, brackets, c :: rest =>
      if c = '(' then scanExpr expr (parens + 1) brackets rest
      else if c = ')' then
        if parens = 0 then .error ⟨"expression", s!"括号不匹配: \x60{expr}\x60"⟩
        else scanExpr expr (parens - 1) brackets rest
      else if c = '[' then scanExpr expr parens (brackets + 1) rest
      else if c = ']' then
        if brackets = 0 then .error ⟨"expression", s!"方括号不匹配: \x60{expr}\x60"⟩
        else scanExpr expr parens (brackets - 1) rest
      else scanExpr expr parens brackets rest

def validateRhaiLikeExpr (expr : String) : Except DslError Unit := do
  if Text.trim expr == "" then .error ⟨"expression", "表达式不能为空"⟩
  else
    let (parens, brackets) ← scanExpr expr 0 0 (Text.trim expr).toList
    if parens == 0 && brackets == 0 then .ok ()
    else .error ⟨"expression", s!"括号不匹配: \x60{expr}\x60"⟩

/-- `CapabilitySpec::validate`. -/
def CapabilitySpec.validate (spec : CapabilitySpec) : Except DslError Unit := do
  spec.validateUniqueInputs
  spec.validateUniqueOutputs
  spec.validateRequiredInputRanges
  spec.validateImplementation
  spec.preconditions.forM validateRhaiLikeExpr
  spec.effects.forM validateRhaiLikeExpr
  spec.validateNotItself
  spec.validateFallbackConstraints

/-! ## What the checks ask for -/

/-- The brackets of a template match, and it names these inputs only. -/
structure TemplateFits (inputIds : List String) (expr : String) : Prop where
  balanced : Bracketed '\x7b' '\x7d' expr.toList
  declared : ∀ name ∈ extractTemplateVariables expr, name ∈ inputIds

/-- No id is blank, and none is there twice. -/
structure UniqueIds (ids : List String) : Prop where
  nonblank : ∀ id ∈ ids, Text.trim id ≠ ""
  nodup : ids.Nodup

structure CapabilitySpec.Valid (spec : CapabilitySpec) : Prop where
  inputs : UniqueIds spec.inputIds
  outputs : UniqueIds (spec.outputs.map CapabilityOutput.id)
  ranges : ∀ input ∈ spec.inputs, input.required = true → input.range.isSome = true
  template : ∀ fieldPath expr, checkedTemplate spec.implementation = some (fieldPath, expr) →
    TemplateFits spec.inputIds expr
  preconditions : ∀ expr ∈ spec.preconditions, validateRhaiLikeExpr expr = .ok ()
  effects : ∀ expr ∈ spec.effects, validateRhaiLikeExpr expr = .ok ()
  fallback : UniqueIds spec.fallback
  notItself : spec.id ∉ spec.fallback

theorem capabilityError_ne_ok {id part detail : String} : capabilityError id part detail ≠ .ok () := by
  intro h
  cases h

theorem validateUniqueIds_eq_ok {id part what : String} {seen ids : List String} :
    validateUniqueIds id part what seen ids = .ok () ↔
      UniqueIds ids ∧ ∀ key ∈ ids, key ∉ seen := by
  induction ids generalizing seen with
  | nil => exact ⟨fun _ => ⟨⟨by simp, .nil⟩, by simp⟩, fun _ => rfl⟩
  | cons key rest ih =>
      rw [validateUniqueIds]
      by_cases hblank : Text.trim key = ""
      · simp only [hblank, beq_self_eq_true, if_true, capabilityError_ne_ok, false_iff]
        rintro ⟨hunique, -⟩
        exact hunique.nonblank key List.mem_cons_self hblank
      · by_cases hseen : key ∈ seen
        · simp only [beq_eq_false_iff_ne.mpr hblank, Bool.false_eq_true, if_false,
            List.contains_iff_mem, hseen, if_true, capabilityError_ne_ok, false_iff]
          rintro ⟨-, hnew⟩
          exact hnew key List.mem_cons_self hseen
        · simp only [beq_eq_false_iff_ne.mpr hblank, Bool.false_eq_true, if_false,
            List.contains_iff_mem, hseen, ih]
          constructor
          · rintro ⟨⟨hnonblank, hnodup⟩, hnew⟩
            refine ⟨⟨List.forall_mem_cons.mpr ⟨hblank, hnonblank⟩, List.nodup_cons.mpr
              ⟨fun hmem => hnew key hmem List.mem_cons_self, hnodup⟩⟩,
              List.forall_mem_cons.mpr ⟨hseen, fun k hk hks => ?_⟩⟩
            exact hnew k hk (List.mem_cons_of_mem _ hks)
          · rintro ⟨⟨hnonblank, hnodup⟩, hnew⟩
            obtain ⟨hself, hnodup⟩ := List.nodup_cons.mp hnodup
            refine ⟨⟨(List.forall_mem_cons.mp hnonblank).2, hnodup⟩, fun k hk => ?_⟩
            rw [List.mem_cons, not_or]
            exact ⟨fun heq => hself (heq ▸ hk), hnew k (List.mem_cons_of_mem _ hk)⟩

theorem CapabilitySpec.validateTemplateExpr_eq_ok {spec : CapabilitySpec} {fieldPath expr : String}
    {inputIds : List String} :
    spec.validateTemplateExpr fieldPath expr inputIds = .ok () ↔ TemplateFits inputIds expr := by
  rw [validateTemplateExpr]
  by_cases hbalanced : Bracketed '\x7b' '\x7d' expr.toList
  · rw [if_pos hbalanced, forM_eq_ok]
    constructor
    · intro h
      refine ⟨hbalanced, fun name hname => ?_⟩
      by_contra hnot
      have hcheck := h name hname
      simp only [List.contains_iff_mem, hnot, if_false] at hcheck
      exact capabilityError_ne_ok hcheck
    · intro h name hname
      simp only [List.contains_iff_mem, h.declared name hname, if_true]
  · rw [if_neg hbalanced]
    exact ⟨fun h => absurd h capabilityError_ne_ok, fun h => absurd h.balanced hbalanced⟩

/-- The check asks for exactly what makes a capability valid. -/
theorem CapabilitySpec.validate_eq_ok {spec : CapabilitySpec} :
    spec.validate = .ok () ↔ spec.Valid := by
  have hranges : spec.validateRequiredInputRanges = .ok () ↔
      ∀ input ∈ spec.inputs, input.required = true → input.range.isSome = true := by
    rw [validateRequiredInputRanges, forM_eq_ok]
    refine forall₂_congr fun input _ => ?_
    cases hrequired : input.required <;> cases hrange : input.range <;>
      simp [capabilityError_ne_ok]
  have htemplate : spec.validateImplementation = .ok () ↔ ∀ fieldPath expr,
      checkedTemplate spec.implementation = some (fieldPath, expr) →
        TemplateFits spec.inputIds expr := by
    rw [validateImplementation]
    cases checkedTemplate spec.implementation with
    | none => simp
    | some template =>
        dsimp only
        rw [validateTemplateExpr_eq_ok]
        constructor
        · rintro h fieldPath expr ⟨⟩
          exact h
        · intro h
          exact h _ _ rfl
  have hitself : spec.validateNotItself = .ok () ↔ spec.id ∉ spec.fallback := by
    rw [validateNotItself]
    by_cases hmem : spec.id ∈ spec.fallback <;> simp [hmem, capabilityError_ne_ok]
  rw [validate]
  simp only [check_bind_eq_ok]
  rw [hranges, hitself, htemplate, validateUniqueInputs, validateUniqueOutputs,
    validateFallbackConstraints, forM_eq_ok, forM_eq_ok, validateUniqueIds_eq_ok, validateUniqueIds_eq_ok,
    validateUniqueIds_eq_ok]
  constructor
  · rintro ⟨⟨hinputs, -⟩, ⟨houtputs, -⟩, hranges, htemplate, hpre, heffects, hself, hfallback, -⟩
    exact ⟨hinputs, houtputs, hranges, htemplate, hpre, heffects, hfallback, hself⟩
  · rintro ⟨hinputs, houtputs, hranges, htemplate, hpre, heffects, hfallback, hself⟩
    exact ⟨⟨hinputs, by simp⟩, ⟨houtputs, by simp⟩, hranges, htemplate, hpre, heffects, hself,
      hfallback, by simp⟩

/-! ## Templates one after another -/

theorem placeholderAt_eq_some {s name after : List Char} (h : placeholderAt s = some (name, after)) :
    s = ['$', '\x7b'] ++ name ++ ['\x7d'] ++ after := by
  rw [placeholderAt] at h
  split at h
  · rename_i hmark
    rw [← List.prefix_iff_eq_append.mp hmark]
    have hrest := eq_of_cut h
    simp only [List.length_cons, List.length_nil] at hrest ⊢
    rw [← hrest]
    simp
  · cases h

/-- A placeholder that a text begins with is there in a longer text. Where all brackets are closed,
nothing after the text makes another. -/
theorem placeholderAt_append {s t : List Char} (hs : s ≠ []) (hclosed : Closes '\x7b' '\x7d' s)
    (ht : t.head? ≠ some '\x7b') :
    placeholderAt (s ++ t) = (placeholderAt s).map fun found => (found.1, found.2 ++ t) := by
  match s, hs with
  | [c], _ =>
      have hnot : ¬ ['$', '\x7b'] <+: c :: t := by
        rintro ⟨rest, hrest⟩
        cases t with
        | nil => cases hrest
        | cons d t =>
            obtain ⟨-, hd, -⟩ := by simpa using hrest
            exact ht (congrArg some hd.symm)
      have hsingle : ¬ ['$', '\x7b'] <+: [c] := fun h => absurd h.length_le (by simp)
      rw [placeholderAt, placeholderAt, if_neg hsingle]
      exact if_neg hnot
  | c :: d :: rest, _ =>
      have hstarts : ∀ more, ['$', '\x7b'] <+: c :: d :: more ↔ '$' = c ∧ '\x7b' = d := by
        intro more
        simp
      rw [placeholderAt, placeholderAt, List.cons_append, List.cons_append]
      by_cases hmark : '$' = c ∧ '\x7b' = d
      · rw [if_pos ((hstarts _).mpr hmark), if_pos ((hstarts _).mpr hmark)]
        obtain ⟨rfl, rfl⟩ := hmark
        have hopen : Closes '\x7b' '\x7d' ('\x7b' :: rest) :=
          @Closes.of_append _ _ _ _ ['$'] _ hclosed
        have hmem := hopen.closing_mem
        cases hcut : cut ['\x7d'] rest with
        | none => exact absurd hmem (cut_singleton_eq_none.mp hcut)
        | some found =>
            obtain ⟨name, after⟩ := found
            exact (cut_append hcut t).trans (by simp [hcut])
      · rw [if_neg fun h => hmark ((hstarts _).mp h), if_neg fun h => hmark ((hstarts _).mp h)]
        rfl

/-- Fuel for every character is enough. -/
theorem extractFrom_of_le {fuel more : ℕ} {s : List Char} (hfuel : s.length ≤ fuel)
    (hle : fuel ≤ more) : extractFrom more s = extractFrom fuel s := by
  induction fuel generalizing s more with
  | zero =>
      obtain rfl := List.length_eq_zero_iff.mp (Nat.le_zero.mp hfuel)
      cases more <;> rfl
  | succ fuel ih =>
      obtain ⟨more, rfl⟩ : ∃ m, more = m + 1 := ⟨more - 1, by omega⟩
      cases s with
      | nil => rfl
      | cons c rest =>
          rw [List.length_cons] at hfuel
          rw [extractFrom, extractFrom]
          cases hfound : placeholderAt (c :: rest) with
          | none => exact ih (by omega) (by omega)
          | some found =>
              obtain ⟨name, after⟩ := found
              have hlen := congrArg List.length (placeholderAt_eq_some hfound)
              simp only [List.length_cons, List.length_append, List.length_nil] at hlen
              simp only [@ih more after (by omega) (by omega)]

/-- The names of a text in which all brackets are closed, and of what is after it. -/
theorem extractFrom_append {fuel : ℕ} {s t : List Char} (hfuel : s.length + t.length ≤ fuel)
    (hclosed : Closes '\x7b' '\x7d' s) (ht : t.head? ≠ some '\x7b') :
    extractFrom fuel (s ++ t) = extractFrom fuel s ++ extractFrom fuel t := by
  induction fuel generalizing s with
  | zero => rfl
  | succ fuel ih =>
      cases s with
      | nil => rfl
      | cons c rest =>
          rw [List.length_cons] at hfuel
          have hmore : extractFrom (fuel + 1) t = extractFrom fuel t :=
            extractFrom_of_le (by omega) (Nat.le_succ fuel)
          have hhere := placeholderAt_append (List.cons_ne_nil c rest) hclosed ht
          rw [List.cons_append] at hhere
          rw [List.cons_append, extractFrom, extractFrom, hhere, hmore]
          cases hfound : placeholderAt (c :: rest) with
          | none => exact ih (by omega) (@Closes.of_append _ _ _ _ [c] _ hclosed)
          | some found =>
              obtain ⟨name, after⟩ := found
              have hwhole := placeholderAt_eq_some hfound
              have hlen := congrArg List.length hwhole
              simp only [List.length_cons, List.length_append, List.length_nil] at hlen
              have hafter : Closes '\x7b' '\x7d' after := Closes.of_append (hwhole ▸ hclosed)
              simp only [Option.map_some, ih (by omega : after.length + t.length ≤ fuel) hafter]
              split <;> rfl

theorem extractTemplateVariables_append {s t : String} (hclosed : Bracketed '\x7b' '\x7d' s.toList)
    (ht : t.toList.head? ≠ some '\x7b') : extractTemplateVariables (s ++ t) =
      extractTemplateVariables s ++ extractTemplateVariables t := by
  rw [extractTemplateVariables, String.toList_append, List.length_append,
    extractFrom_append (le_refl _) hclosed.closes ht, extractTemplateVariables,
    extractTemplateVariables, extractFrom_of_le (le_refl _) (Nat.le_add_right _ _),
    extractFrom_of_le (le_refl _) (Nat.le_add_left _ _)]

/-! ## Expressions without brackets -/

theorem scanExpr_of_plain {expr : String} {parens brackets : ℕ} {cs : List Char}
    (h : ∀ c ∈ cs, c ∉ ['(', ')', '[', ']']) :
    scanExpr expr parens brackets cs = .ok (parens, brackets) := by
  induction cs with
  | nil => rfl
  | cons c cs ih =>
      obtain ⟨hc, hrest⟩ := List.forall_mem_cons.mp h
      simp only [List.mem_cons, List.not_mem_nil, or_false, not_or] at hc
      rw [scanExpr, if_neg hc.1, if_neg hc.2.1, if_neg hc.2.2.1, if_neg hc.2.2.2, ih hrest]

/-- A text that is not blank and has no brackets is taken for an expression. -/
theorem validateRhaiLikeExpr_of_plain {expr : String} (hblank : Text.trim expr ≠ "")
    (h : ∀ c ∈ (Text.trim expr).toList, c ∉ ['(', ')', '[', ']']) :
    validateRhaiLikeExpr expr = .ok () := by
  rw [validateRhaiLikeExpr, if_neg (by simpa using hblank), scanExpr_of_plain h]
  rfl

end Nazh.Dsl
