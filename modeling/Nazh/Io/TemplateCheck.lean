import Nazh.Dsl.CapabilityCheck
import Nazh.Io.CapabilityNode

/-!
# Templates that are checked and filled

The check of a capability and the node that calls it each look for the placeholders of a template. The
check takes the white space off a name and passes over a blank one; the node asks for the name as it is
written. So a checked template is filled completely just if its names are written without white space.
-/

namespace Nazh.Dsl

open Lib

/-! ## What is asked for -/

/-- The template of an implementation that is checked and filled. -/
def resolvedTemplate : CapabilityImpl → Option String
  | .modbusWrite _ _ _ _ _ value => some value
  | .mqttPublish _ payload => some payload
  | .serialCommand command => some command
  | .canWrite _ _ _ _ _ _ _ data => some data
  | .script _ => none
  | .ethercatPdoWrite _ _ _ _ _ _ _ _ _ _ => none

/-- A value that is written as it is, without marks of its own. -/
def isNumberOrBool : Value → Bool
  | .number _ => true
  | .bool _ => true
  | _ => false

/-- The payload has a number or a boolean for each of the inputs. -/
def GivesInputs (payload : Value) (inputIds : List String) : Prop :=
  ∀ id ∈ inputIds, ∃ val, payload.get id = some val ∧ isNumberOrBool val = true

section ShowF64

variable (showF64 : UInt64 → String)

/-- What stands for a placeholder: the text of the input that it names. -/
def inputText (payload : Value) (name : String) : String :=
  ((payload.get (Text.trim name)).map (valueToString showF64)).getD ""

/-- With the inputs given, a template is filled with their texts, and no placeholder is left. -/
def ResolvesAll (inputIds : List String) (template : String) : Prop :=
  ∀ (node : CapabilityCallNode) (payload : Value), GivesInputs payload inputIds →
    placeholders (node.resolveTemplate showF64 payload template) = [] ∧
      node.resolveTemplate showF64 payload template = fill (inputText showF64 payload) template

end ShowF64

/-- The name of a placeholder as the check takes it: not blank, with no white space around it. -/
def PlainName (name : String) : Prop := Text.trim name = name ∧ name ≠ ""

instance (name : String) : Decidable (PlainName name) := inferInstanceAs (Decidable (_ ∧ _))

/-! ## The two scanners -/

/-- The name of a placeholder, as the check takes it. -/
def checkedName (name : List Char) : Option String :=
  if Text.trim (String.ofList name) == "" then none else some (Text.trim (String.ofList name))

/-- A placeholder at the beginning is the first. -/
theorem first_of_mark {s : List Char} (hmark : placeholder.opening <+: s) :
    placeholder.first s = (placeholderAt s).map fun found => ([], found.1, found.2) := by
  have hopen : cut placeholder.opening s = some ([], s.drop 2) := by
    cases s with
    | nil => exact absurd hmark (by decide)
    | cons c rest =>
        rw [cut, if_pos hmark]
        rfl
  rw [Delimiters.first, hopen, Option.bind_some, placeholderAt,
    if_pos (show ['$', '\x7b'] <+: s from hmark)]
  rfl

theorem placeholderAt_of_not_mark {s : List Char} (hmark : ¬ placeholder.opening <+: s) :
    placeholderAt s = none := by
  rw [placeholderAt]
  exact if_neg hmark

theorem extractFrom_eq {fuel : ℕ} {s : List Char} (hfuel : s.length ≤ fuel) :
    extractFrom fuel s = (placeholder.holes s).filterMap checkedName := by
  induction fuel generalizing s with
  | zero =>
      obtain rfl := List.length_eq_zero_iff.mp (Nat.le_zero.mp hfuel)
      rfl
  | succ fuel ih =>
      cases s with
      | nil => rfl
      | cons c rest =>
          rw [List.length_cons] at hfuel
          have hskip := ih (by omega : rest.length ≤ fuel)
          by_cases hmark : placeholder.opening <+: c :: rest
          · have hfirst := first_of_mark hmark
            rw [extractFrom]
            cases hat : placeholderAt (c :: rest) with
            | none =>
                rw [hat] at hfirst
                -- No placeholder ends after this, so the rest has none either.
                have hrest : placeholder.first rest = none := by
                  by_contra hsome
                  obtain ⟨⟨before, name, after⟩, hsome⟩ := Option.ne_none_iff_exists'.mp hsome
                  refine @Delimiters.first_ne_none _ _ placeholder (by decide) (c :: before) name
                    after ?_
                  rw [List.cons_append, List.cons_append, Delimiters.eq_of_first hsome, hfirst]
                  rfl
                simp only [hskip, Delimiters.holes_of_none hfirst, Delimiters.holes_of_none hrest]
            | some found =>
                obtain ⟨name, after⟩ := found
                rw [hat, Option.map_some] at hfirst
                have hlen : after.length < rest.length + 1 := Delimiters.length_lt_of_first hfirst
                have hafter := ih (by omega : after.length ≤ fuel)
                by_cases hblank : Text.trim (String.ofList name) = ""
                · have hnone : checkedName name = none := by rw [checkedName, hblank]; rfl
                  simp only [Delimiters.holes_of_some hfirst, List.filterMap_cons, hnone, hafter, hblank,
                    beq_self_eq_true, if_true]
                · have hsome : checkedName name = some (Text.trim (String.ofList name)) :=
                    if_neg (by simpa using hblank)
                  simp only [Delimiters.holes_of_some hfirst, List.filterMap_cons, hsome, hafter,
                    beq_eq_false_iff_ne.mpr hblank, Bool.false_eq_true, if_false]
          · rw [extractFrom, placeholderAt_of_not_mark hmark,
              Delimiters.holes_cons_of_not_prefix hmark]
            exact hskip

/-- The check takes the names of the placeholders, but trims them and passes over blank ones. -/
theorem mem_extractTemplateVariables {template id : String} :
    id ∈ extractTemplateVariables template ↔
      id ≠ "" ∧ ∃ name ∈ placeholders template, Text.trim name = id := by
  rw [extractTemplateVariables, extractFrom_eq (le_refl _), List.mem_filterMap, placeholders]
  constructor
  · rintro ⟨name, hname, hid⟩
    rw [checkedName] at hid
    split at hid
    · cases hid
    · rename_i hblank
      obtain rfl := Option.some.inj hid
      exact ⟨by simpa using hblank, _, List.mem_map_of_mem hname, rfl⟩
  · rintro ⟨hne, name, hname, rfl⟩
    obtain ⟨chars, hchars, rfl⟩ := List.mem_map.mp hname
    exact ⟨chars, hchars, by rw [checkedName, if_neg (by simpa using hne)]⟩

/-- The names of a checked template that are not blank are inputs. -/
theorem TemplateFits.trim_mem {inputIds : List String} {template name : String}
    (h : TemplateFits inputIds template) (hname : name ∈ placeholders template)
    (hblank : Text.trim name ≠ "") : Text.trim name ∈ inputIds :=
  h.declared _ (mem_extractTemplateVariables.mpr ⟨hblank, name, hname, rfl⟩)

/-! ## The texts that are put in -/

/-- A text that neither has a mark nor completes one. -/
structure Inert (text : String) : Prop where
  ne_empty : text ≠ ""
  dollar : '$' ∉ text.toList
  opening : '\x7b' ∉ text.toList

/-- The digits of a number are no marks. -/
theorem inert_toString (n : ℕ) : Inert (toString n) := by
  have hdigit : ∀ c ∈ (toString n).toList, c.isDigit = true := by
    intro c hc
    rw [Nat.toString_eq_repr, Nat.toList_repr] at hc
    exact Nat.isDigit_of_mem_toDigits (by decide) (by decide) hc
  refine ⟨?_, fun h => absurd (hdigit _ h) (by decide), fun h => absurd (hdigit _ h) (by decide)⟩
  rw [Nat.toString_eq_repr]
  exact Nat.repr_ne_empty

theorem inert_of_int (i : ℤ) : Inert (toString i) := by
  rw [Int.toString_eq_repr, Int.repr_eq_if]
  split
  · exact Nat.toString_eq_repr ▸ inert_toString i.toNat
  · obtain ⟨-, hdollar, hopening⟩ := inert_toString (-i).toNat
    rw [Nat.toString_eq_repr] at hdollar hopening
    refine ⟨fun h => ?_, ?_, ?_⟩
    · exact absurd (congrArg String.toList h) (by simp)
    · rw [String.toList_append, List.mem_append, not_or]
      exact ⟨by decide, hdollar⟩
    · rw [String.toList_append, List.mem_append, not_or]
      exact ⟨by decide, hopening⟩

/-- What is put in for a number or a boolean neither has a mark nor completes one. -/
theorem inert_valueToString {showF64 : UInt64 → String} (hshow : ∀ bits, Inert (showF64 bits))
    {val : Value} (hval : isNumberOrBool val = true) : Inert (valueToString showF64 val) := by
  have hbool : ∀ b : Bool, Inert (toString b) := by
    intro b
    cases b <;> exact ⟨by decide, by decide, by decide⟩
  cases val with
  | number n =>
      cases n with
      | posInt n => exact inert_toString n.toNat
      | negInt i => exact inert_of_int i
      | float bits => exact hshow bits
  | bool b => exact hbool b
  | _ => cases hval

/-- In a text whose brackets match, a mark that is found begins a placeholder. -/
theorem cut_opening_of_first {s : List Char} (hclosed : Closes '\x7b' '\x7d' s)
    (hfirst : placeholder.first s = none) : cut ['$', '\x7b'] s = none := by
  by_contra hcut
  obtain ⟨⟨before, opened⟩, hcut⟩ := Option.ne_none_iff_exists'.mp hcut
  have hs : before ++ ['$'] ++ ('\x7b' :: opened) = s := by
    rw [← eq_of_cut hcut]
    simp
  have hmem := (Closes.of_append (hs ▸ hclosed)).closing_mem
  rw [Delimiters.first, show cut placeholder.opening s = _ from hcut, Option.bind_some,
    Option.map_eq_none_iff] at hfirst
  exact cut_singleton_eq_none.mp hfirst hmem

/-- After inert texts are put in for all placeholders, no mark is left. -/
theorem cut_opening_render {f : List Char → List Char} {s : List Char}
    (hclosed : Closes '\x7b' '\x7d' s)
    (hinert : ∀ name ∈ placeholder.holes s, Inert (String.ofList (f name))) :
    cut ['$', '\x7b'] (placeholder.render f s) = none := by
  induction hn : s.length using Nat.strong_induction_on generalizing s with
  | _ n ih =>
      cases hfirst : placeholder.first s with
      | none =>
          rw [Delimiters.render_of_none hfirst]
          exact cut_opening_of_first hclosed hfirst
      | some found =>
          obtain ⟨before, name, after⟩ := found
          rw [Delimiters.holes_of_some hfirst, List.forall_mem_cons] at hinert
          obtain ⟨⟨hne, hdollar, hopening⟩, hinert⟩ := hinert
          rw [String.toList_ofList] at hdollar hopening
          have hs := Delimiters.eq_of_first hfirst
          have hlt : after.length < s.length := Delimiters.length_lt_of_first hfirst
          have hafter := ih after.length (by omega) (Closes.of_append (hs ▸ hclosed)) hinert rfl
          have hbefore : cut ['$', '\x7b'] before = none := by
            obtain ⟨⟨b, rest⟩, hopen, hclose⟩ := Option.bind_eq_some_iff.mp hfirst
            obtain ⟨close, -, heq⟩ := Option.map_eq_some_iff.mp hclose
            obtain ⟨rfl, -⟩ := Prod.mk.inj heq
            exact cut_before (by decide) hopen
          rw [Delimiters.render_of_some hfirst]
          refine cut_pair_append hbefore hafter ?_ hdollar hopening
          rintro heq
          exact hne (by rw [heq])

/-- A template whose brackets match has no placeholder after inert texts are put in for all. -/
theorem placeholders_fill {f : String → String} {template : String}
    (hbalanced : Bracketed '\x7b' '\x7d' template.toList)
    (hinert : ∀ name ∈ placeholders template, Inert (f name)) :
    placeholders (fill f template) = [] := by
  have hcut := @cut_opening_render (fun name => (f (String.ofList name)).toList) _ hbalanced.closes
    fun name hname => by
      rw [String.ofList_toList]
      exact hinert _ (List.mem_map_of_mem hname)
  have hfirst : placeholder.first (fill f template).toList = none := by
    rw [fill, String.toList_ofList, Delimiters.first, show cut placeholder.opening _ = none from hcut,
      Option.bind_none]
  rw [placeholders, Delimiters.holes_of_none hfirst, List.map_nil]

/-! ## When a template is filled completely -/

section Resolve

variable {showF64 : UInt64 → String} {node : CapabilityCallNode} {payload : Value}
variable {inputIds : List String} {template name : String}

theorem resolveVariable_of_get {val : Value} (h : payload.get name = some val) :
    node.resolveVariable showF64 payload name = valueToString showF64 val := by
  rw [CapabilityCallNode.resolveVariable, h]

/-- Where the names are those of inputs, the template is filled completely. -/
theorem resolvesAll_of_plain (hshow : ∀ bits, Inert (showF64 bits))
    (hfits : TemplateFits inputIds template)
    (hplain : ∀ name ∈ placeholders template, PlainName name) :
    ResolvesAll showF64 inputIds template := by
  intro node payload hgives
  have hinput : ∀ name ∈ placeholders template, ∃ val, payload.get name = some val ∧
      isNumberOrBool val = true := by
    intro name hname
    obtain ⟨htrim, hne⟩ := hplain name hname
    have hmem := hfits.trim_mem hname (by rw [htrim]; exact hne)
    exact hgives name (htrim ▸ hmem)
  rw [CapabilityCallNode.resolveTemplate_eq]
  constructor
  · refine placeholders_fill hfits.balanced fun name hname => ?_
    obtain ⟨val, hget, hval⟩ := hinput name hname
    rw [resolveVariable_of_get hget]
    exact inert_valueToString hshow hval
  · refine fill_congr fun name hname => ?_
    obtain ⟨val, hget, -⟩ := hinput name hname
    rw [resolveVariable_of_get hget, inputText, (hplain name hname).1, hget]
    rfl

/-- A node without variables and arguments. -/
def bareNode : CapabilityCallNode where
  id := "call"
  config := {
    connectionId := none
    capabilityId := "axis.move_to"
    deviceId := "press_1"
    implementation := .serialCommand ""
    args := ∅ }
  vars := none

/-- A payload with a number for every input, and nothing else. -/
def payloadOf (value : String → UInt64) (inputIds : List String) : Value :=
  .object (inputIds.map fun id => (id, .number (.posInt (value id))))

theorem get_payloadOf {value : String → UInt64} (h : name ∈ inputIds) :
    (payloadOf value inputIds).get name = some (.number (.posInt (value name))) :=
  List.lookup_graph (fun id => Value.number (.posInt (value id))) h

theorem get_payloadOf_eq_none {value : String → UInt64} (h : name ∉ inputIds) :
    (payloadOf value inputIds).get name = none := by
  refine List.lookup_eq_none_iff.mpr fun field hfield => ?_
  obtain ⟨id, hid, rfl⟩ := List.mem_map.mp hfield
  have hne : name ≠ id := by
    rintro rfl
    exact h hid
  exact bne_iff_ne.mpr hne

theorem givesInputs_payloadOf (value : String → UInt64) :
    GivesInputs (payloadOf value inputIds) inputIds :=
  fun _ hid => ⟨_, get_payloadOf hid, rfl⟩

/-- In a template that is filled completely, every name is that of an input. -/
theorem ResolvesAll.mem_inputs (h : ResolvesAll showF64 inputIds template)
    (hname : name ∈ placeholders template) : name ∈ inputIds := by
  by_contra hnot
  obtain ⟨hnone, -⟩ := h bareNode _ (givesInputs_payloadOf fun _ => 0)
  obtain ⟨chars, hchars, rfl⟩ := List.mem_map.mp hname
  have hstays : bareNode.resolveVariable showF64 (payloadOf (fun _ => 0) inputIds)
      (String.ofList chars) = s!"$\x7b{String.ofList chars}\x7d" := by
    rw [CapabilityCallNode.resolveVariable, get_payloadOf_eq_none hnot]
    rfl
  rw [CapabilityCallNode.resolveTemplate_eq, placeholders, List.map_eq_nil_iff, fill,
    String.toList_ofList] at hnone
  have hfirst := Delimiters.first_render_ne_none (f := fun name =>
    (bareNode.resolveVariable showF64 (payloadOf (fun _ => 0) inputIds) (String.ofList name)).toList)
    (by decide) hchars (by rw [hstays]; simp [placeholder, toString])
  obtain ⟨⟨before, inner, after⟩, hfirst⟩ := Option.ne_none_iff_exists'.mp hfirst
  rw [Delimiters.holes_of_some hfirst] at hnone
  cases hnone

/-- In a template that is filled completely, no name has white space around it. -/
theorem ResolvesAll.plainName (h : ResolvesAll showF64 inputIds template)
    (hunique : UniqueIds inputIds) (hfits : TemplateFits inputIds template)
    (hname : name ∈ placeholders template) : PlainName name := by
  have hne : name ≠ "" := by
    rintro rfl
    exact hunique.nonblank _ (h.mem_inputs hname) (by decide)
  by_contra hplain
  have htrim : Text.trim name ≠ name := fun heq => hplain ⟨heq, hne⟩
  -- The input of the name is 1, the one the name stands for is 0.
  let value : String → UInt64 := fun id => if id = name then 1 else 0
  have hinput : ∀ other ∈ placeholders template,
      inputText showF64 (payloadOf value inputIds) other = "0" := by
    intro other hother
    have hblank := hunique.nonblank _ (h.mem_inputs hother)
    have hzero : value (Text.trim other) = 0 := by
      refine if_neg ?_
      rintro rfl
      exact htrim (Text.trim_trim other)
    rw [inputText, get_payloadOf (hfits.trim_mem hother hblank), hzero]
    rfl
  have hresolve : ∀ other ∈ placeholders template,
      bareNode.resolveVariable showF64 (payloadOf value inputIds) other =
        if other = name then "1" else "0" := by
    intro other hother
    rw [resolveVariable_of_get (get_payloadOf (h.mem_inputs hother))]
    simp only [value]
    split <;> rfl
  obtain ⟨-, hfill⟩ := h bareNode _ (givesInputs_payloadOf value)
  rw [CapabilityCallNode.resolveTemplate_eq, fill_eq_iff hname, hinput name hname,
    hresolve name hname, if_pos rfl] at hfill
  · exact absurd hfill (by decide)
  · intro other hother hother_ne
    rw [hinput other hother, hresolve other hother, if_neg hother_ne]

/-- The template of a checked capability is filled completely just if none of its names is blank or has
white space around it. -/
theorem resolvesAll_iff (hshow : ∀ bits, Inert (showF64 bits)) {spec : CapabilitySpec}
    (hvalid : spec.validate = .ok ())
    (htemplate : resolvedTemplate spec.implementation = some template) :
    ResolvesAll showF64 spec.inputIds template ↔
      ∀ name ∈ placeholders template, PlainName name := by
  obtain ⟨fieldPath, hchecked⟩ : ∃ fieldPath,
      checkedTemplate spec.implementation = some (fieldPath, template) := by
    cases himpl : spec.implementation <;> rw [himpl] at htemplate <;> cases htemplate <;>
      exact ⟨_, rfl⟩
  have hspec := CapabilitySpec.validate_eq_ok.mp hvalid
  have hfits := hspec.template _ _ hchecked
  exact ⟨fun h _ hname => h.plainName hspec.inputs hfits hname, resolvesAll_of_plain hshow hfits⟩

end Resolve

/-- A capability that moves an axis, with this text of the command. -/
def moveTo (command : String) : CapabilitySpec where
  id := "axis.move_to"
  deviceId := "press_1"
  description := ""
  inputs := [⟨⟨"position", none, none⟩, false⟩]
  outputs := []
  preconditions := []
  effects := []
  implementation := .serialCommand command
  fallback := []
  safety := ⟨⟨.low, false⟩, none⟩

/-- A placeholder with blanks around its name is accepted and never filled. -/
theorem spaced_not_resolved : (moveTo "MOVE $\x7b position \x7d").validate = .ok () ∧
    ¬ ResolvesAll (fun _ => "0.5") (moveTo "MOVE $\x7b position \x7d").inputIds
      "MOVE $\x7b position \x7d" := by
  refine ⟨by decide, fun h => ?_⟩
  obtain ⟨hnone, -⟩ := h bareNode (.object [("position", .number (.posInt 50))]) (by
    intro id hid
    obtain rfl := List.mem_singleton.mp hid
    exact ⟨_, rfl, rfl⟩)
  exact absurd hnone (by decide)

theorem position_resolved : ResolvesAll (fun _ => "0.5") (moveTo "MOVE $\x7bposition\x7d").inputIds
    "MOVE $\x7bposition\x7d" ↔
      ∀ name ∈ placeholders "MOVE $\x7bposition\x7d", PlainName name :=
  resolvesAll_iff (fun _ => ⟨by decide, by decide, by decide⟩) (by decide) rfl

end Nazh.Dsl
