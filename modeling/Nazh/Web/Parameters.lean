import Nazh.Lib.Holes
import Nazh.Web.DrawnNodes

/-!
# Parameters of subgraphs

The data of a node in a subgraph may have placeholders, which the subgraph fills with the values that
are bound to their names. The subgraphs around it do so one after another, the innermost first, and
each of them looks at what the ones in it have made of the data: also at the texts that they have
filled in. A subgraph that binds anything fills in the names that every object inherits, too.
-/

namespace Nazh.Web

open Lib

/-! ## Placeholders -/

section Placeholders

variable {s t key key' : List Char}

theorem placeholder_eq_some_iff : placeholder s = some key ↔
    ∃ rest, s = '{' :: '{' :: (key ++ '}' :: '}' :: rest) ∧ key ≠ [] ∧
      ∀ c ∈ key, isWordChar c = true := by
  constructor
  · intro h
    unfold placeholder at h
    split at h
    · rename_i rest
      obtain ⟨⟨hne, hclose⟩, hkey⟩ := Option.ite_none_right_eq_some.mp h
      cases hkey
      refine ⟨(rest.drop (rest.takeWhile isWordChar).length).drop 2, ?_, hne,
        fun c hc => List.mem_takeWhile_imp hc⟩
      have hrest : rest = rest.takeWhile isWordChar ++
          ((rest.drop (rest.takeWhile isWordChar).length).take 2 ++
            (rest.drop (rest.takeWhile isWordChar).length).drop 2) := by
        rw [List.take_append_drop]
        exact (List.prefix_iff_eq_append.mp (List.takeWhile_prefix isWordChar)).symm
      rw [hclose] at hrest
      exact congrArg (fun l => '{' :: '{' :: l) hrest
    · cases h
  · rintro ⟨rest, rfl, hne, hword⟩
    have hkey : (key ++ '}' :: '}' :: rest).takeWhile isWordChar = key := by
      rw [List.takeWhile_append_of_pos hword, List.takeWhile_cons_of_neg (by decide),
        List.append_nil]
    simp only [placeholder, hkey, List.drop_left]
    exact if_pos ⟨hne, rfl⟩

/-- A placeholder begins with braces, which are no part of a name and do not close it. -/
theorem placeholder_apart {i : ℕ} (h : placeholder s = some key)
    (h' : placeholder (s.drop i) = some key') (hi : 0 < i) : key.length + 4 ≤ i := by
  obtain ⟨rest, rfl, -, hword⟩ := placeholder_eq_some_iff.mp h
  obtain ⟨rest', hdrop, -, -⟩ := placeholder_eq_some_iff.mp h'
  by_contra hlt
  have hopen : ∀ j, (key ++ '}' :: '}' :: rest)[j]? = some '{' → key.length + 2 ≤ j := by
    intro j hj
    by_contra hless
    have hsplit : key ++ '}' :: '}' :: rest = (key ++ ['}', '}']) ++ rest := by simp
    rw [hsplit, List.getElem?_append_left (by simp; omega)] at hj
    rcases List.mem_append.mp (List.mem_of_getElem? hj) with hmem | hmem
    · exact absurd (hword _ hmem) (by decide)
    · exact absurd hmem (by decide)
  have hfirst : ('{' :: '{' :: (key ++ '}' :: '}' :: rest))[i]? = some '{' := by
    rw [← List.head?_drop, hdrop]
    rfl
  have hsecond : ('{' :: '{' :: (key ++ '}' :: '}' :: rest))[i + 1]? = some '{' := by
    rw [← List.head?_drop, ← List.drop_drop, hdrop]
    rfl
  match i, hi with
  | 1, _ => exact absurd (hopen 0 hsecond) (Nat.not_succ_le_zero _)
  | j + 2, _ =>
      have hle := hopen j hfirst
      omega

/-- The placeholders of a text. -/
def placeholders : HoleFinder Char (List Char) where
  find := placeholder
  width key := key.length + 4
  width_pos key := Nat.succ_pos _
  width_le h := by
    obtain ⟨rest, rfl, -, -⟩ := placeholder_eq_some_iff.mp h
    simp
  append t h := by
    obtain ⟨rest, rfl, hne, hword⟩ := placeholder_eq_some_iff.mp h
    exact placeholder_eq_some_iff.mpr ⟨rest ++ t, by simp, hne, hword⟩
  of_append {s t key} h hle := by
    obtain ⟨rest, hst, hne, hword⟩ := placeholder_eq_some_iff.mp h
    have hhole : '{' :: '{' :: (key ++ '}' :: '}' :: rest) =
        ('{' :: '{' :: (key ++ ['}', '}'])) ++ rest := by simp
    have hlen : ('{' :: '{' :: (key ++ ['}', '}'])).length = key.length + 4 := by
      simp only [List.length_cons, List.length_append, List.length_nil]
    have hprefix : '{' :: '{' :: (key ++ ['}', '}']) <+: s := by
      refine List.prefix_of_prefix_length_le ?_ (List.prefix_append s t) (hlen.trans_le hle)
      rw [hst, hhole]
      exact List.prefix_append _ rest
    obtain ⟨rest', rfl⟩ := hprefix
    exact placeholder_eq_some_iff.mpr ⟨rest', by simp, hne, hword⟩
  apart h h' hi := placeholder_apart h h' hi

/-- What is bound to a name, by its characters. -/
def byChars (fill : String → Option String) (key : List Char) : Option (List Char) :=
  (fill (String.ofList key)).map String.toList

/-- `replace` fills the placeholders. -/
theorem replacePlaceholders_eq (fill : String → Option String) (skip : ℕ) (s : List Char) :
    replacePlaceholders fill skip s =
      (placeholders.parts id skip s).flatMap (TextPart.fill (byChars fill)) := by
  induction s generalizing skip with
  | nil => rw [replacePlaceholders, HoleFinder.parts, List.flatMap_nil]
  | cons c rest ih =>
      cases skip with
      | succ skip => rw [replacePlaceholders, HoleFinder.parts, ih]
      | zero =>
          rw [replacePlaceholders, HoleFinder.parts, List.map_id]
          have hfind : placeholders.find (c :: rest) = placeholder (c :: rest) := rfl
          rw [hfind]
          cases hkey : placeholder (c :: rest) with
          | none =>
              dsimp only
              rw [ih, List.flatMap_cons]
              rfl
          | some key =>
              obtain ⟨after, hafter, -, -⟩ := placeholder_eq_some_iff.mp hkey
              have htake : (c :: rest).take (key.length + 4) = '{' :: '{' :: (key ++ ['}', '}']) := by
                rw [hafter, List.take_succ_cons, List.take_succ_cons, List.take_append]
                simp
              dsimp only
              rw [ih, List.flatMap_cons]
              congr 1
              rw [TextPart.fill, byChars]
              cases fill (String.ofList key) with
              | some text => rfl
              | none =>
                  change ("\x7b\x7b" ++ String.ofList key ++ "\x7d\x7d").toList =
                    (c :: rest).take (key.length + 4)
                  have hkeyList : (String.ofList key).toList = key := String.toList_ofList
                  rw [htake, String.toList_append, String.toList_append, hkeyList, List.append_assoc]
                  rfl

end Placeholders

/-! ## Data -/

/-- What holds of an array if it holds of its items, and the same for an object, holds of all. -/
@[elab_as_elim]
theorem value_induction {p : Value → Prop} (null : p .null) (bool : ∀ b, p (.bool b))
    (number : ∀ n, p (.number n)) (string : ∀ s, p (.string s))
    (array : ∀ items, (∀ v ∈ items, p v) → p (.array items))
    (object : ∀ fields : Fields, (∀ field ∈ fields, p field.2) → p (.object fields)) (v : Value) :
    p v :=
  @Value.rec p (fun items => ∀ v ∈ items, p v) (fun fields => ∀ field ∈ fields, p field.2)
    (fun field => p field.2) null bool number string array object
    (fun _ h => absurd h List.not_mem_nil)
    (fun _ _ hv hrest => List.forall_mem_cons.mpr ⟨hv, hrest⟩)
    (fun _ h => absurd h List.not_mem_nil)
    (fun _ _ hfield hrest => List.forall_mem_cons.mpr ⟨hfield, hrest⟩)
    (fun _ _ hv => hv) v

mutual

/-- Change the texts of a value. -/
def mapTexts (f : String → String) : Value → Value
  | .string s => .string (f s)
  | .array items => .array (mapTextsItems f items)
  | .object fields => .object (mapTextsFields f fields)
  | v => v

def mapTextsItems (f : String → String) : List Value → List Value
  | [] => []
  | v :: rest => mapTexts f v :: mapTextsItems f rest

def mapTextsFields (f : String → String) : Fields → Fields
  | [] => []
  | (key, v) :: rest => (key, mapTexts f v) :: mapTextsFields f rest

end

mutual

/-- The texts of a value. -/
def textsOf : Value → List String
  | .string s => [s]
  | .array items => textsOfItems items
  | .object fields => textsOfFields fields
  | _ => []

def textsOfItems : List Value → List String
  | [] => []
  | v :: rest => textsOf v ++ textsOfItems rest

def textsOfFields : Fields → List String
  | [] => []
  | (_, v) :: rest => textsOf v ++ textsOfFields rest

end

mutual

/-- How often a value has a member with a name that no member can be assigned to. -/
def lostMembers : Value → ℕ
  | .array items => lostMembersItems items
  | .object fields => lostMembersFields fields
  | _ => 0

def lostMembersItems : List Value → ℕ
  | [] => 0
  | v :: rest => lostMembers v + lostMembersItems rest

def lostMembersFields : Fields → ℕ
  | [] => 0
  | (key, v) :: rest =>
      (if isMemberKey key then 0 else 1) + lostMembers v + lostMembersFields rest

end

section Texts

variable {f g : String → String} {fill : String → Option String}

theorem mapTexts_array (f : String → String) (items : List Value) :
    mapTexts f (.array items) = .array (items.map (mapTexts f)) := by
  rw [mapTexts]
  congr 1
  induction items with
  | nil => rfl
  | cons v rest ih => rw [mapTextsItems, ih, List.map_cons]

theorem mapTexts_object (f : String → String) (fields : Fields) :
    mapTexts f (.object fields) = .object (fields.map fun field => (field.1, mapTexts f field.2)) := by
  rw [mapTexts]
  congr 1
  induction fields with
  | nil => rfl
  | cons field rest ih => rw [mapTextsFields, ih, List.map_cons]

theorem textsOf_array (items : List Value) : textsOf (.array items) = items.flatMap textsOf := by
  rw [textsOf]
  induction items with
  | nil => rfl
  | cons v rest ih => rw [textsOfItems, ih, List.flatMap_cons]

theorem textsOf_object (fields : Fields) :
    textsOf (.object fields) = fields.flatMap fun field => textsOf field.2 := by
  rw [textsOf]
  induction fields with
  | nil => rfl
  | cons field rest ih => rw [textsOfFields, ih, List.flatMap_cons]

theorem lostMembers_array (items : List Value) :
    lostMembers (.array items) = (items.map lostMembers).sum := by
  rw [lostMembers]
  induction items with
  | nil => rfl
  | cons v rest ih => rw [lostMembersItems, ih, List.map_cons, List.sum_cons]

theorem lostMembers_object (fields : Fields) : lostMembers (.object fields) =
    (fields.map fun field =>
      (if isMemberKey field.1 then 0 else 1) + lostMembers field.2).sum := by
  rw [lostMembers]
  induction fields with
  | nil => rfl
  | cons field rest ih => rw [lostMembersFields, ih, List.map_cons, List.sum_cons]

theorem apply_array (fill : String → Option String) (items : List Value) :
    applyParameterBindings fill (.array items) =
      .array (items.map (applyParameterBindings fill)) := by
  rw [applyParameterBindings]
  congr 1
  induction items with
  | nil => rfl
  | cons v rest ih => rw [applyToItems, ih, List.map_cons]

theorem apply_object (fill : String → Option String) (fields : Fields) :
    applyParameterBindings fill (.object fields) =
      .object ((fields.filter fun field => isMemberKey field.1).map
        fun field => (field.1, applyParameterBindings fill field.2)) := by
  rw [applyParameterBindings]
  congr 1
  induction fields with
  | nil => rfl
  | cons field rest ih =>
      rw [applyToFields, ih, List.filter_cons]
      by_cases hkey : isMemberKey field.1 = true
      · rw [if_pos hkey, if_pos hkey, List.map_cons]
      · rw [if_neg hkey, if_neg hkey]

theorem mapTexts_congr {v : Value} (h : ∀ s ∈ textsOf v, f s = g s) :
    mapTexts f v = mapTexts g v := by
  induction v using value_induction with
  | string s => exact congrArg Value.string (h s (List.mem_singleton_self s))
  | array items ih =>
      rw [textsOf_array] at h
      rw [mapTexts_array, mapTexts_array]
      refine congrArg Value.array (List.map_congr_left fun v hv => ih v hv fun s hs => ?_)
      exact h s (List.mem_flatMap.mpr ⟨v, hv, hs⟩)
  | object fields ih =>
      rw [textsOf_object] at h
      rw [mapTexts_object, mapTexts_object]
      refine congrArg Value.object (List.map_congr_left fun field hfield => ?_)
      rw [ih field hfield fun s hs => h s (List.mem_flatMap.mpr ⟨field, hfield, hs⟩)]
  | _ => rfl

theorem mapTexts_mapTexts (v : Value) : mapTexts f (mapTexts g v) = mapTexts (f ∘ g) v := by
  induction v using value_induction with
  | array items ih =>
      rw [mapTexts_array, mapTexts_array, mapTexts_array, List.map_map]
      exact congrArg Value.array (List.map_congr_left ih)
  | object fields ih =>
      rw [mapTexts_object, mapTexts_object, mapTexts_object, List.map_map]
      refine congrArg Value.object (List.map_congr_left fun field hfield => ?_)
      exact congrArg (Prod.mk field.1) (ih field hfield)
  | _ => rfl

theorem mapTexts_id (v : Value) : mapTexts id v = v := by
  induction v using value_induction with
  | array items ih =>
      rw [mapTexts_array, List.map_congr_left ih, List.map_id']
  | object fields ih =>
      rw [mapTexts_object]
      refine congrArg Value.object ((List.map_congr_left fun field hfield => ?_).trans
        (List.map_id fields))
      exact congrArg (Prod.mk field.1) (ih field hfield)
  | _ => rfl

theorem lostMembers_mapTexts (v : Value) : lostMembers (mapTexts f v) = lostMembers v := by
  induction v using value_induction with
  | array items ih =>
      rw [mapTexts_array, lostMembers_array, lostMembers_array, List.map_map]
      exact congrArg List.sum (List.map_congr_left ih)
  | object fields ih =>
      rw [mapTexts_object, lostMembers_object, lostMembers_object, List.map_map]
      refine congrArg List.sum (List.map_congr_left fun field hfield => ?_)
      exact congrArg (_ + ·) (ih field hfield)
  | _ => rfl

/-- No member is left that cannot be assigned to. -/
theorem lostMembers_apply (v : Value) : lostMembers (applyParameterBindings fill v) = 0 := by
  induction v using value_induction with
  | array items ih =>
      rw [apply_array, lostMembers_array, List.map_map]
      refine List.sum_eq_zero_iff_forall_eq_nat.mpr fun n hn => ?_
      obtain ⟨v, hv, rfl⟩ := List.mem_map.mp hn
      exact ih v hv
  | object fields ih =>
      rw [apply_object, lostMembers_object, List.map_map]
      refine List.sum_eq_zero_iff_forall_eq_nat.mpr fun n hn => ?_
      obtain ⟨field, hfield, rfl⟩ := List.mem_map.mp hn
      obtain ⟨hfield, hkey⟩ := List.mem_filter.mp hfield
      rw [Function.comp_apply, if_pos hkey, ih field hfield]
  | _ => rfl

/-- What is done with one text. -/
def fillText (fill : String → Option String) (s : String) : String :=
  String.ofList (replacePlaceholders fill 0 s.toList)

theorem apply_eq_mapTexts {v : Value} (h : lostMembers v = 0) :
    applyParameterBindings fill v = mapTexts (fillText fill) v := by
  induction v using value_induction with
  | array items ih =>
      rw [lostMembers_array, List.sum_eq_zero_iff_forall_eq_nat] at h
      rw [apply_array, mapTexts_array]
      refine congrArg Value.array (List.map_congr_left fun v hv => ih v hv ?_)
      exact h _ (List.mem_map_of_mem hv)
  | object fields ih =>
      rw [lostMembers_object, List.sum_eq_zero_iff_forall_eq_nat] at h
      have hfield : ∀ field ∈ fields, isMemberKey field.1 = true ∧ lostMembers field.2 = 0 := by
        intro field hfield
        have hzero := h _ (List.mem_map_of_mem hfield)
        rw [Nat.add_eq_zero_iff] at hzero
        exact ⟨by_contra fun hkey => absurd ((if_neg hkey).symm.trans hzero.1) Nat.one_ne_zero,
          hzero.2⟩
      rw [apply_object, mapTexts_object,
        List.filter_eq_self.mpr fun field h => (hfield field h).1]
      refine congrArg Value.object (List.map_congr_left fun field h => ?_)
      rw [ih field h (hfield field h).2]
  | _ => rfl

end Texts

/-! ## Subgraphs as layers -/

variable (numberText : Number → String)

/-- What a subgraph fills in for a name. -/
def EditorNode.answer (container : EditorNode) (key : String) : Option String :=
  let params := container.parameterBindings numberText
  if params.isEmpty then none else (params.lookup key).or (inheritedText key)

/-- What a subgraph binds to names, and what it fills in. -/
def EditorNode.layer (container : EditorNode) : HoleFinder.Layer Char (List Char) where
  own := byChars fun key => (container.parameterBindings numberText).lookup key
  answer := byChars (container.answer numberText)
  answer_of_own key text h := by
    obtain ⟨value, hvalue, rfl⟩ := Option.map_eq_some_iff.mp h
    have hne : (container.parameterBindings numberText).isEmpty = false := by
      cases hparams : container.parameterBindings numberText with
      | nil =>
          rw [hparams] at hvalue
          cases hvalue
      | cons _ _ => rfl
    dsimp only at hvalue
    rw [byChars, EditorNode.answer, hne, if_neg Bool.false_ne_true, hvalue, Option.some_or,
      Option.map_some]

/-- The layers of the subgraphs around a node. -/
def layersOf (path : List EditorNode) : List (HoleFinder.Layer Char (List Char)) :=
  path.map (EditorNode.layer numberText)

/-- A text in which each placeholder has got what the innermost of the subgraphs around it that bind
its name binds to it. -/
def filledText (path : List EditorNode) (s : String) : String :=
  String.ofList ((placeholders.once (layersOf numberText path) s.toList).map Prod.fst)

/-- The data are those that were drawn, each placeholder in them filled by the innermost subgraph that
binds its name, and what is filled in is not looked at again: after each of the subgraphs every
character is one of the drawn data, or of the value that the subgraph it comes from binds. -/
structure FilledOnce (path : List EditorNode) (drawn data : Value) : Prop where
  data_eq : data = mapTexts (filledText numberText path) drawn
  sourced : ∀ s ∈ textsOf drawn, ∀ inner, inner <:+ layersOf numberText path →
    placeholders.passes inner s.toList = placeholders.once inner s.toList

/-- Where a subgraph binds anything, no member of the data is lost. Each subgraph answers only to such
placeholders of what the subgraphs in it make of a text as are placeholders of the text to which none
of these binds anything, and it does. -/
structure FillsOnce (path : List EditorNode) (drawn : Value) : Prop where
  kept : (∃ c ∈ path, (c.parameterBindings numberText).isEmpty = false) → lostMembers drawn = 0
  meets : ∀ s ∈ textsOf drawn, ∀ layer inner, layer :: inner <:+ layersOf numberText path →
    placeholders.MeetsOnly layer inner s.toList

section Subgraphs

variable {numberText} {container : EditorNode} {path : List EditorNode} {drawn data : Value}

theorem fillText_eq (fill : String → Option String) (s : String) :
    (fillText fill s).toList = placeholders.fill id (byChars fill) s.toList := by
  rw [fillText, String.toList_ofList, replacePlaceholders_eq, HoleFinder.fill]

theorem answer_of_isEmpty (h : (container.parameterBindings numberText).isEmpty = true) :
    container.answer numberText = fun _ => none := by
  funext key
  rw [EditorNode.answer, h, if_pos rfl]

/-- Nothing is filled in where there is nothing to fill in. -/
theorem fillText_none (s : String) : fillText (fun _ => none) s = s := by
  refine String.toList_inj.mp ?_
  rw [fillText_eq]
  exact HoleFinder.fill_eq_self fun _ _ => rfl

/-- Data of which no member is lost are changed text by text. -/
theorem bindData_eq (h : (container.parameterBindings numberText).isEmpty = false →
    lostMembers data = 0) :
    container.bindData numberText data = mapTexts (fillText (container.answer numberText)) data := by
  rw [EditorNode.bindData]
  cases hparams : (container.parameterBindings numberText).isEmpty with
  | true =>
      rw [if_pos rfl, answer_of_isEmpty hparams, show fillText (fun _ => none) = id from
        funext fillText_none, mapTexts_id]
  | false =>
      have hanswer : container.answer numberText = fun key =>
          ((container.parameterBindings numberText).lookup key).or (inheritedText key) := by
        funext key
        rw [EditorNode.answer, hparams, if_neg Bool.false_ne_true]
      rw [if_neg Bool.false_ne_true, apply_eq_mapTexts (h hparams), hanswer]

/-- What the subgraphs around a node make of its data. -/
def boundData (numberText : Number → String) (path : List EditorNode) (data : Value) : Value :=
  path.foldr (fun container data => container.bindData numberText data) data

theorem data_under (path : List EditorNode) (node : EditorNode) :
    (node.under numberText path).data = boundData numberText path node.data :=
  EditorNode.data_withIdData _ _ _

theorem boundData_eq
    (h : (∃ c ∈ path, (c.parameterBindings numberText).isEmpty = false) → lostMembers drawn = 0) :
    boundData numberText path drawn = mapTexts (fun s => String.ofList
      ((placeholders.passes (layersOf numberText path) s.toList).map Prod.fst)) drawn := by
  induction path with
  | nil =>
      have hid : (fun s : String => String.ofList
          ((placeholders.passes (layersOf numberText []) s.toList).map Prod.fst)) = id := by
        funext s
        rw [HoleFinder.map_fst_passes]
        exact String.ofList_toList
      rw [hid, mapTexts_id]
      rfl
  | cons container path ih =>
      have hrest := ih fun ⟨c, hc, hbinds⟩ => h ⟨c, List.mem_cons_of_mem _ hc, hbinds⟩
      rw [boundData, List.foldr_cons, ← boundData, hrest, bindData_eq, mapTexts_mapTexts]
      · refine mapTexts_congr fun s _ => String.toList_inj.mp ?_
        rw [Function.comp_apply, fillText_eq, String.toList_ofList, String.toList_ofList,
          HoleFinder.map_fst_passes, HoleFinder.map_fst_passes]
        rfl
      · intro hbinds
        rw [lostMembers_mapTexts]
        exact h ⟨container, List.mem_cons_self, hbinds⟩

/-- Where a subgraph binds anything, no member is left that cannot be assigned to. -/
theorem lostMembers_boundData (h : ∃ c ∈ path, (c.parameterBindings numberText).isEmpty = false) :
    lostMembers (boundData numberText path data) = 0 := by
  obtain ⟨container, hmem, hbinds⟩ := h
  induction path with
  | nil => cases hmem
  | cons c path ih =>
      rw [boundData, List.foldr_cons, ← boundData, EditorNode.bindData]
      by_cases hempty : (c.parameterBindings numberText).isEmpty = true
      · rw [if_pos hempty]
        rcases List.mem_cons.mp hmem with rfl | hmem
        · rw [hbinds] at hempty
          cases hempty
        · exact ih hmem
      · rw [if_neg hempty]
        exact lostMembers_apply _

/-- The data of a node are filled once exactly if no member of them is lost and the subgraphs meet no
other placeholders than they should. -/
theorem filledOnce_iff : FilledOnce numberText path drawn (boundData numberText path drawn) ↔
    FillsOnce numberText path drawn := by
  have hpasses : ∀ s : String,
      (∀ inner, inner <:+ layersOf numberText path →
        placeholders.passes inner s.toList = placeholders.once inner s.toList) ↔
      ∀ layer inner, layer :: inner <:+ layersOf numberText path →
        placeholders.MeetsOnly layer inner s.toList :=
    fun s => HoleFinder.passes_eq_once_iff _ _
  constructor
  · intro h
    refine ⟨fun hbinds => ?_, fun s hs => (hpasses s).mp (h.sourced s hs)⟩
    rw [← lostMembers_mapTexts (f := filledText numberText path), ← h.data_eq]
    exact lostMembers_boundData hbinds
  · intro h
    have hsourced : ∀ s ∈ textsOf drawn, ∀ inner, inner <:+ layersOf numberText path →
        placeholders.passes inner s.toList = placeholders.once inner s.toList :=
      fun s hs => (hpasses s).mpr (h.meets s hs)
    refine ⟨?_, hsourced⟩
    rw [boundData_eq h.kept]
    refine mapTexts_congr fun s hs => ?_
    rw [filledText, hsourced s hs _ (List.suffix_refl _)]

end Subgraphs

/-- The nodes of the flattened graph are those of the levels that are opened. The data of each are
filled once exactly if the subgraphs around it meet no other placeholders than they should. -/
theorem flatten_filledOnce_iff {levels : ℕ} {ancestorIds : List String} {graph flat : EditorGraph}
    (h : flattenSubgraphs numberText levels ancestorIds graph = .ok flat) :
    flat.nodes.Perm (openedNodes numberText levels graph) ∧
      ∀ o ∈ openedLevels levels graph, ∀ node ∈ o.graph.plainNodes,
        (FilledOnce numberText o.path node.data (node.under numberText o.path).data ↔
          FillsOnce numberText o.path node.data) := by
  refine ⟨(flatten_perm h).1, fun o _ node _ => ?_⟩
  rw [data_under]
  exact filledOnce_iff

/-- A subgraph that binds texts to names. -/
def boundSubgraph (id : String) (bindings : Fields) (blocks : List EditorNode) : EditorNode :=
  ⟨id, "subgraph", none, .object [("config", .object [("parameterBindings", .object bindings)])],
    blocks, []⟩

/-- A node with a text in its settings. -/
def textNode (text : String) : EditorNode :=
  ⟨"n", "code", none, .object [("config", .string text)], [], []⟩

/-- A subgraph with a node in it that uses a parameter. -/
def hostGraph (text : String) : EditorGraph :=
  ⟨[boundSubgraph "s" [("host", .string "h")] [textNode text]], []⟩

/-- The inner one of two subgraphs binds a text that looks like a placeholder of the outer one. -/
def captureGraph : EditorGraph :=
  ⟨[boundSubgraph "outer" [("b", .string "x")]
    [boundSubgraph "inner" [("a", .string "\x7b\x7bb\x7d\x7d")] [textNode "\x7b\x7ba\x7d\x7d"]]], []⟩

/-- A parameter is filled in, and a name that is not bound is left. -/
theorem hostGraph_filledOnce : ∃ flat,
    flattenSubgraphs (fun _ => "") 9 [] (hostGraph "\x7b\x7bhost\x7d\x7d \x7b\x7bport\x7d\x7d") =
        .ok flat ∧
      ∀ o ∈ openedLevels 9 (hostGraph "\x7b\x7bhost\x7d\x7d \x7b\x7bport\x7d\x7d"),
        ∀ node ∈ o.graph.plainNodes,
          FilledOnce (fun _ => "") o.path node.data (node.under (fun _ => "") o.path).data := by
  have hflat : flattenSubgraphs (fun _ => "") 9 []
      (hostGraph "\x7b\x7bhost\x7d\x7d \x7b\x7bport\x7d\x7d") = .ok _ := rfl
  refine ⟨_, hflat, fun o ho node hnode => ?_⟩
  refine ((flatten_filledOnce_iff (fun _ => "") hflat).2 o ho node hnode).mpr ?_
  rcases List.mem_cons.mp ho with rfl | ho
  · cases hnode
  · obtain rfl := List.mem_singleton.mp ho
    obtain rfl := List.mem_singleton.mp hnode
    refine ⟨fun _ => rfl, fun s hs layer inner hsuffix => ?_⟩
    obtain rfl := List.mem_singleton.mp hs
    rcases List.suffix_cons_iff.mp hsuffix with heq | hnil
    · cases heq
      change _ = _
      decide
    · exact absurd (List.eq_nil_of_suffix_nil hnil) (List.cons_ne_nil _ _)

/-- A subgraph that binds `host` fills in the source of a method for `toString`, and the text that an
inner subgraph fills in is filled by the outer one. -/
theorem not_filledOnce :
    (flattenSubgraphs (fun _ => "") 9 [] (hostGraph "\x7b\x7btoString\x7d\x7d")).toOption.map
        (fun flat => flat.nodes.map EditorNode.data) =
      some [.object [("config", .string "function toString() \x7b [native code] \x7d")]] ∧
    (flattenSubgraphs (fun _ => "") 9 [] captureGraph).toOption.map
        (fun flat => flat.nodes.map EditorNode.data) =
      some [.object [("config", .string "x")]] ∧
    ∀ graph ∈ [hostGraph "\x7b\x7btoString\x7d\x7d", captureGraph],
      ∃ o ∈ openedLevels 9 graph, ∃ node ∈ o.graph.plainNodes,
        ¬ FilledOnce (fun _ => "") o.path node.data (node.under (fun _ => "") o.path).data := by
  refine ⟨by decide, by decide, ?_⟩
  intro graph hgraph
  rcases List.mem_cons.mp hgraph with rfl | hgraph
  · refine ⟨_, List.mem_cons_of_mem _ List.mem_cons_self, _, List.mem_cons_self, fun h => ?_⟩
    exact absurd h.data_eq (by decide)
  · obtain rfl := List.mem_singleton.mp hgraph
    refine ⟨_, List.mem_cons_of_mem _ (List.mem_cons_of_mem _ List.mem_cons_self), _,
      List.mem_cons_self, fun h => ?_⟩
    exact absurd h.data_eq (by decide)

end Nazh.Web
