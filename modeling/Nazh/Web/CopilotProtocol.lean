import Nazh.Lib.Lines
import Nazh.Web.Flowgram

/-!
# The operations of an answer that grows

The copilot answers with operations, one on a line, and its answer arrives in parts. Each time the
lines that have ended are taken, from the place up to which lines were taken before; at the end the
rest is taken. This gives the operations of the lines of the whole answer, wherever it was cut.
-/

namespace Nazh.Web

open Lib

/-! ## Texts and values -/

/-- A text, as its code units. -/
abbrev JsText := List UInt16

def utf16 (c : Char) : JsText :=
  if c.toNat < 0x10000 then [c.toNat.toUInt16]
  else [(0xD800 + (c.toNat - 0x10000) / 0x400).toUInt16,
    (0xDC00 + (c.toNat - 0x10000) % 0x400).toUInt16]

def jsText (s : String) : JsText := s.toList.flatMap utf16

/-- What a JSON text stands for. -/
inductive JsValue
  | null
  | bool (b : Bool)
  | number (bits : UInt64)
  | string (text : JsText)
  | array (items : List JsValue)
  | object (fields : List (JsText × JsValue))

def carriageReturn : UInt16 := 0x0D

def lineFeed : UInt16 := 0x0A

/-- White space and the ends of lines, as `trim` and the patterns know them. -/
def isWhiteSpaceUnit (c : UInt16) : Bool :=
  (0x09 ≤ c && c ≤ 0x0D) || c = 0x20 || c = 0xA0 || c = 0x1680 || (0x2000 ≤ c && c ≤ 0x200A) ||
    c = 0x2028 || c = 0x2029 || c = 0x202F || c = 0x205F || c = 0x3000 || c = 0xFEFF

def JsText.trim (text : JsText) : JsText := trimWhite isWhiteSpaceUnit text

/-- `split(/\r?\n/)`. -/
def linesOf (text : JsText) : List JsText := splitLines carriageReturn lineFeed [] text

/-! ## Operations -/

inductive ProtocolOperation
  | project (name description : Option JsText)
  | createNode (ref : JsText) (nodeType : String) (label : Option JsText)
      (connectionId : Option (Option JsText)) (config : Option JsValue)
  | createEdge (fromRef toRef : JsText) (sourcePortId targetPortId : Option JsText)
  | done (summary : Option JsText)

/-- The value under a key of a record. -/
def valueAt (record : List (JsText × JsValue)) (key : String) : Option JsValue :=
  (record.find? fun field => field.1 = jsText key).map Prod.snd

def hasOwnKey (record : List (JsText × JsValue)) (key : String) : Bool :=
  record.any fun field => field.1 = jsText key

/-- The first text under one of the keys that is not blank. -/
def readString (record : List (JsText × JsValue)) (keys : List String) : Option JsText :=
  keys.findSome? fun key =>
    match valueAt record key with
    | some (.string value) => if JsText.trim value = [] then none else some (JsText.trim value)
    | _ => none

/-- The types of nodes that the copilot may use. -/
def workflowAiAllowedNodeKinds : List String :=
  knownNodeTypes.filter fun kind => kind ≠ "subgraphInput" ∧ kind ≠ "subgraphOutput"

def normalizeWorkflowAiNodeKind (value : Option JsText) : Option String :=
  value.bind fun value => workflowAiAllowedNodeKinds.find? fun kind => jsText kind = value

def normalizeOperation : JsValue → Option ProtocolOperation
  | .object input =>
      match readString input ["type", "op", "action", "kind"] with
      | none => none
      | some rawType =>
          if rawType = jsText "project" ∨ rawType = jsText "project_meta" then
            some (.project (readString input ["name"]) (readString input ["description", "desc"]))
          else if rawType = jsText "create_node" then
            match readString input ["ref"],
              normalizeWorkflowAiNodeKind (readString input ["nodeType", "node_type", "kind"]) with
            | some ref, some nodeType =>
                some (.createNode ref nodeType (readString input ["label", "title"])
                  (if hasOwnKey input "connectionId" || hasOwnKey input "connection_id" then
                    some (readString input ["connectionId", "connection_id"])
                  else none)
                  (match valueAt input "config" with
                  | some (.object fields) => some (.object fields)
                  | some (.array items) => some (.array items)
                  | _ => none))
            | _, _ => none
          else if rawType = jsText "create_edge" then
            match readString input ["fromRef"], readString input ["toRef"] with
            | some fromRef, some toRef =>
                some (.createEdge fromRef toRef
                  (readString input ["sourcePortId", "source_port_id", "sourcePort"])
                  (readString input ["targetPortId", "target_port_id", "targetPort"]))
            | _, _ => none
          else if rawType = jsText "done" ∨ rawType = jsText "complete" then
            some (.done (readString input ["summary", "message"]))
          else none
  | _ => none

/-! ## A line -/

def asciiLower (c : UInt16) : UInt16 := if 0x41 ≤ c ∧ c ≤ 0x5A then c + 0x20 else c

/-- `replace(/^data:\s*/i, '')`. -/
def withoutDataPrefix (text : JsText) : JsText :=
  if (text.take 5).map asciiLower = jsText "data:" then (text.drop 5).dropWhile isWhiteSpaceUnit
  else text

def lastIndexOf (text : JsText) (c : UInt16) : Option ℕ :=
  (text.reverse.idxOf? c).map fun index => text.length - 1 - index

variable (parseJson : JsText → Option JsValue)

/-- The operation on a line, if there is one. What is between the first brace and the last is
parsed. -/
def parseOperationLine (line : JsText) : Option ProtocolOperation :=
  let trimmed := JsText.trim line
  if trimmed = [] ∨ trimmed = jsText "```" then none
  else
    let normalizedLine := withoutDataPrefix trimmed
    match normalizedLine.idxOf? 0x7B, lastIndexOf normalizedLine 0x7D with
    | some startIndex, some endIndex =>
        if endIndex ≤ startIndex then none
        else (parseJson ((normalizedLine.take (endIndex + 1)).drop startIndex)).bind
          normalizeOperation
    | _, _ => none

/-! ## The parts of an answer -/

/-- What is taken at a time: the operations, and up to where the text is done. -/
structure ConsumedLines where
  nextProcessedLength : ℕ
  operations : List ProtocolOperation

/-- The operations on the lines of a text that are not blank. -/
def operationsOf (text : JsText) : List ProtocolOperation :=
  ((linesOf text).filter fun l => JsText.trim l ≠ []).filterMap (parseOperationLine parseJson)

def consumeOperationLines (rawText : JsText) (processedLength : ℕ) : ConsumedLines :=
  let unprocessedText := rawText.drop processedLength
  match (newlineMatches carriageReturn lineFeed 0 unprocessedText).getLast? with
  | none => ⟨processedLength, []⟩
  | some (index, length) =>
      let consumedText := unprocessedText.take (index + length)
      ⟨processedLength + consumedText.length, operationsOf parseJson consumedText⟩

def flushRemainingProtocolLines (rawText : JsText) (processedLength : ℕ) : ConsumedLines :=
  let remaining := JsText.trim (rawText.drop processedLength)
  if remaining = [] then ⟨rawText.length, []⟩
  else ⟨rawText.length, operationsOf parseJson remaining⟩

/-- The calls for a text that grows, each from where the last one ended. -/
def consumeAll : ℕ → List JsText → ConsumedLines
  | processedLength, [] => ⟨processedLength, []⟩
  | processedLength, rawText :: later =>
      let now := consumeOperationLines parseJson rawText processedLength
      let rest := consumeAll now.nextProcessedLength later
      ⟨rest.nextProcessedLength, now.operations ++ rest.operations⟩

/-! ## White space does not matter -/

theorem parseOperationLine_trim (line : JsText) :
    parseOperationLine parseJson line = parseOperationLine parseJson (JsText.trim line) := by
  rw [parseOperationLine, parseOperationLine, JsText.trim, JsText.trim, trimWhite_trimWhite]

theorem ignoresWhite_parseOperationLine :
    IgnoresWhite isWhiteSpaceUnit (parseOperationLine parseJson) := by
  refine .of_trimWhite (parseOperationLine_trim parseJson) ?_
  rw [parseOperationLine]
  exact if_pos (.inl rfl)

/-- Nothing is read from blank lines. -/
theorem operationsOf_eq (text : JsText) : operationsOf parseJson text =
    readLines carriageReturn lineFeed (parseOperationLine parseJson) [] text := by
  rw [operationsOf, readLines, List.filterMap_filter]
  refine List.filterMap_congr fun line _ => ?_
  by_cases hblank : JsText.trim line = []
  · rw [parseOperationLine_trim, hblank, (ignoresWhite_parseOperationLine parseJson).nil]
    simp
  · simp [hblank]

theorem carriageReturn_ne_lineFeed : carriageReturn ≠ lineFeed := by decide

/-! ## What was taken and what is left -/

/-- The operations that were taken are those of the text before a place. -/
def TakenUpTo (full : JsText) (place : ℕ) (operations : List ProtocolOperation) : Prop :=
  operationsOf parseJson full = operations ++ operationsOf parseJson (full.drop place)

variable {parseJson} {full rawText : JsText} {place : ℕ} {operations : List ProtocolOperation}

/-- A call takes the operations from the place on up to the next place. -/
theorem TakenUpTo.consume (h : TakenUpTo parseJson full place operations)
    (hpre : rawText <+: full) :
    TakenUpTo parseJson full (consumeOperationLines parseJson rawText place).nextProcessedLength
      (operations ++ (consumeOperationLines parseJson rawText place).operations) := by
  rw [consumeOperationLines]
  cases hlast : (newlineMatches carriageReturn lineFeed 0 (rawText.drop place)).getLast? with
  | none => simpa using h
  | some last =>
      obtain ⟨index, length⟩ := last
      obtain ⟨before, after, htext, hsize⟩ := of_getLast?_newlineMatches hlast
      obtain ⟨behind, rfl⟩ := hpre
      have htake : (rawText.drop place).take (index + length) = before ++ [lineFeed] := by
        rw [htext, hsize, List.append_cons]
        exact List.take_left' (by simp)
      have hle : place ≤ rawText.length := by
        by_contra hlt
        rw [List.drop_eq_nil_of_le (by omega)] at htext
        cases before <;> cases htext
      have hdrop : (rawText ++ behind).drop place = before ++ lineFeed :: (after ++ behind) := by
        rw [List.drop_append_of_le_length hle, htext, List.append_assoc, List.cons_append]
      have hnext : (rawText ++ behind).drop (place + (before ++ [lineFeed]).length) =
          after ++ behind := by
        rw [← List.drop_drop, hdrop, List.append_cons before lineFeed (after ++ behind), List.drop_left]
      have hnil := (ignoresWhite_parseOperationLine parseJson).nil
      dsimp only
      rw [TakenUpTo, htake, hnext, h, hdrop, operationsOf_eq, operationsOf_eq, operationsOf_eq,
        readLines_append carriageReturn_ne_lineFeed hnil, List.append_assoc]

theorem TakenUpTo.consumeAll (h : TakenUpTo parseJson full place operations)
    {rawTexts : List JsText} (hpre : ∀ rawText ∈ rawTexts, rawText <+: full) :
    TakenUpTo parseJson full (consumeAll parseJson place rawTexts).nextProcessedLength
      (operations ++ (consumeAll parseJson place rawTexts).operations) := by
  induction rawTexts generalizing place operations with
  | nil => simpa [Web.consumeAll] using h
  | cons rawText later ih =>
      have hrest := ih (h.consume (hpre rawText List.mem_cons_self))
        fun text htext => hpre text (List.mem_cons_of_mem rawText htext)
      rwa [List.append_assoc] at hrest

/-- The last call takes what is left. -/
theorem operations_flush (rawText : JsText) (place : ℕ) :
    (flushRemainingProtocolLines parseJson rawText place).operations =
      operationsOf parseJson (rawText.drop place) := by
  have htrim : operationsOf parseJson (JsText.trim (rawText.drop place)) =
      operationsOf parseJson (rawText.drop place) := by
    rw [operationsOf_eq, operationsOf_eq]
    exact (ignoresWhite_parseOperationLine parseJson).readLines_trimWhite carriageReturn_ne_lineFeed
      (by decide) _
  rw [flushRemainingProtocolLines, ← htrim]
  by_cases hempty : JsText.trim (rawText.drop place) = []
  · rw [if_pos hempty, hempty, operationsOf_eq, readLines_nil,
      (ignoresWhite_parseOperationLine parseJson).nil]
    rfl
  · rw [if_neg hempty]

/-- An answer may be cut anywhere, and as often as one likes: the operations of its parts are those
of its lines, each once and in order. -/
theorem operations_of_parts (parseJson : JsText → Option JsValue) (full : JsText)
    {parts : List JsText} (h : ∀ part ∈ parts, part <+: full) :
    let taken := consumeAll parseJson 0 parts
    taken.operations ++
        (flushRemainingProtocolLines parseJson full taken.nextProcessedLength).operations =
      (linesOf full).filterMap (parseOperationLine parseJson) := by
  have hstart : TakenUpTo parseJson full 0 [] := rfl
  have htaken := hstart.consumeAll h
  rw [TakenUpTo, operationsOf_eq parseJson full, List.nil_append] at htaken
  dsimp only
  rw [operations_flush]
  exact htaken.symm

def doneMessage : JsText := jsText "\x7b\"type\":\"done\"\x7d"

def parseDone (text : JsText) : Option JsValue :=
  if text = doneMessage then some (.object [(jsText "type", .string (jsText "done"))]) else none

/-- An answer is cut between a carriage return and a line feed, and then behind them. -/
theorem operations_of_parts_done :
    let answer := doneMessage ++ [carriageReturn, lineFeed] ++ jsText "bye"
    let taken := consumeAll parseDone 0
      [doneMessage ++ [carriageReturn], doneMessage ++ [carriageReturn, lineFeed]]
    taken.operations ++
        (flushRemainingProtocolLines parseDone answer taken.nextProcessedLength).operations =
      [.done none] :=
  have hparts : ∀ part ∈ [doneMessage ++ [carriageReturn],
      doneMessage ++ [carriageReturn, lineFeed]],
      part <+: doneMessage ++ [carriageReturn, lineFeed] ++ jsText "bye" := by
    intro part hpart
    rcases List.mem_pair.mp hpart with rfl | rfl
    · exact ⟨lineFeed :: jsText "bye", by simp⟩
    · exact List.prefix_append _ _
  (operations_of_parts parseDone _ hparts).trans rfl

end Nazh.Web
