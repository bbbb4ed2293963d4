import VllmRwkv.Lib.Search

/-!
# The RWKV tool parser

`RwkvToolParser` reads tool calls out of a model's answer: once from the whole text, and while the text is streamed.
The streamed tool calls are always those of the whole text. The streamed content is the text before the first place
that may become a marker, and that is the content of the whole text only under a condition (`streaming_agrees`).
-/

namespace VllmRwkv.RwkvTool

open List Search

abbrev Str := List Char

inductive Json
  | null
  | bool (value : Bool)
  | number (text : Str)
  | str (text : Str)
  | array (items : List Json)
  | object (entries : List (Str × Json))

/-- The parser's tools (the name of each, if it is a string), the tool that the request names, and the functions of
the standard library that are used: `json.loads` (`none` is a `JSONDecodeError`), `json.dumps` and `str.isspace`. -/
structure RwkvToolParser where
  tools : List (Option Str)
  namedTool : Option Str
  loads : Str → Option Json
  dumps : Json → Str
  isSpace : Char → Bool

def toolCallMarker : Str := "**Tool Call:**".toList
def jsonFenceStart : Str := "```json".toList
def jsonFenceEnd : Str := "```".toList

structure Payload where
  name : Str
  arguments : List (Str × Json)

structure ToolCallMatch where
  start : ℕ
  payload : Payload

structure FunctionCall where
  name : Str
  arguments : Str
deriving DecidableEq

structure ExtractedToolCallInformation where
  toolsCalled : Bool
  toolCalls : List FunctionCall
  content : Option Str
deriving DecidableEq

structure DeltaToolCall where
  index : ℕ
  function : FunctionCall
deriving DecidableEq

structure DeltaMessage where
  content : Option Str
  toolCalls : List DeltaToolCall
deriving DecidableEq

/-- What the parser remembers between chunks. -/
structure Streamed where
  sentContentIdx : ℕ := 0
  prevToolCallArr : List FunctionCall := []

namespace RwkvToolParser

variable (p : RwkvToolParser)

def strip (text : Str) : Str := ((text.dropWhile p.isSpace).reverse.dropWhile p.isSpace).reverse

def slice (text : Str) (start stop : ℕ) : Str := (text.take stop).drop start

def allowedToolNames : List Str := p.tools.filterMap id

def parsePayload (payload : Str) : Option Payload :=
  match p.loads payload with
  | some (.object entries) =>
    match entries.lookup "name".toList with
    | some (.str name) =>
      let arguments := match entries.lookup "arguments".toList with
        | some (.str text) => p.loads text
        | other => other
      match arguments with
      | some (.object arguments) =>
        if p.allowedToolNames ≠ [] ∧ name ∉ p.allowedToolNames then none
        else if p.namedTool.any (· ≠ name) then none
        else some ⟨name, arguments⟩
      | _ => none
    | _ => none
  | _ => none

/-- One round of `_tool_call_matches`: the match and the next cursor. -/
def nextMatch (text : Str) (cursor : ℕ) : Option (ToolCallMatch × ℕ) :=
  match find toolCallMarker text cursor with
  | none => none
  | some markerStart =>
    let markerEnd := markerStart + toolCallMarker.length
    match find jsonFenceStart text markerEnd with
    | none => none
    | some fenceStart =>
      let payloadStart := fenceStart + jsonFenceStart.length
      if p.strip (slice text markerEnd fenceStart) ≠ [] then none
      else
        match find jsonFenceEnd text payloadStart with
        | none => none
        | some fenceEnd =>
          (p.parsePayload (p.strip (slice text payloadStart fenceEnd))).map fun payload =>
            (⟨markerStart, payload⟩, fenceEnd + jsonFenceEnd.length)

/-- The loop of `_tool_call_matches`; every round moves the cursor on, so that the length of the text is fuel enough. -/
def matchesFrom (text : Str) : ℕ → ℕ → List ToolCallMatch
  | 0, _ => []
  | fuel + 1, cursor =>
    match p.nextMatch text cursor with
    | none => []
    | some (found, cursor) => found :: matchesFrom text fuel cursor

def toolCallMatches (text : Str) : List ToolCallMatch := p.matchesFrom text (text.length + 1) 0

def functionCall (found : ToolCallMatch) : FunctionCall := ⟨found.payload.name, p.dumps (.object found.payload.arguments)⟩

def extractToolCalls (modelOutput : Str) : ExtractedToolCallInformation :=
  match p.toolCallMatches modelOutput with
  | [] => ⟨false, [], some modelOutput⟩
  | first :: rest =>
    let content := modelOutput.take first.start
    ⟨true, (first :: rest).map p.functionCall, if content = [] then none else some content⟩

def contentDelta (s : Streamed) (currentText : Str) : Option Str × Streamed :=
  let sendableIdx := match find toolCallMarker currentText 0 with
    | none => currentText.length - overlap toolCallMarker currentText
    | some markerStart => markerStart
  if sendableIdx ≤ s.sentContentIdx then (none, s)
  else (some (slice currentText s.sentContentIdx sendableIdx), { s with sentContentIdx := sendableIdx })

/-- The loop of `extract_tool_calls_streaming`. -/
def newToolCalls (prev : List FunctionCall) : ℕ → List ToolCallMatch → List FunctionCall × List DeltaToolCall
  | _, [] => (prev, [])
  | index, found :: rest =>
    if index < prev.length then newToolCalls prev (index + 1) rest
    else
      let call := p.functionCall found
      let (prev, deltas) := newToolCalls (prev ++ [call]) (index + 1) rest
      (prev, ⟨index, call⟩ :: deltas)

def extractToolCallsStreaming (s : Streamed) (currentText : Str) : Option DeltaMessage × Streamed :=
  let content := contentDelta s currentText
  let calls := p.newToolCalls content.2.prevToolCallArr 0 (p.toolCallMatches currentText)
  let s := { content.2 with prevToolCallArr := calls.1 }
  if content.1.getD [] ≠ [] ∨ calls.2 ≠ [] then (some ⟨content.1, calls.2⟩, s) else (none, s)

/-- The messages for the chunks of a text, of which `text` has come before. -/
def stream (s : Streamed) (text : Str) : List Str → List DeltaMessage
  | [] => []
  | chunk :: chunks =>
    let (message, s) := p.extractToolCallsStreaming s (text ++ chunk)
    message.toList ++ stream s (text ++ chunk) chunks

end RwkvToolParser

/-- A client puts a piece of a tool call to the call with the same index. -/
def mergeToolCall (calls : List FunctionCall) (delta : DeltaToolCall) : List FunctionCall :=
  if delta.index < calls.length then
    calls.modify delta.index fun call => { call with arguments := call.arguments ++ delta.function.arguments }
  else calls ++ [delta.function]

/-- The content and the tool calls that a client has after some messages. -/
def received (messages : List DeltaMessage) : Str × List FunctionCall :=
  (messages.flatMap fun m => m.content.getD [], (messages.flatMap (·.toolCalls)).foldl mergeToolCall [])

namespace RwkvToolParser

variable {p : RwkvToolParser} {text text' : Str} {found : ToolCallMatch} {s : Streamed}

/-! ## The tool calls of a text that goes on -/

theorem slice_eq (hp : text <+: text') {start stop : ℕ} (hstop : stop ≤ text.length) :
    slice text' start stop = slice text start stop := by
  obtain ⟨rest, rfl⟩ := hp
  unfold slice
  rw [take_append_of_le_length hstop]

theorem nextMatch_eq_some {cursor cursor' : ℕ} : p.nextMatch text cursor = some (found, cursor') ↔
      ∃ fenceStart fenceEnd, find toolCallMarker text cursor = some found.start ∧
        find jsonFenceStart text (found.start + toolCallMarker.length) = some fenceStart ∧
        p.strip (slice text (found.start + toolCallMarker.length) fenceStart) = [] ∧
        find jsonFenceEnd text (fenceStart + jsonFenceStart.length) = some fenceEnd ∧
        p.parsePayload (p.strip (slice text (fenceStart + jsonFenceStart.length) fenceEnd)) = some found.payload ∧
        cursor' = fenceEnd + jsonFenceEnd.length := by
  constructor
  · intro h
    unfold nextMatch at h
    split at h
    · cases h
    rename_i markerStart hmarker
    dsimp only at h
    split at h
    · cases h
    rename_i fenceStart hstart
    split at h
    · cases h
    rename_i hstrip
    split at h
    · cases h
    rename_i fenceEnd hend
    obtain ⟨payload, hpayload, heq⟩ := Option.map_eq_some_iff.1 h
    cases heq
    exact ⟨fenceStart, fenceEnd, hmarker, hstart, not_not.1 hstrip, hend, hpayload, rfl⟩
  · rintro ⟨fenceStart, fenceEnd, hmarker, hstart, hstrip, hend, hpayload, rfl⟩
    unfold nextMatch
    simp only [hmarker, hstart, hstrip, hend, hpayload, ne_eq, not_true_eq_false, if_false, Option.map_some]

theorem nextMatch_mono (hp : text <+: text') {cursor cursor' : ℕ}
    (h : p.nextMatch text cursor = some (found, cursor')) : p.nextMatch text' cursor = some (found, cursor') := by
  obtain ⟨fenceStart, fenceEnd, hmarker, hstart, hstrip, hend, hpayload, rfl⟩ := nextMatch_eq_some.1 h
  have hboundStart := ((find_eq_some (by decide)).1 hstart).2.1.bound (by decide)
  have hboundEnd := ((find_eq_some (by decide)).1 hend).2.1.bound (by decide)
  refine nextMatch_eq_some.2 ⟨fenceStart, fenceEnd, find_mono (by decide) hp hmarker, find_mono (by decide) hp hstart, ?_,
    find_mono (by decide) hp hend, ?_, rfl⟩
  · rw [slice_eq hp (by omega)]
    exact hstrip
  · rw [slice_eq hp (by omega)]
    exact hpayload

theorem nextMatch_spec {cursor cursor' : ℕ} (h : p.nextMatch text cursor = some (found, cursor')) :
    find toolCallMarker text cursor = some found.start ∧ cursor < cursor' ∧ cursor' ≤ text.length := by
  obtain ⟨fenceStart, fenceEnd, hmarker, hstart, -, hend, -, rfl⟩ := nextMatch_eq_some.1 h
  have hle := ((find_eq_some (by decide)).1 hmarker).1
  have hle' := ((find_eq_some (by decide)).1 hstart).1
  obtain ⟨hle'', hat, -⟩ := (find_eq_some (by decide)).1 hend
  have hpos : 0 < jsonFenceEnd.length := by decide
  exact ⟨hmarker, by omega, hat.bound (by decide)⟩

theorem matchesFrom_grows (hp : text <+: text') {fuel fuel' cursor : ℕ} (hfuel : text'.length < fuel' + cursor) :
    p.matchesFrom text fuel cursor <+: p.matchesFrom text' fuel' cursor := by
  induction fuel generalizing fuel' cursor with
  | zero => exact nil_prefix
  | succ fuel ih =>
    rw [matchesFrom]
    cases hnext : p.nextMatch text cursor with
    | none => exact nil_prefix
    | some found =>
      obtain ⟨found, cursor'⟩ := found
      have hnext' := nextMatch_mono hp hnext
      obtain ⟨-, hlt, hle⟩ := nextMatch_spec hnext'
      obtain ⟨fuel', rfl⟩ : ∃ n, fuel' = n + 1 := ⟨fuel' - 1, by omega⟩
      rw [matchesFrom, hnext']
      exact (prefix_cons_inj found).2 (ih (by omega))

theorem toolCallMatches_grows (hp : text <+: text') : p.toolCallMatches text <+: p.toolCallMatches text' :=
  matchesFrom_grows hp (by omega)

theorem start_of_toolCallMatches {first : ToolCallMatch} {rest : List ToolCallMatch}
    (h : p.toolCallMatches text = first :: rest) : first.start = settled toolCallMarker text := by
  unfold toolCallMatches matchesFrom at h
  cases hnext : p.nextMatch text 0 with
  | none =>
    rw [hnext] at h
    cases h
  | some found =>
    rw [hnext] at h
    obtain ⟨rfl, -⟩ := cons.inj h
    unfold settled
    rw [(nextMatch_spec hnext).1]

/-- The content of the whole text: up to the first marker if there is a tool call. -/
theorem content_extractToolCalls : (p.extractToolCalls text).content.getD [] =
    if p.toolCallMatches text = [] then text else text.take (settled toolCallMarker text) := by
  unfold extractToolCalls
  cases h : p.toolCallMatches text with
  | nil => rfl
  | cons first rest =>
    rw [if_neg (cons_ne_nil _ _), ← start_of_toolCallMatches h]
    dsimp only
    split_ifs with hnil
    · rw [hnil]
      rfl
    · rfl

theorem toolCalls_extractToolCalls : (p.extractToolCalls text).toolCalls = (p.toolCallMatches text).map p.functionCall := by
  unfold extractToolCalls
  cases p.toolCallMatches text <;> rfl

/-! ## What has been streamed -/

/-- The state after `text` has been streamed. -/
structure Sent (p : RwkvToolParser) (s : Streamed) (text : Str) : Prop where
  content : s.sentContentIdx = settled toolCallMarker text
  calls : s.prevToolCallArr = (p.toolCallMatches text).map p.functionCall

theorem newToolCalls_spec (prev : List FunctionCall) (index : ℕ) (found : List ToolCallMatch) (h : index ≤ prev.length) :
    (p.newToolCalls prev index found).1 = prev ++ (found.drop (prev.length - index)).map p.functionCall ∧
      (p.newToolCalls prev index found).2.foldl mergeToolCall prev = (p.newToolCalls prev index found).1 := by
  induction found generalizing prev index with
  | nil => simp [newToolCalls]
  | cons m found ih =>
    unfold newToolCalls
    split_ifs with hlt
    · obtain ⟨hprev, hmerge⟩ := ih prev (index + 1) hlt
      refine ⟨?_, hmerge⟩
      rw [hprev, show prev.length - index = (prev.length - (index + 1)) + 1 by omega, drop_succ_cons]
    obtain rfl : index = prev.length := by omega
    obtain ⟨hprev, hmerge⟩ := ih (prev ++ [p.functionCall m]) (prev.length + 1) (by simp)
    constructor
    · rw [hprev]
      simp
    rw [foldl_cons]
    unfold mergeToolCall at hmerge ⊢
    rw [if_neg (lt_irrefl _)]
    exact hmerge

theorem contentDelta_spec (hp : text <+: text') (hs : s.sentContentIdx = settled toolCallMarker text) :
    (contentDelta s text').2 = { s with sentContentIdx := settled toolCallMarker text' } ∧
      text.take (settled toolCallMarker text) ++ (contentDelta s text').1.getD [] =
        text'.take (settled toolCallMarker text') := by
  have hsendable : (match find toolCallMarker text' 0 with
      | none => text'.length - overlap toolCallMarker text'
      | some markerStart => markerStart) = settled toolCallMarker text' := by
    unfold settled
    cases find toolCallMarker text' 0 <;> rfl
  have hmono : settled toolCallMarker text ≤ settled toolCallMarker text' := settled_mono (by decide) hp
  have htake : text.take (settled toolCallMarker text) = text'.take (settled toolCallMarker text) := by
    obtain ⟨rest, rfl⟩ := hp
    rw [take_append_of_le_length settled_le]
  unfold contentDelta
  rw [hsendable, hs, htake]
  dsimp only
  split_ifs with hle
  · have heq := le_antisymm hmono hle
    refine ⟨?_, ?_⟩
    · rw [← heq, ← hs]
    · rw [heq]
      exact append_nil _
  · refine ⟨rfl, ?_⟩
    show _ ++ (text'.take _).drop _ = _
    rw [← min_eq_left hmono, ← take_take, min_eq_left hmono, take_append_drop]

/-- One chunk: the state stays right, and the message holds what is new. -/
theorem Sent.step (h : Sent p s text) (hp : text <+: text') : Sent p (p.extractToolCallsStreaming s text').2 text' ∧
      text.take (settled toolCallMarker text) ++
          ((p.extractToolCallsStreaming s text').1.toList.flatMap fun m => m.content.getD []) =
        text'.take (settled toolCallMarker text') ∧
      ((p.extractToolCallsStreaming s text').1.toList.flatMap (·.toolCalls)).foldl mergeToolCall s.prevToolCallArr =
        (p.toolCallMatches text').map p.functionCall := by
  obtain ⟨hstate, hcontent⟩ := contentDelta_spec hp h.content
  obtain ⟨rest, hrest⟩ := toolCallMatches_grows hp
  obtain ⟨hprev, hmerge⟩ := newToolCalls_spec s.prevToolCallArr 0 (p.toolCallMatches text') (Nat.zero_le _)
  have hall : (p.newToolCalls s.prevToolCallArr 0 (p.toolCallMatches text')).1 =
      (p.toolCallMatches text').map p.functionCall := by
    rw [hprev, h.calls, length_map, Nat.sub_zero, ← hrest, drop_left, map_append]
  unfold extractToolCallsStreaming
  dsimp only
  rw [show (contentDelta s text').2.prevToolCallArr = s.prevToolCallArr by rw [hstate]]
  have hsent : Sent p { (contentDelta s text').2 with
      prevToolCallArr := (p.newToolCalls s.prevToolCallArr 0 (p.toolCallMatches text')).1 } text' :=
    ⟨by rw [hstate], hall⟩
  split
  · refine ⟨hsent, ?_, ?_⟩
    · simpa using hcontent
    · simpa [hall] using hmerge
  -- nothing new, so that no message is sent
  rename_i hnothing
  simp only [ne_eq, not_or, not_not] at hnothing
  rw [hnothing.1] at hcontent
  rw [hnothing.2] at hmerge
  exact ⟨hsent, hcontent, hmerge.trans hall⟩

theorem Sent.stream (h : Sent p s text) (chunks : List Str) :
    text.take (settled toolCallMarker text) ++ ((p.stream s text chunks).flatMap fun m => m.content.getD []) =
        (text ++ chunks.flatten).take (settled toolCallMarker (text ++ chunks.flatten)) ∧
      ((p.stream s text chunks).flatMap (·.toolCalls)).foldl mergeToolCall s.prevToolCallArr =
        (p.toolCallMatches (text ++ chunks.flatten)).map p.functionCall := by
  induction chunks generalizing s text with
  | nil => simpa [RwkvToolParser.stream] using h.calls
  | cons chunk chunks ih =>
    obtain ⟨hsent, hcontent, hcalls⟩ := h.step (prefix_append text chunk)
    obtain ⟨hcontent', hcalls'⟩ := ih hsent
    unfold RwkvToolParser.stream
    rw [flatten_cons, ← append_assoc, flatMap_append, flatMap_append, foldl_append, hcalls,
      ← append_assoc, hcontent, ← hsent.calls]
    exact ⟨hcontent', hcalls'⟩

theorem sent_start : Sent p {} [] := by
  refine ⟨?_, ?_⟩
  · exact (Nat.le_zero.1 settled_le).symm
  have hnone : find toolCallMarker [] 0 = none := by decide
  unfold toolCallMatches matchesFrom nextMatch
  rw [hnone]
  rfl

/-- For every way to cut a text into chunks the streamed tool calls are those of the whole text, and the streamed
content is a part of its content from the beginning. It is all of it exactly if the text has a valid tool call, or
has no marker and does not end with a piece of one. -/
theorem streaming_agrees (p : RwkvToolParser) (chunks : List Str) :
    (received (p.stream {} [] chunks)).2 = (p.extractToolCalls chunks.flatten).toolCalls ∧
      (received (p.stream {} [] chunks)).1 <+: (p.extractToolCalls chunks.flatten).content.getD [] ∧
      ((received (p.stream {} [] chunks)).1 = (p.extractToolCalls chunks.flatten).content.getD [] ↔
        p.toolCallMatches chunks.flatten ≠ [] ∨
          find toolCallMarker chunks.flatten 0 = none ∧ overlap toolCallMarker chunks.flatten = 0) := by
  obtain ⟨hcontent, hcalls⟩ := (sent_start).stream chunks
  rw [nil_append] at hcontent hcalls
  rw [take_nil, nil_append] at hcontent
  unfold received
  rw [toolCalls_extractToolCalls, content_extractToolCalls, hcontent]
  refine ⟨hcalls, ?_⟩
  split_ifs with hnil
  · refine ⟨ take_prefix _ _, ?_⟩
    rw [take_eq_self_iff, ← settled_eq_length (by decide)]
    have hle : settled toolCallMarker chunks.flatten ≤ chunks.flatten.length := settled_le
    constructor
    · intro h
      exact .inr (le_antisymm hle h)
    · rintro (h | h)
      · exact absurd hnil h
      · exact h.ge
  · exact ⟨prefix_refl _, iff_of_true rfl (.inl hnil)⟩

/-- A text that ends with a star: the star is held back and never sent. -/
theorem trailing_star_lost : let p : RwkvToolParser := ⟨[], none, fun _ => none, fun _ => [], fun c => c = ' '⟩
    received (p.stream {} [] ["5".toList, " *".toList]) = ("5 ".toList, []) ∧
      p.extractToolCalls "5 *".toList = ⟨false, [], some "5 *".toList⟩ := by
  decide

end RwkvToolParser

end VllmRwkv.RwkvTool
