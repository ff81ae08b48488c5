import Trequests.EasyOptions
import Trequests.Headers
import Trequests.Response

/-! The command of a request handle, `treq_RequestHandleCmd`: its table of commands with
their numbers of arguments, and the getters behind it. Between two calls the transfer goes
on, and libcurl answers a getter from what it has received so far. -/

namespace Trequests

/-! ### Headers by name -/

/-- What `treq_RequestGetHeader` uses of a `struct curl_header`. -/
structure CurlHeader where
  value : Str
  amount : ℕ

namespace Transfer
variable (t : Transfer)

/-- The headers of the latest response that have the name. -/
def latestNamed (name : Str) : List (Str × Str) := named name (t.responses.headD [])

/-- `curl_easy_header` with the request -1. -/
def curlEasyHeaderAt (name : Str) (nameindex : ℕ) : Option CurlHeader :=
  (t.latestNamed name)[nameindex]?.map fun h => ⟨h.2, (t.latestNamed name).length⟩

/-- The loop of `treq_RequestGetHeader`, with the number of passes left; a header that
cannot be got is passed over. -/
def getHeaderLoop (header : Str) : ℕ → ℕ → List Str → List Str
  | 0, _, result => result
  | left + 1, i, result =>
    match t.curlEasyHeaderAt header i with
    | none => getHeaderLoop header left (i + 1) result
    | some h => getHeaderLoop header left (i + 1) (result ++ [h.value])

/-- `treq_RequestGetHeader` -/
def requestGetHeader (header : Str) : Option (List Str) :=
  match t.curlEasyHeaderAt header 0 with
  | none => none
  | some h => some (t.getHeaderLoop header (h.amount - 1) 1 [h.value])

end Transfer

/-! ### The command -/

inductive HandleCommand where
  | easyOpts | text | content | error | headers | header | encoding | statusCode | state | destroy
  deriving DecidableEq

/-- An entry of the table `commands`. -/
structure HandleEntry where
  name : Str
  command : HandleCommand
  argMin : ℕ
  argMax : ℕ
  argHelp : Option Str
  deriving DecidableEq

/-- The table `commands`, in the testing build or not. -/
def handleCommands (testing : Bool) : List HandleEntry :=
  (if testing then [⟨lit "easy_opts", .easyOpts, 2, 3, none⟩] else []) ++
    [⟨lit "text", .text, 2, 2, none⟩, ⟨lit "content", .content, 2, 2, none⟩,
     ⟨lit "error", .error, 2, 2, none⟩, ⟨lit "headers", .headers, 2, 2, none⟩,
     ⟨lit "header", .header, 3, 3, some (lit "header")⟩,
     ⟨lit "encoding", .encoding, 2, 3, some (lit "?encoding?")⟩,
     ⟨lit "status_code", .statusCode, 2, 2, none⟩, ⟨lit "state", .state, 2, 2, none⟩,
     ⟨lit "destroy", .destroy, 2, 2, none⟩]

/-- The command that the words behind the name of the handle ask for, and its arguments. -/
def handleWords (testing : Bool) (name : Str) : List Str → Except Str (HandleCommand × List Str)
  | [] => .error (wrongNumArgs name (lit "command ?args?"))
  | word :: args =>
    let table := (handleCommands testing).map HandleEntry.name
    match (getIndex false table word).bind fun k => (handleCommands testing)[k]? with
    | none => .error (indexError (lit "command") table word)
    | some entry =>
      if args.length + 2 < entry.argMin ∨ entry.argMax < args.length + 2 then
        -- the message has the full name of an abbreviated command
        .error (match entry.argHelp with
          | some help => wrongNumArgs (name ++ lit " " ++ entry.name) help
          | none => lit "wrong # args: should be \"" ++ name ++ lit " " ++ entry.name ++ lit "\"")
      else .ok (entry.command, args)

/-- The fields of `treq_RequestType` behind its handle, in the testing build or not, with
the status code that libcurl keeps. -/
structure Handle extends Response where
  statusCode : ℤ
  setOptions : Option EasyDict

inductive HandleReply where
  | string (s : Str)
  /-- `Tcl_NewByteArrayObj` -/
  | byteArray (content : Block UInt8) (size : ℤ)
  | list (l : List Str)
  | wideInt (n : ℤ)
  | easyOpts (o : EasyOpts)

/-- `treq_RequestGetState` -/
def RequestState.name : RequestState → Str
  | .created => lit "created"
  | .inprogress => lit "progress"
  | .done => lit "done"
  | .error => lit "error"

namespace Handle
variable (enc : Encodings) (h : Handle)

def init (setOptions : Option EasyDict) : Handle :=
  { Response.init with statusCode := 0, setOptions }

def setResponse (r : Response) : Handle := { h with toResponse := r }

/-- `treq_RequestGetContent` -/
def requestGetContent : HandleReply :=
  match h.content with
  | none => .string []
  | some content => .byteArray content h.contentSize

def headerCmd (header : Str) : Except Str HandleReply :=
  match h.requestGetHeader header with
  | none => .error (lit "there is no header \"" ++ header ++ lit "\" in the server response")
  | some values => .ok (.list values)

/-- `treq_RequestHandleCmd` behind its checks; the destruction only ends the life of the
request. -/
def runCommand : HandleCommand → List Str → Handle × Except Str HandleReply
  | .easyOpts, args => (h, (easyOptsCmd h.setOptions args.head?).map .easyOpts)
  | .text, _ =>
    let get := h.requestGetText enc
    (h.setResponse get.1, .ok (.string get.2))
  | .content, _ => (h, .ok h.requestGetContent)
  | .error, _ => (h, .ok (.string h.requestGetError))
  | .headers, _ => (h, .ok (.list h.requestGetHeaders))
  | .header, args => (h, h.headerCmd (args.headD []))
  | .encoding, name :: _ =>
    match enc.getEncoding name with
    | none => (h, .error (lit "unknown encoding \"" ++ name ++ lit "\""))
    | some encoding =>
      let get := { h.toResponse with encoding := some encoding }.requestGetEncoding enc
      (h.setResponse get.1, .ok (.string get.2))
  | .encoding, [] =>
    let get := h.requestGetEncoding enc
    (h.setResponse get.1, .ok (.string get.2))
  | .statusCode, _ => (h, .ok (.wideInt h.statusCode))
  | .state, _ => (h, .ok (.string h.state.name))
  | .destroy, _ => (h, .ok (.string []))

variable (testing : Bool) (name : Str)

/-- `treq_RequestHandleCmd` -/
def requestHandleCmd (objv : List Str) : Handle × Except Str HandleReply :=
  match handleWords testing name objv with
  | .error e => (h, .error e)
  | .ok (command, args) => h.runCommand enc command args

end Handle

inductive HandleEvent where
  | transfer (event : TransferEvent)
  /-- a status line arrives -/
  | status (code : ℤ)
  | command (objv : List Str)

/-- One event in the life of a request with a handle. -/
def Handle.step (enc : Encodings) (testing : Bool) (name : Str) (h : Handle) :
    HandleEvent → Option Handle
  | .transfer event => (h.toTransfer.step event).map fun t => { h with toTransfer := t }
  | .status code => some { h with statusCode := code }
  | .command objv =>
    match handleWords testing name objv with
    | .ok (.destroy, _) => none
    | _ => some (h.requestHandleCmd enc testing name objv).1

/-! ### A header is found as often as it was received -/

namespace Transfer
variable (t : Transfer)

/-- The content type is looked up as the first header of its name. -/
theorem curlEasyHeader_eq (name : Str) :
    t.curlEasyHeader name = (t.curlEasyHeaderAt name 0).map CurlHeader.value := by
  rw [curlEasyHeader, ← List.head?_filter, curlEasyHeaderAt, Option.map_map, List.head?_eq_getElem?]
  rfl

theorem getHeaderLoop_eq (header : Str) (left i : ℕ) (result : List Str)
    (hleft : i + left = (t.latestNamed header).length) :
    t.getHeaderLoop header left i result =
      result ++ ((t.latestNamed header).drop i).map Prod.snd := by
  induction left generalizing i result with
  | zero =>
    rw [getHeaderLoop, List.drop_of_length_le (by omega)]
    simp
  | succ left ih =>
    have hi : i < (t.latestNamed header).length := by omega
    have hat : t.curlEasyHeaderAt header i =
        some ⟨(t.latestNamed header)[i].2, (t.latestNamed header).length⟩ := by
      rw [curlEasyHeaderAt, List.getElem?_eq_getElem hi]
      rfl
    rw [List.drop_eq_getElem_cons hi, List.map_cons, getHeaderLoop, hat]
    simp only
    rw [ih (i + 1) _ (by omega), List.append_assoc]
    rfl

/-- All headers of the name in the latest response, in order. -/
theorem requestGetHeader_eq (header : Str) : t.requestGetHeader header =
    if t.latestNamed header = [] then none else some ((t.latestNamed header).map Prod.snd) := by
  unfold requestGetHeader
  cases hn : t.latestNamed header with
  | nil => simp [curlEasyHeaderAt, hn]
  | cons p ps =>
    have hat : t.curlEasyHeaderAt header 0 = some ⟨p.2, ps.length + 1⟩ := by
      rw [curlEasyHeaderAt, hn]
      rfl
    have hloop := t.getHeaderLoop_eq header ps.length 1 [p.2] (by rw [hn, List.length_cons]; omega)
    rw [hat, if_neg (List.cons_ne_nil _ _)]
    simpa [hn] using hloop

end Transfer

/-! ### What the commands leave alone -/

namespace Response
variable {enc : Encodings} (r : Response)

theorem requestUpdateEncoding_toTransfer :
    (r.requestUpdateEncoding enc).1.toTransfer = r.toTransfer := by
  have htype : (r.requestUpdateContentType enc).1.toTransfer = r.toTransfer := by
    unfold requestUpdateContentType
    split <;> rfl
  unfold requestUpdateEncoding
  cases r.contentCharset with
  | some charset => rfl
  | none =>
    simp only
    split_ifs
    · exact htype
    · exact htype

theorem requestGetEncoding_toTransfer : (r.requestGetEncoding enc).1.toTransfer = r.toTransfer := by
  unfold requestGetEncoding
  split
  · rfl
  · exact r.requestUpdateEncoding_toTransfer

theorem requestGetText_toTransfer : (r.requestGetText enc).1.toTransfer = r.toTransfer := by
  unfold requestGetText
  split
  · rfl
  · split
    · rfl
    · exact r.requestUpdateEncoding_toTransfer

end Response

/-- The commands that look at the encoding. -/
def HandleCommand.decodes : HandleCommand → Bool
  | .text | .encoding => true
  | _ => false

namespace Handle
variable {enc : Encodings} {testing : Bool} {name : Str}

theorem headerCmd_eq (h : Handle) (header : Str) : h.headerCmd header =
    let values := (h.latestNamed header).map Prod.snd
    if values = [] then
      .error (lit "there is no header \"" ++ header ++ lit "\" in the server response")
    else .ok (.list values) := by
  unfold headerCmd
  rw [Transfer.requestGetHeader_eq]
  cases h.latestNamed header with
  | nil => rfl
  | cons p ps => rfl

/-- Two requests have received the same. -/
structure SameReceived (h h' : Handle) : Prop where
  toTransfer : h'.toTransfer = h.toTransfer
  statusCode : h'.statusCode = h.statusCode
  setOptions : h'.setOptions = h.setOptions

theorem SameReceived.trans {h₁ h₂ h₃ : Handle} (h : SameReceived h₁ h₂) (h' : SameReceived h₂ h₃) :
    SameReceived h₁ h₃ :=
  ⟨h'.toTransfer.trans h.toTransfer, h'.statusCode.trans h.statusCode,
    h'.setOptions.trans h.setOptions⟩

theorem runCommand_received (h : Handle) (command : HandleCommand) (args : List Str) :
    SameReceived (h.runCommand enc command args).1 h := by
  cases command with
  | text => exact ⟨(h.requestGetText_toTransfer).symm, rfl, rfl⟩
  | encoding =>
    cases args with
    | nil => exact ⟨(h.requestGetEncoding_toTransfer).symm, rfl, rfl⟩
    | cons arg args =>
      simp only [runCommand]
      split
      · exact ⟨rfl, rfl, rfl⟩
      · rename_i encoding _
        have hget : ({ h.toResponse with encoding := some encoding }.requestGetEncoding
            enc).1.toTransfer = h.toTransfer := Response.requestGetEncoding_toTransfer _
        exact ⟨hget.symm, rfl, rfl⟩
  | _ => exact ⟨rfl, rfl, rfl⟩

theorem runCommand_eq_of_received {h h' : Handle} (hr : SameReceived h h') {command : HandleCommand}
    (hc : command.decodes = false) (args : List Str) :
    (h'.runCommand enc command args).2 = (h.runCommand enc command args).2 := by
  obtain ⟨⟨t, e, c, d⟩, s, o⟩ := h
  obtain ⟨⟨t', e', c', d'⟩, s', o'⟩ := h'
  obtain ⟨rfl, rfl, rfl⟩ := hr
  cases command <;> first | rfl | cases hc

/-- A command that does not end the request leaves what has been received alone. -/
theorem step_command {h h' : Handle} {objv : List Str}
    (hs : h.step enc testing name (.command objv) = some h') : SameReceived h' h := by
  have hcmd : SameReceived (h.requestHandleCmd enc testing name objv).1 h := by
    unfold requestHandleCmd
    split
    · exact ⟨rfl, rfl, rfl⟩
    · exact h.runCommand_received _ _
  simp only [step] at hs
  split at hs
  · cases hs
  · cases hs
    exact hcmd

/-- The result of a command that does not look at the encoding. -/
theorem requestHandleCmd_eq_of_received {h h' : Handle} (hr : SameReceived h h') {objv : List Str}
    (hc : ∀ command args, handleWords testing name objv = .ok (command, args) →
      command.decodes = false) :
    (h'.requestHandleCmd enc testing name objv).2 = (h.requestHandleCmd enc testing name objv).2 := by
  unfold requestHandleCmd
  cases hw : handleWords testing name objv with
  | error e => rfl
  | ok words => exact runCommand_eq_of_received hr (hc words.1 words.2 hw) words.2

end Handle

/-! ### What has been received -/

namespace HandleEvent

def received : HandleEvent → Bool
  | .transfer _ | .status _ => true
  | .command _ => false

def isResponse : HandleEvent → Bool
  | .transfer .response => true
  | _ => false

def header? : HandleEvent → Option (Str × Str)
  | .transfer (.header name value) => some (name, value)
  | _ => none

end HandleEvent

/-- The headers that arrive between the starts of the responses. -/
def headerChunks (events : List HandleEvent) : List (List (Str × Str)) :=
  (events.splitOnP HandleEvent.isResponse).map (List.filterMap HandleEvent.header?)

/-- The headers of the responses in turn. What comes before the first response is one if it
has a header. -/
def receivedResponses (events : List HandleEvent) : List (List (Str × Str)) :=
  match headerChunks events with
  | [] :: rest => rest
  | all => all

/-- The effect of an event on the headers that libcurl keeps. -/
def receive (responses : List (List (Str × Str))) (event : HandleEvent) : List (List (Str × Str)) :=
  if event.isResponse then [] :: responses
  else match event.header?, responses with
    | none, _ => responses
    | some h, [] => [[h]]
    | some h, headers :: earlier => (headers ++ [h]) :: earlier

theorem headerChunks_cons (event : HandleEvent) (events : List HandleEvent) :
    headerChunks (event :: events) =
      if event.isResponse then [] :: headerChunks events
      else (headerChunks events).modifyHead (event.header?.toList ++ ·) := by
  obtain ⟨c, cs, hc⟩ := List.exists_cons_of_ne_nil
    (List.splitOnP_ne_nil HandleEvent.isResponse events)
  rw [headerChunks, List.splitOnP_cons_eq_if_modifyHead, headerChunks, hc]
  split_ifs
  · rfl
  · cases hh : event.header? <;> simp [hh]

theorem headerChunks_ne_nil (events : List HandleEvent) : headerChunks events ≠ [] := by
  simp [headerChunks]

theorem receive_cons (headers : List (Str × Str)) (earlier : List (List (Str × Str)))
    (event : HandleEvent) : receive (headers :: earlier) event =
      if event.isResponse then [] :: headers :: earlier
      else (headers ++ event.header?.toList) :: earlier := by
  unfold receive
  split_ifs
  · rfl
  · cases event.header? <;> simp

theorem receive_nil (event : HandleEvent) :
    receive [] event = if event.isResponse then [[]] else event.header?.toList.map ([·]) := by
  unfold receive
  split_ifs
  · rfl
  · cases event.header? <;> rfl

/-- The headers of the response that is being received go on, and others follow. -/
theorem foldl_receive_cons (events : List HandleEvent) (headers : List (Str × Str))
    (earlier : List (List (Str × Str))) :
    (events.foldl receive (headers :: earlier)).reverse =
      earlier.reverse ++ (headerChunks events).modifyHead (headers ++ ·) := by
  induction events generalizing headers earlier with
  | nil => simp [headerChunks]
  | cons event events ih =>
    obtain ⟨c, cs, hc⟩ := List.exists_cons_of_ne_nil (headerChunks_ne_nil events)
    rw [List.foldl_cons, headerChunks_cons, receive_cons]
    split_ifs
    · rw [ih, hc]
      simp
    · rw [ih, hc]
      simp

theorem foldl_receive_nil (events : List HandleEvent) :
    (events.foldl receive []).reverse = receivedResponses events := by
  induction events with
  | nil => rfl
  | cons event events ih =>
    obtain ⟨c, cs, hc⟩ := List.exists_cons_of_ne_nil (headerChunks_ne_nil events)
    unfold receivedResponses at ih ⊢
    rw [List.foldl_cons, headerChunks_cons, receive_nil]
    rw [hc] at ih ⊢
    split_ifs
    · rw [foldl_receive_cons, hc]
      simp
    · cases event.header? with
      | none => exact ih
      | some h =>
        rw [Option.toList_some, List.map_singleton, foldl_receive_cons, hc]
        simp

namespace Handle
variable {enc : Encodings} {testing : Bool} {name : Str}

theorem step_responses {h h' : Handle} {event : HandleEvent}
    (hs : h.step enc testing name event = some h') :
    h'.responses = receive h.responses event := by
  cases event with
  | command objv => rw [(step_command hs).toTransfer]; rfl
  | status code =>
    cases hs
    rfl
  | transfer event =>
    obtain ⟨t, ht, rfl⟩ := Option.map_eq_some_iff.mp hs
    cases event with
    | response =>
      cases ht
      rfl
    | header n v =>
      cases ht
      cases hr : h.responses <;> simp [Transfer.addHeader, receive, HandleEvent.isResponse,
        HandleEvent.header?, hr]
    | body call =>
      obtain ⟨out, -, rfl⟩ := Option.map_eq_some_iff.mp ht
      rfl
    | finish state curlError =>
      cases ht
      rfl

theorem exec_responses {h h' : Handle} {events : List HandleEvent}
    (he : Run.exec (Handle.step enc testing name) h events = some h') :
    h'.responses = events.foldl receive h.responses := by
  induction events generalizing h with
  | nil =>
    cases he
    rfl
  | cons event events ih =>
    obtain ⟨u, hu, hr⟩ := Option.bind_eq_some_iff.mp he
    rw [ih hr, List.foldl_cons, step_responses hu]

/-- Without the commands the same is received. -/
theorem exec_received {h h' : Handle} {events : List HandleEvent}
    (he : Run.exec (Handle.step enc testing name) h events = some h') :
    ∃ h'', Run.exec (Handle.step enc testing name) h (events.filter HandleEvent.received) = some h'' ∧
      SameReceived h' h'' := by
  have hidden : ∀ h event t h', HandleEvent.received event = false → SameReceived h h' →
      step enc testing name h event = some t → SameReceived t h' := by
    intro h event t h' hv hr hs
    cases event with
    | command objv => exact (step_command hs).trans hr
    | transfer event => cases hv
    | status code => cases hv
  have shown : ∀ h event t h', HandleEvent.received event = true → SameReceived h h' →
      step enc testing name h event = some t →
      ∃ t', step enc testing name h' event = some t' ∧ SameReceived t t' := by
    intro h event t h' hv hr hs
    cases event with
    | command objv => cases hv
    | transfer event =>
      obtain ⟨u, hu, rfl⟩ := Option.map_eq_some_iff.mp hs
      refine ⟨{ h' with toTransfer := u }, ?_, rfl, hr.statusCode, hr.setOptions⟩
      rw [step, hr.toTransfer, hu]
      rfl
    | status code =>
      cases hs
      exact ⟨_, rfl, hr.toTransfer, rfl, hr.setOptions⟩
  exact Run.exec_erase hidden shown ⟨rfl, rfl, rfl⟩ he

end Handle

/-- The name of an entry, with a number of arguments that the entry takes. -/
theorem handleWords_entry {testing : Bool} {name : Str} (entry : HandleEntry)
    (he : entry ∈ handleCommands testing) {args : List Str}
    (hmin : entry.argMin ≤ args.length + 2) (hmax : args.length + 2 ≤ entry.argMax) :
    handleWords testing name (entry.name :: args) = .ok (entry.command, args) := by
  have hindex : ∀ e ∈ handleCommands testing,
      ((getIndex false ((handleCommands testing).map HandleEntry.name) e.name).bind fun k =>
        (handleCommands testing)[k]?) = some e := by
    cases testing <;> decide +kernel
  simp only [handleWords, hindex entry he]
  rw [if_neg (by omega)]

theorem handleWords_header (testing : Bool) (name header : Str) :
    handleWords testing name [lit "header", header] = .ok (.header, [header]) :=
  handleWords_entry ⟨lit "header", .header, 3, 3, some (lit "header")⟩
    (by simp [handleCommands]) (by simp) (by simp)

theorem handleWords_headers (testing : Bool) (name : Str) :
    handleWords testing name [lit "headers"] = .ok (.headers, []) :=
  handleWords_entry ⟨lit "headers", .headers, 2, 2, none⟩
    (by simp [handleCommands]) (by simp) (by simp)

/-! ### The four commands of a response -/

/-- The words of such a call. -/
def HandleCall.words : HandleCall → List Str
  | .encoding name => lit "encoding" :: name.toList
  | .text => [lit "text"]
  | .headers => [lit "headers"]
  | .error => [lit "error"]

/-- What Tcl gets to see of the result. -/
def HandleResult.reply : HandleResult → Except Str HandleReply
  | .value s => .ok (.string s)
  | .list l => .ok (.list l)
  | .unknownEncoding name => .error (lit "unknown encoding \"" ++ name ++ lit "\"")

/-- The command does with these words what it does for a response. -/
theorem Handle.requestHandleCmd_words (enc : Encodings) (testing : Bool) (name : Str) (h : Handle)
    (call : HandleCall) : h.requestHandleCmd enc testing name call.words =
      (h.setResponse (h.toResponse.requestHandleCmd enc call).1,
        (h.toResponse.requestHandleCmd enc call).2.reply) := by
  cases call with
  | encoding encoding =>
    have hwords : handleWords testing name (lit "encoding" :: encoding.toList) =
        .ok (.encoding, encoding.toList) :=
      handleWords_entry ⟨lit "encoding", .encoding, 2, 3, some (lit "?encoding?")⟩
        (by simp [handleCommands]) (by simp) (by cases encoding <;> simp)
    simp only [requestHandleCmd, HandleCall.words, hwords]
    cases encoding with
    | none => rfl
    | some encoding =>
      simp only [Option.toList_some, runCommand, Response.requestHandleCmd]
      cases enc.getEncoding encoding <;> rfl
  | text =>
    have hwords : handleWords testing name [lit "text"] = .ok (.text, []) :=
      handleWords_entry ⟨lit "text", .text, 2, 2, none⟩
        (by simp [handleCommands]) (by simp) (by simp)
    simp only [requestHandleCmd, HandleCall.words, hwords]
    rfl
  | headers =>
    simp only [requestHandleCmd, HandleCall.words, handleWords_headers]
    rfl
  | error =>
    have hwords : handleWords testing name [lit "error"] = .ok (.error, []) :=
      handleWords_entry ⟨lit "error", .error, 2, 2, none⟩
        (by simp [handleCommands]) (by simp) (by simp)
    simp only [requestHandleCmd, HandleCall.words, hwords]
    rfl

/-- The commands that do not look at the encoding show what has been received, as if none
had come before. Of the headers, `header` gives all that the latest response has of a name,
up to case and in order, and `headers` those of the first response of the chain. -/
theorem handle_shows_received {enc : Encodings} {testing : Bool} {name : Str}
    {set : Option EasyDict} {events : List HandleEvent} {h : Handle}
    (he : Run.exec (Handle.step enc testing name) (Handle.init set) events = some h) :
    (∃ h', Run.exec (Handle.step enc testing name) (Handle.init set)
          (events.filter HandleEvent.received) = some h' ∧
        ∀ objv, (∀ command args, handleWords testing name objv = .ok (command, args) →
            command.decodes = false) →
          (h.requestHandleCmd enc testing name objv).2 =
            (h'.requestHandleCmd enc testing name objv).2) ∧
      (∀ header, (h.requestHandleCmd enc testing name [lit "header", header]).2 =
        let values := (named header ((receivedResponses events).getLastD [])).map Prod.snd
        if values = [] then
          .error (lit "there is no header \"" ++ header ++ lit "\" in the server response")
        else .ok (.list values)) ∧
      (h.requestHandleCmd enc testing name [lit "headers"]).2 =
        .ok (.list (((receivedResponses events).headD []).flatMap fun p => [p.1, p.2])) := by
  have hrev : h.responses.reverse = receivedResponses events := by
    rw [Handle.exec_responses he]
    exact foldl_receive_nil events
  refine ⟨?_, fun header => ?_, ?_⟩
  · obtain ⟨h', he', hr⟩ := Handle.exec_received he
    exact ⟨h', he', fun objv hc => (Handle.requestHandleCmd_eq_of_received hr hc).symm⟩
  · have hlast : (receivedResponses events).getLastD [] = h.responses.headD [] := by
      rw [← hrev, List.getLastD_eq_getLast?, List.getLast?_reverse, List.headD_eq_head?_getD]
    rw [Handle.requestHandleCmd, handleWords_header, hlast]
    exact h.headerCmd_eq header
  · have hfirst : (receivedResponses events).headD [] = h.responses.getLastD [] := by
      rw [← hrev, List.headD_eq_head?_getD, List.head?_reverse, List.getLastD_eq_getLast?]
    rw [Handle.requestHandleCmd, handleWords_headers, hfirst]
    rfl

/-- The text is asked for between the response of a redirect and the final one, which sets
two cookies. -/
def cookieEvents : List HandleEvent :=
  [.transfer .response, .status 302, .transfer (.header (lit "Location") (lit "/home")),
   .command [lit "text"],
   .transfer .response, .status 200, .transfer (.header (lit "Set-Cookie") (lit "a=1")),
   .transfer (.header (lit "Server") (lit "x")), .transfer (.header (lit "set-cookie") (lit "b=2")),
   .transfer (.finish .done [])]

theorem handle_shows_received_cookieEvents :
    ∃ h, Run.exec (Handle.step threeEncodings false (lit "r")) (Handle.init none) cookieEvents =
        some h ∧
      (h.requestHandleCmd threeEncodings false (lit "r") [lit "header", lit "SET-COOKIE"]).2 =
        .ok (.list [lit "a=1", lit "b=2"]) ∧
      (h.requestHandleCmd threeEncodings false (lit "r") [lit "headers"]).2 =
        .ok (.list [lit "Location", lit "/home"]) := by
  have hsome : (Run.exec (Handle.step threeEncodings false (lit "r")) (Handle.init none)
      cookieEvents).isSome := by
    decide +kernel
  obtain ⟨h, he⟩ := Option.isSome_iff_exists.mp hsome
  obtain ⟨-, hheader, hheaders⟩ := handle_shows_received he
  have hvalues : (named (lit "SET-COOKIE") ((receivedResponses cookieEvents).getLastD [])).map
      Prod.snd = [lit "a=1", lit "b=2"] := by
    decide +kernel
  have hfirst : ((receivedResponses cookieEvents).headD []).flatMap (fun p => [p.1, p.2]) =
      [lit "Location", lit "/home"] := by
    decide +kernel
  refine ⟨h, he, ?_, ?_⟩
  · rw [hheader, hvalues]
    rfl
  · rw [hheaders, hfirst]

end Trequests
