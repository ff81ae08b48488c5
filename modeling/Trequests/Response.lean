import Trequests.Charset
import Trequests.ContentType
import Trequests.WriteCallback

/-! The response of a request as its handle shows it. While the transfer goes on, libcurl
collects the headers of every response of a chain of redirects and hands over the body; a
handle call may come at any time, and the getters of the encoding and of the text keep what
they make of the header `Content-Type` in the request. -/

namespace Trequests

/-- What the getters use of Tcl's encodings. An encoding is named. -/
structure Encodings where
  /-- `Tcl_GetEncoding` -/
  getEncoding : Str → Option Str
  /-- `Tcl_ExternalToUtfDString` -/
  externalToUtf : Str → Block UInt8 → ℤ → Str
  /-- what `treq_ParseContentType` makes of a value when it reads behind it -/
  overrun : Str → Str × Str
  /-- this encoding is built in -/
  iso8859_1 : getEncoding (lit "iso8859-1") = some (lit "iso8859-1")

/-! ### The transfer -/

/-- The part of a request that the transfer fills. -/
structure Transfer extends Output where
  /-- the headers of each response so far, the latest response first -/
  responses : List (List (Str × Str))
  curlError : Str

inductive TransferEvent where
  /-- libcurl starts the next response of the chain -/
  | response
  | header (name value : Str)
  | body (call : WriteCall)
  /-- the transfer is over -/
  | finish (state : RequestState) (curlError : Str)

namespace Transfer
variable (t : Transfer)

def init : Transfer := { Output.init with responses := [], curlError := [] }

/-- The header belongs to the latest response. -/
def addHeader (h : Str × Str) : Transfer :=
  { t with responses := match t.responses with
      | [] => [[h]]
      | headers :: earlier => (headers ++ [h]) :: earlier }

/-- One thing that libcurl does; `none` when the write callback writes outside of its
block. -/
def step : TransferEvent → Option Transfer
  | .response => some { t with responses := [] :: t.responses }
  | .header name value => some (t.addHeader (name, value))
  | .body call => (writeStep t.toOutput call).map fun out => { t with toOutput := out }
  | .finish state curlError => some { t with state, curlError }

/-- `curl_easy_header` with the index 0 and the request -1. -/
def curlEasyHeader (name : Str) : Option Str :=
  ((t.responses.headD []).find? fun h => curlStrequal name h.1).map Prod.snd

def contentTypeHeader : Option Str := t.curlEasyHeader (lit "Content-Type")

end Transfer

/-! ### The getters -/

/-- The fields of `treq_RequestType` behind its handle. -/
structure Response extends Transfer where
  encoding : Option Str
  contentType : Option Str
  contentCharset : Option Str

inductive HandleCall where
  /-- `encoding`, with the name of an encoding or without -/
  | encoding (name : Option Str)
  | text
  | headers
  | error

inductive HandleResult where
  | value (s : Str)
  | list (l : List Str)
  | unknownEncoding (name : Str)
  deriving DecidableEq

namespace Response
variable (enc : Encodings) (r : Response)

def init : Response :=
  { Transfer.init with encoding := none, contentType := none, contentCharset := none }

/-- `treq_RequestUpdateContentType` -/
def requestUpdateContentType : Response × Bool :=
  match r.contentTypeHeader with
  | none => (r, false)
  | some value =>
    let parsed := (parseContentType (value ++ [0])).getD (enc.overrun value)
    ({ r with contentType := some parsed.1, contentCharset := some parsed.2 }, true)

end Response

/-- The encoding for a charset: `treq_RequestUpdateEncoding` behind its first test. -/
def Encodings.ofCharset (enc : Encodings) (charset : Str) : Option Str :=
  let useDefault := enc.getEncoding (lit "iso8859-1")
  if charset = [] then useDefault
  else (enc.getEncoding (convertCharsetToEncoding charset)).or useDefault

namespace Response
variable (enc : Encodings) (r : Response)

/-- `treq_RequestUpdateEncoding` -/
def requestUpdateEncoding : Response × Bool :=
  let update := match r.contentCharset with
    | some _ => (r, true)
    | none => r.requestUpdateContentType enc
  if update.2 then
    ({ update.1 with encoding := enc.ofCharset (update.1.contentCharset.getD []) }, true)
  else update

/-- `treq_RequestGetEncoding` -/
def requestGetEncoding : Response × Str :=
  match r.encoding with
  | some encoding => (r, encoding)
  | none =>
    let update := r.requestUpdateEncoding enc
    (update.1, if update.2 then update.1.encoding.getD [] else lit "iso8859-1")

/-- `treq_RequestGetText` -/
def requestGetText : Response × Str :=
  match r.content with
  | none => (r, [])
  | some content =>
    match r.encoding with
    | some encoding => (r, enc.externalToUtf encoding content r.contentSize)
    | none =>
      let update := r.requestUpdateEncoding enc
      let encoding := if update.2 then update.1.encoding else enc.getEncoding (lit "iso8859-1")
      (update.1, enc.externalToUtf (encoding.getD []) content r.contentSize)

/-- `treq_RequestGetHeaders`: libcurl is asked for the request 0, the first one of the
chain. -/
def requestGetHeaders : List Str := (r.responses.getLastD []).flatMap fun h => [h.1, h.2]

/-- `treq_RequestGetError` -/
def requestGetError : Str :=
  match r.error with
  | some error =>
    if r.curlError = [] then error else error ++ lit "(cURL error: " ++ r.curlError ++ lit ")"
  | none =>
    if r.curlError = [] then if r.state = .error then lit "unknown error" else []
    else lit "cURL error: " ++ r.curlError

/-- `treq_RequestHandleCmd` for these four commands. -/
def requestHandleCmd : HandleCall → Response × HandleResult
  | .encoding (some name) =>
    match enc.getEncoding name with
    | none => (r, .unknownEncoding name)
    | some encoding =>
      let get := { r with encoding := some encoding }.requestGetEncoding enc
      (get.1, .value get.2)
  | .encoding none => ((r.requestGetEncoding enc).1, .value (r.requestGetEncoding enc).2)
  | .text => ((r.requestGetText enc).1, .value (r.requestGetText enc).2)
  | .headers => (r, .list r.requestGetHeaders)
  | .error => (r, .value r.requestGetError)

end Response

inductive ResponseEvent where
  | transfer (event : TransferEvent)
  | call (call : HandleCall)

/-- One event in the life of a response. -/
def Response.step (enc : Encodings) (r : Response) : ResponseEvent → Option Response
  | .transfer event => (r.toTransfer.step event).map fun t => { r with toTransfer := t }
  | .call call => some (r.requestHandleCmd enc call).1

/-! ### What a call keeps -/

section Keeps
variable (enc : Encodings)

/-- The encoding for the value of a header `Content-Type`. -/
def Encodings.ofHeader (value : Str) : Option Str :=
  enc.ofCharset ((parseContentType (value ++ [0])).getD (enc.overrun value)).2

/-- The encoding that the latest response stands for. -/
def Encodings.detected (t : Transfer) : Option Str :=
  match t.contentTypeHeader with
  | some value => enc.ofHeader value
  | none => enc.getEncoding (lit "iso8859-1")

theorem Encodings.ofCharset_isSome (charset : Str) : (enc.ofCharset charset).isSome = true := by
  have hdefault := enc.iso8859_1
  unfold ofCharset
  split_ifs
  · rw [hdefault]; rfl
  · cases enc.getEncoding (convertCharsetToEncoding charset) with
    | some _ => rfl
    | none => rw [hdefault]; rfl

theorem Encodings.ofHeader_isSome (value : Str) : (enc.ofHeader value).isSome = true :=
  enc.ofCharset_isSome _

theorem Encodings.detected_isSome (t : Transfer) : (enc.detected t).isSome = true := by
  unfold detected
  split
  · exact enc.ofHeader_isSome _
  · rw [enc.iso8859_1]; rfl

/-- The calls that only read. -/
def HandleCall.reads : HandleCall → Bool
  | .encoding (some _) => false
  | .encoding none | .text | .headers | .error => true

/-- The encoding that a call sets. -/
def HandleCall.sets : HandleCall → Option Str
  | .encoding (some name) => enc.getEncoding name
  | .encoding none | .text | .headers | .error => none

/-- The value of `Content-Type` that a call looks at when no encoding is known. -/
def HandleCall.looksAt (t : Transfer) : HandleCall → Option Str
  | .encoding none => t.contentTypeHeader
  | .text => if t.content.isSome then t.contentTypeHeader else none
  | .encoding (some _) | .headers | .error => none

namespace Response
variable {enc} {r : Response}

/-- The charset is kept together with an encoding. -/
def Coherent (r : Response) : Prop := r.encoding = none → r.contentCharset = none

theorem requestUpdateEncoding_eq (hc : r.contentCharset = none) :
    r.requestUpdateEncoding enc = match r.contentTypeHeader with
      | none => (r, false)
      | some value =>
        let parsed := (parseContentType (value ++ [0])).getD (enc.overrun value)
        ({ r with
            contentType := some parsed.1
            contentCharset := some parsed.2
            encoding := enc.ofHeader value }, true) := by
  unfold requestUpdateEncoding requestUpdateContentType
  rw [hc]
  cases hh : r.contentTypeHeader <;> rfl

theorem requestGetEncoding_snd (h : r.Coherent) : (r.requestGetEncoding enc).2 =
    (r.encoding.or (enc.detected r.toTransfer)).getD [] := by
  unfold requestGetEncoding
  cases he : r.encoding with
  | some encoding => rfl
  | none =>
    simp only [requestUpdateEncoding_eq (h he), Option.none_or, Encodings.detected]
    cases hh : r.contentTypeHeader with
    | some value => rfl
    | none => simp [enc.iso8859_1]

theorem requestGetText_snd (h : r.Coherent) : (r.requestGetText enc).2 =
    match r.content with
    | none => []
    | some content => enc.externalToUtf
        ((r.encoding.or (enc.detected r.toTransfer)).getD []) content r.contentSize := by
  unfold requestGetText
  cases hc : r.content with
  | none => rfl
  | some content =>
    cases he : r.encoding with
    | some encoding => rfl
    | none =>
      simp only [requestUpdateEncoding_eq (h he), Option.none_or, Encodings.detected]
      cases hh : r.contentTypeHeader with
      | some value => rfl
      | none => simp

theorem requestUpdateEncoding_fst (h : r.Coherent) (he : r.encoding = none) :
    let r' := (r.requestUpdateEncoding enc).1
    r'.toTransfer = r.toTransfer ∧ r'.encoding = r.contentTypeHeader.bind enc.ofHeader ∧
      r'.Coherent := by
  rw [requestUpdateEncoding_eq (h he)]
  cases hh : r.contentTypeHeader with
  | none => exact ⟨rfl, he, h⟩
  | some value =>
    refine ⟨rfl, rfl, fun hn => ?_⟩
    have := enc.ofHeader_isSome value
    rw [show enc.ofHeader value = none from hn] at this
    cases this

/-- A call leaves the transfer alone; it sets an encoding, or it keeps the one that was
there, or else that of the header it looks at. -/
theorem requestHandleCmd_fst (h : r.Coherent) (call : HandleCall) :
    let r' := (r.requestHandleCmd enc call).1
    r'.toTransfer = r.toTransfer ∧
      r'.encoding = (call.sets enc).or
        (r.encoding.or ((call.looksAt r.toTransfer).bind enc.ofHeader)) ∧ r'.Coherent := by
  cases call with
  | encoding name =>
    cases name with
    | some name =>
      simp only [requestHandleCmd, HandleCall.sets]
      cases enc.getEncoding name with
      | none => exact ⟨rfl, (Option.or_none).symm, h⟩
      | some encoding => exact ⟨rfl, rfl, fun hn => by cases hn⟩
    | none =>
      simp only [requestHandleCmd, requestGetEncoding]
      cases he : r.encoding with
      | some encoding => exact ⟨rfl, he, h⟩
      | none => exact requestUpdateEncoding_fst h he
  | text =>
    simp only [requestHandleCmd, requestGetText, HandleCall.looksAt]
    cases hc : r.content with
    | none => exact ⟨rfl, (Option.or_none).symm, h⟩
    | some content =>
      cases he : r.encoding with
      | some encoding => exact ⟨rfl, he, h⟩
      | none => exact requestUpdateEncoding_fst h he
  | headers => exact ⟨rfl, (Option.or_none).symm, h⟩
  | error => exact ⟨rfl, (Option.or_none).symm, h⟩

end Response

end Keeps

/-! ### Runs -/

section Runs
variable (enc : Encodings)

def ResponseEvent.sets : ResponseEvent → Option Str
  | .transfer _ => none
  | .call c => c.sets enc

/-- The encoding that the last call to set one has set. -/
def lastSet (events : List ResponseEvent) : Option Str :=
  (events.filterMap (ResponseEvent.sets enc)).getLast?

/-- The value of `Content-Type` that the first call to find one looks at. -/
def firstSeen (t : Transfer) : List ResponseEvent → Option Str
  | [] => none
  | .transfer event :: events => (t.step event).bind fun t => firstSeen t events
  | .call call :: events => (call.looksAt t).or (firstSeen t events)

def ResponseEvent.visible : ResponseEvent → Bool
  | .transfer _ => true
  | .call c => ! c.reads

theorem lastSet_cons (event : ResponseEvent) (events : List ResponseEvent) :
    lastSet enc (event :: events) = (lastSet enc events).or (event.sets enc) := by
  unfold lastSet
  cases h : event.sets enc with
  | none => rw [List.filterMap_cons_none h, Option.or_none]
  | some e =>
    rw [List.filterMap_cons_some h, List.getLast?_cons]
    cases (events.filterMap (ResponseEvent.sets enc)).getLast? <;> rfl

namespace Response
variable {enc} {r r' : Response} {events : List ResponseEvent}

/-- The encoding after a run: the last one set, or the one known before, or that of the
first header seen. -/
theorem encoding_exec (h : r.Coherent) (he : Run.exec (step enc) r events = some r') :
    r'.encoding = (lastSet enc events).or
      (r.encoding.or ((firstSeen r.toTransfer events).bind enc.ofHeader)) ∧ r'.Coherent := by
  induction events generalizing r with
  | nil =>
    cases he
    exact ⟨(Option.or_none).symm, h⟩
  | cons event events ih =>
    obtain ⟨r₁, hr₁, he⟩ := Option.bind_eq_some_iff.mp he
    cases event with
    | transfer event =>
      obtain ⟨t, ht, rfl⟩ := Option.map_eq_some_iff.mp hr₁
      rw [lastSet_cons, ResponseEvent.sets, Option.or_none, firstSeen, ht, Option.bind_some]
      exact ih (r := { r with toTransfer := t }) h he
    | call call =>
      cases hr₁
      obtain ⟨ht, henc, hcoh⟩ := requestHandleCmd_fst h call
      obtain ⟨hr', hcoh'⟩ := ih hcoh he
      refine ⟨?_, hcoh'⟩
      rw [hr', ht, henc, lastSet_cons, firstSeen, ResponseEvent.sets, Option.or_assoc,
        Option.or_assoc]
      cases call.looksAt r.toTransfer with
      | none => simp [Option.or_assoc]
      | some value =>
        obtain ⟨e, hv⟩ := Option.isSome_iff_exists.mp (enc.ofHeader_isSome value)
        simp [hv]

/-- Without the calls that only read, the run goes the same way. -/
theorem exec_erase (h : r.Coherent) (he : Run.exec (step enc) r events = some r') :
    ∃ r'', Run.exec (step enc) r (events.filter ResponseEvent.visible) = some r'' ∧
      r''.toTransfer = r'.toTransfer := by
  have hkeeps : ∀ {r : Response} (_ : r.Coherent) {event : ResponseEvent} {t : Response},
      step enc r event = some t → t.Coherent := by
    intro r hr event t hs
    cases event with
    | transfer event =>
      obtain ⟨_, -, rfl⟩ := Option.map_eq_some_iff.mp hs
      exact hr
    | call call =>
      cases hs
      exact (requestHandleCmd_fst hr call).2.2
  -- the two runs agree on the transfer
  let R (r r' : Response) : Prop := r'.toTransfer = r.toTransfer ∧ r.Coherent ∧ r'.Coherent
  have hidden : ∀ r event t r', ResponseEvent.visible event = false → R r r' →
      step enc r event = some t → R t r' := by
    rintro r event t r' hv ⟨heq, hr, hr'⟩ hs
    refine ⟨?_, hkeeps hr hs, hr'⟩
    cases event with
    | transfer event => cases hv
    | call call =>
      cases hs
      rw [heq, (requestHandleCmd_fst hr call).1]
  have shown : ∀ r event t r', ResponseEvent.visible event = true → R r r' →
      step enc r event = some t → ∃ t', step enc r' event = some t' ∧ R t t' := by
    rintro r event t r' - ⟨heq, hr, hr'⟩ hs
    cases event with
    | transfer event =>
      obtain ⟨u, hu, rfl⟩ := Option.map_eq_some_iff.mp hs
      refine ⟨{ r' with toTransfer := u }, ?_, rfl, hr, hr'⟩
      rw [step, heq, hu]
      rfl
    | call call =>
      cases hs
      obtain ⟨ht, -, hcoh⟩ := requestHandleCmd_fst hr call
      obtain ⟨ht', -, hcoh'⟩ := requestHandleCmd_fst hr' call
      exact ⟨_, rfl, by rw [ht', ht, heq], hcoh, hcoh'⟩
  obtain ⟨r'', he', heq, -, -⟩ := Run.exec_erase hidden shown ⟨rfl, h, h⟩ he
  exact ⟨r'', he', heq⟩

theorem firstSeen_filter (t : Transfer) (events : List ResponseEvent) :
    firstSeen t (events.filter ResponseEvent.visible) = none := by
  induction events generalizing t with
  | nil => rfl
  | cons event events ih =>
    cases event with
    | transfer event =>
      change (t.step event).bind _ = none
      cases t.step event with
      | none => rfl
      | some t' => exact ih t'
    | call call =>
      cases call with
      | encoding name =>
        cases name with
        | none => exact ih t
        | some name => exact ih t
      | text => exact ih t
      | headers => exact ih t
      | error => exact ih t

theorem lastSet_filter (events : List ResponseEvent) :
    lastSet enc (events.filter ResponseEvent.visible) = lastSet enc events := by
  induction events with
  | nil => rfl
  | cons event events ih =>
    rw [lastSet_cons, ← ih]
    cases hv : event.visible with
    | true => rw [List.filter_cons_of_pos hv, lastSet_cons]
    | false =>
      rw [List.filter_cons_of_neg (by simp [hv])]
      have : event.sets enc = none := by
        cases event with
        | transfer event => rfl
        | call call =>
          cases call with
          | encoding name =>
            cases name with
            | none => rfl
            | some name => cases hv
          | text => rfl
          | headers => rfl
          | error => rfl
      rw [this, Option.or_none]

end Response

/-- What `encoding` and `text` give when an encoding is known. -/
def Transfer.results (t : Transfer) (encoding : Str) : HandleResult × HandleResult :=
  (.value encoding, .value (match t.content with
    | none => []
    | some content => enc.externalToUtf encoding content t.contentSize))

/-- The results of `encoding` and `text`. -/
def Response.results (r : Response) : HandleResult × HandleResult :=
  ((r.requestHandleCmd enc (.encoding none)).2, (r.requestHandleCmd enc .text).2)

namespace Response
variable {enc} {r : Response} {events : List ResponseEvent}

theorem results_eq (h : r.Coherent) : r.results enc =
    r.toTransfer.results enc ((r.encoding.or (enc.detected r.toTransfer)).getD []) := by
  unfold results Transfer.results requestHandleCmd
  rw [requestGetEncoding_snd h, requestGetText_snd h]

/-- At the end of a run, `encoding` and `text` give what they give without the earlier
calls that only read, namely what the explicit calls and the latest response stand for, if
and only if a call has set an encoding, or the first header that such a call looked at
stands for the same encoding as the latest response. -/
theorem results_erase_iff (he : Run.exec (step enc) Response.init events = some r) :
    ∃ r', Run.exec (step enc) Response.init (events.filter ResponseEvent.visible) = some r' ∧
      r'.results enc =
        r.toTransfer.results enc (((lastSet enc events).or (enc.detected r.toTransfer)).getD []) ∧
      (r.results enc = r'.results enc ↔
        (lastSet enc events).isSome ∨
          ∀ value ∈ firstSeen Transfer.init events, enc.ofHeader value = enc.detected r.toTransfer) := by
  have hinit : Response.init.Coherent := fun _ => rfl
  obtain ⟨r', he', heq⟩ := exec_erase hinit he
  obtain ⟨hr, hcoh⟩ := encoding_exec hinit he
  obtain ⟨hr', hcoh'⟩ := encoding_exec hinit he'
  have hnone : Response.init.encoding = none := rfl
  rw [hnone, Option.none_or] at hr hr'
  rw [lastSet_filter, firstSeen_filter, Option.bind_none, Option.or_none] at hr'
  refine ⟨r', he', ?_, ?_⟩
  · rw [results_eq hcoh', hr', heq]
  · rw [results_eq hcoh, results_eq hcoh', hr, hr', heq]
    obtain ⟨d, hd⟩ := Option.isSome_iff_exists.mp (enc.detected_isSome r.toTransfer)
    cases hset : lastSet enc events with
    | some e => simp
    | none =>
      have hfirst : firstSeen Response.init.toTransfer events = firstSeen Transfer.init events := rfl
      rw [hfirst]
      cases firstSeen Transfer.init events with
      | none => simp
      | some value =>
        obtain ⟨e, hv⟩ := Option.isSome_iff_exists.mp (enc.ofHeader_isSome value)
        simp only [Option.bind_some, hv, hd, Option.none_or, Option.some_or, Option.getD_some,
          Option.isSome_none, Bool.false_eq_true, false_or, Option.mem_def, Option.some.injEq,
          forall_eq']
        constructor
        · intro h
          exact HandleResult.value.inj (congrArg Prod.fst h)
        · rintro rfl
          rfl

end Response

end Runs

/-! ### A redirect with a body -/

/-- Three encodings, and no text. -/
def threeEncodings : Encodings where
  getEncoding name :=
    if name ∈ [lit "iso8859-1", lit "utf-8", lit "cp1251"] then some name else none
  externalToUtf _ _ _ := []
  overrun _ := ([], [])
  iso8859_1 := by decide

/-- The encoding is asked for between the response of a redirect and the final one. -/
def redirectEvents : List ResponseEvent :=
  [.transfer .response,
   .transfer (.header (lit "Content-Type") (lit "text/html; charset=utf-8")),
   .call (.encoding none),
   .transfer .response,
   .transfer (.header (lit "content-type") (lit "text/html; charset=windows-1251")),
   .transfer (.finish .done [])]

theorem redirectEvents_encoding :
    (Run.exec (Response.step threeEncodings) Response.init redirectEvents).map
        (fun r => (r.results threeEncodings).1) = some (.value (lit "utf-8")) ∧
      (Run.exec (Response.step threeEncodings) Response.init
        (redirectEvents.filter ResponseEvent.visible)).map
        (fun r => (r.results threeEncodings).1) = some (.value (lit "cp1251")) := by
  decide +kernel

theorem results_erase_iff_redirectEvents :
    ∃ r, Run.exec (Response.step threeEncodings) Response.init redirectEvents = some r ∧
      ∃ r', Run.exec (Response.step threeEncodings) Response.init
          (redirectEvents.filter ResponseEvent.visible) = some r' ∧
        r.results threeEncodings ≠ r'.results threeEncodings := by
  obtain ⟨r, hr, hres⟩ := Option.map_eq_some_iff.mp redirectEvents_encoding.1
  obtain ⟨r', hr', -, hiff⟩ := Response.results_erase_iff hr
  refine ⟨r, hr, r', hr', fun heq => ?_⟩
  obtain ⟨r'', hr'', hres'⟩ := Option.map_eq_some_iff.mp redirectEvents_encoding.2
  cases hr'.symm.trans hr''
  rw [heq, hres'] at hres
  exact absurd hres (by decide +kernel)

theorem redirectEvents_results_differ : ¬ ∀ (enc : Encodings) (events : List ResponseEvent)
    (r r' : Response), Run.exec (Response.step enc) Response.init events = some r →
    Run.exec (Response.step enc) Response.init (events.filter ResponseEvent.visible) = some r' →
    r.results enc = r'.results enc := by
  intro h
  obtain ⟨h₁, h₂⟩ := redirectEvents_encoding
  obtain ⟨r, hr, hres⟩ := Option.map_eq_some_iff.mp h₁
  obtain ⟨r', hr', hres'⟩ := Option.map_eq_some_iff.mp h₂
  rw [h threeEncodings redirectEvents r r' hr hr', hres'] at hres
  exact absurd hres (by decide +kernel)

/-! ### Aliases of an encoding in the response -/

/-- A response whose header `Content-Type` has the charset is decoded with the encoding, if
Tcl has that. -/
def DecodedWith (charset encoding : Str) : Prop :=
  ∀ (enc : Encodings) (r : Response) (value type : Str) (content : Block UInt8),
    enc.getEncoding encoding = some encoding → r.encoding = none → r.contentCharset = none →
    r.contentTypeHeader = some value →
    parseContentType (value ++ [0]) = some (type, charset) → r.content = some content →
    r.results enc = (.value encoding, .value (enc.externalToUtf encoding content r.contentSize))

/-- A charset is turned into the encoding it is an alias of, and a response with this
charset is decoded with that encoding, if and only if it is not one of the names left as
they are. -/
theorem charsetAlias_decoded_iff {charset encoding : Str} (h : CharsetAlias charset encoding) :
    (convertCharsetToEncoding charset = encoding ∧ DecodedWith charset encoding) ↔
      charset ∉ unconverted := by
  rw [← convertCharsetToEncoding_eq_iff h]
  apply and_iff_left_of_imp
  intro hconv enc r value type content htcl he hc hheader hparse hcontent
  have hof : enc.ofHeader value = some encoding := by
    rw [Encodings.ofHeader, hparse, Option.getD_some, Encodings.ofCharset, if_neg h.ne_nil, hconv,
      htcl]
    rfl
  rw [Response.results_eq fun _ => hc, he, Option.none_or, Encodings.detected, hheader]
  simp only [hof, Option.getD_some, Transfer.results, hcontent]

theorem windows1251_alias : CharsetAlias (lit "windows-1251") (lit "cp1251") :=
  have hnumber : IsNumber (lit "1251") := ⟨by decide +kernel, by decide +kernel⟩
  CharsetAlias.windows true hnumber

theorem charsetAlias_decoded_windows1251 :
    convertCharsetToEncoding (lit "windows-1251") = lit "cp1251" ∧
      DecodedWith (lit "windows-1251") (lit "cp1251") :=
  (charsetAlias_decoded_iff windows1251_alias).mpr (by decide +kernel)

theorem shiftJis_not_converted : ¬ ∀ charset encoding : Str, CharsetAlias charset encoding →
    convertCharsetToEncoding charset = encoding ∧ DecodedWith charset encoding := by
  intro h
  exact absurd (h _ _ CharsetAlias.shiftDashJis).1 (by decide +kernel)

end Trequests
