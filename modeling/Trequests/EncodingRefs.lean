import Trequests.Base.Run
import Trequests.Response

/-! The references to Tcl encodings. `Tcl_GetEncoding` counts a reference that the caller
owes a `Tcl_FreeEncoding`; the getters acquire references at four places, and keep one in
the request or drop it. The getters are those of the response, with the count beside them. -/

namespace Trequests

/-- A computation that counts the references acquired and not yet released. -/
abbrev Refs := StateM ℕ

/-- `Tcl_GetEncoding` -/
def Encodings.acquire (enc : Encodings) (name : Str) : Refs (Option Str) := fun refs =>
  (enc.getEncoding name, if (enc.getEncoding name).isSome then refs + 1 else refs)

/-- `treq_RequestUpdateEncoding` behind its first test. -/
def Encodings.acquireCharset (enc : Encodings) (charset : Str) : Refs (Option Str) := do
  if charset = [] then enc.acquire (lit "iso8859-1")
  else
    let encoding ← enc.acquire (convertCharsetToEncoding charset)
    if encoding.isSome then return encoding else enc.acquire (lit "iso8859-1")

namespace Response
variable (enc : Encodings) (r : Response)

/-- `treq_RequestUpdateEncoding` -/
def updateEncodingRefs : Refs (Response × Bool) := do
  let update := match r.contentCharset with
    | some _ => (r, true)
    | none => r.requestUpdateContentType enc
  if update.2 then
    let encoding ← enc.acquireCharset (update.1.contentCharset.getD [])
    return ({ update.1 with encoding }, true)
  else return update

/-- `treq_RequestGetEncoding` -/
def getEncodingRefs : Refs (Response × Str) := do
  match r.encoding with
  | some encoding => return (r, encoding)
  | none =>
    let update ← r.updateEncodingRefs enc
    return (update.1, if update.2 then update.1.encoding.getD [] else lit "iso8859-1")

/-- `treq_RequestGetText`; the encoding that is used for want of another is not kept. -/
def getTextRefs : Refs (Response × Str) := do
  match r.content with
  | none => return (r, [])
  | some content =>
    match r.encoding with
    | some encoding => return (r, enc.externalToUtf encoding content r.contentSize)
    | none =>
      let update ← r.updateEncodingRefs enc
      let encoding ← if update.2 then pure update.1.encoding else enc.acquire (lit "iso8859-1")
      return (update.1, enc.externalToUtf (encoding.getD []) content r.contentSize)

/-- `treq_RequestHandleCmd` for the commands of the response. `treq_RequestSetEncoding`
overwrites the field. -/
def handleCmdRefs : HandleCall → Refs (Response × HandleResult)
  | .encoding (some name) => do
    let encoding ← enc.acquire name
    if encoding.isSome then
      let get ← { r with encoding }.getEncodingRefs enc
      return (get.1, .value get.2)
    else return (r, .unknownEncoding name)
  | .encoding none => do
    let get ← r.getEncodingRefs enc
    return (get.1, .value get.2)
  | .text => do
    let get ← r.getTextRefs enc
    return (get.1, .value get.2)
  | .headers => return (r, .list r.requestGetHeaders)
  | .error => return (r, .value r.requestGetError)

end Response

/-! ### Requests and references -/

/-- The requests in the order of their creation, `none` for a destroyed one, and the
references acquired and not yet released. -/
structure EncodingState where
  requests : List (Option Response)
  refs : ℕ

inductive EncodingEvent where
  | create
  | transfer (id : ℕ) (event : TransferEvent)
  | call (id : ℕ) (call : HandleCall)
  | destroy (id : ℕ)

namespace EncodingState

def init : EncodingState := ⟨[], 0⟩

def live (s : EncodingState) (id : ℕ) : Option Response := s.requests[id]?.getD none

/-- The live requests whose encoding is set. -/
def held (s : EncodingState) : ℕ := s.requests.countP fun r => r.any fun r => r.encoding.isSome

/-- One event; `treq_RequestFree` lets go of the request without a look at its encoding. -/
def step (enc : Encodings) (s : EncodingState) : EncodingEvent → Option EncodingState
  | .create => some { s with requests := s.requests ++ [some Response.init] }
  | .transfer id event => (s.live id).bind fun r => (r.toTransfer.step event).map fun t =>
    { s with requests := s.requests.set id (some { r with toTransfer := t }) }
  | .call id call => (s.live id).map fun r =>
    let done := r.handleCmdRefs enc call s.refs
    ⟨s.requests.set id (some done.1.1), done.2⟩
  | .destroy id => (s.live id).map fun _ => { s with requests := s.requests.set id none }

end EncodingState

/-! ### What a call acquires -/

/-- What a request owes: one reference if its encoding is set. -/
def Response.owes (r : Response) : ℕ := if r.encoding.isSome then 1 else 0

/-- The calls that acquire a reference and lose one: a name for a request that has an
encoding, and a text that no charset is known for. -/
def HandleCall.Leaks (enc : Encodings) (r : Response) : HandleCall → Prop
  | .encoding (some name) => r.encoding.isSome ∧ (enc.getEncoding name).isSome
  | .text => r.content.isSome ∧ r.encoding = none ∧ r.contentCharset = none ∧
      r.contentTypeHeader = none
  | .encoding none | .headers | .error => False

instance (enc : Encodings) (r : Response) : DecidablePred (HandleCall.Leaks enc r)
  | .encoding (some _) => inferInstanceAs (Decidable (_ ∧ _))
  | .text => inferInstanceAs (Decidable (_ ∧ _))
  | .encoding none | .headers | .error => inferInstanceAs (Decidable False)

section Calls
variable {enc : Encodings}

theorem refs_bind {α β : Type} (p : Refs α) (f : α → Refs β) (refs : ℕ) :
    (p >>= f) refs = f (p refs).1 (p refs).2 := rfl

theorem refs_pure {α : Type} (a : α) (refs : ℕ) : (pure a : Refs α) refs = (a, refs) := rfl

theorem acquire_some {name encoding : Str} (h : enc.getEncoding name = some encoding) (refs : ℕ) :
    enc.acquire name refs = (some encoding, refs + 1) := by
  simp [Encodings.acquire, h]

theorem acquire_none {name : Str} (h : enc.getEncoding name = none) (refs : ℕ) :
    enc.acquire name refs = (none, refs) := by
  simp [Encodings.acquire, h]

/-- The encoding for a charset comes with one reference. -/
theorem acquireCharset_eq (charset : Str) (refs : ℕ) :
    enc.acquireCharset charset refs = (enc.ofCharset charset, refs + 1) := by
  have hdefault := acquire_some enc.iso8859_1 refs
  unfold Encodings.acquireCharset Encodings.ofCharset
  by_cases hnil : charset = []
  · rw [if_pos hnil, if_pos hnil, hdefault, enc.iso8859_1]
  · rw [if_neg hnil, if_neg hnil, refs_bind]
    cases hconv : enc.getEncoding (convertCharsetToEncoding charset) with
    | none =>
      rw [acquire_none hconv]
      exact hdefault.trans (by rw [enc.iso8859_1]; rfl)
    | some encoding =>
      rw [acquire_some hconv]
      rfl

namespace Response
variable {r : Response}

theorem owes_of_isSome (h : r.encoding.isSome = true) : r.owes = 1 := if_pos h

theorem owes_of_none (h : r.encoding = none) : r.owes = 0 := by
  rw [owes, h]
  rfl

/-- The update finds no charset, and changes nothing, or it sets the encoding. -/
theorem requestUpdateEncoding_cases (enc : Encodings) (r : Response) :
    (r.requestUpdateEncoding enc = (r, false) ∧ r.contentCharset = none ∧
        r.contentTypeHeader = none) ∨
      ((r.requestUpdateEncoding enc).2 = true ∧
        (r.requestUpdateEncoding enc).1.encoding.isSome = true ∧
        ¬ (r.contentCharset = none ∧ r.contentTypeHeader = none)) := by
  unfold requestUpdateEncoding requestUpdateContentType
  cases hcharset : r.contentCharset with
  | some charset => exact Or.inr ⟨rfl, enc.ofCharset_isSome _, by simp⟩
  | none =>
    cases hheader : r.contentTypeHeader with
    | none => exact Or.inl ⟨rfl, rfl, rfl⟩
    | some value => exact Or.inr ⟨rfl, enc.ofCharset_isSome _, by simp⟩

theorem updateEncodingRefs_eq (r : Response) (refs : ℕ) : r.updateEncodingRefs enc refs =
    (r.requestUpdateEncoding enc, if (r.requestUpdateEncoding enc).2 then refs + 1 else refs) := by
  unfold updateEncodingRefs requestUpdateEncoding
  cases r.contentCharset with
  | some charset => simp [refs_bind, acquireCharset_eq, refs_pure]
  | none =>
    generalize r.requestUpdateContentType enc = update
    obtain ⟨r', known⟩ := update
    cases known <;> simp [refs_bind, acquireCharset_eq, refs_pure]

/-- The reference that is acquired is kept in the request. -/
theorem getEncodingRefs_eq (enc : Encodings) (r : Response) (refs : ℕ) :
    (r.getEncodingRefs enc refs).1 = r.requestGetEncoding enc ∧
      (r.getEncodingRefs enc refs).2 + r.owes = refs + (r.requestGetEncoding enc).1.owes := by
  unfold getEncodingRefs requestGetEncoding
  cases he : r.encoding with
  | some encoding => exact ⟨rfl, rfl⟩
  | none =>
    simp only
    rw [refs_bind, updateEncodingRefs_eq, refs_pure, owes_of_none he]
    refine ⟨rfl, ?_⟩
    rcases requestUpdateEncoding_cases enc r with ⟨hsame, -⟩ | ⟨hknown, hset, -⟩
    · rw [hsame]
      exact congrArg (refs + ·) (owes_of_none he).symm
    · rw [hknown, owes_of_isSome hset]
      rfl

/-- So it is for a text, unless no charset is known. -/
theorem getTextRefs_eq (enc : Encodings) (r : Response) (refs : ℕ) :
    (r.getTextRefs enc refs).1 = r.requestGetText enc ∧
      (r.getTextRefs enc refs).2 + r.owes = refs + (r.requestGetText enc).1.owes +
        if HandleCall.text.Leaks enc r then 1 else 0 := by
  unfold getTextRefs requestGetText
  cases hc : r.content with
  | none => exact ⟨rfl, by simp [HandleCall.Leaks, hc, refs_pure]⟩
  | some content =>
    cases he : r.encoding with
    | some encoding => exact ⟨rfl, by simp [HandleCall.Leaks, he, refs_pure]⟩
    | none =>
      simp only
      rw [refs_bind, updateEncodingRefs_eq, owes_of_none he]
      rcases requestUpdateEncoding_cases enc r with ⟨hsame, hcharset, hheader⟩ | ⟨hknown, hset, hnot⟩
      · have hleak : HandleCall.text.Leaks enc r := ⟨by rw [hc]; rfl, he, hcharset, hheader⟩
        rw [hsame, if_pos hleak]
        simp only [Bool.false_eq_true, if_false, refs_bind, refs_pure, acquire_some enc.iso8859_1,
          enc.iso8859_1, owes_of_none he, and_self]
      · have hleak : ¬ HandleCall.text.Leaks enc r := fun hl => hnot hl.2.2
        rw [if_neg hleak]
        simp only [hknown, if_true, refs_bind, refs_pure, owes_of_isSome hset, Nat.add_zero, and_self]

/-- What a call acquires is kept in the request or leaks. -/
theorem handleCmdRefs_eq (enc : Encodings) (r : Response) (call : HandleCall) (refs : ℕ) :
    (r.handleCmdRefs enc call refs).1 = r.requestHandleCmd enc call ∧
      (r.handleCmdRefs enc call refs).2 + r.owes = refs + (r.requestHandleCmd enc call).1.owes +
        if call.Leaks enc r then 1 else 0 := by
  have hvalue : ∀ {get get' : Response × Str}, get = get' →
      (get.1, HandleResult.value get.2) = (get'.1, .value get'.2) := fun h => h ▸ rfl
  cases call with
  | encoding name =>
    cases name with
    | none =>
      obtain ⟨hget, hrefs⟩ := getEncodingRefs_eq enc r refs
      exact ⟨hvalue hget, hrefs⟩
    | some name =>
      cases hname : enc.getEncoding name with
      | none =>
        have hrefs : r.handleCmdRefs enc (.encoding (some name)) refs =
            ((r, .unknownEncoding name), refs) := by
          simp [handleCmdRefs, refs_bind, refs_pure, acquire_none hname]
        have hpure : r.requestHandleCmd enc (.encoding (some name)) =
            (r, .unknownEncoding name) := by simp [requestHandleCmd, hname]
        have hleak : ¬ (HandleCall.encoding (some name)).Leaks enc r := fun hl => by
          rw [HandleCall.Leaks, hname] at hl
          cases hl.2
        rw [hrefs, hpure, if_neg hleak]
        exact ⟨rfl, rfl⟩
      | some encoding =>
        have hrefs : r.handleCmdRefs enc (.encoding (some name)) refs =
            (({ r with encoding := some encoding }, .value encoding), refs + 1) := by
          simp [handleCmdRefs, refs_bind, refs_pure, acquire_some hname, getEncodingRefs]
        have hpure : r.requestHandleCmd enc (.encoding (some name)) =
            ({ r with encoding := some encoding }, .value encoding) := by
          simp [requestHandleCmd, hname, requestGetEncoding]
        -- the encoding that the request had is lost
        have hleak : (HandleCall.encoding (some name)).Leaks enc r ↔ r.encoding.isSome = true := by
          simp [HandleCall.Leaks, hname]
        rw [hrefs, hpure, if_congr hleak rfl rfl]
        exact ⟨rfl, rfl⟩
  | text =>
    obtain ⟨hget, hrefs⟩ := getTextRefs_eq enc r refs
    exact ⟨hvalue hget, hrefs⟩
  | headers | error => exact ⟨rfl, rfl⟩

end Response

end Calls

/-! ### Runs -/

namespace EncodingState
variable {enc : Encodings} {s t : EncodingState}

/-- The events that lose a reference: the calls that leak, and the end of a request with an
encoding. -/
def Leaks (enc : Encodings) (s : EncodingState) : EncodingEvent → Prop
  | .create | .transfer .. => False
  | .call id call => ∃ r ∈ s.live id, call.Leaks enc r
  | .destroy id => ∃ r ∈ s.live id, r.encoding.isSome = true

instance (enc : Encodings) (s : EncodingState) : DecidablePred (Leaks enc s)
  | .create | .transfer .. => inferInstanceAs (Decidable False)
  | .call id call => inferInstanceAs (Decidable (∃ r ∈ s.live id, call.Leaks enc r))
  | .destroy id => inferInstanceAs (Decidable (∃ r ∈ s.live id, r.encoding.isSome = true))

/-- An entry of the list is replaced. -/
theorem held_set {id : ℕ} {r : Response} (h : s.live id = some r) (o : Option Response)
    (refs : ℕ) : (⟨s.requests.set id o, refs⟩ : EncodingState).held + r.owes =
      s.held + if o.any fun r => r.encoding.isSome then 1 else 0 := by
  have hget : s.requests[id]? = some (some r) := by
    unfold live at h
    cases hid : s.requests[id]? with
    | none =>
      rw [hid] at h
      cases h
    | some o =>
      rw [hid] at h
      exact congrArg some h
  obtain ⟨hlt, hr⟩ := List.getElem?_eq_some_iff.mp hget
  have hset := List.countP_set (p := fun r : Option Response => r.any fun r => r.encoding.isSome)
    (a := o) hlt
  have hle := List.boole_getElem_le_countP
    (p := fun r : Option Response => r.any fun r => r.encoding.isSome) hlt
  rw [hr] at hset hle
  have howes : r.owes = if (some r).any fun r => r.encoding.isSome then 1 else 0 := rfl
  unfold held
  rw [hset, howes]
  omega

/-- One step: what is acquired is held or lost. -/
theorem refs_step {ev : EncodingEvent} (h : step enc s ev = some t) :
    t.refs + s.held = s.refs + t.held + if s.Leaks enc ev then 1 else 0 := by
  cases ev with
  | create =>
    cases h
    have : (⟨s.requests ++ [some Response.init], s.refs⟩ : EncodingState).held = s.held := by
      simp [held, Response.init]
    exact congrArg (s.refs + ·) this.symm
  | transfer id event =>
    obtain ⟨r, hr, h⟩ := Option.bind_eq_some_iff.mp h
    obtain ⟨tr, -, rfl⟩ := Option.map_eq_some_iff.mp h
    -- the transfer does not touch the encoding
    have hset := held_set hr (some { r with toTransfer := tr }) s.refs
    have howes : r.owes =
        if (some { r with toTransfer := tr }).any fun r => r.encoding.isSome then 1 else 0 := rfl
    rw [← howes] at hset
    have hleak : ¬ s.Leaks enc (.transfer id event) := fun hl => hl
    rw [if_neg hleak]
    change s.refs + s.held = s.refs + held ⟨_, s.refs⟩ + 0
    omega
  | call id call =>
    obtain ⟨r, hr, rfl⟩ := Option.map_eq_some_iff.mp h
    obtain ⟨hpure, hrefs⟩ := Response.handleCmdRefs_eq enc r call s.refs
    have hset := held_set hr (some (r.handleCmdRefs enc call s.refs).1.1)
      (r.handleCmdRefs enc call s.refs).2
    have hleak : s.Leaks enc (.call id call) ↔ call.Leaks enc r := by simp [Leaks, hr]
    have howes : (r.requestHandleCmd enc call).1.owes =
        if (some (r.handleCmdRefs enc call s.refs).1.1).any fun r => r.encoding.isSome then 1
        else 0 := by
      rw [hpure]
      rfl
    rw [← howes] at hset
    rw [if_congr hleak rfl rfl]
    change (r.handleCmdRefs enc call s.refs).2 + s.held = s.refs + held ⟨_, _⟩ + _
    omega
  | destroy id =>
    obtain ⟨r, hr, rfl⟩ := Option.map_eq_some_iff.mp h
    have hset := held_set hr none s.refs
    have hleak : s.Leaks enc (.destroy id) ↔ r.encoding.isSome = true := by simp [Leaks, hr]
    have howes : r.owes = if s.Leaks enc (.destroy id) then 1 else 0 := if_congr hleak.symm rfl rfl
    rw [← howes]
    change s.refs + s.held = s.refs + held ⟨_, s.refs⟩ + _
    simp only [Option.any_none, Bool.false_eq_true, if_false] at hset
    omega

/-- Over a run: what is lost stays lost. -/
theorem refs_run {run : List EncodingEvent} (hle : s.held ≤ s.refs)
    (h : Run.exec (step enc) s run = some t) :
    t.held ≤ t.refs ∧
      (t.refs = t.held ↔ s.refs = s.held ∧ Run.Along (step enc) (fun s ev => ¬ s.Leaks enc ev) s run) := by
  induction run generalizing s with
  | nil =>
    cases h
    exact ⟨hle, by simp [Run.Along]⟩
  | cons ev run ih =>
    obtain ⟨u, hu, hrun⟩ := Option.bind_eq_some_iff.mp h
    have hstep := refs_step hu
    have hle' : u.held ≤ u.refs := by
      split_ifs at hstep <;> omega
    obtain ⟨hlet, hiff⟩ := ih hle' hrun
    refine ⟨hlet, hiff.trans ?_⟩
    simp only [Run.Along, hu]
    rw [← and_assoc]
    refine and_congr_left fun _ => ?_
    split_ifs at hstep with hleak
    · exact iff_of_false (by omega) fun hs => hs.2 hleak
    · refine ⟨fun hs => ⟨by omega, hleak⟩, fun hs => by omega⟩

/-- In every state of a run the references are those of the live requests with an encoding,
if and only if no step of the run loses one. -/
theorem refs_eq_held_iff (enc : Encodings) {run : List EncodingEvent}
    (h : Run.exec (step enc) init run = some t) :
    (∀ bs u, bs <+: run → Run.exec (step enc) init bs = some u → u.refs = u.held) ↔
      Run.Along (step enc) (fun s ev => ¬ s.Leaks enc ev) init run := by
  have hinit : init.held ≤ init.refs := Nat.le_refl 0
  constructor
  · intro hall
    exact ((refs_run hinit h).2.mp (hall run t (List.prefix_refl run) h)).2
  · intro hok bs u hbs hu
    exact (refs_run hinit hu).2.mpr ⟨rfl, hok.of_prefix hbs⟩

/-- A request whose encoding is taken from the header and used for its text. -/
def keptEncoding : List EncodingEvent :=
  [.create, .transfer 0 .response,
   .transfer 0 (.header (lit "Content-Type") (lit "text/html; charset=utf-8")),
   .transfer 0 (.finish .done []), .call 0 (.encoding none), .call 0 .text]

theorem keptEncoding_refs : ∃ t, Run.exec (step threeEncodings) init keptEncoding = some t ∧
    t.refs = t.held := by
  obtain ⟨t, ht⟩ := Option.isSome_iff_exists.mp
    (show (Run.exec (step threeEncodings) init keptEncoding).isSome = true by decide +kernel)
  have hok : Run.Along (step threeEncodings) (fun s ev => ¬ s.Leaks threeEncodings ev) init
      keptEncoding := by decide +kernel
  exact ⟨t, ht, (refs_eq_held_iff threeEncodings ht).mpr hok _ t (List.prefix_refl _) ht⟩

theorem not_refs_eq_held : ¬ ∀ (enc : Encodings) (run : List EncodingEvent) (t : EncodingState),
    Run.exec (step enc) init run = some t → t.refs = t.held := by
  intro h
  have hlost : (Run.exec (step threeEncodings) init
      [.create, .call 0 (.encoding (some (lit "utf-8"))), .destroy 0]).all
        (fun t => t.refs = t.held) = false := by decide +kernel
  cases hrun : Run.exec (step threeEncodings) init
      [.create, .call 0 (.encoding (some (lit "utf-8"))), .destroy 0] with
  | none =>
    rw [hrun] at hlost
    cases hlost
  | some t =>
    rw [hrun] at hlost
    exact absurd (h threeEncodings _ t hrun) (of_decide_eq_false hlost)

end EncodingState

end Trequests
