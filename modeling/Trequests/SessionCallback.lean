import Trequests.SessionDefaults

/-! The callback of a session. The command that creates a session has its options checked
like those of a request; none of them makes a request async, and so a callback is refused
as one of a sync request. A session therefore has no callback its requests could inherit. -/

namespace Trequests

/-- The words are options of a session, and the value of each is valid. -/
structure SessionOptionsValid (api : Api) (objv : List Str) (raw : RequestOptions)
    (v : ValidOptions) (scheme aws : Option Str) : Prop where
  parsed : parseArgsObjv api.toTcl sessionArgTable objv {} = .ok raw
  each : EachValid api raw v scheme aws
  scheme : ∃ s, parseWords api.toTcl requestAuthParseOption scheme = .ok s
  aws : ∃ a, parseWords api.toTcl validateAwsSigv4 aws = .ok a
  timeout : validateTimeout (lit "-timeout") v.timeout = .ok ()
  timeoutConnect : validateTimeout (lit "-timeout_connect") v.timeoutConnect = .ok ()

/-- The callback option is not given, or its value is an empty list. -/
def NoCallback (api : Api) (o : OptionObject) : Prop :=
  o.isMissing = .notGiven ∨ api.listElements o.value = .ok []

/-! ### Options a session does not have -/

/-- The options that only requests have are not given. -/
def NoRequestOptions (o : RequestOptions) : Prop :=
  ([o.form, o.data, o.dataUrlencode, o.dataFields, o.dataFieldsUrlencode, o.json, o.params,
    o.paramsRaw] = List.replicate 8 {}) ∧ o.async = false

theorem sessionArgTable_keeps : ∀ info ∈ sessionArgTable, info.action.Keeps NoRequestOptions := by
  intro info hinfo
  simp only [sessionArgTable, List.mem_cons, List.not_mem_nil, or_false] at hinfo
  -- no entry of the table writes to a field that the property is about
  rcases hinfo with rfl | rfl | rfl | rfl | rfl | rfl | rfl | rfl | rfl | rfl | rfl | rfl | rfl | rfl |
    rfl | rfl | rfl <;> exact fun _ _ ho => ho

section Validation
variable {api : Api} {objv : List Str} {raw : RequestOptions} {v : ValidOptions}
  {scheme aws : Option Str}

theorem SessionOptionsValid.noRequestOptions (h : SessionOptionsValid api objv raw v scheme aws) :
    NoRequestOptions raw :=
  parseArgs_keeps sessionArgTable_keeps h.parsed ⟨rfl, rfl⟩

/-- No body, no query and no switch is given to a session. -/
theorem SessionOptionsValid.unset (h : SessionOptionsValid api objv raw v scheme aws) :
    v.bodySources = [] ∧ v.params = none ∧ v.async = false := by
  obtain ⟨hraw, hasync⟩ := h.noRequestOptions
  simp only [List.replicate, List.cons.injEq, and_true] at hraw
  obtain ⟨hform, hdata, hdataUrlencode, hdataFields, hdataFieldsUrlencode, hjson, hparams, -⟩ := hraw
  have hnone : ∀ {kind o value}, validateOptionData api kind o = .ok value → o = {} →
      value = none := by
    rintro kind o value hv rfl
    exact (Except.ok.inj (show Except.ok none = .ok value from hv)).symm
  have hform : v.form = none := by
    have hv := h.each.form
    rw [hform] at hv
    exact (Except.ok.inj (show Except.ok none = .ok v.form from hv)).symm
  refine ⟨?_, hnone h.each.params hparams, h.each.async.trans hasync⟩
  simp [ValidOptions.bodySources, hform, hnone h.each.data hdata,
    hnone h.each.dataUrlencode hdataUrlencode, hnone h.each.dataFields hdataFields,
    hnone h.each.dataFieldsUrlencode hdataFieldsUrlencode, hnone h.each.json hjson]

theorem SessionOptionsValid.callback_eq_none_iff (h : SessionOptionsValid api objv raw v scheme aws) :
    v.callback = none ↔ NoCallback api raw.callback := by
  unfold NoCallback
  rcases validateOptionObjectList_ok.mp h.each.callback with
    ⟨hgiven, ⟨obj, objv, hlist, hv⟩ | ⟨hlist, -, hv⟩⟩ | ⟨hnot, hv⟩
  · simp [hv, hgiven, hlist]
  · simp [hv, hlist]
  · simp [hv, hnot]

theorem SessionOptionsValid.sessionOptions_eq_ok (h : SessionOptionsValid api objv raw v scheme aws)
    {ses : ValidOptions} : sessionOptions api objv = .ok ses ↔
      TogetherValid api .custom v scheme aws ses := by
  rw [sessionOptions, h.parsed]
  change validateOptions api .custom raw = .ok ses ↔ _
  rw [validateOptions, validateEach_ok.mpr h.each]
  exact validateTogether_ok

/-- A session with valid options is accepted if and only if it has no callback. -/
theorem SessionOptionsValid.accepted_iff (h : SessionOptionsValid api objv raw v scheme aws) :
    (∃ ses, sessionOptions api objv = .ok ses) ↔ v.callback = none := by
  obtain ⟨hbody, hparams, hasync⟩ := h.unset
  constructor
  · rintro ⟨ses, hses⟩
    have hv := (h.sessionOptions_eq_ok.mp hses).async
    simpa [validateAsync, hasync] using hv
  · intro hcallback
    obtain ⟨s, hs⟩ := h.scheme
    obtain ⟨a, ha⟩ := h.aws
    refine ⟨{ v with authScheme := s, authAwsSigv4 := a }, h.sessionOptions_eq_ok.mpr ?_⟩
    exact
      { body := by rw [hbody]; rfl
        params := by simp [validateParams, hparams]
        scheme := hs
        aws := ha
        async := by simp [validateAsync, hasync, hcallback]
        timeout := h.timeout
        timeoutConnect := h.timeoutConnect
        eq := rfl }

end Validation

/-! ### The callback as a default -/

namespace Machine

/-- The session is created, unless there is no memory for it, and its callback is the one
of every async request that is created by its verbs without a callback of its own; its sync
requests are created, without a callback. -/
structure CallbackIsDefault (api : Api) (objv : List Str) (callback : Option Str) : Prop where
  created : ∀ (l : Lib) (interp : InterpId),
    ∃ l', l.sessionCmd api interp objv true = .ok (l', l.nextSession)
  async : ∀ m i env call opt m', HasSession api m i objv →
    CreatesInSession api env m i call opt m' → opt.async = true → opt.callback = none →
    (m'.lib.request m.lib.nextRequest).callback = callback
  sync : ∀ m i env call opt m', HasSession api m i objv →
    CreatesInSession api env m i call opt m' → opt.async = false →
    (m'.lib.request m.lib.nextRequest).callback = none ∧
      ∃ l r simple performing, m.lib.createNewRequest api env (m.lib.session i).interp call (some i) =
        .created l r simple performing

section
variable {api : Api} {objv : List Str} {raw : RequestOptions} {v : ValidOptions}
  {scheme aws : Option Str}

/-- The callback of a session with valid options is the default of its requests if and only
if there is none. -/
theorem callbackIsDefault_iff (h : SessionOptionsValid api objv raw v scheme aws) :
    CallbackIsDefault api objv v.callback ↔ NoCallback api raw.callback := by
  rw [← h.callback_eq_none_iff, ← h.accepted_iff]
  constructor
  · intro hdefault
    obtain ⟨l, hl⟩ := hdefault.created Lib.init 0
    obtain ⟨-, -, ses, hses, -⟩ := Lib.keeps_sessionCmd hl
    exact ⟨ses, hses⟩
  · rintro ⟨ses, hses⟩
    have hcallback : ses.callback = v.callback := by
      rw [(h.sessionOptions_eq_ok.mp hses).eq]
    -- what a request of the session is given, from its own options and those of the session
    have hgiven : ∀ {m i env call opt m'}, HasSession api m i objv →
        CreatesInSession api env m i call opt m' →
        (m'.lib.request m.lib.nextRequest).callback =
          if opt.async then opt.callback.or v.callback else none := by
      intro m i env call opt m' hm hcreates
      obtain ⟨ses', hses', hinherited⟩ := hm.inherited
      cases hses.symm.trans hses'
      have hparams := hcreates.given.1
      rw [hinherited] at hparams
      rw [hparams, ← hcallback]
      rfl
    refine ⟨?_, ?_, ?_⟩
    · intro l interp
      simp [Lib.sessionCmd, hses]
    · intro m i env call opt m' hm hcreates hasync hown
      rw [hgiven hm hcreates, hasync, hown]
      rfl
    · intro m i env call opt m' hm hcreates hasync
      refine ⟨?_, ?_⟩
      · rw [hgiven hm hcreates, hasync]
        rfl
      · exact Lib.createNewRequest_of_creates ⟨hcreates.easyInit, opt, hcreates.options⟩ _ _ _

end

/-- `::trequests::session -callback foo` -/
def callbackSession : List Str := [lit "session", lit "-callback", lit "foo"]

def callbackOptions : RequestOptions := { callback := ⟨.given, lit "foo"⟩ }

theorem callbackSession_valid : ∃ v,
    SessionOptionsValid Api.plain callbackSession callbackOptions v none none := by
  obtain ⟨⟨v, scheme, aws⟩, hv, hp⟩ := exists_ok_of_any
    (show (validateEach Api.plain callbackOptions).toOption.any (fun r =>
      r.2 = (none, none) ∧ r.1.timeout = -1 ∧ r.1.timeoutConnect = -1) = true by decide +kernel)
  obtain ⟨hnone, ht, hc⟩ := of_decide_eq_true hp
  cases hnone
  refine ⟨v, ?_, validateEach_ok.mp hv, ⟨none, rfl⟩, ⟨none, rfl⟩, ?_, ?_⟩
  · obtain ⟨raw, hraw, heq⟩ := exists_ok_of_any (show (parseArgsObjv Api.plain.toTcl sessionArgTable
      callbackSession {}).toOption.any (fun raw => raw = callbackOptions) = true by decide +kernel)
    rw [hraw, of_decide_eq_true heq]
  · rw [ht]
    rfl
  · rw [hc]
    rfl

theorem callbackIsDefault_iff_callbackSession : ∃ v,
    SessionOptionsValid Api.plain callbackSession callbackOptions v none none ∧
      ¬ CallbackIsDefault Api.plain callbackSession v.callback := by
  obtain ⟨v, h⟩ := callbackSession_valid
  exact ⟨v, h, fun hdefault => absurd ((callbackIsDefault_iff h).mp hdefault) (by
    unfold NoCallback
    decide +kernel)⟩

theorem callbackSession_not_default : ¬ ∀ (api : Api) (objv : List Str) (raw : RequestOptions)
    (v : ValidOptions) (scheme aws : Option Str), SessionOptionsValid api objv raw v scheme aws →
    CallbackIsDefault api objv v.callback := by
  intro hall
  obtain ⟨v, h⟩ := callbackSession_valid
  obtain ⟨l, hl⟩ := (hall _ _ _ _ _ _ h).created Lib.init 0
  obtain ⟨-, -, ses, hses, -⟩ := Lib.keeps_sessionCmd hl
  have hrefused : (sessionOptions Api.plain callbackSession).toOption.isSome = false := by
    decide +kernel
  rw [hses] at hrefused
  cases hrefused

end Machine

end Trequests
