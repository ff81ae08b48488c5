import Trequests.Options

/-! What it takes for a record of options to be valid. The validators of the single options
and the checks that look at several of them run one after the other and stop at the first
error; here a valid record is described by what each of them has found. -/

namespace Trequests

theorem map_eq_ok {ε α β : Type*} {x : Except ε α} {f : α → β} {b : β} :
    x.map f = .ok b ↔ ∃ a, x = .ok a ∧ f a = b := by
  cases x <;> simp [Except.map]

/-! ### One option -/

/-- An option that is not given has no value, and one without its argument is refused. -/
theorem validateOptionCommon_bind {α : Type} {name : Str} {missing : IsMissing}
    {f : Except Str (Option α)} {v : Option α} :
    ((validateOptionCommon name missing).bind fun found => if found then f else .ok none) = .ok v ↔
      (missing = .given ∧ f = .ok v) ∨ (missing = .notGiven ∧ v = none) := by
  cases missing with
  | given => simp [validateOptionCommon, Except.bind]
  | noArgument => simp [validateOptionCommon, Except.bind]
  | notGiven => simp [validateOptionCommon, Except.bind, eq_comm]

section Single
variable {api : Api} {tcl : Tcl} {name : Str} {o : OptionObject} {ol : OptionList}

theorem validateOptionBoolean_ok {v : ℤ} (h : validateOptionBoolean tcl name o = .ok (some v)) :
    v = 0 ∨ v = 1 := by
  rcases validateOptionCommon_bind.mp h with ⟨-, h⟩ | ⟨-, h⟩
  · split at h
    · cases h
    · cases h
      split_ifs
      · exact Or.inr rfl
      · exact Or.inl rfl
  · cases h

theorem validateOptionObjectList_ok {allowEmpty : Bool} {v : Option Str} :
    validateOptionObjectList tcl name o allowEmpty = .ok v ↔
      (o.isMissing = .given ∧
        ((∃ obj objv, tcl.listElements o.value = .ok (obj :: objv) ∧ v = some o.value) ∨
          tcl.listElements o.value = .ok [] ∧ allowEmpty = true ∧ v = none)) ∨
      (o.isMissing = .notGiven ∧ v = none) := by
  refine validateOptionCommon_bind.trans (or_congr_left (and_congr_right fun _ => ?_))
  cases tcl.listElements o.value with
  | error e => simp [throw, throwThe, MonadExceptOf.throw]
  | ok objv =>
    cases objv with
    | nil =>
      cases allowEmpty with
      | true => simp [pure, Except.pure, eq_comm]
      | false => simp [throw, throwThe, MonadExceptOf.throw]
    | cons obj objv => simp [pure, Except.pure, eq_comm]

theorem validateOptionData_ok {kind : DataKind} {v : Option Str} :
    validateOptionData api kind ol = .ok v ↔
      (ol.isMissing = .given ∧ (kind.isTyped = true → ol.value.length = 1) ∧
        ∃ value, dataLoop api kind ol.value none = .ok value ∧ v = some (value.getD [])) ∨
      (ol.isMissing = .notGiven ∧ v = none) := by
  refine validateOptionCommon_bind.trans (or_congr_left (and_congr_right fun _ => ?_))
  by_cases htyped : kind.isTyped = true ∧ ol.value.length ≠ 1
  · simp [htyped, bind, Except.bind, throw, throwThe, MonadExceptOf.throw]
  · have hlen : kind.isTyped = true → ol.value.length = 1 := fun h =>
      Decidable.not_not.mp fun hn => htyped ⟨h, hn⟩
    simp only [if_neg htyped, bind, Except.bind, pure, Except.pure]
    cases dataLoop api kind ol.value none with
    | error e => simp
    | ok value =>
      constructor
      · intro h
        exact ⟨hlen, value, rfl, (Except.ok.inj h).symm⟩
      · rintro ⟨-, _, h, rfl⟩
        cases h
        rfl

end Single

/-! ### The record -/

/-- Every option has been found valid on its own. -/
structure EachValid (api : Api) (opt : RequestOptions) (v : ValidOptions)
    (scheme aws : Option Str) : Prop where
  headers : validateOptionListOfDicts api.toTcl (lit "-headers") opt.headers = .ok v.headers
  form : validateOptionListOfDicts api.toTcl (lit "-form") opt.form = .ok v.form
  callback : validateOptionObjectList api.toTcl (lit "-callback") opt.callback true = .ok v.callback
  callbackDebug :
    validateOptionObjectList api.toTcl (lit "-callback_debug") opt.callbackDebug true =
      .ok v.callbackDebug
  authScheme : validateOptionObjectList api.toTcl (lit "-auth_scheme") opt.authScheme false =
    .ok scheme
  authToken : validateOptionObject (lit "-auth_token") opt.authToken = .ok v.authToken
  auth : validateOptionAuth api.toTcl (lit "-auth") opt.auth = .ok v.auth
  authAwsSigv4 : validateOptionObjectList api.toTcl (lit "-auth_aws_sigv4") opt.authAwsSigv4 false =
    .ok aws
  accept : validateOptionObject (lit "-accept") opt.accept = .ok v.accept
  contentType : validateOptionObject (lit "-content_type") opt.contentType = .ok v.contentType
  data : validateOptionData api (dataKind (lit "-data") false false false) opt.data = .ok v.data
  dataUrlencode :
    validateOptionData api (dataKind (lit "-data_urlencode") true false false) opt.dataUrlencode =
      .ok v.dataUrlencode
  dataFields :
    validateOptionData api (dataKind (lit "-data_fields") false true false) opt.dataFields =
      .ok v.dataFields
  dataFieldsUrlencode :
    validateOptionData api (dataKind (lit "-data_fields_urlencode") true true false)
        opt.dataFieldsUrlencode =
      .ok v.dataFieldsUrlencode
  json : validateOptionData api (dataKind (lit "-json") false false true) opt.json = .ok v.json
  params : validateOptionData api (dataKind (lit "-params") true true false) opt.params =
    .ok v.params
  paramsRaw :
    validateOptionData api (dataKind (lit "-params_raw") false false false) opt.paramsRaw =
      .ok v.paramsRaw
  verify : validateOptionBoolean api.toTcl (lit "-verify") opt.verify = .ok v.verify
  verifyHost : validateOptionBoolean api.toTcl (lit "-verify_host") opt.verifyHost =
    .ok v.verifyHost
  verifyPeer : validateOptionBoolean api.toTcl (lit "-verify_peer") opt.verifyPeer =
    .ok v.verifyPeer
  verifyStatus : validateOptionBoolean api.toTcl (lit "-verify_status") opt.verifyStatus =
    .ok v.verifyStatus
  verbose : validateOptionBoolean api.toTcl (lit "-verbose") opt.verbose = .ok v.verbose
  allowRedirects : validateOptionBoolean api.toTcl (lit "-allow_redirects") opt.allowRedirects =
    .ok v.allowRedirects
  noScheme : v.authScheme = none
  noAws : v.authAwsSigv4 = none
  async : v.async = opt.async
  simple : v.simple = opt.simple
  timeout : v.timeout = opt.timeout
  timeoutConnect : v.timeoutConnect = opt.timeoutConnect

/-- The checks of several options have found nothing. -/
structure TogetherValid (api : Api) (method : Method) (v : ValidOptions) (scheme aws : Option Str)
    (opt : ValidOptions) : Prop where
  body : validateBody method v.bodySources = .ok ()
  params : validateParams v = .ok ()
  scheme : parseWords api.toTcl requestAuthParseOption scheme = .ok opt.authScheme
  aws : parseWords api.toTcl validateAwsSigv4 aws = .ok opt.authAwsSigv4
  async : validateAsync v = .ok ()
  timeout : validateTimeout (lit "-timeout") v.timeout = .ok ()
  timeoutConnect : validateTimeout (lit "-timeout_connect") v.timeoutConnect = .ok ()
  eq : opt = { v with authScheme := opt.authScheme, authAwsSigv4 := opt.authAwsSigv4 }

section Record
variable {api : Api} {method : Method} {opt : RequestOptions} {v : ValidOptions}
  {scheme aws : Option Str}

theorem validateEach_ok : validateEach api opt = .ok (v, scheme, aws) ↔
    EachValid api opt v scheme aws := by
  constructor
  · intro h
    simp only [validateEach, bind, bind_eq_ok] at h
    obtain ⟨_, headers, _, form, _, callback, _, callbackDebug, _, authScheme, _, authToken, _,
      auth, _, authAwsSigv4, _, accept, _, contentType, _, data, _, dataUrlencode, _, dataFields, _,
      dataFieldsUrlencode, _, json, _, params, _, paramsRaw, _, verify, _, verifyHost, _,
      verifyPeer, _, verifyStatus, _, verbose, _, allowRedirects, h⟩ := h
    cases h
    exact ⟨headers, form, callback, callbackDebug, authScheme, authToken, auth, authAwsSigv4,
      accept, contentType, data, dataUrlencode, dataFields, dataFieldsUrlencode, json, params,
      paramsRaw, verify, verifyHost, verifyPeer, verifyStatus, verbose, allowRedirects, rfl, rfl,
      rfl, rfl, rfl, rfl⟩
  · intro h
    simp only [validateEach, h.headers, h.form, h.callback, h.callbackDebug, h.authScheme,
      h.authToken, h.auth, h.authAwsSigv4, h.accept, h.contentType, h.data, h.dataUrlencode,
      h.dataFields, h.dataFieldsUrlencode, h.json, h.params, h.paramsRaw, h.verify, h.verifyHost,
      h.verifyPeer, h.verifyStatus, h.verbose, h.allowRedirects, bind, Except.bind, pure,
      Except.pure]
    rw [← h.noScheme, ← h.noAws, ← h.async, ← h.simple, ← h.timeout, ← h.timeoutConnect]

theorem validateTogether_ok {opt : ValidOptions} :
    validateTogether api method v scheme aws = .ok opt ↔
      TogetherValid api method v scheme aws opt := by
  constructor
  · intro h
    simp only [validateTogether, bind, bind_eq_ok] at h
    obtain ⟨_, hbody, _, hparams, s, hs, a, ha, _, hasync, _, ht, _, hc, h⟩ := h
    cases h
    exact ⟨hbody, hparams, hs, ha, hasync, ht, hc, rfl⟩
  · rintro ⟨hbody, hparams, hs, ha, hasync, ht, hc, heq⟩
    simp only [validateTogether, hbody, hparams, hs, ha, hasync, ht, hc, bind, Except.bind, pure,
      Except.pure]
    rw [← heq]

/-- A record is accepted when every option is valid on its own and all of them together. -/
theorem validateOptions_ok {valid : ValidOptions} : validateOptions api method opt = .ok valid ↔
    ∃ v scheme aws, EachValid api opt v scheme aws ∧
      TogetherValid api method v scheme aws valid := by
  rw [validateOptions, bind_eq_ok]
  constructor
  · rintro ⟨⟨v, scheme, aws⟩, h, h'⟩
    exact ⟨v, scheme, aws, validateEach_ok.mp h, validateTogether_ok.mp h'⟩
  · rintro ⟨v, scheme, aws, h, h'⟩
    exact ⟨(v, scheme, aws), validateEach_ok.mpr h, validateTogether_ok.mpr h'⟩

end Record

end Trequests
