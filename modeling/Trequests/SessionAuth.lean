import Trequests.Body
import Trequests.SessionDefaults

/-! The authentication of a request in a session. The four options are kept in one record,
which is that of the request if one of its own options is given, and that of the session
otherwise. As defaults the options of the session would apply one by one; the two differ
when a request gives some option and leaves out another that the session has. -/

namespace Trequests

/-! ### The value of `-auth_scheme` -/

/-- One word adds a bit that is not the sixth one, unless it is `any` or `anysafe`, which
stand alone. -/
theorem authStep_eq_ok {objc i : ℕ} {word : Str} {result r : BitVec 64}
    (h : authStep objc i word result = .ok r) :
    (objc = 1 ∧ (r = curlauthAny ∨ r = curlauthAnysafe)) ∨
      ∃ bit : BitVec 64, bit.getLsbD 5 = false ∧ r = result ||| bit := by
  unfold authStep at h
  split at h
  · cases h
  · split_ifs at h with hc
    cases h
    exact Or.inl ⟨by omega, Or.inl rfl⟩
  · split_ifs at h with hc
    cases h
    exact Or.inl ⟨by omega, Or.inr rfl⟩
  · split_ifs at h
    cases h
    exact Or.inr ⟨_, by decide, rfl⟩
  · rename_i o _ _ _ _
    cases h
    refine Or.inr ⟨_, ?_, rfl⟩
    cases o <;> decide

/-- No list of words stands for the mask -1, which means that there is no scheme. -/
theorem authLoop_ne_unset {objc i : ℕ} {words : List Str} {result r : BitVec 64}
    (hlen : i + words.length = objc) (hbit : result.getLsbD 5 = false)
    (h : authLoop objc i words result = .ok r) : r ≠ -1 := by
  induction words generalizing i result with
  | nil =>
    cases h
    rintro rfl
    exact absurd hbit (by decide)
  | cons word words ih =>
    simp only [authLoop] at h
    split at h
    · cases h
    · rename_i result' hstep
      rw [List.length_cons] at hlen
      rcases authStep_eq_ok hstep with ⟨hone, hany⟩ | ⟨bit, hb, rfl⟩
      · obtain rfl : words = [] := List.length_eq_zero_iff.mp (by omega)
        cases h
        rcases hany with rfl | rfl <;> decide
      · apply ih (by omega) _ h
        rw [BitVec.getLsbD_or, hbit, hb]
        rfl

theorem authScheme_ne_unset {api : Api} {method : Method} {raw : RequestOptions}
    {opt : ValidOptions} (h : validateOptions api method raw = .ok opt) :
    opt.authScheme ≠ some (-1) := by
  obtain ⟨v, scheme, aws, -, htogether⟩ := validateOptions_ok.mp h
  intro hunset
  have hparse := htogether.scheme
  rw [hunset] at hparse
  cases scheme with
  | none => cases hparse
  | some raw =>
    obtain ⟨r, hr, heq⟩ := map_eq_ok.mp hparse
    cases heq
    unfold requestAuthParseOption at hr
    split_ifs at hr
    exact authLoop_ne_unset (Nat.zero_add _) (by decide) hr rfl

/-! ### What libcurl is given -/

/-- Among the settings those of the authentication have these values. A token without a
scheme is sent as a bearer token. -/
structure AuthGiven (auth : Option (Str × Str)) (token aws : Option Str)
    (scheme : Option (BitVec 64)) (calls : List CurlCall) : Prop where
  username : ∀ v, .setopt (.username v) ∈ calls ↔ auth.map Prod.fst = some v
  password : ∀ v, .setopt (.password v) ∈ calls ↔ auth.map Prod.snd = some v
  xoauth2Bearer : ∀ v, .setopt (.xoauth2Bearer v) ∈ calls ↔ token = some v
  awsSigv4 : ∀ v, .setopt (.awsSigv4 v) ∈ calls ↔ aws = some v
  httpAuth : ∀ v, .setopt (.httpAuth v) ∈ calls ↔
    scheme.or (token.map fun _ => curlauthBearer ||| curlauthOnly) = some v

/-- Each option of the authentication is the one of the request, or else that of the
session. -/
def AuthDefaults (ses opt : ValidOptions) (calls : List CurlCall) : Prop :=
  AuthGiven (opt.auth.or ses.auth) (opt.authToken.or ses.authToken)
    (opt.authAwsSigv4.or ses.authAwsSigv4) (opt.authScheme.or ses.authScheme) calls

/-- Whatever the session has of the four options is also given on the request; a scheme that
is the one of a bearer token may be left out beside a token. -/
structure AuthRepeated (ses opt : ValidOptions) : Prop where
  auth : ses.auth.isSome = true → opt.auth.isSome = true
  token : ses.authToken.isSome = true → opt.authToken.isSome = true
  aws : ses.authAwsSigv4.isSome = true → opt.authAwsSigv4.isSome = true
  scheme : ses.authScheme.isSome = true → opt.authScheme.isSome = true ∨
    (opt.authToken.isSome = true ∧ ses.authScheme = some (curlauthBearer ||| curlauthOnly))

section Auth
variable {auth auth' : Option (Str × Str)} {token token' aws aws' : Option Str}
  {scheme scheme' : Option (BitVec 64)} {calls : List CurlCall} {ses opt : ValidOptions}
  {p : RequestParams}

theorem mem_authCalls {a : RequestAuth} (hp : p.auth = some a) {c : CurlCall} :
    c ∈ p.authCalls ↔ (∃ v, a.username = some v ∧ c = .setopt (.username v)) ∨
      (∃ v, a.password = some v ∧ c = .setopt (.password v)) ∨
      (∃ v, a.token = some v ∧ c = .setopt (.xoauth2Bearer v)) ∨
      (∃ v, a.awsSigv4 = some v ∧ c = .setopt (.awsSigv4 v)) ∨
      ∃ v, (if a.scheme ≠ -1 then some a.scheme
        else a.token.map fun _ => curlauthBearer ||| curlauthOnly) = some v ∧
        c = .setopt (.httpAuth v) := by
  have hmap : ∀ (o : Option Str) (f : Str → CurlCall), c ∈ o.toList.map f ↔ ∃ v, o = some v ∧ c = f v := by
    intro o f
    simp [eq_comm]
  have hlast : (c ∈ if a.scheme ≠ -1 then [CurlCall.setopt (.httpAuth a.scheme)]
      else if a.token.isSome then [.setopt (.httpAuth (curlauthBearer ||| curlauthOnly))] else []) ↔
      ∃ v, (if a.scheme ≠ -1 then some a.scheme
        else a.token.map fun _ => curlauthBearer ||| curlauthOnly) = some v ∧
        c = .setopt (.httpAuth v) := by
    by_cases hs : a.scheme ≠ -1
    · rw [if_pos hs, if_pos hs]
      simp
    · rw [if_neg hs, if_neg hs]
      cases a.token <;> simp
  unfold RequestParams.authCalls
  rw [hp]
  simp only [List.mem_append, hmap, hlast, or_assoc]

/-- The settings made of a record of options are those of its options. -/
theorem authGiven_requestAuth (hs : opt.authScheme ≠ some (-1)) (hp : p.auth = opt.requestAuth) :
    AuthGiven opt.auth opt.authToken opt.authAwsSigv4 opt.authScheme p.authCalls := by
  rw [ValidOptions.requestAuth] at hp
  split_ifs at hp with hgiven
  · have hscheme : (if opt.authScheme.getD (-1) ≠ -1 then some (opt.authScheme.getD (-1))
        else opt.authToken.map fun _ => curlauthBearer ||| curlauthOnly) =
        opt.authScheme.or (opt.authToken.map fun _ => curlauthBearer ||| curlauthOnly) := by
      cases hsch : opt.authScheme with
      | none => rw [Option.getD_none, if_neg fun hne => hne rfl, Option.none_or]
      | some w =>
        have hw : w ≠ -1 := fun he => hs (he ▸ hsch)
        rw [Option.getD_some, if_pos hw, Option.some_or]
    constructor <;> intro v <;> rw [mem_authCalls hp]
    case httpAuth => simp only [hscheme]; simp
    all_goals simp
  · have hcalls : p.authCalls = [] := by
      unfold RequestParams.authCalls
      rw [hp]
    simp only [not_or, Bool.not_eq_true, Option.isSome_eq_false_iff, Option.isNone_iff_eq_none] at hgiven
    obtain ⟨hscheme, htoken, hauth, haws⟩ := hgiven
    constructor <;> intro v <;> simp [hcalls, hscheme, htoken, hauth, haws]

/-- The settings determine what is given. -/
theorem AuthGiven.unique (h : AuthGiven auth token aws scheme calls) :
    AuthGiven auth' token' aws' scheme' calls ↔ auth = auth' ∧ token = token' ∧ aws = aws' ∧
      scheme.or (token.map fun _ => curlauthBearer ||| curlauthOnly) =
        scheme'.or (token'.map fun _ => curlauthBearer ||| curlauthOnly) := by
  constructor
  · intro h'
    refine ⟨?_, ?_, ?_, ?_⟩
    · have huser : auth.map Prod.fst = auth'.map Prod.fst :=
        Option.ext fun v => (h.username v).symm.trans (h'.username v)
      have hpass : auth.map Prod.snd = auth'.map Prod.snd :=
        Option.ext fun v => (h.password v).symm.trans (h'.password v)
      cases auth <;> cases auth' <;> simp_all [Prod.ext_iff]
    · exact Option.ext fun v => (h.xoauth2Bearer v).symm.trans (h'.xoauth2Bearer v)
    · exact Option.ext fun v => (h.awsSigv4 v).symm.trans (h'.awsSigv4 v)
    · exact Option.ext fun v => (h.httpAuth v).symm.trans (h'.httpAuth v)
  · rintro ⟨rfl, rfl, rfl, heq⟩
    exact ⟨h.username, h.password, h.xoauth2Bearer, h.awsSigv4, fun v => heq ▸ h.httpAuth v⟩

theorem requestAuth_eq_none_iff : opt.requestAuth = none ↔ opt.authScheme = none ∧
    opt.authToken = none ∧ opt.auth = none ∧ opt.authAwsSigv4 = none := by
  unfold ValidOptions.requestAuth
  split_ifs with h
  · simp only [false_iff]
    rintro ⟨hscheme, htoken, hauth, haws⟩
    simp [hscheme, htoken, hauth, haws] at h
  · simpa only [not_or, Bool.not_eq_true, Option.isSome_eq_false_iff, Option.isNone_iff_eq_none,
      true_iff] using h

/-- An option is its own default exactly if there is another only where it is given. -/
theorem eq_or_iff {α : Type} {own other : Option α} :
    own = own.or other ↔ (other.isSome = true → own.isSome = true) := by
  cases own with
  | none => cases other <;> simp
  | some v => simp

theorem scheme_eq_or_iff {own other : Option (BitVec 64)} {token : Option Str} {bearer : BitVec 64} :
    own.or (token.map fun _ => bearer) = (own.or other).or (token.map fun _ => bearer) ↔
      (other.isSome = true → own.isSome = true ∨ (token.isSome = true ∧ other = some bearer)) := by
  cases own with
  | some v => simp
  | none =>
    cases other with
    | none => simp
    | some w => cases token <;> simp [eq_comm]

/-- The options of a session are defaults for a request one by one, if the request gives
none of them, or each that the session has. -/
theorem authDefaults_authCalls_iff (hopt : opt.authScheme ≠ some (-1))
    (hses : ses.authScheme ≠ some (-1)) (hp : p.auth = opt.requestAuth.or ses.requestAuth) :
    AuthDefaults ses opt p.authCalls ↔ opt.requestAuth = none ∨ AuthRepeated ses opt := by
  by_cases hnone : opt.requestAuth = none
  · obtain ⟨hscheme, htoken, hauth, haws⟩ := requestAuth_eq_none_iff.mp hnone
    rw [hnone, Option.none_or] at hp
    simpa [AuthDefaults, hnone, hscheme, htoken, hauth, haws] using authGiven_requestAuth hses hp
  · obtain ⟨a, ha⟩ := Option.ne_none_iff_exists'.mp hnone
    have hown := authGiven_requestAuth hopt (p := p) (by rw [hp, ha, Option.some_or])
    rw [AuthDefaults, hown.unique, or_iff_right hnone, eq_or_iff, eq_or_iff, eq_or_iff]
    constructor
    · rintro ⟨hauth, htoken, haws, hscheme⟩
      refine ⟨hauth, htoken, haws, ?_⟩
      rw [← eq_or_iff.mpr htoken] at hscheme
      exact scheme_eq_or_iff.mp hscheme
    · rintro ⟨hauth, htoken, haws, hscheme⟩
      refine ⟨hauth, htoken, haws, ?_⟩
      rw [← eq_or_iff.mpr htoken]
      exact scheme_eq_or_iff.mpr hscheme

end Auth

namespace Machine

section Runs
variable {api : Api} {env : CurlEnv} {m m' : Machine} {i : SesId} {objv : List Str}
  {call : CreateCall} {ses opt : ValidOptions}

theorem CreatesInSession.auth (h : CreatesInSession api env m i call opt m')
    (hm : HasSession api m i objv) (hses : sessionOptions api objv = .ok ses) :
    AuthDefaults ses opt (m'.lib.request m.lib.nextRequest).authCalls ↔
      opt.requestAuth = none ∨ AuthRepeated ses opt := by
  obtain ⟨ses', hses', hinherited⟩ := hm.inherited
  cases hses.symm.trans hses'
  have hparams := h.given.1
  rw [hinherited] at hparams
  obtain ⟨raw, -, hraw⟩ := bind_eq_ok.mp hses
  obtain ⟨raw', -, hraw'⟩ := bind_eq_ok.mp h.options
  apply authDefaults_authCalls_iff (authScheme_ne_unset hraw') (authScheme_ne_unset hraw)
  rw [hparams]
  rfl

/-- For a request created by a verb of a session, the options of authentication of the
session apply as defaults one by one, if and only if the request gives none of the four or
repeats each that the session has. Its easy handle has the settings of the authentication
that its parameters ask for, in so far as libcurl refuses nothing. -/
theorem authDefaults_iff_of_session (hm : HasSession api m i objv)
    (hses : sessionOptions api objv = .ok ses) (h : CreatesInSession api env m i call opt m') :
    let q := m'.lib.request m.lib.nextRequest
    (AuthDefaults ses opt q.authCalls ↔ opt.requestAuth = none ∨ AuthRepeated ses opt) ∧
      ofKind .auth q.curlEasy <+: q.authCalls ∧
      ((requestSetup env q.toRequestParams).2 = none → ofKind .auth q.curlEasy = q.authCalls) := by
  intro q
  have hsettings : q.curlEasy =
      initCalls ++ sessionCalls i ++ (requestSetup env q.toRequestParams).1 := by
    rw [show q.toRequestParams = _ from h.given.1]
    exact h.given.2
  have hcreation : ofKind .auth (initCalls ++ sessionCalls i) = [] := rfl
  obtain ⟨lines, hpre, hall⟩ := requestSetup_prefix env q.toRequestParams
  rw [hsettings, ofKind_append, hcreation, List.nil_append]
  refine ⟨h.auth hm hses, ?_, fun hn => ?_⟩
  · rw [← RequestParams.ofKind_auth q.toRequestParams lines]
    exact hpre.filter _
  · rw [hall hn, RequestParams.ofKind_auth]

end Runs

/-- `::trequests::session -auth {u p}` -/
def authSession : List Str := [lit "session", lit "-auth", lit "u p"]

/-- `http://localhost -async -auth_token t` -/
def tokenGet : List Str := [lit "http://localhost", lit "-async", lit "-auth_token", lit "t"]

/-- The request gives a token, and not the user of the session. -/
theorem tokenGet_created : ∃ m m' ses opt, HasSession Api.plain m 0 authSession ∧
    sessionOptions Api.plain authSession = .ok ses ∧
    CreatesInSession Api.plain .willing m 0 ⟨.get, none, tokenGet⟩ opt m' ∧
    ¬ (opt.requestAuth = none ∨ AuthRepeated ses opt) := by
  obtain ⟨ses, hses, hs⟩ := exists_ok_of_any (show
    (sessionOptions Api.plain authSession).toOption.any (fun ses => ses.auth.isSome) = true by
    decide +kernel)
  obtain ⟨opt, hopt, ho⟩ := exists_ok_of_any (show (requestOptions Api.plain .get
    tokenGet).toOption.any (fun opt => opt.auth = none ∧ opt.requestAuth ≠ none) = true by
    decide +kernel)
  obtain ⟨hauth, hsome⟩ := of_decide_eq_true ho
  obtain ⟨m', hm'⟩ := Option.isSome_iff_exists.mp (show (Run.exec (step Api.plain)
    (init.next Api.plain (.sessionCmd 0 authSession true))
    [.sessionHandle 0 (lit "s") (lit "get" :: tokenGet) .willing]).isSome = true by decide +kernel)
  refine ⟨_, m', ses, opt, hasSession_init hses, hses,
    ⟨rfl, hopt, lit "s", lit "get" :: tokenGet, [], rfl, hm'⟩, ?_⟩
  rintro (hnone | hrepeated)
  · exact hsome hnone
  · have := hrepeated.auth hs
    rw [hauth] at this
    cases this

theorem authDefaults_iff_of_session_tokenGet : ∃ m m' ses opt,
    HasSession Api.plain m 0 authSession ∧
    CreatesInSession Api.plain .willing m 0 ⟨.get, none, tokenGet⟩ opt m' ∧
    ¬ AuthDefaults ses opt (m'.lib.request m.lib.nextRequest).authCalls := by
  obtain ⟨m, m', ses, opt, hm, hses, h, hnot⟩ := tokenGet_created
  exact ⟨m, m', ses, opt, hm, h,
    fun hdefaults => hnot ((authDefaults_iff_of_session hm hses h).1.mp hdefaults)⟩

theorem tokenGet_not_default : ¬ ∀ (api : Api) (env : CurlEnv) (m m' : Machine) (i : SesId)
    (objv : List Str) (call : CreateCall) (ses opt : ValidOptions), HasSession api m i objv →
    sessionOptions api objv = .ok ses → CreatesInSession api env m i call opt m' →
    AuthDefaults ses opt (m'.lib.request m.lib.nextRequest).authCalls := by
  intro hall
  obtain ⟨m, m', ses, opt, hm, hses, h, hnot⟩ := tokenGet_created
  exact hnot ((h.auth hm hses).mp (hall _ _ _ _ _ _ _ _ _ hm hses h))

end Machine

end Trequests
