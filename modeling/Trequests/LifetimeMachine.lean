import Trequests.Lifetime
import Trequests.Runs

/-! The lifetimes along the runs of the machine. They are in order as long as no script
inside a callback releases a request that is at work further down the stack, or leaves
a new request at the front of the list of a session that is being released. -/

namespace Trequests

/-! ### The procedures on the view of the lifetimes -/

namespace Lib
variable (l : Lib) (r : ReqId) (i : SesId)

theorem lifeView_setCommand (tok : CmdToken) (status : CmdStatus) :
    (l.setCommand tok status).lifeView = l.lifeView.setCommand tok status := rfl

/-- A change of one request, as far as its lifetime is concerned. -/
theorem lifeView_update (f : Request → Request) : (l.modifyRequest r f).lifeView =
    { l.lifeView with
      session := Function.update l.lifeView.session r (f (l.request r)).session
      cmdToken := Function.update l.lifeView.cmdToken r (f (l.request r)).cmdToken
      isDead := Function.update l.lifeView.isDead r (f (l.request r)).isDead
      interp := Function.update l.lifeView.interp r (f (l.request r)).interp } := by
  have h₁ := field_modifyRequest l r Request.session f
  have h₂ := field_modifyRequest l r Request.cmdToken f
  have h₃ := field_modifyRequest l r Request.isDead f
  have h₄ := field_modifyRequest l r Request.interp f
  simp only [lifeView, h₁, h₂, h₃, h₄]
  rfl

/-- A change of the list of one session. -/
theorem lifeView_requests (f : List ReqId → List ReqId) :
    (l.modifySession i fun s => { s with requests := f s.requests }).lifeView =
      { l.lifeView with
        requests := Function.update l.lifeView.requests i (f (l.lifeView.requests i)) } := by
  have h₁ := Function.comp_update Session.requests l.session i
    { l.session i with requests := f (l.session i).requests }
  have h₂ := Function.comp_update Session.interp l.session i
    { l.session i with requests := f (l.session i).requests }
  have h₃ : (fun j => ((l.modifySession i fun s => { s with requests := f s.requests }).session j).interp) =
      fun j => (l.session j).interp := h₂.trans (Function.update_eq_self i fun j => (l.session j).interp)
  have h₄ : (fun j => ((l.modifySession i fun s => { s with requests := f s.requests }).session j).requests) =
      Function.update (fun j => (l.session j).requests) i (f (l.session i).requests) := h₁
  simp only [lifeView, h₃, h₄]
  rfl

theorem lifeView_clearSession : (l.clearSession r).lifeView = l.lifeView.clearSession r := by
  rw [clearSession, lifeView_update]
  simp [LifeView.clearSession, lifeView]

theorem lifeView_clearCmdToken : (l.clearCmdToken r).lifeView = l.lifeView.clearCmdToken r := by
  rw [clearCmdToken, lifeView_update]
  simp [LifeView.clearCmdToken, lifeView]

theorem lifeView_createHandle : (l.createHandle r).lifeView = l.lifeView.createHandle r := by
  rw [createHandle, lifeView_setCommand, lifeView_update]
  simp [LifeView.createHandle, LifeView.setCommand, lifeView]

theorem lifeView_dropRequest : (l.dropRequest i).lifeView = l.lifeView.dropRequest i :=
  l.lifeView_requests i List.tail

theorem lifeView_sessionRemoveRequest :
    (l.sessionRemoveRequest r).lifeView = l.lifeView.sessionRemove r := by
  unfold sessionRemoveRequest LifeView.sessionRemove
  have hs : l.lifeView.session r = (l.request r).session := rfl
  rw [hs]
  cases (l.request r).session with
  | none => rfl
  | some i =>
    simp only [linkedListRemoveByItem_eq_erase]
    rw [lifeView_requests _ i fun rs => rs.erase r, lifeView_update]
    simp [lifeView]

theorem lifeView_requestFreeStart :
    (l.requestFreeStart r).lifeView = l.lifeView.sessionRemove r := by
  simp [requestFreeStart, lifeView_sessionRemoveRequest]

/-- A request that is being released is in no pool any more. -/
theorem owner_requestFreeStart : (l.requestFreeStart r).poolView.owner =
    Function.update l.poolView.owner r none := by
  have hv : ((l.detachCallbackEvent r).sessionRemoveRequest r).poolView = l.poolView := by simp
  rw [requestFreeStart, poolView_poolRemoveRequest, hv]
  cases ho : l.poolView.owner r with
  | none => exact (Function.update_eq_self_iff.mpr ho.symm).symm
  | some p => rfl

theorem owner_requestFreeStart_le {x : ReqId} {p : PoolId}
    (h : (l.requestFreeStart r).poolView.owner x = some p) : l.poolView.owner x = some p := by
  rw [owner_requestFreeStart] at h
  by_cases hx : x = r
  · simp [hx] at h
  · simpa [hx] using h

theorem lifeView_requestFreeFinish_of_noToken (h : (l.request r).cmdToken = false) :
    (l.requestFreeFinish r).lifeView = l.lifeView.free r := by
  have : l.requestFreeCommand r = l := by simp [requestFreeCommand, h]
  rw [requestFreeFinish, this]
  rfl

theorem lifeView_requestFreeFinish_of_token (h : (l.request r).cmdToken = true)
    (ha : l.command (.request r) = .alive) :
    (l.requestFreeFinish r).lifeView = l.lifeView.freeWithCommand r := by
  have hc : l.requestFreeCommand r =
      (l.modifyRequest r fun q => { q with isDead := true }).setCommand (.request r) .deleted := by
    have ha' : (l.modifyRequest r fun q => { q with isDead := true }).command (.request r) = .alive := ha
    simp [requestFreeCommand, h, deleteCommand, ha']
  have hv : (l.requestFreeCommand r).lifeView =
      { l.lifeView with
        isDead := Function.update l.lifeView.isDead r true
        command := Function.update l.lifeView.command (.request r) .deleted } := by
    rw [hc, lifeView_setCommand, lifeView_update]
    simp [LifeView.setCommand, lifeView]
  have hf : (l.requestFreeFinish r).lifeView =
      { (l.requestFreeCommand r).lifeView with freed := Function.update l.freed r (l.freed r + 1) } :=
    rfl
  rw [hf, hv]
  rfl

/-- What the end of a release leaves alone. -/
theorem lifeView_requestFreeFinish :
    (l.requestFreeFinish r).lifeView.session = l.lifeView.session ∧
      (l.requestFreeFinish r).lifeView.requests = l.lifeView.requests ∧
      (l.requestFreeFinish r).lifeView.freed =
        Function.update l.lifeView.freed r (l.lifeView.freed r + 1) ∧
      (l.requestFreeFinish r).lifeView.sessionFreed = l.lifeView.sessionFreed ∧
      ∀ i, (l.requestFreeFinish r).lifeView.command (.session i) = l.lifeView.command (.session i) := by
  have hdead := l.lifeView_update r fun q => { q with isDead := true }
  have hsession : (l.modifyRequest r fun q => { q with isDead := true }).lifeView.session =
      l.lifeView.session := by
    rw [hdead]
    exact Function.update_eq_self r _
  simp only [requestFreeFinish, requestFreeCommand]
  split_ifs
  · unfold deleteCommand
    split
    · exact ⟨hsession, rfl, rfl, rfl, fun i => by simp [lifeView, setCommand, modifyRequest]⟩
    · exact ⟨hsession, rfl, rfl, rfl, fun i => by simp [lifeView, setCommand, modifyRequest]⟩
    · exact ⟨hsession, rfl, rfl, rfl, fun _ => rfl⟩
  · exact ⟨rfl, rfl, rfl, rfl, fun _ => rfl⟩

theorem lifeView_initRequest : l.initRequest.lifeView = l.lifeView.create none 0 := by
  have hu := fun {α : Type} (g : Request → α) => Function.comp_update g l.request l.nextRequest
    { Request.zero with curlEasy := initCalls }
  have h₁ := hu Request.session
  have h₂ := hu Request.cmdToken
  have h₃ := hu Request.isDead
  have h₄ := hu Request.interp
  simp only [lifeView, LifeView.create]
  congr 1

/-- What the allocation of a request and its parameters mean for the lifetimes. -/
theorem lifeView_fillRequest {env : CurlEnv} {session : Option SesId} {l' : Lib}
    (h : l.newRequest env session = some (l', r)) (params : RequestParams) (interp : InterpId) :
    (l'.fillRequest r params interp).lifeView = l.lifeView.create session interp := by
  obtain ⟨rfl, hl⟩ := newRequest_eq_some h
  have hv : l'.lifeView = l.lifeView.create session 0 := by
    rw [hl]
    cases session with
    | none => exact l.lifeView_initRequest
    | some i =>
      have hinsert : (l.initRequest.sessionInsert i l.nextRequest).lifeView =
          { l.initRequest.lifeView with
            session := Function.update l.initRequest.lifeView.session l.nextRequest (some i)
            requests := Function.update l.initRequest.lifeView.requests i
              (l.nextRequest :: l.initRequest.lifeView.requests i) } := by
        rw [sessionInsert, lifeView_requests _ i fun rs => l.nextRequest :: rs, lifeView_update]
        simp [lifeView]
      rw [Option.elim_some, hinsert, lifeView_initRequest]
      simp [LifeView.create, lifeView]
  have hs := congrFun (congrArg LifeView.session hv) l.nextRequest
  have ht := congrFun (congrArg LifeView.cmdToken hv) l.nextRequest
  have hd := congrFun (congrArg LifeView.isDead hv) l.nextRequest
  change (l'.request l.nextRequest).session = _ at hs
  change (l'.request l.nextRequest).cmdToken = _ at ht
  change (l'.request l.nextRequest).isDead = _ at hd
  rw [fillRequest, lifeView_update]
  simp only [hs, ht, hd, hv]
  cases session <;> simp [LifeView.create, lifeView]

theorem lifeView_createNewRequest {api : Api} {env : CurlEnv} {interp : InterpId}
    {call : CreateCall} {session : Option SesId} {l' : Lib} {simple performing : Bool}
    (h : l.createNewRequest api env interp call session = .created l' r simple performing) :
    r = l.nextRequest ∧ l'.lifeView = l.lifeView.create session interp := by
  obtain ⟨opt, l₁, -, -, hnew, hrun⟩ := createNewRequest_eq_created h
  refine ⟨(l.poolView_newRequest r hnew).1, ?_⟩
  rw [← show _ = l' from congrArg Prod.fst hrun, lifeView_requestRunStart]
  exact l.lifeView_fillRequest r hnew _ interp

theorem lifeView_sessionCmd {api : Api} {l' : Lib} {interp : InterpId} {objv : List Str}
    {share : Bool} (h : l.sessionCmd api interp objv share = .ok (l', i)) :
    i = l.nextSession ∧ l'.lifeView =
      { l.lifeView.setCommand (.session i) .alive with
        requests := Function.update l.lifeView.requests i []
        sesInterp := Function.update l.lifeView.sesInterp i interp
        nextSession := l.nextSession + 1 } := by
  unfold sessionCmd at h
  split at h
  · cases h
  · rename_i opt _
    split_ifs at h
    cases h
    refine ⟨rfl, ?_⟩
    have h₁ := Function.comp_update Session.requests l.session l.nextSession
      { sessionParams opt with interp, requests := [] }
    have h₂ := Function.comp_update Session.interp l.session l.nextSession
      { sessionParams opt with interp, requests := [] }
    simp only [lifeView, LifeView.setCommand]
    congr 1

end Lib

namespace Machine

/-! ### Safe steps -/

/-- A procedure is at work on the request, or a pool it is attached to is being
performed. -/
def OnStack (m : Machine) (r : ReqId) : Prop :=
  r ∈ busy m.stack ∨ ∃ p ∈ performing m.stack, r ∈ (m.lib.pool p).curlMulti.handles

instance (m : Machine) (r : ReqId) : Decidable (m.OnStack r) := inferInstanceAs (Decidable (_ ∨ _))

/-- No script destroys a request that is on the stack, or a session with such a request,
nor is `destroy` called on a handle that is being deleted. When the release of a request by
its session goes on, the request is still the first one of the session. -/
def Safe (m : Machine) : Action → Prop
  | .requestDestroy r byRename => (m.lib.command (.request r) = .alive → ¬ m.OnStack r) ∧
    (m.lib.command (.request r) = .deleting → byRename = true)
  | .sessionHandle i name args _ => sessionHandleCall name args = .ok .destroy →
    m.lib.command (.session i) = .alive → ∀ r ∈ (m.lib.session i).requests, ¬ m.OnStack r
  | .cleanupReturn => match m.stack with
    | .cleanup r (.session i) :: _ => (m.lib.session i).requests.head? = some r
    | _ => True
  | _ => True

instance (m : Machine) (a : Action) : Decidable (m.Safe a) := by
  unfold Safe
  split
  · infer_instance
  · exact inferInstanceAs (Decidable (_ → _ → _))
  · split <;> infer_instance
  · infer_instance

/-- The views of the library and the stack are in order. -/
def LifeOk (m : Machine) : Prop := LifeInv m.lib.lifeView m.lib.poolView.owner m.stack

theorem PoolInv.onStack_iff {m : Machine} (hi : m.PoolInv) (r : ReqId) :
    m.OnStack r ↔ OnFrames m.lib.poolView.owner m.stack r := by
  refine or_congr_right (exists_congr fun p => and_congr_right fun _ => ?_)
  rw [← hi.pools.mem_iff, ← (hi.pools.wellFormed p).handles]
  rfl

/-- What a safe step starts to release is in no pool that is being performed. -/
theorem removable_of_safe {m : Machine} {a : Action} (hi : m.PoolInv) (h : m.LifeOk)
    (ha : m.enabled a = true) (hs : m.Safe a) : m.Removable a := by
  intro r hr p ho
  have hoff : ¬ OnFrames m.lib.poolView.owner m.stack r → m.lib.poolView.inCallback p = false :=
    fun hn => hi.inCallback_of_notMem fun hp => hn (Or.inr ⟨p, hp, ho⟩)
  have hses : ∀ {i}, m.sessionReleases i = some r →
      (m.lib.command (.session i) = .alive → ∀ x ∈ (m.lib.session i).requests, ¬ m.OnStack x) →
      m.lib.poolView.inCallback p = false := by
    intro i hrel hidle
    unfold sessionReleases at hrel
    split_ifs at hrel with halive
    refine hoff fun hon => hidle halive r (List.mem_of_head? hrel) ((hi.onStack_iff r).mpr hon)
  cases a with
  | requestDestroy x byRename =>
    simp only [releases] at hr
    split_ifs at hr with halive
    cases hr
    exact hoff fun hon => hs.1 halive ((hi.onStack_iff r).mpr hon)
  | sessionHandle i name args env =>
    simp only [releases] at hr
    split at hr
    · rename_i hcall
      exact hses hr (hs hcall)
    · cases hr
  | interpDeleteCommand tok =>
    obtain ⟨j, hstack, -⟩ := enabled_interpDeleteCommand ha
    exact hi.inCallback_of_notMem (by simp [hstack])
  | cleanupReturn =>
    simp only [releases] at hr
    split at hr
    · rename_i x i stack hstack
      have hrel := LifeInv.releases h
      rw [hstack] at hrel
      apply hi.inCallback_of_notMem
      intro hp
      rw [hstack, performing_cleanup] at hp
      exact hrel.1 r (List.mem_of_mem_tail (List.mem_of_head? hr)) (Or.inr ⟨p, hp, ho⟩)
    · cases hr
  | _ => cases hr

/-! ### The procedures that can wait -/

namespace LifeOk
variable {m : Machine} (h : m.LifeOk)
include h

theorem nextSession_of_command {i : SesId} (hi : m.lib.command (.session i) ≠ .absent) :
    i < m.lib.nextSession := by
  by_contra hn
  exact hi (h.fresh_session i (Nat.le_of_not_lt hn)).2

theorem setLib_of_eq {l : Lib} (hv : l.lifeView = m.lib.lifeView)
    (ho : l.poolView = m.lib.poolView) : (m.setLib l).LifeOk := by
  simpa only [LifeOk, setLib, hv, ho] using h

/-- A status of a session's command; how often sessions were released does not matter. -/
theorem setSessionCommand {l : Lib} {i : SesId} {status : CmdStatus} {freed : SesId → ℕ}
    (hlt : i < m.lib.nextSession)
    (hv : l.lifeView =
      { m.lib.lifeView.setCommand (.session i) status with sessionFreed := freed })
    (ho : l.poolView = m.lib.poolView) : (m.setLib l).LifeOk := by
  have : LifeInv l.lifeView m.lib.poolView.owner m.stack := by
    rw [hv]
    refine h.congr_view rfl rfl rfl rfl rfl rfl (fun r => ?_) (Nat.le_refl _) fun j hj => ?_
    · simp [LifeView.setCommand]
    · have hne : j ≠ i := fun he => Nat.not_le_of_lt hlt (he ▸ hj)
      simpa [LifeView.setCommand, hne] using (h.fresh_session j hj).2
  simpa only [LifeOk, setLib, ho] using this

/-- A change of the pools. -/
theorem setLib_of_evolves (hi : m.PoolInv) {l : Lib} (hv : l.lifeView = m.lib.lifeView)
    (he : m.lib.poolView.Evolves m.lib.nextRequest l.poolView) : (m.setLib l).LifeOk := by
  unfold LifeOk setLib
  rw [hv]
  refine h.congr_owner (fun r p ho => (he.owner r p ho).imp_right fun hc hp => ?_)
    fun r hlt _ ho => he.owner_none hlt ho
  have := (hi.callback p).mpr hp
  rw [hc.2] at this
  cases this

/-- A frame that is not at work on a request comes or goes. -/
theorem push {f : Frame} (hf : f.busy = none) (hcrash : f ≠ .crash) :
    LifeOk { m with stack := f :: m.stack } where
  busy_nodup := by
    rw [busy, List.filterMap_cons_none hf]
    exact h.busy_nodup
  frames g hg := by
    rcases List.mem_cons.mp hg with rfl | hg
    · cases g <;> trivial
    · exact h.frames g hg
  idle r hr hfree hb := h.idle r hr hfree fun hb' => hb <| by
    rw [busy, List.filterMap_cons_none hf]
    exact hb'
  gone := h.gone
  fresh := h.fresh
  mem_iff i r := by
    rw [h.mem_iff, List.mem_cons]
    refine or_congr_right ⟨Or.inr, fun hm => hm.resolve_left ?_⟩
    rintro rfl
    cases hf
  nodup := h.nodup
  fresh_session := h.fresh_session
  releases := by
    have := h.releases
    cases f with
    | cleanup x c => cases hf
    | _ => exact this

theorem pop {f : Frame} {stack : List Frame} (hs : m.stack = f :: stack) (hf : f.busy = none) :
    LifeOk { m with stack := stack } := by
  have hb : busy m.stack = busy stack := by rw [hs, busy, List.filterMap_cons_none hf]; rfl
  have hsub : ∀ g ∈ stack, g ∈ m.stack := fun g hg => hs ▸ List.mem_cons_of_mem f hg
  exact
    { busy_nodup := hb ▸ h.busy_nodup
      frames := fun g hg => h.frames g (hsub g hg)
      idle := fun r hr hfree hn => h.idle r hr hfree (hb ▸ hn)
      gone := h.gone
      fresh := h.fresh
      mem_iff := fun i r => by
        rw [h.mem_iff, hs, List.mem_cons]
        refine or_congr_right ⟨fun hm => hm.resolve_left ?_, Or.inr⟩
        rintro rfl
        cases hf
      nodup := h.nodup
      fresh_session := h.fresh_session
      releases := by
        have := h.releases
        rw [hs] at this
        cases f with
        | cleanup x c => cases hf
        | _ => exact this }

theorem sessionFreeLoop {i : SesId} (hlt : i < m.lib.nextSession)
    (hidle : ∀ x ∈ (m.lib.session i).requests, ¬ OnFrames m.lib.poolView.owner m.stack x) :
    (m.sessionFreeLoop i).LifeOk := by
  unfold Machine.sessionFreeLoop
  split
  · exact h.setSessionCommand hlt rfl rfl
  · rename_i r rs hrs
    have hmem : r ∈ m.lib.lifeView.requests i := by
      change r ∈ (m.lib.session i).requests
      rw [hrs]; exact List.mem_cons_self
    have hv : ((m.lib.clearSession r).requestFreeStart r).lifeView = m.lib.lifeView.clearSession r := by
      rw [Lib.lifeView_requestFreeStart, Lib.lifeView_clearSession]
      simp [LifeView.sessionRemove, LifeView.clearSession]
    unfold Machine.requestFree LifeOk setLib
    rw [hv]
    refine h.release_session hmem hidle (fun x p hx => ?_) ?_
    · simpa using (m.lib.clearSession r).owner_requestFreeStart_le r hx
    · rw [Lib.owner_requestFreeStart]; simp

theorem deleteSessionCommand {i : SesId}
    (hidle : m.lib.command (.session i) = .alive →
      ∀ x ∈ (m.lib.session i).requests, ¬ OnFrames m.lib.poolView.owner m.stack x) :
    (m.deleteSessionCommand i).LifeOk := by
  unfold Machine.deleteSessionCommand
  split
  · rename_i halive
    have hlt : i < m.lib.nextSession := h.nextSession_of_command (by rw [halive]; simp)
    have h₁ : (m.setLib (m.lib.setCommand (.session i) .deleting)).LifeOk :=
      h.setSessionCommand hlt rfl rfl
    exact h₁.sessionFreeLoop hlt (hidle halive)
  · unfold Lib.deleteCommand
    split
    · rename_i hc _ hc'
      exact absurd hc' hc
    · rename_i hc
      exact h.setSessionCommand (h.nextSession_of_command (by rw [hc]; simp)) rfl rfl
    · exact h

theorem deleteRequestCommand {r : ReqId}
    (hidle : m.lib.command (.request r) = .alive →
      ¬ OnFrames m.lib.poolView.owner m.stack r) : (m.deleteRequestCommand r).LifeOk := by
  unfold Machine.deleteRequestCommand
  split
  · rename_i halive
    obtain ⟨-, -, -, hdead, -⟩ := h.of_alive halive
    rw [if_neg (by rw [show (m.lib.request r).isDead = false from hdead]; simp)]
    unfold Machine.requestFree LifeOk setLib
    rw [Lib.lifeView_requestFreeStart, Lib.lifeView_clearCmdToken, Lib.lifeView_setCommand]
    refine h.release_command halive (fun hb => hidle halive (Or.inl hb)) (fun x p hx => ?_) ?_
    · simpa using Lib.owner_requestFreeStart_le _ r hx
    · rw [Lib.owner_requestFreeStart]; simp
  · unfold Lib.deleteCommand
    split
    · rename_i hc _ hc'
      exact absurd hc' hc
    · rename_i hc
      exact LifeInv.unlink h hc
    · exact h

omit h in
theorem createFinish {r : ReqId} {simple s w : Bool}
    (h : LifeInv m.lib.lifeView m.lib.poolView.owner (.run r s w :: m.stack)) :
    (m.createFinish r simple).LifeOk := by
  unfold Machine.createFinish
  split_ifs
  · unfold Machine.requestFree LifeOk
    rw [Lib.lifeView_requestFreeStart]
    apply h.release_simple (fun x p hx => Lib.owner_requestFreeStart_le _ r hx)
    rw [Lib.owner_requestFreeStart]; simp
  · unfold LifeOk
    rw [Lib.lifeView_createHandle, Lib.poolView_createHandle]
    exact h.createHandle

theorem createNewRequest (hi : m.PoolInv) {api : Api} {env : CurlEnv} {interp : InterpId}
    {call : CreateCall} {session : Option SesId}
    (hs : ∀ i, session = some i → i < m.lib.nextSession) :
    (m.createNewRequest api env interp call session).LifeOk := by
  have hcreate : ∀ {l r simple performing}, m.lib.createNewRequest api env interp call session =
      .created l r simple performing →
      LifeInv l.lifeView l.poolView.owner (.run r simple false :: m.stack) := by
    intro l r simple performing hc
    obtain ⟨he, -, -⟩ := Lib.createNewRequest_pools hi.pools hc
    obtain ⟨hr, hv⟩ := m.lib.lifeView_createNewRequest r hc
    have hcr := h.create hs interp simple false
    rw [hv, hr]
    refine hcr.congr_owner (fun x p ho => ?_) fun x hx hbusy ho => ?_
    · rcases he.owner x p ho with ho | ⟨-, hc⟩
      · by_cases hx : x = m.lib.lifeView.nextRequest
        · have := hi.pools.lt p x ho
          exact absurd hx (Nat.ne_of_lt this)
        · exact Or.inl (by simpa [hx] using ho)
      · apply Or.inr
        intro hp
        rw [performing_run] at hp
        rw [(hi.callback p).mpr hp] at hc
        cases hc
    · -- the new request is neither being released nor released
      have hx' : x ≠ m.lib.lifeView.nextRequest := by
        rintro rfl
        rcases hbusy with ⟨caller, hm⟩ | hfree
        · rcases List.mem_cons.mp hm with hm | hm
          · cases hm
          · exact Nat.lt_irrefl _ (h.lt_of_busy (mem_busy.mpr ⟨_, hm, rfl⟩))
        · exact hfree (h.fresh _ (Nat.le_refl _)).1
      have hlt : x < m.lib.nextRequest := Nat.lt_of_le_of_ne (Nat.le_of_lt_succ hx) hx'
      exact he.owner_none hlt (by simpa [hx'] using ho)
  unfold Machine.createNewRequest
  split
  · exact h
  · rename_i hc
    exact hcreate hc
  · rename_i hc
    exact createFinish (m := m.setLib _) (hcreate hc)

omit h in
theorem cleanupFinish {r : ReqId} {caller : Caller}
    (h : LifeInv m.lib.lifeView m.lib.poolView.owner (.cleanup r caller :: m.stack))
    (hhead : ∀ i, caller = .session i → (m.lib.session i).requests.head? = some r) :
    (m.cleanupFinish r caller).LifeOk := by
  obtain ⟨-, -, -, -, hc⟩ := h.frames _ List.mem_cons_self
  unfold Machine.cleanupFinish
  cases caller with
  | command =>
    have hv := m.lib.lifeView_requestFreeFinish_of_noToken r hc.2
    unfold LifeOk setLib
    rw [Lib.lifeView_setCommand, hv, Lib.poolView_setCommand, Lib.poolView_requestFreeFinish]
    exact h.free (by simp) .deleted (Or.inr rfl)
  | simple =>
    have hv := m.lib.lifeView_requestFreeFinish_of_noToken r hc.2
    have hsame : (m.lib.lifeView.free r).setCommand (.request r) .absent = m.lib.lifeView.free r := by
      have : Function.update m.lib.lifeView.command (.request r) .absent = m.lib.lifeView.command :=
        Function.update_eq_self_iff.mpr hc.1.symm
      simp only [LifeView.setCommand, LifeView.free, this]
    unfold LifeOk setLib
    rw [hv, Lib.poolView_requestFreeFinish, ← hsame]
    exact h.free (by simp) .absent (Or.inl rfl)
  | session i =>
    have hv := m.lib.lifeView_requestFreeFinish_of_token r hc.2.1 hc.1
    have h₁ : (m.setLib ((m.lib.requestFreeFinish r).dropRequest i)).LifeOk := by
      unfold LifeOk setLib
      rw [Lib.lifeView_dropRequest, hv, Lib.poolView_dropRequest, Lib.poolView_requestFreeFinish]
      exact h.freeWithCommand (hhead i rfl)
    have hreq : (((m.lib.requestFreeFinish r).dropRequest i).session i).requests =
        (m.lib.session i).requests.tail := by simp [Lib.dropRequest, Lib.modifySession]
    have hnext : ((m.lib.requestFreeFinish r).dropRequest i).nextSession = m.lib.nextSession :=
      congrArg LifeView.nextSession hv
    refine h₁.sessionFreeLoop ?_ fun x hx => ?_
    · apply Nat.lt_of_not_le
      intro hn
      rw [show (m.setLib ((m.lib.requestFreeFinish r).dropRequest i)).lib.nextSession = _
        from hnext] at hn
      have hnil : (m.lib.session i).requests = [] := (h.fresh_session i hn).1
      have := hhead i rfl
      rw [hnil] at this
      cases this
    · rw [show ((m.setLib ((m.lib.requestFreeFinish r).dropRequest i)).lib.session i).requests = _
        from hreq] at hx
      simpa [setLib] using h.releases.1 x (List.mem_of_mem_tail hx)

/-- A safe `destroy` finds the token of the request. -/
theorem cmdToken_of_safe {r : ReqId} (ha : m.enabled (.requestDestroy r false) = true)
    (hs : m.Safe (.requestDestroy r false)) : (m.lib.request r).cmdToken = true := by
  simp only [enabled, Bool.and_eq_true, commandFound, Bool.decide_or, Bool.or_eq_true,
    decide_eq_true_eq] at ha
  rcases ha.1.2 with halive | hdeleting
  · exact (h.of_alive halive).2.2.1
  · cases hs.2 hdeleting

theorem next {api : Api} {a : Action} (hi : m.PoolInv) (ha : m.enabled a = true)
    (hs : m.Safe a) : (m.next api a).LifeOk := by
  have hidle : ∀ {i}, (m.lib.command (.session i) = .alive →
      ∀ x ∈ (m.lib.session i).requests, ¬ m.OnStack x) → m.lib.command (.session i) = .alive →
      ∀ x ∈ (m.lib.session i).requests, ¬ OnFrames m.lib.poolView.owner m.stack x :=
    fun hx halive x hm hon => hx halive x hm ((hi.onStack_iff x).mpr hon)
  cases a with
  | sessionCmd interp objv share =>
    simp only [Machine.next]
    split
    · exact h
    · rename_i l i hl
      obtain ⟨rfl, hv⟩ := m.lib.lifeView_sessionCmd _ hl
      have hnil := (h.fresh_session m.lib.nextSession (Nat.le_refl _)).1
      unfold LifeOk
      rw [hv, Lib.poolView_sessionCmd hl]
      refine h.congr_view rfl rfl rfl rfl rfl ?_ (fun r => by simp [LifeView.setCommand])
        (Nat.le_succ _) fun j hj => ?_
      · exact Function.update_eq_self_iff.mpr hnil.symm
      · have hne : j ≠ m.lib.nextSession := Nat.ne_of_gt hj
        simpa [LifeView.setCommand, hne] using (h.fresh_session j (Nat.le_of_succ_le hj)).2
  | requestCmd interp name clientData args env =>
    simp only [Machine.next]
    split
    · exact h
    · exact h.createNewRequest hi (by simp)
  | sessionHandle i name args env =>
    simp only [enabled, Bool.and_eq_true] at ha
    have hlt : i < m.lib.nextSession := h.nextSession_of_command fun hc => by
      have hf := ha.1.2
      simp [commandFound, hc] at hf
    simp only [Machine.next]
    split
    · exact h
    · rename_i hcall
      exact deleteSessionCommand (m := { m with result := .empty }) h (hidle (hs hcall))
    · apply h.createNewRequest hi
      intro j hj
      split_ifs at hj
      cases hj
      exact hlt
  | requestDestroy r byRename =>
    refine next_requestDestroy_rule ?_ fun hb ht => ?_
    · apply deleteRequestCommand (m := { m with result := .empty }) h
      intro halive hon
      exact hs.1 halive ((hi.onStack_iff r).mpr hon)
    · subst hb
      rw [h.cmdToken_of_safe ha hs] at ht
      cases ht
  | poolEventSetup p b t =>
    exact h.setLib_of_evolves hi (by simp)
      (Lib.evolves_poolEventSetup hi.pools (hi.lt_of_enabled_source ha) b t)
  | poolEventCheck p b w =>
    have h₁ := h.setLib_of_evolves hi (l := (m.lib.poolEventCheckStart p b w).1) (by simp)
      (Lib.evolves_poolEventCheckStart hi.pools (hi.lt_of_enabled_source ha) b w)
    simp only [Machine.next]
    split_ifs
    · exact LifeOk.push (m := m.setLib ((m.lib.poolEventCheckStart p b w).1.setInCallback p true)) h₁
        rfl (by simp)
    · exact h₁
  | serviceEvent b =>
    simp only [Machine.next, Lib.serviceEvent]
    split
    · exact h.setLib_of_eq (by simp; rfl) (by simp; rfl)
    · exact h
    · exact h
    · exact h
  | queueOther b => exact h
  | interpDelete i =>
    refine LifeOk.push (m := m.setLib { m.lib with
      interpDeleted := Function.update m.lib.interpDeleted i true }) ?_ rfl (by simp)
    exact h.congr_view rfl rfl rfl rfl rfl rfl (fun _ => rfl) (Nat.le_refl _)
      fun j hj => (h.fresh_session j hj).2
  | interpDeleteCommand tok =>
    obtain ⟨j, hstack, -⟩ := enabled_interpDeleteCommand ha
    have hnot : ∀ x, ¬ OnFrames m.lib.poolView.owner m.stack x := fun x => by
      simp [hstack, OnFrames]
    cases tok with
    | request r => exact h.deleteRequestCommand fun _ => hnot r
    | session i => exact h.deleteSessionCommand fun _ x _ => hnot x
  | interpDeleteDone =>
    obtain ⟨i, hstack, -⟩ := enabled_interpDeleteDone ha
    have := h.pop hstack rfl
    simpa only [Machine.next, hstack, List.tail_cons] using this
  | threadExit =>
    exact h.setLib_of_evolves hi (by simp) (Lib.evolves_poolThreadExitProc hi.pools fun p =>
      hi.inCallback_of_notMem (by simp [enabled_threadExit ha]))
  | curlComplete r result =>
    simp only [Machine.next]
    split <;> exact h
  | curlWriteError r size contentSize result =>
    have h₁ : (m.setLib (m.lib.requestSetError r (writeErrorText size contentSize))).LifeOk :=
      h.setLib_of_eq (by simp) (by simp)
    simp only [Machine.next]
    split
    · rename_i p w stack hstack
      exact LifeOk.push (m := { m with
        lib := (m.lib.requestSetError r (writeErrorText size contentSize)).poolComplete p r result
        stack := stack }) (LifeOk.pop h₁ hstack rfl) rfl (by simp)
    · rename_i r' simple w stack hstack
      have h₂ := h₁
      unfold LifeOk setLib at h₂
      rw [hstack] at h₂
      exact h₂.congr_run
    · exact h
  | performReturn ok =>
    obtain ⟨p, w, stack, hstack, -⟩ := enabled_performReturn ha
    simp only [Machine.next, hstack]
    obtain ⟨hi₁, hoff⟩ := hi.performReturn hstack
    have h₁ : LifeOk { m with lib := m.lib.setInCallback p false, stack := stack } :=
      h.pop hstack rfl
    cases ok with
    | false => exact h₁
    | true =>
      exact h₁.setLib_of_evolves hi₁ (by simp) (Lib.evolves_poolEventCheckFinish hi₁.pools hoff _)
  | easyPerformReturn res =>
    obtain ⟨r, simple, w, stack, hstack, -⟩ := enabled_easyPerformReturn ha
    simp only [Machine.next, hstack]
    refine createFinish (m := { m with lib := m.lib.requestRunFinish r res, stack := stack })
      (s := simple) (w := w) ?_
    have := h
    unfold LifeOk at this
    simpa [hstack] using this
  | cleanupReturn =>
    obtain ⟨r, caller, stack, hstack⟩ := enabled_cleanupReturn ha
    simp only [Machine.next, hstack]
    have h' := h
    unfold LifeOk at h'
    rw [hstack] at h'
    apply cleanupFinish (m := { m with stack := stack }) h'
    rintro i rfl
    simpa [Safe, hstack] using hs

end LifeOk

/-! ### Runs -/

theorem lifeOk_init : init.LifeOk where
  busy_nodup := List.nodup_nil
  frames := by simp [init]
  idle := by simp [init, Lib.init, Lib.lifeView]
  gone := by simp [init, Lib.init, Lib.lifeView]
  fresh := by simp [init, Lib.init, Lib.lifeView, Request.zero]
  mem_iff := by simp [init, Lib.init, Lib.lifeView, Request.zero, Session.zero]
  nodup := by simp [init, Lib.init, Lib.lifeView, Session.zero]
  fresh_session := by simp [init, Lib.init, Lib.lifeView, Session.zero]
  releases := trivial

variable {api : Api} {as : List Action} {m : Machine}

theorem lifeOk_step {s t : Machine} {a : Action} (h : s.PoolInv ∧ s.LifeOk) (hs : s.Safe a)
    (hst : s.step api a = some t) : t.PoolInv ∧ t.LifeOk := by
  obtain ⟨ha, rfl⟩ := step_eq_some.mp hst
  exact ⟨h.1.next ha (removable_of_safe h.1 h.2 ha hs), h.2.next h.1 ha hs⟩

theorem lifeOk_of_safe (hq : Run.Along (step api) Safe init as) (hr : runOf api as = some m) :
    m.PoolInv ∧ m.LifeOk :=
  Run.exec_preserves (fun _ _ _ hs hok hst => lifeOk_step hs hok hst) ⟨poolInv_init, lifeOk_init⟩ hq hr

/-- In every state of a safe run no request on the stack has been released, and none has
been released twice; nor has the process died. -/
theorem onStack_not_freed (hq : Run.Along (step api) Safe init as) (hr : runOf api as = some m) :
    (∀ r, m.OnStack r → m.lib.freed r = 0) ∧ (∀ r, m.lib.freed r ≤ 1) ∧ .crash ∉ m.stack := by
  obtain ⟨hi, h⟩ := lifeOk_of_safe hq hr
  refine ⟨fun r hon => ?_, h.freed_le_one, h.frames .crash⟩
  rcases (hi.onStack_iff r).mp hon with hb | ⟨p, -, ho⟩
  · exact h.freed_of_busy hb
  · by_contra hne
    have := (h.gone r hne).2.2.1
    rw [ho] at this
    cases this

/-- `-verbose 1 -callback_debug dbg` -/
def debugOptions : List Str := [lit "-verbose", lit "1", lit "-callback_debug", lit "dbg"]

/-- A script in the debug callback of a sync request destroys an async one. -/
def reentrantDestroyRun : List Action :=
  [.getAsync,
   .requestCmd 0 (lit "get") (some .get) (lit "http://localhost" :: debugOptions) .willing,
   .requestDestroy 0 false, .cleanupReturn, .easyPerformReturn curleOk]

theorem onStack_not_freed_reentrantDestroyRun : ∃ m, runOf Api.plain reentrantDestroyRun = some m ∧
    m.lib.freed 0 ≤ 1 := by
  obtain ⟨m, hm⟩ := Option.isSome_iff_exists.mp
    (show (runOf Api.plain reentrantDestroyRun).isSome = true by decide +kernel)
  exact ⟨m, hm, (onStack_not_freed (by decide +kernel) hm).2.1 0⟩

/-- A script in the debug callback of a sync request destroys the session of the
request. -/
def sessionDestroyRun : List Action :=
  [.sessionCmd 0 [lit "session"] true,
   .sessionHandle 0 (lit "s") (lit "get" :: lit "http://localhost" :: debugOptions) .willing,
   .sessionHandle 0 (lit "s") [lit "destroy"] .willing, .cleanupReturn]

theorem sessionDestroyRun_freed_on_stack : ¬ ∀ api as m, runOf api as = some m →
    (∀ r, m.OnStack r → m.lib.freed r = 0) ∧ ∀ r, m.lib.freed r ≤ 1 := by
  intro h
  obtain ⟨m, hm, hp⟩ := (Option.any_eq_true _ _).mp (show (runOf Api.plain sessionDestroyRun).any
    (fun m => m.OnStack 0 ∧ m.lib.freed 0 = 1) = true by decide +kernel)
  obtain ⟨hon, hfree⟩ := of_decide_eq_true hp
  have := (h _ _ m hm).1 0 hon
  rw [hfree] at this
  cases this

/-- The script that runs during the release calls `destroy` again, when the token is gone. -/
example : (runOf Api.plain
    [.requestCmd 0 (lit "get") (some .get) [lit "http://localhost", lit "-async", lit "-verbose",
      lit "1", lit "-callback_debug", lit "dbg"] .willing,
     .requestDestroy 0 false, .requestDestroy 0 false]).any (fun m => .crash ∈ m.stack) = true := by
  decide +kernel

end Machine

end Trequests
