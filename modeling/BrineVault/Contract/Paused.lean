import BrineVault.Contract.Access

/-!
# While the package is paused

Every function that creates or changes a pool looks at the pause before anything else. So from a pause to the next unpause nothing
succeeds but a change of the configuration, and the pools are what they were.
-/

namespace BrineVault

open Move

/-- With a pause the check aborts. -/
theorem AdminConfig.assertNotPaused_of_paused {config : AdminConfig} (hp : config.paused = true) :
    config.assertNotPaused = .error (.code Errors.poolPaused) := by
  rw [assertNotPaused, assert, if_neg (by rw [hp]; decide)]

/-- A call on a pool aborts while the package is paused, whoever calls and with what. -/
theorem PoolCall.exec_paused {config : AdminConfig} (hp : config.paused = true) (freshId : ID) (ctx : Ctx) (call : PoolCall)
    (pool : Pool) : call.exec config freshId ctx pool = .error (.code Errors.poolPaused) := by
  obtain ⟨rest, hrest⟩ := exec_authorise config freshId ctx call
  rw [hrest, AdminConfig.assertNotPaused_of_paused hp]
  rfl

/-- With a pause no pool is created. -/
theorem Pool.createPool_paused {config : AdminConfig} (hp : config.paused = true) (id dataroomId : ID) (p : Pool.Params)
    (ctx : Ctx) : Pool.createPool config id dataroomId p ctx = .error (.code Errors.poolPaused) := by
  rw [createPool, AdminConfig.assertNotPaused_of_paused hp]
  rfl

/-- The calls of an administrator that succeed while the package is paused: a change of the configuration, and the unpause. -/
theorem AdminCall.exec_paused {call : AdminCall} {config config' : AdminConfig} {ctx : Ctx} {evs : List Event}
    (hp : config.paused = true) (h : call.exec config ctx = .ok (config', evs)) :
    call = .unpause ∨
      ((∃ members versions platform pauser, call = .updateConfig members versions platform pauser) ∧ config'.paused = true) := by
  obtain ⟨paused, hcall, hbefore, _, _⟩ | ⟨hcall, hsame, _⟩ := exec_ok h
  · left
    cases paused with
    | true =>
      rw [hp] at hbefore
      cases hbefore
    | false => exact hcall
  · exact .inr ⟨hcall, hsame.trans hp⟩

namespace World

/-- What an administrator's call does to the configuration. -/
theorem step_adminConfig {w w' : World} {s : Step} {call : AdminCall} (h : w.step s = .ok w') (hc : s.call = .admin call) :
    ∃ evs, call.exec w.adminConfig (w.ctxOf s) = .ok (w'.adminConfig, evs) := by
  simp only [step, hc, exec, bind_eq_ok, pure_eq_ok, Prod.exists, Prod.mk.injEq, openTx_adminConfig] at h
  obtain ⟨_, _, ⟨config, evs, hx, rfl, rfl⟩, rfl⟩ := h
  exact ⟨evs, hx⟩

/-- A step that succeeds while the package is paused is an administrator's, and leaves the pools alone. -/
theorem step_paused {w w' : World} {s : Step} (hp : w.adminConfig.paused = true) (h : w.step s = .ok w') :
    (∃ call, s.call = .admin call) ∧ w'.pools = w.pools ∧ w'.idsCreated = w.idsCreated := by
  obtain ⟨evs, hdoes, _⟩ := step_does h
  cases hdoes with
  | admin hc _ hpools hids => exact ⟨⟨_, hc⟩, hpools, hids⟩
  | createPool _ hx =>
    rw [Pool.createPool_paused hp] at hx
    cases hx
  | onPool _ _ hx =>
    rw [PoolCall.exec_paused hp] at hx
    cases hx

/-- What holds after the steps since a pause: it is still on, the pools are those of the state `m`, and the steps changed the
configuration only. -/
def PausedSince (m : World) (steps : List Step) (w : World) : Prop :=
  w.adminConfig.paused = true ∧ w.pools = m.pools ∧ w.idsCreated = m.idsCreated ∧
    ∀ t ∈ steps, ∃ members versions platform pauser, t.call = .admin (.updateConfig members versions platform pauser)

/-- A pause that succeeds. -/
theorem pausedSince_pause {w w' : World} {s : Step} (h : w.step s = .ok w') (hc : s.call = .admin .pause) :
    PausedSince w [] w' := by
  obtain ⟨evs, hx⟩ := step_adminConfig h hc
  have hpaused : w'.adminConfig.paused = true := by
    obtain ⟨paused, hcall, _, hp, _⟩ | ⟨⟨_, _, _, _, hcall⟩, _⟩ := AdminCall.exec_ok hx
    · cases paused with
      | true => exact hp
      | false => cases hcall
    · cases hcall
  obtain ⟨_, hdoes, _⟩ := step_does h
  cases hdoes with
  | admin _ _ hpools hids => exact ⟨hpaused, hpools, hids, fun t ht => by cases ht⟩
  | createPool hc' =>
    rw [hc] at hc'
    cases hc'
  | onPool hc' =>
    rw [hc] at hc'
    cases hc'

/-- A pause goes on until it is ended. -/
theorem PausedSince.step {m w w' : World} {steps : List Step} {s : Step} (hp : PausedSince m steps w) (h : w.step s = .ok w')
    (hc : s.call ≠ .admin .unpause) : PausedSince m (steps ++ [s]) w' := by
  obtain ⟨hpaused, hpools, hids, hall⟩ := hp
  obtain ⟨⟨call, hcall⟩, hpools', hids'⟩ := step_paused hpaused h
  obtain ⟨_, hx⟩ := step_adminConfig h hcall
  obtain rfl | ⟨⟨members, versions, platform, pauser, rfl⟩, hpaused'⟩ := AdminCall.exec_paused hpaused hx
  · exact absurd hcall hc
  · refine ⟨hpaused', by rw [hpools', hpools], by rw [hids', hids], ?_⟩
    intro t ht
    rcases List.mem_append.1 ht with ht | ht
    · exact hall t ht
    · rw [List.mem_singleton.1 ht]
      exact ⟨members, versions, platform, pauser, hcall⟩

/-- Between a pause and the next unpause nothing succeeds but changes of the configuration: the pools, with their rooms, members,
folders, keys, documents, reviews and decisions, are those before the pause, and no object is created. -/
theorem pause_stops_everything {publisher : Ctx} {past mid : List Step} {s : Step} {m w : World}
    (hm : run publisher past = .ok m) (hr : run publisher (past ++ s :: mid) = .ok w) (hc : s.call = .admin .pause)
    (hno : ∀ t ∈ mid, t.call ≠ .admin .unpause) :
    w.pools = m.pools ∧ w.idsCreated = m.idsCreated ∧
      ∀ t ∈ mid, ∃ members versions platform pauser, t.call = .admin (.updateConfig members versions platform pauser) := by
  obtain ⟨m₀, hm₀, hr⟩ := Steps.run_prefix step hr rfl
  rw [show Steps.run step (genesis publisher) past = .ok m from hm, Except.ok.injEq] at hm₀
  subst hm₀
  obtain ⟨m₁, hs, hmid⟩ := (Steps.run_cons_ok step).1 hr
  have hno' : Steps.AllSteps step (fun _ t => t.call ≠ .admin .unpause) m₁ mid := by
    intro before t after n he _
    exact hno t (by simp [he])
  have hpaused : PausedSince m mid w :=
    Steps.run_invariant_of_allSteps step (PausedSince m) (pausedSince_pause hs hc)
      (fun _ _ _ _ _ hp ht hstep => hp.step hstep ht) hmid hno'
  exact hpaused.2

/-- A pause with a change of the configuration after it. -/
theorem pause_stops_everything_sample :
    ∃ m w, run Sample.owner [Sample.createPool] = .ok m ∧
      run Sample.owner ([Sample.createPool] ++ ⟨some Sample.owner, .admin .pause⟩ :: [⟨none, .admin (.updateConfig 5 5 7 7)⟩]) = .ok w ∧
      w.pools = m.pools ∧ w.idsCreated = m.idsCreated ∧
      ∀ t ∈ [Step.mk none (.admin (.updateConfig 5 5 7 7))],
        ∃ members versions platform pauser, t.call = .admin (.updateConfig members versions platform pauser) := by
  refine ⟨_, _, rfl, rfl, ?_⟩
  exact @pause_stops_everything Sample.owner [Sample.createPool] [⟨none, .admin (.updateConfig 5 5 7 7)⟩]
    ⟨some Sample.owner, .admin .pause⟩ _ _ rfl rfl rfl (by simp)

end World

end BrineVault
