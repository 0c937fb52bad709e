import BrineVault.Contract.Aborts

/-!
# Who may call what

Every function on a pool checks the role of its caller against a mask, once. The authorization matrix of the interface marks, for each
function, the roles that may call it; a role passes the check of a function exactly when it is marked, but for ORG_ADMIN where the
function asks for EDITOR or above: that mask has the bits of EDITOR and OWNER only.
-/

namespace BrineVault

open Move

namespace PoolCall

/-- The mask that the function of a call checks its caller against. -/
def requiredRole : PoolCall → UInt8
  | .createCustomFolder .. | .createDocument .. | .addVersion .. => Types.roleEditorUp
  | .submitReview .. => Types.roleReviewerUp
  | .progressToDd | .progressToIcReview .. | .recordIcApproval .. | .recordIcRejection .. | .recordIcRequestChanges ..
  | .progressToReadyToIssue .. | .cancelPool | .reopenRejectedPool | .addMember .. | .removeMember .. | .updateMemberRole ..
  | .storeEncryptedFolderKey .. | .markAsRequired .. | .archiveDocument .. => Types.roleOwnerUp

/-- The authorization matrix: the roles marked for the function of a call. -/
def markedRoles : PoolCall → List UInt8
  | .createCustomFolder .. | .createDocument .. | .addVersion .. => [Types.roleEditor, Types.roleOwner, Types.roleOrgAdmin]
  | .submitReview .. => [Types.roleReviewer, Types.roleOwner, Types.roleOrgAdmin]
  | .progressToDd | .progressToIcReview .. | .recordIcApproval .. | .recordIcRejection .. | .recordIcRequestChanges ..
  | .progressToReadyToIssue .. | .cancelPool | .reopenRejectedPool | .addMember .. | .removeMember .. | .updateMemberRole ..
  | .storeEncryptedFolderKey .. | .markAsRequired .. | .archiveDocument .. => [Types.roleOwner, Types.roleOrgAdmin]

/-- The functions for EDITOR or above. -/
def forEditors : PoolCall → Bool
  | .createCustomFolder .. | .createDocument .. | .addVersion .. => true
  | _ => false

/-- The authorization check of a call. -/
def authorise (pool : Pool) (caller : Address) (call : PoolCall) : Exec Unit := pool.assertRole caller call.requiredRole

/-- What `create_custom_folder` checks before it looks at its caller. The other functions look at their caller first. -/
def assertNamed : PoolCall → Exec Unit
  | .createCustomFolder name _ _ => assert (name ≠ []) Errors.emptyName
  | _ => .ok ()

/-- The matrix lets the caller call: an active member with a marked role. -/
def Marked (pool : Pool) (caller : Address) (call : PoolCall) : Prop :=
  ∃ m, pool.dataroom.members.lookup caller = some m ∧ m.isActive = true ∧ ∃ role ∈ call.markedRoles, Types.hasRole m.role role = true

/-- An active member with the role ORG_ADMIN and without EDITOR and OWNER. -/
def OnlyAdmin (pool : Pool) (caller : Address) : Prop :=
  ∃ m, pool.dataroom.members.lookup caller = some m ∧ m.isActive = true ∧ Types.hasRole m.role Types.roleOrgAdmin = true ∧
    Types.hasRole m.role Types.roleEditor = false ∧ Types.hasRole m.role Types.roleOwner = false

/-- Every call checks the pause, then its caller, then does the rest. -/
theorem exec_authorise (config : AdminConfig) (freshId : ID) (ctx : Ctx) (call : PoolCall) :
    ∃ rest : Pool → Exec (Pool × List Event), ∀ pool, call.exec config freshId ctx pool =
      (do config.assertNotPaused; call.assertNamed; call.authorise pool ctx.sender; rest pool) := by
  cases call with
  | _ => exact ⟨_, fun pool => rfl⟩

/-- The hashes that a call carries have 32 bytes. -/
def HashesFit : PoolCall → Prop
  | .createDocument _ up | .addVersion _ up => up.contentHash.length = 32
  | .submitReview _ _ commentHash => ∀ hash, commentHash = some hash → hash.length = 32
  | _ => True

/-- A call whose caller passes the check, and whose hashes fit, aborts with no code of these checks. -/
theorem avoids_exec {config : AdminConfig} {freshId : ID} {ctx : Ctx} {pool : Pool} {call : PoolCall} {n : Nat} (h : IsWatched n)
    (hrole : n = Errors.insufficientRole → call.authorise pool ctx.sender = .ok ())
    (hhash : n = Errors.invalidContentHashLen → call.HashesFit) : Avoids n (call.exec config freshId ctx pool) := by
  cases call with
  | progressToDd | reopenRejectedPool => exact Pool.avoids_progress h (avoids_ok ()) hrole
  | progressToIcReview docIds => exact Pool.avoids_progress h (pool.avoids_docsGate docIds h) hrole
  | progressToReadyToIssue docIds =>
    exact Pool.avoids_progress h ((h.avoids (by decide)).bind fun _ => pool.avoids_docsGate docIds h) hrole
  | recordIcApproval | recordIcRejection | recordIcRequestChanges => exact Pool.avoids_recordIcDecision h hrole
  | cancelPool => exact Pool.avoids_cancelPool h hrole
  | addMember addr role tags => exact Pool.avoids_addMember h addr role tags hrole
  | removeMember addr => exact Pool.avoids_removeMember h addr hrole
  | updateMemberRole addr newRole => exact Pool.avoids_updateMemberRole h addr newRole hrole
  | createCustomFolder name parentId roles => exact Pool.avoids_createCustomFolder h name parentId roles hrole
  | storeEncryptedFolderKey folderId addr key => exact Pool.avoids_storeEncryptedFolderKey h folderId addr key hrole
  | createDocument p up => exact Pool.avoids_createDocument h freshId p hrole hhash
  | addVersion docId up => exact Pool.avoids_addVersion h docId hrole hhash
  | submitReview docId status commentHash => exact Pool.avoids_submitReview h docId status hrole hhash
  | markAsRequired docId required => exact Pool.avoids_markAsRequired h docId required hrole
  | archiveDocument docId => exact Pool.avoids_archiveDocument h docId hrole

/-- The calls for editors are marked for editors, owners and admins of the organisation. -/
theorem markedRoles_of_forEditors {call : PoolCall} (h : call.forEditors = true) :
    call.markedRoles = [Types.roleEditor, Types.roleOwner, Types.roleOrgAdmin] := by
  cases call with
  | createCustomFolder | createDocument | addVersion => rfl
  | _ => cases h

/-- The mask of a function meets a role exactly when a marked role does, or the mask is the one that leaves ORG_ADMIN out. -/
theorem hasRole_requiredRole (call : PoolCall) (role : UInt8) :
    Types.hasRole role call.requiredRole = true ↔
      (∃ marked ∈ call.markedRoles, Types.hasRole role marked = true) ∧
        ¬ (call.forEditors = true ∧ Types.hasRole role Types.roleEditor = false ∧ Types.hasRole role Types.roleOwner = false) := by
  have heditor : Types.roleEditorUp = Types.roleEditor ||| Types.roleOwner := rfl
  have howner : Types.roleOwnerUp = Types.roleOwner ||| Types.roleOrgAdmin := rfl
  have hreviewer : Types.roleReviewerUp = Types.roleReviewer ||| (Types.roleOwner ||| Types.roleOrgAdmin) := rfl
  cases call with
  | createCustomFolder | createDocument | addVersion =>
    simp only [requiredRole, markedRoles, forEditors, heditor, Types.hasRole_or]
    grind
  | submitReview =>
    simp only [requiredRole, markedRoles, forEditors, hreviewer, Types.hasRole_or]
    grind
  | _ =>
    simp only [requiredRole, markedRoles, forEditors, howner, Types.hasRole_or]
    grind

/-- A call whose caller the check refuses aborts as the check does. -/
theorem exec_refused {config : AdminConfig} {freshId : ID} {ctx : Ctx} {call : PoolCall} {pool : Pool} {abort : Abort}
    (hp : config.paused = false) (hn : call.assertNamed = .ok ()) (h : call.authorise pool ctx.sender = .error abort) :
    call.exec config freshId ctx pool = .error abort := by
  obtain ⟨rest, hrest⟩ := exec_authorise config freshId ctx call
  rw [hrest, AdminConfig.assertNotPaused, (assert_eq_ok (u := ())).2 hp, hn, h]
  rfl

/-- A call that succeeds has passed the check, and the package was not paused. -/
theorem authorise_of_exec {config : AdminConfig} {freshId : ID} {ctx : Ctx} {call : PoolCall} {pool : Pool} {r : Pool × List Event}
    (h : call.exec config freshId ctx pool = .ok r) : config.paused = false ∧ call.authorise pool ctx.sender = .ok () := by
  obtain ⟨rest, hrest⟩ := exec_authorise config freshId ctx call
  rw [hrest] at h
  simp only [bind_eq_ok] at h
  obtain ⟨_, hp, _, _, _, ha, _⟩ := h
  exact ⟨assert_eq_ok.1 hp, ha⟩

/-- No other check of a call has the code of the role. -/
theorem authorise_of_insufficientRole {config : AdminConfig} {freshId : ID} {ctx : Ctx} {call : PoolCall} {pool : Pool}
    (h : call.exec config freshId ctx pool = .error (.code Errors.insufficientRole)) :
    call.authorise pool ctx.sender = .error (.code Errors.insufficientRole) := by
  have hwatched : IsWatched Errors.insufficientRole := .inl rfl
  have hpassed : call.authorise pool ctx.sender ≠ .ok () := fun ha => by
    refine avoids_exec hwatched (fun _ => ha) (fun hn => absurd hn (by decide)) h
  have hnamed : Avoids Errors.insufficientRole call.assertNamed := by
    cases call with
    | createCustomFolder => exact hwatched.avoids (by decide)
    | _ => exact avoids_ok ()
  obtain ⟨rest, hrest⟩ := exec_authorise config freshId ctx call
  rw [hrest] at h
  obtain h | ⟨_, -, h⟩ := bind_eq_error.1 h
  · exact absurd h (avoids_assertNotPaused config hwatched)
  obtain h | ⟨_, -, h⟩ := bind_eq_error.1 h
  · exact absurd h hnamed
  obtain h | ⟨_, ha, -⟩ := bind_eq_error.1 h
  · exact h
  · exact absurd ha hpassed

/-- The check of every call agrees with the matrix, for every caller, exactly where the call is not one for editors or the caller is
not an administrator without a role of editor or owner; and while the package is not paused it decides about the call: where it refuses the
caller, the call aborts as it does, a call that succeeds has passed it, and no call aborts with the code of the role but by this check. -/
theorem authorise_iff_marked (config : AdminConfig) (hp : config.paused = false) (freshId : ID) (ctx : Ctx) (pool : Pool)
    (call : PoolCall) :
    (call.assertNamed = .ok () → ∀ abort, call.authorise pool ctx.sender = .error abort →
      call.exec config freshId ctx pool = .error abort) ∧
    (∀ r, call.exec config freshId ctx pool = .ok r → call.authorise pool ctx.sender = .ok ()) ∧
    (call.exec config freshId ctx pool = .error (.code Errors.insufficientRole) →
      call.authorise pool ctx.sender = .error (.code Errors.insufficientRole)) ∧
    ((call.authorise pool ctx.sender = .ok () ↔ call.Marked pool ctx.sender) ↔
      ¬ (call.forEditors = true ∧ OnlyAdmin pool ctx.sender)) := by
  refine ⟨fun hn abort h => exec_refused hp hn h, fun r h => (authorise_of_exec h).2, authorise_of_insufficientRole, ?_⟩
  rw [authorise, Pool.assertRole, DataRoom.assertMemberRole_ok]
  constructor
  · rintro h ⟨he, m, hl, ha, hadmin, heditor, howner⟩
    have hmarked : call.Marked pool ctx.sender := by
      refine ⟨m, hl, ha, Types.roleOrgAdmin, ?_, hadmin⟩
      simp [markedRoles_of_forEditors he]
    obtain ⟨m', hl', _, hr⟩ := h.2 hmarked
    rw [hl, Option.some.injEq] at hl'
    subst hl'
    exact ((hasRole_requiredRole call m.role).1 hr).2 ⟨he, heditor, howner⟩
  · intro hno
    constructor
    · rintro ⟨m, hl, ha, hr⟩
      exact ⟨m, hl, ha, ((hasRole_requiredRole call m.role).1 hr).1⟩
    · rintro ⟨m, hl, ha, hm⟩
      refine ⟨m, hl, ha, (hasRole_requiredRole call m.role).2 ⟨hm, ?_⟩⟩
      rintro ⟨he, heditor, howner⟩
      refine hno ⟨he, m, hl, ha, ?_, heditor, howner⟩
      obtain ⟨marked, hmem, hr⟩ := hm
      simp only [markedRoles_of_forEditors he, List.mem_cons, List.not_mem_nil, or_false] at hmem
      rcases hmem with rfl | rfl | rfl
      · rw [heditor] at hr
        cases hr
      · rw [howner] at hr
        cases hr
      · exact hr

/-- The condition at a new version of a document by the owner. -/
theorem authorise_iff_marked_addVersion :
    (AdminConfig.init 7).paused = false ∧ ∀ pool,
      (assertNamed (.addVersion 5 Sample.upload) = .ok () → ∀ abort,
        authorise pool Sample.owner.sender (.addVersion 5 Sample.upload) = .error abort →
        (PoolCall.addVersion 5 Sample.upload).exec (AdminConfig.init 7) 5 Sample.owner pool = .error abort) ∧
      (∀ r, (PoolCall.addVersion 5 Sample.upload).exec (AdminConfig.init 7) 5 Sample.owner pool = .ok r →
        authorise pool Sample.owner.sender (.addVersion 5 Sample.upload) = .ok ()) ∧
      ((PoolCall.addVersion 5 Sample.upload).exec (AdminConfig.init 7) 5 Sample.owner pool = .error (.code Errors.insufficientRole) →
        authorise pool Sample.owner.sender (.addVersion 5 Sample.upload) = .error (.code Errors.insufficientRole)) ∧
      ((authorise pool Sample.owner.sender (.addVersion 5 Sample.upload) = .ok () ↔
        Marked pool Sample.owner.sender (.addVersion 5 Sample.upload)) ↔
        ¬ (forEditors (.addVersion 5 Sample.upload) = true ∧ OnlyAdmin pool Sample.owner.sender)) :=
  ⟨rfl, fun pool => authorise_iff_marked (AdminConfig.init 7) rfl 5 Sample.owner pool (.addVersion 5 Sample.upload)⟩

/-- An administrator whom the owner added is refused a document, although the matrix lets administrators create documents. -/
theorem admin_not_authorised :
    ∃ w pool, World.run Sample.owner [Sample.createPool, Sample.byOwner (.addMember 9 Types.roleOrgAdmin [])] = .ok w ∧
      w.adminConfig.paused = false ∧ w.pools.lookup 2 = some pool ∧
      Marked pool 9 (.createDocument ⟨0, 0, [84], true, 63, []⟩ Sample.upload) ∧
      authorise pool 9 (.createDocument ⟨0, 0, [84], true, 63, []⟩ Sample.upload) = .error (.code Errors.insufficientRole) ∧
      w.step ⟨some ⟨9, 3000⟩, .onPool 2 (.createDocument ⟨0, 0, [84], true, 63, []⟩ Sample.upload)⟩ =
        .error (.code Errors.insufficientRole) := by
  refine ⟨_, _, rfl, rfl, rfl, ⟨_, rfl, rfl, Types.roleOrgAdmin, ?_, rfl⟩, rfl, rfl⟩
  simp [markedRoles]

end PoolCall

end BrineVault
