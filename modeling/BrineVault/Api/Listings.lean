import BrineVault.Api.Billing
import BrineVault.Api.Reads
import BrineVault.Lib.Paging

/-!
# Lists read page by page

`listMembers` and `listInvoices` select without `ORDER BY`, the audit trail by the time of its rows alone. The orders that the database
chooses for the queries are the argument `order` of each service.
-/

namespace BrineVault

open Paging

/-- A row of `users` with the columns that only the list shows. -/
structure UserRecord extends UserRow where
  email : Option String
  createdAt : Nat
  deriving DecidableEq, Repr

/-- A row of `invoices` with all its columns. -/
structure InvoiceRecord extends InvoiceRow where
  id : Uuid
  penaltyApplied : Bool
  issuedAt : Nat
  paidAt : Option Nat
  deriving DecidableEq, Repr

/-- What `listMembers` selects. -/
structure ListedMember where
  id : Uuid
  primaryWalletAddress : String
  displayName : Option String
  email : Option String
  roleInOrg : Nat
  createdAt : Nat
  deriving DecidableEq, Repr

def UserRecord.listed (r : UserRecord) : ListedMember :=
  { id := r.id, primaryWalletAddress := r.primaryWalletAddress, displayName := r.displayName, email := r.email,
    roleInOrg := r.roleInOrg, createdAt := r.createdAt }

/-! ## The matching rows -/

def membersOfOrg (users : List UserRecord) (orgId : Uuid) : List ListedMember :=
  (users.filter fun r => r.orgId = some orgId).map UserRecord.listed

def invoicesOfOrg (invoices : List InvoiceRecord) (orgId : Uuid) : List InvoiceRecord := invoices.filter fun r => r.orgId = orgId

def Db.trailOf (db : Db) (poolId : Uuid) : List AuditRow := db.auditEvents.filter fun r => r.poolId = some poolId

/-! ## The services -/

def OrgsService.listMembers (order : List ListedMember → List ListedMember) (users : List UserRecord) (orgId : Uuid)
    (userOrgId : Option Uuid) (page limit : Nat) : Except HttpException (Paged ListedMember) :=
  if userOrgId ≠ some orgId then .error (ForbiddenException "NOT_IN_ORG" "Not a member of this organization")
  else
    let offset := (page - 1) * limit
    .ok { data := ((order (membersOfOrg users orgId)).drop offset).take limit, total := none, page, limit }

def SubscriptionsRepository.findInvoicesByOrgId (order : List InvoiceRecord → List InvoiceRecord) (invoices : List InvoiceRecord)
    (orgId : Uuid) (limit offset : Nat) : List InvoiceRecord :=
  ((order (invoicesOfOrg invoices orgId)).drop offset).take limit

def BillingService.listInvoices (order : List InvoiceRecord → List InvoiceRecord) (invoices : List InvoiceRecord) (orgId : Uuid)
    (userOrgId : Option Uuid) (page limit : Nat) : Except HttpException (Paged InvoiceRecord) := do
  assertOrgAccess orgId userOrgId
  let offset := (page - 1) * limit
  return { data := SubscriptionsRepository.findInvoicesByOrgId order invoices orgId limit offset, total := none, page, limit }

/-! ## What is lost -/

/-- Reading the members of an organisation by pages gives each once, whatever order the database chooses for each page. -/
def MembersPageable (users : List UserRecord) (orgId : Uuid) (limit : Nat) : Prop :=
  LosesNothing (fun _ => ()) (membersOfOrg users orgId) fun order page =>
    (OrgsService.listMembers order users orgId (some orgId) page limit).map Paged.data

def InvoicesPageable (invoices : List InvoiceRecord) (orgId : Uuid) (limit : Nat) : Prop :=
  LosesNothing (fun _ => ()) (invoicesOfOrg invoices orgId) fun order page =>
    (BillingService.listInvoices order invoices orgId (some orgId) page limit).map Paged.data

/-- The same of the audit trail of a pool. `timestamp` is the column of that name. -/
def TrailPageable (timestamp : AuditRow → Nat) (db : Db) (pool : PoolRow) (limit : Nat) : Prop :=
  LosesNothing timestamp (db.trailOf pool.id) fun order page =>
    (AuditService.getPoolAudit order db pool.id (some pool.orgId) page limit).map Paged.data

/-- No member is listed twice. -/
theorem nodup_membersOfOrg {users : List UserRecord} (h : (users.map fun r => r.id).Nodup) (orgId : Uuid) :
    (membersOfOrg users orgId).Nodup := by
  refine List.Nodup.of_map ListedMember.id ?_
  rw [membersOfOrg, List.map_map]
  exact h.sublist (List.filter_sublist.map _)

theorem nodup_invoicesOfOrg {invoices : List InvoiceRecord} (h : (invoices.map InvoiceRecord.id).Nodup) (orgId : Uuid) :
    (invoicesOfOrg invoices orgId).Nodup :=
  (List.Nodup.of_map _ h).filter _

theorem nodup_trailOf {db : Db} (h : (db.auditEvents.map AuditRow.eventId).Nodup) (poolId : Uuid) : (db.trailOf poolId).Nodup :=
  (List.Nodup.of_map _ h).filter _

/-- Reading by pages loses no member and no invoice exactly where one page holds them all, and no row of a trail exactly where no
boundary of the pages falls between two rows of one time. -/
theorem pageable_iff {limit : Nat} (hlimit : 0 < limit) {users : List UserRecord} (hu : (users.map fun r => r.id).Nodup)
    {invoices : List InvoiceRecord} (hi : (invoices.map InvoiceRecord.id).Nodup) (orgId : Uuid) {db : Db}
    (ha : (db.auditEvents.map AuditRow.eventId).Nodup) (timestamp : AuditRow → Nat) {pool : PoolRow}
    (hp : PoolsRepository.findById db pool.id = some pool) :
    (MembersPageable users orgId limit ↔ (membersOfOrg users orgId).length ≤ limit) ∧
    (InvoicesPageable invoices orgId limit ↔ (invoicesOfOrg invoices orgId).length ≤ limit) ∧
    (TrailPageable timestamp db pool limit ↔ ∀ k, ¬ Cuts timestamp (db.trailOf pool.id) (k * limit)) := by
  refine ⟨losesNothing_const_iff hlimit (nodup_membersOfOrg hu orgId) fun order n => ?_,
    losesNothing_const_iff hlimit (nodup_invoicesOfOrg hi orgId) fun order n => ?_,
    losesNothing_iff hlimit (nodup_trailOf ha pool.id) fun order n => ?_⟩
  · simp [OrgsService.listMembers, Except.map, page]
  · have haccess : BillingService.assertOrgAccess orgId (some orgId) = .ok () := if_neg (by simp)
    simp only [BillingService.listInvoices, haccess, SubscriptionsRepository.findInvoicesByOrgId, Nat.add_sub_cancel]
    rfl
  · have hin : poolInOrg db pool.id (some pool.orgId) = .ok pool := poolInOrg_eq_ok.2 ⟨hp, rfl⟩
    simp only [AuditService.getPoolAudit, hin, AuditEventsRepository.findByPoolId, Nat.add_sub_cancel]
    rfl

/-- Two members of one organisation. -/
def Sample.colleagues : List UserRecord :=
  [{ id := .given 5, primaryWalletAddress := "0x5", displayName := none, orgId := some .zero, roleInOrg := 1, email := none, createdAt := 0 },
   { id := .given 6, primaryWalletAddress := "0x6", displayName := none, orgId := some .zero, roleInOrg := 1, email := none, createdAt := 0 }]

/-- The pool, with two audit rows. -/
def Sample.withTrail : Db :=
  { Sample.withPool with
    auditEvents := [
      { poolId := some (.given 0), eventType := .documentCreated, actorAddress := 7, targetId := none, metadata := .empty,
        suiTxDigest := 1, suiEventSeq := 0 },
      { poolId := some (.given 0), eventType := .documentReviewed, actorAddress := 7, targetId := none, metadata := .empty,
        suiTxDigest := 1, suiEventSeq := 1 }] }

/-- The condition at two colleagues on pages of one. -/
theorem pageable_iff_sample :
    ∃ pool, (MembersPageable Sample.colleagues .zero 1 ↔ (membersOfOrg Sample.colleagues .zero).length ≤ 1) ∧
      (InvoicesPageable [] .zero 1 ↔ (invoicesOfOrg [] .zero).length ≤ 1) ∧
      (TrailPageable AuditRow.suiEventSeq Sample.withTrail pool 1 ↔
        ∀ k, ¬ Cuts AuditRow.suiEventSeq (Sample.withTrail.trailOf pool.id) (k * 1)) :=
  ⟨Sample.withTrail.pools[0], @pageable_iff 1 Nat.one_pos Sample.colleagues (by decide) [] (by decide) .zero Sample.withTrail (by decide)
    AuditRow.suiEventSeq Sample.withTrail.pools[0] rfl⟩

/-- The order of the table for the first page, and the other way round after it. -/
def Sample.turned {α : Type} (page : Nat) : List α → List α := if page = 1 then id else List.reverse

/-- Turning the rows at odd pages is an order the key admits when it is the same for all. -/
theorem Sample.turned_admits {α κ : Type} [LinearOrder κ] (k : κ) (rows : List α) (page : Nat) :
    Admits (fun _ => k) rows (turned page rows) := by
  refine ⟨?_, List.pairwise_of_forall fun _ _ => le_rfl⟩
  unfold turned
  split
  · rfl
  · exact List.reverse_perm rows

/-- With pages of one member, and the two members the other way round for the second page, the first member is read twice and the second
not at all. Two audit rows of one time are lost the same way. -/
theorem second_member_lost :
    Reads (fun page => (OrgsService.listMembers (Sample.turned page) Sample.colleagues .zero (some .zero) page 1).map Paged.data) 1
      [(membersOfOrg Sample.colleagues .zero)[0], (membersOfOrg Sample.colleagues .zero)[0]] ∧
    ¬ MembersPageable Sample.colleagues .zero 1 ∧
    ∃ pool, PoolsRepository.findById Sample.withTrail pool.id = some pool ∧ ¬ TrailPageable (fun _ => 0) Sample.withTrail pool 1 := by
  have hmembers : Reads (fun page => (OrgsService.listMembers (Sample.turned page) Sample.colleagues .zero (some .zero) page 1).map
      Paged.data) 1 [(membersOfOrg Sample.colleagues .zero)[0], (membersOfOrg Sample.colleagues .zero)[0]] := by
    change Reads _ 1 ([_] ++ ([_] ++ []))
    exact .next rfl (List.cons_ne_nil _ _) (.next rfl (List.cons_ne_nil _ _) (.done rfl))
  have htrail : Reads (fun page => (AuditService.getPoolAudit (Sample.turned page) Sample.withTrail (.given 0) (some .zero) page 1).map
      Paged.data) 1 [Sample.withTrail.auditEvents[0], Sample.withTrail.auditEvents[0]] := by
    change Reads _ 1 ([_] ++ ([_] ++ []))
    exact .next rfl (List.cons_ne_nil _ _) (.next rfl (List.cons_ne_nil _ _) (.done rfl))
  refine ⟨hmembers, fun h => ?_, Sample.withTrail.pools[0], rfl, fun h => ?_⟩
  · obtain ⟨got, hgot, hperm⟩ := h Sample.turned fun page => Sample.turned_admits () _ page
    rw [← hmembers.unique hgot] at hperm
    exact absurd hperm (by decide)
  · obtain ⟨got, hgot, hperm⟩ := h Sample.turned fun page => Sample.turned_admits 0 _ page
    rw [← htrail.unique hgot] at hperm
    exact absurd hperm (by decide)

end BrineVault
