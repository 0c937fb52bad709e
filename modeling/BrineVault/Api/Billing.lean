import BrineVault.Api.Backend
import BrineVault.Lib.IsoDate

/-!
# `billing.service.ts`: renewals

The tables of the subscriptions, the invoices and the notifications, the statements of their repositories, and the request that renews a
subscription. Columns that only record the time of writing, and ids that nothing refers to, are left out; an amount is in hundredths.
-/

namespace BrineVault

open Interleaving (Prog)

/-! ## Rows -/

inductive BillingPlan where
  | free_trial
  | pro
  | enterprise
  deriving DecidableEq, Repr

inductive SubscriptionStatus where
  | trial
  | active
  | expired
  | grace_period
  | suspended
  deriving DecidableEq, Repr

inductive InvoiceStatus where
  | pending
  | paid
  | overdue
  | cancelled
  deriving DecidableEq, Repr

/-- The type of a notification: one of those that `MANDATORY_TYPES` lists, or any other text. -/
inductive NotificationType where
  | subscription_expiring
  | subscription_expired
  | invoice_overdue
  | other (type : String)
  deriving DecidableEq, Repr

structure SubscriptionRow where
  id : Uuid
  orgId : Uuid
  plan : BillingPlan
  status : SubscriptionStatus
  currentPeriodStart : Option Nat
  currentPeriodEnd : Option Nat
  gracePeriodEnd : Option Nat
  amount : Nat
  currency : String
  deriving DecidableEq, Repr

structure InvoiceRow where
  orgId : Uuid
  subscriptionId : Uuid
  amount : Nat
  currency : String
  status : InvoiceStatus
  dueAt : Nat
  deriving DecidableEq, Repr

structure NotificationRow where
  userId : Uuid
  type : NotificationType
  title : String
  body : Option String
  relatedPoolId : Option Uuid
  relatedDocumentId : Option Uuid
  deriving DecidableEq, Repr

/-- The preferences of a user. For a type of notification `preferences` holds its `in_app`, when that is a boolean. -/
structure NotificationPreferencesRow where
  userId : Uuid
  inAppEnabled : Bool
  preferences : List (NotificationType × Bool)
  deriving DecidableEq, Repr

/-- The columns that an update of a subscription sets; those that are `none` stay as they are. -/
structure SubscriptionUpdate where
  plan : Option BillingPlan := none
  status : Option SubscriptionStatus := none
  currentPeriodStart : Option Nat := none
  currentPeriodEnd : Option Nat := none
  gracePeriodEnd : Option Nat := none
  deriving DecidableEq, Repr

/-- The row with the columns set. -/
def SubscriptionUpdate.set (data : SubscriptionUpdate) (r : SubscriptionRow) : SubscriptionRow :=
  { r with
    plan := data.plan.getD r.plan
    status := data.status.getD r.status
    currentPeriodStart := data.currentPeriodStart.or r.currentPeriodStart
    currentPeriodEnd := data.currentPeriodEnd.or r.currentPeriodEnd
    gracePeriodEnd := data.gracePeriodEnd.or r.gracePeriodEnd }

/-! ## Statements -/

/-- The two queries of the monitor: `findExpiring` and `findGracePeriodExpired`. -/
inductive Due where
  | expiring
  | gracePeriodExpired
  deriving DecidableEq, Repr

/-- The rows that a query finds. A time that is not set is before no date. -/
def Due.Finds (due : Due) (beforeDate : Nat) (r : SubscriptionRow) : Prop :=
  match due with
  | expiring => (r.status = .active ∨ r.status = .trial) ∧ r.currentPeriodEnd.any (· ≤ beforeDate) = true
  | gracePeriodExpired => r.status = .grace_period ∧ r.gracePeriodEnd.any (· ≤ beforeDate) = true

instance (due : Due) (beforeDate : Nat) (r : SubscriptionRow) : Decidable (due.Finds beforeDate r) := by
  cases due <;> exact inferInstanceAs (Decidable (_ ∧ _))

/-- The statements of `SubscriptionsRepository`, `NotificationsRepository` and `NotificationPreferencesRepository`, and `new Date()`.
`findByOrgId` has a `LIMIT 1` and no order: `pick` says which of the rows it gives. -/
inductive BillingCommand where
  | subscriptionsFindByOrgId (orgId : Uuid) (pick : Nat)
  | subscriptionsFind (due : Due) (beforeDate : Nat)
  | subscriptionsCreate (row : SubscriptionRow)
  | subscriptionsUpdate (id : Uuid) (data : SubscriptionUpdate)
  | invoicesCreate (row : InvoiceRow)
  | preferencesFindByUserId (userId : Uuid)
  | notificationsCreate (row : NotificationRow)
  | newDate
  deriving DecidableEq, Repr

/-- What a statement answers. An insert answers whether the constraints of the table let it. -/
abbrev BillingCommand.Reply : BillingCommand → Type
  | .subscriptionsFindByOrgId .. => Option SubscriptionRow
  | .subscriptionsFind .. => List SubscriptionRow
  | .subscriptionsCreate _ => Bool
  | .subscriptionsUpdate .. => List SubscriptionRow
  | .invoicesCreate _ => Bool
  | .preferencesFindByUserId _ => Option NotificationPreferencesRow
  | .notificationsCreate _ => Bool
  | .newDate => Nat

structure BillingDb where
  now : Nat
  users : List UserRow
  organizations : List OrganizationRow
  subscriptions : List SubscriptionRow
  invoices : List InvoiceRow
  preferences : List NotificationPreferencesRow
  notifications : List NotificationRow
  deriving DecidableEq, Repr

namespace BillingDb

/-- The foreign keys are checked, and the primary key of `subscriptions`. -/
def exec (db : BillingDb) : (c : BillingCommand) → c.Reply × BillingDb
  | .subscriptionsFindByOrgId orgId pick =>
    let rows := db.subscriptions.filter fun r => r.orgId = orgId
    (rows[pick % rows.length]?, db)
  | .subscriptionsFind due beforeDate => (db.subscriptions.filter fun r => due.Finds beforeDate r, db)
  | .subscriptionsCreate row =>
    if (∃ o ∈ db.organizations, o.id = row.orgId) ∧ ∀ r ∈ db.subscriptions, r.id ≠ row.id then
      (true, { db with subscriptions := db.subscriptions ++ [row] })
    else (false, db)
  | .subscriptionsUpdate id data =>
    ((db.subscriptions.filter fun r => r.id = id).map data.set,
      { db with subscriptions := Rows.updateAt SubscriptionRow.id id data.set db.subscriptions })
  | .invoicesCreate row =>
    if (∃ o ∈ db.organizations, o.id = row.orgId) ∧ ∃ r ∈ db.subscriptions, r.id = row.subscriptionId then
      (true, { db with invoices := db.invoices ++ [row] })
    else (false, db)
  | .preferencesFindByUserId userId => (db.preferences.find? fun r => r.userId = userId, db)
  | .notificationsCreate row =>
    if ∃ u ∈ db.users, u.id = row.userId then (true, { db with notifications := db.notifications ++ [row] }) else (false, db)
  | .newDate => (db.now, db)

/-- Milliseconds pass. -/
def elapse (db : BillingDb) (ms : Nat) : BillingDb := { db with now := db.now + ms }

end BillingDb

/-- A program over the tables of the billing. -/
abbrev Billing (α : Type) := Prog BillingCommand BillingCommand.Reply HttpException α

def newDate : Billing Nat := Prog.send BillingCommand.newDate

namespace SubscriptionsRepository

def findByOrgId (orgId : Uuid) (pick : Nat) : Billing (Option SubscriptionRow) :=
  Prog.send (BillingCommand.subscriptionsFindByOrgId orgId pick)

def findExpiring (beforeDate : Nat) : Billing (List SubscriptionRow) := Prog.send (BillingCommand.subscriptionsFind .expiring beforeDate)

def findGracePeriodExpired (beforeDate : Nat) : Billing (List SubscriptionRow) :=
  Prog.send (BillingCommand.subscriptionsFind .gracePeriodExpired beforeDate)

/-- The row that the insert returns is the one it was given. -/
def create (row : SubscriptionRow) : Billing SubscriptionRow := do
  if ← Prog.send (BillingCommand.subscriptionsCreate row) then .ret row else .throw internalError

def update (id : Uuid) (data : SubscriptionUpdate) : Billing (List SubscriptionRow) :=
  Prog.send (BillingCommand.subscriptionsUpdate id data)

def createInvoice (row : InvoiceRow) : Billing InvoiceRow := do
  if ← Prog.send (BillingCommand.invoicesCreate row) then .ret row else .throw internalError

end SubscriptionsRepository

/-! ## The request -/

structure RenewSubscriptionDto where
  plan : BillingPlan
  durationMonths : Nat
  deriving DecidableEq, Repr

/-- The answer of `renewSubscription`. -/
structure RenewedSubscription where
  subscription : SubscriptionRow
  invoice : InvoiceRow
  deriving DecidableEq, Repr

/-- What a renewal does not decide: the id of a row that it inserts, and which row of the organisation it is given. -/
structure DrawnRenewal where
  subscriptionId : Uuid
  pick : Nat
  deriving DecidableEq, Repr

namespace BillingService

open SubscriptionsRepository

def assertOrgAccess (orgId : Uuid) (userOrgId : Option Uuid) : Except HttpException Unit :=
  if userOrgId ≠ some orgId then .error (ForbiddenException "NOT_IN_ORG" "Not a member of this organization") else .ok ()

def renewSubscription (drawn : DrawnRenewal) (orgId : Uuid) (userOrgId : Option Uuid) (dto : RenewSubscriptionDto) :
    Billing RenewedSubscription := do
  Prog.ofExcept (assertOrgAccess orgId userOrgId)
  let now ← newDate
  let found ← findByOrgId orgId drawn.pick
  let periodEnd := IsoDate.addMonths now dto.durationMonths
  let sub ← match found with
    | none =>
      create
        { id := drawn.subscriptionId, orgId, plan := dto.plan, status := .active, currentPeriodStart := some now,
          currentPeriodEnd := some periodEnd, gracePeriodEnd := none, amount := 0, currency := "SGD" }
    | some sub => do
      let rows ← update sub.id
        { plan := some dto.plan, status := some .active, currentPeriodStart := some now, currentPeriodEnd := some periodEnd }
      .ret (rows.head?.getD sub)
  let invoice ← createInvoice
    { orgId, subscriptionId := sub.id, amount := sub.amount, currency := sub.currency, status := .pending,
      dueAt := IsoDate.addDays now 30 }
  return { subscription := sub, invoice }

end BillingService

end BrineVault
