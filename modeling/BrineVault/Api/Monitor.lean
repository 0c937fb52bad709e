import BrineVault.Api.Billing

/-!
# `subscription-monitor.service.ts`: the daily run

The dispatcher of notifications, and the monitor that moves a subscription whose period is over to its grace period and, when that is over
too, suspends it. Each of its two passes reads the clock, selects rows, and goes through them; what fails is only logged. `text` is the text
of a `uuid`.
-/

namespace BrineVault

open Interleaving (Prog)

/-- What fails is logged, and the caller goes on. -/
def logErrors (p : Billing Unit) : Billing Unit := p.tryCatch fun _ => .ret ()

structure DispatchPayload where
  type : NotificationType
  title : String
  body : Option String
  recipientUserIds : List Uuid
  relatedPoolId : Option Uuid := none
  relatedDocumentId : Option Uuid := none
  deriving DecidableEq, Repr

namespace NotificationDispatcherService

def MANDATORY_TYPES : List NotificationType := [.subscription_expiring, .subscription_expired, .invoice_overdue]

def shouldSendInApp (userId : Uuid) (type : NotificationType) : Billing Bool :=
  if type ∈ MANDATORY_TYPES then .ret true
  else do
    let some prefs ← Prog.send (BillingCommand.preferencesFindByUserId userId) | .ret true
    if !prefs.inAppEnabled then .ret false
    else if prefs.preferences.lookup type = some false then .ret false
    else .ret true

/-- The row for one recipient. -/
def notification (payload : DispatchPayload) (userId : Uuid) : NotificationRow :=
  { userId, type := payload.type, title := payload.title, body := payload.body, relatedPoolId := payload.relatedPoolId,
    relatedDocumentId := payload.relatedDocumentId }

def create (row : NotificationRow) : Billing Unit := do
  if ← Prog.send (BillingCommand.notificationsCreate row) then .ret () else .throw internalError

def dispatch (payload : DispatchPayload) : Billing Unit :=
  Prog.forEach
    (fun userId => logErrors do
      if ← shouldSendInApp userId payload.type then create (notification payload userId) else .ret ())
    payload.recipientUserIds

end NotificationDispatcherService

namespace SubscriptionMonitorService

open SubscriptionsRepository NotificationDispatcherService

variable (text : Uuid → String)

/-- A pass of the monitor: the rows it finds, what it sets in each of them, and the notice it dispatches. -/
def check (find : Nat → Billing (List SubscriptionRow)) (data : Nat → SubscriptionUpdate)
    (payload : SubscriptionRow → DispatchPayload) : Billing Unit := do
  let now ← newDate
  let subs ← find now
  Prog.forEach
    (fun sub => logErrors do
      let _ ← update sub.id (data now)
      dispatch (payload sub))
    subs

def planText : BillingPlan → String
  | .free_trial => "free_trial"
  | .pro => "pro"
  | .enterprise => "enterprise"

def checkExpiring : Billing Unit :=
  check findExpiring (fun now => { status := some .grace_period, gracePeriodEnd := some (IsoDate.addDays now 14) })
    fun sub =>
      { type := .subscription_expiring
        title := "Subscription expired for org " ++ text sub.orgId
        body := some ("Your " ++ planText sub.plan ++ " subscription has expired. You have a 14-day grace period.")
        recipientUserIds := [sub.orgId] }

def checkGracePeriodExpired : Billing Unit :=
  check findGracePeriodExpired (fun _ => { status := some .suspended })
    fun sub =>
      { type := .subscription_expired
        title := "Account suspended for org " ++ text sub.orgId
        body := some "Your grace period has ended. Account is now suspended."
        recipientUserIds := [sub.orgId] }

def handleCron : Billing Unit := logErrors do
  checkExpiring text
  checkGracePeriodExpired text

end SubscriptionMonitorService

end BrineVault
