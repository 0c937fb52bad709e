import BrineVault.Api.Billing
import BrineVault.Lib.Months

/-!
# Where a renewal leaves the period

A renewal sets the end of the period to a date counted from its clock, whatever the end was before. What this costs an organisation that
renews early, and how the end depends on the clock.
-/

namespace BrineVault

open Interleaving (Prog alone)

variable {α : Type}

/-- The answer of a request, and the tables that it leaves. Before each command the milliseconds of one element of `waits` pass. -/
def BillingDb.runAlone (p : Billing α) (db : BillingDb) (waits : List Nat) : Except HttpException α × BillingDb :=
  alone BillingDb.exec BillingDb.elapse p db (waits.map fun ms => [ms])

/-- The clock at the first command of a request. -/
def BillingDb.clock (db : BillingDb) (waits : List Nat) : Nat := db.now + waits.headD 0

/-- The subscription that a renewal finds. -/
def BillingDb.found (db : BillingDb) (orgId : Uuid) (pick : Nat) : Option SubscriptionRow :=
  (db.exec (.subscriptionsFindByOrgId orgId pick)).1

/-- The period ends no earlier than before, and no earlier than the months after now. -/
def KeepsPaidTime (now durationMonths : Nat) (before after : SubscriptionRow) : Prop :=
  ∃ e, after.currentPeriodEnd = some e ∧ IsoDate.addMonths now durationMonths ≤ e ∧ ∀ old, before.currentPeriodEnd = some old → old ≤ e

section Renewal

open BillingDb BillingService SubscriptionsRepository

/-- Alone, a command is executed after its wait. -/
theorem BillingDb.runAlone_call {c : BillingCommand} {k : c.Reply → Billing α} (db : BillingDb) (waits : List Nat) :
    runAlone (.call c k) db waits =
      runAlone (k ((db.elapse (waits.headD 0)).exec c).1) ((db.elapse (waits.headD 0)).exec c).2 waits.tail := by
  cases waits <;> rfl

/-- What a renewal sets in the subscription that it finds. -/
def renewalData (now : Nat) (dto : RenewSubscriptionDto) : SubscriptionUpdate :=
  { plan := some dto.plan, status := some .active, currentPeriodStart := some now,
    currentPeriodEnd := some (IsoDate.addMonths now dto.durationMonths) }

/-- A renewal ends the period so many months after now. -/
theorem renewalData_currentPeriodEnd (now : Nat) (dto : RenewSubscriptionDto) (r : SubscriptionRow) :
    ((renewalData now dto).set r).currentPeriodEnd = some (IsoDate.addMonths now dto.durationMonths) := rfl

/-- The end of a renewal: the invoice of the subscription, and the answer with both. -/
def invoiceFor (orgId : Uuid) (now : Nat) (sub : SubscriptionRow) : Billing RenewedSubscription := do
  let invoice ← createInvoice
    { orgId, subscriptionId := sub.id, amount := sub.amount, currency := sub.currency, status := .pending,
      dueAt := IsoDate.addDays now 30 }
  return { subscription := sub, invoice }

/-- The invoice changes no subscription. -/
theorem runAlone_invoiceFor (orgId : Uuid) (now : Nat) (sub : SubscriptionRow) (db : BillingDb) (waits : List Nat) :
    (runAlone (invoiceFor orgId now sub) db waits).2.subscriptions = db.subscriptions ∧
      ∀ renewed, (runAlone (invoiceFor orgId now sub) db waits).1 = .ok renewed → renewed.subscription = sub := by
  unfold invoiceFor createInvoice
  rw [Prog.send_bind, Prog.call_bind, runAlone_call]
  simp only [exec]
  split
  · refine ⟨rfl, ?_⟩
    rintro renewed ⟨⟩
    rfl
  · refine ⟨rfl, ?_⟩
    rintro renewed ⟨⟩

/-- A renewal by a member: the clock, the subscription that is there, a row that is inserted or updated, and the invoice. -/
theorem renewSubscription_eq (drawn : DrawnRenewal) (orgId : Uuid) (dto : RenewSubscriptionDto) :
    renewSubscription drawn orgId (some orgId) dto =
      .call .newDate fun now => .call (.subscriptionsFindByOrgId orgId drawn.pick) fun found =>
        match found with
        | none =>
          create
            { id := drawn.subscriptionId, orgId, plan := dto.plan, status := .active, currentPeriodStart := some now,
              currentPeriodEnd := some (IsoDate.addMonths now dto.durationMonths), gracePeriodEnd := none, amount := 0,
              currency := "SGD" } >>= invoiceFor orgId now
        | some sub => .call (.subscriptionsUpdate sub.id (renewalData now dto)) fun rows => invoiceFor orgId now (rows.head?.getD sub) := by
  unfold renewSubscription assertOrgAccess
  rw [if_neg (not_not_intro rfl)]
  refine congrArg (Prog.call BillingCommand.newDate) (funext fun now => ?_)
  refine congrArg (Prog.call (BillingCommand.subscriptionsFindByOrgId orgId drawn.pick)) (funext fun found => ?_)
  cases found <;> rfl

variable {drawn : DrawnRenewal} {orgId : Uuid} {dto : RenewSubscriptionDto} {db : BillingDb}

/-- The subscription that is found is a row of the table. -/
theorem BillingDb.found_mem {pick : Nat} {sub : SubscriptionRow} (h : db.found orgId pick = some sub) : sub ∈ db.subscriptions :=
  List.mem_of_mem_filter (List.mem_of_getElem? h)

/-- A renewal of a subscription that is there. -/
theorem runAlone_found {sub : SubscriptionRow} (hfound : db.found orgId drawn.pick = some sub) (waits : List Nat) :
    (runAlone (renewSubscription drawn orgId (some orgId) dto) db waits).2.subscriptions =
        Rows.updateAt SubscriptionRow.id sub.id (renewalData (db.clock waits) dto).set db.subscriptions ∧
      ∀ renewed, (runAlone (renewSubscription drawn orgId (some orgId) dto) db waits).1 = .ok renewed →
        ∃ r, renewed.subscription = (renewalData (db.clock waits) dto).set r := by
  have hmem := found_mem hfound
  rw [renewSubscription_eq, runAlone_call, runAlone_call]
  have hagain : ((((db.elapse (waits.headD 0)).exec .newDate).2.elapse (waits.tail.headD 0)).exec
      (.subscriptionsFindByOrgId orgId drawn.pick)).1 = some sub := hfound
  rw [hagain]
  dsimp only
  rw [runAlone_call]
  refine ⟨(runAlone_invoiceFor _ _ _ _ _).1, fun renewed hok => ?_⟩
  rw [(runAlone_invoiceFor _ _ _ _ _).2 renewed hok]
  -- The update has found the row that the query found.
  have hrows : sub ∈ db.subscriptions.filter fun r => r.id = sub.id := by simp [hmem]
  obtain ⟨r, hr⟩ := Option.ne_none_iff_exists'.1 (List.head?_eq_none_iff.not.2 (List.ne_nil_of_mem hrows))
  refine ⟨r, ?_⟩
  change (List.head? ((db.subscriptions.filter fun r => r.id = sub.id).map (renewalData (db.clock waits) dto).set)).getD sub = _
  rw [List.head?_map, hr]
  rfl

/-- A first renewal, which inserts the subscription. -/
theorem runAlone_create {row : SubscriptionRow} (now : Nat) (waits : List Nat) {renewed : RenewedSubscription}
    (hok : (runAlone (create row >>= invoiceFor orgId now) db waits).1 = .ok renewed) : renewed.subscription = row := by
  unfold create at hok
  rw [Prog.send_bind, Prog.call_bind, runAlone_call] at hok
  simp only [exec] at hok
  split at hok
  · exact (runAlone_invoiceFor _ _ _ _ _).2 renewed hok
  · cases hok

/-- The period of a renewed subscription ends the months after the clock. -/
theorem renewed_currentPeriodEnd {userOrgId : Option Uuid} {waits : List Nat} {renewed : RenewedSubscription}
    (hok : (runAlone (renewSubscription drawn orgId userOrgId dto) db waits).1 = .ok renewed) :
    renewed.subscription.currentPeriodEnd = some (IsoDate.addMonths (db.clock waits) dto.durationMonths) := by
  by_cases hmember : userOrgId = some orgId
  · subst hmember
    cases hfound : db.found orgId drawn.pick with
    | some sub =>
      obtain ⟨r, hr⟩ := (runAlone_found hfound waits).2 renewed hok
      rw [hr, renewalData_currentPeriodEnd]
    | none =>
      rw [renewSubscription_eq, runAlone_call, runAlone_call] at hok
      have hagain : ((((db.elapse (waits.headD 0)).exec .newDate).2.elapse (waits.tail.headD 0)).exec
          (.subscriptionsFindByOrgId orgId drawn.pick)).1 = none := hfound
      rw [hagain] at hok
      rw [runAlone_create _ _ hok]
      rfl
  · unfold renewSubscription assertOrgAccess at hok
    rw [if_pos hmember] at hok
    cases hok

/-! ## The end of the period, before and after -/

/-- A renewal leaves the subscription that it finds with all of its paid time exactly when its period did not end later than the months
after now. -/
theorem renewal_keeps_paid_time_iff {sub : SubscriptionRow} (hfound : db.found orgId drawn.pick = some sub) (waits : List Nat) :
    (∀ r ∈ (runAlone (renewSubscription drawn orgId (some orgId) dto) db waits).2.subscriptions, r.id = sub.id →
        KeepsPaidTime (db.clock waits) dto.durationMonths sub r) ↔
      ∀ old, sub.currentPeriodEnd = some old → old ≤ IsoDate.addMonths (db.clock waits) dto.durationMonths := by
  rw [(runAlone_found hfound waits).1]
  constructor
  · intro h old hold
    have hrow : (renewalData (db.clock waits) dto).set sub ∈
        Rows.updateAt SubscriptionRow.id sub.id (renewalData (db.clock waits) dto).set db.subscriptions :=
      List.mem_map.2 ⟨sub, found_mem hfound, if_pos rfl⟩
    obtain ⟨e, he, -, hkept⟩ := h _ hrow rfl
    rw [renewalData_currentPeriodEnd, Option.some.injEq] at he
    exact he ▸ hkept old hold
  · intro h r' hr' hid
    obtain ⟨r, -, rfl⟩ := List.mem_map.1 hr'
    split at hid
    · rename_i hr
      rw [if_pos hr]
      exact ⟨_, renewalData_currentPeriodEnd _ _ _, le_rfl, h⟩
    · rename_i hr
      exact absurd hid hr

end Renewal

namespace Sample

/-- 2026-03-11. -/
def march11 : Nat := 1773187200000

def subscription (currentPeriodEnd : Nat) : SubscriptionRow :=
  { id := .given 10, orgId := .given 1, plan := .pro, status := .active, currentPeriodStart := some 0, currentPeriodEnd := some currentPeriodEnd,
    gracePeriodEnd := none, amount := 0, currency := "SGD" }

/-- An organisation with a subscription. -/
def subscribed (now currentPeriodEnd : Nat) : BillingDb :=
  { now, users := [], organizations := [{ id := .given 1, name := "o", legalName := none, createdByUserId := none }],
    subscriptions := [subscription currentPeriodEnd], invoices := [], preferences := [], notifications := [] }

def drawnRenewal : DrawnRenewal := { subscriptionId := .given 20, pick := 0 }

/-- The organisation renews its subscription. -/
def renew (durationMonths : Nat) : Billing RenewedSubscription :=
  BillingService.renewSubscription drawnRenewal (.given 1) (some (.given 1)) { plan := .pro, durationMonths }

end Sample

/-- A subscription that ends today is renewed for a year. -/
theorem renewal_keeps_paid_time_sample :
    (Sample.subscribed Sample.march11 Sample.march11).found (.given 1) Sample.drawnRenewal.pick = some (Sample.subscription Sample.march11) ∧
      ∀ r ∈ ((Sample.subscribed Sample.march11 Sample.march11).runAlone (Sample.renew 12) []).2.subscriptions, r.id = .given 10 →
        KeepsPaidTime Sample.march11 12 (Sample.subscription Sample.march11) r := by
  have hfound : (Sample.subscribed Sample.march11 Sample.march11).found (.given 1) Sample.drawnRenewal.pick =
      some (Sample.subscription Sample.march11) := rfl
  refine ⟨hfound, (renewal_keeps_paid_time_iff hfound []).2 ?_⟩
  rintro old ⟨⟩
  decide +kernel

/-- A subscription with a year left is renewed for a month. -/
theorem renewal_shortens_period :
    (Sample.subscribed Sample.march11 (IsoDate.addMonths Sample.march11 12)).found (.given 1) Sample.drawnRenewal.pick =
        some (Sample.subscription (IsoDate.addMonths Sample.march11 12)) ∧
      ¬ ∀ r ∈ ((Sample.subscribed Sample.march11 (IsoDate.addMonths Sample.march11 12)).runAlone (Sample.renew 1) []).2.subscriptions,
        r.id = .given 10 → KeepsPaidTime Sample.march11 1 (Sample.subscription (IsoDate.addMonths Sample.march11 12)) r := by
  refine ⟨rfl, fun h => ?_⟩
  obtain ⟨e, he, -, hkept⟩ := h _ (List.mem_singleton_self _) rfl
  have hmonth : e = IsoDate.addMonths Sample.march11 1 := (Option.some.inj he).symm
  rw [hmonth] at hkept
  exact absurd (hkept _ rfl) (by decide +kernel)

/-! ## The end of the period, as a function of the clock -/

section Clock

open IsoDate

variable {drawn drawn' : DrawnRenewal} {orgId orgId' : Uuid} {userOrgId userOrgId' : Option Uuid} {plan plan' : BillingPlan}
  {durationMonths : Nat} {db db' : BillingDb} {waits waits' : List Nat} {renewed renewed' : RenewedSubscription}

/-- Of two renewals for the same months the one by the later clock has the later end, unless its clock is in the next calendar month and the
day of the other one runs over the month that it is moved to, and past it. -/
theorem period_end_le_iff
    (hok : (db.runAlone (BillingService.renewSubscription drawn orgId userOrgId { plan, durationMonths }) waits).1 = .ok renewed)
    (hok' : (db'.runAlone (BillingService.renewSubscription drawn' orgId' userOrgId' { plan := plan', durationMonths }) waits').1 = .ok renewed')
    (hclock : db.clock waits ≤ db'.clock waits') :
    ∃ e e', renewed.subscription.currentPeriodEnd = some e ∧ renewed'.subscription.currentPeriodEnd = some e' ∧
      (e ≤ e' ↔ ¬ (monthIndex (db'.clock waits') = monthIndex (db.clock waits) + 1 ∧
        monthLength (monthIndex (db.clock waits) + durationMonths) + sinceMonthStart (db'.clock waits') <
          sinceMonthStart (db.clock waits))) :=
  ⟨_, _, renewed_currentPeriodEnd hok, renewed_currentPeriodEnd hok', addMonths_le_iff hclock durationMonths⟩

end Clock

namespace Sample

/-- 2024-01-31, and the day after. -/
def january31 : Nat := 1706659200000
def february1 : Nat := january31 + 86400000

/-- The answer to a renewal for a month. -/
def renewedAt (now : Nat) : RenewedSubscription :=
  { subscription := (renewalData now { plan := .pro, durationMonths := 1 }).set (subscription now)
    invoice := { orgId := .given 1, subscriptionId := .given 10, amount := 0, currency := "SGD", status := .pending,
                 dueAt := IsoDate.addDays now 30 } }

/-- The first renewal of the sample, for one month. -/
theorem renew_ok (now : Nat) : ((subscribed now now).runAlone (renew 1) []).1 = .ok (renewedAt now) := rfl

end Sample

/-- Two renewals a day apart, in one month. -/
theorem period_end_le_iff_sample :
    ∃ e e', (Sample.renewedAt Sample.february1).subscription.currentPeriodEnd = some e ∧
      (Sample.renewedAt (Sample.february1 + 86400000)).subscription.currentPeriodEnd = some e' ∧ e ≤ e' := by
  obtain ⟨e, e', he, he', hiff⟩ := period_end_le_iff (Sample.renew_ok Sample.february1) (Sample.renew_ok (Sample.february1 + 86400000)) (by decide)
  exact ⟨e, e', he, he', hiff.2 (by decide +kernel)⟩

/-- A month from January 31 is March 2, and a month from February 1 is March 1. -/
theorem period_end_goes_back :
    ((Sample.subscribed Sample.january31 Sample.january31).runAlone (Sample.renew 1) []).1 = .ok (Sample.renewedAt Sample.january31) ∧
      ((Sample.subscribed Sample.february1 Sample.february1).runAlone (Sample.renew 1) []).1 = .ok (Sample.renewedAt Sample.february1) ∧
      Sample.january31 ≤ Sample.february1 ∧
      ∃ e e', (Sample.renewedAt Sample.january31).subscription.currentPeriodEnd = some e ∧
        (Sample.renewedAt Sample.february1).subscription.currentPeriodEnd = some e' ∧ e' < e :=
  ⟨rfl, rfl, by decide, _, _, rfl, rfl, by decide +kernel⟩

end BrineVault
