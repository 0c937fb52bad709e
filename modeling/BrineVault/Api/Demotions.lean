import BrineVault.Api.Monitor

/-!
# Renewals beside the daily run

The monitor selects rows first and writes to them later, by their ids and whatever they hold by then. Any number of renewals take turns with it.
A subscription that is renewed between the two is moved to its grace period, or suspended, although it has been paid for.
-/

namespace BrineVault

open Interleaving

/-- The programs over the tables of the billing. -/
abbrev BillingPool := Interleaving.Pool BillingCommand BillingCommand.Reply BillingDb HttpException Unit

namespace BillingPool

def run (m : BillingPool) (turns : List (Turn Nat)) : Except Nat BillingPool := Steps.run (step BillingDb.exec BillingDb.elapse) m turns

end BillingPool

/-- A call of `renewSubscription`. -/
structure RenewCall where
  drawn : DrawnRenewal
  orgId : Uuid
  userOrgId : Option Uuid
  dto : RenewSubscriptionDto
  deriving DecidableEq, Repr

def RenewCall.program (c : RenewCall) : Billing Unit := do
  let _ ← BillingService.renewSubscription c.drawn c.orgId c.userOrgId c.dto
  return ()

/-- The monitor, and renewals beside it. -/
def daily (text : Uuid → String) (db : BillingDb) (calls : List RenewCall) : BillingPool :=
  { store := db, threads := SubscriptionMonitorService.handleCron text :: calls.map RenewCall.program }

/-! ## What a run is to keep -/

/-- The status that a pass moves a subscription to. -/
def Due.status : Due → SubscriptionStatus
  | expiring => .grace_period
  | gracePeriodExpired => .suspended

/-- The two passes look for different statuses. -/
theorem Due.status_injective : Function.Injective Due.status := by
  intro due due' h
  cases due <;> cases due' <;> first | rfl | cases h

/-- The command is the query of a pass, by this reading of the clock. -/
def Finds (due : Due) (now : Nat) (c : BillingCommand) (_ : c.Reply) : Prop := c = .subscriptionsFind due now

/-- The command moves the subscription as the pass does. -/
def Moves (due : Due) (id : Uuid) (c : BillingCommand) : Prop :=
  ∃ data, c = .subscriptionsUpdate id data ∧ data.status = some due.status

/-- The period of the subscription ends after this time. -/
def PaidUp (now : Nat) (r : SubscriptionRow) : Prop := ∃ e, r.currentPeriodEnd = some e ∧ now < e

/-- The program with number 0, which is the monitor, has selected rows by this reading of its clock. -/
def HasSelected (m₀ : BillingPool) (past : List (Turn Nat)) (due : Due) (now : Nat) : Prop :=
  Heard BillingDb.exec BillingDb.elapse (Finds due now) m₀ past 0

/-- The monitor has moved the subscription. -/
def HasMoved (m₀ : BillingPool) (past : List (Turn Nat)) (due : Due) (id : Uuid) : Prop :=
  Heard BillingDb.exec BillingDb.elapse (fun c _ => Moves due id c) m₀ past 0

/-- No subscription is where the monitor has moved it in this run although its period ends after the clock that the monitor moved it by. -/
def NeverDemoted (m₀ : BillingPool) (turns : List (Turn Nat)) (m : BillingPool) : Prop :=
  ∀ r ∈ m.store.subscriptions, ∀ due now, HasSelected m₀ turns due now → HasMoved m₀ turns due r.id → r.status = due.status →
    ¬ PaidUp now r

/-- The monitor is bound to move the subscription. -/
def IsSelected (m : BillingPool) (due : Due) (id : Uuid) : Prop := ∃ p, m.threads[0]? = some p ∧ p.Sends (Moves due id)

/-- In the turn a subscription that the monitor has selected, and has not moved yet, is given a period that ends after the monitor's clock. -/
def RenewsSelected (m₀ : BillingPool) (past : List (Turn Nat)) (m : BillingPool) (t : Turn Nat) : Prop :=
  ∃ i id data k due now e, t = .thread i ∧ m.threads[i]? = some (.call (.subscriptionsUpdate id data) k) ∧
    HasSelected m₀ past due now ∧ IsSelected m due id ∧ data.currentPeriodEnd = some e ∧ now < e

/-- In the turn the monitor selects for suspension a subscription whose period ends after its clock. -/
def SelectsPaidUp (m : BillingPool) (t : Turn Nat) : Prop :=
  ∃ now k, t = .thread 0 ∧ m.threads[0]? = some (.call (.subscriptionsFind .gracePeriodExpired now) k) ∧
    ∃ r ∈ m.store.subscriptions, Due.gracePeriodExpired.Finds now r ∧ PaidUp now r

/-! ## Where the monitor is -/

namespace Due

open SubscriptionMonitorService NotificationDispatcherService SubscriptionsRepository

/-- What a pass sets in the rows it selects. -/
def data (due : Due) (now : Nat) : SubscriptionUpdate :=
  match due with
  | expiring => { status := some .grace_period, gracePeriodEnd := some (IsoDate.addDays now 14) }
  | gracePeriodExpired => { status := some .suspended }

variable (text : Uuid → String)

/-- The notice of a pass. -/
def payload (due : Due) (sub : SubscriptionRow) : DispatchPayload :=
  match due with
  | expiring =>
    { type := .subscription_expiring
      title := "Subscription expired for org " ++ text sub.orgId
      body := some ("Your " ++ planText sub.plan ++ " subscription has expired. You have a 14-day grace period.")
      recipientUserIds := [sub.orgId] }
  | gracePeriodExpired =>
    { type := .subscription_expired
      title := "Account suspended for org " ++ text sub.orgId
      body := some "Your grace period has ended. Account is now suspended."
      recipientUserIds := [sub.orgId] }

def pass (due : Due) : Billing Unit :=
  check (fun now => Prog.send (BillingCommand.subscriptionsFind due now)) due.data (due.payload text)

/-- `checkExpiring` is the pass over the expiring subscriptions. -/
theorem checkExpiring_eq : checkExpiring text = expiring.pass text := rfl

/-- `checkGracePeriodExpired` is the pass over those whose period of grace is over. -/
theorem checkGracePeriodExpired_eq : checkGracePeriodExpired text = gracePeriodExpired.pass text := rfl

/-- What the monitor does after a pass. -/
def followedBy : Due → Billing Unit
  | expiring => gracePeriodExpired.pass text
  | gracePeriodExpired => .ret ()

/-- What is left of the monitor when a pass has these rows to go through. -/
def goThrough (due : Due) (now : Nat) (subs : List SubscriptionRow) : Billing Unit :=
  logErrors <|
    Prog.forEach
      (fun sub => logErrors do
        let _ ← update sub.id (due.data now)
        dispatch (due.payload text sub))
      subs >>= fun _ => due.followedBy text

/-- A row costs two commands, and the notice that is refused is passed over. -/
theorem goThrough_cons (due : Due) (now : Nat) (sub : SubscriptionRow) (subs : List SubscriptionRow) :
    due.goThrough text now (sub :: subs) =
      .call (.subscriptionsUpdate sub.id (due.data now)) fun _ =>
        .call (.notificationsCreate (notification (due.payload text sub) sub.orgId)) fun _ => due.goThrough text now subs := by
  have hnotice : dispatch (due.payload text sub) =
      .call (.notificationsCreate (notification (due.payload text sub) sub.orgId)) fun _ => .ret () := by
    cases due <;>
      exact congrArg (Prog.call _) (funext fun sent => by cases sent <;> rfl)
  simp only [goThrough, update, Prog.forEach_cons, Prog.send_bind, hnotice]
  rfl

end Due

/-- Where the monitor is: before each of its commands, with what it holds, and at its end. -/
inductive MonitorStage where
  | readClock (due : Due)
  | select (due : Due) (now : Nat)
  | move (due : Due) (now : Nat) (sub : SubscriptionRow) (subs : List SubscriptionRow)
  | notify (due : Due) (now : Nat) (sub : SubscriptionRow) (subs : List SubscriptionRow)
  | done

namespace MonitorStage

/-- What is left of the monitor. -/
def program (text : Uuid → String) : MonitorStage → Billing Unit
  | readClock due => logErrors (due.pass text >>= fun _ => due.followedBy text)
  | select due now => .call (.subscriptionsFind due now) fun subs => due.goThrough text now subs
  | move due now sub subs => due.goThrough text now (sub :: subs)
  | notify due now sub subs =>
    .call (.notificationsCreate (NotificationDispatcherService.notification (due.payload text sub) sub.orgId)) fun _ =>
      due.goThrough text now subs
  | done => .ret ()

/-- Where the monitor goes through rows, or goes on when there are none left. -/
def through (due : Due) (now : Nat) : List SubscriptionRow → MonitorStage
  | [] =>
    match due with
    | .expiring => readClock .gracePeriodExpired
    | .gracePeriodExpired => done
  | sub :: subs => move due now sub subs

/-- Where the monitor is after its next command. -/
def next (db : BillingDb) : MonitorStage → MonitorStage
  | readClock due => select due db.now
  | select due now => through due now (db.subscriptions.filter fun r => due.Finds now r)
  | move due now sub subs => notify due now sub subs
  | notify due now _ subs => through due now subs
  | done => done

/-- The command the monitor sends next. -/
def command (text : Uuid → String) : MonitorStage → Option BillingCommand
  | readClock _ => some .newDate
  | select due now => some (.subscriptionsFind due now)
  | move due now sub _ => some (.subscriptionsUpdate sub.id (due.data now))
  | notify due _ sub _ => some (.notificationsCreate (NotificationDispatcherService.notification (due.payload text sub) sub.orgId))
  | done => none

variable {text : Uuid → String}

/-- The job starts at its first clock. -/
theorem program_start : program text (readClock .expiring) = SubscriptionMonitorService.handleCron text := by
  rw [SubscriptionMonitorService.handleCron, Due.checkExpiring_eq, Due.checkGracePeriodExpired_eq]
  rfl

/-- A stage in a pass is the pass over what is left of it. -/
theorem program_through (due : Due) (now : Nat) (subs : List SubscriptionRow) :
    program text (through due now subs) = due.goThrough text now subs := by
  cases subs with
  | cons sub subs => rfl
  | nil =>
    cases due with
    | gracePeriodExpired => rfl
    | expiring =>
      change logErrors (Due.gracePeriodExpired.pass text >>= fun _ => .ret ()) = logErrors (Due.gracePeriodExpired.pass text)
      rw [Prog.bind_unit]

/-- A program that sends the command of its stage. -/
theorem program_eq_call {s : MonitorStage} {c : BillingCommand} {k : c.Reply → Billing Unit} (h : s.program text = .call c k) :
    s.command text = some c := by
  cases s with
  | readClock due => cases h; rfl
  | select due now => cases h; rfl
  | move due now sub subs =>
    rw [program, Due.goThrough_cons] at h
    cases h
    rfl
  | notify due now sub subs => cases h; rfl
  | done => cases h

/-- A command of the job leads to its next stage. -/
theorem program_next {s : MonitorStage} {db : BillingDb} {c : BillingCommand} {k : c.Reply → Billing Unit}
    (h : s.program text = .call c k) : k (db.exec c).1 = (s.next db).program text := by
  cases s with
  | readClock due => cases h; rfl
  | select due now =>
    cases h
    exact (program_through due now _).symm
  | move due now sub subs =>
    rw [program, Due.goThrough_cons, Prog.call.injEq] at h
    obtain ⟨rfl, hk⟩ := h
    rw [← eq_of_heq hk]
    rfl
  | notify due now sub subs =>
    cases h
    exact (program_through due now _).symm
  | done => cases h

/-- The row is one that the monitor has selected by this reading of its clock, and is yet to move. -/
def Awaits (due : Due) (now : Nat) (sub : SubscriptionRow) : MonitorStage → Prop
  | move due' now' sub' subs => due' = due ∧ now' = now ∧ sub ∈ sub' :: subs
  | notify due' now' _ subs => due' = due ∧ now' = now ∧ sub ∈ subs
  | _ => False

/-- The monitor is before the query of the pass. -/
def IsBefore (due : Due) : MonitorStage → Prop
  | readClock due' => due' = due ∨ due = .gracePeriodExpired
  | select due' _ => due' = due ∨ due = .gracePeriodExpired
  | move due' .. => due' = .expiring ∧ due = .gracePeriodExpired
  | notify due' .. => due' = .expiring ∧ due = .gracePeriodExpired
  | done => False

/-- In a pass only a subscription selected by it waits. -/
theorem awaits_through {due due' : Due} {now now' : Nat} {sub : SubscriptionRow} {subs : List SubscriptionRow}
    (h : (through due' now' subs).Awaits due now sub) : due' = due ∧ now' = now ∧ sub ∈ subs := by
  cases subs with
  | cons => exact h
  | nil => cases due' <;> cases h

/-- A pass that comes before another is the first of the two. -/
theorem isBefore_through {due due' : Due} {now : Nat} {subs : List SubscriptionRow} (h : (through due' now subs).IsBefore due) :
    due' = .expiring ∧ due = .gracePeriodExpired := by
  cases subs with
  | cons => exact h
  | nil =>
    cases due' with
    | expiring => exact ⟨rfl, (or_self_iff.1 (h.imp_left Eq.symm))⟩
    | gracePeriodExpired => cases h

/-- The monitor is bound to move the rows that it has selected. -/
theorem goThrough_sends {due : Due} {now : Nat} {subs : List SubscriptionRow} {sub : SubscriptionRow} (h : sub ∈ subs) :
    (due.goThrough text now subs).Sends (Moves due sub.id) := by
  induction subs with
  | nil => cases h
  | cons x subs ih =>
    rw [Due.goThrough_cons]
    rcases List.mem_cons.1 h with rfl | h
    · exact .inl ⟨_, rfl, by cases due <;> rfl⟩
    · exact .inr fun _ => .inr fun _ => ih h

/-- A subscription that waits is moved by the next command. -/
theorem sends_of_awaits {s : MonitorStage} {due : Due} {now : Nat} {sub : SubscriptionRow} (h : s.Awaits due now sub) :
    (s.program text).Sends (Moves due sub.id) := by
  cases s with
  | move due' now' sub' subs =>
    obtain ⟨rfl, rfl, h⟩ := h
    exact goThrough_sends h
  | notify due' now' sub' subs =>
    obtain ⟨rfl, rfl, h⟩ := h
    exact .inr fun _ => goThrough_sends h
  | readClock => cases h
  | select => cases h
  | done => cases h

end MonitorStage

/-! ## What a renewal sends -/

/-- The commands of a renewal. -/
def BillingCommand.Renews : BillingCommand → Prop
  | .newDate => True
  | .subscriptionsFindByOrgId .. => True
  | .subscriptionsCreate row => row.status = .active
  | .subscriptionsUpdate _ data => data.status = some .active
  | .invoicesCreate _ => True
  | _ => False

/-- A renewal sends only what renews. -/
theorem RenewCall.keeps_program (c : RenewCall) : Keeps (allowing BillingCommand.Renews) (fun _ _ => True) () c.program := by
  unfold RenewCall.program BillingService.renewSubscription BillingService.assertOrgAccess
  split
  · trivial
  · refine ⟨trivial, fun now => ⟨trivial, fun found => ?_⟩⟩
    cases found with
    | none =>
      refine ⟨rfl, fun sent => ?_⟩
      cases sent with
      | false => trivial
      | true => exact ⟨trivial, fun sent => by cases sent <;> trivial⟩
    | some sub => exact ⟨rfl, fun rows => ⟨trivial, fun sent => by cases sent <;> trivial⟩⟩

/-- What a command of a renewal does to the subscriptions: the ids stay, and a row that is new or changed is active. -/
structure Renewing (c : BillingCommand) (db db' : BillingDb) : Prop where
  ids : (db'.subscriptions.map SubscriptionRow.id).Nodup
  stays : ∀ r ∈ db.subscriptions, ∃ r' ∈ db'.subscriptions, r'.id = r.id
  rows : ∀ r' ∈ db'.subscriptions, r' ∈ db.subscriptions ∨ r'.status = .active ∧
    ((∀ r ∈ db.subscriptions, r.id ≠ r'.id) ∨ ∃ r ∈ db.subscriptions, ∃ data, c = .subscriptionsUpdate r'.id data ∧ r.id = r'.id ∧
      r' = data.set r)

/-- Where the subscriptions stay the same, nothing was changed but by a renewal. -/
theorem renewing_of_same {c : BillingCommand} {db db' : BillingDb} (hids : (db.subscriptions.map SubscriptionRow.id).Nodup)
    (h : db'.subscriptions = db.subscriptions) : Renewing c db db' :=
  ⟨h ▸ hids, fun r hr => ⟨r, h ▸ hr, rfl⟩, fun _ hr => .inl (h ▸ hr)⟩

/-- An update keeps the ids. -/
theorem updateAt_ids (db : BillingDb) (id : Uuid) (data : SubscriptionUpdate) :
    (Rows.updateAt SubscriptionRow.id id data.set db.subscriptions).map SubscriptionRow.id =
      db.subscriptions.map SubscriptionRow.id := by
  rw [Rows.updateAt, List.map_map]
  refine List.map_congr_left fun r _ => ?_
  rw [Function.comp_apply]
  split <;> rfl

/-- A row after an update is a row that was there, or such a row with the columns set. -/
theorem mem_updateAt {db : BillingDb} {id : Uuid} {data : SubscriptionUpdate} {r' : SubscriptionRow} :
    r' ∈ Rows.updateAt SubscriptionRow.id id data.set db.subscriptions ↔
      ∃ r ∈ db.subscriptions, r.id ≠ id ∧ r' = r ∨ r.id = id ∧ r' = data.set r := by
  rw [Rows.updateAt, List.mem_map]
  refine exists_congr fun r => ?_
  by_cases hid : r.id = id
  · simp [hid, eq_comm]
  · simp [hid, eq_comm]

/-- Every command of a renewal renews, or leaves the subscriptions as they are. -/
theorem exec_renews {c : BillingCommand} {db : BillingDb} (hids : (db.subscriptions.map SubscriptionRow.id).Nodup) (hc : BillingCommand.Renews c) :
    Renewing c db (db.exec c).2 := by
  cases c with
  | newDate => exact renewing_of_same hids rfl
  | subscriptionsFindByOrgId => exact renewing_of_same hids rfl
  | invoicesCreate row =>
    refine renewing_of_same hids ?_
    simp only [BillingDb.exec]
    split <;> rfl
  | subscriptionsCreate row =>
    simp only [BillingDb.exec]
    split
    · rename_i hnew
      refine ⟨?_, ?_, ?_⟩
      · rw [List.map_append, List.nodup_append]
        refine ⟨hids, List.nodup_singleton _, ?_⟩
        intro id hid id' hid'
        obtain ⟨r, hr, rfl⟩ := List.mem_map.1 hid
        rw [List.mem_singleton.1 hid']
        exact hnew.2 r hr
      · intro r hr
        exact ⟨r, List.mem_append_left _ hr, rfl⟩
      · intro r' hr'
        rcases List.mem_append.1 hr' with hr' | hr'
        · exact .inl hr'
        · rw [List.mem_singleton.1 hr']
          exact .inr ⟨hc, .inl hnew.2⟩
    · exact renewing_of_same hids rfl
  | subscriptionsUpdate id data =>
    have hactive : data.status = some .active := hc
    refine ⟨?_, ?_, ?_⟩
    · exact (updateAt_ids db id data).symm ▸ hids
    · intro r hr
      by_cases hid : r.id = id
      · exact ⟨data.set r, mem_updateAt.2 ⟨r, hr, .inr ⟨hid, rfl⟩⟩, rfl⟩
      · exact ⟨r, mem_updateAt.2 ⟨r, hr, .inl ⟨hid, rfl⟩⟩, rfl⟩
    · intro r' hr'
      obtain ⟨r, hr, ⟨-, rfl⟩ | ⟨rfl, rfl⟩⟩ := mem_updateAt.1 hr'
      · exact .inl hr
      · refine .inr ⟨?_, .inr ⟨r, hr, data, rfl, rfl, rfl⟩⟩
        simp [SubscriptionUpdate.set, hactive]
  | subscriptionsFind => cases hc
  | preferencesFindByUserId => cases hc
  | notificationsCreate => cases hc

/-! ## The invariant -/

/-- The state of a run: where the monitor is, the clocks of the passes that have selected their rows, and that what it has selected and moved was
not paid up by these clocks. -/
structure MonitorState (text : Uuid → String) (m₀ : BillingPool) (past : List (Turn Nat)) (m : BillingPool) (s : MonitorStage)
    (clocks : Due → Option Nat) : Prop where
  monitor : m.threads[0]? = some (s.program text)
  renewals : ∀ i p, m.threads[i + 1]? = some p → Keeps (allowing BillingCommand.Renews) (fun _ _ => True) () p
  ids : (m.store.subscriptions.map SubscriptionRow.id).Nodup
  selected : ∀ due now, HasSelected m₀ past due now ↔ clocks due = some now
  before : ∀ due, s.IsBefore due → clocks due = none
  moved : ∀ due id, HasMoved m₀ past due id → clocks due ≠ none
  awaits : ∀ due now sub, s.Awaits due now sub → clocks due = some now ∧ (∃ r ∈ m.store.subscriptions, r.id = sub.id) ∧
    ∀ r ∈ m.store.subscriptions, r.id = sub.id → ¬ PaidUp now r
  kept : ∀ r ∈ m.store.subscriptions, ∀ due now, clocks due = some now → HasMoved m₀ past due r.id → r.status = due.status →
    ¬ PaidUp now r

variable {text : Uuid → String} {m₀ m n : BillingPool} {past : List (Turn Nat)} {t : Turn Nat} {s : MonitorStage}
  {clocks : Due → Option Nat}

/-- A selection moves no subscription. -/
theorem not_moves_find {due due' : Due} {id : Uuid} {now : Nat} : ¬ Moves due id (.subscriptionsFind due' now) := by
  rintro ⟨data, hc, -⟩
  cases hc

theorem not_moves_create {due : Due} {id : Uuid} {row : NotificationRow} : ¬ Moves due id (.notificationsCreate row) := by
  rintro ⟨data, hc, -⟩
  cases hc

/-- A turn of the monitor that queries nothing selects nothing. -/
theorem hasSelected_snoc_iff (hr : m₀.run past = .ok m) {c : BillingCommand} {k : c.Reply → Billing Unit}
    (h0 : m.threads[0]? = some (.call c k)) {due : Due} {now : Nat} (hno : c ≠ .subscriptionsFind due now) :
    HasSelected m₀ (past ++ [.thread 0]) due now ↔ HasSelected m₀ past due now := by
  rw [HasSelected, heard_snoc_self hr h0]
  exact or_iff_left hno

/-- A command that moves nothing leaves who was moved. -/
theorem hasMoved_snoc_iff (hr : m₀.run past = .ok m) {c : BillingCommand} {k : c.Reply → Billing Unit}
    (h0 : m.threads[0]? = some (.call c k)) {due : Due} {id : Uuid} (hno : ¬ Moves due id c) :
    HasMoved m₀ (past ++ [.thread 0]) due id ↔ HasMoved m₀ past due id := by
  rw [HasMoved, heard_snoc_self hr h0]
  exact or_iff_left hno

/-- Nobody was demoted in the state the invariant describes. -/
theorem MonitorState.neverDemoted (h : MonitorState text m₀ past m s clocks) : NeverDemoted m₀ past m := by
  intro r hr due now hsel hmoved hstatus
  exact h.kept r hr due now ((h.selected due now).1 hsel) hmoved hstatus

/-- The state at the start. -/
theorem monitorState_start {db : BillingDb} {calls : List RenewCall} (hids : (db.subscriptions.map SubscriptionRow.id).Nodup) :
    MonitorState text (daily text db calls) [] (daily text db calls) (.readClock .expiring) fun _ => none where
  monitor := congrArg some MonitorStage.program_start.symm
  renewals := by
    intro i p hp
    have hp' : (calls.map RenewCall.program)[i]? = some p := hp
    obtain ⟨c, hc, rfl⟩ := List.mem_map.1 (List.mem_of_getElem? hp')
    exact c.keeps_program
  ids := hids
  selected := by
    intro due now
    exact ⟨fun h => absurd h not_heard_nil, fun h => by cases h⟩
  before := fun _ _ => rfl
  moved := fun _ _ h => absurd h not_heard_nil
  awaits := fun _ _ _ h => h.elim
  kept := fun _ _ _ _ h => by cases h

/-- A turn of no concern to the monitor. -/
theorem MonitorState.other (h : MonitorState text m₀ past m s clocks) (hr : m₀.run past = .ok m) (ht : t ≠ .thread 0)
    (hmonitor : n.threads[0]? = m.threads[0]?)
    (hrenewals : ∀ i p, n.threads[i + 1]? = some p → Keeps (allowing BillingCommand.Renews) (fun _ _ => True) () p) {c : BillingCommand}
    (hstore : Renewing c m.store n.store)
    (hawaits : ∀ due now sub r data, s.Awaits due now sub → c = .subscriptionsUpdate sub.id data → r ∈ m.store.subscriptions →
      r.id = sub.id → ¬ PaidUp now (data.set r)) :
    MonitorState text m₀ (past ++ [t]) n s clocks where
  monitor := hmonitor.trans h.monitor
  renewals := hrenewals
  ids := hstore.ids
  selected := by
    intro due now
    rw [HasSelected, heard_snoc_other hr ht]
    exact h.selected due now
  before := h.before
  moved := by
    intro due id hmoved
    rw [HasMoved, heard_snoc_other hr ht] at hmoved
    exact h.moved due id hmoved
  awaits := by
    intro due now sub hsub
    obtain ⟨hclock, ⟨r, hr, hid⟩, hnot⟩ := h.awaits due now sub hsub
    obtain ⟨r', hr', hid'⟩ := hstore.stays r hr
    refine ⟨hclock, ⟨r', hr', hid'.trans hid⟩, ?_⟩
    intro r' hr' hid'
    rcases hstore.rows r' hr' with hold | ⟨-, hnew | ⟨r, hr, data, hc, hrid, rfl⟩⟩
    · exact hnot r' hold hid'
    · exact absurd (hid.trans hid'.symm) (hnew r hr)
    · exact hawaits due now sub r data hsub (hid' ▸ hc) hr (hrid.trans hid')
  kept := by
    intro r hr' due now hclock hmoved hstatus
    rw [HasMoved, heard_snoc_other hr ht] at hmoved
    rcases hstore.rows r hr' with hold | ⟨hactive, -⟩
    · exact h.kept r hold due now hclock hmoved hstatus
    · rw [hactive] at hstatus
      cases due <;> cases hstatus

/-- A turn of a renewal, when it does not overtake the monitor. -/
theorem MonitorState.renewal (h : MonitorState text m₀ past m s clocks) (hr : m₀.run past = .ok m) {i : Nat} {c : BillingCommand}
    {k : c.Reply → Billing Unit} (hi : m.threads[i + 1]? = some (.call c k))
    (hgood : ¬ RenewsSelected m₀ past m (.thread (i + 1))) :
    MonitorState text m₀ (past ++ [.thread (i + 1)])
      { store := (m.store.exec c).2, threads := m.threads.set (i + 1) (k (m.store.exec c).1) } s clocks := by
  have hkeeps := h.renewals i _ hi
  refine h.other hr (by simp) (by simp) ?_ (exec_renews h.ids hkeeps.1) ?_
  · intro j p hp
    by_cases hij : j = i
    · subst hij
      have hlt : j + 1 < m.threads.length := (List.getElem?_eq_some_iff.1 hi).1
      rw [List.getElem?_set_self hlt, Option.some.injEq] at hp
      subst hp
      exact hkeeps.2 _
    · rw [List.getElem?_set_ne (by omega)] at hp
      exact h.renewals j p hp
  · rintro due now sub r data hsub rfl hmem hid ⟨e, he, hlt⟩
    obtain ⟨hclock, -, hnot⟩ := h.awaits due now sub hsub
    simp only [SubscriptionUpdate.set] at he
    cases hend : data.currentPeriodEnd with
    | none =>
      rw [hend, Option.none_or] at he
      exact hnot r hmem hid ⟨e, he, hlt⟩
    | some e' =>
      rw [hend, Option.some_or, Option.some.injEq] at he
      subst he
      exact hgood ⟨i + 1, sub.id, data, k, due, now, e', rfl, hi, (h.selected due now).2 hclock,
        ⟨_, h.monitor, MonitorStage.sends_of_awaits hsub⟩, hend, hlt⟩

/-- A turn of the monitor that neither selects rows nor moves one. -/
theorem MonitorState.quiet (h : MonitorState text m₀ past m s clocks) (hr : m₀.run past = .ok m) {c : BillingCommand}
    {k : c.Reply → Billing Unit} (h0 : m.threads[0]? = some (.call c k)) {s' : MonitorStage}
    (hmonitor : n.threads[0]? = some (s'.program text))
    (hrenewals : ∀ i p, n.threads[i + 1]? = some p → Keeps (allowing BillingCommand.Renews) (fun _ _ => True) () p)
    (hstore : n.store.subscriptions = m.store.subscriptions) (hfinds : ∀ due now, c ≠ .subscriptionsFind due now)
    (hmoves : ∀ due id, ¬ Moves due id c) (hawaits : ∀ due now sub, s'.Awaits due now sub → s.Awaits due now sub)
    (hbefore : ∀ due, s'.IsBefore due → s.IsBefore due) : MonitorState text m₀ (past ++ [.thread 0]) n s' clocks where
  monitor := hmonitor
  renewals := hrenewals
  ids := hstore ▸ h.ids
  selected := by
    intro due now
    exact (hasSelected_snoc_iff hr h0 (hfinds due now)).trans (h.selected due now)
  before := fun due hs => h.before due (hbefore due hs)
  moved := by
    intro due id hmoved
    exact h.moved due id ((hasMoved_snoc_iff hr h0 (hmoves due id)).1 hmoved)
  awaits := by
    intro due now sub hsub
    rw [hstore]
    exact h.awaits due now sub (hawaits due now sub hsub)
  kept := by
    intro r hr' due now hclock hmoved hstatus
    exact h.kept r (hstore ▸ hr') due now hclock ((hasMoved_snoc_iff hr h0 (hmoves due r.id)).1 hmoved) hstatus

/-- What a pass selects is not paid up by its clock: for the first pass that is its query. -/
theorem not_paidUp_of_finds {due : Due} {now : Nat} {r : SubscriptionRow} (hr : r ∈ m.store.subscriptions)
    {k : List SubscriptionRow → Billing Unit}
    (h0 : m.threads[0]? = some (.call (.subscriptionsFind due now) k)) (hgood : ¬ SelectsPaidUp m (.thread 0))
    (h : due.Finds now r) : ¬ PaidUp now r := by
  cases due with
  | expiring =>
    rintro ⟨e, he, hlt⟩
    have hle := h.2
    rw [he, Option.any_some, decide_eq_true_eq] at hle
    omega
  | gracePeriodExpired => exact fun hp => hgood ⟨now, k, rfl, h0, r, hr, h, hp⟩

/-- The turn in which a pass selects its rows. -/
theorem MonitorState.select {due : Due} {now : Nat} (h : MonitorState text m₀ past m (.select due now) clocks)
    (hr : m₀.run past = .ok m) {k : List SubscriptionRow → Billing Unit}
    (h0 : m.threads[0]? = some (.call (.subscriptionsFind due now) k)) (hgood : ¬ SelectsPaidUp m (.thread 0))
    (hmonitor : n.threads[0]? = some (((MonitorStage.select due now).next m.store).program text))
    (hrenewals : ∀ i p, n.threads[i + 1]? = some p → Keeps (allowing BillingCommand.Renews) (fun _ _ => True) () p)
    (hstore : n.store.subscriptions = m.store.subscriptions) :
    MonitorState text m₀ (past ++ [.thread 0]) n ((MonitorStage.select due now).next m.store)
      (Function.update clocks due (some now)) where
  monitor := hmonitor
  renewals := hrenewals
  ids := hstore ▸ h.ids
  selected := by
    intro due' now'
    have hnone : clocks due = none := h.before due (.inl rfl)
    rw [HasSelected, heard_snoc_self hr h0, Finds, BillingCommand.subscriptionsFind.injEq]
    by_cases hd : due' = due
    · subst hd
      rw [Function.update_self, Option.some.injEq]
      refine ⟨?_, fun he => .inr ⟨rfl, he⟩⟩
      rintro (hsel | ⟨-, rfl⟩)
      · rw [show Heard _ _ _ _ _ _ ↔ _ from h.selected due' now', hnone] at hsel
        cases hsel
      · rfl
    · rw [Function.update_of_ne hd, ← h.selected]
      exact or_iff_left fun he => hd he.1.symm
  before := by
    intro due' hs
    obtain ⟨rfl, rfl⟩ := MonitorStage.isBefore_through hs
    rw [Function.update_of_ne (by simp)]
    exact h.before _ (.inr rfl)
  moved := by
    intro due' id hmoved
    rw [hasMoved_snoc_iff hr h0 not_moves_find] at hmoved
    by_cases hd : due' = due
    · rw [hd, Function.update_self]
      simp
    · rw [Function.update_of_ne hd]
      exact h.moved due' id hmoved
  awaits := by
    intro due' now' sub hsub
    obtain ⟨rfl, rfl, hmem⟩ := MonitorStage.awaits_through hsub
    obtain ⟨hfound, hfinds⟩ := List.mem_filter.1 hmem
    rw [decide_eq_true_eq] at hfinds
    rw [hstore]
    refine ⟨Function.update_self .., ⟨sub, hfound, rfl⟩, ?_⟩
    intro r hr' hid
    -- The primary key: the row with the id is the one that has been selected.
    have hsame : r = sub := List.inj_on_of_nodup_map h.ids hr' hfound hid
    exact hsame ▸ not_paidUp_of_finds hfound h0 hgood hfinds
  kept := by
    intro r hr' due' now' hclock hmoved hstatus
    rw [hasMoved_snoc_iff hr h0 not_moves_find] at hmoved
    have hsome := h.moved due' r.id hmoved
    by_cases hd : due' = due
    · exact absurd (h.before due (.inl rfl)) (hd ▸ hsome)
    · rw [Function.update_of_ne hd] at hclock
      exact h.kept r (hstore ▸ hr') due' now' hclock hmoved hstatus

/-- The update of a pass moves the row it is for. -/
theorem moves_update_iff {due due' : Due} {now : Nat} {id id' : Uuid} :
    Moves due' id' (.subscriptionsUpdate id (due.data now)) ↔ due' = due ∧ id' = id := by
  have hstatus : (due.data now).status = some due.status := by cases due <;> rfl
  constructor
  · rintro ⟨data, hc, hs⟩
    cases hc
    rw [hstatus, Option.some.injEq] at hs
    exact ⟨(Due.status_injective hs).symm, rfl⟩
  · rintro ⟨rfl, rfl⟩
    exact ⟨_, rfl, hstatus⟩

/-- The turn in which the monitor moves a row. -/
theorem MonitorState.move {due : Due} {now : Nat} {sub : SubscriptionRow} {subs : List SubscriptionRow}
    (h : MonitorState text m₀ past m (.move due now sub subs) clocks) (hr : m₀.run past = .ok m)
    {k : List SubscriptionRow → Billing Unit} (h0 : m.threads[0]? = some (.call (.subscriptionsUpdate sub.id (due.data now)) k))
    (hmonitor : n.threads[0]? = some ((MonitorStage.notify due now sub subs).program text))
    (hrenewals : ∀ i p, n.threads[i + 1]? = some p → Keeps (allowing BillingCommand.Renews) (fun _ _ => True) () p)
    (hstore : n.store.subscriptions = Rows.updateAt SubscriptionRow.id sub.id (due.data now).set m.store.subscriptions) :
    MonitorState text m₀ (past ++ [.thread 0]) n (.notify due now sub subs) clocks := by
  have hend : ∀ r, ((due.data now).set r).currentPeriodEnd = r.currentPeriodEnd := by cases due <;> exact fun _ => rfl
  have hset : ∀ r, ((due.data now).set r).status = due.status := by cases due <;> exact fun _ => rfl
  have hpaid : ∀ t r, PaidUp t ((due.data now).set r) ↔ PaidUp t r := by
    intro t r
    rw [PaidUp, hend, PaidUp]
  refine ⟨hmonitor, hrenewals, ?_, ?_, fun due' hs => h.before due' hs, ?_, ?_, ?_⟩
  · rw [hstore, updateAt_ids]
    exact h.ids
  · intro due' now'
    exact (hasSelected_snoc_iff hr h0 (by simp)).trans (h.selected due' now')
  · intro due' id hmoved
    rw [HasMoved, heard_snoc_self hr h0, moves_update_iff] at hmoved
    rcases hmoved with hmoved | ⟨rfl, -⟩
    · exact h.moved due' id hmoved
    · rw [(h.awaits due' now sub ⟨rfl, rfl, List.mem_cons_self ..⟩).1]
      simp
  · rintro due' now' sub' ⟨rfl, rfl, hmem⟩
    obtain ⟨hclock, ⟨r, hr', hid⟩, hnot⟩ := h.awaits due now sub' ⟨rfl, rfl, List.mem_cons_of_mem _ hmem⟩
    rw [hstore]
    refine ⟨hclock, ?_, ?_⟩
    · by_cases hsub : r.id = sub.id
      · exact ⟨_, mem_updateAt.2 ⟨r, hr', .inr ⟨hsub, rfl⟩⟩, hid⟩
      · exact ⟨r, mem_updateAt.2 ⟨r, hr', .inl ⟨hsub, rfl⟩⟩, hid⟩
    · intro r' hmem' hid'
      obtain ⟨r, hr', ⟨-, rfl⟩ | ⟨-, rfl⟩⟩ := mem_updateAt.1 hmem'
      · exact hnot r' hr' hid'
      · rw [hpaid]
        exact hnot r hr' hid'
  · intro r' hmem' due' now' hclock hmoved hs
    rw [HasMoved, heard_snoc_self hr h0, moves_update_iff] at hmoved
    rw [hstore] at hmem'
    obtain ⟨r, hr', ⟨hne, rfl⟩ | ⟨hid, rfl⟩⟩ := mem_updateAt.1 hmem'
    · exact h.kept r' hr' due' now' hclock (hmoved.resolve_right fun he => hne he.2) hs
    · rw [hpaid]
      have hdue : due = due' := Due.status_injective ((hset r).symm.trans hs)
      subst hdue
      obtain ⟨hclock', -, hnot⟩ := h.awaits due now sub ⟨rfl, rfl, List.mem_cons_self ..⟩
      rw [hclock, Option.some.injEq] at hclock'
      subst hclock'
      exact hnot r hr' hid

/-- The turn of the monitor. -/
theorem MonitorState.own (h : MonitorState text m₀ past m s clocks) (hr : m₀.run past = .ok m) {c : BillingCommand}
    {k : c.Reply → Billing Unit} (h0 : m.threads[0]? = some (.call c k)) (hgood : ¬ SelectsPaidUp m (.thread 0)) :
    ∃ s' clocks', MonitorState text m₀ (past ++ [.thread 0])
      { store := (m.store.exec c).2, threads := m.threads.set 0 (k (m.store.exec c).1) } s' clocks' := by
  have hlt : 0 < m.threads.length := (List.getElem?_eq_some_iff.1 h0).1
  have hp : s.program text = .call c k := Option.some.inj (h.monitor.symm.trans h0)
  have hmonitor : (m.threads.set 0 (k (m.store.exec c).1))[0]? = some ((s.next m.store).program text) := by
    rw [List.getElem?_set_self hlt, MonitorStage.program_next hp]
  have hrenewals : ∀ i p, (m.threads.set 0 (k (m.store.exec c).1))[i + 1]? = some p →
      Keeps (allowing BillingCommand.Renews) (fun _ _ => True) () p := by
    intro i p hi
    rw [List.getElem?_set_ne (by omega)] at hi
    exact h.renewals i p hi
  have hc := MonitorStage.program_eq_call hp
  cases s with
  | readClock due =>
    cases hc
    refine ⟨_, clocks, h.quiet hr h0 hmonitor hrenewals rfl (fun _ _ hf => by cases hf) ?_ ?_ fun _ hs => hs⟩
    · rintro due' id ⟨data, he, -⟩
      cases he
    · exact fun _ _ _ hs => hs.elim
  | select due now =>
    cases hc
    exact ⟨_, _, h.select hr h0 hgood hmonitor hrenewals rfl⟩
  | move due now sub subs =>
    cases hc
    exact ⟨_, clocks, h.move hr h0 hmonitor hrenewals rfl⟩
  | notify due now sub subs =>
    cases hc
    refine ⟨_, clocks, h.quiet hr h0 hmonitor hrenewals ?_ (fun _ _ hf => by cases hf) ?_ ?_ ?_⟩
    · simp only [BillingDb.exec]
      split <;> rfl
    · rintro due' id ⟨data, he, -⟩
      cases he
    · exact fun _ _ _ hs => MonitorStage.awaits_through hs
    · exact fun _ hs => MonitorStage.isBefore_through hs
  | done => cases hc

/-- Every turn keeps it, where no selected subscription is renewed and no paid-up one selected. -/
theorem MonitorState.step (h : MonitorState text m₀ past m s clocks) (hr : m₀.run past = .ok m)
    (ht : Interleaving.step BillingDb.exec BillingDb.elapse m t = .ok n) (hrenews : ¬ RenewsSelected m₀ past m t)
    (hselects : ¬ SelectsPaidUp m t) : ∃ s' clocks', MonitorState text m₀ (past ++ [t]) n s' clocks' := by
  rcases step_cases ht with ⟨ms, rfl, rfl⟩ | ⟨i, c, k, rfl, hi, rfl⟩
  · exact ⟨s, clocks, h.other hr (by simp) rfl h.renewals (renewing_of_same (c := .newDate) h.ids rfl)
      fun _ _ _ _ _ _ hc => by cases hc⟩
  · cases i with
    | zero => exact h.own hr hi hselects
    | succ i => exact ⟨s, clocks, h.renewal hr hi hrenews⟩

/-- In every state that a run of the monitor beside renewals reaches no paid-up subscription is demoted, when no subscription that the
monitor has selected is renewed before the monitor has moved it, and the monitor selects none for suspension that is paid up. -/
theorem paid_up_never_demoted (text : Uuid → String) {db : BillingDb} (hids : (db.subscriptions.map SubscriptionRow.id).Nodup)
    (calls : List RenewCall) {turns : List (Turn Nat)} {m : BillingPool} (hr : (daily text db calls).run turns = .ok m)
    (hgood : ∀ past t rest n, turns = past ++ t :: rest → (daily text db calls).run past = .ok n →
      ¬ RenewsSelected (daily text db calls) past n t ∧ ¬ SelectsPaidUp n t) : NeverDemoted (daily text db calls) turns m := by
  have hinv : ∃ s clocks, MonitorState text (daily text db calls) turns m s clocks := by
    refine Steps.run_invariant_of_allowed (Interleaving.step BillingDb.exec BillingDb.elapse)
      (fun past n => ∃ s clocks, MonitorState text (daily text db calls) past n s clocks) ?_ ?_ hr hgood
    · exact ⟨_, _, monitorState_start hids⟩
    · rintro past t n n' hn ⟨s, clocks, h⟩ ⟨hrenews, hselects⟩ ht
      exact h.step hn ht hrenews hselects
  obtain ⟨s, clocks, h⟩ := hinv
  exact h.neverDemoted

namespace Sample

/-- A text for the ids of the samples. -/
def uuidText : Uuid → String
  | .given n => toString n
  | _ => ""

def org (id : Uuid) : OrganizationRow := { id, name := "o", legalName := none, createdByUserId := none }

/-- The subscription of an organisation, whose period is over. -/
def overdue (id orgId : Uuid) : SubscriptionRow :=
  { id, orgId, plan := .pro, status := .active, currentPeriodStart := some 0, currentPeriodEnd := some 500, gracePeriodEnd := none,
    amount := 0, currency := "SGD" }

/-- Two organisations, of which the first has a subscription. -/
def billingDb : BillingDb :=
  { now := 1000, users := [], organizations := [org (.given 1), org (.given 2)], subscriptions := [overdue (.given 10) (.given 1)],
    invoices := [], preferences := [], notifications := [] }

/-- The renewal of an organisation for a year. -/
def renewal (orgId : Uuid) : RenewCall :=
  { drawn := { subscriptionId := .given 20, pick := 0 }, orgId, userOrgId := some orgId, dto := { plan := .pro, durationMonths := 12 } }

/-- The monitor beside the renewal of an organisation, which comes between the query of the first pass and its update. -/
def renewing (orgId : Uuid) : BillingPool := daily uuidText billingDb [renewal orgId]

def between : List (Turn Nat) := .replicate 2 (.thread 0) ++ .replicate 4 (.thread 1) ++ .replicate 4 (.thread 0)

end Sample

/-- The turn changes no period, and it selects nothing for suspension. -/
def KeepsPeriods (m : BillingPool) : Turn Nat → Prop
  | .event _ => True
  | .thread i =>
    match m.threads[i]? with
    | some (.call (.subscriptionsUpdate _ data) _) => data.currentPeriodEnd = none
    | some (.call (.subscriptionsFind .gracePeriodExpired now) _) => ∀ r ∈ m.store.subscriptions, ¬ Due.gracePeriodExpired.Finds now r
    | _ => True

instance (m : BillingPool) (t : Turn Nat) : Decidable (KeepsPeriods m t) := by
  unfold KeepsPeriods
  split
  · infer_instance
  · split <;> infer_instance

/-- Where periods are kept, no turn does either. -/
theorem KeepsPeriods.allowed (h : KeepsPeriods m t) : ¬ RenewsSelected m₀ past m t ∧ ¬ SelectsPaidUp m t := by
  constructor
  · rintro ⟨i, id, data, k, due, now, e, rfl, hi, -, -, he, -⟩
    simp only [KeepsPeriods, hi] at h
    rw [h] at he
    cases he
  · rintro ⟨now, k, rfl, h0, r, hr, hfinds, -⟩
    simp only [KeepsPeriods, h0] at h
    exact h r hr hfinds

/-- The second organisation subscribes while the monitor moves the subscription of the first. -/
theorem paid_up_never_demoted_sample :
    ∃ m, (Sample.renewing (.given 2)).run Sample.between = .ok m ∧ m.Finished ∧
      NeverDemoted (Sample.renewing (.given 2)) Sample.between m := by
  refine ⟨_, rfl, by decide +kernel, paid_up_never_demoted Sample.uuidText (by decide) [Sample.renewal (.given 2)] rfl ?_⟩
  intro past t rest n hturns hn
  have hall : Steps.AllSteps (Interleaving.step BillingDb.exec BillingDb.elapse) KeepsPeriods (Sample.renewing (.given 2)) Sample.between := by
    decide +kernel
  exact (hall past t rest n hturns hn).allowed

/-- The organisation renews its subscription between the monitor's query and its update. -/
theorem renewed_subscription_demoted :
    ∃ m, (Sample.renewing (.given 1)).run Sample.between = .ok m ∧ m.Finished ∧
      ¬ NeverDemoted (Sample.renewing (.given 1)) Sample.between m := by
  refine ⟨_, rfl, by decide +kernel, ?_⟩
  intro h
  have hselected : HasSelected (Sample.renewing (.given 1)) Sample.between .expiring 1000 :=
    ⟨[.thread 0], _, _, rfl, rfl, _, _, rfl, rfl⟩
  have hmoved : HasMoved (Sample.renewing (.given 1)) Sample.between .expiring (.given 10) :=
    ⟨.replicate 2 (.thread 0) ++ .replicate 4 (.thread 1), _, _, rfl, rfl, _, _, rfl, _, rfl, rfl⟩
  exact h _ (List.mem_singleton_self _) .expiring 1000 hselected hmoved rfl ⟨_, rfl, by decide +kernel⟩

end BrineVault
